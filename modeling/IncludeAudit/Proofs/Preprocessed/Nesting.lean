import IncludeAudit.Proofs.Preprocessed.Shape

/-! # Locations and nesting

A builder keeps two things that nothing ties together: the file of the current line, which every
marker sets, and the open frames, which only markers that enter or leave change.  The locations of
nodes are taken from the first, their places in the tree from the second.

The two agree on text in which every marker that enters no file names the file in which the text
goes on (`KeepsNesting`): there they stay in step line by line (`InStep.feed`), so whatever stands
for a line is located in the file that it lies in (`holdsLocated_finish`).
-/
namespace IncludeAudit

/-- The file whose contents a node of this kind stands for. -/
def NodeKind.contents? : NodeKind → Option Path
  | .unit path => some path
  | .region path => some path
  | .inclusion _ => none
  | .define _ => none

/-- What stands for the contents of a file has that file for its path. -/
theorem Node.path_of_contents? {n : Node} {file : Path} (h : n.kind.contents? = some file) :
    n.path = file := by
  obtain ⟨kind, location?, children⟩ := n
  cases kind <;> cases h <;> rfl

namespace Preprocessed

/-! ## Open files -/

/-- The files that are open at a point of a text. The main file is the outermost one and stays
open. -/
structure OpenFiles where
  innermost : Path
  /-- The files around it, outermost last. -/
  around : List Path

namespace OpenFiles

/-- At the first line of the main file. -/
def start (mainFile : Path) : OpenFiles := ⟨mainFile, []⟩

/-- The files that are open behind a line. There is no answer at a marker that enters no file and
names another one than the file in which the text goes on, or leaves the main file. -/
def next? (o : OpenFiles) : Line → Option OpenFiles
  | .marker _ name enters leaves =>
    if enters then some ⟨⟨name⟩, o.innermost :: o.around⟩
    else if leaves then
      match o.around with
      | [] => none
      | file :: around => if name = file.text then some ⟨file, around⟩ else none
    else if name = o.innermost.text then some o else none
  | _ => some o

end OpenFiles

/-- Every marker of some lines that enters no file names the file in which the text goes on, and
none leaves the main file. -/
def KeepsNesting (mainFile : Path) (ls : List Line) : Prop :=
  (ls.foldlM OpenFiles.next? (.start mainFile)).isSome = true

instance (mainFile : Path) (ls : List Line) : Decidable (KeepsNesting mainFile ls) :=
  inferInstanceAs (Decidable (_ = true))

/-! ## Located nodes -/

/-- A node is located in a file, or it has no location and the file is none. -/
structure LocatedIn (file : Path) (n : Node) : Prop where
  located : ∀ l, n.location? = some l → l.file = file.text
  pseudo : n.location? = none → isPseudoFile file.text = true

/-- What stands for a line directly below a node is located in the file of that node. -/
def HoldsLocated (n : Node) : Prop :=
  ∀ c ∈ n.children, StandsForLine c → ∃ file, n.kind.contents? = some file ∧ LocatedIn file c

/-- What may stand in a file. -/
structure SitsIn (file : Path) (n : Node) : Prop where
  own : StandsForLine n → LocatedIn file n
  below : ∀ m : Node, m.Within n → HoldsLocated m

/-- A region stands for a file, which is why `HoldsLocated` asks nothing of regions. -/
theorem not_standsForLine_region {file : Path} {location? : Option Location}
    {children : List Node} : ¬ StandsForLine ⟨.region file, location?, children⟩ := by
  rintro (⟨_, h⟩ | ⟨_, h⟩) <;> cases h

/-- A node without children need only be located itself. -/
theorem SitsIn.leaf {file : Path} {kind : NodeKind} {location? : Option Location}
    (h : LocatedIn file (.leaf kind location?)) : SitsIn file (.leaf kind location?) := by
  refine ⟨fun _ => h, fun m hm => ?_⟩
  cases hm with
  | self => exact fun c hc => absurd hc List.not_mem_nil
  | child hc => exact absurd hc List.not_mem_nil

/-- In a tree with a file at its root everything is located in the file that it lies in, if that is
so of everything that sits directly in the root. -/
theorem holdsLocated_of_within {kind : NodeKind} {file : Path} {items : List Node}
    (hkind : kind.contents? = some file) (h : ∀ n ∈ items, SitsIn file n) {m : Node}
    (hm : m.Within ⟨kind, none, items⟩) : HoldsLocated m := by
  cases hm with
  | self => exact fun c hc hw => ⟨file, hkind, (h c hc).own hw⟩
  | @child c _ hc hm => exact (h c hc).below m hm

/-- A file may stand in any other one, since a region is for no line of it. -/
theorem SitsIn.region {around file : Path} {items : List Node} (h : ∀ n ∈ items, SitsIn file n) :
    SitsIn around ⟨.region file, none, items⟩ :=
  ⟨fun hw => absurd hw not_standsForLine_region, fun _ hm => holdsLocated_of_within rfl h hm⟩

/-- A directive gets the file that it entered. -/
theorem SitsIn.push_region {around file : Path} {d : Node} {items : List Node}
    (hd : LocatedIn around d) (hchildren : d.children = []) (h : ∀ n ∈ items, SitsIn file n) :
    SitsIn around (d.push ⟨.region file, none, items⟩) := by
  have hpush : (d.push ⟨.region file, none, items⟩).children = [⟨.region file, none, items⟩] := by
    rw [Node.push, hchildren]
    rfl
  refine ⟨fun _ => ⟨hd.located, hd.pseudo⟩, fun m hm => ?_⟩
  cases hm with
  | self =>
    intro c hc hw
    rw [hpush, List.mem_singleton] at hc
    exact absurd (hc ▸ hw) not_standsForLine_region
  | child hc hm =>
    rw [hpush, List.mem_singleton] at hc
    exact holdsLocated_of_within rfl h (hc ▸ hm)

/-! ## Open frames -/

/-- Some open frames and their files, both innermost first. Each frame holds nodes that may stand in
its file, and the directive that entered it may stand in the file around. -/
inductive FramesOf : List Frame → List Path → Prop
  | main {path : Path} {recent : List Node} (h : ∀ n ∈ recent, SitsIn path n) :
    FramesOf [⟨.unit path, recent, none⟩] [path]
  | entered {file around : Path} {recent : List Node} {opener? : Option Node} {g : Frame}
      {below : List Frame} {outer : List Path} (h : ∀ n ∈ recent, SitsIn file n)
      (hopener : ∀ d, opener? = some d → d.children = [] ∧ LocatedIn around d)
      (hbelow : FramesOf (g :: below) (around :: outer)) :
    FramesOf (⟨.region file, recent, opener?⟩ :: g :: below) (file :: around :: outer)

namespace FramesOf

variable {f g : Frame} {below : List Frame} {file around : Path} {outer : List Path}

/-- What the innermost frame holds may stand in the innermost file. -/
theorem sitsIn (h : FramesOf (f :: below) (file :: outer)) : ∀ n ∈ f.recent, SitsIn file n := by
  cases h with
  | main h => exact h
  | entered h _ _ => exact h

theorem replace (h : FramesOf (f :: below) (file :: outer)) {recent : List Node}
    (hr : ∀ n ∈ recent, SitsIn file n) :
    FramesOf ({ f with recent := recent } :: below) (file :: outer) := by
  cases h with
  | main _ => exact .main hr
  | entered _ hopener hbelow => exact .entered hr hopener hbelow

/-- A node that may stand in the innermost file may be put into its frame. -/
theorem push (h : FramesOf (f :: below) (file :: outer)) {n : Node} (hn : SitsIn file n) :
    FramesOf (f.push n :: below) (file :: outer) :=
  h.replace (List.forall_mem_cons.2 ⟨hn, h.sitsIn⟩)

/-- What the innermost frame becomes may stand in the file around it. -/
theorem sitsIn_close (h : FramesOf (f :: g :: below) (file :: around :: outer)) :
    SitsIn around f.close := by
  cases h with
  | @entered _ _ recent opener? _ _ _ h hopener _ =>
    have hitems : ∀ n ∈ recent.reverse, SitsIn file n := fun n hn => h n (List.mem_reverse.1 hn)
    cases opener? with
    | none => exact .region hitems
    | some d =>
      obtain ⟨hchildren, hd⟩ := hopener d rfl
      exact .push_region hd hchildren hitems

/-- A file around the innermost one has a frame too. -/
theorem exists_below (h : FramesOf (f :: below) (file :: around :: outer)) :
    ∃ g rest, below = g :: rest := by
  cases h with
  | entered _ _ _ => exact ⟨_, _, rfl⟩

theorem tail (h : FramesOf (f :: g :: below) (file :: around :: outer)) :
    FramesOf (g :: below) (around :: outer) := by
  cases h with
  | entered _ _ hbelow => exact hbelow

/-- The innermost file ends. -/
theorem close (h : FramesOf (f :: g :: below) (file :: around :: outer)) :
    FramesOf (g.push f.close :: below) (around :: outer) :=
  h.tail.push h.sitsIn_close

/-- When all files have ended, everything is located in the file that it lies in. -/
theorem holdsLocated_foldl_close (h : FramesOf (f :: below) (file :: outer)) :
    ∀ m : Node, m.Within (below.foldl (fun n f => (f.push n).close) f.close) →
      HoldsLocated m := by
  induction below generalizing f file outer with
  | nil =>
    cases h with
    | main h => exact fun m => holdsLocated_of_within rfl fun n hn => h n (List.mem_reverse.1 hn)
  | cons g below ih =>
    cases outer with
    | nil => cases h
    | cons around outer => exact ih h.close

end FramesOf

/-! ## Reading -/

namespace Builder

/-- A builder is at a line of the innermost of some open files, and its frames are theirs. -/
structure InStep (o : OpenFiles) (b : Builder) : Prop where
  file : b.file = o.innermost.text
  frames : FramesOf (b.top :: b.below) (o.innermost :: o.around)

namespace InStep

variable {mainFile : Path} {o o' : OpenFiles} {b : Builder}

theorem start (mainFile : Path) : InStep (.start mainFile) (.start mainFile) :=
  ⟨rfl, .main fun _ hn => absurd hn List.not_mem_nil⟩

/-- A node for the current line is located in the innermost file. -/
theorem locatedIn (h : InStep o b) (kind : NodeKind) :
    LocatedIn o.innermost (.leaf kind b.location?) := by
  refine ⟨fun l hl => ?_, fun hl => ?_⟩
  · obtain ⟨_, rfl⟩ := location?_eq_some_iff.1 hl
    exact h.file
  · rw [← h.file]
    exact location?_eq_none_iff.1 hl

/-- The frames once a file has been entered. A directive that waits for it may stand in the file
around. -/
theorem framesOf_enter (h : InStep o b) (hs : Sound mainFile b) (file : Path) :
    FramesOf ((b.enter file).top :: (b.enter file).below)
      (file :: o.innermost :: o.around) := by
  cases hp : b.pending with
  | false =>
    rw [enter_of_not_pending hp]
    exact .entered nofun nofun h.frames
  | true =>
    obtain ⟨n, recent, hr, ⟨d, hkind, _⟩, hchildren, _⟩ := hs.pending hp
    have hsits : ∀ m ∈ n :: recent, SitsIn o.innermost m := hr ▸ h.frames.sitsIn
    have hn : LocatedIn o.innermost n := (hsits n (List.mem_cons_self ..)).own (.inl ⟨d, hkind⟩)
    rw [enter_of_pending hp hr]
    refine .entered nofun (fun e he => ?_)
      (h.frames.replace fun m hm => hsits m (List.mem_cons_of_mem n hm))
    obtain rfl := Option.some.inj he
    rw [opened, hkind]
    exact ⟨hchildren, hn.located, hn.pseudo⟩

/-- The frames once the innermost of several files has ended. -/
theorem framesOf_leave (h : InStep o b) {file : Path} {around : List Path}
    (ho : o.around = file :: around) :
    FramesOf (b.leave.top :: b.leave.below) (file :: around) := by
  have hframes := h.frames
  rw [ho] at hframes
  obtain ⟨g, below, hb⟩ := hframes.exists_below
  rw [hb] at hframes
  rw [leave_of_below_cons hb]
  exact hframes.close

/-- **One line keeps the two in step.** -/
theorem feed (h : InStep o b) (hs : Sound mainFile b) {l : Line} (hl : o.next? l = some o') :
    InStep o' (b.feed l) := by
  cases l with
  | marker line name enters leaves =>
    rw [OpenFiles.next?] at hl
    cases enters with
    | true =>
      cases hl
      exact ⟨rfl, h.framesOf_enter hs ⟨name⟩⟩
    | false =>
      cases leaves with
      | true =>
        cases ho : o.around with
        | nil =>
          rw [ho] at hl
          cases hl
        | cons file around =>
          simp only [ho, Bool.false_eq_true, if_false, if_true, Option.ite_none_right_eq_some,
            Option.some.injEq] at hl
          obtain ⟨rfl, rfl⟩ := hl
          exact ⟨rfl, h.framesOf_leave ho⟩
      | false =>
        simp only [Bool.false_eq_true, if_false, Option.ite_none_right_eq_some,
          Option.some.injEq] at hl
        obtain ⟨rfl, rfl⟩ := hl
        exact ⟨rfl, h.frames⟩
  | inclusion keyword spelling angled =>
    cases hl
    exact ⟨h.file, h.frames.push (.leaf (h.locatedIn _))⟩
  | define name =>
    cases hl
    exact ⟨h.file, h.frames.push (.leaf (h.locatedIn _))⟩
  | blank =>
    cases hl
    exact ⟨h.file, h.frames⟩
  | text =>
    cases hl
    exact ⟨h.file, h.frames⟩

/-- Lines that keep to the nesting keep the two in step, since the answer of `OpenFiles.next?` at
each of them is what `feed` asks for. -/
theorem foldl_feed (h : InStep o b) (hs : Sound mainFile b) {ls : List Line}
    (hls : ls.foldlM OpenFiles.next? o = some o') : InStep o' (ls.foldl Builder.feed b) := by
  induction ls generalizing o b with
  | nil =>
    cases hls
    exact h
  | cons l ls ih =>
    rw [List.foldlM_cons] at hls
    obtain ⟨o₁, hl, hls⟩ := Option.bind_eq_some_iff.1 hls
    exact ih (h.feed hs hl) (hs.feed l) hls

end InStep

/-- Lines that keep to the nesting are read as a tree in which everything is located in the file
that it lies in. -/
theorem holdsLocated_finish {mainFile : Path} {ls : List Line} (h : KeepsNesting mainFile ls) :
    ∀ m : Node, m.Within (ls.foldl Builder.feed (.start mainFile)).finish → HoldsLocated m := by
  obtain ⟨o, ho⟩ := Option.isSome_iff_exists.1 h
  have hstep := (InStep.start mainFile).foldl_feed (Sound.start mainFile) ho
  exact hstep.frames.holdsLocated_foldl_close

end Builder

end Preprocessed

end IncludeAudit
