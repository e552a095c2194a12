import IncludeAudit.Proofs.Preprocessed.Builder
import IncludeAudit.Proofs.Tree

/-! # The shape of a preprocessing tree

Text of any kind, also text that leaves files it never entered or breaks off inside one, is read as
a tree of one shape (`Shaped`): files nested in files, with directives and macro definitions
directly in them, and below a directive just the file that it entered.  Such trees are the ones that
are put together from a few kinds of items (`shaped_iff`), and at every line the open frames hold
items and nothing else (`Sound.feed`), so that closing them leaves such a tree.
-/
namespace IncludeAudit.Preprocessed

/-! ## Shapes -/

/-- A location, if there is one, belongs to a file. -/
def InFile (location? : Option Location) : Prop :=
  ∀ l, location? = some l → isPseudoFile l.file = false

/-- A node that stands for a line of a file. -/
def StandsForLine (n : Node) : Prop :=
  (∃ d, n.kind = .inclusion d) ∨ ∃ name, n.kind = .define name

/-- What holds of a node below the root, whatever lies around it. -/
structure Fits (n : Node) : Prop where
  /-- It does not stand for a translation unit. -/
  kind : ∀ path, n.kind ≠ .unit path
  region : ∀ file, n.kind = .region file → n.location? = none
  define : ∀ name, n.kind = .define name → n.children = []
  /-- Below a directive lies the file that it entered, and nothing if it entered none. -/
  inclusion : ∀ d, n.kind = .inclusion d →
    n.children.map Node.kind = (d.file?.map NodeKind.region).toList
  /-- Only a file has directives and macro definitions directly below it. -/
  parent : ∀ c ∈ n.children, StandsForLine c → ∃ file, n.kind = .region file
  location : InFile n.location?

/-- The shape of the tree of a translation unit. -/
structure Shaped (mainFile : Path) (root : Node) : Prop where
  kind : root.kind = .unit mainFile
  location : root.location? = none
  below : ∀ c ∈ root.children, ∀ m : Node, m.Within c → Fits m

/-- What such a tree consists of. -/
inductive Item : Node → Prop
  | region (file : Path) {items : List Node} (h : ∀ n ∈ items, Item n) :
    Item ⟨.region file, none, items⟩
  | define (name : String) {location? : Option Location} (hl : InFile location?) :
    Item ⟨.define name, location?, []⟩
  | unopened (keyword : Keyword) (spelling : String) (angled : Bool)
      {location? : Option Location} (hl : InFile location?) :
    Item ⟨.inclusion ⟨keyword, spelling, angled, none⟩, location?, []⟩
  | opened (keyword : Keyword) (spelling : String) (angled : Bool) (file : Path)
      {location? : Option Location} (hl : InFile location?) {items : List Node}
      (h : ∀ n ∈ items, Item n) :
    Item ⟨.inclusion ⟨keyword, spelling, angled, some file⟩, location?,
      [⟨.region file, none, items⟩]⟩

/-- Below a region anything may lie, as far as the region itself goes: `Fits` asks nothing more of
the children than that a file holds them. -/
theorem fits_region {file : Path} {children : List Node} : Fits ⟨.region file, none, children⟩ where
  kind := nofun
  region _ _ := rfl
  define := nofun
  inclusion := nofun
  parent _ _ _ := ⟨file, rfl⟩
  location := nofun

/-- A macro definition fits if it is a leaf. -/
theorem fits_define {name : String} {location? : Option Location} (hl : InFile location?) :
    Fits ⟨.define name, location?, []⟩ where
  kind := nofun
  region := nofun
  define _ _ := rfl
  inclusion := nofun
  parent := nofun
  location := hl

/-- A directive that entered no file fits if it is a leaf. -/
theorem fits_unopened {d : Inclusion} {location? : Option Location} (hd : d.file? = none)
    (hl : InFile location?) : Fits ⟨.inclusion d, location?, []⟩ where
  kind := nofun
  region := nofun
  define := nofun
  inclusion e he := by
    cases he
    rw [hd]
    rfl
  parent := nofun
  location := hl

/-- A directive that entered a file fits if that file is all there is below it. -/
theorem fits_opened {d : Inclusion} {file : Path} {location? : Option Location} {n : Node}
    (hd : d.file? = some file) (hn : n.kind = .region file) (hl : InFile location?) :
    Fits ⟨.inclusion d, location?, [n]⟩ where
  kind := nofun
  region := nofun
  define := nofun
  inclusion e he := by
    cases he
    rw [hd, List.map_singleton, hn]
    rfl
  parent c hc hw := by
    -- the only child is a file
    rw [List.mem_singleton.1 hc, StandsForLine, hn] at hw
    rcases hw with ⟨_, h⟩ | ⟨_, h⟩ <;> cases h
  location := hl

/-- The nodes of a file fit if those of everything directly in it do. Both kinds of items that hold
a file, a region by itself and one below its directive, come down to this. -/
theorem fits_of_within_region {file : Path} {items : List Node} {m : Node}
    (ih : ∀ n ∈ items, ∀ m : Node, m.Within n → Fits m)
    (hm : m.Within ⟨.region file, none, items⟩) : Fits m := by
  cases hm with
  | self => exact fits_region
  | @child c _ hc hm => exact ih c hc m hm

/-- Every node of an item fits. -/
theorem Item.fits {n : Node} (h : Item n) : ∀ m : Node, m.Within n → Fits m := by
  induction h with
  | region file _ ih => exact fun m hm => fits_of_within_region ih hm
  | define name hl =>
    intro m hm
    cases hm with
    | self => exact fits_define hl
    | child hc => exact absurd hc List.not_mem_nil
  | unopened keyword spelling angled hl =>
    intro m hm
    cases hm with
    | self => exact fits_unopened rfl hl
    | child hc => exact absurd hc List.not_mem_nil
  | opened keyword spelling angled file hl _ ih =>
    intro m hm
    cases hm with
    | self => exact fits_opened rfl rfl hl
    | child hc hm =>
      rw [List.mem_singleton.1 hc] at hm
      exact fits_of_within_region ih hm

mutual

/-- The converse: the kind of a node says which item it is, and `Fits` leaves no other choice for
its location and children. -/
theorem item_of_fits : (n : Node) → (∀ m : Node, m.Within n → Fits m) → Item n
  | ⟨kind, location?, children⟩, h => by
    have hn : Fits ⟨kind, location?, children⟩ := h _ .self
    have hchildren : ∀ c ∈ children, Item c :=
      items_of_fits children fun c hc m hm => h m (.child hc hm)
    cases kind with
    | unit path => exact absurd rfl (hn.kind path)
    | region file =>
      obtain rfl : location? = none := hn.region file rfl
      exact .region file hchildren
    | define name =>
      obtain rfl : children = [] := hn.define name rfl
      exact .define name hn.location
    | inclusion d =>
      obtain ⟨keyword, spelling, angled, file?⟩ := d
      have hkinds := hn.inclusion _ rfl
      cases file? with
      | none =>
        obtain rfl : children = [] := List.map_eq_nil_iff.1 hkinds
        exact .unopened keyword spelling angled hn.location
      | some file =>
        obtain ⟨r, rfl, hr⟩ := List.map_eq_singleton_iff.1 hkinds
        -- the child is an item of which the kind is known
        cases hchildren r (List.mem_singleton_self r) with
        | region f hitems =>
          cases hr
          exact .opened keyword spelling angled file hn.location hitems
        | define => cases hr
        | unopened => cases hr
        | opened => cases hr

/-- The same for the nodes below one; the two recursions follow the tree together. -/
theorem items_of_fits : (ns : List Node) → (∀ n ∈ ns, ∀ m : Node, m.Within n → Fits m) →
    ∀ n ∈ ns, Item n
  | [], _ => fun _ hn => absurd hn List.not_mem_nil
  | n :: ns, h => fun c hc => by
    rcases List.mem_cons.1 hc with heq | hc
    · rw [heq]
      exact item_of_fits n (h n (List.mem_cons_self ..))
    · exact items_of_fits ns (fun d hd => h d (List.mem_cons_of_mem n hd)) c hc

end

/-- A tree has the shape of a translation unit just if items are all there is below its root. -/
theorem shaped_iff {mainFile : Path} {root : Node} :
    Shaped mainFile root ↔
      ∃ items, root = ⟨.unit mainFile, none, items⟩ ∧ ∀ n ∈ items, Item n := by
  constructor
  · intro h
    obtain ⟨kind, location?, children⟩ := root
    obtain rfl : kind = .unit mainFile := h.kind
    obtain rfl : location? = none := h.location
    exact ⟨children, rfl, items_of_fits children h.below⟩
  · rintro ⟨items, rfl, hitems⟩
    exact ⟨rfl, rfl, fun c hc => (hitems c hc).fits⟩

/-! ## Open frames -/

/-- A directive for which no file has been entered. -/
def IsUnopened (n : Node) : Prop :=
  (∃ d, n.kind = .inclusion d ∧ d.file? = none) ∧ n.children = [] ∧ InFile n.location?

/-- Should no file be entered for it any more, the directive stays in the tree as it is. -/
theorem IsUnopened.item {n : Node} (h : IsUnopened n) : Item n := by
  obtain ⟨kind, location?, children⟩ := n
  obtain ⟨⟨⟨keyword, spelling, angled, file?⟩, hkind, hfile⟩, hchildren, hl⟩ := h
  cases hkind
  cases hfile
  cases hchildren
  exact .unopened keyword spelling angled hl

/-- A frame of an entered file. If it has a directive, that one has just got its file. -/
structure Frame.IsEntered (f : Frame) : Prop where
  items : ∀ n ∈ f.recent, Item n
  kind : ∃ file, f.kind = .region file ∧
    ∀ d, f.opener? = some d → ∃ n, IsUnopened n ∧ d = Builder.opened file n

/-- What a frame of an entered file becomes is an item. -/
theorem Frame.IsEntered.item_close {f : Frame} (h : f.IsEntered) : Item f.close := by
  obtain ⟨kind, recent, opener?⟩ := f
  obtain ⟨file, rfl, hopener⟩ := h.kind
  have hitems : ∀ n ∈ recent.reverse, Item n := fun n hn => h.items n (List.mem_reverse.1 hn)
  cases opener? with
  | none => exact .region file hitems
  | some d =>
    obtain ⟨⟨kind, location?, children⟩, hn, rfl⟩ := hopener d rfl
    obtain ⟨⟨⟨keyword, spelling, angled, file?⟩, hkind, _⟩, hchildren, hl⟩ := hn
    cases hkind
    cases hchildren
    exact .opened keyword spelling angled file hl hitems

/-- Some open frames, innermost first: those of entered files around that of the main file. -/
inductive Stacked (mainFile : Path) : List Frame → Prop
  | main {recent : List Node} (h : ∀ n ∈ recent, Item n) :
    Stacked mainFile [⟨.unit mainFile, recent, none⟩]
  | entered {f g : Frame} {below : List Frame} (hf : f.IsEntered)
      (h : Stacked mainFile (g :: below)) : Stacked mainFile (f :: g :: below)

namespace Stacked

variable {mainFile : Path} {f g : Frame} {below : List Frame}

theorem items (h : Stacked mainFile (f :: below)) : ∀ n ∈ f.recent, Item n := by
  cases h with
  | main h => exact h
  | entered hf _ => exact hf.items

/-- Other items may stand in the innermost frame. -/
theorem replace (h : Stacked mainFile (f :: below)) {recent : List Node}
    (hr : ∀ n ∈ recent, Item n) : Stacked mainFile ({ f with recent := recent } :: below) := by
  cases h with
  | main _ => exact .main hr
  | entered hf h => exact .entered ⟨hr, hf.kind⟩ h

/-- An item may be put into the innermost frame. -/
theorem push (h : Stacked mainFile (f :: below)) {n : Node} (hn : Item n) :
    Stacked mainFile (f.push n :: below) := by
  refine h.replace fun m hm => ?_
  rcases List.mem_cons.1 hm with rfl | hm
  · exact hn
  · exact h.items m hm

/-- The innermost entered file ends. -/
theorem close (h : Stacked mainFile (f :: g :: below)) :
    Stacked mainFile (g.push f.close :: below) := by
  cases h with
  | entered hf h => exact h.push hf.item_close

/-- When all files have ended, the tree has its shape. -/
theorem shaped_foldl_close (h : Stacked mainFile (f :: below)) :
    Shaped mainFile (below.foldl (fun n f => (f.push n).close) f.close) := by
  induction below generalizing f with
  | nil =>
    cases h with
    | @main recent h =>
      exact shaped_iff.2 ⟨recent.reverse, rfl, fun n hn => h n (List.mem_reverse.1 hn)⟩
  | cons g below ih => exact ih h.close

end Stacked

/-! ## Reading -/

/-- A builder gives no node a location in a pseudo file. -/
theorem inFile_location? (b : Builder) : InFile b.location? := by
  intro l hl
  obtain ⟨hfile, rfl⟩ := Builder.location?_eq_some_iff.1 hl
  exact hfile

namespace Builder

/-- At every line the open frames hold items, and a directive that waits for its file is the last
node of the innermost one. -/
structure Sound (mainFile : Path) (b : Builder) : Prop where
  stacked : Stacked mainFile (b.top :: b.below)
  pending : b.pending = true → ∃ n recent, b.top.recent = n :: recent ∧ IsUnopened n

namespace Sound

variable {mainFile : Path} {b : Builder}

/-- Nothing has been read yet: one frame, and nothing in it. -/
theorem start (mainFile : Path) : Sound mainFile (.start mainFile) :=
  ⟨.main fun _ hn => absurd hn List.not_mem_nil, fun h => Bool.noConfusion h⟩

/-- A file may start at any line. If a directive waits for it, that directive leaves the innermost
frame, which keeps items only, and becomes the opener of the new one. -/
theorem enter (h : Sound mainFile b) (file : Path) : Sound mainFile (b.enter file) := by
  cases hp : b.pending with
  | false =>
    rw [enter_of_not_pending hp]
    exact ⟨.entered ⟨nofun, file, rfl, nofun⟩ h.stacked, nofun⟩
  | true =>
    obtain ⟨n, recent, hr, hn⟩ := h.pending hp
    have hrecent : ∀ m ∈ recent, Item m :=
      fun m hm => h.stacked.items m (hr ▸ List.mem_cons_of_mem n hm)
    rw [enter_of_pending hp hr]
    refine ⟨.entered ⟨nofun, file, rfl, fun d hd => ⟨n, hn, ?_⟩⟩ (h.stacked.replace hrecent), nofun⟩
    exact (Option.some.inj hd).symm

/-- A file may end at any line. Its frame becomes an item of the one around it; the frame of the
main file stays open whatever the text says. -/
theorem leave (h : Sound mainFile b) : Sound mainFile b.leave := by
  cases hb : b.below with
  | nil =>
    rw [leave_of_below_nil hb]
    exact ⟨h.stacked, nofun⟩
  | cons f below =>
    have hs : Stacked mainFile (b.top :: f :: below) := hb ▸ h.stacked
    rw [leave_of_below_cons hb]
    exact ⟨hs.close, nofun⟩

/-- Whatever the next line says. -/
theorem feed (h : Sound mainFile b) (l : Line) : Sound mainFile (b.feed l) := by
  cases l with
  | marker line file enters leaves =>
    have hmoved : Sound mainFile
        (if enters then b.enter ⟨file⟩ else if leaves then b.leave else b) := by
      split
      · exact h.enter ⟨file⟩
      · split
        · exact h.leave
        · exact h
    exact ⟨hmoved.stacked, hmoved.pending⟩
  | inclusion keyword spelling angled =>
    have hn : IsUnopened (.leaf (.inclusion ⟨keyword, spelling, angled, none⟩) b.location?) :=
      ⟨⟨_, rfl, rfl⟩, rfl, inFile_location? b⟩
    exact ⟨h.stacked.push hn.item, fun _ => ⟨_, _, rfl, hn⟩⟩
  | define name => exact ⟨h.stacked.push (.define name (inFile_location? b)), nofun⟩
  | blank => exact ⟨h.stacked, h.pending⟩
  | text => exact ⟨h.stacked, nofun⟩

/-- Whatever the lines say. -/
theorem foldl_feed (h : Sound mainFile b) (ls : List Line) :
    Sound mainFile (ls.foldl Builder.feed b) := by
  induction ls generalizing b with
  | nil => exact h
  | cons l ls ih => exact ih (h.feed l)

/-- Wherever the text breaks off, closing the frames leaves a tree of the shape. -/
theorem shaped_finish (h : Sound mainFile b) : Shaped mainFile b.finish :=
  h.stacked.shaped_foldl_close

end Sound

end Builder

end IncludeAudit.Preprocessed
