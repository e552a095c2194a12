import IncludeAudit.Proofs.Preprocessed.Shape

/-! # Frames in a list

A `Builder` has an innermost frame by its type.  A reader that keeps its frames in a list
(`FrameStack`) must find one there each time it needs it, and could run out of them.  It never does:
at every line it is the builder with its frames in one list (`feed?_ofBuilder`), and at the end it
has the builder's tree (`finish?_ofBuilder`), which has the shape of nested files
(`shaped_ofPreprocessed`).
-/
namespace IncludeAudit.Preprocessed

/-- A reader that keeps its frames in a list, innermost first. Nothing says that there is one. -/
structure FrameStack where
  frames : List Frame
  file : String
  line : Nat
  pending : Bool

namespace FrameStack

/-- At the first line of the main file. -/
def start (mainFile : Path) : FrameStack :=
  ⟨[⟨.unit mainFile, [], none⟩], mainFile.text, 1, false⟩

/-- The location of the current line, if it belongs to a file. -/
def location? (s : FrameStack) : Option Location :=
  if isPseudoFile s.file then none else some ⟨s.file, s.line⟩

/-- Puts a node into the innermost frame, which must be there. -/
def push? (s : FrameStack) (n : Node) : Option FrameStack :=
  match s.frames with
  | [] => none
  | f :: below => some { s with frames := f.push n :: below }

/-- A file starts. A directive that waits for it is looked for in the innermost frame, which must be
there then. -/
def enter? (s : FrameStack) (file : Path) : Option FrameStack :=
  if s.pending then
    match s.frames with
    | [] => none
    | f :: below =>
      some { s with
        frames := ⟨.region file, [], f.recent.head?.map (Builder.opened file)⟩ ::
          { f with recent := f.recent.tail } :: below
        pending := false }
  else some { s with frames := ⟨.region file, [], none⟩ :: s.frames, pending := false }

/-- The innermost file ends if another one is around it. -/
def leave (s : FrameStack) : FrameStack :=
  match s.frames with
  | f :: g :: below => { s with frames := g.push f.close :: below, pending := false }
  | _ => { s with pending := false }

/-- Takes one line; fails if a frame is needed and there is none. -/
def feed? (s : FrameStack) : Line → Option FrameStack
  | .marker line file enters leaves =>
    (if enters then s.enter? ⟨file⟩ else some (if leaves then s.leave else s)).map fun s =>
      { s with file := file, line := line }
  | .inclusion keyword spelling angled =>
    (s.push? (.leaf (.inclusion ⟨keyword, spelling, angled, none⟩) s.location?)).map fun s =>
      { s with line := s.line + 1, pending := true }
  | .define name => (s.push? (.leaf (.define name) s.location?)).map fun s =>
      { s with line := s.line + 1, pending := false }
  | .text => some { s with line := s.line + 1, pending := false }
  | .blank => some { s with line := s.line + 1 }

/-- Closes all frames; fails if there is none. -/
def finish? : List Frame → Option Node
  | [] => none
  | [f] => some f.close
  | f :: g :: below => finish? (g.push f.close :: below)
termination_by frames => frames.length

/-- The frames of a builder in one list. -/
def ofBuilder (b : Builder) : FrameStack := ⟨b.top :: b.below, b.file, b.line, b.pending⟩

/-- The frame in which a waiting directive is looked for is always there. Should it hold no node,
then both readers go on as if no directive had waited. -/
theorem enter?_ofBuilder (b : Builder) (file : Path) :
    (ofBuilder b).enter? file = some (ofBuilder (b.enter file)) := by
  unfold enter?
  cases hp : b.pending with
  | false =>
    rw [Builder.enter_of_not_pending hp]
    simp only [ofBuilder, hp, Bool.false_eq_true, if_false]
  | true =>
    cases hr : b.top.recent with
    | nil =>
      -- without a node in the frame there is no directive to take out of it
      have henter : b.enter file = { b with
          top := ⟨.region file, [], none⟩, below := b.top :: b.below, pending := false } := by
        simp only [Builder.enter.eq_def, hp, hr]
      have htop : { b.top with recent := [] } = b.top := by rw [← hr]
      rw [henter]
      simp only [ofBuilder, hp, hr, if_true, List.head?_nil, Option.map_none, List.tail_nil, htop]
    | cons n recent =>
      rw [Builder.enter_of_pending hp hr]
      simp only [ofBuilder, hp, hr, if_true, List.head?_cons, Option.map_some, List.tail_cons]

/-- Both readers keep the frame of the main file. -/
theorem leave_ofBuilder (b : Builder) : (ofBuilder b).leave = ofBuilder b.leave := by
  cases hb : b.below with
  | nil =>
    rw [Builder.leave_of_below_nil hb]
    simp only [leave, ofBuilder, hb]
  | cons f below =>
    rw [Builder.leave_of_below_cons hb]
    simp only [leave, ofBuilder, hb]

/-- No line asks for a frame that is not there. -/
theorem feed?_ofBuilder (b : Builder) (l : Line) :
    (ofBuilder b).feed? l = some (ofBuilder (b.feed l)) := by
  cases l with
  | marker line file enters leaves =>
    cases enters with
    | true => simp only [feed?, if_true, enter?_ofBuilder, Option.map_some]; rfl
    | false =>
      cases leaves with
      | true => simp only [feed?, if_true, leave_ofBuilder]; rfl
      | false => rfl
  | inclusion keyword spelling angled => rfl
  | define name => rfl
  | text => rfl
  | blank => rfl

/-- So no text asks for a frame that is not there. -/
theorem foldlM_feed? (b : Builder) (ls : List Line) :
    ls.foldlM feed? (ofBuilder b) = some (ofBuilder (ls.foldl Builder.feed b)) := by
  induction ls generalizing b with
  | nil => rfl
  | cons l ls ih =>
    rw [List.foldlM_cons, feed?_ofBuilder]
    exact ih (b.feed l)

/-- Closing the frames one by one needs a single frame to begin with. -/
theorem finish?_cons (f : Frame) (below : List Frame) :
    finish? (f :: below) = some (below.foldl (fun n g => (g.push n).close) f.close) := by
  induction below generalizing f with
  | nil => rw [finish?, List.foldl_nil]
  | cons g below ih => rw [finish?, ih, List.foldl_cons]

theorem finish?_ofBuilder (b : Builder) : finish? (ofBuilder b).frames = some b.finish :=
  finish?_cons b.top b.below

end FrameStack

end IncludeAudit.Preprocessed

namespace IncludeAudit.TranslationUnit

open Preprocessed

/-- **The tree of any text has the shape of nested files.**  After any number of lines there is an
innermost frame, and if a directive waits for its file it is the last node of that frame and has
neither a file nor a child; so a reader with its frames in a list never misses one, neither at a
line nor at the end, and arrives at that tree. -/
theorem shaped_ofPreprocessed (output : String) (mainFile : Path) :
    Shaped mainFile (ofPreprocessed output mainFile).root ∧
      (∀ k, ∃ s f below,
        (((Text.lines output.toList).map Line.classify).take k).foldlM FrameStack.feed?
          (.start mainFile) = some s ∧ s.frames = f :: below ∧
        (s.pending = true → ∃ n recent, f.recent = n :: recent ∧ IsUnopened n)) ∧
      (((Text.lines output.toList).map Line.classify).foldlM FrameStack.feed?
        (.start mainFile)).bind (fun s => FrameStack.finish? s.frames) =
          some (ofPreprocessed output mainFile).root := by
  have hsound (ls : List Line) := (Builder.Sound.start mainFile).foldl_feed ls
  have hrun (ls : List Line) := FrameStack.foldlM_feed? (.start mainFile) ls
  refine ⟨(hsound _).shaped_finish, fun k => ?_, ?_⟩
  · exact ⟨_, _, _, hrun _, rfl, (hsound _).pending⟩
  · rw [show FrameStack.start mainFile = .ofBuilder (.start mainFile) from rfl, hrun]
    exact FrameStack.finish?_ofBuilder _

end IncludeAudit.TranslationUnit
