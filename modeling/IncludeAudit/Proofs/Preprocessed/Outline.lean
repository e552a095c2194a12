import IncludeAudit.Proofs.Preprocessed.Builder
import IncludeAudit.Proofs.Tree

/-! # The tree of a preprocessed text, without a tree

`Builder` keeps a stack of half-built nodes, moves a directive out of its frame when a file is
entered for it, and puts it back when the file ends.  A `Scan` builds nothing: it keeps the position
in the text and the depths of the open regions, and writes down one line of the outline for each
node as it comes by.  The file of a directive is read from the lines that follow (`enteredNext?`),
and whether a region belongs to a directive from the lines before it (`awaitsFile`).

The two agree on every text (`outline_ofPreprocessed`).  At each line the outline of the open frames
is what the scan has written so far, once the directive that waits for its file is given the one
that the rest of the text enters (`outlineWith_feed`).
-/
namespace IncludeAudit.Preprocessed

/-! ## The scan -/

/-- The file that some lines enter, if only blank lines and markers that neither enter nor leave
come before that. -/
def enteredNext? : List Line → Option Path
  | .blank :: rest => enteredNext? rest
  | .marker _ file enters leaves :: rest =>
    if enters then some ⟨file⟩ else if leaves then none else enteredNext? rest
  | _ => none

@[simp] theorem enteredNext?_nil : enteredNext? [] = none := rfl

/-- Whether a directive is the last one of some lines, listed last first, if blank lines and markers
that neither enter nor leave do not count. -/
def awaitsFile : List Line → Bool
  | .inclusion .. :: _ => true
  | .blank :: before => awaitsFile before
  | .marker _ _ enters leaves :: before => !enters && !leaves && awaitsFile before
  | _ => false

/-- What one pass over the lines keeps. -/
structure Scan where
  /-- The lines read so far, last one first. -/
  before : List Line
  file : String
  line : Nat
  /-- The depth of the innermost open region. -/
  depth : Nat
  /-- The depths of the regions around it, outermost last. -/
  outer : List Nat

namespace Scan

/-- At the first line of the main file. -/
def start (mainFile : Path) : Scan := ⟨[], mainFile.text, 1, 0, []⟩

/-- The location of the current line, if it belongs to a file. -/
def location? (s : Scan) : Option Location :=
  if isPseudoFile s.file then none else some ⟨s.file, s.line⟩

/-- The depth of directives and macro definitions. -/
def nodeDepth (s : Scan) : Nat := s.depth + 1

/-- The depth of a region that starts here: below its directive if there is one. -/
def regionDepth (s : Scan) : Nat :=
  if awaitsFile s.before then s.nodeDepth + 1 else s.depth + 1

/-- What a line adds to the outline if `rest` follows it. -/
def emit (s : Scan) (rest : List Line) : Line → List OutlineEntry
  | .marker _ file enters _ => if enters then [⟨s.regionDepth, .region ⟨file⟩, none⟩] else []
  | .inclusion keyword spelling angled =>
    [⟨s.nodeDepth, .inclusion ⟨keyword, spelling, angled, enteredNext? rest⟩, s.location?⟩]
  | .define name => [⟨s.nodeDepth, .define name, s.location?⟩]
  | .text | .blank => []

/-- A region starts. -/
def enter (s : Scan) : Scan := { s with depth := s.regionDepth, outer := s.depth :: s.outer }

/-- The innermost region ends. The root never does. -/
def leave (s : Scan) : Scan :=
  match s.outer with
  | [] => s
  | depth :: outer => { s with depth := depth, outer := outer }

/-- Goes on behind a line. -/
def next (s : Scan) (l : Line) : Scan :=
  match l with
  | .marker line file enters leaves =>
    let moved := if enters then s.enter else if leaves then s.leave else s
    { moved with before := l :: s.before, file := file, line := line }
  | _ => { s with before := l :: s.before, line := s.line + 1 }

/-- What some lines add to the outline. -/
def outline (s : Scan) : List Line → List OutlineEntry
  | [] => []
  | l :: rest => s.emit rest l ++ (s.next l).outline rest

end Scan

/-! ## The outline of open frames -/

namespace Frame

/-- How much deeper than the node it becomes the region of a frame lies. -/
def inset (f : Frame) : Nat := if f.opener?.isSome then 1 else 0

@[simp] theorem inset_push (f : Frame) (n : Node) : (f.push n).inset = f.inset := rfl

/-- The outline of what a frame becomes: the directive if the file was entered for one, below it the
region, and below that what the frame holds. -/
theorem outline_close (f : Frame) (depth : Nat) :
    f.close.outline depth =
      (f.opener?.toList.flatMap fun d => d.outline depth) ++
        ⟨depth + f.inset, f.kind, none⟩ ::
          Node.outlineAll (depth + f.inset + 1) f.recent.reverse := by
  cases h : f.opener? with
  | none => simp [close, inset, h, Node.outline_eq]
  | some directive =>
    simp only [close, inset, h, Node.outline_push, Option.isSome_some, if_true,
      Option.toList_some, List.flatMap_singleton]
    rw [Node.outline_eq (depth + 1)]

/-- A node put into a frame comes at the end of its outline, one below its region. -/
theorem outline_close_push (f : Frame) (n : Node) (depth : Nat) :
    (f.push n).close.outline depth =
      f.close.outline depth ++ n.outline (depth + f.inset + 1) := by
  rw [outline_close, outline_close, inset_push]
  simp [push, Node.outlineAll_append]

end Frame

/-- The depth of what is put into the innermost of some frames, which are listed innermost first. -/
def innerDepth : List Frame → Nat
  | [] => 0
  | f :: below => innerDepth below + f.inset + 1

/-- The depths of the regions of some frames. -/
def regionDepths : List Frame → List Nat
  | [] => []
  | f :: below => (innerDepth below + f.inset) :: regionDepths below

/-- The outline of what some frames hold, outermost frame first. -/
def framesOutline : List Frame → List OutlineEntry
  | [] => []
  | f :: below => framesOutline below ++ f.close.outline (innerDepth below)

/-- A node put into the innermost frame comes at the end of the outline. -/
theorem framesOutline_push (f : Frame) (n : Node) (below : List Frame) :
    framesOutline (f.push n :: below) =
      framesOutline (f :: below) ++ n.outline (innerDepth (f :: below)) := by
  rw [framesOutline, Frame.outline_close_push, ← List.append_assoc]
  rfl

/-- Closing all frames around a node leaves the outline of the frames before that of the node. -/
theorem outline_foldl_close (below : List Frame) (n : Node) :
    (below.foldl (fun n f => (f.push n).close) n).outline 0 =
      framesOutline below ++ n.outline (innerDepth below) := by
  induction below generalizing n with
  | nil => rfl
  | cons f below ih =>
    rw [List.foldl_cons, ih, Frame.outline_close_push, ← List.append_assoc]
    rfl

namespace Builder

/-- At the end of a text the outline of the tree is that of the open frames. -/
theorem outline_finish (b : Builder) :
    b.finish.outline 0 = framesOutline (b.top :: b.below) := by
  rw [finish, outline_foldl_close]
  rfl

/-- The innermost frame, with the file that a waiting directive will get. -/
def topWith (b : Builder) (file? : Option Path) : Frame :=
  match b.pending, b.top.recent, file? with
  | true, n :: recent, some file => { b.top with recent := opened file n :: recent }
  | _, _, _ => b.top

/-- The outline of the open frames, with the file that a waiting directive will get. -/
def outlineWith (b : Builder) (file? : Option Path) : List OutlineEntry :=
  framesOutline (b.topWith file? :: b.below)

/-- No file will be entered, so a directive that waits stays without one. -/
theorem outlineWith_none (b : Builder) : b.outlineWith none = framesOutline (b.top :: b.below) := by
  unfold outlineWith topWith
  split <;> trivial

/-- A file that is entered with no directive waiting changes nothing in the open frames. -/
theorem outlineWith_of_not_pending {b : Builder} (h : b.pending = false) (file? : Option Path) :
    b.outlineWith file? = framesOutline (b.top :: b.below) := by
  simp only [outlineWith, topWith.eq_def, h]

/-- A directive that waits is the last node of the innermost frame. -/
def HoldsPending (b : Builder) : Prop := b.pending = true → b.top.recent ≠ []

/-- The directive that waits is the last entry, and gets the file. -/
theorem outlineWith_some {b : Builder} (hp : b.pending = true) {n : Node} {recent : List Node}
    (hr : b.top.recent = n :: recent) (file : Path) :
    b.outlineWith (some file) =
      framesOutline ({ b.top with recent := recent } :: b.below) ++
        (opened file n).outline (innerDepth (b.top :: b.below)) := by
  simp only [outlineWith, topWith.eq_def, hp, hr]
  exact framesOutline_push { b.top with recent := recent } (opened file n) b.below

/-- At the end of a file nothing is added: its frame goes into the one around it with the outline
that it had. -/
theorem outlineWith_leave (b : Builder) (file? : Option Path) :
    b.leave.outlineWith file? = framesOutline (b.top :: b.below) := by
  unfold leave
  cases hb : b.below with
  | nil => exact outlineWith_of_not_pending rfl file?
  | cons f below =>
    have hclosed := framesOutline_push f b.top.close below
    exact (outlineWith_of_not_pending rfl file?).trans hclosed

end Builder

/-! ## One line -/

/-- A scan and a builder have read the same lines. -/
structure Agrees (s : Scan) (b : Builder) : Prop where
  file : s.file = b.file
  line : s.line = b.line
  pending : awaitsFile s.before = b.pending
  depths : s.depth :: s.outer = regionDepths (b.top :: b.below)
  holdsPending : b.HoldsPending

namespace Agrees

variable {s : Scan} {b : Builder}

theorem start (mainFile : Path) : Agrees (.start mainFile) (.start mainFile) :=
  ⟨rfl, rfl, rfl, rfl, fun h => Bool.noConfusion h⟩

theorem location? (h : Agrees s b) : s.location? = b.location? := by
  rw [Scan.location?, Builder.location?, h.file, h.line]

/-- The depth that the scan keeps is that of the innermost region. -/
theorem depth (h : Agrees s b) : s.depth = innerDepth b.below + b.top.inset :=
  (List.cons.inj h.depths).1

/-- So are the depths around it those of the regions around that one. -/
theorem outer (h : Agrees s b) : s.outer = regionDepths b.below := (List.cons.inj h.depths).2

/-- The scan writes nodes down at the depth at which the builder puts them in. -/
theorem nodeDepth (h : Agrees s b) : s.nodeDepth = innerDepth (b.top :: b.below) := by
  rw [Scan.nodeDepth, h.depth]
  rfl

/-- The region of a file that is entered lies where the scan says. -/
theorem regionDepths_enter (h : Agrees s b) (file : Path) :
    s.regionDepth :: s.depth :: s.outer =
      regionDepths ((b.enter file).top :: (b.enter file).below) := by
  rw [h.depth, h.outer, Scan.regionDepth, h.pending, h.nodeDepth, h.depth]
  cases hp : b.pending with
  | false =>
    rw [Builder.enter_of_not_pending hp]
    rfl
  | true =>
    obtain ⟨n, recent, hr⟩ := List.exists_cons_of_ne_nil (h.holdsPending hp)
    rw [Builder.enter_of_pending hp hr]
    rfl

/-- The end of a file takes one depth from both, and none if only the main file is open. -/
theorem regionDepths_leave (h : Agrees s b) :
    s.leave.depth :: s.leave.outer = regionDepths (b.leave.top :: b.leave.below) := by
  rw [Scan.leave, h.outer, Builder.leave]
  cases hb : b.below with
  | nil =>
    have hd := h.depths
    rw [hb] at hd
    exact hd
  | cons f below => rfl

/-- Reading one line more keeps the two in step. -/
theorem feed (h : Agrees s b) (l : Line) : Agrees (s.next l) (b.feed l) := by
  cases l with
  | marker line file enters leaves =>
    by_cases he : enters = true
    · subst he
      refine ⟨rfl, rfl, ?_, h.regionDepths_enter ⟨file⟩, ?_⟩ <;> unfold Builder.feed Builder.enter
      · simp only [Scan.next, if_true, awaitsFile]
        split <;> rfl
      · simp only [if_true, Builder.HoldsPending]
        split <;> exact fun hp => Bool.noConfusion hp
    · by_cases hl : leaves = true
      · refine ⟨rfl, rfl, ?_, ?_, ?_⟩ <;>
          simp only [Scan.next, Builder.feed, if_neg he, if_pos hl, Builder.HoldsPending]
        · simp only [awaitsFile, hl, Bool.not_true, Bool.and_false, Bool.false_and, Builder.leave]
          split <;> rfl
        · exact h.regionDepths_leave
        · unfold Builder.leave
          split <;> exact fun hp => Bool.noConfusion hp
      · have hawait : awaitsFile (.marker line file enters leaves :: s.before) =
            awaitsFile s.before := by simp [awaitsFile, he, hl]
        refine ⟨rfl, rfl, ?_, ?_, ?_⟩ <;>
          simp only [Scan.next, Builder.feed, if_neg he, if_neg hl]
        · rw [hawait, h.pending]
        · exact h.depths
        · exact h.holdsPending
  | inclusion keyword spelling angled =>
    exact ⟨h.file, congrArg (· + 1) h.line, rfl, h.depths, fun _ => List.cons_ne_nil _ _⟩
  | define name =>
    exact ⟨h.file, congrArg (· + 1) h.line, rfl, h.depths, fun hp => Bool.noConfusion hp⟩
  | blank => exact ⟨h.file, congrArg (· + 1) h.line, h.pending, h.depths, h.holdsPending⟩
  | text => exact ⟨h.file, congrArg (· + 1) h.line, rfl, h.depths, fun hp => Bool.noConfusion hp⟩

/-- The region of a file that is entered comes at the end, and the directive that waited for the
file has it. -/
theorem outlineWith_enter (h : Agrees s b) (file : Path) (file? : Option Path) :
    (b.enter file).outlineWith file? =
      b.outlineWith (some file) ++ [⟨s.regionDepth, .region file, none⟩] := by
  have hdepth : s.regionDepth = innerDepth (b.enter file).below + (b.enter file).top.inset :=
    (List.cons.inj (h.regionDepths_enter file)).1
  rw [hdepth]
  cases hp : b.pending with
  | false =>
    rw [Builder.enter_of_not_pending hp, Builder.outlineWith_of_not_pending rfl,
      Builder.outlineWith_of_not_pending hp]
    rfl
  | true =>
    obtain ⟨n, recent, hr⟩ := List.exists_cons_of_ne_nil (h.holdsPending hp)
    rw [Builder.enter_of_pending hp hr, Builder.outlineWith_of_not_pending rfl,
      Builder.outlineWith_some hp hr]
    simp only [framesOutline, Frame.outline_close, Option.toList_some, List.flatMap_singleton,
      List.reverse_nil, Node.outlineAll_nil, List.append_assoc]
    rfl

/-- **What one line adds.**  The frames behind a line hold what they held before, with the file that
the line may give to a waiting directive, and what the scan writes down for the line. -/
theorem outlineWith_feed (h : Agrees s b) (l : Line) (rest : List Line) :
    (b.feed l).outlineWith (enteredNext? rest) =
      b.outlineWith (enteredNext? (l :: rest)) ++ s.emit rest l := by
  cases l with
  | marker line file enters leaves =>
    by_cases he : enters = true
    · subst he
      exact h.outlineWith_enter ⟨file⟩ (enteredNext? rest)
    · by_cases hl : leaves = true
      · have hnext : enteredNext? (.marker line file enters leaves :: rest) = none := by
          simp [enteredNext?, he, hl]
        simp only [hnext, Scan.emit, if_neg he, List.append_nil, Builder.outlineWith_none,
          Builder.feed, if_pos hl]
        exact b.outlineWith_leave (enteredNext? rest)
      · have hnext :
            enteredNext? (.marker line file enters leaves :: rest) = enteredNext? rest := by
          simp [enteredNext?, he, hl]
        simp only [hnext, Scan.emit, if_neg he, List.append_nil, Builder.feed, if_neg hl]
        rfl
  | inclusion keyword spelling angled =>
    -- the file that follows goes into the directive that has just been put in
    have hnew : (b.feed (.inclusion keyword spelling angled)).outlineWith (enteredNext? rest) =
        framesOutline (b.top.push (.leaf
          (.inclusion ⟨keyword, spelling, angled, enteredNext? rest⟩) b.location?) :: b.below) := by
      cases enteredNext? rest <;> rfl
    rw [hnew, framesOutline_push, Node.outline_leaf, ← h.location?, ← h.nodeDepth]
    exact congrArg (· ++ _) b.outlineWith_none.symm
  | define name =>
    have hnew : (b.feed (.define name)).outlineWith (enteredNext? rest) =
        framesOutline (b.top.push (.leaf (.define name) b.location?) :: b.below) :=
      Builder.outlineWith_of_not_pending rfl _
    rw [hnew, framesOutline_push, Node.outline_leaf, ← h.location?, ← h.nodeDepth]
    exact congrArg (· ++ _) b.outlineWith_none.symm
  | blank => exact (List.append_nil _).symm
  | text =>
    rw [Scan.emit, List.append_nil]
    exact (Builder.outlineWith_of_not_pending rfl _).trans b.outlineWith_none.symm

/-- What the rest of the lines adds. -/
theorem outline_foldl_feed (h : Agrees s b) (ls : List Line) :
    (ls.foldl Builder.feed b).finish.outline 0 =
      b.outlineWith (enteredNext? ls) ++ s.outline ls := by
  induction ls generalizing s b with
  | nil =>
    rw [List.foldl_nil, Builder.outline_finish, enteredNext?_nil, Builder.outlineWith_none]
    exact (List.append_nil _).symm
  | cons l ls ih =>
    rw [List.foldl_cons, ih (h.feed l), h.outlineWith_feed, List.append_assoc]
    rfl

end Agrees

end IncludeAudit.Preprocessed

namespace IncludeAudit.TranslationUnit

open Preprocessed (Line Scan Agrees)

/-- What one pass over the lines of a text writes down: the root, and behind it what it meets. -/
def scanned (output : String) (mainFile : Path) : List OutlineEntry :=
  ⟨0, .unit mainFile, none⟩ ::
    (Scan.start mainFile).outline ((Text.lines output.toList).map Line.classify)

/-- **The tree of a text is what one pass over its lines writes down**: the root, and behind it the
regions, directives and macro definitions as they come, with their depths, their locations and the
files that were entered for them.  The walk over the tree meets them in that order. -/
theorem outline_ofPreprocessed (output : String) (mainFile : Path) :
    (ofPreprocessed output mainFile).root.outline 0 = scanned output mainFile ∧
      (ofPreprocessed output mainFile).root.preorder.map (fun m => (m.kind, m.location?)) =
        (scanned output mainFile).map fun e => (e.kind, e.location?) := by
  have houtline : (ofPreprocessed output mainFile).root.outline 0 = scanned output mainFile := by
    rw [ofPreprocessed, (Agrees.start mainFile).outline_foldl_feed,
      Preprocessed.Builder.outlineWith_of_not_pending rfl]
    rfl
  refine ⟨houtline, ?_⟩
  rw [Node.map_preorder_eq_outline 0, houtline]

end IncludeAudit.TranslationUnit
