import IncludeAudit.Preprocessed.Line

/-! # From preprocessed text to a tree

The files that are open at a point of the text form a stack of frames. An inclusion directive stays
pending until the text says whether a file was entered for it: only blank lines and markers that
neither enter nor leave may come in between.
-/
namespace IncludeAudit.Preprocessed

/-- A file name that stands for no file, such as `<built-in>`. -/
def isPseudoFile (file : String) : Bool :=
  file.toList.head? = some '<' && file.toList.getLast? = some '>'

/-- A file whose end has not been reached. -/
structure Frame where
  kind : NodeKind
  /-- The nodes found in it so far, last one first. -/
  recent : List Node
  /-- The directive that entered it. -/
  opener? : Option Node

namespace Frame

/-- The frame with one node more. -/
def push (f : Frame) (n : Node) : Frame := { f with recent := n :: f.recent }

/-- The node that a frame becomes when its file ends. -/
def close (f : Frame) : Node :=
  let region : Node := ⟨f.kind, none, f.recent.reverse⟩
  match f.opener? with
  | some directive => directive.push region
  | none => region

end Frame

/-- The state of reading preprocessed text. There is always an innermost frame. -/
structure Builder where
  top : Frame
  /-- The frames around the innermost one, outermost last. -/
  below : List Frame
  file : String
  line : Nat
  /-- The last node of the innermost frame is a directive that still waits for its file. -/
  pending : Bool

namespace Builder

/-- At the first line of the main file. -/
def start (mainFile : Path) : Builder := ⟨⟨.unit mainFile, [], none⟩, [], mainFile.text, 1, false⟩

/-- The location of the current line, if it belongs to a file. -/
def location? (b : Builder) : Option Location :=
  if isPseudoFile b.file then none else some ⟨b.file, b.line⟩

/-- The directive node with its file filled in. -/
def opened (file : Path) (n : Node) : Node :=
  match n.kind with
  | .inclusion d => { n with kind := .inclusion { d with file? := some file } }
  | _ => n

/-- A file starts. A pending directive becomes the one that entered it. -/
def enter (b : Builder) (file : Path) : Builder :=
  match b.pending, b.top.recent with
  | true, n :: recent =>
    { b with
      top := ⟨.region file, [], some (opened file n)⟩
      below := { b.top with recent := recent } :: b.below
      pending := false }
  | _, _ => { b with top := ⟨.region file, [], none⟩, below := b.top :: b.below, pending := false }

/-- The innermost file ends. The main file never does. -/
def leave (b : Builder) : Builder :=
  match b.below with
  | [] => { b with pending := false }
  | f :: below => { b with top := f.push b.top.close, below := below, pending := false }

/-- Goes to the next line of the current file. -/
def advance (b : Builder) : Builder := { b with line := b.line + 1 }

/-- Takes one line. -/
def feed (b : Builder) : Line → Builder
  | .marker line file enters leaves =>
    let b := if enters then b.enter ⟨file⟩ else if leaves then b.leave else b
    { b with file := file, line := line }
  | .inclusion keyword spelling angled =>
    let n := Node.leaf (.inclusion ⟨keyword, spelling, angled, none⟩) b.location?
    advance { b with top := b.top.push n, pending := true }
  | .define name =>
    advance { b with top := b.top.push (.leaf (.define name) b.location?), pending := false }
  | .text => advance { b with pending := false }
  | .blank => b.advance

/-- The tree after the last line; files that are still open end here. -/
def finish (b : Builder) : Node := b.below.foldl (fun n f => (f.push n).close) b.top.close

end Builder

end IncludeAudit.Preprocessed

namespace IncludeAudit.TranslationUnit

/-- The translation unit of a main file, read from its preprocessed text. -/
def ofPreprocessed (output : String) (mainFile : Path) : TranslationUnit :=
  let lines := (Text.lines output.toList).map Preprocessed.Line.classify
  ⟨(lines.foldl Preprocessed.Builder.feed (.start mainFile)).finish, []⟩

end IncludeAudit.TranslationUnit
