import IncludeAudit.Command.Arguments
import IncludeAudit.Frontend.Basic
import IncludeAudit.Frontend.Skipped
import IncludeAudit.Machine
import IncludeAudit.Preprocessed.Builder
import IncludeAudit.Text.Utf8

/-! # Clang as a frontend

This frontend has Clang preprocess a source, reads its output, and fills in the files that the
output does not name.
-/
namespace IncludeAudit

/-- A Clang to be run, and arguments that every run gets. -/
structure Clang where
  path : Path
  extraArgs : List String := []
deriving DecidableEq, Inhabited, Repr

namespace Clang

/-- Where a compiler is looked for, in this order. -/
def candidates : List Path :=
  [⟨"clang"⟩, ⟨"/usr/bin/clang"⟩, ⟨"/usr/local/bin/clang"⟩, ⟨"/opt/homebrew/bin/clang"⟩,
    ⟨"/opt/homebrew/opt/llvm/bin/clang"⟩]

/-- Whether a program can be asked for its version. -/
def answers (m : Machine) (path : Path) : Bool :=
  match m.run path none ["--version"] with
  | .ok output => output.succeeded
  | .error _ => false

/-- The compiler of a configuration; where it names none, the first candidate that answers. -/
def ofConfig (m : Machine) (c : FrontendConfig) : Except FrontendFault Clang :=
  match c.clangPath?.or (candidates.find? (answers m)) with
  | some path => .ok ⟨path, c.extraArgs⟩
  | none => .error .noCompiler

/-- The first line of what a compiler says about its version. -/
def version? (c : Clang) (m : Machine) : Option String :=
  match m.run c.path none ["--version"] with
  | .ok output => do some (String.ofList (← (Text.lines (← Text.decode? output.stdout)).head?))
  | .error _ => none

/-- The arguments of a run. Inclusion directives and macro definitions are put out on request. -/
def arguments (c : Clang) (r : ParseRequest) : List String :=
  "-E" :: (if r.record then ["-dI", "-dD"] else []) ++ c.extraArgs ++ r.arguments ++ [r.filename]

/-- The lines of an error output that are warnings or errors. -/
def diagnostics (stderr : List UInt8) : List String :=
  ((Text.lines (Text.decodeLossy stderr)).filter fun line =>
    Text.occursIn "warning:".toList line || Text.occursIn "error:".toList line).map String.ofList

/-- What can be noticed of a compiler. -/
inductive Event where
  /-- It is run with some arguments. -/
  | run (args : List String)
  /-- A warning about a run is logged. -/
  | warning (message : String)
deriving DecidableEq, Repr

namespace Event

/-- The arguments of a run. -/
def args? : Event → Option (List String)
  | run args => some args
  | warning _ => none

/-- The message of a warning. -/
def message? : Event → Option String
  | run _ => none
  | warning message => some message

end Event

/-- The warnings about a run: that the compiler failed, and each of its own diagnostics. -/
def warnings (c : Clang) (r : ParseRequest) (output : ProcessOutput) : List String :=
  (if output.succeeded then []
    else [c.path.text ++ " exited with " ++ output.ending ++ " while preprocessing " ++ r.filename]) ++
    diagnostics output.stderr

/-- What can be noticed of a request. A compiler that cannot be started makes no run. -/
def events (c : Clang) (m : Machine) (r : ParseRequest) : List Event :=
  match m.run c.path (some r.directory) (c.arguments r) with
  | .ok output => .run (c.arguments r) :: (c.warnings r output).map .warning
  | .error _ => []

/-- The search that a run with some arguments makes in a directory. -/
def headerSearch (directory : Path) (args : List String) : HeaderSearch :=
  .ofDirectories directory ((quoteDirectories args).map (⟨·⟩)) ((includeDirectories args).map (⟨·⟩))

/-- Preprocesses a source. The exit status of the compiler does not matter. -/
def parse (c : Clang) (m : Machine) : Frontend := fun r =>
  match m.run c.path (some r.directory) (c.arguments r) with
  | .error e => .error (.frontend (.notStarted c.path e))
  | .ok output =>
    let unit :=
      TranslationUnit.ofPreprocessed (String.ofList (Text.decodeLossy output.stdout)) ⟨r.filename⟩
    let root :=
      if r.record then (headerSearch r.directory r.arguments).fillSkipped m.files unit.root
      else unit.root
    .ok ⟨root, diagnostics output.stderr⟩

end Clang

end IncludeAudit
