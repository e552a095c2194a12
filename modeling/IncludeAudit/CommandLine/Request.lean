import IncludeAudit.CommandLine.Options
import IncludeAudit.Path.Basic

/-! # Demands on the command line

A command line makes one demand: a check of targets, a list of them, the version, or help. A word
without meaning anywhere makes the whole line one that demands nothing.
-/
namespace IncludeAudit.CommandLine

/-- Which targets are to be checked. -/
inductive TargetChoice where
  /-- All targets that can be analysed. -/
  | all
  | labels (labels : List String)
deriving DecidableEq, Inhabited, Repr

/-- The demand to check targets. -/
structure CheckRequest where
  /-- The compilation database or the directory it lies in. -/
  database : Path
  description : Path
  overlay? : Option Path := none
  targets : TargetChoice
  /-- Patterns of directories that are not reported, besides those of the configuration. -/
  exclude : List String := []
  /-- The compiler, instead of the one of the configuration. -/
  clang? : Option Path := none
  config? : Option Path := none
  sourceRoot? : Option Path := none
  /-- How many targets may be analysed at a time; zero leaves that open too. -/
  jobs? : Option Nat := none
deriving DecidableEq, Inhabited, Repr

/-- A demand. -/
inductive Request where
  | check (request : CheckRequest)
  /-- To list the targets of a description that can be analysed. -/
  | targets (description : Path) (config? : Option Path)
  | version
  | help
deriving DecidableEq, Inhabited, Repr

namespace Request

/-- The switch for help. -/
def helpOption : OptionSpec := { name := "help", letter? := some 'h', isFinal := true }

/-- The switch for further remarks in the log, which are left out. -/
def verboseOption : OptionSpec := { name := "verbose", letter? := some 'v' }

/-- Options before the name of a command. -/
def generalOptions : List OptionSpec :=
  [verboseOption, helpOption, { name := "version", letter? := some 'V', isFinal := true }]

/-- Options for the check of targets. -/
def checkOptions : List OptionSpec :=
  [verboseOption, helpOption,
    { name := "compilation-database", operand := .path },
    { name := "description", operand := .path },
    { name := "vfs-config", operand := .path },
    { name := "target", operand := .text, mayRepeat := true },
    { name := "all-targets" },
    { name := "exclude", operand := .text, mayRepeat := true },
    { name := "clang", operand := .path },
    { name := "config", operand := .path },
    { name := "source-root", operand := .path },
    { name := "jobs", letter? := some 'j', operand := .count }]

/-- Options for the list of targets. -/
def targetsOptions : List OptionSpec :=
  [verboseOption, helpOption,
    { name := "description", operand := .path },
    { name := "config", operand := .path }]

/-- The path that an option gives. -/
def path? (g : Given) (name : String) : Option Path := (g.value? name).map (⟨·⟩)

/-- The choice of targets: either all of them or some labels. -/
def targetChoice? (g : Given) : Option TargetChoice :=
  match g.has "all-targets", g.values "target" with
  | true, [] => some .all
  | false, label :: labels => some (.labels (label :: labels))
  | _, _ => none

/-- The check that some options ask for. -/
def check? (g : Given) : Option Request := do
  some (.check {
    database := ← path? g "compilation-database"
    description := ← path? g "description"
    overlay? := path? g "vfs-config"
    targets := ← targetChoice? g
    exclude := g.values "exclude"
    clang? := path? g "clang"
    config? := path? g "config"
    sourceRoot? := path? g "source-root"
    jobs? := (g.value? "jobs").bind count? })

/-- The list that some options ask for. -/
def targets? (g : Given) : Option Request := do
  some (.targets (← path? g "description") (path? g "config"))

/-- Reads all words behind the name of a command. -/
def parseOptions? (specs : List OptionSpec) (build? : Given → Option Request)
    (words : List String) : Option Request := do
  match ← readOptions? specs [] words with
  | (g, []) => if g.has "help" then some help else build? g
  | _ => none

/-- The demand that the words of a command line make; none if some word has no meaning. -/
def parse? (words : List String) : Option Request := do
  let (g, rest) ← readOptions? generalOptions [] words
  if g.has "help" then some help
  else if g.has "version" then some version
  else match rest with
    | "check" :: rest => parseOptions? checkOptions check? rest
    | "targets" :: rest => parseOptions? targetsOptions targets? rest
    | ["help"] | ["help", "check"] | ["help", "targets"] | ["help", "help"] => some help
    | _ => none

/-- The paths that a demand names. -/
def paths : Request → List Path
  | check r => [r.database, r.description] ++
      [r.overlay?, r.clang?, r.config?, r.sourceRoot?].filterMap id
  | targets description config? => description :: config?.toList
  | version | help => []

end Request

end IncludeAudit.CommandLine
