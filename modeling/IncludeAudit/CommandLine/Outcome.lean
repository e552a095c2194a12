import IncludeAudit.Analysis
import IncludeAudit.CommandLine.Request
import IncludeAudit.Config.Document
import IncludeAudit.Frontend.Clang

/-! # What comes of a demand

A check loads everything first, in a fixed order, and then analyses its targets; it reports only if
every analysis succeeds. Here one target is analysed after the other, in the order of their labels,
and the first failure ends the check. What else several workers at a time may come to is said in
`IncludeAudit.CommandLine.Pool`.
-/
namespace IncludeAudit.CommandLine

/-- The files that a demand names. -/
inductive Input where
  | configuration
  | compilationDatabase
  | buildDescription
  | overlay
deriving DecidableEq, Repr

/-- What a file is called when it cannot be loaded. -/
def Input.text : Input → String
  | configuration => "configuration"
  | compilationDatabase => "compilation database"
  | buildDescription => "build description"
  | overlay => "VFS configuration"

/-- Why a demand could not be met. -/
inductive Failure where
  | notLoaded (input : Input) (file : Path) (cause : Error)
  /-- There is nothing to preprocess sources with. -/
  | noFrontend (fault : FrontendFault)
  | failed (cause : Error)
  | noTargets
deriving Inhabited

namespace Failure

/-- A failure with what caused it. What the operating system says is a cause of its own. -/
def chain : Error → List String
  | .io cause => [Error.message (.io cause), cause.text]
  | e => [e.message]

/-- What is said about a failure. -/
def message : Failure → String
  | notLoaded input file cause =>
    ": ".intercalate (("Failed to load " ++ input.text ++ " " ++ file.text) :: chain cause)
  | noFrontend fault => fault.text
  | failed cause => ": ".intercalate (chain cause)
  | noTargets => "No targets to check"

end Failure

/-- What a demand leaves behind. -/
structure Outcome where
  /-- The exit status: 0 if there is nothing to report, 1 if there is, 2 after a failure. -/
  status : Nat
  /-- The lines of the output. -/
  output : List String := []
  /-- The lines that the error output ends with: those of the reports, or that of a failure. What is
  logged is not among them. -/
  errors : List String := []
  /-- The arguments of every run of the compiler that preprocessed a source, in order. -/
  runs : List (List String) := []
  /-- The messages of the logged warnings, in order. Further remarks that can be asked for are left
  out. -/
  log : List String := []
deriving DecidableEq, Inhabited, Repr

namespace Outcome

/-- The lines of the error output. The log is written there too, unless the environment asks for
something else, and all of it comes first; each message stands in a line with its time and
origin. -/
def errorOutput (present : Nat → String → String) (o : Outcome) : List String :=
  o.log.mapIdx present ++ o.errors

/-- The outcome of a failure after some events. -/
def ofFailure (f : Failure) (events : List Clang.Event) : Outcome :=
  { status := 2
    errors := ["includelint: error: " ++ f.message]
    runs := events.filterMap Clang.Event.args?
    log := events.filterMap Clang.Event.message? }

/-- The outcome of a check after some events. -/
def ofReports (reports : List Report) (events : List Clang.Event) : Outcome :=
  { status := if reports.all Report.isClean then 0 else 1
    errors := reports.flatMap Report.diagnostics
    runs := events.filterMap Clang.Event.args?
    log := events.filterMap Clang.Event.message? }

end Outcome

/-- The configuration of a demand. -/
def loadConfig (m : Machine) : Option Path → Except Failure Config
  | none => .ok {}
  | some file => (Config.load m.files file).mapError (.notLoaded .configuration file)

/-- The description of a demand. -/
def loadDescription (m : Machine) (file : Path) : Except Failure Description :=
  (Description.load m.files file).mapError (.notLoaded .buildDescription file)

/-- The targets of a description that can be analysed: those of a configured type that have some
translation unit. -/
def analyzable (d : Description) (c : AnalysisConfig) : Description :=
  d.filter fun t => c.targetTypes.contains t.type && t.sources.any c.isTranslationUnit

/-- The directory that a compilation database lies in. -/
def buildDirectory (fs : FileSystem) (database : Path) : Path :=
  let dir := if fs.isDirectory database then database else database.parent?.getD ⟨"."⟩
  fs.currentPath.absolutize dir

/-- All that a check works with. -/
structure Session where
  analyzer : Analyzer
  clang : Clang
  exclude : ExcludeFilter
  description : Description

namespace Session

/-- Loads what a check asks for. -/
def load (m : Machine) (r : CheckRequest) : Except Failure Session := do
  let config ← loadConfig m r.config?
  let frontend := { config.frontend with clangPath? := r.clang?.or config.frontend.clangPath? }
  let exclude ← (ExcludeFilter.ofPatterns (config.analysis.exclude ++ r.exclude)).mapError
    fun fault => .failed (.exclude fault)
  let clang ← (Clang.ofConfig m frontend).mapError .noFrontend
  let database ← (Database.load m.files r.database).mapError
    (.notLoaded .compilationDatabase r.database)
  let description ← loadDescription m r.description
  let overlay ← match r.overlay? with
    | none => .ok .empty
    | some file => (Overlay.load m.files file).mapError (.notLoaded .overlay file)
  let found := Workspace.discover m.files (buildDirectory m.files r.database)
  let workspace := r.sourceRoot?.elim found found.withSourceRoot
  pure ⟨⟨database, overlay, workspace, .ofConfig frontend, config.analysis⟩, clang, exclude,
    description⟩

/-- The targets with some labels. Each is known by its label as it was given. -/
def labelled (d : Description) (labels : List String) : Except Error Description := do
  pure (.ofList (← labels.mapM fun label => do pure (label, ← d.get label)))

/-- The targets of a choice. -/
def chosen (s : Session) : TargetChoice → Except Failure Description
  | .all => .ok (analyzable s.description s.analyzer.config)
  | .labels labels => (labelled s.description labels).mapError .failed

/-- The report on a labelled target, with what the frontend is asked for. -/
def trace (s : Session) (m : Machine) (x : String × Target) : Traced Report :=
  s.analyzer.check (s.clang.parse m) s.exclude x.1 x.2

/-- The report on a labelled target. -/
def report (s : Session) (m : Machine) (x : String × Target) : Except Error Report :=
  (s.trace m x).result

/-- What can be noticed of the compiler while a labelled target is analysed. -/
def events (s : Session) (m : Machine) (x : String × Target) : List Clang.Event :=
  (s.trace m x).requests.flatMap (s.clang.events m)

/-- The reports on some targets, one after the other. -/
def reports (s : Session) (m : Machine) : List (String × Target) → Traced (List Report)
  | [] => ⟨[], .ok []⟩
  | x :: rest =>
    (s.trace m x).bind fun report => (s.reports m rest).map fun reports => report :: reports

/-- The check of some targets, one after the other. -/
def check (s : Session) (m : Machine) (targets : Description) : Outcome :=
  if targets.size = 0 then .ofFailure .noTargets []
  else
    let traced := s.reports m targets.items
    let events := traced.requests.flatMap (s.clang.events m)
    match traced.result with
    | .error e => .ofFailure (.failed e) events
    | .ok reports => .ofReports reports events

/-- Loads what a check asks for and finds its targets. -/
def prepare (m : Machine) (r : CheckRequest) : Except Failure (Session × Description) := do
  let s ← load m r
  pure (s, ← s.chosen r.targets)

end Session

/-- Checks targets, one after the other. -/
def check (m : Machine) (r : CheckRequest) : Outcome :=
  match Session.prepare m r with
  | .error f => .ofFailure f []
  | .ok (s, targets) => s.check m targets

/-- Lists the targets that can be analysed, with what they are called in a report. -/
def listTargets (m : Machine) (description : Path) (config? : Option Path) : Outcome :=
  match (do
    let config ← loadConfig m config?
    pure (analyzable (← loadDescription m description) config.analysis)) with
  | .error f => .ofFailure f []
  | .ok d => { status := 0, output := d.items.map fun (label, t) => label ++ "\t" ++ t.entity }

/-- What can be asked for, in short. -/
def usage : List String :=
  ["Usage: includelint [-v] check --compilation-database PATH --description PATH",
   "         (--target LABEL... | --all-targets) [--vfs-config PATH] [--exclude GLOB]...",
   "         [--clang PATH] [--config PATH] [--source-root DIR] [-j JOBS]",
   "       includelint [-v] targets --description PATH [--config PATH]"]

/-- Meets a demand. -/
def Request.run (m : Machine) : Request → Outcome
  | check r => CommandLine.check m r
  | targets description config? => listTargets m description config?
  | version => { status := 0, output := ["includelint 0.1.0"] }
  | help => { status := 0, output := usage }

end IncludeAudit.CommandLine
