import IncludeAudit.Attribution
import IncludeAudit.Command.Arguments
import IncludeAudit.Frontend.Basic
import IncludeAudit.Report
import IncludeAudit.Selection
import IncludeAudit.Workspace

/-! # The analysis of a target

For each translation unit of a target the recorded command is chosen, the directories of that
command are provided, and the directories that its inclusion directives need are used. The first
source that cannot be treated ends the analysis.
-/
namespace IncludeAudit

/-- What an analysis works with. -/
structure Analyzer where
  database : Database
  overlay : Overlay
  workspace : Workspace
  argumentFilter : ArgumentFilter := .ofConfig {}
  config : AnalysisConfig := {}
deriving Inhabited

/-- The outcome of an analysis, and what the frontend was asked for on the way, in order. -/
structure Traced (α : Type) where
  requests : List ParseRequest
  result : Except Error α

namespace Traced

/-- An outcome without requests. -/
def ofExcept {α : Type} (result : Except Error α) : Traced α := ⟨[], result⟩

/-- One outcome after the other; the second one is not looked for if the first is a failure. -/
def bind {α β : Type} (x : Traced α) (f : α → Traced β) : Traced β :=
  match x.result with
  | .error e => ⟨x.requests, .error e⟩
  | .ok a => ⟨x.requests ++ (f a).requests, (f a).result⟩

/-- An outcome put to use. -/
def map {α β : Type} (f : α → β) (x : Traced α) : Traced β := ⟨x.requests, x.result.map f⟩

end Traced

namespace Analyzer

/-- The command of a source that belongs to a target. -/
def command (a : Analyzer) (t : Target) (source : String) : Except Error CompileCommand := do
  a.database.select (← a.workspace.sourcePath source) (requiredFlags t source a.config)

/-- What the frontend is asked for a command. -/
def request (a : Analyzer) (c : CompileCommand) : ParseRequest :=
  ⟨c.directory, c.filename, (a.argumentFilter.extract c).arguments, true, true⟩

/-- The directories that a command provides, in canonical form. -/
def providedBy (a : Analyzer) (c : CompileCommand) : List Path :=
  (a.argumentFilter.extract c).includeDirs.map fun d => Path.normalize ⟨d⟩

/-- Asks the frontend. -/
def ask (frontend : Frontend) (r : ParseRequest) : Traced TranslationUnit := ⟨[r], frontend r⟩

/-- Adds what one source of a target provides and uses. -/
def addSource (a : Analyzer) (frontend : Frontend) (t : Target) (usage : IncludeUsage)
    (source : String) : Traced IncludeUsage :=
  (Traced.ofExcept (a.command t source)).bind fun c =>
    (ask frontend (a.request c)).map fun u =>
      { provided := usage.provided.insertAll (a.providedBy c)
        used := usage.used.insertAll (a.overlay.usedDirectories u).toList }

/-- Adds what some sources of a target provide and use, one after the other. -/
def addSources (a : Analyzer) (frontend : Frontend) (t : Target) (usage : IncludeUsage) :
    List String → Traced IncludeUsage
  | [] => ⟨[], .ok usage⟩
  | source :: rest =>
    (a.addSource frontend t usage source).bind fun usage => a.addSources frontend t usage rest

/-- The directories that the translation units of a target provide and use. -/
def analyze (a : Analyzer) (frontend : Frontend) (t : Target) : Traced IncludeUsage :=
  a.addSources frontend t {} (t.sources.filter a.config.isTranslationUnit)

/-- The report on a target. -/
def check (a : Analyzer) (frontend : Frontend) (exclude : ExcludeFilter) (label : String)
    (t : Target) : Traced Report :=
  (a.analyze frontend t).map fun usage => .ofUsage label t.entity usage exclude

end Analyzer

end IncludeAudit
