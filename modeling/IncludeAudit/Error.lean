import IncludeAudit.Exclude
import IncludeAudit.FileSystem

/-! # What can go wrong

Failures are told apart by their causes; this module says which there are, and how each cause is put
into words.
-/
namespace IncludeAudit

/-- Why a source could not be preprocessed at all. -/
inductive FrontendFault where
  /-- No compiler was given and none was found. -/
  | noCompiler
  | notStarted (program : Path) (cause : OsError)
  | failed (reason : String)
deriving DecidableEq, Inhabited, Repr

namespace FrontendFault

/-- What is said about a fault. -/
def text : FrontendFault → String
  | noCompiler => "Clang not found. Please install clang."
  | notStarted program cause => "failed to run " ++ program.text ++ ": " ++ cause.text
  | failed reason => reason

end FrontendFault

/-- A cause of failure. -/
inductive Error where
  /-- A request to the operating system failed. -/
  | io (cause : OsError)
  /-- A JSON document does not have the expected form. -/
  | json
  /-- A named file could not be read. -/
  | unreadable (file : Path) (cause : OsError)
  /-- A named file could be read but not used. -/
  | inFile (file : Path) (cause : Error)
  /-- A YAML document does not have the expected form. -/
  | yaml (file : Path)
  /-- The recorded command of a source has a quote that is not closed. -/
  | unclosedQuote (source : String)
  /-- The record of a source has no command. -/
  | noArguments (source : String)
  /-- A source is named from the source root, which is not known. -/
  | noSourceRoot (source : String)
  /-- Some texts cannot say which directories are excluded. -/
  | exclude (fault : ExcludeFault)
  /-- No recorded command of a source fits the target it belongs to. -/
  | noCommand (source : Path)
  | frontend (fault : FrontendFault)
  | unknownTarget (label : String)
deriving Inhabited, Repr

namespace Error

/-- The kinds of failure that a caller may want to tell apart. -/
inductive Kind where
  | io
  | json
  | config
  | resolution
  | frontend
  | unknownTarget
deriving DecidableEq, Repr

/-- The kind of a failure. -/
def kind : Error → Kind
  | io _ => .io
  | json => .json
  | unreadable .. | inFile .. | yaml _ | unclosedQuote _ | noArguments _ | noSourceRoot _
  | exclude _ => .config
  | noCommand _ => .resolution
  | frontend _ => .frontend
  | unknownTarget _ => .unknownTarget

/-- A text between double quotes, as it is. -/
def quote (s : String) : String := "\"" ++ s ++ "\""

/-- What is said about a failure. -/
def message : Error → String
  | io cause => "IO error: " ++ cause.text
  | json => "JSON error: unexpected document"
  | unreadable file cause => "Configuration error: " ++ file.text ++ ": " ++ cause.text
  | inFile file cause => "Configuration error: " ++ file.text ++ ": " ++ cause.message
  | yaml file => "Configuration error: " ++ file.text ++ ": unexpected document"
  | unclosedQuote source =>
    "Configuration error: cannot split command for " ++ quote source ++ ": missing closing quote"
  | noArguments source =>
    "Configuration error: entry for " ++ quote source ++
      " has neither \"arguments\" nor \"command\""
  | noSourceRoot source =>
    "Configuration error: " ++ quote source ++ " is source-absolute but no source root is known"
  | exclude fault => "Configuration error: " ++ fault.text
  | noCommand source => "unable to retrieve compile command for " ++ quote source.text
  | frontend fault => "Frontend error: " ++ fault.text
  | unknownTarget label => "Unknown target: " ++ label

end Error

end IncludeAudit
