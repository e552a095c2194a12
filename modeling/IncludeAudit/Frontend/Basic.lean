import IncludeAudit.Error
import IncludeAudit.Tree

/-! # Frontends

A frontend turns a source file into its preprocessing tree.
-/
namespace IncludeAudit

/-- A translation unit that is to be preprocessed. -/
structure ParseRequest where
  /-- The directory in which the recorded compiler ran. -/
  directory : Path
  /-- The source file as recorded. -/
  filename : String
  /-- The arguments, without the compiler's name and the source file. -/
  arguments : List String
  /-- Whether inclusion directives and macro definitions are to be recorded. -/
  record : Bool := true
  /-- Whether the bodies of functions may be left out. -/
  skipBodies : Bool := true
deriving DecidableEq, Inhabited, Repr

/-- A frontend. Its answer depends on the request alone; it fails if it cannot run at all. -/
abbrev Frontend := ParseRequest → Except Error TranslationUnit

end IncludeAudit
