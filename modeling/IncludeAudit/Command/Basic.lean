import IncludeAudit.Path.Normal

/-! # Recorded compiler commands

A record of a run of the compiler says where the compiler ran, on which source, and with which
arguments.
-/
namespace IncludeAudit

/-- One recorded run of the compiler. -/
structure CompileCommand where
  /-- The directory in which the compiler ran. -/
  directory : Path
  /-- The source file as the record names it, relative to the directory if it is relative. -/
  filename : String
  /-- All arguments, the name of the compiler first. -/
  arguments : List String
deriving DecidableEq, Inhabited, Repr

namespace CompileCommand

/-- The source file in canonical form; absolute if the directory is. -/
def sourcePath (c : CompileCommand) : Path := c.directory.absolutize ⟨c.filename⟩

/-- The arguments without those that are the source file. -/
def argumentsWithoutSource (c : CompileCommand) : List String :=
  c.arguments.filter fun a => a != c.filename

end CompileCommand

end IncludeAudit
