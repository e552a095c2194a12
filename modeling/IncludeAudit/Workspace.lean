import IncludeAudit.Error
import IncludeAudit.Path.Normal
import IncludeAudit.Text.Part

/-! # The directories of a build

The directories that a build description refers to. Its relative sources are relative to the
build directory, and sources that start with `//` are named from the source root.
-/
namespace IncludeAudit

/-- A build directory and, if it is known, a source root. -/
structure Workspace where
  buildDir : Path
  sourceRoot? : Option Path
deriving DecidableEq, Inhabited, Repr

namespace Workspace

/-- The workspace of a build directory whose source root is not known. -/
def ofBuildDir (dir : Path) : Workspace := ⟨dir.normalize, none⟩

/-- The file that marks a source root. -/
def rootMarker : Path := ⟨".gn"⟩

/-- The nearest directory at or above `dir` with the mark of a source root. -/
def findRoot? (fs : FileSystem) (dir : Path) : Option Path :=
  dir.ancestors.find? fun d => fs.isFile (d.join rootMarker)

/-- The workspace of a build directory in a marked source tree. -/
def discover (fs : FileSystem) (dir : Path) : Workspace :=
  ⟨dir.normalize, findRoot? fs dir.normalize⟩

/-- The workspace with a given source root; a relative one is below the build directory. -/
def withSourceRoot (w : Workspace) (root : Path) : Workspace :=
  { w with sourceRoot? := some (w.buildDir.absolutize root) }

/-- The canonical path of a source as the description names it. -/
def sourcePath (w : Workspace) (source : String) : Except Error Path :=
  match Text.after? "//" source with
  | some rest => match w.sourceRoot? with
    | some root => .ok (root.join ⟨rest⟩).normalize
    | none => .error (.noSourceRoot source)
  | none => .ok (w.buildDir.absolutize ⟨source⟩)

end Workspace

end IncludeAudit
