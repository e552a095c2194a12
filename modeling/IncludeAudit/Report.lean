import IncludeAudit.Exclude
import IncludeAudit.Path.Set

/-! # Reports

A report says what is found about a target: the directories it passes to the compiler that serve no
directive.
-/
namespace IncludeAudit

/-- The include directories of a target. -/
structure IncludeUsage where
  /-- The directories that the compiler gets. -/
  provided : PathSet := ∅
  /-- The directories that serve some inclusion directive. -/
  used : PathSet := ∅
deriving DecidableEq, Inhabited

namespace IncludeUsage

/-- The directories that serve no directive. -/
def unused (u : IncludeUsage) : PathSet := u.provided.diff u.used

end IncludeUsage

/-- The unused directories of a target, in the order of their text. -/
structure Report where
  target : String
  entity : String
  unused : List String
deriving DecidableEq, Inhabited, Repr

namespace Report

/-- The report on a target; excluded directories are left out. -/
def ofUsage (target entity : String) (usage : IncludeUsage) (exclude : ExcludeFilter) : Report where
  target := target
  entity := entity
  unused :=
    ((usage.unused.toList.filter fun d => !exclude.excludes d).map Path.text).mergeSort
      fun s t => decide (s ≤ t)

/-- A line for each unused directory. -/
def diagnostics (r : Report) : List String :=
  r.unused.map fun d =>
    r.target ++ ": error: " ++ r.entity ++ " contains unused include directory \"" ++ d ++ "\""

/-- Whether every directory is used. -/
def isClean (r : Report) : Bool := r.unused.isEmpty

end Report

end IncludeAudit
