import IncludeAudit.Path.Basic

/-! # Normal forms of paths

Lexical folding. `.` disappears and `..` takes back the name before it; a `..` at the start of a
relative path stays and one directly below the root disappears. Include directories are compared
after folding, so that two ways of writing a directory count as one.
-/
namespace IncludeAudit

namespace Component

/-- Adds one component to a folded path whose last component comes first. -/
def push (stack : List Component) : Component → List Component
  | here => stack
  | up => match stack with
    | name _ :: rest => rest
    | root :: rest => root :: rest
    | _ => up :: stack
  | c => c :: stack

/-- Folds a list of components. -/
def fold (cs : List Component) : List Component := (cs.foldl push []).reverse

/-- The text of a folded path; nothing left over is written `.`. -/
def renderFolded : List Component → List Char
  | [] => ['.']
  | cs => render cs

end Component

namespace Path

/-- The canonical text among all texts that name the same place lexically. -/
def normalize (p : Path) : Path :=
  ofChars (Component.renderFolded (Component.fold p.components))

/-- The normal form of `p` seen from `base`; an absolute `p` does not depend on `base`. -/
def absolutize (base p : Path) : Path :=
  if p.isAbsolute then p.normalize else (base.join p).normalize

end Path

end IncludeAudit
