import IncludeAudit.Glob.Match
import IncludeAudit.Glob.Scatter
import IncludeAudit.Path.Basic

/-! # Excluded directories

Directories that match one of some glob patterns are never reported. Every text has to be a pattern,
and the expressions that are needed to decide the patterns have to be usable: first those that go
with an extension, each for itself and one scattered extension after the other, and then all others
together. Descriptions of base names are apart from these; they are never too deep.
-/
namespace IncludeAudit

/-- Why some texts cannot say which directories are excluded. -/
inductive ExcludeFault where
  | notPattern (pattern : String) (fault : Glob.Fault)
  /-- An expression that goes with an extension is too deep. -/
  | tooDeep (e : Glob.Expression)
  /-- The first of all other expressions that is too deep, by its number. -/
  | tooDeepAt (number : Nat)
deriving Inhabited, Repr

namespace ExcludeFault

/-- What is said about a fault. -/
def text : ExcludeFault → String
  | notPattern pattern fault =>
    "invalid exclude pattern \"" ++ pattern ++ "\": error parsing glob '" ++ pattern ++ "': " ++
      fault.text
  | tooDeep e =>
    "invalid exclude patterns: error parsing glob '" ++ e.text ++ "': error parsing pattern 0"
  | tooDeepAt number => "invalid exclude patterns: error parsing pattern " ++ toString number

end ExcludeFault

/-- The patterns of directories that are never reported, ready to be applied. -/
structure ExcludeFilter where
  tests : List Glob.Test

namespace ExcludeFilter

/-- The filter that excludes nothing. -/
def none : ExcludeFilter := ⟨[]⟩

/-- The test for a pattern. -/
def test (pattern : String) : Except ExcludeFault Glob.Test :=
  ((Glob.parse pattern).mapError (.notPattern pattern)).map .ofTokens

/-- The expressions that go with an extension, with their extensions. -/
def withExtension (tests : List Glob.Test) : List (List UInt8 × Glob.Expression) :=
  tests.filterMap fun
    | .extensionAnd ext e => some (ext, e)
    | _ => Option.none

/-- The first expression that goes with an extension and is too deep. Those of one extension are
looked at together, and the extensions in their scattered order. -/
def deepWithExtension? (tests : List Glob.Test) : Option Glob.Expression :=
  let pairs := withExtension tests
  (Glob.scattered (pairs.map (·.1))).findSome? fun ext =>
    (pairs.find? fun (x, e) => x = ext ∧ e.isTooDeep).map (·.2)

/-- The number of the first expression that is too deep among those that stand alone. -/
def deepAlone? (tests : List Glob.Test) : Option Nat :=
  (tests.filterMap fun
    | .general e => some e
    | _ => Option.none).findIdx? (·.isTooDeep)

/-- The filter of some patterns. -/
def ofPatterns (patterns : List String) : Except ExcludeFault ExcludeFilter := do
  let tests ← patterns.mapM test
  if let some e := deepWithExtension? tests then throw (.tooDeep e)
  if let some number := deepAlone? tests then throw (.tooDeepAt number)
  return ⟨tests⟩

/-- Whether some pattern matches a path. -/
def excludes (f : ExcludeFilter) (p : Path) : Bool :=
  f.tests.any fun t => t.holds (Glob.bytes p.chars)

end ExcludeFilter

end IncludeAudit
