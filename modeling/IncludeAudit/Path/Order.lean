import IncludeAudit.Path.Basic

/-! # The order of paths

Paths are compared component by component, a path before the paths below it. The root comes before
`.`, that before `..`, and all of them before names, which are ordered by their characters.
-/
namespace IncludeAudit

namespace Component

/-- Where the kind of a component stands in the order. -/
def rank : Component → Nat
  | root => 0
  | here => 1
  | up => 2
  | name _ => 3

instance : Ord Component where
  compare a b := (compare a.rank b.rank).then (compare a.chars b.chars)

theorem eq_of_rank_of_chars {a b : Component} (hr : a.rank = b.rank) (hc : a.chars = b.chars) :
    a = b := by
  cases a <;> cases b <;> simp_all [rank, chars]

theorem compare_eq (a b : Component) :
    compare a b = (compare a.rank b.rank).then (compare a.chars b.chars) := rfl

instance : Std.LawfulEqOrd Component where
  compare_self := by intro a; simp [compare_eq]
  eq_of_compare := by
    intro a b h
    rw [compare_eq, Ordering.then_eq_eq] at h
    exact eq_of_rank_of_chars (Std.LawfulEqOrd.eq_of_compare h.1)
      (Std.LawfulEqOrd.eq_of_compare h.2)

instance : Std.TransOrd Component :=
  inferInstanceAs (Std.TransCmp (compareLex (compareOn rank) (compareOn chars)))

end Component

namespace Path

instance : Ord Path where
  compare p q := compare p.components q.components

theorem compare_eq (p q : Path) : compare p q = compare p.components q.components := rfl

instance : Std.TransOrd Path := inferInstanceAs (Std.TransCmp (compareOn components))

theorem compare_eq_eq_iff {p q : Path} : compare p q = .eq ↔ p.components = q.components := by
  rw [compare_eq]
  exact Std.LawfulEqOrd.compare_eq_iff_eq

end Path

end IncludeAudit
