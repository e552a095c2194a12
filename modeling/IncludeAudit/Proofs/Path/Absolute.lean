import IncludeAudit.Proofs.Path.Join

/-! # Paths seen from a directory

A path seen from a directory is the normal form of the join (`absolutize_eq`).  Joins are
associative as texts (`join_assoc`), and the normal form of a join does not change when the
directory is put into normal form first (`normalize_join_normalize`).  So to see a path from a
directory that is itself seen from another one is to see their join from that other one
(`absolutize_absolutize`), with `..` across the join and with absolute parts alike.
-/
namespace IncludeAudit.Path

open Component

/-! ## Joins of joins -/

theorem join_of_isAbsolute (d : Path) {p : Path} (h : p.isAbsolute = true) : d.join p = p := by
  rw [join, if_pos h]

theorem length_le_length_join_right (d p : Path) : p.chars.length ≤ (d.join p).chars.length := by
  cases h : p.isAbsolute with
  | true => simp only [join_of_isAbsolute d h, Nat.le_refl]
  | false => exact (length_le_length_join h).2

/-- Whether a join ends in a separator is seen from what was joined, since a separator stands before
it. -/
theorem separator_join (d : Path) {p : Path} (h : p.isAbsolute = false) :
    (d.join p).separator = p.separator := by
  rw [separator, chars_join d h, ← List.append_assoc, List.getLast?_append]
  cases hlast : p.chars.getLast? with
  | some c => simp [separator, hlast]
  | none =>
    cases hd : d.chars.getLast? with
    | none => simp [separator, hlast, List.getLast?_eq_none_iff.1 hd]
    | some c => by_cases hc : c = '/' <;> simp [separator, hlast, hd, hc]

theorem join_assoc (d e p : Path) : (d.join e).join p = d.join (e.join p) := by
  cases hp : p.isAbsolute with
  | true => rw [join_of_isAbsolute _ hp, join_of_isAbsolute _ hp, join_of_isAbsolute _ hp]
  | false =>
    have hep : (e.join p).isAbsolute = e.isAbsolute := isAbsolute_join e hp
    cases he : e.isAbsolute with
    | true => rw [join_of_isAbsolute _ he, join_of_isAbsolute _ (hep.trans he)]
    | false =>
      refine ext_chars ?_
      rw [chars_join _ hp, chars_join _ he, chars_join _ (hep.trans he), chars_join _ hp,
        separator_join d he]
      simp only [List.append_assoc]

/-! ## Normal forms of joins -/

/-- What was folded before need not be folded again. -/
theorem fold_append_congr {cs ds : List Component} (h : fold cs = fold ds) (es : List Component) :
    fold (cs ++ es) = fold (ds ++ es) := by
  have hstack : cs.foldl push [] = ds.foldl push [] := List.reverse_inj.1 h
  rw [fold, fold, List.foldl_append, List.foldl_append, hstack]

/-- A `.` at the start of a relative path folds to nothing. -/
theorem fold_components_of_relative {p : Path} (h : p.isAbsolute = false) :
    fold p.components = fold (steps p.chars) := by
  rw [components_eq, start, if_neg (by simpa [isAbsolute] using h)]
  split <;> rfl

theorem fold_components_join (d : Path) {p : Path} (h : p.isAbsolute = false) :
    fold (d.join p).components = fold (d.components ++ steps p.chars) := by
  by_cases hd : d.chars = []
  · rw [join_of_chars_eq_nil hd, components_eq_nil_iff.2 hd, List.nil_append,
      fold_components_of_relative h]
  · rw [components_join hd h]

/-- **The directory of a join may be put into normal form first.** -/
theorem normalize_join_normalize (d p : Path) :
    (d.normalize.join p).normalize = (d.join p).normalize := by
  cases h : p.isAbsolute with
  | true => rw [join_of_isAbsolute _ h, join_of_isAbsolute _ h]
  | false =>
    refine normalize_congr ?_
    rw [fold_components_join _ h, fold_components_join _ h]
    exact fold_append_congr (fold_components_normalize d) _

/-! ## Paths seen from a directory -/

theorem absolutize_eq (d p : Path) : d.absolutize p = (d.join p).normalize := by
  rw [absolutize]
  split
  · rename_i h
    rw [join_of_isAbsolute d h]
  · rfl

theorem absolutize_normalize_left (d p : Path) : d.normalize.absolutize p = d.absolutize p := by
  rw [absolutize_eq, absolutize_eq, normalize_join_normalize]

@[simp] theorem normalize_absolutize (d p : Path) :
    (d.absolutize p).normalize = d.absolutize p := by
  rw [absolutize_eq, normalize_normalize]

/-- A path seen from a directory that is seen from another one. -/
theorem absolutize_absolutize (d e p : Path) :
    (d.absolutize e).absolutize p = d.absolutize (e.join p) := by
  rw [absolutize_eq d e, absolutize_normalize_left, absolutize_eq, absolutize_eq, join_assoc]

/-- An absolute directory is the same from everywhere. -/
theorem absolutize_join_of_isAbsolute (d : Path) {e : Path} (h : e.isAbsolute = true) (p : Path) :
    d.absolutize (e.join p) = e.absolutize p := by
  rw [absolutize_eq, ← join_assoc, join_of_isAbsolute d h, absolutize_eq]

end IncludeAudit.Path
