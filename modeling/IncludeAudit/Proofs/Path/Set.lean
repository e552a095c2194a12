import IncludeAudit.Path.Set
import IncludeAudit.Proofs.Path.Normal
import Mathlib.Data.List.Sort

/-! # Sets of normal forms

A set of paths tells its elements apart by their components and keeps one spelling of each.  As long
as only normal forms are put in (`IsNormal`), spelling and components determine each other, so that
membership is membership of texts and does not depend on the order of the insertions.
-/
namespace IncludeAudit

namespace Path

/-- The path is written in its normal form. -/
def IsNormal (p : Path) : Prop := p.normalize = p

theorem isNormal_normalize (p : Path) : p.normalize.IsNormal := normalize_normalize p

/-- A normal form is written in one way only. -/
theorem IsNormal.eq_of_components {p q : Path} (hp : p.IsNormal) (hq : q.IsNormal)
    (h : p.components = q.components) : p = q := by
  rw [← hp, ← hq]
  exact normalize_congr (congrArg Component.fold h)

/-- So normal forms that are the same path are the same text. -/
theorem IsNormal.same_iff {p q : Path} (hp : p.IsNormal) (hq : q.IsNormal) :
    p.same q = true ↔ p = q := by
  rw [same, decide_eq_true_eq]
  exact ⟨hp.eq_of_components hq, congrArg components⟩

end Path

namespace PathSet

/-- Every element is written in its normal form. -/
def IsNormal (s : PathSet) : Prop := ∀ p ∈ s.toList, p.IsNormal

theorem isNormal_empty : IsNormal ∅ := fun _ hp => absurd hp List.not_mem_nil

@[simp] theorem toList_empty : (∅ : PathSet).toList = [] := rfl

/-- The list is searched by components. That an insertion loses nothing therefore takes normal
forms: another spelling of what is there already would not be put in. -/
theorem mem_insertInto_iff {p q : Path} {l : List Path} (hp : p.IsNormal)
    (hl : ∀ r ∈ l, r.IsNormal) : q ∈ insertInto p l ↔ q = p ∨ q ∈ l := by
  fun_induction insertInto p l with
  | case1 => exact List.mem_cons
  | case2 => exact List.mem_cons
  | case3 r rest heq =>
    -- the spelling that stays is the one that was to be inserted
    have hr : p = r :=
      hp.eq_of_components (hl r (List.mem_cons_self ..)) (Path.compare_eq_eq_iff.1 heq)
    rw [List.mem_cons, hr]
    exact ⟨Or.inr, fun h => h.elim Or.inl id⟩
  | case4 r rest _ ih =>
    rw [List.mem_cons, ih fun s hs => hl s (List.mem_cons_of_mem r hs), List.mem_cons]
    exact or_left_comm

theorem mem_insert_iff {s : PathSet} {p q : Path} (hs : s.IsNormal) (hp : p.IsNormal) :
    q ∈ (s.insert p).toList ↔ q = p ∨ q ∈ s.toList :=
  mem_insertInto_iff hp hs

theorem IsNormal.insert {s : PathSet} {p : Path} (hs : s.IsNormal) (hp : p.IsNormal) :
    (s.insert p).IsNormal := by
  intro q hq
  rcases (mem_insert_iff hs hp).1 hq with rfl | hq
  · exact hp
  · exact hs q hq

theorem IsNormal.insertAll {s : PathSet} {ps : List Path} (hs : s.IsNormal)
    (hps : ∀ p ∈ ps, p.IsNormal) : (s.insertAll ps).IsNormal := by
  induction ps generalizing s with
  | nil => exact hs
  | cons p ps ih =>
    exact ih (hs.insert (hps p (List.mem_cons_self ..)))
      fun q hq => hps q (List.mem_cons_of_mem p hq)

/-- Adding normal forms adds just their texts. -/
theorem mem_insertAll_iff {s : PathSet} {ps : List Path} {q : Path} (hs : s.IsNormal)
    (hps : ∀ p ∈ ps, p.IsNormal) : q ∈ (s.insertAll ps).toList ↔ q ∈ ps ∨ q ∈ s.toList := by
  induction ps generalizing s with
  | nil => exact ⟨Or.inr, fun h => h.resolve_left List.not_mem_nil⟩
  | cons p ps ih =>
    have hp : p.IsNormal := hps p (List.mem_cons_self ..)
    rw [insertAll, List.foldl_cons, ← insertAll,
      ih (hs.insert hp) fun q hq => hps q (List.mem_cons_of_mem p hq), mem_insert_iff hs hp,
      List.mem_cons, or_left_comm, or_assoc]

theorem insertAll_append (s : PathSet) (ps qs : List Path) :
    s.insertAll (ps ++ qs) = (s.insertAll ps).insertAll qs :=
  List.foldl_append

theorem contains_iff_mem {s : PathSet} {p : Path} (hs : s.IsNormal) (hp : p.IsNormal) :
    s.contains p = true ↔ p ∈ s.toList := by
  rw [contains, List.any_eq_true]
  constructor
  · rintro ⟨q, hq, hpq⟩
    exact (hp.same_iff (hs q hq)).1 hpq ▸ hq
  · exact fun h => ⟨p, h, (hp.same_iff hp).2 rfl⟩

/-- Leaving out the elements of another set leaves out just their texts. -/
theorem mem_diff_iff {s t : PathSet} {p : Path} (hs : s.IsNormal) (ht : t.IsNormal) :
    p ∈ (s.diff t).toList ↔ p ∈ s.toList ∧ p ∉ t.toList := by
  rw [diff, List.mem_filter]
  refine and_congr_right fun hp => ?_
  rw [Bool.not_eq_true', ← Bool.not_eq_true, contains_iff_mem ht (hs p hp)]

/-- No text is listed twice. -/
theorem nodup_map_text (s : PathSet) : (s.toList.map Path.text).Nodup := by
  refine List.pairwise_map.2 (s.sorted.imp fun {p q} hlt heq => ?_)
  have hpq : p = q := by
    cases p
    cases q
    exact congrArg Path.mk heq
  rw [hpq, Path.compare_eq_eq_iff.2 rfl] at hlt
  cases hlt

/-! ## Unions -/

/-- Two sets are equal if they have the same elements in the same spellings. -/
theorem ext_mem {s t : PathSet} (h : ∀ p, p ∈ s.toList ↔ p ∈ t.toList) : s = t := by
  have hasymm : Std.Asymm fun p q : Path => compare p q = .lt := by
    refine ⟨fun p q hpq hqp => ?_⟩
    rw [Std.OrientedCmp.gt_iff_lt.2 hpq] at hqp
    cases hqp
  have hlist : s.toList = t.toList := s.sorted.eq_of_mem_iff t.sorted h
  cases s
  cases t
  cases hlist
  rfl

/-- The elements of two sets; what is in both keeps the spelling of the first one. -/
instance : Union PathSet := ⟨fun s t => s.insertAll t.toList⟩

theorem mem_union_iff {s t : PathSet} {p : Path} (hs : s.IsNormal) (ht : t.IsNormal) :
    p ∈ (s ∪ t).toList ↔ p ∈ s.toList ∨ p ∈ t.toList :=
  (mem_insertAll_iff hs ht).trans or_comm

/-- Sets made from lists of normal forms depend on what is in the lists and on nothing else. -/
theorem insertAll_congr {ps qs : List Path} (hps : ∀ p ∈ ps, p.IsNormal)
    (h : ∀ p, p ∈ ps ↔ p ∈ qs) : insertAll ∅ ps = insertAll ∅ qs := by
  have hqs : ∀ q ∈ qs, q.IsNormal := fun q hq => hps q ((h q).2 hq)
  refine ext_mem fun p => ?_
  rw [mem_insertAll_iff isNormal_empty hps, mem_insertAll_iff isNormal_empty hqs, h p]

/-- What is put in one after the other is what is put in apart and united. -/
theorem insertAll_append_eq_union {ps qs : List Path} (hps : ∀ p ∈ ps, p.IsNormal)
    (hqs : ∀ q ∈ qs, q.IsNormal) :
    insertAll ∅ (ps ++ qs) = insertAll ∅ ps ∪ insertAll ∅ qs := by
  have hs : (insertAll ∅ ps).IsNormal := isNormal_empty.insertAll hps
  have ht : (insertAll ∅ qs).IsNormal := isNormal_empty.insertAll hqs
  refine ext_mem fun p => ?_
  rw [insertAll_append, mem_insertAll_iff hs hqs, mem_union_iff hs ht,
    mem_insertAll_iff isNormal_empty hqs, toList_empty, or_iff_left List.not_mem_nil, or_comm]

end PathSet

end IncludeAudit
