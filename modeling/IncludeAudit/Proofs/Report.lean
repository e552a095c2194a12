import IncludeAudit.Proofs.Path.Set
import IncludeAudit.Proofs.Text.Bytes
import IncludeAudit.Report

/-! # What a report lists

A report lists the texts of the provided directories that are neither used nor excluded
(`mem_unused_ofUsage_iff`), each once, in the order of their bytes (`pairwise_unused_ofUsage`).
-/
namespace IncludeAudit

namespace IncludeUsage

/-- Both sets hold normal forms only. -/
structure IsNormal (u : IncludeUsage) : Prop where
  provided : u.provided.IsNormal
  used : u.used.IsNormal

theorem isNormal_empty : IsNormal {} := ⟨PathSet.isNormal_empty, PathSet.isNormal_empty⟩

/-- The difference is taken by components, which for normal forms is by texts. -/
theorem mem_unused_iff {u : IncludeUsage} (h : u.IsNormal) {d : Path} :
    d ∈ u.unused.toList ↔ d ∈ u.provided.toList ∧ d ∉ u.used.toList :=
  PathSet.mem_diff_iff h.provided h.used

end IncludeUsage

/-- A directory is kept if no pattern matches it. -/
theorem ExcludeFilter.excludes_eq_false_iff {f : ExcludeFilter} {d : String} :
    f.excludes ⟨d⟩ = false ↔ ∀ test ∈ f.tests, test.holds (Glob.bytes d.toList) = false := by
  rw [excludes, List.any_eq_false]
  simp only [Bool.not_eq_true]
  rfl

namespace Report

variable (target entity : String) (usage : IncludeUsage) (exclude : ExcludeFilter)

/-- Excluded directories are left out of the report, not of the usage. -/
theorem mem_unused_ofUsage_iff {usage : IncludeUsage} (h : usage.IsNormal) (d : String) :
    d ∈ (ofUsage target entity usage exclude).unused ↔
      ⟨d⟩ ∈ usage.provided.toList ∧ ⟨d⟩ ∉ usage.used.toList ∧ exclude.excludes ⟨d⟩ = false := by
  rw [ofUsage, List.mem_mergeSort, List.mem_map]
  constructor
  · rintro ⟨p, hp, rfl⟩
    obtain ⟨hmem, hkept⟩ := List.mem_filter.1 hp
    obtain ⟨hprovided, hunused⟩ := (IncludeUsage.mem_unused_iff h).1 hmem
    exact ⟨hprovided, hunused, by simpa using hkept⟩
  · rintro ⟨hprovided, hunused, hkept⟩
    refine ⟨⟨d⟩, List.mem_filter.2 ⟨?_, by simpa using hkept⟩, rfl⟩
    exact (IncludeUsage.mem_unused_iff h).2 ⟨hprovided, hunused⟩

theorem nodup_unused_ofUsage : (ofUsage target entity usage exclude).unused.Nodup := by
  rw [ofUsage, (List.mergeSort_perm _ _).nodup_iff]
  exact (PathSet.nodup_map_text usage.unused).sublist
    ((List.filter_sublist (l := usage.unused.toList)).map Path.text)

theorem sorted_unused_ofUsage :
    (ofUsage target entity usage exclude).unused.Pairwise fun s t => s ≤ t := by
  have htrans : ∀ s t u : String, decide (s ≤ t) = true → decide (t ≤ u) = true →
      decide (s ≤ u) = true := by
    intro s t u hst htu
    rw [decide_eq_true_eq] at hst htu ⊢
    exact String.le_trans hst htu
  have htotal : ∀ s t : String, (decide (s ≤ t) || decide (t ≤ s)) = true := by
    intro s t
    rw [Bool.or_eq_true, decide_eq_true_eq, decide_eq_true_eq]
    exact String.le_total s t
  have hsorted := List.pairwise_mergeSort htrans htotal
    ((usage.unused.toList.filter fun d => !exclude.excludes d).map Path.text)
  exact hsorted.imp fun h => of_decide_eq_true h

/-- Each listed directory comes before the next one, byte by byte. -/
theorem pairwise_unused_ofUsage :
    (ofUsage target entity usage exclude).unused.Pairwise fun s t =>
      Glob.bytes s.toList < Glob.bytes t.toList := by
  -- sorted and without repetitions is strictly sorted
  refine ((sorted_unused_ofUsage target entity usage exclude).and
    (nodup_unused_ofUsage target entity usage exclude)).imp fun {s t} h => ?_
  have hlt : s < t := by
    rcases Decidable.em (s < t) with hlt | hnot
    · exact hlt
    · exact absurd (String.le_antisymm h.1 (String.not_lt.1 hnot)) h.2
  exact Glob.bytes_lt_bytes (String.lt_iff.1 hlt)

end Report

end IncludeAudit
