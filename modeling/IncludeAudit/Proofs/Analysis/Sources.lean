import IncludeAudit.Proofs.Analysis

/-! # The sources of a target

To analyze some sources and then others is to analyze the first ones, which may fail, and then the
others, and to put together what the two find (`analyze_append`).  All that is collected is in
normal form, so that it does not matter in which order the sources are listed, how often, and what
other files are listed among them: the same sources have the same directories and reports, text by
text (`analyze_sources`).
-/
namespace IncludeAudit

/-- The directories of two analyses together. -/
instance : Union IncludeUsage := ⟨fun u v => ⟨u.provided ∪ v.provided, u.used ∪ v.used⟩⟩

namespace IncludeUsage

variable {u v : IncludeUsage}

theorem mem_provided_union_iff (hu : u.IsNormal) (hv : v.IsNormal) (d : Path) :
    d ∈ (u ∪ v).provided.toList ↔ d ∈ u.provided.toList ∨ d ∈ v.provided.toList :=
  PathSet.mem_union_iff hu.provided hv.provided

theorem mem_used_union_iff (hu : u.IsNormal) (hv : v.IsNormal) (d : Path) :
    d ∈ (u ∪ v).used.toList ↔ d ∈ u.used.toList ∨ d ∈ v.used.toList :=
  PathSet.mem_union_iff hu.used hv.used

end IncludeUsage

namespace Analyzer

variable (a : Analyzer) (frontend : Frontend) (t : Target)

/-! ## What pairs add -/

theorem foldl_add_eq (xs : List (CompileCommand × TranslationUnit)) :
    xs.foldl a.add {} =
      ⟨.insertAll ∅ (xs.flatMap fun x => a.providedBy x.1),
        .insertAll ∅ (xs.flatMap fun x => (a.overlay.usedDirectories x.2).toList)⟩ := by
  have hprovided := a.provided_foldl_add {} xs
  have hused := a.used_foldl_add {} xs
  exact congr (congrArg IncludeUsage.mk hprovided) hused

/-- What two lists of pairs add is the union of what each adds. -/
theorem foldl_add_append (xs ys : List (CompileCommand × TranslationUnit)) :
    (xs ++ ys).foldl a.add {} = xs.foldl a.add {} ∪ ys.foldl a.add {} := by
  rw [foldl_add_eq, foldl_add_eq, foldl_add_eq, List.flatMap_append, List.flatMap_append,
    PathSet.insertAll_append_eq_union a.isNormal_of_mem_flatMap_providedBy
      a.isNormal_of_mem_flatMap_providedBy,
    PathSet.insertAll_append_eq_union a.isNormal_of_mem_flatMap_used a.isNormal_of_mem_flatMap_used]
  rfl

/-- The same pairs add the same directories. -/
theorem foldl_add_congr {xs ys : List (CompileCommand × TranslationUnit)}
    (h : ∀ x, x ∈ xs ↔ x ∈ ys) : xs.foldl a.add {} = ys.foldl a.add {} := by
  have hflat (f : CompileCommand × TranslationUnit → List Path) (d : Path) :
      d ∈ xs.flatMap f ↔ d ∈ ys.flatMap f := by
    simp only [List.mem_flatMap, h]
  rw [foldl_add_eq, foldl_add_eq,
    PathSet.insertAll_congr a.isNormal_of_mem_flatMap_providedBy (hflat _),
    PathSet.insertAll_congr a.isNormal_of_mem_flatMap_used (hflat _)]

/-! ## Sources -/

theorem result_analyze (sources : List String) :
    (a.analyze frontend { t with sources := sources }).result =
      ((sources.filter a.config.isTranslationUnit).mapM (a.unit frontend t)).map
        fun xs => xs.foldl a.add {} :=
  a.result_addSources frontend { t with sources := sources } {} _

theorem analyze_append (A B : List String) :
    (a.analyze frontend { t with sources := A ++ B }).result =
      (a.analyze frontend { t with sources := A }).result.bind fun u =>
        (a.analyze frontend { t with sources := B }).result.map fun v => u ∪ v := by
  rw [result_analyze, result_analyze, result_analyze, List.filter_append, mapM_append_eq_bind]
  cases (A.filter a.config.isTranslationUnit).mapM (a.unit frontend t) with
  | error e => rfl
  | ok xs =>
    cases (B.filter a.config.isTranslationUnit).mapM (a.unit frontend t) with
    | error e => rfl
    | ok ys => exact congrArg Except.ok (a.foldl_add_append xs ys)

variable {a frontend t}

/-- What an analysis finds, another one of the same sources finds too. -/
theorem analyze_eq_ok_of_sources {A B : List String}
    (h : ∀ s, a.config.isTranslationUnit s = true → (s ∈ A ↔ s ∈ B)) {usage : IncludeUsage}
    (hA : (a.analyze frontend { t with sources := A }).result = .ok usage) :
    (a.analyze frontend { t with sources := B }).result = .ok usage := by
  have hmem (s : String) : s ∈ A.filter a.config.isTranslationUnit ↔
      s ∈ B.filter a.config.isTranslationUnit := by
    rw [List.mem_filter, List.mem_filter]
    exact and_congr_left (h s)
  rw [result_analyze] at hA ⊢
  obtain ⟨xs, hxs, rfl⟩ := map_eq_ok_iff.1 hA
  obtain ⟨ys, hys⟩ := exists_mapM_eq_ok (f := a.unit frontend t)
    (l := B.filter a.config.isTranslationUnit)
    fun s hs => exists_ok_of_mapM_eq_ok hxs ((hmem s).2 hs)
  refine map_eq_ok_iff.2 ⟨ys, hys, a.foldl_add_congr fun x => ?_⟩
  rw [mem_iff_of_mapM_eq_ok hxs, mem_iff_of_mapM_eq_ok hys]
  exact exists_congr fun s => and_congr_left' (hmem s).symm

variable (a frontend t)

/-- **The order, repetition and grouping of sources do not matter.**  An analysis of two groups
fails as that of the first group does, else as that of the second one does, and else finds what
either finds.  Lists with the same translation units are analyzed with success together, and then
with the same directories and the same report, whatever else they hold. -/
theorem analyze_sources :
    (∀ A B : List String, (a.analyze frontend { t with sources := A ++ B }).result =
      (a.analyze frontend { t with sources := A }).result.bind fun u =>
        (a.analyze frontend { t with sources := B }).result.map fun v => u ∪ v) ∧
    (∀ (A B : List String) (u v : IncludeUsage),
      (a.analyze frontend { t with sources := A }).result = .ok u →
      (a.analyze frontend { t with sources := B }).result = .ok v → ∀ d,
        (d ∈ (u ∪ v).provided.toList ↔ d ∈ u.provided.toList ∨ d ∈ v.provided.toList) ∧
        (d ∈ (u ∪ v).used.toList ↔ d ∈ u.used.toList ∨ d ∈ v.used.toList)) ∧
    ∀ A B : List String, (∀ s, a.config.isTranslationUnit s = true → (s ∈ A ↔ s ∈ B)) →
      (∀ usage, (a.analyze frontend { t with sources := A }).result = .ok usage ↔
        (a.analyze frontend { t with sources := B }).result = .ok usage) ∧
      ∀ exclude label r, (a.check frontend exclude label { t with sources := A }).result = .ok r ↔
        (a.check frontend exclude label { t with sources := B }).result = .ok r := by
  refine ⟨a.analyze_append frontend t, fun A B u v hu hv d => ?_, fun A B h => ?_⟩
  · have hunormal := isNormal_analyze hu
    have hvnormal := isNormal_analyze hv
    exact ⟨IncludeUsage.mem_provided_union_iff hunormal hvnormal d,
      IncludeUsage.mem_used_union_iff hunormal hvnormal d⟩
  · have husage : ∀ usage, (a.analyze frontend { t with sources := A }).result = .ok usage ↔
        (a.analyze frontend { t with sources := B }).result = .ok usage := fun usage =>
      ⟨analyze_eq_ok_of_sources h, analyze_eq_ok_of_sources fun s hs => (h s hs).symm⟩
    refine ⟨husage, fun exclude label r => ?_⟩
    rw [check_eq_ok_iff, check_eq_ok_iff]
    exact exists_congr fun usage => and_congr_left' (husage usage)

end Analyzer

/-- Listing a source twice, with a header between, changes nothing. -/
theorem Analyzer.analyze_sources_sample :
    (∃ usage, (Sample.analyzer.analyze (fun _ => .ok Sample.tree)
      { Sample.target with sources := ["a.c", "a.h"] }).result = .ok usage) ∧
    (∀ usage, (Sample.analyzer.analyze (fun _ => .ok Sample.tree)
        { Sample.target with sources := ["a.c", "a.h"] }).result = .ok usage ↔
      (Sample.analyzer.analyze (fun _ => .ok Sample.tree)
        { Sample.target with sources := ["a.c", "b.h", "a.c"] }).result = .ok usage) := by
  refine ⟨⟨_, Sample.analyze_eq⟩, ?_⟩
  have h : ∀ s, Sample.analyzer.config.isTranslationUnit s = true →
      (s ∈ ["a.c", "a.h"] ↔ s ∈ ["a.c", "b.h", "a.c"]) := by
    intro s hs
    have ha : s ≠ "a.h" := fun heq => absurd (heq ▸ hs) (by decide +kernel)
    have hb : s ≠ "b.h" := fun heq => absurd (heq ▸ hs) (by decide +kernel)
    simp [ha, hb]
  exact ((analyze_sources Sample.analyzer (fun _ => .ok Sample.tree) Sample.target).2.2 _ _ h).1

end IncludeAudit
