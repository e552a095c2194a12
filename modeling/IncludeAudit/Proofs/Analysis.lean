import IncludeAudit.Analysis
import IncludeAudit.Proofs.Attribution
import IncludeAudit.Proofs.Database
import IncludeAudit.Proofs.Outcome
import IncludeAudit.Proofs.Report

/-! # What an analysis collects

An analysis treats its sources one after the other.  For each one it finds a command and a
translation unit (`Analyzer.unit`), and it adds what that pair provides and uses (`Analyzer.add`);
the first source without such a pair ends it (`result_addSources`).  Everything added is in normal
form, so that the collected sets are those of all pairs together, in whatever order
(`mem_provided_analyze_iff`, `mem_used_analyze_iff`), and the report on a target can be read off the
pairs (`mem_unused_check_iff`).
-/
namespace IncludeAudit

/-! ## Outcomes -/

namespace Traced

variable {α β : Type}

@[simp] theorem result_ofExcept (x : Except Error α) : (ofExcept x).result = x := rfl

/-- What an analysis comes to does not depend on its requests. -/
theorem result_bind (x : Traced α) (f : α → Traced β) :
    (x.bind f).result = x.result.bind fun a => (f a).result := by
  unfold bind
  cases x.result <;> rfl

@[simp] theorem result_map (f : α → β) (x : Traced α) : (x.map f).result = x.result.map f := rfl

end Traced

namespace Analyzer

variable (a : Analyzer) (frontend : Frontend) (t : Target)

/-! ## Sources -/

/-- The command of a source and the translation unit that the frontend makes of it. -/
def unit (source : String) : Except Error (CompileCommand × TranslationUnit) :=
  (a.command t source).bind fun c => (frontend (a.request c)).map fun u => (c, u)

/-- Adds what a command provides and its translation unit uses. -/
def add (usage : IncludeUsage) (x : CompileCommand × TranslationUnit) : IncludeUsage where
  provided := usage.provided.insertAll (a.providedBy x.1)
  used := usage.used.insertAll (a.overlay.usedDirectories x.2).toList

/-- There is a pair just if both steps to it succeed. -/
theorem unit_eq_ok_iff {source : String} {c : CompileCommand} {u : TranslationUnit} :
    a.unit frontend t source = .ok (c, u) ↔
      a.command t source = .ok c ∧ frontend (a.request c) = .ok u := by
  rw [unit, bind_eq_ok_iff]
  constructor
  · rintro ⟨c', hc, hunit⟩
    obtain ⟨u', hu, hpair⟩ := map_eq_ok_iff.1 hunit
    cases hpair
    exact ⟨hc, hu⟩
  · rintro ⟨hc, hu⟩
    exact ⟨c, hc, map_eq_ok_iff.2 ⟨u, hu, rfl⟩⟩

/-- One source adds its pair, or fails for the reason for which it has none. -/
theorem result_addSource (usage : IncludeUsage) (source : String) :
    (a.addSource frontend t usage source).result =
      (a.unit frontend t source).map (a.add usage) := by
  rw [addSource, Traced.result_bind, Traced.result_ofExcept, unit]
  cases a.command t source with
  | error e => rfl
  | ok c =>
    simp only [Except.bind, Traced.result_map, ask]
    cases frontend (a.request c) <;> rfl

/-- **What some sources add** is what their commands and units add, one after the other; the first
source without them decides the failure. -/
theorem result_addSources (usage : IncludeUsage) (sources : List String) :
    (a.addSources frontend t usage sources).result =
      (sources.mapM (a.unit frontend t)).map fun xs => xs.foldl a.add usage := by
  induction sources generalizing usage with
  | nil => rfl
  | cons source sources ih =>
    rw [addSources, Traced.result_bind, result_addSource, List.mapM_cons]
    cases a.unit frontend t source with
    -- neither side looks at the other sources
    | error e => rfl
    | ok x =>
      simp only [Except.map, Except.bind, ih]
      cases sources.mapM (a.unit frontend t) <;> rfl

/-! ## Sets -/

theorem isNormal_of_mem_providedBy {c : CompileCommand} {d : Path} (h : d ∈ a.providedBy c) :
    d.IsNormal := by
  obtain ⟨dir, _, rfl⟩ := List.mem_map.1 h
  exact Path.isNormal_normalize ⟨dir⟩

/-- What pairs provide is put into the set in one go. -/
theorem provided_foldl_add (usage : IncludeUsage) (xs : List (CompileCommand × TranslationUnit)) :
    (xs.foldl a.add usage).provided =
      usage.provided.insertAll (xs.flatMap fun x => a.providedBy x.1) := by
  induction xs generalizing usage with
  | nil => rfl
  | cons x xs ih => rw [List.foldl_cons, ih, List.flatMap_cons, PathSet.insertAll_append, add]

/-- So is what they use. -/
theorem used_foldl_add (usage : IncludeUsage) (xs : List (CompileCommand × TranslationUnit)) :
    (xs.foldl a.add usage).used =
      usage.used.insertAll (xs.flatMap fun x => (a.overlay.usedDirectories x.2).toList) := by
  induction xs generalizing usage with
  | nil => rfl
  | cons x xs ih => rw [List.foldl_cons, ih, List.flatMap_cons, PathSet.insertAll_append, add]

theorem isNormal_of_mem_flatMap_providedBy {xs : List (CompileCommand × TranslationUnit)} :
    ∀ d ∈ xs.flatMap fun x => a.providedBy x.1, d.IsNormal := by
  intro d hd
  obtain ⟨x, _, hd⟩ := List.mem_flatMap.1 hd
  exact a.isNormal_of_mem_providedBy hd

theorem isNormal_of_mem_flatMap_used {xs : List (CompileCommand × TranslationUnit)} :
    ∀ d ∈ xs.flatMap fun x => (a.overlay.usedDirectories x.2).toList, d.IsNormal := by
  intro d hd
  obtain ⟨x, _, hd⟩ := List.mem_flatMap.1 hd
  exact a.overlay.isNormal_usedDirectories x.2 d hd

/-- Usage that is collected from nothing is in normal form. -/
theorem isNormal_foldl_add {usage : IncludeUsage} (h : usage.IsNormal)
    (xs : List (CompileCommand × TranslationUnit)) : (xs.foldl a.add usage).IsNormal where
  provided := by
    rw [provided_foldl_add]
    exact h.provided.insertAll a.isNormal_of_mem_flatMap_providedBy
  used := by
    rw [used_foldl_add]
    exact h.used.insertAll a.isNormal_of_mem_flatMap_used

/-! ## Targets -/

/-- A translation unit of the target has this command and this tree. -/
def HasUnit (c : CompileCommand) (u : TranslationUnit) : Prop :=
  ∃ source ∈ t.sources, a.config.isTranslationUnit source = true ∧
    a.command t source = .ok c ∧ frontend (a.request c) = .ok u

/-- A translation unit of the target has this command. -/
def HasCommand (c : CompileCommand) : Prop :=
  ∃ source ∈ t.sources, a.config.isTranslationUnit source = true ∧ a.command t source = .ok c

variable {a frontend t}

/-- An analysis that succeeds has a pair for each of its sources. -/
theorem analyze_eq_ok {usage : IncludeUsage} (h : (a.analyze frontend t).result = .ok usage) :
    ∃ xs, (t.sources.filter a.config.isTranslationUnit).mapM (a.unit frontend t) = .ok xs ∧
      xs.foldl a.add {} = usage := by
  rw [analyze, result_addSources] at h
  exact map_eq_ok_iff.1 h

theorem isNormal_analyze {usage : IncludeUsage}
    (h : (a.analyze frontend t).result = .ok usage) : usage.IsNormal := by
  obtain ⟨xs, _, rfl⟩ := analyze_eq_ok h
  exact a.isNormal_foldl_add IncludeUsage.isNormal_empty xs

/-- The pairs are those of the translation units of the target, in whatever order. -/
theorem mem_units_iff {xs : List (CompileCommand × TranslationUnit)}
    (h : (t.sources.filter a.config.isTranslationUnit).mapM (a.unit frontend t) = .ok xs)
    (c : CompileCommand) (u : TranslationUnit) : (c, u) ∈ xs ↔ a.HasUnit frontend t c u := by
  rw [mem_iff_of_mapM_eq_ok h, HasUnit]
  constructor
  · rintro ⟨source, hs, hx⟩
    obtain ⟨hsource, htu⟩ := List.mem_filter.1 hs
    exact ⟨source, hsource, htu, (a.unit_eq_ok_iff frontend t).1 hx⟩
  · rintro ⟨source, hsource, htu, hx⟩
    exact ⟨source, List.mem_filter.2 ⟨hsource, htu⟩, (a.unit_eq_ok_iff frontend t).2 hx⟩

/-- In an analysis that succeeds, every source that is looked at has its command. -/
theorem exists_hasCommand {usage : IncludeUsage} (h : (a.analyze frontend t).result = .ok usage)
    {source : String} (hsource : source ∈ t.sources)
    (htu : a.config.isTranslationUnit source = true) : ∃ c, a.HasCommand t c := by
  obtain ⟨xs, hxs, _⟩ := analyze_eq_ok h
  obtain ⟨⟨c, u⟩, hx⟩ := exists_ok_of_mapM_eq_ok hxs (List.mem_filter.2 ⟨hsource, htu⟩)
  exact ⟨c, source, hsource, htu, ((a.unit_eq_ok_iff frontend t).1 hx).1⟩

/-- In an analysis that succeeds, every command has its tree. -/
theorem exists_hasUnit {usage : IncludeUsage} (h : (a.analyze frontend t).result = .ok usage)
    {c : CompileCommand} (hc : a.HasCommand t c) : ∃ u, a.HasUnit frontend t c u := by
  obtain ⟨xs, hxs, _⟩ := analyze_eq_ok h
  obtain ⟨source, hsource, htu, hcommand⟩ := hc
  obtain ⟨⟨c', u⟩, hx⟩ := exists_ok_of_mapM_eq_ok hxs (List.mem_filter.2 ⟨hsource, htu⟩)
  obtain ⟨hc', hu⟩ := (a.unit_eq_ok_iff frontend t).1 hx
  obtain rfl : c' = c := Except.ok.inj (hc'.symm.trans hcommand)
  exact ⟨u, source, hsource, htu, hcommand, hu⟩

/-- A directory is provided just if some command of the target declares it. -/
theorem mem_provided_analyze_iff {usage : IncludeUsage}
    (h : (a.analyze frontend t).result = .ok usage) (d : Path) :
    d ∈ usage.provided.toList ↔ ∃ c, a.HasCommand t c ∧ d ∈ a.providedBy c := by
  obtain ⟨xs, hxs, rfl⟩ := analyze_eq_ok h
  rw [provided_foldl_add, PathSet.mem_insertAll_iff PathSet.isNormal_empty
    a.isNormal_of_mem_flatMap_providedBy, PathSet.toList_empty, or_iff_left List.not_mem_nil,
    List.mem_flatMap]
  constructor
  · rintro ⟨⟨c, u⟩, hx, hd⟩
    obtain ⟨source, hsource, htu, hc, _⟩ := (mem_units_iff hxs c u).1 hx
    exact ⟨c, ⟨source, hsource, htu, hc⟩, hd⟩
  · rintro ⟨c, hc, hd⟩
    -- the pairs come from trees, so the command needs one
    obtain ⟨u, hu⟩ := exists_hasUnit h hc
    exact ⟨(c, u), (mem_units_iff hxs c u).2 hu, hd⟩

/-- A directory is used just if some tree of the target uses it. -/
theorem mem_used_analyze_iff {usage : IncludeUsage}
    (h : (a.analyze frontend t).result = .ok usage) (d : Path) :
    d ∈ usage.used.toList ↔
      ∃ c u, a.HasUnit frontend t c u ∧ d ∈ (a.overlay.usedDirectories u).toList := by
  obtain ⟨xs, hxs, rfl⟩ := analyze_eq_ok h
  rw [used_foldl_add, PathSet.mem_insertAll_iff PathSet.isNormal_empty
    a.isNormal_of_mem_flatMap_used, PathSet.toList_empty, or_iff_left List.not_mem_nil,
    List.mem_flatMap]
  constructor
  · rintro ⟨⟨c, u⟩, hx, hd⟩
    exact ⟨c, u, (mem_units_iff hxs c u).1 hx, hd⟩
  · rintro ⟨c, u, hu, hd⟩
    exact ⟨(c, u), (mem_units_iff hxs c u).2 hu, hd⟩

/-! ## Reports -/

variable (a frontend t)

/-- A command of the target declares the directory `d`, whatever way it is written there. -/
def Provides (d : String) : Prop :=
  ∃ c, a.HasCommand t c ∧
    ∃ dir ∈ includeDirectories c.argumentsWithoutSource, (Path.normalize ⟨dir⟩).text = d

/-- A directive in a tree of the target, at whatever depth, is served by the directory `d`. -/
def Uses (d : String) : Prop :=
  ∃ c u, a.HasUnit frontend t c u ∧
    ∃ (m : Node) (i : Inclusion) (file : Path), m.Within u.root ∧ m.kind = .inclusion i ∧
      m.location?.isSome ∧ i.file? = some file ∧ file.isAbsolute = false ∧
        (Path.normalize
          ⟨Text.removeSuffix (a.overlay.resolve file.text file.text) i.spelling⟩).text = d

variable {a frontend t}

/-- What has been collected as provided is what the commands declare. -/
theorem mem_provided_iff_provides {usage : IncludeUsage}
    (h : (a.analyze frontend t).result = .ok usage) (d : String) :
    ⟨d⟩ ∈ usage.provided.toList ↔ a.Provides t d := by
  rw [mem_provided_analyze_iff h]
  constructor
  · rintro ⟨c, hc, hd⟩
    obtain ⟨dir, hdir, hnormal⟩ := List.mem_map.1 hd
    exact ⟨c, hc, dir, hdir, congrArg Path.text hnormal⟩
  · rintro ⟨c, hc, dir, hdir, rfl⟩
    exact ⟨c, hc, List.mem_map.2 ⟨dir, hdir, rfl⟩⟩

/-- What has been collected as used is what serves directives. -/
theorem mem_used_iff_uses {usage : IncludeUsage}
    (h : (a.analyze frontend t).result = .ok usage) (d : String) :
    ⟨d⟩ ∈ usage.used.toList ↔ a.Uses frontend t d := by
  rw [mem_used_analyze_iff h]
  constructor
  · rintro ⟨c, u, hu, hd⟩
    obtain ⟨m, i, file, hm, hkind, hloc, hfile, hrel, hserved⟩ :=
      Overlay.mem_usedDirectories_iff.1 hd
    exact ⟨c, u, hu, m, i, file, hm, hkind, hloc, hfile, hrel, congrArg Path.text hserved⟩
  · rintro ⟨c, u, hu, m, i, file, hm, hkind, hloc, hfile, hrel, rfl⟩
    exact ⟨c, u, hu,
      Overlay.mem_usedDirectories_iff.2 ⟨m, i, file, hm, hkind, hloc, hfile, hrel, rfl⟩⟩

variable {exclude : ExcludeFilter} {label : String} {r : Report}

/-- A report is made of the usage and of nothing else. -/
theorem check_eq_ok_iff :
    (a.check frontend exclude label t).result = .ok r ↔
      ∃ usage, (a.analyze frontend t).result = .ok usage ∧
        .ofUsage label t.entity usage exclude = r := by
  rw [check, Traced.result_map, map_eq_ok_iff]

/-- **A report is exact.**  It lists the directories that some command of the target declares, that
serve no directive in any tree of the target and that no pattern excludes; each once, in the order
of their bytes, with one line of text for each. -/
theorem mem_unused_check_iff (h : (a.check frontend exclude label t).result = .ok r) :
    (∀ d, d ∈ r.unused ↔
      a.Provides t d ∧ ¬ a.Uses frontend t d ∧
        ∀ test ∈ exclude.tests, test.holds (Glob.bytes d.toList) = false) ∧
    (r.unused.Pairwise fun s t => Glob.bytes s.toList < Glob.bytes t.toList) ∧
    r.diagnostics = r.unused.map fun d =>
      label ++ ": error: " ++ t.entity ++ " contains unused include directory \"" ++ d ++ "\"" := by
  obtain ⟨usage, husage, rfl⟩ := check_eq_ok_iff.1 h
  refine ⟨fun d => ?_, Report.pairwise_unused_ofUsage .., rfl⟩
  rw [Report.mem_unused_ofUsage_iff _ _ _ (isNormal_analyze husage),
    mem_provided_iff_provides husage, mem_used_iff_uses husage, ExcludeFilter.excludes_eq_false_iff]

end Analyzer

/-! ## A sample

One source includes a header by way of `inc`; its command also declares two more directories, and
one that is excluded.
-/
namespace Sample

def command : CompileCommand :=
  ⟨⟨"/b"⟩, "a.c", ["cc", "-I./inc/", "-Iinc", "-I", "gen", "-Ix/y", "-Ix-y", "a.c"]⟩

def analyzer : Analyzer where
  database := .ofList [command]
  overlay := .empty
  workspace := ⟨⟨"/b"⟩, none⟩

def target : Target where
  type := "executable"
  sources := ["a.c", "a.h"]
  includeDirs := ["inc/"]

def tree : TranslationUnit :=
  ⟨⟨.unit ⟨"a.c"⟩, none, [⟨.inclusion ⟨.plain, "a.h", false, some ⟨"inc/a.h"⟩⟩, some ⟨"a.c", 1⟩,
    [.leaf (.region ⟨"inc/a.h"⟩) none]⟩]⟩, []⟩

def filter : ExcludeFilter := ⟨[.whole (Glob.bytes "gen".toList)]⟩

/-- The only command of the source carries the flags of the target. -/
theorem command_eq : analyzer.command target "a.c" = .ok command := by
  have hpath : analyzer.workspace.sourcePath "a.c" = .ok ⟨"/b/a.c"⟩ := by
    have hroot : Text.after? "//" "a.c" = none := rfl
    have habs : analyzer.workspace.buildDir.absolutize ⟨"a.c"⟩ = ⟨"/b/a.c"⟩ := rfl
    rw [Workspace.sourcePath, hroot, habs]
  have hcommands : analyzer.database.commandsFor ⟨"/b/a.c"⟩ = [command] := by
    rw [analyzer, Database.commandsFor_ofList]
    rfl
  have hcarries : command.carries (requiredFlags target "a.c" {}) = true := rfl
  unfold Analyzer.command
  rw [hpath]
  show analyzer.database.select _ _ = _
  rw [Database.select, hcommands, List.find?_cons_of_pos]
  exact hcarries

theorem usedDirectories_eq : (analyzer.overlay.usedDirectories tree).toList = [⟨"inc"⟩] := by
  have hinclusions : tree.inclusions =
      [(some ⟨"a.c", 1⟩, ⟨.plain, "a.h", false, some ⟨"inc/a.h"⟩⟩)] := by
    rw [TranslationUnit.inclusions, Node.inclusions, Node.preorder_eq_nodes]
    rfl
  rw [Overlay.usedDirectories, Overlay.attributions, hinclusions, analyzer]
  simp only [List.map_cons, List.map_nil, Overlay.attributionOf, Overlay.resolve_empty]
  rfl

theorem analyze_eq : (analyzer.analyze (fun _ => .ok tree) target).result =
    .ok ⟨.insertAll ∅ (analyzer.providedBy command), .insertAll ∅ [⟨"inc"⟩]⟩ := by
  have hsources : target.sources.filter analyzer.config.isTranslationUnit = ["a.c"] := by
    rfl
  have hunit : analyzer.unit (fun _ => .ok tree) target "a.c" = .ok (command, tree) :=
    (analyzer.unit_eq_ok_iff _ _).2 ⟨command_eq, rfl⟩
  rw [Analyzer.analyze, Analyzer.result_addSources, hsources, List.mapM_cons, hunit]
  show Except.ok (analyzer.add {} (command, tree)) = _
  rw [Analyzer.add, usedDirectories_eq]

/-- The report follows the bytes of the texts, not the components. -/
theorem check_eq : (analyzer.check (fun _ => .ok tree) filter "//:a" target).result =
    .ok ⟨"//:a", "executable", ["x-y", "x/y"]⟩ := by
  refine Analyzer.check_eq_ok_iff.2 ⟨_, analyze_eq, congrArg (Report.mk _ _) ?_⟩
  have hkept : ((IncludeUsage.unused ⟨.insertAll ∅ (analyzer.providedBy command),
      .insertAll ∅ [⟨"inc"⟩]⟩).toList.filter fun d => !filter.excludes d).map Path.text =
        ["x/y", "x-y"] := by
    rfl
  rw [hkept]
  simp [List.mergeSort]

end Sample

theorem Analyzer.mem_unused_check_sample :
    (Sample.analyzer.check (fun _ => .ok Sample.tree) Sample.filter "//:a" Sample.target).result =
      .ok ⟨"//:a", "executable", ["x-y", "x/y"]⟩ ∧
    ∀ d, d ∈ ["x-y", "x/y"] ↔
      Sample.analyzer.Provides Sample.target d ∧
        ¬ Sample.analyzer.Uses (fun _ => .ok Sample.tree) Sample.target d ∧
        ∀ test ∈ Sample.filter.tests, test.holds (Glob.bytes d.toList) = false :=
  ⟨Sample.check_eq, (Analyzer.mem_unused_check_iff Sample.check_eq).1⟩

end IncludeAudit
