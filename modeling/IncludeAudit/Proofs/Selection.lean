import IncludeAudit.Proofs.Analysis
import IncludeAudit.Proofs.Command.Arguments

/-! # What a selected command declares

A command is selected only if it has every flag that its target implies, as the very text.  Among
these flags are the include directories of the target in normal form, so unless the scan of the
command's arguments takes one of them for a value, they are all provided
(`provides_of_mem_includeDirs`) and no report can leave one out (`mem_includeDirs_accounted`).
-/
namespace IncludeAudit

/-- **What a target implies for a source.**  Its definitions and its include directories become
flags, the latter in normal form; of its other flags those for all languages count, and those for
the language of the source. -/
theorem mem_requiredFlags_iff {t : Target} {source flag : String} {config : AnalysisConfig} :
    flag ∈ requiredFlags t source config ↔
      (∃ define ∈ t.defines, flag = "-D" ++ define) ∨
      (∃ dir ∈ t.includeDirs, flag = "-I" ++ (Path.normalize ⟨dir⟩).text) ∨
      flag ∈ t.cflags ∨
      config.isCSource source = true ∧ flag ∈ t.cflagsC ∨
      config.isCSource source = false ∧ flag ∈ t.cflagsCc := by
  have hlanguage : flag ∈ (if config.isCSource source then t.cflagsC else t.cflagsCc) ↔
      config.isCSource source = true ∧ flag ∈ t.cflagsC ∨
        config.isCSource source = false ∧ flag ∈ t.cflagsCc := by
    cases config.isCSource source <;> simp
  simp only [requiredFlags, List.mem_append, List.mem_map, eq_comm (b := flag), hlanguage, or_assoc]

theorem mem_requiredFlags {t : Target} {dir : String} (h : dir ∈ t.includeDirs) (source : String)
    (config : AnalysisConfig) :
    "-I" ++ (Path.normalize ⟨dir⟩).text ∈ requiredFlags t source config :=
  mem_requiredFlags_iff.2 (Or.inr (Or.inl ⟨dir, h, rfl⟩))

namespace Analyzer

variable {a : Analyzer} {frontend : Frontend} {t : Target}

theorem command_eq_ok_iff {source : String} {c : CompileCommand} :
    a.command t source = .ok c ↔ ∃ path, a.workspace.sourcePath source = .ok path ∧
      a.database.select path (requiredFlags t source a.config) = .ok c :=
  bind_eq_ok_iff

/-- The command of a target has the target's include directories among its arguments. -/
theorem HasCommand.mem_arguments {c : CompileCommand} (h : a.HasCommand t c) {dir : String}
    (hdir : dir ∈ t.includeDirs) :
    "-I" ++ (Path.normalize ⟨dir⟩).text ∈ c.argumentsWithoutSource := by
  obtain ⟨source, _, _, hcommand⟩ := h
  obtain ⟨path, _, hselect⟩ := command_eq_ok_iff.1 hcommand
  obtain ⟨_, _, _, _, hflags⟩ := Database.select_eq_ok_iff.1 hselect
  exact hflags _ (mem_requiredFlags hdir source a.config)

theorem provides_of_mem_includeDirs {c : CompileCommand} (hc : a.HasCommand t c)
    (hbare : ∀ w, ¬ ["-I", "-I" ++ w] <:+: c.argumentsWithoutSource) {dir : String}
    (hdir : dir ∈ t.includeDirs) (hdash : (Path.normalize ⟨dir⟩).text ≠ "-") :
    a.Provides t (Path.normalize ⟨dir⟩).text := by
  -- the entry is the flag's own text, which is normal already
  refine ⟨c, hc, (Path.normalize ⟨dir⟩).text, ?_, ?_⟩
  · exact mem_includeDirectories hbare (hc.mem_arguments hdir) (Path.text_normalize_ne_empty ⟨dir⟩)
      hdash
  · exact congrArg Path.text (Path.normalize_normalize ⟨dir⟩)

/-- **No include directory of a target is lost.**  In an analysis that succeeds and looks at some
source, every include directory of the target is provided, apart from those whose flag is `-I-`; so
every report counts it among the used or the excluded ones or lists it. -/
theorem mem_includeDirs_accounted {usage : IncludeUsage}
    (h : (a.analyze frontend t).result = .ok usage)
    (hsource : ∃ source ∈ t.sources, a.config.isTranslationUnit source = true)
    (hbare : ∀ c, a.HasCommand t c → ∀ w, ¬ ["-I", "-I" ++ w] <:+: c.argumentsWithoutSource) :
    ∀ dir ∈ t.includeDirs, (Path.normalize ⟨dir⟩).text ≠ "-" →
      Path.normalize ⟨dir⟩ ∈ usage.provided.toList ∧
      ∀ exclude label, ∃ r, (a.check frontend exclude label t).result = .ok r ∧
        (Path.normalize ⟨dir⟩ ∈ usage.used.toList ∨
          exclude.excludes (Path.normalize ⟨dir⟩) = true ∨
          (Path.normalize ⟨dir⟩).text ∈ r.unused) := by
  intro dir hdir hdash
  obtain ⟨source, hmem, htu⟩ := hsource
  obtain ⟨c, hc⟩ := exists_hasCommand h hmem htu
  have hprovided : Path.normalize ⟨dir⟩ ∈ usage.provided.toList :=
    (mem_provided_iff_provides h _).2 (provides_of_mem_includeDirs hc (hbare c hc) hdir hdash)
  refine ⟨hprovided, fun exclude label => ⟨_, check_eq_ok_iff.2 ⟨usage, h, rfl⟩, ?_⟩⟩
  by_cases hused : Path.normalize ⟨dir⟩ ∈ usage.used.toList
  · exact Or.inl hused
  · cases hexcluded : exclude.excludes (Path.normalize ⟨dir⟩) with
    | true => exact Or.inr (Or.inl rfl)
    | false =>
      exact Or.inr (Or.inr ((Report.mem_unused_ofUsage_iff _ _ _ (isNormal_analyze h) _).2
        ⟨hprovided, hused, hexcluded⟩))

end Analyzer

theorem Sample.not_infix_of_hasCommand (c : CompileCommand) (h : analyzer.HasCommand target c)
    (w : String) : ¬ ["-I", "-I" ++ w] <:+: c.argumentsWithoutSource := by
  obtain ⟨source, hsource, htu, hc⟩ := h
  have ha : source = "a.c" := by
    rcases List.mem_cons.1 hsource with ha | hother
    · exact ha
    · rw [List.mem_singleton.1 hother] at htu
      exact absurd htu (by decide +kernel)
  rw [ha, command_eq] at hc
  obtain rfl := Except.ok.inj hc
  have hargs : command.argumentsWithoutSource =
      ["cc", "-I./inc/", "-Iinc", "-I", "gen", "-Ix/y", "-Ix-y"] := by decide +kernel
  have hgen : "-I" ++ w ≠ "gen" := by
    intro heq
    have hafter : Text.after? "-I" "gen" = some w := by rw [← heq, Text.after?_append]
    exact absurd hafter (by simp [Text.after?])
  rw [hargs]
  simpa [List.infix_cons_iff] using hgen

theorem Analyzer.mem_includeDirs_accounted_sample :
    ∃ usage, (Sample.analyzer.analyze (fun _ => .ok Sample.tree) Sample.target).result = .ok usage ∧
      Path.normalize ⟨"inc/"⟩ ∈ usage.provided.toList ∧
      ∀ exclude label, ∃ r,
        (Sample.analyzer.check (fun _ => .ok Sample.tree) exclude label Sample.target).result =
          .ok r ∧
        (Path.normalize ⟨"inc/"⟩ ∈ usage.used.toList ∨
          exclude.excludes (Path.normalize ⟨"inc/"⟩) = true ∨
          (Path.normalize ⟨"inc/"⟩).text ∈ r.unused) := by
  refine ⟨_, Sample.analyze_eq, ?_⟩
  exact mem_includeDirs_accounted Sample.analyze_eq ⟨"a.c", by decide, by decide +kernel⟩
    Sample.not_infix_of_hasCommand "inc/" (by decide) (by decide +kernel)

end IncludeAudit
