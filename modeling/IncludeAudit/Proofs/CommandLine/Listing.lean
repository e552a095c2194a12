import IncludeAudit.Proofs.CommandLine.Labels

/-! # Listed labels

The labels that a list of targets puts out come from the description as they are, but a look-up
ignores the toolchain of a label.  So a check of a listed label treats the target that is listed
under it if the label names no toolchain; one with a toolchain stands for what is listed under its
base (`check_listed`), even if another target is listed under the label itself
(`Description.not_forall_get_eq_ok`).
-/
namespace IncludeAudit

namespace CommandLine

variable {m : Machine} {r : CheckRequest} {s : Session}

/-- A list of targets puts out what a check of all targets treats. -/
theorem listTargets_of_load (hload : Session.load m r = .ok s) :
    listTargets m r.description r.config? =
      { status := 0
        output := (analyzable s.description s.analyzer.config).items.map fun x =>
          x.1 ++ "\t" ++ x.2.entity } := by
  obtain ⟨config, _, _, _, _, description, _, hconfig, _, _, _, _, hdescription, _, rfl⟩ :=
    Session.load_eq_ok_iff.1 hload
  rw [listTargets, hconfig, hdescription]
  rfl

theorem items_analyzable_subset (d : Description) (config : AnalysisConfig) :
    (analyzable d config).items ⊆ d.items := by
  rw [analyzable, Description.items_filter]
  exact List.filter_sublist.subset

/-- **A listed target is found under its label, unless the label names a toolchain.**  A label with
a toolchain stands for what is listed under its base, whatever is listed under itself.  A check of a
label treats the one target that the label stands for; a check of all targets treats each under the
label that is put out for it. -/
theorem check_listed (d : Description) :
    (∀ x ∈ d.items, '(' ∉ x.1.toList → d.get x.1 = .ok x.2) ∧
    (∀ base toolchain : String, '(' ∉ toolchain.toList →
      (∀ t, d.get (withToolchain base toolchain) = .ok t ↔ (base, t) ∈ d.items) ∧
      ((∀ t, (base, t) ∉ d.items) → d.get (withToolchain base toolchain) =
        .error (.unknownTarget (withToolchain base toolchain)))) ∧
    ∀ (m : Machine) (r : CheckRequest) (s : Session),
      Session.load m r = .ok s → s.description = d →
      listTargets m r.description r.config? =
        { status := 0
          output := (analyzable d s.analyzer.config).items.map fun x =>
            x.1 ++ "\t" ++ x.2.entity } ∧
      (analyzable d s.analyzer.config).items ⊆ d.items ∧
      check m { r with targets := .all } = s.check m (analyzable d s.analyzer.config) ∧
      (∀ x ∈ d.items, '(' ∉ x.1.toList → check m (r.withLabels [x.1]) = s.check m (.ofList [x])) ∧
      ∀ base toolchain : String, '(' ∉ toolchain.toList →
        (∀ t, (base, t) ∈ d.items → check m (r.withLabels [withToolchain base toolchain]) =
          s.check m (.ofList [(withToolchain base toolchain, t)])) ∧
        ((∀ t, (base, t) ∉ d.items) → check m (r.withLabels [withToolchain base toolchain]) =
          .ofFailure (.failed (.unknownTarget (withToolchain base toolchain))) []) := by
  refine ⟨?_, ?_, ?_⟩
  · intro x hx hlabel
    exact Description.get_of_mem_items hx hlabel
  · intro base toolchain h
    refine ⟨fun t => ?_, fun hbase => ?_⟩
    · exact Description.get_withToolchain_eq_ok_iff base h
    · exact Description.get_withToolchain_eq_error h hbase
  · rintro m r s hload rfl
    refine ⟨listTargets_of_load hload, items_analyzable_subset .., check_of_load hload .all, ?_, ?_⟩
    · intro x hx hlabel
      exact check_label_eq hload (Description.get_of_mem_items hx hlabel)
    · intro base toolchain h
      refine ⟨fun t ht => ?_, fun hbase => ?_⟩
      · exact check_label_eq hload ((Description.get_withToolchain_eq_ok_iff base h).2 ht)
      · exact check_label_eq_failure hload (Description.get_withToolchain_eq_error h hbase)

theorem Sample.withToolchain_eq : withToolchain "//:b" "//t:c" = "//:b(//t:c)" := rfl

/-- A label with a toolchain is listed for one target and stands for another. -/
theorem check_listed_sample :
    ("//:b", Sample.lost) ∈ Sample.session.description.items ∧
    Sample.session.description.get "//:b" = .ok Sample.lost ∧
    check Sample.host (Sample.demand.withLabels ["//:b"]) =
      Sample.session.check Sample.host (.ofList [("//:b", Sample.lost)]) ∧
    ("//:b(//t:c)", Sample.bare) ∈ Sample.session.description.items ∧
    check Sample.host (Sample.demand.withLabels ["//:b(//t:c)"]) =
      Sample.session.check Sample.host (.ofList [("//:b(//t:c)", Sample.lost)]) := by
  have hlost : ("//:b", Sample.lost) ∈ Sample.session.description.items :=
    Sample.mem_listed_iff.2 (by simp [Sample.listed])
  have hbare : ("//:b(//t:c)", Sample.bare) ∈ Sample.session.description.items :=
    Sample.mem_listed_iff.2 (by simp [Sample.listed])
  have hbase : '(' ∉ "//:b".toList := by decide
  have htoolchain : '(' ∉ "//t:c".toList := by decide
  obtain ⟨hget, _, hrun⟩ := check_listed Sample.session.description
  obtain ⟨_, _, _, hplain, hsuffixed⟩ := hrun _ _ _ (Sample.load_eq []) rfl
  have hother := (hsuffixed "//:b" "//t:c" htoolchain).1 _ hlost
  rw [Sample.withToolchain_eq] at hother
  exact ⟨hlost, hget _ hlost hbase, hplain ("//:b", Sample.lost) hlost hbase, hbare, hother⟩

end CommandLine

open CommandLine in
/-- A target can be listed under a label that stands for another one. -/
theorem Description.not_forall_get_eq_ok :
    ¬ ∀ (text : String) (d : Description), parse text = .ok d →
      ∀ x ∈ d.items, d.get x.1 = .ok x.2 := by
  intro h
  have hlisted : ("//:b(//t:c)", Sample.bare) ∈ Sample.session.description.items :=
    Sample.mem_listed_iff.2 (by simp [Sample.listed])
  have hbare : Sample.session.description.get "//:b(//t:c)" = .ok Sample.bare :=
    h Sample.describedText Sample.session.description Sample.parse_describedText _ hlisted
  have hlost : Sample.session.description.get (withToolchain "//:b" "//t:c") = .ok Sample.lost :=
    (get_withToolchain_eq_ok_iff "//:b" (by decide)).2
      (Sample.mem_listed_iff.2 (by simp [Sample.listed]))
  rw [Sample.withToolchain_eq, hbare] at hlost
  exact absurd (congrArg Target.sources (Except.ok.inj hlost)) (by decide)

end IncludeAudit
