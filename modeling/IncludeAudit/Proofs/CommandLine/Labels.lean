import IncludeAudit.Proofs.CommandLine.Pool
import IncludeAudit.Proofs.Frontend.Clang
import IncludeAudit.Proofs.Selection

/-! # Checks of labelled targets

A check of some labels looks them up one by one and then knows each target by the label as it was
given, whatever its toolchain (`exists_chosen_labels`).  So it treats every label as a check of that
label alone does.  Whatever its workers do, its lines are theirs, one label after the other in the
order of their bytes, and a failure of one label leaves no line of another (`check_labels`).

This is about the lines behind the log.  The warnings of the compiler are logged to the same error
output before all of them, so a check can write something and still find nothing
(`not_forall_errorOutput_eq`).
-/
namespace IncludeAudit.CommandLine

variable {m : Machine} {r : CheckRequest} {s : Session}

/-- The demand with a choice of some labels instead of its own choice. -/
def CheckRequest.withLabels (r : CheckRequest) (labels : List String) : CheckRequest :=
  { r with targets := .labels labels }

namespace Session

/-- The target with a label can be analysed. -/
def Succeeds (s : Session) (m : Machine) (label : String) : Prop :=
  ∃ t usage, s.description.get label = .ok t ∧
    (s.analyzer.analyze (s.clang.parse m) t).result = .ok usage

/-- The target with a label cannot be analysed for a cause. -/
def FailsWith (s : Session) (m : Machine) (label : String) (cause : Error) : Prop :=
  ∃ t, s.description.get label = .ok t ∧
    (s.analyzer.analyze (s.clang.parse m) t).result = .error cause

/-- The same target is found under the label each time, so its report is there. -/
theorem Succeeds.report {label : String} (h : s.Succeeds m label) {t : Target}
    (ht : s.description.get label = .ok t) : ∃ report, s.report m (label, t) = .ok report := by
  obtain ⟨u, usage, hu, husage⟩ := h
  obtain rfl := Except.ok.inj (hu.symm.trans ht)
  exact ⟨_, Analyzer.check_eq_ok_iff.2 ⟨usage, husage, rfl⟩⟩

/-- A report is missing for the cause for which the analysis failed. -/
theorem report_eq_error_iff {label : String} {t : Target} {cause : Error} :
    s.report m (label, t) = .error cause ↔
      (s.analyzer.analyze (s.clang.parse m) t).result = .error cause := by
  rw [report, trace, Analyzer.check, Traced.result_map]
  cases (s.analyzer.analyze (s.clang.parse m) t).result <;> simp [Except.map]

theorem FailsWith.report {label : String} {cause : Error} (h : s.FailsWith m label cause)
    {t : Target} (ht : s.description.get label = .ok t) :
    s.report m (label, t) = .error cause := by
  obtain ⟨u, hu, hcause⟩ := h
  obtain rfl := Except.ok.inj (hu.symm.trans ht)
  exact report_eq_error_iff.2 hcause

/-- An analysis has one result: what the compiler answers is part of the machine. -/
theorem Succeeds.not_failsWith {label : String} {cause : Error} (h : s.Succeeds m label) :
    ¬ s.FailsWith m label cause := by
  rintro ⟨t, ht, hcause⟩
  obtain ⟨report, hreport⟩ := h.report ht
  cases hreport.symm.trans (report_eq_error_iff.2 hcause)

end Session

/-! ## Looking up -/

/-- Labels that are all found make a description in which each label stands for what it was looked
up as. -/
theorem exists_labelled {d : Description} {labels : List String}
    (hfound : ∀ label ∈ labels, ∃ t, d.get label = .ok t) :
    ∃ e, Session.labelled d labels = .ok e ∧
      ∀ label t, (label, t) ∈ e.items ↔ label ∈ labels ∧ d.get label = .ok t := by
  let f (label : String) : Except Error (String × Target) := do pure (label, ← d.get label)
  have hf (label : String) (x : String × Target) :
      f label = .ok x ↔ ∃ t, d.get label = .ok t ∧ (label, t) = x :=
    bind_eq_ok_iff.trans (exists_congr fun _ => and_congr_right fun _ =>
      ⟨Except.ok.inj, congrArg Except.ok⟩)
  obtain ⟨ts, hts⟩ : ∃ ts, labels.mapM f = .ok ts := exists_mapM_eq_ok fun label hlabel => by
    obtain ⟨t, ht⟩ := hfound label hlabel
    exact ⟨(label, t), (hf _ _).2 ⟨t, ht, rfl⟩⟩
  have hmem (label : String) (t : Target) :
      (label, t) ∈ ts ↔ label ∈ labels ∧ d.get label = .ok t := by
    rw [mem_iff_of_mapM_eq_ok hts]
    simp only [hf, Prod.mk.injEq]
    constructor
    · rintro ⟨_, hlabel, _, ht, rfl, rfl⟩
      exact ⟨hlabel, ht⟩
    · rintro ⟨hlabel, ht⟩
      exact ⟨label, hlabel, t, ht, rfl, rfl⟩
  refine ⟨.ofList ts, bind_eq_ok_iff.2 ⟨ts, hts, rfl⟩, fun label t => ?_⟩
  rw [Description.mem_items_ofList_iff, hmem]
  -- a label that is given twice is looked up twice as the same target
  rintro ⟨k, t⟩ ht ⟨l, u⟩ hu hkl
  obtain rfl : k = l := hkl
  exact Except.ok.inj (((hmem k t).1 ht).2.symm.trans ((hmem k u).1 hu).2)

/-- Labels that are all found are a choice of the targets that they stand for. -/
theorem exists_chosen_labels {labels : List String}
    (hfound : ∀ label ∈ labels, ∃ t, s.description.get label = .ok t) :
    ∃ d, s.chosen (.labels labels) = .ok d ∧
      ∀ label t, (label, t) ∈ d.items ↔ label ∈ labels ∧ s.description.get label = .ok t := by
  obtain ⟨d, hd, hmem⟩ := exists_labelled hfound
  exact ⟨d, mapError_eq_ok_iff.2 hd, hmem⟩

theorem chosen_label {label : String} {t : Target} (ht : s.description.get label = .ok t) :
    s.chosen (.labels [label]) = .ok (.ofList [(label, t)]) := by
  simp only [Session.chosen, Session.labelled, List.mapM_cons, List.mapM_nil, ht]
  rfl

/-- Of a session only the chosen description counts. -/
theorem check_of_chosen (hload : Session.load m r = .ok s) {labels : List String} {d : Description}
    (hd : s.chosen (.labels labels) = .ok d) : check m (r.withLabels labels) = s.check m d := by
  rw [CheckRequest.withLabels, check_of_load hload, hd]

/-- The same with workers: what they share out are the chosen targets. -/
theorem mayGive_of_chosen (hload : Session.load m r = .ok s) {labels : List String}
    {d : Description} {o : Outcome} (hd : s.chosen (.labels labels) = .ok d) :
    MayGive m (r.withLabels labels) o ↔
      ∃ workers, r.Allows workers ∧ s.MayGive m workers d o := by
  refine mayGive_of_prepare ?_
  rw [CheckRequest.withLabels, prepare_of_load hload, hd]
  rfl

/-- A check of one label is one of its target. -/
theorem check_label_eq (hload : Session.load m r = .ok s) {label : String} {t : Target}
    (ht : s.description.get label = .ok t) :
    check m (r.withLabels [label]) = s.check m (.ofList [(label, t)]) :=
  check_of_chosen hload (chosen_label ht)

/-- A label that is not found ends a check before any target is analysed. -/
theorem check_label_eq_failure (hload : Session.load m r = .ok s) {label : String} {cause : Error}
    (hcause : s.description.get label = .error cause) :
    check m (r.withLabels [label]) = .ofFailure (.failed cause) [] := by
  have hchosen : s.chosen (.labels [label]) = .error (.failed cause) := by
    simp only [Session.chosen, Session.labelled, List.mapM_cons, hcause]
    rfl
  rw [CheckRequest.withLabels, check_of_load hload, hchosen]

/-- A check of one label has one outcome, whatever its workers do. -/
theorem mayGive_label_iff (hload : Session.load m r = .ok s) {label : String} {t : Target}
    {o : Outcome} (ht : s.description.get label = .ok t) :
    MayGive m (r.withLabels [label]) o ↔ o = check m (r.withLabels [label]) := by
  have hitems := Description.items_singleton (label, t)
  rw [mayGive_of_chosen hload (chosen_label ht), check_label_eq hload ht]
  constructor
  · rintro ⟨workers, hallows, ho⟩
    exact (Session.mayGive_iff_of_single hallows.1 hitems).1 ho
  · intro ho
    exact ⟨1, r.allows_one, (Session.mayGive_iff_of_single Nat.one_pos hitems).2 ho⟩

/-- A check of one label puts out one report, behind what is noticed on the way to it. -/
theorem check_label_of_report (hload : Session.load m r = .ok s) {label : String} {t : Target}
    {report : Report} (ht : s.description.get label = .ok t)
    (hreport : s.report m (label, t) = .ok report) :
    check m (r.withLabels [label]) = .ofReports [report] (s.events m (label, t)) := by
  have hitems := Description.items_singleton (label, t)
  have hreports : [(label, t)].mapM (s.report m) = .ok [report] :=
    mapM_cons_eq_ok_iff.2 ⟨report, [], hreport, rfl, rfl⟩
  have hevents : s.eventsOf m [(label, t)] = s.events m (label, t) := by
    rw [Session.eventsOf_cons, hreport]
    exact List.append_nil _
  rw [check_label_eq hload ht, Session.check_eq (by simp [hitems]), hitems, hreports, hevents]

/-- A check of one label puts out the lines on its target, and logs what there is to log of it. -/
theorem errors_log_label (hload : Session.load m r = .ok s) {label : String} {t : Target}
    (ht : s.description.get label = .ok t)
    (hreport : ∃ report, s.report m (label, t) = .ok report) :
    (check m (r.withLabels [label])).errors = s.lines m (label, t) ∧
      (check m (r.withLabels [label])).log = s.log m (label, t) := by
  obtain ⟨report, hreport⟩ := hreport
  rw [check_label_of_report hload ht hreport, ← Session.lines_of_report hreport]
  exact ⟨List.flatMap_singleton .., rfl⟩

/-! ## Several labels -/

section Labels

variable {labels : List String} {d : Description} {o : Outcome}
  (hmem : ∀ label t, (label, t) ∈ d.items ↔ label ∈ labels ∧ s.description.get label = .ok t)

include hmem

/-- The chosen targets are listed under the given labels. -/
theorem mem_labels_iff (hfound : ∀ label ∈ labels, ∃ t, s.description.get label = .ok t)
    (label : String) : label ∈ d.items.map (·.1) ↔ label ∈ labels := by
  constructor
  · intro h
    obtain ⟨x, hx, rfl⟩ := List.mem_map.1 h
    exact ((hmem x.1 x.2).1 hx).1
  · intro h
    obtain ⟨t, ht⟩ := hfound label h
    exact List.mem_map.2 ⟨(label, t), (hmem label t).2 ⟨h, ht⟩, rfl⟩

/-- If no label fails, there is a report on every chosen target. -/
theorem report_of_succeeds (hall : ∀ label ∈ labels, s.Succeeds m label) :
    ∀ x ∈ d.items, ∃ report, s.report m x = .ok report := by
  intro x hx
  obtain ⟨hlabel, ht⟩ := (hmem x.1 x.2).1 hx
  exact (hall x.1 hlabel).report ht

/-- What the checks of single labels put out and log is what there is to put out and to log of the
targets that they stand for. -/
theorem flatMap_check_label (hload : Session.load m r = .ok s)
    (hall : ∀ label ∈ labels, s.Succeeds m label) :
    ((d.items.map (·.1)).flatMap fun label => (check m (r.withLabels [label])).errors) =
        d.items.flatMap (s.lines m) ∧
      ((d.items.map (·.1)).flatMap fun label => (check m (r.withLabels [label])).log) =
        d.items.flatMap (s.log m) := by
  have hlabel (x : String × Target) (hx : x ∈ d.items) :=
    errors_log_label hload ((hmem x.1 x.2).1 hx).2 (report_of_succeeds hmem hall x hx)
  rw [List.flatMap_map, List.flatMap_map]
  exact ⟨List.flatMap_congr fun x hx => (hlabel x hx).1,
    List.flatMap_congr fun x hx => (hlabel x hx).2⟩

/-- If all targets can be analysed, all of their lines are put out. -/
theorem mayGive_of_succeeds (hload : Session.load m r = .ok s) (hitems : d.items ≠ [])
    (hfound : ∀ label ∈ labels, ∃ t, s.description.get label = .ok t)
    (hall : ∀ label ∈ labels, s.Succeeds m label) {workers : Nat}
    (h : s.MayGive m workers d o) :
    o.errors = (d.items.map (·.1)).flatMap (fun label =>
        (check m (r.withLabels [label])).errors) ∧
      o.status = (if o.errors = [] then 0 else 1) ∧
      o.log.Perm ((d.items.map (·.1)).flatMap fun label =>
        (check m (r.withLabels [label])).log) ∧
      ∀ label ∈ labels, (check m (r.withLabels [label])).log.Sublist o.log := by
  have hreport := report_of_succeeds hmem hall
  obtain ⟨herrors, hstatus, hperm, hsublist⟩ := h.of_reports hitems hreport
  obtain ⟨hlines, hlog⟩ := flatMap_check_label hmem hload hall
  refine ⟨herrors.trans hlines.symm, hstatus, hlog ▸ hperm, fun label hlabel => ?_⟩
  obtain ⟨t, ht⟩ := hfound label hlabel
  have hx : (label, t) ∈ d.items := (hmem label t).2 ⟨hlabel, ht⟩
  rw [(errors_log_label hload ht (hreport _ hx)).2]
  exact hsublist _ hx

/-- If some target cannot be analysed, the only line is about such a target. -/
theorem mayGive_of_failsWith {label : String} {cause : Error} (hlabel : label ∈ labels)
    (hfails : s.FailsWith m label cause) {workers : Nat} (h : s.MayGive m workers d o) :
    o.status = 2 ∧ ∃ other ∈ labels, ∃ reason, s.FailsWith m other reason ∧
      o.errors = ["includelint: error: " ++ (Failure.failed reason).message] := by
  obtain ⟨t, ht, _⟩ := id hfails
  obtain ⟨⟨other, u⟩, hother, reason, hreason, hstatus, herrors⟩ :=
    h.of_failure ⟨(label, t), (hmem label t).2 ⟨hlabel, ht⟩, cause, hfails.report ht⟩
  obtain ⟨hother, hu⟩ := (hmem other u).1 hother
  exact ⟨hstatus, other, hother, reason, ⟨u, hu, Session.report_eq_error_iff.1 hreason⟩, herrors⟩

end Labels

/-- **A check of several labels is the sum of the checks of each, and all or nothing.**  Whatever
its workers do, if all of their targets can be analysed, the lines behind the log are those of the
checks of the distinct labels one by one, in the order of their bytes, and they alone decide the
status; what is logged is what these checks log, mixed.  If one cannot be analysed, the only line is
that of the failure.  A check of a single label always comes to the same, and the order and the
repetitions of labels do not matter. -/
theorem check_labels (hload : Session.load m r = .ok s) {labels : List String} (hne : labels ≠ [])
    (hfound : ∀ label ∈ labels, ∃ t, s.description.get label = .ok t) :
    MayGive m (r.withLabels labels) (check m (r.withLabels labels)) ∧
    (∀ label ∈ labels, ∀ o,
      MayGive m (r.withLabels [label]) o ↔ o = check m (r.withLabels [label])) ∧
    ((∀ label ∈ labels, s.Succeeds m label) →
      ∃ ls : List String, (ls.Pairwise fun k l => Glob.bytes k.toList < Glob.bytes l.toList) ∧
        (∀ label, label ∈ ls ↔ label ∈ labels) ∧
        ∀ o, MayGive m (r.withLabels labels) o →
          o.errors = ls.flatMap (fun label => (check m (r.withLabels [label])).errors) ∧
          o.status = (if o.errors = [] then 0 else 1) ∧
          o.log.Perm (ls.flatMap fun label => (check m (r.withLabels [label])).log) ∧
          ∀ label ∈ labels, (check m (r.withLabels [label])).log.Sublist o.log) ∧
    (∀ label ∈ labels, ∀ cause, s.FailsWith m label cause →
      ∀ o, MayGive m (r.withLabels labels) o →
        o.status = 2 ∧
        (∃ other ∈ labels, ∃ reason, s.FailsWith m other reason ∧
          o.errors = ["includelint: error: " ++ (Failure.failed reason).message]) ∧
        ((∀ other ∈ labels, other ≠ label → s.Succeeds m other) →
          o.errors = ["includelint: error: " ++ (Failure.failed cause).message])) ∧
    ∀ others, (∀ label, label ∈ others ↔ label ∈ labels) →
      (∀ o, MayGive m (r.withLabels others) o ↔ MayGive m (r.withLabels labels) o) ∧
      check m (r.withLabels others) = check m (r.withLabels labels) := by
  obtain ⟨d, hd, hmem⟩ := exists_chosen_labels hfound
  refine ⟨mayGive_check m _, fun label hlabel o => ?_, fun hall => ?_,
    fun label hlabel cause hfails o ho => ?_, fun others hothers => ?_⟩
  · obtain ⟨t, ht⟩ := hfound label hlabel
    exact mayGive_label_iff hload ht
  · have hlabels := mem_labels_iff hmem hfound
    have hitems : d.items ≠ [] := by
      obtain ⟨label, hlabel⟩ := List.exists_mem_of_ne_nil labels hne
      exact List.map_eq_nil_iff.not.1 (List.ne_nil_of_mem ((hlabels label).2 hlabel))
    refine ⟨d.items.map (·.1), d.pairwise_labels, hlabels, fun o ho => ?_⟩
    obtain ⟨workers, _, ho⟩ := (mayGive_of_chosen hload hd).1 ho
    exact mayGive_of_succeeds hmem hload hitems hfound hall ho
  · obtain ⟨workers, _, ho⟩ := (mayGive_of_chosen hload hd).1 ho
    obtain ⟨hstatus, other, hother, reason, hreason, herrors⟩ :=
      mayGive_of_failsWith hmem hlabel hfails ho
    refine ⟨hstatus, ⟨other, hother, reason, hreason, herrors⟩, fun hrest => ?_⟩
    -- no other label fails, so the failure is that of the label
    obtain rfl : other = label := by
      by_contra hne
      exact (hrest other hother hne).not_failsWith hreason
    obtain ⟨t, ht⟩ := hfound other hother
    obtain rfl := Except.error.inj ((hfails.report ht).symm.trans (hreason.report ht))
    exact herrors
  · obtain ⟨e, he, hmem'⟩ := exists_chosen_labels fun label hlabel =>
      hfound label ((hothers label).1 hlabel)
    have hitems : e.items = d.items := Description.items_eq_of_mem_iff d.pairwise_items (by
      rintro ⟨label, t⟩
      rw [hmem, hmem', hothers])
    refine ⟨fun o => ?_, ?_⟩
    · rw [mayGive_of_chosen hload he, mayGive_of_chosen hload hd]
      exact exists_congr fun workers => and_congr_right fun _ =>
        ⟨Session.mayGive_congr hitems, Session.mayGive_congr hitems.symm⟩
    · rw [check_of_chosen hload he, check_of_chosen hload hd, Session.check_congr hitems]

/-! ## A sample -/
namespace Sample

/-- What the compiler complains of. -/
def complaint : String := "a.c:1:1: warning: unused"

/-- What the compiler puts out then. -/
def complaints : List UInt8 := Glob.bytes (complaint ++ "\n").toList

variable (stderr : List UInt8)

theorem run_compiled :
    (hostOf stderr).run session.clang.path (some (session.analyzer.request compiled).directory)
      (session.clang.arguments (session.analyzer.request compiled)) =
        .ok { stderr := stderr } :=
  rfl

def parsed : TranslationUnit :=
  Clang.filledUnit (hostOf stderr) (session.analyzer.request compiled) { stderr := stderr }

/-- No directive is read from an empty text, so no directory is used. -/
theorem usedDirectories_parsed :
    session.analyzer.overlay.usedDirectories (parsed stderr) = ∅ := by
  have hread :
      (Clang.preprocessed (session.analyzer.request compiled) {}).root.inclusions = [] := by
    rw [Node.inclusions, Node.preorder_eq_nodes]
    decide +kernel
  have hfilled := HeaderSearch.map_unopened_inclusions_fillSkipped
    (Clang.headerSearch (session.analyzer.request compiled).directory
      (session.analyzer.request compiled).arguments) files
    (Clang.preprocessed (session.analyzer.request compiled) {}).root
  rw [hread] at hfilled
  have hparsed : (parsed stderr).inclusions = [] := List.map_eq_nil_iff.1 hfilled
  rw [Overlay.usedDirectories, Overlay.attributions, hparsed]
  rfl

theorem command_built : session.analyzer.command built "a.c" = .ok compiled := by
  have hcommands : session.analyzer.database.commandsFor ⟨"/w/a.c"⟩ = [compiled] := by
    rw [session, Database.commandsFor_ofList]
    rfl
  have hcarries : compiled.carries (requiredFlags built "a.c" {}) = true := rfl
  refine Analyzer.command_eq_ok_iff.2 ⟨⟨"/w/a.c"⟩, rfl, ?_⟩
  rw [Database.select, hcommands, List.find?_cons_of_pos]
  exact hcarries

/-- The database has no command for the other source. -/
theorem command_lost :
    session.analyzer.command lost "b.c" = .error (.noCommand ⟨"/w/b.c"⟩) := by
  have hcommands : session.analyzer.database.commandsFor ⟨"/w/b.c"⟩ = [] := by
    rw [session, Database.commandsFor_ofList]
    rfl
  show session.analyzer.database.select ⟨"/w/b.c"⟩ _ = _
  rw [Database.select, hcommands]
  rfl

/-- The declared directory is provided and not used. -/
theorem analyze_built :
    session.analyzer.analyze (session.clang.parse (hostOf stderr)) built =
      ⟨[session.analyzer.request compiled], .ok ⟨.insertAll ∅ [⟨"inc"⟩], ∅⟩⟩ := by
  have hsources : built.sources.filter session.analyzer.config.isTranslationUnit = ["a.c"] :=
    rfl
  have hparse : session.clang.parse (hostOf stderr) (session.analyzer.request compiled) =
      .ok (parsed stderr) :=
    Clang.parse_eq_ok (run_compiled stderr) rfl
  rw [Analyzer.analyze, hsources, Analyzer.addSources, Analyzer.addSource, command_built]
  simp only [Traced.ofExcept, Traced.bind, Analyzer.ask, Traced.map, hparse, Except.map,
    usedDirectories_parsed]
  rfl

theorem analyze_lost :
    (session.analyzer.analyze (session.clang.parse (hostOf stderr)) lost).result =
      .error (.noCommand ⟨"/w/b.c"⟩) := by
  have hsources : lost.sources.filter session.analyzer.config.isTranslationUnit = ["b.c"] :=
    rfl
  rw [Analyzer.analyze, Analyzer.result_addSources, hsources, List.mapM_cons, Analyzer.unit,
    command_lost]
  rfl

theorem report_built (exclude : ExcludeFilter) {unused : List String}
    (hunused : (if exclude.excludes ⟨"inc"⟩ then [] else ["inc"]) = unused) (label : String) :
    (excluding exclude).report (hostOf stderr) (label, built) =
      .ok ⟨label, "executable", unused⟩ := by
  have husage := congrArg Traced.result (analyze_built stderr)
  refine Analyzer.check_eq_ok_iff.2 ⟨_, husage, congrArg (Report.mk _ _) ?_⟩
  have hlist : (IncludeUsage.unused ⟨.insertAll ∅ [⟨"inc"⟩], ∅⟩).toList = [⟨"inc"⟩] := rfl
  have hexclude : (excluding exclude).exclude = exclude := rfl
  rw [← hunused, hlist, hexclude]
  cases hexcluded : exclude.excludes ⟨"inc"⟩ <;> simp [hexcluded]

/-- The diagnostics of the compiler are logged. -/
theorem log_built (exclude : ExcludeFilter) (label : String) :
    (excluding exclude).log (hostOf stderr) (label, built) = Clang.diagnostics stderr := by
  have hrequests : ((excluding exclude).trace (hostOf stderr) (label, built)).requests =
      [session.analyzer.request compiled] :=
    congrArg Traced.requests (analyze_built stderr)
  have hevents : session.clang.events (hostOf stderr) (session.analyzer.request compiled) =
      .run (session.clang.arguments (session.analyzer.request compiled)) ::
        (Clang.diagnostics stderr).map .warning := by
    rw [Clang.events, run_compiled]
    rfl
  have hclang : (excluding exclude).clang = session.clang := rfl
  rw [Session.log, Session.events, hrequests, List.flatMap_singleton, hclang, hevents,
    List.filterMap_cons_none rfl, List.filterMap_map]
  exact List.filterMap_some

theorem get_plain : session.description.get "//:a" = .ok built :=
  Description.get_of_mem_items (mem_listed_iff.2 (by simp [listed])) (by decide)

theorem get_suffixed : session.description.get "//:a(//t:x)" = .ok built :=
  (Description.get_withToolchain_eq_ok_iff "//:a" (by decide : '(' ∉ "//t:x".toList)).2
    (mem_listed_iff.2 (by simp [listed]))

theorem get_lost : session.description.get "//:b" = .ok lost :=
  Description.get_of_mem_items (mem_listed_iff.2 (by simp [listed])) (by decide)

theorem diagnostics_complaints : Clang.diagnostics complaints = [complaint] := by
  decide +kernel

/-- The filter that excludes the only directory that is passed. -/
def withoutInc : ExcludeFilter := ⟨[.whole (Glob.bytes "inc".toList)]⟩

theorem ofPatterns_inc : ExcludeFilter.ofPatterns ["inc"] = .ok withoutInc := by
  have hparse : Glob.parse "inc" = .ok [.literal 'i', .literal 'n', .literal 'c'] := by
    rw [Glob.parse, show "inc".toList = ['i', 'n', 'c'] from rfl]
    simp only [Glob.parseFrom, Glob.Groups.push, Glob.Groups.setCurrent]
    rfl
  have htest : ExcludeFilter.test "inc" = .ok (.whole (Glob.bytes "inc".toList)) := by
    rw [ExcludeFilter.test, hparse]
    rfl
  have htests : ["inc"].mapM ExcludeFilter.test = .ok withoutInc.tests := by
    rw [List.mapM_cons, htest]
    rfl
  rw [ExcludeFilter.ofPatterns, htests]
  rfl

theorem succeeds_plain : session.Succeeds (hostOf stderr) "//:a" :=
  ⟨_, _, get_plain, congrArg Traced.result (analyze_built stderr)⟩

theorem succeeds_suffixed : session.Succeeds (hostOf stderr) "//:a(//t:x)" :=
  ⟨_, _, get_suffixed, congrArg Traced.result (analyze_built stderr)⟩

theorem failsWith_lost :
    session.FailsWith (hostOf stderr) "//:b" (.noCommand ⟨"/w/b.c"⟩) :=
  ⟨_, get_lost, analyze_lost stderr⟩

/-- The check of a label whose target is built puts out its report and logs the complaint. -/
theorem errors_log_built {label : String} (h : session.description.get label = .ok built) :
    (check (hostOf complaints) (demand.withLabels [label])).errors =
        Report.diagnostics ⟨label, "executable", ["inc"]⟩ ∧
      (check (hostOf complaints) (demand.withLabels [label])).log = [complaint] := by
  have hreport := report_built complaints ⟨[]⟩ rfl label
  have hlogged := log_built complaints ⟨[]⟩ label
  rw [excluding_nothing] at hreport hlogged
  obtain ⟨herrors, hlog⟩ := errors_log_label (load_eq complaints) h ⟨_, hreport⟩
  rw [herrors, hlog, hlogged, diagnostics_complaints, ← Session.lines_of_report hreport]
  exact ⟨rfl, rfl⟩

end Sample

theorem check_labels_sample :
    (∀ o, MayGive (Sample.hostOf Sample.complaints)
        (Sample.demand.withLabels ["//:a(//t:x)", "//:a", "//:a(//t:x)"]) o →
      o.errors =
        ["//:a: error: executable contains unused include directory \"inc\"",
          "//:a(//t:x): error: executable contains unused include directory \"inc\""] ∧
      o.status = 1 ∧ o.log = [Sample.complaint, Sample.complaint]) ∧
    (∀ o, MayGive (Sample.hostOf Sample.complaints)
        (Sample.demand.withLabels ["//:a", "//:b"]) o →
      o.status = 2 ∧
      o.errors = ["includelint: error: unable to retrieve compile command for \"/w/b.c\""]) ∧
    check (Sample.hostOf Sample.complaints) (Sample.demand.withLabels ["//:b", "//:a", "//:b"]) =
      check (Sample.hostOf Sample.complaints) (Sample.demand.withLabels ["//:a", "//:b"]) := by
  have hload := Sample.load_eq Sample.complaints
  constructor
  · intro o ho
    obtain ⟨_, _, hsum, _⟩ := check_labels hload
      (List.cons_ne_nil "//:a(//t:x)" ["//:a", "//:a(//t:x)"])
      (by simp [Sample.get_plain, Sample.get_suffixed])
    obtain ⟨ls, hsorted, hmem, hsum⟩ :=
      hsum (by simp [Sample.succeeds_plain, Sample.succeeds_suffixed])
    have hls : ls = ["//:a", "//:a(//t:x)"] := by
      have hasymm : Std.Asymm fun k l : String => Glob.bytes k.toList < Glob.bytes l.toList :=
        ⟨fun _ _ => List.lt_asymm⟩
      refine hsorted.eq_of_mem_iff (by decide) fun label => ?_
      simp only [hmem, List.mem_cons, List.not_mem_nil, or_false]
      rw [or_left_comm, or_self]
    obtain ⟨hplain, hplainLog⟩ := Sample.errors_log_built Sample.get_plain
    obtain ⟨hsuffixed, hsuffixedLog⟩ := Sample.errors_log_built Sample.get_suffixed
    obtain ⟨herrors, hstatus, hlog, _⟩ := hsum o ho
    rw [hls, List.flatMap_cons, List.flatMap_singleton, hplain, hsuffixed] at herrors
    rw [hls, List.flatMap_cons, List.flatMap_singleton, hplainLog, hsuffixedLog] at hlog
    have htwice : o.log.Perm (List.replicate 2 Sample.complaint) := hlog
    refine ⟨herrors, ?_, List.perm_replicate.1 htwice⟩
    rw [hstatus, herrors]
    rfl
  · obtain ⟨_, _, _, hfails, hsame⟩ := check_labels hload (List.cons_ne_nil "//:a" ["//:b"])
      (by simp [Sample.get_plain, Sample.get_lost])
    refine ⟨fun o ho => ?_, (hsame _ (by simp [or_comm])).2⟩
    obtain ⟨hstatus, _, hline⟩ :=
      hfails "//:b" (by simp) _ (Sample.failsWith_lost Sample.complaints) o ho
    refine ⟨hstatus, hline fun other hother hne => ?_⟩
    obtain rfl : other = "//:a" := by simpa [hne] using hother
    exact Sample.succeeds_plain Sample.complaints

/-- The log is written to the error output too, so a check that finds nothing can write something,
however the log presents its messages. -/
theorem not_forall_errorOutput_eq :
    ¬ ∃ present : Nat → String → String,
      ∀ (m : Machine) (r : CheckRequest) (s : Session) (labels : List String),
        Session.load m r = .ok s → labels ≠ [] →
        (∀ label ∈ labels, ∃ t, s.description.get label = .ok t) →
        (∀ label ∈ labels, s.Succeeds m label) →
        ∃ ls : List String, (ls.Pairwise fun k l => Glob.bytes k.toList < Glob.bytes l.toList) ∧
          (∀ label, label ∈ ls ↔ label ∈ labels) ∧
          ∀ o, MayGive m (r.withLabels labels) o →
            o.errorOutput present = ls.flatMap (fun label =>
              (check m (r.withLabels [label])).errorOutput present) ∧
            o.status = if o.errorOutput present = [] then 0 else 1 := by
  rintro ⟨present, h⟩
  have hload := Sample.load_of_exclude Sample.complaints Sample.ofPatterns_inc
  have hget : (Sample.excluding Sample.withoutInc).description.get "//:a" = .ok Sample.built :=
    Sample.get_plain
  obtain ⟨_, _, _, hall⟩ := h _ _ _ ["//:a"] hload (List.cons_ne_nil _ _)
    (List.forall_mem_singleton.2 ⟨_, hget⟩)
    (List.forall_mem_singleton.2 (Sample.succeeds_plain Sample.complaints))
  have hunused : (if Sample.withoutInc.excludes ⟨"inc"⟩ then [] else ["inc"]) = [] := by
    decide +kernel
  have hclean := check_label_of_report hload hget
    (Sample.report_built Sample.complaints Sample.withoutInc hunused "//:a")
  have hlog := Sample.log_built Sample.complaints Sample.withoutInc "//:a"
  rw [Sample.diagnostics_complaints, Session.log] at hlog
  obtain ⟨_, hstatus⟩ := hall _ (mayGive_check _ _)
  have hwritten : (check (Sample.hostOf Sample.complaints)
      (CheckRequest.withLabels { Sample.demand with exclude := ["inc"] } ["//:a"])).errorOutput
        present = [present 0 Sample.complaint] := by
    rw [hclean, Outcome.errorOutput, Outcome.ofReports, hlog]
    rfl
  rw [hwritten, if_neg (List.cons_ne_nil _ _), hclean] at hstatus
  cases hstatus

end IncludeAudit.CommandLine
