import IncludeAudit.Proofs.Selection
import Mathlib.Data.List.Forall2

/-! # What an analysis asks for

The turn of a source in an analysis has four ends (`Turn`): there is no path, there is no command,
the frontend is asked and rejects the request, or it is asked and answers.  Every source comes to
exactly one of them, whatever was found before (`exists_turn`, `Turn.addSource_eq_error`,
`Turn.addSource_eq_ok`).  So the sources before the first one that fails are asked for once each, in
order, that one is asked for only if it is the frontend that fails, and no other source is looked at
(`analyze_requests`).
-/
namespace IncludeAudit

namespace Analyzer

variable (a : Analyzer) (frontend : Frontend) (t : Target)

/-! ## Turns -/

/-- How the turn of a source ends: the requests made in it and the error, if there is one. -/
inductive Turn (source : String) : List ParseRequest → Option Error → Prop
  | noPath {e : Error} (hpath : a.workspace.sourcePath source = .error e) :
      Turn source [] (some e)
  | noCommand {path : Path} (hpath : a.workspace.sourcePath source = .ok path)
      (hnone : a.database.NoMatch path (requiredFlags t source a.config)) :
      Turn source [] (some (.noCommand path))
  | rejected {path : Path} {c : CompileCommand} {r : ParseRequest} {e : Error}
      (hpath : a.workspace.sourcePath source = .ok path)
      (hfirst : a.database.FirstMatch path (requiredFlags t source a.config) c)
      (hrequest : r = ⟨c.directory, c.filename, (a.argumentFilter.extract c).arguments, true, true⟩)
      (hanswer : frontend r = .error e) :
      Turn source [r] (some e)
  | parsed {path : Path} {c : CompileCommand} {r : ParseRequest} {u : TranslationUnit}
      (hpath : a.workspace.sourcePath source = .ok path)
      (hfirst : a.database.FirstMatch path (requiredFlags t source a.config) c)
      (hrequest : r = ⟨c.directory, c.filename, (a.argumentFilter.extract c).arguments, true, true⟩)
      (hanswer : frontend r = .ok u) :
      Turn source [r] none

/-- The turn of a source ends with an error. -/
def Fails (source : String) : Prop := ∃ rs e, a.Turn frontend t source rs (some e)

variable {a frontend t} {source : String} {usage : IncludeUsage}

theorem command_eq_ok_of_firstMatch {path : Path} {c : CompileCommand}
    (hpath : a.workspace.sourcePath source = .ok path)
    (hfirst : a.database.FirstMatch path (requiredFlags t source a.config) c) :
    a.command t source = .ok c :=
  command_eq_ok_iff.2 ⟨path, hpath, Database.select_eq_ok_iff.2 hfirst⟩

/-- A source with a command asks for its tree and for nothing else. -/
theorem addSource_of_command_eq_ok {c : CompileCommand} (h : a.command t source = .ok c) :
    a.addSource frontend t usage source =
      ⟨[a.request c], (frontend (a.request c)).map fun u => a.add usage (c, u)⟩ := by
  rw [addSource, h]
  rfl

/-- Without a command nothing is asked. -/
theorem addSource_of_command_eq_error {e : Error} (h : a.command t source = .error e) :
    a.addSource frontend t usage source = ⟨[], .error e⟩ := by
  rw [addSource, h]
  rfl

/-- The turn that fails is that of the source, whatever has been collected before it. -/
theorem Turn.addSource_eq_error {rs : List ParseRequest} {e : Error}
    (h : a.Turn frontend t source rs (some e)) (usage : IncludeUsage) :
    a.addSource frontend t usage source = ⟨rs, .error e⟩ := by
  cases h with
  | noPath hpath => exact addSource_of_command_eq_error (by rw [command, hpath]; rfl)
  | noCommand hpath hnone =>
    refine addSource_of_command_eq_error ?_
    rw [command, hpath]
    exact Database.select_eq_error hnone
  | rejected hpath hfirst hrequest hanswer =>
    subst hrequest
    rw [addSource_of_command_eq_ok (command_eq_ok_of_firstMatch hpath hfirst), request, hanswer]
    rfl

/-- So is the one that succeeds; what has been collected does not show in its requests. -/
theorem Turn.addSource_eq_ok {rs : List ParseRequest} (h : a.Turn frontend t source rs none)
    (usage : IncludeUsage) : ∃ usage', a.addSource frontend t usage source = ⟨rs, .ok usage'⟩ := by
  cases h with
  | parsed hpath hfirst hrequest hanswer =>
    subst hrequest
    rw [addSource_of_command_eq_ok (command_eq_ok_of_firstMatch hpath hfirst), request, hanswer]
    exact ⟨_, rfl⟩

variable (a frontend t) in
/-- The turn of every source comes to an end, and it is a request if it is no error. -/
theorem exists_turn (source : String) :
    (∃ r, a.Turn frontend t source [r] none) ∨ a.Fails frontend t source := by
  cases hpath : a.workspace.sourcePath source with
  | error e => exact Or.inr ⟨_, _, .noPath hpath⟩
  | ok path =>
    rcases a.database.exists_firstMatch_or_noMatch path (requiredFlags t source a.config) with
      ⟨c, hfirst⟩ | hnone
    · cases hanswer : frontend
          ⟨c.directory, c.filename, (a.argumentFilter.extract c).arguments, true, true⟩ with
      | error e => exact Or.inr ⟨_, _, .rejected hpath hfirst rfl hanswer⟩
      | ok u => exact Or.inl ⟨_, .parsed hpath hfirst rfl hanswer⟩
    · exact Or.inr ⟨_, _, .noCommand hpath hnone⟩

/-- A source does not fail and not fail. -/
theorem Turn.not_fails {rs : List ParseRequest} (h : a.Turn frontend t source rs none) :
    ¬ a.Fails frontend t source := by
  rintro ⟨rs', e, hfails⟩
  obtain ⟨usage, hok⟩ := h.addSource_eq_ok {}
  have herror := hfails.addSource_eq_error {}
  cases hok.symm.trans herror

/-! ## Runs -/

/-- Requests for some sources, one for each and in their order, that are all answered. -/
abbrev Asked (a : Analyzer) (frontend : Frontend) (t : Target) (sources : List String)
    (rs : List ParseRequest) : Prop :=
  List.Forall₂ (fun source r => a.Turn frontend t source [r] none) sources rs

/-- Sources that have all been asked for did not fail. -/
theorem Asked.not_fails {sources : List String} {rs : List ParseRequest}
    (h : a.Asked frontend t sources rs) : ∀ x ∈ sources, ¬ a.Fails frontend t x := by
  induction h with
  | nil => simp
  | cons hturn _ ih => exact List.forall_mem_cons.2 ⟨hturn.not_fails, ih⟩

/-- The requests of a source come before those of the sources behind it. -/
theorem addSources_cons {r : ParseRequest} {usage' : IncludeUsage} {rest : List String}
    (h : a.addSource frontend t usage source = ⟨[r], .ok usage'⟩) :
    a.addSources frontend t usage (source :: rest) =
      ⟨r :: (a.addSources frontend t usage' rest).requests,
        (a.addSources frontend t usage' rest).result⟩ := by
  rw [addSources, h]
  rfl

/-- Sources none of which fails are all asked for. -/
theorem addSources_of_not_fails {sources : List String}
    (h : ∀ s ∈ sources, ¬ a.Fails frontend t s) (usage : IncludeUsage) :
    ∃ usage' asked, a.Asked frontend t sources asked ∧
      a.addSources frontend t usage sources = ⟨asked, .ok usage'⟩ := by
  induction sources generalizing usage with
  | nil => exact ⟨usage, [], .nil, rfl⟩
  | cons s sources ih =>
    obtain ⟨r, hturn⟩ := (a.exists_turn frontend t s).resolve_right (h s (List.mem_cons_self ..))
    obtain ⟨usage', hs⟩ := hturn.addSource_eq_ok usage
    obtain ⟨usage'', asked, hasked, hrun⟩ := ih (fun x hx => h x (List.mem_cons_of_mem s hx)) usage'
    exact ⟨usage'', r :: asked, .cons hturn hasked, by rw [addSources_cons hs, hrun]⟩

/-- The first source that fails ends the run. -/
theorem addSources_of_fails {sources : List String}
    (h : ∃ s ∈ sources, a.Fails frontend t s) (usage : IncludeUsage) :
    ∃ before s after asked last e, sources = before ++ s :: after ∧
      a.Asked frontend t before asked ∧ a.Turn frontend t s last (some e) ∧
      a.addSources frontend t usage sources = ⟨asked ++ last, .error e⟩ := by
  induction sources generalizing usage with
  | nil => simp at h
  | cons s sources ih =>
    rcases a.exists_turn frontend t s with ⟨r, hturn⟩ | ⟨last, e, hturn⟩
    · -- the source is answered, so it is another one that fails
      have hrest : ∃ x ∈ sources, a.Fails frontend t x := by
        obtain ⟨x, hx, hfails⟩ := h
        rcases List.mem_cons.1 hx with rfl | hx
        · exact absurd hfails hturn.not_fails
        · exact ⟨x, hx, hfails⟩
      obtain ⟨usage', hs⟩ := hturn.addSource_eq_ok usage
      obtain ⟨before, x, after, asked, last, e, hsplit, hasked, hlast, hrun⟩ := ih hrest usage'
      exact ⟨s :: before, x, after, r :: asked, last, e, by rw [hsplit]; rfl,
        .cons hturn hasked, hlast, by rw [addSources_cons hs, hrun]; rfl⟩
    · refine ⟨[], s, sources, [], last, e, rfl, .nil, hturn, ?_⟩
      rw [addSources, hturn.addSource_eq_error usage]
      rfl

variable (a frontend t)

/-- **What an analysis asks for, and what it fails with.**  If some translation unit of the target
fails, the error is that of the first one that does; the ones before it are asked for once each, in
order, and after them that one, if it is the frontend that fails.  If none fails, they are all asked
for once, in order, and there is a result. -/
theorem analyze_requests :
    ((∃ s ∈ t.sources.filter a.config.isTranslationUnit, a.Fails frontend t s) →
      ∃ before s after asked last e,
        t.sources.filter a.config.isTranslationUnit = before ++ s :: after ∧
        (∀ x ∈ before, ¬ a.Fails frontend t x) ∧ a.Asked frontend t before asked ∧
        a.Turn frontend t s last (some e) ∧
        a.analyze frontend t = ⟨asked ++ last, .error e⟩) ∧
    ((∀ s ∈ t.sources.filter a.config.isTranslationUnit, ¬ a.Fails frontend t s) →
      ∃ usage asked,
        a.Asked frontend t (t.sources.filter a.config.isTranslationUnit) asked ∧
        a.analyze frontend t = ⟨asked, .ok usage⟩) := by
  refine ⟨fun h => ?_, fun h => addSources_of_not_fails h {}⟩
  obtain ⟨before, s, after, asked, last, e, hsplit, hasked, hturn, hrun⟩ :=
    addSources_of_fails h {}
  exact ⟨before, s, after, asked, last, e, hsplit, hasked.not_fails, hasked, hturn, hrun⟩

end Analyzer

/-! ## A sample

The source root is not known, so the second translation unit of the target has no path.
-/
namespace Sample

def rootedTarget : Target := { target with sources := ["a.c", "a.h", "//b.c", "a.c"] }

theorem sources_rootedTarget :
    rootedTarget.sources.filter analyzer.config.isTranslationUnit = ["a.c", "//b.c", "a.c"] := by
  decide +kernel

theorem turn_rooted : analyzer.Turn (fun _ => .ok tree) rootedTarget "//b.c" []
    (some (.noSourceRoot "//b.c")) := by
  have hroot : Text.after? "//" "//b.c" = some "b.c" := by decide +kernel
  refine .noPath ?_
  rw [Workspace.sourcePath, hroot]
  rfl

theorem addSource_rooted (usage : IncludeUsage) :
    analyzer.addSource (fun _ => .ok tree) rootedTarget usage "a.c" =
      ⟨[analyzer.request command], .ok (analyzer.add usage (command, tree))⟩ :=
  Analyzer.addSource_of_command_eq_ok command_eq

end Sample

theorem Analyzer.analyze_requests_sample :
    (∃ s ∈ Sample.rootedTarget.sources.filter Sample.analyzer.config.isTranslationUnit,
      Sample.analyzer.Fails (fun _ => .ok Sample.tree) Sample.rootedTarget s) ∧
    Sample.analyzer.analyze (fun _ => .ok Sample.tree) Sample.rootedTarget =
      ⟨[Sample.analyzer.request Sample.command], .error (.noSourceRoot "//b.c")⟩ := by
  have hfails : ∃ s ∈ Sample.rootedTarget.sources.filter Sample.analyzer.config.isTranslationUnit,
      Sample.analyzer.Fails (fun _ => .ok Sample.tree) Sample.rootedTarget s := by
    rw [Sample.sources_rootedTarget]
    exact ⟨"//b.c", by decide, _, _, Sample.turn_rooted⟩
  refine ⟨hfails, ?_⟩
  obtain ⟨before, s, after, asked, last, e, hsplit, hbefore, hasked, hturn, hrun⟩ :=
    (analyze_requests Sample.analyzer (fun _ => .ok Sample.tree) Sample.rootedTarget).1 hfails
  rw [Sample.sources_rootedTarget] at hsplit
  rcases hasked with _ | ⟨hanswered, _ | ⟨_, _⟩⟩
  · -- the first source does not fail
    obtain ⟨rfl, _⟩ := List.cons.inj hsplit
    cases (Sample.addSource_rooted {}).symm.trans (hturn.addSource_eq_error {})
  · obtain ⟨rfl, htail⟩ := List.cons.inj hsplit
    obtain ⟨rfl, _⟩ := List.cons.inj htail
    obtain ⟨usage, hok⟩ := hanswered.addSource_eq_ok {}
    cases (Sample.addSource_rooted {}).symm.trans hok
    cases (Sample.turn_rooted.addSource_eq_error {}).symm.trans (hturn.addSource_eq_error {})
    exact hrun
  · -- the second one does
    obtain ⟨rfl, htail⟩ := List.cons.inj hsplit
    obtain ⟨rfl, _⟩ := List.cons.inj htail
    exact absurd ⟨_, _, Sample.turn_rooted⟩ (hbefore "//b.c" (by simp))

end IncludeAudit
