import IncludeAudit.CommandLine.Pool
import IncludeAudit.Proofs.CommandLine.Session
import Mathlib.Algebra.GroupWithZero.Nat

/-! # What checks by several workers come to

Each step of a pool concerns one target, and what holds of a pool at any time (`Pool.Sound`) is kept
by each kind of step: every target is where it was, a finished one has its own result, and what has
been noticed of a target stands in its own order among what has been noticed of all.  So a check
whose targets all have reports comes to the same findings whatever its workers do
(`Pool.Sound.exists_reports`), and one with failures comes to the failure of one of its targets
(`Pool.Sound.exists_failure`).  It always comes to something: steps cannot go on forever
(`Pool.wellFounded_step`), and a pool that has no next step has an outcome
(`Pool.Sound.exists_yields`).  To treat one target after the other is one of the ways
(`mayGive_check`), and with a single target it is the only one.
-/
namespace IncludeAudit.CommandLine

variable {s : Session} {m : Machine} {workers : Nat} {items : List (String × Target)}

theorem errorOf?_eq_some_iff {α : Type} {x : Except Error α} {e : Error} :
    errorOf? x = some e ↔ x = .error e := by
  cases x <;> simp [errorOf?]

theorem errorOf?_eq_none_iff {α : Type} {x : Except Error α} :
    errorOf? x = none ↔ ∃ a, x = .ok a := by
  cases x <;> simp [errorOf?]

namespace Task

/-- What is still to be noticed of a target that a worker has taken. -/
def left (t : Task) : List Clang.Event :=
  match t.progress with
  | .active left => left
  | _ => []

/-- All that can be noticed of a target, once it is taken. -/
def begun (s : Session) (m : Machine) (t : Task) : List Clang.Event :=
  match t.progress with
  | .waiting => []
  | _ => s.events m t.item

/-- How many steps a target still takes at most. -/
def weight (s : Session) (m : Machine) (t : Task) : Nat :=
  match t.progress with
  | .waiting => (s.events m t.item).length + 2
  | .active left => left.length + 1
  | .finished _ => 0

/-- The target is finished with a result. -/
def IsFinished (t : Task) (result : Except Error Report) : Prop := t.progress = .finished result

end Task

namespace Pool

/-! ## What holds at any time -/

/-- What holds of a pool with some targets at any time. -/
structure Sound (s : Session) (m : Machine) (items : List (String × Target)) (p : Pool) :
    Prop where
  items : p.tasks.map Task.item = items
  result : ∀ t ∈ p.tasks, ∀ result, t.IsFinished result → result = s.report m t.item
  /-- The failure that is kept is that of a target. -/
  failure : ∀ e, p.failure? = some e → ∃ t ∈ p.tasks, t.IsFinished (.error e)
  /-- As long as none is kept, no target has failed. -/
  success : p.failure? = none → ∀ t ∈ p.tasks, ∀ e, ¬ t.IsFinished (.error e)
  /-- The events of a target are noticed in their own order. -/
  order : ∀ t ∈ p.tasks, ∃ past, past ++ t.left = t.begun s m ∧ past.Sublist p.noticed
  /-- Nothing is noticed twice, and nothing is lost. -/
  noticed : (p.noticed ++ p.tasks.flatMap Task.left).Perm (p.tasks.flatMap (Task.begun s m))

/-- At the start all targets wait, and nothing has been noticed. -/
theorem sound_ofItems (s : Session) (m : Machine) (items : List (String × Target)) :
    Sound s m items (.ofItems items) where
  items := by
    rw [ofItems, List.map_map]
    exact List.map_id items
  result t ht result hresult := by
    obtain ⟨x, _, rfl⟩ := List.mem_map.1 ht
    cases hresult
  failure e he := nomatch he
  success _ t ht e he := by
    obtain ⟨x, _, rfl⟩ := List.mem_map.1 ht
    cases he
  order t ht := by
    obtain ⟨x, _, rfl⟩ := List.mem_map.1 ht
    exact ⟨[], rfl, List.Sublist.refl []⟩
  noticed := by
    simp [ofItems, List.flatMap_map, Task.left, Task.begun]

/-- A task that is not finished is no reason for a failure. -/
theorem exists_isFinished_replace {before after : List Task} {t u : Task}
    {result : Except Error Report} (h : ∃ v ∈ before ++ t :: after, v.IsFinished result)
    (ht : ¬ t.IsFinished result) :
    ∃ v ∈ before ++ u :: after, v.IsFinished result := by
  obtain ⟨v, hv, hresult⟩ := h
  have hne : v ≠ t := fun heq => ht (heq ▸ hresult)
  simp only [List.mem_append, List.mem_cons, hne, false_or] at hv
  exact ⟨v, by simp only [List.mem_append, List.mem_cons]; tauto, hresult⟩

/-- What holds of all tasks still does if it holds of the one that has changed. -/
theorem forall_mem_replace {P : Task → Prop} {before after : List Task} {t u : Task}
    (h : ∀ v ∈ before ++ t :: after, P v) (hu : P u) : ∀ v ∈ before ++ u :: after, P v := by
  simp only [List.forall_mem_append, List.forall_mem_cons] at h ⊢
  exact ⟨h.1, hu, h.2.2⟩

/-- A task may begin some more events, and some of its events may be noticed, as long as nothing is
lost between the two. -/
theorem perm_replace {noticed later more : List Clang.Event} {before after : List Task} {t u : Task}
    (h : (noticed ++ (before ++ t :: after).flatMap Task.left).Perm
      ((before ++ t :: after).flatMap (Task.begun s m)))
    (hleft : later ++ u.left = noticed ++ t.left ++ more)
    (hbegun : u.begun s m = t.begun s m ++ more) :
    (later ++ (before ++ u :: after).flatMap Task.left).Perm
      ((before ++ u :: after).flatMap (Task.begun s m)) := by
  rw [List.perm_iff_count] at h ⊢
  intro e
  have hcount := h e
  have hsame := congrArg (List.count e) hleft
  simp only [List.flatMap_append, List.flatMap_cons, List.count_append, hbegun] at hcount hsame ⊢
  omega

variable {before after : List Task} {x : String × Target} {f : Option Error}
  {noticed left : List Clang.Event} {event : Clang.Event}

/-- To take a target begins its events, all of which are still to be noticed. -/
theorem Sound.take (h : Sound s m items ⟨before ++ ⟨x, .waiting⟩ :: after, f, noticed⟩) :
    Sound s m items ⟨before ++ ⟨x, .active (s.events m x)⟩ :: after, f, noticed⟩ where
  items := by simpa using h.items
  result := forall_mem_replace h.result nofun
  failure e he := exists_isFinished_replace (h.failure e he) nofun
  success hf := forall_mem_replace (h.success hf) nofun
  order := forall_mem_replace h.order ⟨[], rfl, List.nil_sublist _⟩
  noticed := by
    have hbegun : Task.begun s m ⟨x, .active (s.events m x)⟩ =
        Task.begun s m ⟨x, .waiting⟩ ++ s.events m x := rfl
    exact perm_replace h.noticed (by simp [Task.left]) hbegun

/-- An event that is noticed is the next one of its target. -/
theorem Sound.notice
    (h : Sound s m items ⟨before ++ ⟨x, .active (event :: left)⟩ :: after, f, noticed⟩) :
    Sound s m items ⟨before ++ ⟨x, .active left⟩ :: after, f, noticed ++ [event]⟩ where
  items := by simpa using h.items
  result := forall_mem_replace h.result nofun
  failure e he := exists_isFinished_replace (h.failure e he) nofun
  success hf := forall_mem_replace (h.success hf) nofun
  order := by
    obtain ⟨past, hpast, hsublist⟩ := h.order ⟨x, .active (event :: left)⟩ (by simp)
    have hlater : ∀ t ∈ before ++ ⟨x, .active (event :: left)⟩ :: after,
        ∃ past, past ++ t.left = t.begun s m ∧ past.Sublist (noticed ++ [event]) := fun t ht => by
      obtain ⟨past, hpast, hsublist⟩ := h.order t ht
      exact ⟨past, hpast, hsublist.trans (List.sublist_append_left _ _)⟩
    refine forall_mem_replace hlater ⟨past ++ [event], ?_, hsublist.append_right [event]⟩
    simpa [Task.left, Task.begun] using hpast
  noticed := perm_replace h.noticed (by simp [Task.left]) (List.append_nil _).symm

/-- A target is finished with its own result, and a failure is kept only if there is none yet. -/
theorem Sound.finish (h : Sound s m items ⟨before ++ ⟨x, .active []⟩ :: after, f, noticed⟩) :
    Sound s m items ⟨before ++ ⟨x, .finished (s.report m x)⟩ :: after,
      f.or (errorOf? (s.report m x)), noticed⟩ where
  items := by simpa using h.items
  result := forall_mem_replace h.result fun result hresult => by
    cases hresult
    rfl
  failure e he := by
    rcases Option.or_eq_some_iff.1 he with hf | ⟨_, hfails⟩
    · exact exists_isFinished_replace (h.failure e hf) nofun
    · exact ⟨⟨x, .finished (s.report m x)⟩, by simp,
        congrArg Progress.finished (errorOf?_eq_some_iff.1 hfails)⟩
  success hf := by
    obtain ⟨hnone, hok⟩ := Option.or_eq_none_iff.1 hf
    obtain ⟨report, hreport⟩ := errorOf?_eq_none_iff.1 hok
    refine forall_mem_replace (h.success hnone) fun e he => ?_
    rw [hreport] at he
    cases he
  order := forall_mem_replace h.order (h.order ⟨x, .active []⟩ (by simp))
  noticed := perm_replace h.noticed (List.append_nil _).symm (List.append_nil _).symm

/-- Each kind of step keeps what holds of a pool. -/
theorem Sound.step {p q : Pool} (h : Sound s m items p) (hstep : Step s m workers p q) :
    Sound s m items q := by
  cases hstep with
  | take _ => exact h.take
  | notice => exact h.notice
  | finish => exact h.finish

/-- What holds of a pool holds of all that it becomes. -/
theorem Sound.reaches {p q : Pool} (h : Sound s m items p) (hrun : Reaches s m workers p q) :
    Sound s m items q := by
  induction hrun with
  | refl => exact h
  | tail _ hstep ih => exact ih.step hstep

/-! ## Outcomes -/

/-- When every target is finished, all events have been noticed, those of each target in their own
order. -/
theorem Sound.events {p : Pool} (h : Sound s m items p)
    (hfinished : ∀ t ∈ p.tasks, ∃ result, t.IsFinished result) :
    p.noticed.Perm (items.flatMap (s.events m)) ∧
      ∀ x ∈ items, (s.events m x).Sublist p.noticed := by
  have hleft : ∀ t ∈ p.tasks, t.left = [] ∧ t.begun s m = s.events m t.item := fun t ht => by
    obtain ⟨result, hresult⟩ := hfinished t ht
    rw [Task.IsFinished] at hresult
    simp only [Task.left, Task.begun, hresult, and_self]
  constructor
  · have hperm := h.noticed
    rwa [List.flatMap_congr fun t ht => (hleft t ht).1,
      List.flatMap_congr fun t ht => (hleft t ht).2, ← List.flatMap_map Task.item, h.items,
      List.flatMap_eq_nil_iff.2 fun _ _ => rfl, List.append_nil] at hperm
  · intro y hy
    rw [← h.items] at hy
    obtain ⟨t, ht, rfl⟩ := List.mem_map.1 hy
    obtain ⟨past, hpast, hsublist⟩ := h.order t ht
    rw [(hleft t ht).1, (hleft t ht).2, List.append_nil] at hpast
    exact hpast ▸ hsublist

/-- Tasks that are finished with reports have the reports of their targets, in their order. -/
theorem mapM_report {tasks : List Task} {reports : List Report}
    (hresult : ∀ t ∈ tasks, ∀ result, t.IsFinished result → result = s.report m t.item)
    (hfinished : tasks.map Task.progress = reports.map fun report => .finished (.ok report)) :
    (tasks.map Task.item).mapM (s.report m) = .ok reports := by
  induction tasks generalizing reports with
  | nil =>
    obtain rfl := List.map_eq_nil_iff.1 hfinished.symm
    rfl
  | cons t tasks ih =>
    obtain ⟨report, reports, rfl, hreport, hrest⟩ := List.map_eq_cons_iff.1 hfinished.symm
    obtain ⟨ht, htasks⟩ := List.forall_mem_cons.1 hresult
    have hitem : s.report m t.item = .ok report := (ht _ hreport.symm).symm
    exact mapM_cons_eq_ok_iff.2 ⟨report, reports, hitem, ih htasks hrest.symm, rfl⟩

/-- Where there are as many reports as tasks, none is still under way. -/
theorem exists_isFinished {tasks : List Task} {reports : List Report}
    (hfinished : tasks.map Task.progress = reports.map fun report => .finished (.ok report)) :
    ∀ t ∈ tasks, ∃ result, t.IsFinished result := by
  intro t ht
  have hprogress : t.progress ∈ reports.map fun report => .finished (.ok report) :=
    hfinished ▸ List.mem_map_of_mem ht
  obtain ⟨report, _, hreport⟩ := List.mem_map.1 hprogress
  exact ⟨.ok report, hreport.symm⟩

/-- A finished target keeps no worker busy. -/
theorem isActive_of_isFinished {t : Task} (h : ∃ result, t.IsFinished result) :
    t.isActive = false := by
  obtain ⟨result, hresult⟩ := h
  rw [Task.IsFinished] at hresult
  rw [Task.isActive, hresult]

/-- **If there is a report on every target, the findings are the same whatever the workers do.** -/
theorem Sound.exists_reports {p : Pool} {o : Outcome} (h : Sound s m items p) (ho : p.Yields o)
    (hall : ∀ x ∈ items, ∃ report, s.report m x = .ok report) :
    ∃ reports, items.mapM (s.report m) = .ok reports ∧ o = .ofReports reports p.noticed ∧
      p.noticed.Perm (items.flatMap (s.events m)) ∧
      ∀ x ∈ items, (s.events m x).Sublist p.noticed := by
  cases ho with
  | @reports tasks noticed reports hfinished =>
    refine ⟨reports, ?_, rfl, h.events (exists_isFinished hfinished)⟩
    rw [← h.items]
    exact mapM_report h.result hfinished
  | failure hidle =>
    obtain ⟨t, ht, hfailed⟩ := h.failure _ rfl
    have hcause := h.result t ht _ hfailed
    obtain ⟨report, hreport⟩ := hall t.item (h.items ▸ List.mem_map_of_mem ht)
    cases hcause.trans hreport

/-- **If there is no report on some target, the failure of one such target decides.** -/
theorem Sound.exists_failure {p : Pool} {o : Outcome} (h : Sound s m items p) (ho : p.Yields o)
    (hsome : ∃ x ∈ items, ∃ e, s.report m x = .error e) :
    ∃ x ∈ items, ∃ e, s.report m x = .error e ∧ o = .ofFailure (.failed e) p.noticed := by
  cases ho with
  | reports hfinished =>
    obtain ⟨x, hx, e, he⟩ := hsome
    have hreports := mapM_report h.result hfinished
    rw [h.items] at hreports
    obtain ⟨report, hreport⟩ := exists_ok_of_mapM_eq_ok hreports hx
    cases he.symm.trans hreport
  | @failure _ _ e hidle =>
    obtain ⟨t, ht, hfailed⟩ := h.failure _ rfl
    exact ⟨t.item, h.items ▸ List.mem_map_of_mem ht, e, (h.result t ht _ hfailed).symm, rfl⟩

/-- With a single target there is only one outcome. -/
theorem Sound.eq_of_single {p : Pool} {o : Outcome} (h : Sound s m [x] p) (ho : p.Yields o) :
    o = match s.report m x with
      | .error e => .ofFailure (.failed e) (s.events m x)
      | .ok report => .ofReports [report] (s.events m x) := by
  have hfinished : ∀ t ∈ p.tasks, ∃ result, t.IsFinished result := by
    cases ho with
    | reports hfinished => exact exists_isFinished hfinished
    | failure _ =>
      -- the failure that was kept is that of the only task
      obtain ⟨t, ht, hfailed⟩ := h.failure _ rfl
      obtain ⟨u, hu, _⟩ := List.map_eq_singleton_iff.1 h.items
      rw [hu, List.mem_singleton] at ht
      rw [hu]
      exact List.forall_mem_singleton.2 ⟨_, ht ▸ hfailed⟩
  obtain ⟨hperm, hsublist⟩ := h.events hfinished
  rw [List.flatMap_singleton] at hperm
  have hnoticed : s.events m x = p.noticed :=
    (hsublist x (List.mem_singleton_self x)).eq_of_length hperm.length_eq.symm
  cases hreport : s.report m x with
  | error e =>
    obtain ⟨y, hy, cause, hcause, rfl⟩ :=
      h.exists_failure ho ⟨x, List.mem_singleton_self x, e, hreport⟩
    obtain rfl := List.mem_singleton.1 hy
    obtain rfl := Except.error.inj (hreport.symm.trans hcause)
    rw [hnoticed]
  | ok report =>
    obtain ⟨reports, hreports, rfl, _⟩ := h.exists_reports ho (by simp [hreport])
    obtain ⟨y, ys, hy, hys, rfl⟩ := mapM_cons_eq_ok_iff.1 hreports
    obtain rfl := Except.ok.inj (hreport.symm.trans hy)
    cases hys
    rw [hnoticed]
    rfl

/-! ## Every check comes to an end -/

/-- How many steps a pool still takes at most. -/
def weight (s : Session) (m : Machine) (p : Pool) : Nat := (p.tasks.map (Task.weight s m)).sum

/-- Each step concerns one target, and brings that closer to its end. -/
theorem Step.weight_lt {p q : Pool} (h : Step s m workers p q) : q.weight s m < p.weight s m := by
  cases h <;> simp [weight, Task.weight]

/-- The steps of a pool do not go on forever. -/
theorem wellFounded_step (s : Session) (m : Machine) (workers : Nat) :
    WellFounded fun q p => Step s m workers p q :=
  Subrelation.wf Step.weight_lt (measure (weight s m)).wf

/-- If all workers pause, another target may be taken. -/
theorem countP_isActive_lt {tasks : List Task} (hworkers : 0 < workers)
    (hidle : ∀ t ∈ tasks, t.isActive = false) : tasks.countP Task.isActive < workers := by
  rwa [List.countP_eq_zero.2 fun t ht => by simp [hidle t ht]]

/-- A worker that is busy with a target can go on. -/
theorem exists_step_of_isActive {tasks : List Task} {t : Task} (ht : t ∈ tasks)
    (hactive : t.isActive = true) : ∃ q, Step s m workers ⟨tasks, f, noticed⟩ q := by
  obtain ⟨before, after, rfl⟩ := List.append_of_mem ht
  obtain ⟨x, progress⟩ := t
  cases progress with
  | active left =>
    cases left with
    | nil => exact ⟨_, .finish⟩
    | cons event left => exact ⟨_, .notice⟩
  | waiting | finished _ => cases hactive

/-- While no worker is busy, one can take a target that waits. -/
theorem exists_step_of_isWaiting {tasks : List Task} {t : Task} (hworkers : 0 < workers)
    (hidle : ∀ t ∈ tasks, t.isActive = false) (ht : t ∈ tasks) (hwaiting : t.isWaiting = true) :
    ∃ q, Step s m workers ⟨tasks, f, noticed⟩ q := by
  obtain ⟨before, after, rfl⟩ := List.append_of_mem ht
  obtain ⟨x, progress⟩ := t
  cases progress with
  | waiting => exact ⟨_, .take (countP_isActive_lt hworkers fun u hu => hidle u (by
      simp only [List.mem_append, List.mem_cons] at hu ⊢
      tauto))⟩
  | active _ | finished _ => cases hwaiting

/-- A pool without an outcome has a next step. -/
theorem Sound.exists_step_or_yields {p : Pool} (hworkers : 0 < workers) (h : Sound s m items p) :
    (∃ q, Step s m workers p q) ∨ ∃ o, p.Yields o := by
  obtain ⟨tasks, f, noticed⟩ := p
  by_cases hactive : ∃ t ∈ tasks, t.isActive = true
  · obtain ⟨t, ht, hactive⟩ := hactive
    exact Or.inl (exists_step_of_isActive ht hactive)
  have hidle : ∀ t ∈ tasks, t.isActive = false := by simpa using hactive
  by_cases hwaiting : ∃ t ∈ tasks, t.isWaiting = true
  · obtain ⟨t, ht, hwaiting⟩ := hwaiting
    exact Or.inl (exists_step_of_isWaiting hworkers hidle ht hwaiting)
  · cases f with
    | some e => exact Or.inr ⟨_, .failure hidle⟩
    | none =>
      have hreports : tasks.map Task.progress ∈
          Set.range (List.map fun report => Progress.finished (.ok report)) := by
        rw [Set.range_list_map]
        refine List.forall_mem_map.2 fun t ht => ?_
        cases hprogress : t.progress with
        | waiting => exact absurd ⟨t, ht, by rw [Task.isWaiting, hprogress]⟩ hwaiting
        | active left => exact absurd ⟨t, ht, by rw [Task.isActive, hprogress]⟩ hactive
        | finished result =>
          cases result with
          | ok report => exact ⟨report, rfl⟩
          | error e => exact absurd hprogress (h.success rfl t ht e)
      obtain ⟨reports, hreports⟩ := hreports
      exact Or.inr ⟨_, .reports hreports.symm⟩

/-- Whatever a pool has become, it can still come to an outcome. -/
theorem Sound.exists_yields {p : Pool} (hworkers : 0 < workers) (h : Sound s m items p) :
    ∃ q o, Reaches s m workers p q ∧ q.Yields o := by
  induction p using (wellFounded_step s m workers).induction with
  | _ p ih =>
    rcases h.exists_step_or_yields hworkers with ⟨q, hstep⟩ | ⟨o, ho⟩
    · obtain ⟨r, o, hrun, ho⟩ := ih q hstep (h.step hstep)
      exact ⟨r, o, hrun.head hstep, ho⟩
    · exact ⟨p, o, .refl, ho⟩

/-! ## One target after the other -/

/-- A worker can notice all that is left of its target in one go. -/
theorem reaches_notice (noticed left : List Clang.Event) :
    Reaches s m workers ⟨before ++ ⟨x, .active left⟩ :: after, f, noticed⟩
      ⟨before ++ ⟨x, .active []⟩ :: after, f, noticed ++ left⟩ := by
  induction left generalizing noticed with
  | nil => rw [List.append_nil]
  | cons event left ih =>
    have hrest := ih (noticed ++ [event])
    rw [List.append_assoc, List.singleton_append] at hrest
    exact hrest.head .notice

/-- A worker can take a target and finish it while all others pause. -/
theorem reaches_finish (hworkers : 0 < workers)
    (hidle : ∀ t ∈ before ++ after, t.isActive = false) :
    Reaches s m workers ⟨before ++ ⟨x, .waiting⟩ :: after, f, noticed⟩
      ⟨before ++ ⟨x, .finished (s.report m x)⟩ :: after,
        f.or (errorOf? (s.report m x)), noticed ++ s.events m x⟩ := by
  exact ((reaches_notice _ _).head (.take (countP_isActive_lt hworkers hidle))).tail .finish

/-- From a pool in which the first targets have reports, one target after the other can be
treated. -/
theorem exists_reaches_yields (hworkers : 0 < workers) (items : List (String × Target))
    {before : List Task} {reports : List Report} (noticed : List Clang.Event)
    (hbefore : before.map Task.progress = reports.map fun report => .finished (.ok report)) :
    ∃ p, Reaches s m workers ⟨before ++ items.map fun x => { item := x }, none, noticed⟩ p ∧
      p.Yields (match items.mapM (s.report m) with
        | .error e => .ofFailure (.failed e) (noticed ++ s.eventsOf m items)
        | .ok rest => .ofReports (reports ++ rest) (noticed ++ s.eventsOf m items)) := by
  induction items generalizing before reports noticed with
  | nil =>
    refine ⟨_, .refl, ?_⟩
    have ho : Yields ⟨before, none, noticed⟩ (.ofReports reports noticed) := .reports hbefore
    simpa [Session.eventsOf, Session.reports, pure, Except.pure] using ho
  | cons x items ih =>
    have hidle : ∀ t ∈ before ++ items.map fun x => ({ item := x } : Task), t.isActive = false :=
      List.forall_mem_append.2 ⟨fun t ht => isActive_of_isFinished (exists_isFinished hbefore t ht),
        List.forall_mem_map.2 fun _ _ => rfl⟩
    have hrun : Reaches s m workers
        ⟨before ++ (x :: items).map fun x => { item := x }, none, noticed⟩
        ⟨before ++ ⟨x, .finished (s.report m x)⟩ :: items.map fun x => { item := x },
          errorOf? (s.report m x), noticed ++ s.events m x⟩ :=
      reaches_finish hworkers hidle
    rw [mapM_cons, Session.eventsOf_cons, ← List.append_assoc]
    cases hreport : s.report m x with
    | error e =>
      rw [hreport] at hrun
      refine ⟨_, hrun, ?_⟩
      rw [List.append_nil]
      refine .failure ?_
      simp only [List.forall_mem_append, List.forall_mem_cons] at hidle ⊢
      exact ⟨hidle.1, rfl, hidle.2⟩
    | ok report =>
      rw [hreport] at hrun
      have hfinished : (before ++ [(⟨x, .finished (.ok report)⟩ : Task)]).map Task.progress =
          (reports ++ [report]).map fun report => .finished (.ok report) := by
        rw [List.map_append, List.map_append, hbefore]
        rfl
      obtain ⟨p, hrest, ho⟩ := ih (noticed ++ s.events m x) hfinished
      rw [List.append_assoc] at hrest
      refine ⟨p, hrun.trans hrest, ?_⟩
      cases hitems : items.mapM (s.report m) with
      | error e =>
        rw [hitems] at ho
        exact ho
      | ok rest =>
        simp only [hitems] at ho
        rw [List.append_assoc reports] at ho
        exact ho

end Pool

namespace Session

variable {d e : Description} {o : Outcome}

theorem mayGive_iff (hne : d.items ≠ []) :
    s.MayGive m workers d o ↔ ∃ p, Pool.Reaches s m workers (.ofItems d.items) p ∧ p.Yields o := by
  have hsize : d.size ≠ 0 := by
    rw [Description.size_eq]
    exact mt List.length_eq_zero_iff.1 hne
  constructor
  · intro h
    cases h with
    | noTargets hnone => exact absurd hnone hsize
    | checked _ hrun hend => exact ⟨_, hrun, hend⟩
  · rintro ⟨p, hrun, hend⟩
    exact .checked hsize hrun hend

/-- How the targets came to be chosen does not matter, only which ones are listed. -/
theorem mayGive_congr (h : d.items = e.items) (hd : s.MayGive m workers d o) :
    s.MayGive m workers e o := by
  have hsize : d.size = e.size := by rw [Description.size_eq, Description.size_eq, h]
  cases hd with
  | noTargets hnone => exact .noTargets (hsize ▸ hnone)
  | checked hsome hrun hend => exact .checked (hsize ▸ hsome) (h ▸ hrun) hend

/-- **If there is a report on every target, all of them are put out, in order.**  What is logged of
each target is logged in its own order. -/
theorem MayGive.of_reports (h : s.MayGive m workers d o) (hne : d.items ≠ [])
    (hall : ∀ x ∈ d.items, ∃ report, s.report m x = .ok report) :
    o.errors = d.items.flatMap (s.lines m) ∧ o.status = (if o.errors = [] then 0 else 1) ∧
      o.log.Perm (d.items.flatMap (s.log m)) ∧
      ∀ x ∈ d.items, (s.log m x).Sublist o.log := by
  obtain ⟨p, hrun, ho⟩ := (mayGive_iff hne).1 h
  obtain ⟨reports, hreports, rfl, hperm, hsublist⟩ :=
    ((Pool.sound_ofItems s m d.items).reaches hrun).exists_reports ho hall
  refine ⟨?_, Outcome.status_ofReports reports p.noticed, ?_, fun x hx => ?_⟩
  · exact flatMap_eq_of_mapM_eq_ok hreports fun x _ report hx => lines_of_report hx
  · have hlog := hperm.filterMap Clang.Event.message?
    rwa [List.filterMap_flatMap] at hlog
  · exact (hsublist x hx).filterMap Clang.Event.message?

/-- **If there is no report on some target, the only line is that of the failure of such a
target.** -/
theorem MayGive.of_failure (h : s.MayGive m workers d o)
    (hsome : ∃ x ∈ d.items, ∃ e, s.report m x = .error e) :
    ∃ x ∈ d.items, ∃ e, s.report m x = .error e ∧ o.status = 2 ∧
      o.errors = ["includelint: error: " ++ (Failure.failed e).message] := by
  have hne : d.items ≠ [] := by
    obtain ⟨x, hx, _⟩ := hsome
    exact List.ne_nil_of_mem hx
  obtain ⟨p, hrun, ho⟩ := (mayGive_iff hne).1 h
  obtain ⟨x, hx, e, he, rfl⟩ :=
    ((Pool.sound_ofItems s m d.items).reaches hrun).exists_failure ho hsome
  exact ⟨x, hx, e, he, rfl, rfl⟩

/-- To treat one target after the other is one of the ways to check them. -/
theorem mayGive_check (hworkers : 0 < workers) (d : Description) :
    s.MayGive m workers d (s.check m d) := by
  by_cases hitems : d.items = []
  · have hsize : d.size = 0 := by rw [Description.size_eq, hitems, List.length_nil]
    rw [check, if_pos hsize]
    exact .noTargets hsize
  · rw [mayGive_iff hitems, check_eq hitems]
    have hnone : ([] : List Task).map Task.progress =
        ([] : List Report).map fun report => .finished (.ok report) := rfl
    exact Pool.exists_reaches_yields hworkers d.items [] hnone

/-- A check of a single target has one outcome. -/
theorem mayGive_iff_of_single {x : String × Target} (hworkers : 0 < workers) (hd : d.items = [x]) :
    s.MayGive m workers d o ↔ o = s.check m d := by
  have hne : d.items ≠ [] := by simp [hd]
  have hunique {o : Outcome} (h : s.MayGive m workers d o) : o = match s.report m x with
      | .error e => .ofFailure (.failed e) (s.events m x)
      | .ok report => .ofReports [report] (s.events m x) := by
    obtain ⟨p, hrun, ho⟩ := (mayGive_iff hne).1 h
    rw [hd] at hrun
    exact ((Pool.sound_ofItems s m [x]).reaches hrun).eq_of_single ho
  have hcheck : s.MayGive m workers d (s.check m d) := mayGive_check hworkers d
  constructor
  · intro h
    rw [hunique h, hunique hcheck]
  · rintro rfl
    exact hcheck

end Session

variable {d : Description}

theorem mayGive_of_prepare {r : CheckRequest} {o : Outcome}
    (hprepare : Session.prepare m r = .ok (s, d)) :
    MayGive m r o ↔ ∃ workers, r.Allows workers ∧ s.MayGive m workers d o := by
  constructor
  · intro h
    cases h with
    | unprepared hfault => cases hprepare.symm.trans hfault
    | checked hsame hallows hend =>
      cases hprepare.symm.trans hsame
      exact ⟨_, hallows, hend⟩
  · rintro ⟨workers, hallows, hend⟩
    exact .checked hprepare hallows hend

/-- Every demand can be met by one worker. -/
theorem CheckRequest.allows_one (r : CheckRequest) : r.Allows 1 :=
  ⟨Nat.one_pos, fun _ _ => Nat.one_le_iff_ne_zero.2⟩

/-- **To treat one target after the other is one of the ways to meet a demand.** -/
theorem mayGive_check (m : Machine) (r : CheckRequest) : MayGive m r (check m r) := by
  rw [check]
  cases hprepare : Session.prepare m r with
  | error f => exact .unprepared hprepare
  | ok x => exact .checked hprepare r.allows_one (Session.mayGive_check Nat.one_pos x.2)

end IncludeAudit.CommandLine
