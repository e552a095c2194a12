import Mathlib.Logic.Relation
import IncludeAudit.CommandLine.Outcome

/-! # Checks by several workers

The workers of a check share its targets. A free worker takes any target that nobody has taken yet,
and what can be noticed of the targets comes mixed. The first failure is kept. After it the workers
may leave the targets that nobody has taken, but they finish those that they have; only then
anything is reported.
-/
namespace IncludeAudit.CommandLine

/-- The failure of a computation, if it fails. -/
def errorOf? {α : Type} : Except Error α → Option Error
  | .ok _ => none
  | .error e => some e

/-- How far the analysis of a target has come. -/
inductive Progress where
  | waiting
  /-- A worker has taken the target, and some events are still to be noticed. -/
  | active (left : List Clang.Event)
  | finished (result : Except Error Report)

/-- A labelled target that is to be analysed. -/
structure Task where
  item : String × Target
  progress : Progress := .waiting

namespace Task

/-- Whether nobody has taken the target. -/
def isWaiting (t : Task) : Bool :=
  match t.progress with
  | .waiting => true
  | _ => false

/-- Whether a worker is busy with the target. -/
def isActive (t : Task) : Bool :=
  match t.progress with
  | .active _ => true
  | _ => false

end Task

/-- The state of a check by several workers. -/
structure Pool where
  /-- The targets, in the order of their labels. -/
  tasks : List Task
  /-- The failure that came first. -/
  failure? : Option Error := none
  /-- What has been noticed, in order. -/
  noticed : List Clang.Event := []

namespace Pool

/-- The pool that a check of some labelled targets starts with. -/
def ofItems (items : List (String × Target)) : Pool := { tasks := items.map fun x => { item := x } }

/-- What can happen next in a pool. -/
inductive Step (s : Session) (m : Machine) (workers : Nat) : Pool → Pool → Prop
  /-- A free worker takes a target. -/
  | take {before after : List Task} {x : String × Target} {f : Option Error}
      {noticed : List Clang.Event} (hfree : (before ++ after).countP Task.isActive < workers) :
      Step s m workers ⟨before ++ ⟨x, .waiting⟩ :: after, f, noticed⟩
        ⟨before ++ ⟨x, .active (s.events m x)⟩ :: after, f, noticed⟩
  /-- The next event of a taken target is noticed. -/
  | notice {before after : List Task} {x : String × Target} {f : Option Error}
      {noticed : List Clang.Event} {event : Clang.Event} {left : List Clang.Event} :
      Step s m workers ⟨before ++ ⟨x, .active (event :: left)⟩ :: after, f, noticed⟩
        ⟨before ++ ⟨x, .active left⟩ :: after, f, noticed ++ [event]⟩
  /-- A target of which nothing more can be noticed is finished. -/
  | finish {before after : List Task} {x : String × Target} {f : Option Error}
      {noticed : List Clang.Event} :
      Step s m workers ⟨before ++ ⟨x, .active []⟩ :: after, f, noticed⟩
        ⟨before ++ ⟨x, .finished (s.report m x)⟩ :: after,
          f.or (errorOf? (s.report m x)), noticed⟩

/-- A pool becomes another one in some steps. -/
abbrev Reaches (s : Session) (m : Machine) (workers : Nat) : Pool → Pool → Prop :=
  Relation.ReflTransGen (Step s m workers)

/-- What a pool comes to when no worker is busy: the failure that was kept, or the reports on all
targets, in their order. -/
inductive Yields : Pool → Outcome → Prop
  | reports {tasks : List Task} {noticed : List Clang.Event} {reports : List Report}
      (hfinished : tasks.map Task.progress = reports.map fun report => .finished (.ok report)) :
      Yields ⟨tasks, none, noticed⟩ (.ofReports reports noticed)
  | failure {tasks : List Task} {noticed : List Clang.Event} {e : Error}
      (hidle : ∀ t ∈ tasks, t.isActive = false) :
      Yields ⟨tasks, some e, noticed⟩ (.ofFailure (.failed e) noticed)

end Pool

/-- A demand can be met with a number of workers. There is always one, and no more than were asked
for, unless that is left open. -/
def CheckRequest.Allows (r : CheckRequest) (workers : Nat) : Prop :=
  0 < workers ∧ ∀ jobs, r.jobs? = some jobs → jobs ≠ 0 → workers ≤ jobs

/-- What a check of some targets may come to with some workers. -/
inductive Session.MayGive (s : Session) (m : Machine) (workers : Nat) (targets : Description) :
    Outcome → Prop
  | noTargets (hsize : targets.size = 0) :
      s.MayGive m workers targets (.ofFailure .noTargets [])
  | checked {p : Pool} {o : Outcome} (hsize : targets.size ≠ 0)
      (hrun : Pool.Reaches s m workers (.ofItems targets.items) p) (hend : p.Yields o) :
      s.MayGive m workers targets o

/-- What a check may come to. -/
inductive MayGive (m : Machine) (r : CheckRequest) : Outcome → Prop
  | unprepared {f : Failure} (hprepare : Session.prepare m r = .error f) :
      MayGive m r (.ofFailure f [])
  | checked {s : Session} {targets : Description} {workers : Nat} {o : Outcome}
      (hprepare : Session.prepare m r = .ok (s, targets)) (hallows : r.Allows workers)
      (hend : s.MayGive m workers targets o) : MayGive m r o

end IncludeAudit.CommandLine
