import Awkernel.Dag.Eviction
import Awkernel.Priority

/-!
# The tasks of a DAG and their wakes

The reactors of `Awkernel.Dag.Reactors` as tasks of an EDF scheduler. `Task::wake` makes a task
runnable, and `wake_task` then takes the absolute deadline of the job that the node processes next
from the deadline store; only then can the task be dispatched. `wake_task` is called again when a
task that waits in a preemption-pending heap is put back, and when a preempted task is put back;
the latter does not release a job.

The schedulers decide which task runs where. All that is kept of them is what a task can do
next: any runnable or preempted task may be dispatched, any running task may be preempted, and a
task may be woken at any time (so `need_sched`, which makes a wake follow the end of a poll, is not
modelled). `spawn_dag` spawns the tasks in its order, the periodic reactor last. Tasks do not end.

`last` is the deadline that the last `wake_task` of a node returned, and `releases` lists the
entries that were added to the deadline store; they are a record of the run.
-/

namespace Awkernel

open TransitionSystem Option
open DagSystem (Registration)

/-- The scheduler takes deadlines. -/
def SchedulerType.isEdf : SchedulerType → Bool
  | .gedf _ => true
  | .clusteredEDF .. => true
  | _ => false

/-- `Dag::get_sink_relative_deadline`. -/
def Dag.getSinkRelativeDeadline (dag : Dag) : Option Nat := do
  let sinkNodeIndex ← (dag.graph.externals .outgoing).head?
  let info ← dag.graph.nodeWeight sinkNodeIndex
  info.relativeDeadline

/-- `deadline.as_micros() as u64`, of a `Duration` in nanoseconds. -/
def asMicros (duration : Nat) : Nat := duration / 1000 % 2 ^ 64

/-- Where a task is between two polls. -/
inductive Status
  /-- `State::Initialized` or `State::Waiting`. -/
  | waiting
  /-- `Task::wake` has made it runnable, and `wake_task` has not looked for its deadline. -/
  | woken
  /-- It is in a run queue or in a preemption-pending heap. -/
  | runnable
  | running
  /-- `State::Preempted`. -/
  | preempted
  /-- The poll has returned `Poll::Pending`, and `run_main` has not looked at the result. -/
  | returned
  deriving DecidableEq

/-- The last `wake_task` was made for the poll that is going on or comes next. -/
def Status.current : Status → Bool
  | .runnable | .running | .preempted => true
  | .waiting | .woken | .returned => false

/-- An entry that was added to the deadline store. -/
structure Release where
  node : Nat
  job : Nat
  deadline : Nat
  deriving DecidableEq

structure DagRun where
  reactors : Reactors
  /-- The tasks that `spawn_dag` has still to spawn. -/
  toSpawn : List Nat
  status : Nat → Status
  last : Nat → Option Nat
  releases : List Release

inductive DagRun.Action
  | subscribe
  | spawn
  | fire (v : Nat)
  | wake (v : Nat)
  | wakeTask (v wakeTime : Nat)
  | dispatch (v : Nat)
  | preempt (v : Nat)
  | poll (v : Nat) (waker : Waker)
  | park (v : Nat)

namespace DagRun

/-- `spawn_dag`; `none` is its panic if there is no periodic reactor. -/
def start (dag : Dag) (regs : List Registration) : Option DagRun :=
  (sourceOf dag.id regs).map fun source => {
    reactors := .init dag regs
    toSpawn := (tasksOf dag.id regs).map PendingTask.nodeIdx ++ [source.nodeIdx]
    status := fun _ => .waiting
    last := fun _ => none
    releases := [] }

def setStatus (ρ : DagRun) (v : Nat) (status : Status) : DagRun :=
  { ρ with status := Function.update ρ.status v status }

/-- The closure of `calculate_and_update_dag_deadline`. -/
def releaseDeadline (dag : Dag) (wakeTime : Nat) : Option Nat := do
  let relativeDeadline ← dag.getSinkRelativeDeadline
  checkedAdd wakeTime (asMicros relativeDeadline)

/-- The deadline part of `wake_task`; `none` is a panic. Only the EDF schedulers have it. -/
def wakeTask (ρ : DagRun) (v wakeTime : Nat) (release : Bool) : Option DagRun :=
  let dag := ρ.reactors.dag
  if ρ.reactors.regs[v]?.any fun r => r.schedType.isEdf then
    (dag.getOrReleaseAbsoluteDeadline v release (releaseDeadline dag wakeTime)).bind
      fun (dag', deadline) => deadline.map fun deadline =>
        let job := dag.numFinished v
        { ρ with
          reactors := { ρ.reactors with dag := dag' }
          last := Function.update ρ.last v (some deadline)
          releases := if (dag.absoluteDeadlines.get job).isNone &&
              (dag'.absoluteDeadlines.get job).isSome then ρ.releases ++ [⟨v, job, deadline⟩]
            else ρ.releases }
  else some ρ

/-- A step; `none` if it cannot be taken, or panics. -/
def step (ρ : DagRun) : Action → Option DagRun
  | .subscribe =>
    match ρ.toSpawn with
    | v :: _ => (ρ.reactors.step (.subscribe v)).map fun reactors =>
      { ρ with reactors := reactors }
    | [] => none
  | .spawn =>
    match ρ.toSpawn with
    | v :: rest => (ρ.reactors.step (.spawn v)).map fun reactors =>
      { ρ with reactors := reactors, toSpawn := rest }
    | [] => none
  | .fire v => (ρ.reactors.step (.fire v)).map fun reactors => { ρ with reactors := reactors }
  | .wake v =>
    if (ρ.reactors.phase v).alive ∧ ρ.status v = .waiting then some (ρ.setStatus v .woken)
    else none
  | .wakeTask v wakeTime =>
    match ρ.status v with
    | .woken | .runnable => (ρ.wakeTask v wakeTime true).map fun ρ => ρ.setStatus v .runnable
    | .preempted => ρ.wakeTask v wakeTime false
    | _ => none
  | .dispatch v =>
    match ρ.status v with
    | .runnable | .preempted => some (ρ.setStatus v .running)
    | _ => none
  | .preempt v => if ρ.status v = .running then some (ρ.setStatus v .preempted) else none
  | .poll v waker =>
    if ρ.status v = .running then
      (ρ.reactors.advance v waker).map fun (reactors, pending) =>
        { ρ with reactors := reactors }.setStatus v (if pending then .returned else .running)
    else none
  | .park v => if ρ.status v = .returned then some (ρ.setStatus v .waiting) else none

/-! ### The steps -/

/-- What a step does. -/
inductive StepCase (ρ : DagRun) : DagRun → Prop
  | subscribe {v : Nat} {rest : List Nat} {reactors : Reactors} :
      ρ.toSpawn = v :: rest →
      ρ.reactors.step (.subscribe v) = some reactors →
      StepCase ρ { ρ with reactors := reactors }
  | spawn {v : Nat} {rest : List Nat} {reactors : Reactors} :
      ρ.toSpawn = v :: rest →
      ρ.reactors.step (.spawn v) = some reactors →
      StepCase ρ { ρ with reactors := reactors, toSpawn := rest }
  | fire {v : Nat} {reactors : Reactors} :
      ρ.reactors.step (.fire v) = some reactors →
      StepCase ρ { ρ with reactors := reactors }
  /-- The status of a task changes; the last `wake_task` is that of its next poll only if it was
  before. -/
  | status {v : Nat} {s : Status} :
      (ρ.status v ≠ .waiting ∨ (ρ.reactors.phase v).alive = true) →
      (s.current = true → (ρ.status v).current = true) →
      StepCase ρ (ρ.setStatus v s)
  | wakeTask {v wakeTime : Nat} {release : Bool} {s : Status} {ρ' : DagRun} :
      ρ.status v ≠ .waiting →
      (release = true ∨ (ρ.status v).current = true) →
      ρ.wakeTask v wakeTime release = some ρ' →
      StepCase ρ (ρ'.setStatus v s)
  | poll {v : Nat} {waker : Waker} {reactors : Reactors} {pending : Bool} :
      ρ.status v = .running →
      ρ.reactors.advance v waker = some (reactors, pending) →
      StepCase ρ ({ ρ with reactors := reactors }.setStatus v
        (if pending then .returned else .running))

theorem step_cases {ρ ρ' : DagRun} {a : Action} (h : ρ.step a = some ρ') : StepCase ρ ρ' := by
  cases a with
  | subscribe =>
    dsimp only [step] at h
    split at h
    · next hspawn =>
      obtain ⟨reactors, hreactors, rfl⟩ := map_eq_some_iff.mp h
      exact .subscribe hspawn hreactors
    · cases h
  | spawn =>
    dsimp only [step] at h
    split at h
    · next hspawn =>
      obtain ⟨reactors, hreactors, rfl⟩ := map_eq_some_iff.mp h
      exact .spawn hspawn hreactors
    · cases h
  | fire v =>
    obtain ⟨reactors, hreactors, rfl⟩ := map_eq_some_iff.mp h
    exact .fire hreactors
  | wake v =>
    obtain ⟨hwake, ⟨⟩⟩ := ite_none_right_eq_some.mp h
    exact .status (.inr hwake.1) nofun
  | wakeTask v wakeTime =>
    dsimp only [step] at h
    split at h
    · next hs =>
      obtain ⟨ρ₁, hwake, rfl⟩ := map_eq_some_iff.mp h
      exact .wakeTask (by rw [hs]; nofun) (.inl rfl) hwake
    · next hs =>
      obtain ⟨ρ₁, hwake, rfl⟩ := map_eq_some_iff.mp h
      exact .wakeTask (by rw [hs]; nofun) (.inl rfl) hwake
    · next hs =>
      have hcase : StepCase ρ (ρ'.setStatus v .preempted) :=
        .wakeTask (by rw [hs]; nofun) (.inr (by rw [hs]; rfl)) h
      have hsame : ρ'.setStatus v .preempted = ρ' := by
        have hv : ρ'.status v = .preempted := by
          unfold wakeTask at h
          split at h
          · obtain ⟨⟨dag, value⟩, -, h⟩ := bind_eq_some_iff.mp h
            obtain ⟨deadline, -, rfl⟩ := map_eq_some_iff.mp h
            exact hs
          · exact some.inj h ▸ hs
        unfold setStatus
        rw [← hv, Function.update_eq_self]
      exact hsame ▸ hcase
    · cases h
  | dispatch v =>
    dsimp only [step] at h
    split at h
    · next hs =>
      cases h
      exact .status (.inl (by rw [hs]; nofun)) fun _ => by rw [hs]; rfl
    · next hs =>
      cases h
      exact .status (.inl (by rw [hs]; nofun)) fun _ => by rw [hs]; rfl
    · cases h
  | preempt v =>
    obtain ⟨hs, ⟨⟩⟩ := ite_none_right_eq_some.mp h
    exact .status (.inl (by rw [hs]; nofun)) fun _ => by rw [hs]; rfl
  | poll v waker =>
    obtain ⟨hs, h⟩ := ite_none_right_eq_some.mp h
    obtain ⟨⟨reactors, pending⟩, hadvance, rfl⟩ := map_eq_some_iff.mp h
    exact .poll hs hadvance
  | park v =>
    obtain ⟨hs, ⟨⟩⟩ := ite_none_right_eq_some.mp h
    exact .status (.inl (by rw [hs]; nofun)) nofun

end DagRun

end Awkernel
