import Awkernel.Priority
import Mathlib.Data.Prod.Lex

/-!
# Tasks

The task record of `awkernel_async_lib/src/task.rs`. An `Arc<Task>` is a `Handle` into a
task table, so that two references to one task are equal and a task keeps its identity
when it is removed from `TASKS` and its id is given to another task.

`Task.key` is the order of `impl Ord for Task`: priority first, the id only to break ties.
`Task.preempts` reads the priority alone. The first refines the second
(`Task.priority_le_of_key_le`), which is what keeps the tie-break out of every preemption
decision.
-/

namespace Awkernel

/-- A reference `Arc<Task>`. -/
abbrev Handle := Nat

-- for the CPUs and the threads: a numeral that has no proof in it
instance finOfNat (n i : Nat) : OfNat (Fin (n + 1)) i := Fin.instOfNat

/-- `State`. -/
inductive State
  | initialized | running | runnable | waiting | preempted | terminated | panicked
  deriving DecidableEq

/-- `matches!(state, State::Terminated | State::Panicked)`. -/
def State.isDead : State → Bool
  | terminated | panicked => true
  | _ => false

/-- `DagInfo`. -/
structure DagInfo where
  dagId : Nat
  nodeId : Nat
  deriving DecidableEq

/-- `SleepTag`. -/
inductive SleepTag
  | active | waiting | waking | continued
  deriving DecidableEq

/-- Where a CPU stands in `SleepCpuNoStd::sleep`. -/
inductive SleepPc
  | checkContinue
  | markWaiting
  /-- The check of the timeout; only CPU 0 sleeps with one. -/
  | checkTimeout
  /-- `wake_up(0)`; the tag it has loaded, if any. -/
  | notify (seen : Option SleepTag)
  | checkAgain
  | halted
  | reset
  deriving DecidableEq

/-- What a preemption interrupt finds a CPU at: interrupts are enabled while a future is
polled and while the CPU sleeps. -/
inductive Interrupted
  | polling (task : Handle)
  | sleeping (p : SleepPc)
  deriving DecidableEq

/-- `PtrWorkerThreadContext`: where a saved thread continues when it is switched to. -/
inductive ThreadContext
  /-- A created thread starts in `thread_entry`. -/
  | entry
  /-- A pooled thread returns from `yield_and_pool` into the loop of `run_main`. -/
  | pooled
  /-- A preempted thread returns from `do_preemption` to what the interrupt found. -/
  | preempted (interrupted : Interrupted)
  deriving DecidableEq

/-- `TaskInfo`. -/
structure TaskInfo where
  state : State
  schedulerType : SchedulerType
  numPreempt : Nat
  lastExecuted : Nat
  absoluteDeadline : Option Nat
  needSched : Bool
  needPreemption : Bool
  panicked : Bool
  dagInfo : Option DagInfo
  thread : Option ThreadContext
  deriving DecidableEq

/-- `TaskInfo::get_scheduler_type`. -/
def TaskInfo.getSchedulerType (info : TaskInfo) : SchedulerType :=
  if info.panicked then .panicked else info.schedulerType

/-- `Task`. Of the future only its mutex and `is_terminated` are kept. -/
structure Task where
  id : Nat
  scheduler : Sched
  priority : Nat
  cpuSet : Option CpuSet
  futureLocked : Bool
  futureTerminated : Bool
  info : TaskInfo
  deriving DecidableEq

namespace Task

/-- The memory behind a handle that no task has been given. -/
def unused : Task where
  id := 0
  scheduler := .panicked
  priority := 0
  cpuSet := none
  futureLocked := false
  futureTerminated := true
  info :=
    { state := .terminated
      schedulerType := .panicked
      numPreempt := 0
      lastExecuted := 0
      absoluteDeadline := none
      needSched := false
      needPreemption := false
      panicked := false
      dagInfo := none
      thread := none }

/-- `impl Ord for Task`. -/
def key (t : Task) : ℕ ×ₗ ℕ := toLex (t.priority, t.id)

/-- `Task::preempts`. -/
def preempts (self other : Task) : Prop := Awkernel.preempts self.priority other.priority

instance (self other : Task) : Decidable (self.preempts other) :=
  inferInstanceAs (Decidable (Awkernel.preempts _ _))

end Task

end Awkernel
