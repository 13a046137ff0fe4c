import Mathlib.Data.Finset.Range
import Mathlib.Data.Fintype.Defs

/-!
# Scheduler types

The data of `awkernel_async_lib/src/scheduler.rs` that the task and scheduler modules
share: the scheduling parameters of a task (`SchedulerType`), the five static schedulers
(`Sched`), their order in `PRIORITY_LIST`, and the CPU sets of clustered tasks
(`awkernel_lib/src/cpu.rs`).
-/

namespace Awkernel

/-! ### CPU sets -/

/-- `CpuSet`: a set of CPU ids. -/
abbrev CpuSet := Finset Nat

/-- `masked_workers(set, num_cpus)`: the CPUs `1..num_cpus` of the set. CPU 0 is the
primary CPU and runs no task. -/
def maskedWorkers (set : CpuSet) (numCpus : Nat) : CpuSet :=
  set.filter fun c => c < numCpus ∧ c ≠ 0

/-- `all_workers(num_cpus)`. -/
def allWorkers (numCpus : Nat) : CpuSet :=
  maskedWorkers (Finset.range numCpus) numCpus

@[simp] theorem mem_maskedWorkers {set : CpuSet} {numCpus c : Nat} :
    c ∈ maskedWorkers set numCpus ↔ c ∈ set ∧ c < numCpus ∧ c ≠ 0 := by
  simp [maskedWorkers]

/-! ### Schedulers -/

/-- `SchedulerType`. Deadlines are in microseconds. -/
inductive SchedulerType
  | clusteredEDF (relativeDeadline : UInt64) (cpuSet : CpuSet)
  | gedf (relativeDeadline : UInt64)
  | prioritizedFIFO (priority : UInt8)
  | prioritizedRR (priority : UInt8)
  | panicked
  deriving DecidableEq

/-- The static schedulers, `clustered_edf::SCHEDULER` and so on. -/
inductive Sched
  | clusteredEDF | gedf | prioritizedFIFO | prioritizedRR | panicked
  deriving DecidableEq

instance : Fintype Sched where
  elems := {.clusteredEDF, .gedf, .prioritizedFIFO, .prioritizedRR, .panicked}
  complete S := by cases S <;> decide

namespace SchedulerType

/-- `SchedulerType::equals`: same variant, whatever the parameters. -/
def equals : SchedulerType → SchedulerType → Bool
  | gedf _, gedf _ => true
  | clusteredEDF _ _, clusteredEDF _ _ => true
  | prioritizedFIFO _, prioritizedFIFO _ => true
  | prioritizedRR _, prioritizedRR _ => true
  | panicked, panicked => true
  | _, _ => false

/-- `SchedulerType::is_clustered`. -/
def isClustered : SchedulerType → Bool
  | clusteredEDF _ _ => true
  | _ => false

end SchedulerType

/-- `get_scheduler`. -/
def getScheduler : SchedulerType → Sched
  | .prioritizedFIFO _ => .prioritizedFIFO
  | .prioritizedRR _ => .prioritizedRR
  | .gedf _ => .gedf
  | .clusteredEDF _ _ => .clusteredEDF
  | .panicked => .panicked

/-- `Scheduler::scheduler_name`. -/
def Sched.schedulerName : Sched → SchedulerType
  | .clusteredEDF => .clusteredEDF 0 ∅
  | .gedf => .gedf 0
  | .prioritizedFIFO => .prioritizedFIFO 0
  | .prioritizedRR => .prioritizedRR 0
  | .panicked => .panicked

/-- `PRIORITY_LIST`. -/
def priorityList : List SchedulerType :=
  [.clusteredEDF 0 ∅, .gedf 0, .prioritizedFIFO 0, .prioritizedRR 0, .panicked]

/-- `get_num_clustered_schedulers`: the length of the clustered head of the list. -/
def getNumClusteredSchedulers : Nat :=
  (priorityList.takeWhile SchedulerType.isClustered).length

-- The compile-time check of `scheduler.rs`: no clustered scheduler after the first ones.
example : (priorityList.drop getNumClusteredSchedulers).all (fun ty => !ty.isClustered) := by
  decide

/-- `get_priority`: the position of the scheduler, counted from the end of the list. -/
def getPriority (ty : SchedulerType) : Nat :=
  priorityList.length - 1 - priorityList.findIdx (fun other => other.equals ty)

/-- `Scheduler::priority`. -/
def Sched.priority (S : Sched) : Nat := getPriority S.schedulerName

@[simp] theorem getPriority_getScheduler (ty : SchedulerType) :
    (getScheduler ty).priority = getPriority ty := by
  cases ty <;> rfl

theorem priority_injective : Function.Injective Sched.priority := by
  intro S T h
  revert h
  cases S <;> cases T <;> decide

end Awkernel
