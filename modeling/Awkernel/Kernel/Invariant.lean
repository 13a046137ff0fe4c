import Awkernel.Kernel.Flow

/-!
# The invariant of the kernel

What holds in every state of a run in which threads can be created.

* `SharedOk`: the shared memory in itself. Ids are unique among the registered tasks, every
  task that has not ended is registered, a saved thread is that of its task.
* `CpuOk`: a CPU against the shared memory. `RUNNING` names the task that occupies the CPU,
  `NEXT_TASK` has an entry only on the way to the thread that will take it, and what
  `do_preemption` has in its local variables is up to date (`PcOk`).
* `Inv`: the whole. Every task has exactly the entries in the ledger that it is due, a locked
  future belongs to a saved thread or to a CPU inside it, and a future that is terminated
  belongs to a task that has ended or is about to.

`CpuStepOk` is what a step of a CPU has to provide, in terms of that CPU alone. What the other
CPUs need from it is `CpuFrame`.
-/

namespace Awkernel

open Ledger

variable {B : Build} {n m : Nat}

/-! ### What a control state says about its CPU -/

/-- The thread has not started on a task, so it will look into `NEXT_TASK`. -/
def ThreadContext.isFresh : ThreadContext → Bool
  | entry | pooled => true
  | preempted _ => false

/-- The task a thread is about to continue; `next` is `NEXT_TASK` of its CPU. -/
def ThreadContext.occupant (next : List Handle) : ThreadContext → Option Handle
  | preempted interrupted => interrupted.task
  | _ => next.head?

/-- The task `do_preemption` has in `RUNNING`. -/
def PreemptPc.occupant (next : List Handle) (interrupted : Interrupted) :
    PreemptPc n → Option Handle
  | .rewakeMoved t _ _ | .rewakingMoved _ t _ _ | .lookupCurrent t _ | .takeContext t _
  | .takeThread t _ | .pushNext t _ _ => some t
  | .saveContext _ thread | .pushPreempted _ thread => thread.occupant next
  | _ => interrupted.task

/-- The task in `RUNNING`. -/
def CpuPc.occupant (next : List Handle) : CpuPc n → Option Handle
  | .top | .takeNext => next.head?
  | .getNext (.decrement t) => some t
  | .getNext (.unlock t) => t
  | .dispatch t | .tryLock t | .lockFailed t | .checkFuture t | .checkState t | .startPoll t
  | .polling t | .polled t _ => some t
  | .pool thread | .reSchedule thread | .reScheduling _ thread | .repool thread =>
    thread.occupant next
  | .preempting interrupted p => p.occupant next interrupted
  | _ => none

/-- `NEXT_TASK` may have an entry. -/
def CpuPc.mayHaveNext : CpuPc n → Bool
  | .top | .takeNext => true
  | .pool thread | .reSchedule thread | .reScheduling _ thread | .repool thread
  | .preempting _ (.saveContext _ thread) | .preempting _ (.pushPreempted _ thread) =>
    thread.isFresh
  | _ => false

/-- The CPU holds the lock of the future of a task. -/
def CpuPc.inside (t : Handle) : CpuPc n → Prop
  | .checkFuture x | .checkState x | .startPoll x | .polling x => x = t
  | .pool thread | .reSchedule thread | .reScheduling _ thread | .repool thread
  | .preempting _ (.pushPreempted _ thread) => thread.task = some t
  | .preempting interrupted (.saveContext _ thread) =>
    interrupted.task = some t ∨ thread.task = some t
  | .preempting interrupted _ => interrupted.task = some t
  | _ => False

/-- The task whose future has returned `Ready` and whose state does not yet say so. -/
def CpuPc.ending : CpuPc n → Option Handle
  | .polled t .ready | .finish t .ready => some t
  | _ => none

/-- The local variables of `do_preemption`. -/
def PreemptOk (s : Shared B n) (c : Cpu n) (interrupted : Interrupted) : PreemptPc n → Prop
  | .peekPending => True
  | .readCurrent next | .removePending next => next ∈ s.pending c
  | .compare next current =>
    next ∈ s.pending c ∧ ∃ x, interrupted = .polling x ∧ current = (s.task x).id
  | .rewake call => call.Ok
  | .movePending current | .setCurrent _ _ current | .rewakeMoved _ _ current
  | .lookupCurrent _ current => ∃ x, interrupted = .polling x ∧ current = (s.task x).id
  | .rewakingMoved call _ _ current =>
    call.Ok ∧ ∃ x, interrupted = .polling x ∧ current = (s.task x).id
  | .takeContext _ currentTask | .takeThread _ currentTask | .saveContext currentTask _
  | .pushPreempted currentTask _ => interrupted = .polling currentTask
  | .pushNext _ currentTask thread => interrupted = .polling currentTask ∧ thread.isFresh

/-- The local variables of a CPU. -/
def PcOk (s : Shared B n) (c : Cpu n) : CpuPc n → Prop
  | .draining call | .waking call | .timerWaking call | .reScheduling call _ => call.Ok
  | .tryLock t => (s.task t).info.thread = none
  | .lockFailed _ => False
  | .removeTask t => (s.task t).info.state.isDead
  | .preempting interrupted p => PreemptOk s c interrupted p
  | _ => True

/-- The id of a task that may be there, 0 if there is none. -/
def Shared.idOf (s : Shared B n) (t : Option Handle) : Nat := t.elim 0 fun t => (s.task t).id

/-- A CPU against the shared memory. -/
structure CpuOk (s : Shared B n) (c : Cpu n) (pc : CpuPc n) : Prop where
  running : s.running c = s.idOf (pc.occupant (s.nextTask c))
  next : s.nextTask c = [] ∨ pc.mayHaveNext ∧ ∃ t, s.nextTask c = [t]
  locals : PcOk s c pc

/-! ### The shared memory in itself -/

structure SharedOk (s : Shared B n) : Prop where
  unused : ∀ t, s.numHandles ≤ t → (s.task t).info.state.isDead
  id : ∀ t, t < s.numHandles → (s.task t).id ≠ 0 ∧ (s.task t).id < 2 ^ 32
  registered : ∀ id t, s.registry id = some t → t < s.numHandles ∧ (s.task t).id = id
  live : ∀ t, (s.task t).info.state.isDead = false → s.registry (s.task t).id = some t
  clustered : ∀ t, t < s.numHandles →
    ((s.task t).scheduler = .clusteredEDF ↔ (s.task t).cpuSet.isSome)
  threads : ∀ t k, (s.task t).info.thread = some k → k = .preempted (.polling t)
  pooled : ∀ k ∈ s.pooled, k.isFresh
  threadPool : ∀ c, ∀ k ∈ s.threadPool c, k.isFresh
  candidateId : s.candidateId < 2 ^ 32

/-! ### The invariant -/

/-- The invariant of the kernel. -/
structure Inv (σ : Sys B n m) : Prop where
  shared : SharedOk σ.shared
  cpu : ∀ c, CpuOk σ.shared c (σ.cpu c)
  call : ∀ i w, σ.call i = some w → w.Ok
  /-- Every task has the entries it is due. -/
  ledger : ∀ t, holders t σ.entries = σ.shared.due t
  /-- A task that has ended is about to be removed, or is removed. -/
  ended : ∀ t, (σ.shared.task t).info.state.isDead →
    σ.shared.registry (σ.shared.task t).id = some t → ∃ c, σ.cpu c = .removeTask t
  locked : ∀ t, (σ.shared.task t).futureLocked →
    (σ.shared.task t).info.thread.isSome ∨ ∃ c, (σ.cpu c).inside t
  terminated : ∀ t, (σ.shared.task t).futureTerminated →
    (σ.shared.task t).info.state.isDead ∨ ∃ c, (σ.cpu c).ending = some t

/-! ### What a step of a CPU has to provide -/

/-- The fields of a task that are written when it is spawned and never again. -/
structure TaskFixed (t t' : Task) : Prop where
  id : t'.id = t.id
  scheduler : t'.scheduler = t.scheduler
  cpuSet : t'.cpuSet = t.cpuSet

theorem TaskFixed.refl (t : Task) : TaskFixed t t := ⟨rfl, rfl, rfl⟩

theorem TaskKept.fixed {t t' : Task} (h : TaskKept t t') : TaskFixed t t' :=
  ⟨h.id, h.scheduler, h.cpuSet⟩

/-- What a step of CPU `c` leaves alone. -/
structure CpuFrame (c : Cpu n) (s s' : Shared B n) : Prop where
  task : ∀ t, TaskFixed (s.task t) (s'.task t)
  isDead : ∀ t, (s.task t).info.state.isDead → (s'.task t).info.state.isDead
  numHandles : s'.numHandles = s.numHandles
  registry : ∀ id t, s'.registry id = some t → s.registry id = some t
  running : ∀ c', c' ≠ c → s'.running c' = s.running c'
  nextTask : ∀ c', c' ≠ c → s'.nextTask c' = s.nextTask c'
  pending : ∀ c', c' ≠ c → ∀ t ∈ s.pending c', t ∈ s'.pending c'

/-- The part of the invariant that a step of CPU `c` may use. -/
structure Local (s : Shared B n) (c : Cpu n) (pc : CpuPc n) : Prop where
  shared : SharedOk s
  ok : CpuOk s c pc
  /-- The entries of the containers and of this CPU are among those that are due. -/
  held : ∀ t, holders t (s.entries + pc.entries c) ≤ s.due t
  live : ∀ p t, (p, t) ∈ s.entries + pc.entries c → (∀ c', p ≠ .removing c') →
    (s.task t).info.state.isDead = false
  unlocked : ∀ t, pc = .tryLock t → (s.task t).futureLocked = false
  unterminated : ∀ t, pc = .checkFuture t → (s.task t).futureTerminated = false

/-- What is known of a step of CPU `c` from `pc` to `pc'`. -/
structure CpuStepOk (s : Shared B n) (c : Cpu n) (pc : CpuPc n) (s' : Shared B n)
    (pc' : CpuPc n) : Prop where
  frame : CpuFrame c s s'
  flow : Flow s s' (s.entries + pc.entries c) (s'.entries + pc'.entries c)
  shared : SharedOk s'
  ok : CpuOk s' c pc'
  /-- Only the threads of tasks this CPU holds are saved or taken. -/
  thread : ∀ t, (∀ p, (p, t) ∉ pc.entries c) → (s'.task t).info.thread = (s.task t).info.thread
  ended : ∀ t, (s'.task t).info.state.isDead → s'.registry (s'.task t).id = some t →
    pc' = .removeTask t ∨ (s.task t).info.state.isDead ∧ pc ≠ .removeTask t
  locked : ∀ t, (s'.task t).futureLocked → ((s'.task t).info.thread.isSome ∨ pc'.inside t) ∨
      (s.task t).futureLocked ∧ ¬ ((s.task t).info.thread.isSome ∨ pc.inside t)
  terminated : ∀ t, (s'.task t).futureTerminated →
    ((s'.task t).info.state.isDead ∨ pc'.ending = some t) ∨
      (s.task t).futureTerminated ∧ ¬ ((s.task t).info.state.isDead ∨ pc.ending = some t)

end Awkernel
