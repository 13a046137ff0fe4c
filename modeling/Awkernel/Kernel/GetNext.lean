import Awkernel.Kernel.Wake

/-!
# Taking a task from the run queues

`scheduler::get_next_task`: under `GLOBAL_WAKE_GET_MUTEX`, the clustered queue is tried if its
counter says it is not empty, then the other queues in the order of `PRIORITY_LIST`. A task
from one of the other queues is counted out of `NUM_TASK_IN_QUEUE`.

The schedulers' `get_next` are one text over different queues: pop until a task is found that
has not ended, and mark it `Running` if its execution is ensured. `popQueue` is the pop of each
queue, `getNext` the loop.
-/

namespace Awkernel

variable {B : Build} {n : Nat}

/-- The order in which the heap of GEDF serves its entries, the least first. -/
def GEDFTask.key (e : GEDFTask) : ℕ ×ₗ ℕ := toLex (e.absoluteDeadline, e.wakeTime)

/-- The entries a binary heap may return: those that none precedes. -/
def leastEntries (l : List GEDFTask) : List GEDFTask :=
  l.filter fun e => l.all fun e' => e.key ≤ e'.key

namespace Shared

/-- Pop from the run queue of a scheduler, on CPU `c`. `pick` says which of the least entries
the heap of GEDF returns. -/
def popQueue (s : Shared B n) (c : Cpu n) (pick : List GEDFTask → Nat) :
    Sched → Option (Handle × Shared B n)
  | .clusteredEDF => (s.clusteredEDF.popForCpu c).map fun p =>
      (p.1,
        { s with
          clusteredEDF := p.2
          -- `ClusteredTask::take`
          numClusteredTasksInQueue := (s.numClusteredTasksInQueue + 2 ^ 32 - 1) % 2 ^ 32 })
  | .gedf =>
    let least := leastEntries s.gedf
    (least[pick s.gedf % least.length]?).map fun e =>
      (e.task, { s with gedf := s.gedf.erase e })
  | .prioritizedFIFO => s.prioritizedFIFO.pop.map fun p =>
      (p.1, { s with prioritizedFIFO := p.2 })
  | .prioritizedRR => s.prioritizedRR.pop.map fun p => (p.1, { s with prioritizedRR := p.2 })
  | .panicked =>
    match s.panicked with
    | [] => none
    | t :: rest => some (t, { s with panicked := rest })

/-- The loop of `get_next`: tasks that have ended are dropped. The queue shrinks in every
round, so as many rounds as it has entries are as good as the unbounded loop. -/
def popLive (c : Cpu n) (pick : List GEDFTask → Nat) (S : Sched) :
    Nat → Shared B n → Option Handle × Shared B n
  | 0, s => (none, s)
  | fuel + 1, s =>
    match s.popQueue c pick S with
    | none => (none, s)
    | some (t, s') =>
      if (s'.task t).info.state.isDead then popLive c pick S fuel s' else (some t, s')

/-- The end of `get_next`, under the lock of `info`. -/
def markTaken (s : Shared B n) (c : Cpu n) (ensured : Bool) (t : Handle) : Shared B n :=
  let s' := s.modifyInfo t fun info =>
    { info with
      needPreemption := if info.state = .preempted then false else info.needPreemption
      state := if ensured then .running else info.state }
  { s' with
    running := if ensured then Function.update s'.running c (s'.task t).id else s'.running }

/-- `get_next` of a scheduler. -/
def getNext (s : Shared B n) (c : Cpu n) (ensured : Bool) (pick : List GEDFTask → Nat)
    (S : Sched) : Option Handle × Shared B n :=
  match popLive c pick S ((s.queued S).length + 1) s with
  | (none, s') => (none, s')
  | (some t, s') => (some t, s'.markTaken c ensured t)

/-- `find_map` over a part of `PRIORITY_LIST`. -/
def findNext (c : Cpu n) (ensured : Bool) (pick : List GEDFTask → Nat) :
    List Sched → Shared B n → Option Handle × Shared B n
  | [], s => (none, s)
  | S :: rest, s =>
    match s.getNext c ensured pick S with
    | (none, s') => findNext c ensured pick rest s'
    | (some t, s') => (some t, s')

end Shared

/-- The clustered schedulers and the others, in the order of `PRIORITY_LIST`. -/
def clusteredSchedulers : List Sched :=
  (priorityList.take getNumClusteredSchedulers).map getScheduler

def globalSchedulers : List Sched :=
  (priorityList.drop getNumClusteredSchedulers).map getScheduler

/-- How a step of `get_next_task` ends. -/
inductive GetNextResult (B : Build) (n : Nat)
  | next (s : Shared B n) (pc : GetNextPc)
  | done (s : Shared B n) (task : Option Handle)

/-- One step of `get_next_task(ensured)` on CPU `c`. -/
def getNextStep (s : Shared B n) (c : Cpu n) (ensured : Bool) (pick : List GEDFTask → Nat) :
    GetNextPc → Option (GetNextResult B n)
  | .lock => if s.globalWakeGetMutex then none else some (.next (s.withMutex true) .pop)
  | .pop =>
    let clustered :=
      if s.numClusteredTasksInQueue > 0 then
        Shared.findNext c ensured pick clusteredSchedulers s
      else (none, s)
    match clustered with
    | (some t, s') => some (.next s' (.unlock (some t)))
    | (none, s') =>
      match Shared.findNext c ensured pick globalSchedulers s' with
      | (some t, s'') => some (.next s'' (.decrement t))
      | (none, s'') => some (.next s'' (.unlock none))
  | .decrement t => some (.next
      { s with numTaskInQueue := (s.numTaskInQueue + 2 ^ 32 - 1) % 2 ^ 32 } (.unlock (some t)))
  | .unlock t => some (.done (s.withMutex false) t)

end Awkernel
