import Awkernel.Kernel.GetNext
import Awkernel.Kernel.Preempt
import Awkernel.Kernel.Sleep

/-!
# The CPUs

What a CPU executes: `run_main` on the workers, with `re_schedule` after every switch of
threads, and the main loop of `kernel/src/lib.rs` on CPU 0 (the round-robin tick, the expired
timers, `sleep_cpu`, `wake_workers`).
-/

namespace Awkernel

variable {B : Build} {n : Nat}

/-- How a step of a CPU ends. -/
inductive CpuResult (B : Build) (n : Nat)
  | next (s : Shared B n) (pc : CpuPc n)
  | panicked (s : Shared B n)

namespace CpuResult

/-- A step of a call made by the CPU, which goes on at `after`. -/
def ofWake (pc : WakeCall n → CpuPc n) (after : CpuPc n) : WakeResult B n → CpuResult B n
  | .next s call => .next s (pc call)
  | .done s => .next s after
  | .panicked s => .panicked s

def ofGetNext (pc : GetNextPc → CpuPc n) (after : Option Handle → CpuPc n) :
    GetNextResult B n → CpuResult B n
  | .next s g => .next s (pc g)
  | .done s t => .next s (after t)

def ofSleep (after : CpuPc n) : SleepResult B n → CpuResult B n
  | .next s p => .next s (.sleep p)
  | .returned s => .next s after
  | .panicked s => .panicked s

end CpuResult

/-- Where a CPU continues after an interrupt. -/
def Interrupted.resume : Interrupted → CpuPc n
  | .polling task => .polling task
  | .sleeping p => .sleep p

/-- Where a thread continues that `re_schedule` has been run on. -/
def ThreadContext.resume : ThreadContext → CpuPc n
  | .entry | .pooled => .top
  | .preempted interrupted => interrupted.resume

def CpuResult.ofPreempt (interrupted : Interrupted) : PreemptResult B n → CpuResult B n
  | .next s p => .next s (.preempting interrupted p)
  | .returned s => .next s interrupted.resume
  | .switched s thread => .next s (.reSchedule thread)
  | .panicked s => .panicked s

/-- The worker CPUs in the order of the loops `for cpu_id in 1..num_cpu()`. -/
def workers (n : Nat) : List (Cpu n) := (List.finRange (n + 2)).filter fun c => c ≠ 0

namespace Shared

/-- The end of a dispatch that does not poll. -/
def abandon (s : Shared B n) (c : Cpu n) (t : Handle) : Shared B n :=
  (s.setCurrentTask c 0).modifyTask t fun task => { task with futureLocked := false }

/-- The future after a poll: its lock is released, and it is fused. -/
def endPoll (s : Shared B n) (t : Handle) (result : PollResult) : Shared B n :=
  s.modifyTask t fun task =>
    { task with
      futureLocked := false
      futureTerminated := task.futureTerminated || result == .ready }

end Shared

/-- The time quantum of PrioritizedRR in microseconds. -/
def rrInterval : Nat := 4000

/-- The tick for CPU `target`, which runs the task `current`. -/
def tickStep (s : Shared B n) (c target : Cpu n) (current : Nat) (todo : List (Cpu n))
    (inp : Input) : TickPc → Option (CpuResult B n)
  | .schedulerType =>
    match (s.registry current).map fun t => (s.task t).info.getSchedulerType with
    | some (.prioritizedRR _) => some (.next s (.ticking target current todo .lastExecuted))
    | _ => some (.next s (.tick todo))
  | .lastExecuted =>
    match s.registry current with
    | some t =>
      if s.uptime - (s.task t).info.lastExecuted > rrInterval then
        some (.next s (.ticking target current todo (.getNext .lock)))
      else some (.next s (.tick todo))
    | none => some (.next s (.tick todo))
  | .getNext g => (getNextStep s c false inp.pick g).map
      (.ofGetNext (fun g' => .ticking target current todo (.getNext g')) fun
        | some t => .ticking target current todo (.pushPending t)
        | none => .tick todo)
  | .pushPending t =>
    some (.next (s.pushPreemptionPending target t)
      (.ticking target current todo .setNeedPreemption))
  | .setNeedPreemption =>
    some (.next (s.setNeedPreemption current target) (.ticking target current todo .sendIpi))
  | .sendIpi => some (.next (s.sendPreemptIpi target) (.tick todo))

/-- One step of CPU `c`. -/
def cpuStep (s : Shared B n) (c : Cpu n) (inp : Input) : CpuPc n → Option (CpuResult B n)
  -- `run_main`
  | .top => some (.next s (if s.running c = 0 then .drain else .takeNext))
  | .drain =>
    match s.view.popGreatest (s.pending c) with
    | some (t, rest) => some (.next (s.setPending c rest) (.draining (s.wakeTask c t)))
    | none => some (.next s .takeNext)
  | .draining call => (wakeStep s call inp.dagDeadline).map (.ofWake .draining .drain)
  | .takeNext =>
    match s.nextTask c with
    | t :: rest =>
      some (.next ((s.setNext c rest).setCurrentTask c (s.task t).id) (.dispatch t))
    | [] => some (.next s (.getNext .lock))
  | .getNext g => (getNextStep s c true inp.pick g).map
      (.ofGetNext .getNext fun
        | some t => .dispatch t
        | none => .sleep .checkContinue)
  | .dispatch t =>
    let s' := { s with preemptionRequest := Function.update s.preemptionRequest c false }
    match (s.task t).info.thread with
    | some thread => some (.next
        (s'.modifyInfo t fun info => { info with thread := none, lastExecuted := s.uptime })
        (.pool thread))
    | none => some (.next s' (.tryLock t))
  | .pool thread => some (.next
      { s with threadPool := Function.update s.threadPool c (s.threadPool c ++ [.pooled]) }
      (.reSchedule thread))
  | .tryLock t =>
    if (s.task t).futureLocked then some (.next s (.lockFailed t))
    else some (.next (s.modifyTask t fun task => { task with futureLocked := true })
      (.checkFuture t))
  | .lockFailed t => some (.next (s.setCurrentTask c 0) (.waking (s.wake c t)))
  | .checkFuture t =>
    if (s.task t).futureTerminated then some (.next (s.abandon c t) .top)
    else some (.next s (.checkState t))
  | .checkState t =>
    if (s.task t).info.state.isDead then some (.next (s.abandon c t) .top)
    else some (.next (s.modifyInfo t fun info => { info with lastExecuted := s.uptime })
      (.startPoll t))
  | .startPoll t => some (.next (s.setCurrentTask c (s.task t).id) (.polling t))
  | .polling t => some (.next (s.endPoll t inp.poll) (.polled t inp.poll))
  | .polled t result =>
    -- `swap(0)` and the assertion
    if s.running c = (s.task t).id then some (.next (s.setCurrentTask c 0) (.finish t result))
    else some (.panicked (s.setCurrentTask c 0))
  | .finish t .pending =>
    let s' := s.modifyInfo t fun info => { info with state := .waiting, needSched := false }
    some (.next s' (if (s.task t).info.needSched then .waking (s'.wake c t) else .top))
  | .finish t .ready => some (.next
      (s.modifyInfo t fun info => { info with state := .terminated }) (.removeTask t))
  | .finish t .panicked => some (.next
      (s.modifyInfo t fun info => { info with state := .panicked }) (.removeTask t))
  | .removeTask t => some (.next
      { s with registry := Function.update s.registry (s.task t).id none } .top)
  | .waking call => (wakeStep s call inp.dagDeadline).map (.ofWake .waking .top)
  -- preemption
  | .preempting interrupted p => (preemptStep s c interrupted inp p).map (.ofPreempt interrupted)
  | .reSchedule thread =>
    match s.preemptedTasks c with
    | t :: rest =>
      some (.next (s.setPreempted c rest) (.reScheduling (s.wakeTask c t) thread))
    | [] => some (.next s (.repool thread))
  | .reScheduling call thread => (wakeStep s call inp.dagDeadline).map
      (.ofWake (fun call' => .reScheduling call' thread) (.reSchedule thread))
  | .repool thread =>
    match s.threadPool c with
    | k :: rest => some (.next
        { s with
          pooled := k :: s.pooled
          threadPool := Function.update s.threadPool c rest }
        (.repool thread))
    | [] => some (.next s thread.resume)
  | .sleep p => some (.ofSleep (if c = 0 then .loadNum else .top) (sleepStep s c inp.timedOut p))
  -- the main loop of CPU 0
  | .tick [] => some (.next s .timers)
  | .tick (target :: todo) =>
    if s.running target = 0 then some (.next s (.tick todo))
    else some (.next s (.ticking target (s.running target) todo .schedulerType))
  | .ticking target current todo p => tickStep s c target current todo inp p
  | .timers =>
    match inp.timer with
    | some t =>
      if t < s.numHandles then some (.next s (.timerWaking (s.wake c t))) else none
    | none => some (.next s (if inp.sleeps then .sleep .checkContinue else .loadNum))
  | .timerWaking call => (wakeStep s call inp.dagDeadline).map (.ofWake .timerWaking .timers)
  | .loadNum => some (.next s (.loadMask s.numTaskInQueue))
  | .loadMask numTasks => some (.next s
      (.wakeWorkers (workers n) numTasks (B.edfQueue.affinityMask s.clusteredEDF.1)))
  | .wakeWorkers [] _ _ => some (.next s (.tick (workers n)))
  | .wakeWorkers (target :: todo) numTasks mask =>
    if (target : Nat) ∈ mask ∨ numTasks ≠ 0 then
      some (.next s (.wakeWorker target none todo numTasks mask))
    else some (.next s (.wakeWorkers todo numTasks mask))
  | .wakeWorker target seen todo numTasks mask =>
    match s.wakeUp target seen with
    | (s', .again seen') => some (.next s' (.wakeWorker target seen' todo numTasks mask))
    | (s', .returned woken) => some (.next s' (.wakeWorkers todo
        (if (target : Nat) ∉ mask ∧ woken then numTasks - 1 else numTasks) mask))

end Awkernel
