import Awkernel.Lib.AffinityQueue
import Awkernel.Preemption

/-!
# The state of the kernel

The memory the CPUs share (`Shared`) and the control state of everything that takes steps:
the calls of `wake_task` in progress (`WakeCall`) and the CPUs (`CpuPc`).

A control state stands for the point between two accesses to shared memory. What a function
has in its local variables at that point is an argument of the constructor, so a task that
a call has taken out of one container and not yet put into another can be read off its
control state.

CPU 0 is the primary CPU. `n + 2` is `num_cpu()`: `cpu::sanity_check` refuses to boot with
fewer than two CPUs.
-/

namespace Awkernel

/-- The run queue of ClusteredEDF, keyed by absolute deadline and wake time. -/
abbrev EDFQueue := AffinityQueue (ℕ ×ₗ ℕ) Handle

/-- What is fixed when the kernel is built. -/
structure Build where
  edfQueue : EDFQueue
  width : PointerWidth

/-- A 64-bit build with the list implementation of the queue. -/
def Build.list : Build := ⟨.ofList _ _, .w64⟩

/-- The CPUs. -/
abbrev Cpu (n : Nat) := Fin (n + 2)

/-- `GEDFTask`. -/
structure GEDFTask where
  task : Handle
  absoluteDeadline : Nat
  wakeTime : Nat
  deriving DecidableEq

/-! ### Shared memory -/

/-- The statics of the task and scheduler modules. -/
structure Shared (B : Build) (n : Nat) where
  /-- The memory behind the handles. -/
  task : Handle → Task
  numHandles : Nat
  /-- `TASKS.id_to_task`. -/
  registry : Nat → Option Handle
  candidateId : Nat
  clusteredEDF : B.edfQueue.Sized (n + 2)
  gedf : List GEDFTask
  prioritizedFIFO : PriorityQueue Handle
  prioritizedRR : PriorityQueue Handle
  panicked : List Handle
  numTaskInQueue : Nat
  numClusteredTasksInQueue : Nat
  /-- `GLOBAL_WAKE_GET_MUTEX` is held. -/
  globalWakeGetMutex : Bool
  /-- `THREADS.pooled`. -/
  pooled : List ThreadContext
  uptime : Nat
  /-- `RUNNING`; 0 when the CPU is idle. -/
  running : Cpu n → Nat
  /-- `PREEMPTION_PENDING_TASKS`. -/
  pending : Cpu n → List Handle
  /-- `NEXT_TASK`. -/
  nextTask : Cpu n → List Handle
  /-- `PREEMPTED_TASKS`. -/
  preemptedTasks : Cpu n → List Handle
  /-- `THREAD_POOL`. -/
  threadPool : Cpu n → List ThreadContext
  /-- `PREEMPTION_REQUEST`. -/
  preemptionRequest : Cpu n → Bool
  /-- `CPU_SLEEP_TAG`. -/
  cpuSleepTag : Cpu n → SleepTag
  /-- The number of preemption IPIs sent to a CPU. -/
  preemptIpi : Cpu n → Nat

/-- The statics as they are initialised. -/
def Shared.boot (B : Build) (n : Nat) : Shared B n where
  task _ := Task.unused
  numHandles := 0
  registry _ := none
  candidateId := 1
  clusteredEDF := .empty B.edfQueue (n + 2)
  gedf := []
  prioritizedFIFO := .new
  prioritizedRR := .new
  panicked := []
  numTaskInQueue := 0
  numClusteredTasksInQueue := 0
  globalWakeGetMutex := false
  pooled := []
  uptime := 0
  running _ := 0
  pending _ := []
  nextTask _ := []
  preemptedTasks _ := []
  threadPool _ := []
  preemptionRequest _ := false
  cpuSleepTag _ := .active
  preemptIpi _ := 0

/-! ### Calls of `wake_task` -/

/-- Where a call of `Task::wake` or of a scheduler's `wake_task` stands. -/
inductive WakePc (n : Nat)
  /-- `Task::wake`: about to lock `info`. -/
  | claim
  /-- About to increment `NUM_TASK_IN_QUEUE` if the task is counted there. -/
  | count (panicked : Bool)
  /-- `Scheduler::wake_task`: about to lock `info`. -/
  | enter
  /-- About to lock `GLOBAL_WAKE_GET_MUTEX`. -/
  | lock
  /-- `get_tasks_running`: the CPUs still to read and the busy ones found. -/
  | snapshot (todo : List (Cpu n)) (busy : List (Cpu n × Nat))
  /-- `get_task` for the next busy CPU; `best` is the minimum so far. -/
  | lookup (todo : List (Cpu n × Nat)) (best : Option (Handle × Cpu n))
  /-- `peek_preemption_pending` for a CPU whose running task was found. -/
  | peek (cpu : Cpu n) (running : Handle) (todo : List (Cpu n × Nat))
      (best : Option (Handle × Cpu n))
  /-- The ClusteredEDF loop: about to read `RUNNING` of the next CPU of the set. -/
  | scanRunning (todo : List (Cpu n)) (victim : Option (Handle × Cpu n))
  | scanTask (cpu : Cpu n) (running : Nat) (todo : List (Cpu n))
      (victim : Option (Handle × Cpu n))
  | scanPending (cpu : Cpu n) (running : Option Handle) (todo : List (Cpu n))
      (victim : Option (Handle × Cpu n))
  /-- `unwrap` of the minimum and `preempts`. -/
  | select (best : Option (Handle × Cpu n))
  /-- `preempts` of ClusteredEDF, which enqueues if there is no victim. -/
  | selectVictim (victim : Option (Handle × Cpu n))
  /-- About to push to the pending heap of the target CPU. -/
  | pushPending (target : Handle) (cpu : Cpu n)
  | setNeedPreemption (target : Handle) (cpu : Cpu n)
  | sendIpi (cpu : Cpu n)
  /-- About to push to the scheduler's run queue. -/
  | enqueue
  /-- About to release `GLOBAL_WAKE_GET_MUTEX`. -/
  | unlock
  /-- `wake_cpu(0)` of `Task::wake`; the tag it has loaded, if any. -/
  | notify (seen : Option SleepTag)
  deriving DecidableEq

/-- A call in progress. -/
structure WakeCall (n : Nat) where
  /-- The CPU that executes the call. -/
  cpu : Cpu n
  task : Handle
  /-- The scheduler whose `wake_task` is called. -/
  sched : Sched
  /-- `Task::wake`, which ends with `wake_cpu(0)`, and not a bare `wake_task`. -/
  notifies : Bool
  /-- What `wake_task` keeps for its `push`: the level of a fixed-priority task, the absolute
  deadline and the wake time of an EDF task. -/
  priority : UInt8
  absoluteDeadline : Nat
  wakeTime : Nat
  pc : WakePc n
  deriving DecidableEq

/-! ### CPUs -/

/-- The result of a poll: `Poll::Pending`, `Poll::Ready`, or a caught panic. -/
inductive PollResult
  | pending | ready | panicked
  deriving DecidableEq

/-- `scheduler::get_next_task`. -/
inductive GetNextPc
  | lock
  | pop
  /-- A task was popped from a queue that is not clustered. -/
  | decrement (task : Handle)
  | unlock (task : Option Handle)
  deriving DecidableEq

/-- `do_preemption`. `current` is the id it read from `RUNNING`, `currentTask` the task it
found under that id. -/
inductive PreemptPc (n : Nat)
  | peekPending
  | readCurrent (next : Handle)
  | compare (next : Handle) (current : Nat)
  /-- `remove_preemption_pending`, before `next` is woken again. -/
  | removePending (next : Handle)
  /-- The last `wake_task` before the function returns. -/
  | rewake (call : WakeCall n)
  | movePending (current : Nat)
  | setCurrent (next : Handle) (moved : List Handle) (current : Nat)
  /-- The loop over the other tasks taken from the heap. -/
  | rewakeMoved (next : Handle) (moved : List Handle) (current : Nat)
  | rewakingMoved (call : WakeCall n) (next : Handle) (moved : List Handle) (current : Nat)
  | lookupCurrent (next : Handle) (current : Nat)
  | takeContext (next : Handle) (currentTask : Handle)
  | takeThread (next : Handle) (currentTask : Handle)
  | pushNext (next : Handle) (currentTask : Handle) (thread : ThreadContext)
  /-- `yield_preempted_and_wake_task`. -/
  | saveContext (currentTask : Handle) (thread : ThreadContext)
  | pushPreempted (currentTask : Handle) (thread : ThreadContext)
  deriving DecidableEq

/-- The body of the round-robin tick for one CPU, on CPU 0. -/
inductive TickPc
  | schedulerType
  | lastExecuted
  | getNext (g : GetNextPc)
  | pushPending (next : Handle)
  | setNeedPreemption
  | sendIpi
  deriving DecidableEq

/-- Where a CPU stands. -/
inductive CpuPc (n : Nat)
  /-- The head of the loop of `run_main`. -/
  | top
  | drain
  | draining (call : WakeCall n)
  | takeNext
  | getNext (g : GetNextPc)
  | dispatch (task : Handle)
  /-- `yield_and_pool`. -/
  | pool (thread : ThreadContext)
  | tryLock (task : Handle)
  | lockFailed (task : Handle)
  | checkFuture (task : Handle)
  | checkState (task : Handle)
  | startPoll (task : Handle)
  | polling (task : Handle)
  /-- `do_preemption`, in an interrupt or at a voluntary preemption point. -/
  | preempting (interrupted : Interrupted) (p : PreemptPc n)
  | polled (task : Handle) (result : PollResult)
  | finish (task : Handle) (result : PollResult)
  | removeTask (task : Handle)
  /-- `Task::wake` called by `run_main` itself. -/
  | waking (call : WakeCall n)
  /-- `re_schedule`, on the thread that has been switched to. -/
  | reSchedule (thread : ThreadContext)
  | reScheduling (call : WakeCall n) (thread : ThreadContext)
  | repool (thread : ThreadContext)
  | sleep (p : SleepPc)
  /-- The main loop of CPU 0: the round-robin tick over the CPUs still to visit. -/
  | tick (todo : List (Cpu n))
  | ticking (cpu : Cpu n) (current : Nat) (todo : List (Cpu n)) (p : TickPc)
  | timers
  /-- A timer handler that wakes a task. -/
  | timerWaking (call : WakeCall n)
  /-- `wake_workers`. -/
  | loadNum
  | loadMask (numTasks : Nat)
  | wakeWorkers (todo : List (Cpu n)) (numTasks : Nat) (mask : Finset ℕ)
  | wakeWorker (cpu : Cpu n) (seen : Option SleepTag) (todo : List (Cpu n)) (numTasks : Nat)
      (mask : Finset ℕ)
  deriving DecidableEq

/-! ### The system -/

/-- The kernel with `m` slots for calls of `Task::wake` made by futures and interrupts. A
slot is free when it is `none`. A CPU or a call whose code has panicked has its flag set and stays
where it was; what happens when the panic is caught is in `Sys.unwind`. -/
structure Sys (B : Build) (n m : Nat) where
  shared : Shared B n
  cpu : Cpu n → CpuPc n
  call : Fin m → Option (WakeCall n)
  cpuPanicked : Cpu n → Bool
  callPanicked : Fin m → Bool

end Awkernel
