import Awkernel.Kernel.Wake

/-!
# Preemption

`do_preemption` on the CPU that takes the interrupt: peek at the pending heap, compare with the
running task, and either put the pending task back or switch to it. The switch goes to the
thread the next task was preempted on, to a pooled thread or to a new one.

The thread that is switched away from is saved in its task as `ThreadContext.preempted`, with
what the interrupt found. What happens after the switch is `re_schedule`, on the other thread.
-/

namespace Awkernel

variable {B : Build} {n : Nat}

/-- `BinaryHeap::pop` on a heap of tasks. -/
def PreemptionView.popGreatest {N : Nat} (v : PreemptionView N) (heap : List Handle) :
    Option (Handle × List Handle) :=
  (heap.argmax v.key).map fun t => (t, heap.erase t)

/-- A call of `t.scheduler.wake_task(t)` on CPU `c`. -/
def Shared.wakeTask (s : Shared B n) (c : Cpu n) (t : Handle) : WakeCall n where
  cpu := c
  task := t
  sched := (s.task t).scheduler
  notifies := false
  priority := 0
  absoluteDeadline := 0
  wakeTime := 0
  pc := .enter

/-- A call of `Task::wake` on CPU `c`. -/
def Shared.wake (s : Shared B n) (c : Cpu n) (t : Handle) : WakeCall n where
  cpu := c
  task := t
  sched := (s.task t).scheduler
  notifies := true
  priority := 0
  absoluteDeadline := 0
  wakeTime := 0
  pc := .claim

/-- What the environment decides in a step. -/
structure Input where
  /-- The result of `calculate_and_update_dag_deadline`. -/
  dagDeadline : Nat := 0
  /-- Which of the least entries the heap of GEDF returns. -/
  pick : List GEDFTask → Nat := fun _ => 0
  /-- The result of the poll. -/
  poll : PollResult := .pending
  /-- `create_thread` succeeds. -/
  threadCreated : Bool := true
  /-- The task woken by the next timer that has expired. -/
  timer : Option Handle := none
  /-- CPU 0 sleeps rather than waits. -/
  sleeps : Bool := true
  /-- The timeout of the sleep has passed. -/
  timedOut : Bool := false

/-- How a step of `do_preemption` ends. -/
inductive PreemptResult (B : Build) (n : Nat)
  | next (s : Shared B n) (pc : PreemptPc n)
  /-- Return to what the interrupt found. -/
  | returned (s : Shared B n)
  /-- The CPU continues on the other thread. -/
  | switched (s : Shared B n) (thread : ThreadContext)
  | panicked (s : Shared B n)

/-- A step of a call made by `do_preemption`. -/
def PreemptResult.ofWake (r : WakeResult B n) (pc : WakeCall n → PreemptPc n)
    (done : Shared B n → PreemptResult B n) : PreemptResult B n :=
  match r with
  | .next s call => .next s (pc call)
  | .done s => done s
  | .panicked s => .panicked s

namespace Shared

def setPending (s : Shared B n) (c : Cpu n) (heap : List Handle) : Shared B n :=
  { s with pending := Function.update s.pending c heap }

def setNext (s : Shared B n) (c : Cpu n) (tasks : List Handle) : Shared B n :=
  { s with nextTask := Function.update s.nextTask c tasks }

def setPreempted (s : Shared B n) (c : Cpu n) (tasks : List Handle) : Shared B n :=
  { s with preemptedTasks := Function.update s.preemptedTasks c tasks }

/-- `set_current_task`. -/
def setCurrentTask (s : Shared B n) (c : Cpu n) (id : Nat) : Shared B n :=
  { s with running := Function.update s.running c id }

end Shared

/-- The condition under which `do_preemption` goes on: the pending task preempts the running
one, or the quantum of a round-robin task rotates tasks of equal priority. -/
def Task.yieldsTo (current next : Task) : Prop :=
  next.preempts current ∨ (¬ current.preempts next ∧ current.scheduler = .prioritizedRR)

instance (current next : Task) : Decidable (current.yieldsTo next) :=
  inferInstanceAs (Decidable (_ ∨ _))

/-- One step of `do_preemption` on CPU `c`. -/
def preemptStep (s : Shared B n) (c : Cpu n) (interrupted : Interrupted) (inp : Input) :
    PreemptPc n → Option (PreemptResult B n)
  | .peekPending =>
    match s.view.peekPreemptionPending c with
    | none => some (.returned s)
    | some next => some (.next s (.readCurrent next))
  | .readCurrent next =>
    if s.running c = 0 then some (.next s (.removePending next))
    else some (.next s (.compare next (s.running c)))
  | .compare next current =>
    match s.registry current with
    | none => some (.panicked s)
    | some currentTask =>
      if (s.task currentTask).yieldsTo (s.task next) then some (.next s (.movePending current))
      else some (.next s (.removePending next))
  | .removePending next =>
    some (.next (s.setPending c ((s.pending c).filter fun t => (s.task t).id ≠ (s.task next).id))
      (.rewake (s.wakeTask c next)))
  | .rewake call => (wakeStep s call inp.dagDeadline).map fun r =>
      .ofWake r .rewake .returned
  | .movePending current =>
    -- the two `unwrap`s are on the heap and on its greatest task
    match s.view.popGreatest (s.pending c) with
    | none => some (.panicked s)
    | some (next, moved) => some (.next (s.setPending c []) (.setCurrent next moved current))
  | .setCurrent next moved current =>
    some (.next (s.setCurrentTask c (s.task next).id) (.rewakeMoved next moved current))
  | .rewakeMoved next moved current =>
    match s.view.popGreatest moved with
    | none => some (.next s (.lookupCurrent next current))
    | some (p, moved') => some (.next s (.rewakingMoved (s.wakeTask c p) next moved' current))
  | .rewakingMoved call next moved current => (wakeStep s call inp.dagDeadline).map fun r =>
      .ofWake r (fun call' => .rewakingMoved call' next moved current)
        fun s' => .next s' (.rewakeMoved next moved current)
  | .lookupCurrent next current =>
    match s.registry current with
    | none => some (.panicked s)
    | some currentTask => some (.next s (.takeContext next currentTask))
  | .takeContext next currentTask =>
    match (s.task next).info.thread with
    | some thread => some (.next (s.modifyInfo next fun info => { info with thread := none })
        (.saveContext currentTask thread))
    | none => some (.next s (.takeThread next currentTask))
  | .takeThread next currentTask =>
    match s.pooled with
    | thread :: rest => some (.next { s with pooled := rest } (.pushNext next currentTask thread))
    | [] =>
      if inp.threadCreated then some (.next s (.pushNext next currentTask .entry))
      else some (.next s (.rewake (s.wakeTask c next)))
  | .pushNext next currentTask thread =>
    some (.next (s.setNext c (s.nextTask c ++ [next])) (.saveContext currentTask thread))
  | .saveContext currentTask thread =>
    -- `assert!(self.thread.is_none())`
    if (s.task currentTask).info.thread.isSome then some (.panicked s)
    else some (.next (s.modifyInfo currentTask fun info =>
        { info with
          thread := some (.preempted interrupted)
          state := .preempted
          numPreempt := info.numPreempt + 1 })
      (.pushPreempted currentTask thread))
  | .pushPreempted currentTask thread =>
    some (.switched (s.setPreempted c (currentTask :: s.preemptedTasks c)) thread)

end Awkernel
