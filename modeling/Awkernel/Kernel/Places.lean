import Awkernel.Kernel.System
import Awkernel.Lib.Ledger

/-!
# Where a task is

The ledger of a state of the kernel: every occurrence of a task in a container, in the hands
of a call or under execution on a CPU, read off the shared memory (`Shared.entries`) and the
control states (`WakeCall.entries`, `CpuPc.entries`).

`Flow` is the abstract machine of placement. It lists the ways in which one step may change the
ledger, together with what the step does to `NUM_TASK_IN_QUEUE` and to the number of entries a
task is due to have. That every step of the kernel is one of them is proved in
`Awkernel.Kernel.Flow`. What a flow does to one entry is `Carried`: an entry goes on to a place
that follows (`Flow.carried`), and every entry comes from one that precedes (`Flow.origin`).
-/

namespace Awkernel

open Ledger Multiset

variable {B : Build} {n m : Nat}

/-- The hands a task can be in. -/
inductive Hand
  /-- `Task::wake`, which has made the task `Runnable` and not yet counted it; it has read
  whether the task has panicked. -/
  | claimed (panicked : Bool)
  /-- `wake_task` of a scheduler, called by `Task::wake` or to put a task back. -/
  | waking (S : Sched) (notifies : Bool)
  /-- `do_preemption`, which has taken the task from the pending heap. -/
  | moving
  /-- `get_next_task`, before it counts the task out. -/
  | popped
  /-- The round-robin tick. -/
  | taken
  /-- `do_preemption`, which has dispatched the task that replaces this one. -/
  | yielding
  deriving DecidableEq

/-- The places a task can be in. -/
inductive Place (n : Nat)
  | queue (S : Sched)
  | pending (c : Cpu n)
  | next (c : Cpu n)
  | preempted (c : Cpu n)
  | hand (h : Hand)
  | executing (c : Cpu n)
  /-- The task has ended and is about to be removed from `TASKS`. -/
  | removing (c : Cpu n)
  deriving DecidableEq

/-! ### The ledger of a state -/

namespace WakeCall

/-- The hands the task of a call is in: none before it is claimed and after it is pushed. -/
def hand (w : WakeCall n) : Option Hand :=
  match w.pc with
  | .claim | .setNeedPreemption .. | .sendIpi _ | .unlock | .notify _ => none
  | .count panicked => some (.claimed panicked)
  | _ => some (.waking w.sched w.notifies)

def entries (w : WakeCall n) : Ledger (Place n) Handle :=
  match w.hand with
  | none => 0
  | some h => {(.hand h, w.task)}

end WakeCall

/-- The task a thread is executing. -/
def Interrupted.task : Interrupted → Option Handle
  | .polling t => some t
  | .sleeping _ => none

def ThreadContext.task : ThreadContext → Option Handle
  | .preempted interrupted => interrupted.task
  | _ => none

/-- The entry for a task that may be there. -/
def entryOf (p : Place n) : Option Handle → Ledger (Place n) Handle
  | none => 0
  | some t => {(p, t)}

/-- `get_next_task`; `p` is where a task goes that has been counted out. -/
def GetNextPc.entries (p : Place n) : GetNextPc → Ledger (Place n) Handle
  | .lock | .pop => 0
  | .decrement t => {(.hand .popped, t)}
  | .unlock t => entryOf p t

/-- `do_preemption` on CPU `c`. The interrupted task counts as executed until its successor
has been dispatched. -/
def PreemptPc.entries (c : Cpu n) (interrupted : Interrupted) :
    PreemptPc n → Ledger (Place n) Handle
  | .peekPending | .readCurrent _ | .compare .. | .removePending _ | .movePending _ =>
    entryOf (.executing c) interrupted.task
  | .rewake call => entryOf (.executing c) interrupted.task + call.entries
  | .setCurrent next moved _ | .rewakeMoved next moved _ =>
    entryOf (.executing c) interrupted.task + placed (.hand .moving) (next :: moved)
  | .rewakingMoved call next moved _ =>
    entryOf (.executing c) interrupted.task + call.entries + placed (.hand .moving) (next :: moved)
  | .lookupCurrent next _ | .takeContext next _ | .takeThread next _ | .pushNext next _ _ =>
    entryOf (.executing c) interrupted.task + placed (.hand .moving) [next]
  | .saveContext _ thread =>
    entryOf (.hand .yielding) interrupted.task + entryOf (.executing c) thread.task
  | .pushPreempted currentTask thread =>
    {(.hand .yielding, currentTask)} + entryOf (.executing c) thread.task

def TickPc.entries : TickPc → Ledger (Place n) Handle
  | .getNext g => g.entries (.hand .taken)
  | .pushPending t => {(.hand .taken, t)}
  | _ => 0

/-- What CPU `c` holds or executes. -/
def CpuPc.entries (c : Cpu n) : CpuPc n → Ledger (Place n) Handle
  | .draining call | .waking call | .timerWaking call => call.entries
  | .getNext g => g.entries (.executing c)
  | .dispatch t | .tryLock t | .lockFailed t | .checkFuture t | .checkState t | .startPoll t
  | .polling t | .polled t _ | .finish t _ => {(.executing c, t)}
  | .pool thread | .reSchedule thread | .repool thread => entryOf (.executing c) thread.task
  | .reScheduling call thread => call.entries + entryOf (.executing c) thread.task
  | .preempting interrupted p => p.entries c interrupted
  | .removeTask t => {(.removing c, t)}
  | .ticking _ _ _ p => p.entries
  | _ => 0

namespace Shared

/-- The entries of the containers of one CPU. -/
def cpuEntries (s : Shared B n) (c : Cpu n) : Ledger (Place n) Handle :=
  placed (.pending c) (s.pending c) + placed (.next c) (s.nextTask c) +
    placed (.preempted c) (s.preemptedTasks c)

/-- The entries of the containers. -/
def entries (s : Shared B n) : Ledger (Place n) Handle :=
  (∑ S, placed (.queue S) (s.queued S)) + ∑ c, s.cpuEntries c

end Shared

namespace Sys

/-- The ledger of the kernel. -/
def entries (σ : Sys B n m) : Ledger (Place n) Handle :=
  σ.shared.entries + (∑ c, (σ.cpu c).entries c) + ∑ i, ((σ.call i).elim 0 WakeCall.entries)

end Sys

/-! ### How many entries a task is due -/

/-- `Running`, `Runnable` or `Preempted`. -/
def State.isActive : State → Bool
  | running | runnable | preempted => true
  | _ => false

/-- One entry for an active task, and one for a task that has ended and not been removed. -/
def Shared.due (s : Shared B n) (t : Handle) : ℕ :=
  if (s.task t).info.state.isActive ∨
      ((s.task t).info.state.isDead ∧ s.registry (s.task t).id = some t) then 1 else 0

/-! ### The ways in which the ledger changes -/

/-- A task goes from one place to another. -/
inductive Move (s : Shared B n) : Place n → Place n → Handle → Prop
  | enqueue (S : Sched) (notifies : Bool) (t : Handle) :
      Move s (.hand (.waking S notifies)) (.queue S) t
  | request {S : Sched} (hS : S ≠ .panicked) (notifies : Bool) (c : Cpu n) (t : Handle) :
      Move s (.hand (.waking S notifies)) (.pending c) t
  /-- A task is put back by its scheduler. -/
  | rewake {p : Place n} (hp : (∃ c, p = .pending c) ∨ (∃ c, p = .preempted c) ∨
      p = .hand .moving) (t : Handle) : Move s p (.hand (.waking (s.task t).scheduler false)) t
  | pop {S : Sched} (hS : S ≠ .clusteredEDF) (t : Handle) : Move s (.queue S) (.hand .popped) t
  | popClustered {p : Place n} (hp : (∃ c, p = .executing c) ∨ p = .hand .taken) (t : Handle) :
      Move s (.queue .clusteredEDF) p t
  | tick (c : Cpu n) (t : Handle) : Move s (.hand .taken) (.pending c) t
  | dispatch (c : Cpu n) (t : Handle) : Move s (.next c) (.executing c) t
  | yield (c : Cpu n) (t : Handle) : Move s (.hand .yielding) (.preempted c) t
  | finish (c : Cpu n) (t : Handle) : Move s (.executing c) (.removing c) t

/-- What one step does to the ledger. -/
inductive Flow (s s' : Shared B n) : Ledger (Place n) Handle → Ledger (Place n) Handle → Prop
  | stay (L : Ledger (Place n) Handle) (hdue : s'.due = s.due)
      (hnum : s'.numTaskInQueue = s.numTaskInQueue) : Flow s s' L L
  | move {p q : Place n} {t : Handle} (R : Ledger (Place n) Handle) (h : Move s p q t)
      (hdue : s'.due = s.due) (hnum : s'.numTaskInQueue = s.numTaskInQueue) :
      Flow s s' ((p, t) ::ₘ R) ((q, t) ::ₘ R)
  /-- `do_preemption` takes the whole heap. -/
  | moveHeap (R : Ledger (Place n) Handle) (c : Cpu n) (heap : List Handle)
      (hdue : s'.due = s.due) (hnum : s'.numTaskInQueue = s.numTaskInQueue) :
      Flow s s' (R + placed (.pending c) heap) (R + placed (.hand .moving) heap)
  /-- `do_preemption` dispatches the next task, and the current one is about to yield. -/
  | switch (R : Ledger (Place n) Handle) {c : Cpu n} {q : Place n} {next current : Handle}
      (hq : q = .next c ∨ q = .executing c)
      (hdue : s'.due = s.due) (hnum : s'.numTaskInQueue = s.numTaskInQueue) :
      Flow s s' ((.hand .moving, next) ::ₘ (.executing c, current) ::ₘ R)
        ((q, next) ::ₘ (.hand .yielding, current) ::ₘ R)
  | claim (R : Ledger (Place n) Handle) (t : Handle) (hout : s.due t = 0)
      (hdue : s'.due = Function.update s.due t 1)
      (hnum : s'.numTaskInQueue = s.numTaskInQueue) :
      Flow s s' R ((.hand (.claimed (s.task t).info.panicked), t) ::ₘ R)
  | count (R : Ledger (Place n) Handle) (t : Handle) (panicked : Bool)
      (hdue : s'.due = s.due)
      (hnum : s'.numTaskInQueue = if panicked || (s.task t).cpuSet.isNone then
        (s.numTaskInQueue + 1) % 2 ^ 32 else s.numTaskInQueue) :
      Flow s s' ((.hand (.claimed panicked), t) ::ₘ R)
        ((.hand (.waking (if panicked then .panicked else (s.task t).scheduler) true), t) ::ₘ R)
  | decrement (R : Ledger (Place n) Handle) {p : Place n} (t : Handle)
      (hp : (∃ c, p = .executing c) ∨ p = .hand .taken) (hdue : s'.due = s.due)
      (hnum : s'.numTaskInQueue = (s.numTaskInQueue + 2 ^ 32 - 1) % 2 ^ 32) :
      Flow s s' ((.hand .popped, t) ::ₘ R) ((p, t) ::ₘ R)
  /-- The poll has returned `Pending`, or the task is out of `TASKS`. -/
  | release (R : Ledger (Place n) Handle) {p : Place n} (t : Handle)
      (hp : (∃ c, p = .executing c) ∨ ∃ c, p = .removing c)
      (hdue : s'.due = Function.update s.due t 0)
      (hnum : s'.numTaskInQueue = s.numTaskInQueue) : Flow s s' ((p, t) ::ₘ R) R

/-! ### What happens to one entry -/

/-- One step takes a task from one place to the other, or leaves it where it is. -/
inductive Carried (s : Shared B n) (t : Handle) : Place n → Place n → Prop
  | stay (p : Place n) : Carried s t p p
  | move {p q : Place n} (h : Move s p q t) : Carried s t p q
  | moveHeap (c : Cpu n) : Carried s t (.pending c) (.hand .moving)
  | dispatch {c : Cpu n} {q : Place n} (hq : q = .next c ∨ q = .executing c) :
      Carried s t (.hand .moving) q
  | yields (c : Cpu n) : Carried s t (.executing c) (.hand .yielding)
  | count (panicked : Bool) : Carried s t (.hand (.claimed panicked))
      (.hand (.waking (if panicked then .panicked else (s.task t).scheduler) true))
  | decrement {p : Place n} (hp : (∃ c, p = .executing c) ∨ p = .hand .taken) :
      Carried s t (.hand .popped) p

namespace Flow

variable {s s' : Shared B n} {L L' : Ledger (Place n) Handle} {p q : Place n} {t : Handle}

theorem carried (h : Flow s s' L L') (hmem : (p, t) ∈ L) :
    (∃ q, Carried s t p q ∧ (q, t) ∈ L') ∨ (∃ c, p = .executing c) ∨ ∃ c, p = .removing c := by
  have hrest : ∀ {R R' : Ledger (Place n) Handle}, R ≤ R' → Carries (Carried s) R R' :=
    Carries.of_le fun _ => .stay
  cases h with
  | stay _ => exact .inl (hrest le_rfl p t hmem)
  | move R hmove => exact .inl ((hrest le_rfl).cons (.move hmove) p t hmem)
  | moveHeap R c heap =>
    exact .inl ((hrest le_rfl).placed (fun _ => .moveHeap c) p t hmem)
  | switch R hq => exact .inl (((hrest le_rfl).cons (.yields _)).cons (.dispatch hq) p t hmem)
  | claim _ u => exact .inl (hrest (le_cons_self ..) p t hmem)
  | count R u panicked => exact .inl ((hrest le_rfl).cons (.count panicked) p t hmem)
  | decrement R u hp => exact .inl ((hrest le_rfl).cons (.decrement hp) p t hmem)
  | release _ u hp =>
    rcases mem_cons.mp hmem with heq | hmem
    · cases heq
      exact .inr hp
    · exact .inl (hrest le_rfl p t hmem)

/-- An entry comes from one before the step, unless the task has just been claimed. -/
theorem origin (h : Flow s s' L L') (hmem : (q, t) ∈ L') :
    (∃ p, Carried s t p q ∧ (p, t) ∈ L) ∨ q = .hand (.claimed (s.task t).info.panicked) := by
  have hrest : ∀ {R R' : Ledger (Place n) Handle}, R ≤ R' →
      Carries (fun t q p => Carried s t p q) R R' := Carries.of_le fun _ => .stay
  cases h with
  | stay _ => exact .inl (hrest le_rfl q t hmem)
  | move R hmove => exact .inl ((hrest le_rfl).cons (.move hmove) q t hmem)
  | moveHeap R c heap =>
    exact .inl ((hrest le_rfl).placed (fun _ => .moveHeap c) q t hmem)
  | switch R hq => exact .inl (((hrest le_rfl).cons (.yields _)).cons (.dispatch hq) q t hmem)
  | claim _ u =>
    rcases mem_cons.mp hmem with heq | hmem
    · cases heq
      exact .inr rfl
    · exact .inl (hrest le_rfl q t hmem)
  | count R u panicked => exact .inl ((hrest le_rfl).cons (.count panicked) q t hmem)
  | decrement R u hp => exact .inl ((hrest le_rfl).cons (.decrement hp) q t hmem)
  | release _ u hp => exact .inl (hrest (le_cons_self ..) q t hmem)

end Flow

/-! ### Whose entries are where -/

variable {p : Place n} {t : Handle}

theorem entryOf_mem {q : Place n} {x : Option Handle} (h : (q, t) ∈ entryOf p x) : q = p := by
  cases x with
  | none => cases h
  | some x => exact (Prod.mk.inj (mem_singleton.mp h)).1

theorem WakeCall.mem_entries {w : WakeCall n} (h : (p, t) ∈ w.entries) :
    ∃ hand, p = .hand hand := by
  unfold WakeCall.entries at h
  split at h
  · cases h
  · exact ⟨_, (Prod.mk.inj (mem_singleton.mp h)).1⟩

theorem PreemptPc.mem_entries {c : Cpu n} {i : Interrupted} {pc : PreemptPc n}
    (h : (p, t) ∈ pc.entries c i) : (∃ hand, p = .hand hand) ∨ p = .executing c := by
  have hexec : ∀ {x}, (p, t) ∈ entryOf (.executing c) x →
      (∃ hand, p = .hand hand) ∨ p = .executing c := fun h => .inr (entryOf_mem h)
  have hmoving : ∀ {l}, (p, t) ∈ placed (Place.hand .moving) l →
      (∃ hand, p = .hand hand) ∨ p = .executing c := fun h => .inl ⟨_, (mem_placed.mp h).1⟩
  cases pc with
  | peekPending | readCurrent | compare | removePending | movePending => exact hexec h
  | rewake => exact (mem_add.mp h).elim hexec fun h => .inl (WakeCall.mem_entries h)
  | setCurrent | rewakeMoved | lookupCurrent | takeContext | takeThread | pushNext =>
    exact (mem_add.mp h).elim hexec hmoving
  | rewakingMoved =>
    refine (mem_add.mp h).elim (fun h => ?_) hmoving
    exact (mem_add.mp h).elim hexec fun h => .inl (WakeCall.mem_entries h)
  | saveContext =>
    exact (mem_add.mp h).elim (fun h => .inl ⟨_, entryOf_mem h⟩) hexec
  | pushPreempted =>
    refine (mem_add.mp h).elim (fun h => .inl ⟨.yielding, ?_⟩) hexec
    exact (Prod.mk.inj (mem_singleton.mp h)).1

theorem GetNextPc.mem_entries {g : GetNextPc} {q : Place n} (h : (p, t) ∈ g.entries q) :
    p = .hand .popped ∨ p = q := by
  cases g with
  | lock | pop => cases h
  | decrement => exact .inl (Prod.mk.inj (mem_singleton.mp h)).1
  | unlock => exact .inr (entryOf_mem h)

theorem CpuPc.mem_entries {c : Cpu n} {pc : CpuPc n} (h : (p, t) ∈ pc.entries c) :
    (∃ hand, p = .hand hand) ∨ p = .executing c ∨ p = .removing c ∧ pc = .removeTask t := by
  cases pc with
  | draining | waking | timerWaking => exact .inl (WakeCall.mem_entries h)
  | preempting => exact (PreemptPc.mem_entries h).imp_right .inl
  | reScheduling =>
    rcases mem_add.mp h with h | h
    · exact .inl (WakeCall.mem_entries h)
    · exact .inr (.inl (entryOf_mem h))
  | getNext =>
    rcases GetNextPc.mem_entries h with hp | hp
    · exact .inl ⟨_, hp⟩
    · exact .inr (.inl hp)
  | ticking _ _ _ tick =>
    cases tick with
    | getNext =>
      rcases GetNextPc.mem_entries h with hp | hp
      · exact .inl ⟨_, hp⟩
      · exact .inl ⟨_, hp⟩
    | pushPending => exact .inl ⟨_, (Prod.mk.inj (mem_singleton.mp h)).1⟩
    | _ => cases h
  | pool | reSchedule | repool => exact .inr (.inl (entryOf_mem h))
  | dispatch | tryLock | lockFailed | checkFuture | checkState | startPoll | polling | polled
  | finish => exact .inr (.inl (Prod.mk.inj (mem_singleton.mp h)).1)
  | removeTask x =>
    cases mem_singleton.mp h
    exact .inr (.inr ⟨rfl, rfl⟩)
  | _ => cases h

/-- An entry of the shared memory stands for an occurrence in a container. -/
theorem Shared.mem_entries {s : Shared B n} :
    (p, t) ∈ s.entries ↔ (∃ S, p = .queue S ∧ t ∈ s.queued S) ∨
      ∃ c, (p = .pending c ∧ t ∈ s.pending c) ∨ (p = .next c ∧ t ∈ s.nextTask c) ∨
        (p = .preempted c ∧ t ∈ s.preemptedTasks c) := by
  simp only [Shared.entries, Shared.cpuEntries, mem_add, mem_sum,
    Finset.mem_univ, true_and, mem_placed, or_assoc]

end Awkernel
