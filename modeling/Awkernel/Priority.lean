import Awkernel.PriorityQueue
import Awkernel.Scheduler.Types

/-!
# Priority words

`PriorityInfo` (`awkernel_async_lib/src/task.rs`) packs the priority of a task's scheduler
and the priority of the task inside that scheduler into one machine word; a task preempts
another when its word is larger. The word is built at spawn (`spawnPriority`) and, for the
two EDF schedulers, again at every wake from the absolute deadline (`edfWake`).

The arithmetic traps where the source's does: an overflowing sum, an underflowing
difference and a failed assertion of `combine_priority` are `none`.

Two questions about the packing are settled here for both word sizes.

* Does the order of the words agree with the order in which the run queues serve
  fixed-priority tasks? The run queue clamps the priority to 31 and the word does not, so
  it does exactly on the pairs that the clamping leaves apart
  (`queueAgrees_iff_not_clamped`).
* Does the EDF arithmetic stay inside its field and order the tasks by deadline? It does
  exactly when the absolute deadline fits in 56 bits of a 64-bit word
  (`priorityCorrect_iff_fits`). On 32-bit targets no EDF task can be spawned at all.
-/

namespace Awkernel

open PriorityQueue Option

/-- `target_pointer_width`. -/
inductive PointerWidth
  | w32 | w64
  deriving DecidableEq

/-- `MAX_TASK_PRIORITY`. -/
def maxTaskPriority : Nat := (1 <<< 56) - 1

/-- The number of bits of the word that hold the task priority. -/
def taskBits : PointerWidth → Nat
  | .w32 => 24
  | .w64 => 56

@[simp] theorem taskBits_w64 : taskBits .w64 = 56 := rfl

/-- `PriorityInfo::combine_priority`. On 32-bit targets the task priority is first cut to
32 bits by `task_priority as u32`. -/
def combinePriority : PointerWidth → Nat → Nat → Option Nat
  | .w64, schedulerPriority, taskPriority =>
    if taskPriority < 1 <<< 56 then
      some (schedulerPriority <<< 56 ||| taskPriority &&& ((1 <<< 56) - 1))
    else none
  | .w32, schedulerPriority, taskPriority =>
    let taskPriority32 := taskPriority % 2 ^ 32
    if taskPriority32 < 1 <<< 24 then
      some (schedulerPriority <<< 24 ||| taskPriority32 &&& ((1 <<< 24) - 1))
    else none

theorem shiftLeft_or_and (k s p : Nat) (hp : p < 1 <<< k) :
    (s <<< k ||| p &&& ((1 <<< k) - 1)) = s * 2 ^ k + p := by
  rw [Nat.one_shiftLeft] at hp ⊢
  rw [Nat.and_two_pow_sub_one_eq_mod, Nat.mod_eq_of_lt hp,
    ← Nat.shiftLeft_add_eq_or_of_lt hp, Nat.shiftLeft_eq]

theorem combinePriority_of_lt (w : PointerWidth) {s p : Nat} (hp : p < 2 ^ taskBits w) :
    combinePriority w s p = some (s * 2 ^ taskBits w + p) := by
  cases w with
  | w64 =>
    have hlt : p < 1 <<< 56 := by rw [Nat.one_shiftLeft]; exact hp
    simp only [combinePriority, if_pos hlt, shiftLeft_or_and 56 s p hlt, taskBits]
  | w32 =>
    have hmod : p % 2 ^ 32 = p :=
      Nat.mod_eq_of_lt (lt_trans hp (by unfold taskBits; norm_num))
    have hlt : p < 1 <<< 24 := by rw [Nat.one_shiftLeft]; exact hp
    simp only [combinePriority, hmod, if_pos hlt, shiftLeft_or_and 24 s p hlt, taskBits]

theorem word_lt_of_scheduler_lt {k s s' p p' : Nat} (hs : s' < s) (hp' : p' < 2 ^ k) :
    s' * 2 ^ k + p' < s * 2 ^ k + p := by
  have h : (s' + 1) * 2 ^ k ≤ s * 2 ^ k := Nat.mul_le_mul_right _ hs
  rw [Nat.add_mul] at h
  omega

/-! ### The word at spawn -/

/-- The task priority `Tasks::spawn` starts from: the declared priority of a fixed-priority
task, `MAX_TASK_PRIORITY` for the others. -/
def spawnTaskPriority : SchedulerType → Nat
  | .prioritizedFIFO priority => priority.toNat
  | .prioritizedRR priority => priority.toNat
  | _ => maxTaskPriority

/-- The word `Tasks::spawn` gives a task, `PriorityInfo::new(scheduler.priority(), ..)`. -/
def spawnPriority (w : PointerWidth) (ty : SchedulerType) : Option Nat :=
  combinePriority w (getScheduler ty).priority (spawnTaskPriority ty)

/-- The scheduler takes a declared priority. -/
def SchedulerType.isFixedPriority : SchedulerType → Bool
  | .prioritizedFIFO _ => true
  | .prioritizedRR _ => true
  | _ => false

theorem toNat_lt_two_pow_taskBits (w : PointerWidth) (priority : UInt8) :
    priority.toNat < 2 ^ taskBits w :=
  lt_of_lt_of_le priority.toNat_lt (by cases w <;> unfold taskBits <;> norm_num)

variable {w : PointerWidth} {ty : SchedulerType}

/-- A 64-bit word holds every initial task priority, a 32-bit word only a declared one. -/
theorem spawnTaskPriority_lt
    (h : w = .w64 ∨ ty.isFixedPriority = true) : spawnTaskPriority ty < 2 ^ taskBits w := by
  have hmax : maxTaskPriority < 2 ^ taskBits .w64 := by decide
  cases ty with
  | prioritizedFIFO priority | prioritizedRR priority => exact toNat_lt_two_pow_taskBits w priority
  | clusteredEDF _ _ | gedf _ | panicked =>
    -- not a declared priority, so the word is a 64-bit one
    obtain rfl : w = .w64 := h.resolve_right (by simp [SchedulerType.isFixedPriority])
    exact hmax

/-- `MAX_TASK_PRIORITY as u32` fails the assertion of the 32-bit `combine_priority`. -/
theorem combinePriority_w32_max (s : Nat) : combinePriority .w32 s maxTaskPriority = none := by
  have hmax : ¬ maxTaskPriority % 2 ^ 32 < 1 <<< 24 := by decide
  unfold combinePriority
  exact if_neg hmax

theorem spawnPriority_w32_eq_none (h : ¬ ty.isFixedPriority = true) :
    spawnPriority .w32 ty = none := by
  cases ty with
  | prioritizedFIFO _ | prioritizedRR _ => exact absurd rfl h
  | clusteredEDF _ _ | gedf _ | panicked =>
    simp only [spawnPriority, spawnTaskPriority, combinePriority_w32_max]

/-- `Task::preempts`, on the words of the two tasks. -/
def preempts (self other : Nat) : Prop := other < self

instance (self other : Nat) : Decidable (preempts self other) :=
  inferInstanceAs (Decidable (_ < _))

/-! ### Fixed priorities: the word and the run queue -/

/-- A task of one of the two fixed-priority schedulers. -/
inductive FixedPriority
  | fifo (priority : UInt8)
  | rr (priority : UInt8)
  deriving DecidableEq

namespace FixedPriority

def type : FixedPriority → SchedulerType
  | fifo priority => .prioritizedFIFO priority
  | rr priority => .prioritizedRR priority

def priority : FixedPriority → UInt8
  | fifo priority => priority
  | rr priority => priority

/-- The word of a fixed-priority task holds the declared priority unchanged. -/
theorem spawnPriority_type (w : PointerWidth) (a : FixedPriority) : spawnPriority w a.type
      = some (getPriority a.type * 2 ^ taskBits w + a.priority.toNat) := by
  rw [← combinePriority_of_lt w (toNat_lt_two_pow_taskBits w a.priority)]
  cases a <;> rfl

/-- `a` is served from a strictly higher run-queue level than `b`: its scheduler comes
earlier in `PRIORITY_LIST`, or it is the same scheduler and the level `push` stores `a` at
is higher. -/
def queueAbove (a b : FixedPriority) : Prop :=
  getPriority b.type < getPriority a.type ∨ getScheduler a.type = getScheduler b.type ∧
      level b.priority < level a.priority

/-- The preemption rule and the run-queue order agree on `a` and `b`. -/
def queueAgrees (w : PointerWidth) (a b : FixedPriority) : Prop :=
  ∃ pa pb, spawnPriority w a.type = some pa ∧ spawnPriority w b.type = some pb ∧
    (preempts pa pb ↔ queueAbove a b)

/-- `a` and `b` share a level only because `push` clamps: the same scheduler, both
declared at or above 31, and `a` declared strictly higher. -/
def clamped (a b : FixedPriority) : Prop :=
  getScheduler a.type = getScheduler b.type ∧
    highestPriority ≤ b.priority.toNat ∧ b.priority.toNat < a.priority.toNat

variable {a b : FixedPriority}

theorem preempts_of_sameScheduler {pa pb : Nat}
    (ha : spawnPriority w a.type = some pa) (hb : spawnPriority w b.type = some pb)
    (hs : getPriority a.type = getPriority b.type) :
    preempts pa pb ↔ b.priority.toNat < a.priority.toNat := by
  rw [spawnPriority_type, some.injEq] at ha hb
  subst ha hb
  unfold preempts
  rw [hs]
  omega

theorem preempts_of_scheduler_lt {pa pb : Nat}
    (ha : spawnPriority w a.type = some pa) (hb : spawnPriority w b.type = some pb)
    (hs : getPriority b.type < getPriority a.type) : preempts pa pb := by
  rw [spawnPriority_type, some.injEq] at ha hb
  subst ha hb
  exact word_lt_of_scheduler_lt hs (toNat_lt_two_pow_taskBits w b.priority)

theorem level_lt_iff (a b : FixedPriority) : level b.priority < level a.priority ↔
      b.priority.toNat < a.priority.toNat ∧ b.priority.toNat < highestPriority := by
  rw [Fin.lt_def, val_level, val_level]
  omega

theorem getScheduler_eq_iff (a b : FixedPriority) :
    getScheduler a.type = getScheduler b.type ↔ getPriority a.type = getPriority b.type := by
  rw [← getPriority_getScheduler a.type, ← getPriority_getScheduler b.type]
  exact priority_injective.eq_iff.symm

/-- **Queue order and preemption order.** On either word size the two orders agree on a pair
of fixed-priority tasks exactly when the clamping of the run queue does not merge them. -/
theorem queueAgrees_iff_not_clamped (w : PointerWidth) (a b : FixedPriority) :
    queueAgrees w a b ↔ ¬ clamped a b := by
  have ha := spawnPriority_type w a
  have hb := spawnPriority_type w b
  have hagree : queueAgrees w a b ↔
      (preempts (getPriority a.type * 2 ^ taskBits w + a.priority.toNat)
        (getPriority b.type * 2 ^ taskBits w + b.priority.toNat) ↔ queueAbove a b) := by
    constructor
    · rintro ⟨pa, pb, hpa, hpb, h⟩
      cases ha.symm.trans hpa
      cases hb.symm.trans hpb
      exact h
    · exact fun h => ⟨_, _, ha, hb, h⟩
  rw [hagree]
  unfold queueAbove clamped
  rw [getScheduler_eq_iff, level_lt_iff]
  rcases lt_trichotomy (getPriority a.type) (getPriority b.type) with hs | hs | hs
  · -- `b`'s scheduler comes first: neither order puts `a` above
    have hpre := preempts_of_scheduler_lt hb ha hs
    unfold preempts at hpre ⊢
    omega
  · -- one scheduler: the word compares the declared priorities, the queue the levels
    rw [preempts_of_sameScheduler ha hb hs]
    omega
  · have hpre := preempts_of_scheduler_lt ha hb hs
    simp only [hpre, hs, true_or, true_iff]
    omega

/-- Declared at 200 and at 31, two FIFO tasks share level 31 and the first preempts the
second. -/
theorem not_queueAgrees_of_clamped :
    ¬ ∀ (w : PointerWidth) (a b : FixedPriority), queueAgrees w a b := by
  intro h
  obtain ⟨pa, pb, ha, hb, hiff⟩ := h .w64 (fifo 200) (fifo 31)
  have hpre : preempts pa pb := by
    rw [preempts_of_sameScheduler ha hb rfl]
    decide
  rcases hiff.mp hpre with hs | ⟨-, hlevel⟩
  · exact absurd hs (by decide)
  · exact absurd hlevel (by decide)

end FixedPriority

/-! ### EDF: the word at a wake -/

/-- A `u64` sum that traps on overflow. -/
def checkedAdd (a b : Nat) : Option Nat := if a + b < 2 ^ 64 then some (a + b) else none

/-- An unsigned difference that traps on underflow. -/
def checkedSub (a b : Nat) : Option Nat := if b ≤ a then some (a - b) else none

/-- `update_priority_info(self.priority, MAX_TASK_PRIORITY - absolute_deadline)`. -/
def deadlinePriority (w : PointerWidth) (schedulerPriority absoluteDeadline : Nat) :
    Option Nat := do
  let taskPriority ← checkedSub maxTaskPriority absoluteDeadline
  combinePriority w schedulerPriority taskPriority

/-- The arithmetic of the EDF `wake_task`s: the absolute deadline and the new word. The two
schedulers differ in `schedulerPriority` only. -/
def edfWake (w : PointerWidth) (schedulerPriority wakeTime relativeDeadline : Nat) :
    Option (Nat × Nat) := do
  let absoluteDeadline ← checkedAdd wakeTime relativeDeadline
  let priority ← deadlinePriority w schedulerPriority absoluteDeadline
  return (absoluteDeadline, priority)

/-- On 64-bit targets the arithmetic succeeds exactly when the absolute deadline fits in
the 56 bits of the task priority. -/
theorem edfWake_w64 (s wakeTime rel : Nat) : edfWake .w64 s wakeTime rel =
      if wakeTime + rel < 2 ^ 56 then
        some (wakeTime + rel, s * 2 ^ 56 + (2 ^ 56 - 1 - (wakeTime + rel)))
      else none := by
  have hmax : maxTaskPriority = 2 ^ 56 - 1 := by
    unfold maxTaskPriority; rw [Nat.one_shiftLeft]
  by_cases hfit : wakeTime + rel < 2 ^ 56
  · have hadd : checkedAdd wakeTime rel = some (wakeTime + rel) := by
      unfold checkedAdd; rw [if_pos (by omega)]
    have hsub : checkedSub maxTaskPriority (wakeTime + rel)
        = some (2 ^ 56 - 1 - (wakeTime + rel)) := by
      unfold checkedSub; rw [hmax, if_pos (by omega)]
    have hword := combinePriority_of_lt .w64 (s := s)
      (p := 2 ^ 56 - 1 - (wakeTime + rel)) (by rw [taskBits_w64]; omega)
    simp only [edfWake, deadlinePriority, hadd, hsub, hword, bind_eq_bind, bind_some, if_pos hfit]
    rfl
  · unfold edfWake checkedAdd
    split
    · have hsub : checkedSub maxTaskPriority (wakeTime + rel) = none := by
        unfold checkedSub; rw [hmax, if_neg (by omega)]
      simp [deadlinePriority, hsub]
    · rfl

/-- The two schedulers whose `wake_task` computes the word again, with the parameter of
their `SchedulerType` that the arithmetic does not read. -/
inductive EDFScheduler
  | gedf
  | clusteredEDF (cpuSet : CpuSet)
  deriving DecidableEq

/-- A task of an EDF scheduler. `dagSink` is the sink relative deadline of its DAG in
microseconds, if the task is a DAG node. -/
structure EDFTask where
  scheduler : EDFScheduler
  relativeDeadline : UInt64
  dagSink : Option Nat
  deriving DecidableEq

namespace EDFTask

def type (t : EDFTask) : SchedulerType :=
  match t.scheduler with
  | .gedf => .gedf t.relativeDeadline
  | .clusteredEDF cpuSet => .clusteredEDF t.relativeDeadline cpuSet

/-- The summand `wake_task` adds to the wake time: the sink relative deadline of the DAG,
`deadline.as_micros() as u64`, before the task's own. -/
def effectiveDeadline (t : EDFTask) : Nat :=
  match t.dagSink with
  | some micros => micros % 2 ^ 64
  | none => t.relativeDeadline.toNat

/-- The exact sum, without a bound on its width. -/
def absoluteDeadline (t : EDFTask) (wakeTime : UInt64) : Nat :=
  wakeTime.toNat + t.effectiveDeadline

theorem wake_w64 (t : EDFTask) (s : Nat) (wakeTime : UInt64) :
    edfWake .w64 s wakeTime.toNat t.effectiveDeadline =
      if t.absoluteDeadline wakeTime < 2 ^ 56 then
        some (t.absoluteDeadline wakeTime, s * 2 ^ 56 + (2 ^ 56 - 1 - t.absoluteDeadline wakeTime))
      else none :=
  edfWake_w64 s wakeTime.toNat t.effectiveDeadline

theorem not_isFixedPriority (t : EDFTask) : ¬ t.type.isFixedPriority = true := by
  unfold type
  cases t.scheduler <;> simp [SchedulerType.isFixedPriority]

end EDFTask

/-- A task whose word is compared: as spawned, or a task of an EDF scheduler whose deadline
was computed by a wake at `wakeTime`. (A DAG node that joins a job already released keeps
the deadline of the releasing wake, so `wakeTime` is then the time of that one.) -/
inductive PrioritizedTask
  | spawned (ty : SchedulerType)
  | woken (task : EDFTask) (wakeTime : UInt64)
  deriving DecidableEq

namespace PrioritizedTask

def type : PrioritizedTask → SchedulerType
  | spawned ty => ty
  | woken task _ => task.type

/-- The absolute deadline of a woken task. -/
def deadline : PrioritizedTask → Option Nat
  | spawned _ => none
  | woken task wakeTime => some (task.absoluteDeadline wakeTime)

/-- The word of the task: computed at spawn and, for a woken EDF task, computed again by the
wake. `none` when one of the computations traps. -/
def word (w : PointerWidth) : PrioritizedTask → Option Nat
  | spawned ty => spawnPriority w ty
  | woken task wakeTime => do
    let _ ← spawnPriority w task.type
    let (_, priority) ←
      edfWake w (getScheduler task.type).priority wakeTime.toNat task.effectiveDeadline
    return priority

/-- No computation traps, an earlier deadline in the same EDF scheduler gives a larger word,
and a task of a higher-priority scheduler has the larger word. -/
def priorityCorrect (w : PointerWidth) (a b : PrioritizedTask) : Prop :=
  ∃ pa pb, a.word w = some pa ∧ b.word w = some pb ∧
    (∀ da db, getScheduler a.type = getScheduler b.type →
      a.deadline = some da → b.deadline = some db → da < db → pb < pa) ∧
    ((getScheduler b.type).priority < (getScheduler a.type).priority → pb < pa)

/-- The arithmetic of a task stays inside its fields: spawned on a 64-bit target or with a
declared priority; woken on a 64-bit target with a deadline below `2^56`. -/
def fits (w : PointerWidth) : PrioritizedTask → Prop
  | spawned ty => w = .w64 ∨ ty.isFixedPriority = true
  | woken task wakeTime => w = .w64 ∧ task.absoluteDeadline wakeTime < 2 ^ 56

/-- The task part of the word of a task that fits. -/
def taskPart : PrioritizedTask → Nat
  | spawned ty => spawnTaskPriority ty
  | woken task wakeTime => 2 ^ 56 - 1 - task.absoluteDeadline wakeTime

variable {w : PointerWidth} {a : PrioritizedTask}

/-- A task whose arithmetic stays inside its fields has the word its two parts make. -/
theorem word_of_fits (h : a.fits w) :
    a.word w = some ((getScheduler a.type).priority * 2 ^ taskBits w + a.taskPart) ∧
      a.taskPart < 2 ^ taskBits w := by
  cases a with
  | spawned ty =>
    have hlt := spawnTaskPriority_lt h
    exact ⟨combinePriority_of_lt w hlt, hlt⟩
  | woken task wakeTime =>
    obtain ⟨rfl, hfit⟩ := h
    have hspawn : spawnPriority .w64 task.type = some _ :=
      combinePriority_of_lt .w64 (spawnTaskPriority_lt (.inl rfl))
    have hwake := task.wake_w64 (getScheduler task.type).priority wakeTime
    rw [if_pos hfit] at hwake
    refine ⟨?_, by rw [taskBits_w64, taskPart]; omega⟩
    simp only [word, hspawn, hwake, bind_eq_bind, bind_some]
    rfl

theorem word_eq_none_of_not_fits (h : ¬ a.fits w) : a.word w = none := by
  cases w with
  | w32 =>
    -- the 32-bit word already traps at spawn
    cases a with
    | spawned ty => exact spawnPriority_w32_eq_none fun hfixed => h (.inr hfixed)
    | woken task wakeTime =>
      simp only [word, spawnPriority_w32_eq_none task.not_isFixedPriority, bind_eq_bind, bind_none]
  | w64 =>
    cases a with
    | spawned ty => exact absurd (.inl rfl) h
    | woken task wakeTime =>
      have hwake := task.wake_w64 (getScheduler task.type).priority wakeTime
      rw [if_neg fun hlt => h ⟨rfl, hlt⟩] at hwake
      simp only [word, hwake, bind_eq_bind, bind_none, bind_fun_none]

/-- In a woken task that fits, the task part counts down from the deadline. -/
theorem taskPart_add_deadline {d : Nat} (h : a.fits w) (hd : a.deadline = some d) :
    a.taskPart + d + 1 = 2 ^ 56 := by
  cases a with
  | spawned ty => exact absurd hd (by simp [deadline])
  | woken task wakeTime =>
    cases hd
    have hfit := h.2
    rw [taskPart]
    omega

/-- **EDF priority arithmetic.** For any two tasks and either word size, the arithmetic
is free of traps and orders the tasks as intended exactly when both tasks fit: on 64-bit
targets `wake_time + relative deadline < 2^56` for a woken EDF task, on 32-bit targets only
tasks of the two fixed-priority schedulers. -/
theorem priorityCorrect_iff_fits (w : PointerWidth) (a b : PrioritizedTask) :
    priorityCorrect w a b ↔ a.fits w ∧ b.fits w := by
  constructor
  · rintro ⟨pa, pb, ha, hb, -, -⟩
    refine ⟨?_, ?_⟩
    · by_contra hfit
      cases ha.symm.trans (word_eq_none_of_not_fits hfit)
    · by_contra hfit
      cases hb.symm.trans (word_eq_none_of_not_fits hfit)
  · rintro ⟨hfa, hfb⟩
    obtain ⟨ha, -⟩ := word_of_fits hfa
    obtain ⟨hb, hltb⟩ := word_of_fits hfb
    refine ⟨_, _, ha, hb, ?_, fun hs => word_lt_of_scheduler_lt hs hltb⟩
    intro da db hs hda hdb hlt
    have h₁ := taskPart_add_deadline hfa hda
    have h₂ := taskPart_add_deadline hfb hdb
    rw [hs]
    omega

/-- A GEDF task with relative deadline `u64::MAX` woken one microsecond after boot
overflows the sum. -/
theorem not_priorityCorrect_of_max_deadline :
    ¬ ∀ (w : PointerWidth) (a b : PrioritizedTask), priorityCorrect w a b := by
  intro h
  obtain ⟨pa, -, ha, -⟩ :=
    h .w64 (woken ⟨.gedf, 18446744073709551615, none⟩ 1) (spawned .panicked)
  have htrap := word_eq_none_of_not_fits (w := .w64)
    (a := woken ⟨.gedf, 18446744073709551615, none⟩ 1) fun hfit => absurd hfit.2 (by decide)
  cases ha.symm.trans htrap

end PrioritizedTask

end Awkernel
