import Awkernel.Lib.Agenda
import Awkernel.PubSub.Subscriber

/-!
# The delta list of the timer

`awkernel_lib_verified/src/delta_list.rs` keeps the pending timers in a list of differences, and
`SleepingTasks` of `awkernel_async_lib/src/scheduler.rs` keeps such a list with the time that its
first difference is relative to. A timer is due at the base time plus the differences up to it.
The list of these times is an agenda (`SleepingTasks.agenda`), and the functions do to it what
they should:

* `sleepTask_spec`, `agenda_sleepUntilTask` — a request is inserted at its expiry time, after
  those that expire at the same time.
* `wakeTask_spec` — a call of `wake_task` runs the handlers that are due, and keeps the others.
* `timeToWait_eq` — the time until the first one.

Times are in nanoseconds. An `Instant` is a `u128`, a difference in the list is a `u64`.
-/

namespace Awkernel

open List

/-- `DeltaList<T>`. -/
inductive DeltaList (T : Type)
  | nil
  | cons (delta : Nat) (data : T) (next : DeltaList T)

namespace DeltaList

variable {T : Type}

def front : DeltaList T → Option (Nat × T)
  | .cons delta data _ => some (delta, data)
  | .nil => none

def isEmpty : DeltaList T → Bool
  | .nil => true
  | .cons _ _ _ => false

/-- `insert_delta`. -/
def insert : DeltaList T → Nat → T → DeltaList T
  | .nil, delta, data => .cons delta data .nil
  | .cons d x next, delta, data =>
    if delta < d then .cons delta data (.cons (d - delta) x next)
    else .cons d x (insert next (delta - d) data)

/-- The times at which the elements are due, if the first difference is relative to `base`. -/
def expiries : Nat → DeltaList T → List (Nat × T)
  | _, .nil => []
  | base, .cons delta data next => (base + delta, data) :: expiries (base + delta) next

theorem le_of_mem_expiries {l : DeltaList T} {base : Nat} {e : Nat × T}
    (h : e ∈ l.expiries base) : base ≤ e.1 := by
  induction l generalizing base with
  | nil => cases h
  | cons delta data next ih =>
    rcases mem_cons.mp h with rfl | h
    · exact Nat.le_add_right _ _
    · exact (Nat.le_add_right _ _).trans (ih h)

theorem expiries_sorted (l : DeltaList T) (base : Nat) :
    (l.expiries base).Pairwise fun e e' => e.1 ≤ e'.1 := by
  induction l generalizing base with
  | nil => exact .nil
  | cons delta data next ih => exact pairwise_cons.mpr ⟨fun e => le_of_mem_expiries, ih _⟩

/-- The agenda of a list. -/
def agenda (l : DeltaList T) (base : Nat) : Agenda Nat T :=
  ⟨l.expiries base, l.expiries_sorted base⟩

/-- **`insert_delta`** inserts after the elements that are due at the same time. -/
theorem agenda_insert (l : DeltaList T) (base delta : Nat) (data : T) :
    (l.insert delta data).agenda base = (l.agenda base).insert (base + delta) data := by
  apply Agenda.ext
  change (l.insert delta data).expiries base = (l.expiries base).filter (·.1 ≤ base + delta) ++
      (base + delta, data) :: (l.expiries base).filter (base + delta < ·.1)
  induction l generalizing base delta with
  | nil => rfl
  | cons d x next ih =>
    unfold insert
    split
    · next hlt =>
      -- everything in the list is due later
      have hlater : ∀ e ∈ (DeltaList.cons d x next).expiries base, base + delta < e.1 := by
        intro e he
        rcases mem_cons.mp he with rfl | he
        · exact Nat.add_lt_add_left hlt base
        · exact (Nat.add_lt_add_left hlt base).trans_le (le_of_mem_expiries he)
      have hback : base + delta + (d - delta) = base + d := by omega
      rw [filter_eq_nil_iff.mpr fun e he => by simpa using hlater e he,
        filter_eq_self.mpr fun e he => by simpa using hlater e he]
      change (base + delta, data) :: (base + delta + (d - delta), x) ::
        expiries (base + delta + (d - delta)) next = _
      rw [hback]
      rfl
    · next hge =>
      have hback : base + d + (delta - d) = base + delta := by omega
      unfold expiries
      rw [filter_cons_of_pos (by simpa using hge),
        filter_cons_of_neg (by simpa using hge), ih, hback]
      rfl

end DeltaList

/-- `SleepingTasks`; a handler is a value of `H`. -/
structure SleepingTasks (H : Type) where
  deltaList : DeltaList H
  baseTime : Nat

namespace SleepingTasks

variable {H : Type}

def new : SleepingTasks H := ⟨.nil, 0⟩

/-- `dur += diff` on `Duration`, whose seconds are a `u64`; `none` is its panic. -/
def addAssign (dur diff : Nat) : Option Nat :=
  if dur + diff < 2 ^ 64 * 10 ^ 9 then some (dur + diff) else none

/-- `SleepingTasks::sleep_task`; `none` is a panic. -/
def sleepTask (now : Nat) (handler : H) (dur : Nat) (s : SleepingTasks H) :
    Option (SleepingTasks H) :=
  if s.deltaList.isEmpty then
    some { baseTime := now, deltaList := s.deltaList.insert (dur % 2 ^ 64) handler }
  else do
    let dur ← addAssign dur (elapsed now s.baseTime)
    some { s with deltaList := s.deltaList.insert (dur % 2 ^ 64) handler }

/-- `Instant::saturating_duration_since`. -/
def saturatingDurationSince (instant earlier : Nat) : Nat :=
  if instant > earlier then min (instant - earlier) (2 ^ 64 - 1) else 0

/-- `SleepingTasks::sleep_until_task`. -/
def sleepUntilTask (now : Nat) (handler : H) (next : Nat) (s : SleepingTasks H) : SleepingTasks H :=
  let baseTime := if s.deltaList.isEmpty then now else s.baseTime
  let dur := saturatingDurationSince next baseTime
  { baseTime := baseTime, deltaList := s.deltaList.insert (dur % 2 ^ 64) handler }

/-- The loop of `SleepingTasks::wake_task`, with the handlers that it runs. -/
def wakeLoop (now : Nat) : Nat → DeltaList H → SleepingTasks H × List H
  | baseTime, .nil => (⟨.nil, baseTime⟩, [])
  | baseTime, .cons dur handler next =>
    if dur ≤ elapsed now baseTime then
      let (s, handlers) := wakeLoop now (baseTime + dur) next
      (s, handler :: handlers)
    else (⟨.cons dur handler next, baseTime⟩, [])

/-- `SleepingTasks::wake_task`. -/
def wakeTask (now : Nat) (s : SleepingTasks H) : SleepingTasks H × List H :=
  wakeLoop now s.baseTime s.deltaList

/-- `SleepingTasks::time_to_wait`. -/
def timeToWait (now : Nat) (s : SleepingTasks H) : Option Nat := do
  let (dur, _) ← s.deltaList.front
  let elapsed := elapsed now s.baseTime
  if elapsed ≥ dur then some 0 else some (dur - elapsed)

/-- The pending handlers with the times at which they are due. -/
def agenda (s : SleepingTasks H) : Agenda Nat H := s.deltaList.agenda s.baseTime

variable {s : SleepingTasks H} {now : Nat}

theorem elapsed_eq (hnow : now < 2 ^ 64) {base : Nat} : elapsed now base = now - base := by
  unfold elapsed
  split
  · exact Nat.mod_eq_of_lt (by omega)
  · omega

theorem sleepUntilTask_baseTime (s : SleepingTasks H) (now : Nat) (handler : H) (next : Nat)
    (hbase : s.baseTime ≤ now) : s.baseTime ≤ (s.sleepUntilTask now handler next).baseTime ∧
      (s.sleepUntilTask now handler next).baseTime ≤ now := by
  unfold sleepUntilTask
  split
  · exact ⟨hbase, le_rfl⟩
  · exact ⟨le_rfl, hbase⟩

/-- **`sleep_task`** inserts at the time `now + dur`, and does not panic, if that time fits in 64
bits. -/
theorem sleepTask_spec (hbase : s.baseTime ≤ now) {dur : Nat} (hfit : now + dur < 2 ^ 64)
    (handler : H) : ∃ s', s.sleepTask now handler dur = some s' ∧
      s'.agenda = s.agenda.insert (now + dur) handler ∧
      s.baseTime ≤ s'.baseTime ∧ s'.baseTime ≤ now := by
  obtain ⟨l, base⟩ := s
  cases l with
  | nil =>
    refine ⟨_, rfl, ?_, hbase, le_rfl⟩
    change (DeltaList.nil.insert (dur % 2 ^ 64) handler).agenda now = _
    rw [Nat.mod_eq_of_lt (by omega)]
    exact DeltaList.agenda_insert _ _ _ _
  | cons d x next =>
    change base ≤ now at hbase
    -- what has passed since the base time makes up for the base time
    have hdur : addAssign dur (elapsed now base) = some (now + dur - base) := by
      unfold addAssign
      rw [elapsed_eq (by omega), if_pos (by omega)]
      exact congrArg some (by omega)
    have hback : base + (now + dur - base) = now + dur := by omega
    refine ⟨_, congrArg (Option.bind · _) hdur, ?_, le_rfl, hbase⟩
    change ((DeltaList.cons d x next).insert ((now + dur - base) % 2 ^ 64) handler).agenda base = _
    rw [Nat.mod_eq_of_lt (by omega), DeltaList.agenda_insert, hback]
    rfl

/-- **`sleep_until_task`** inserts at the time asked for, or at the base time if that is past. -/
theorem agenda_sleepUntilTask {next : Nat} (hfit : next < 2 ^ 64) (handler : H) :
    (s.sleepUntilTask now handler next).agenda =
      s.agenda.insert (max next (s.sleepUntilTask now handler next).baseTime) handler := by
  obtain ⟨l, base⟩ := s
  have hdur : ∀ b, b + saturatingDurationSince next b % 2 ^ 64 = max next b := by
    intro b
    unfold saturatingDurationSince
    split
    · omega
    · omega
  unfold sleepUntilTask agenda
  rw [DeltaList.agenda_insert, hdur]
  cases l with
  | nil | cons => rfl

/-- **`wake_task`** runs the handlers that are due, in the order of the agenda, and keeps the
others. The base time has passed what was run and not the clock. -/
theorem wakeTask_spec (hbase : s.baseTime ≤ now) (hnow : now < 2 ^ 64) :
    (s.wakeTask now).2 = (s.agenda.due now).map Prod.snd ∧
      (s.wakeTask now).1.agenda = s.agenda.later now ∧
      s.baseTime ≤ (s.wakeTask now).1.baseTime ∧ (s.wakeTask now).1.baseTime ≤ now ∧
      ∀ e ∈ s.agenda.due now, e.1 ≤ (s.wakeTask now).1.baseTime := by
  obtain ⟨l, base⟩ := s
  change base ≤ now at hbase
  unfold wakeTask agenda Agenda.due
  dsimp only
  induction l generalizing base with
  | nil => exact ⟨rfl, rfl, le_rfl, hbase, fun e he => absurd he not_mem_nil⟩
  | cons dur handler next ih =>
    unfold wakeLoop
    rw [elapsed_eq hnow]
    split
    · next hle =>
      obtain ⟨hran, hkept, hmono, hpast, hdue⟩ := ih (base + dur) (by omega)
      have hfirst : decide (base + dur ≤ now) = true := decide_eq_true (by omega)
      have hfilter : ((DeltaList.cons dur handler next).agenda base).entries.filter (·.1 ≤ now) =
          (base + dur, handler) :: (next.agenda (base + dur)).entries.filter (·.1 ≤ now) :=
        filter_cons_of_pos hfirst
      rw [hfilter]
      refine ⟨congrArg (handler :: ·) hran, ?_, (Nat.le_add_right _ _).trans hmono, hpast, ?_⟩
      · refine hkept.trans (Agenda.ext ?_)
        exact (filter_cons_of_neg (by simpa using hfirst)).symm
      intro e he
      rcases mem_cons.mp he with rfl | he
      · exact hmono
      · exact hdue e he
    · next hgt =>
      have hlater : ∀ e ∈ ((DeltaList.cons dur handler next).agenda base).entries, now < e.1 := by
        intro e he
        rcases mem_cons.mp he with rfl | he
        · omega
        · have hle := DeltaList.le_of_mem_expiries he
          omega
      rw [filter_eq_nil_iff.mpr fun e he => by simpa using hlater e he]
      refine ⟨rfl, Agenda.ext ?_, le_rfl, hbase, fun e he => absurd he not_mem_nil⟩
      exact (filter_eq_self.mpr fun e he => decide_eq_true (hlater e he)).symm

/-- **`time_to_wait`** is the time from now to the first expiry, and zero if that is past. -/
theorem timeToWait_eq (hbase : s.baseTime ≤ now) (hnow : now < 2 ^ 64) :
    s.timeToWait now = s.agenda.first.map (· - now) := by
  obtain ⟨l, base⟩ := s
  cases l with
  | nil => rfl
  | cons dur handler next =>
    change base ≤ now at hbase
    change (if elapsed now base ≥ dur then some 0 else some (dur - elapsed now base)) =
      some (base + dur - now)
    rw [elapsed_eq hnow]
    split
    · exact congrArg some (by omega)
    · exact congrArg some (by omega)

end SleepingTasks

end Awkernel
