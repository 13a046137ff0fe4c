import Awkernel.Lib.TransitionSystem
import Awkernel.Timer.DeltaList
import Mathlib.Data.List.GetD
import Mathlib.Data.List.Nodup

/-!
# The timer service

The calls of `sleep_task`, `sleep_until_task` and `wake_task` on `SleepingTasks`, in any order
and at a clock that does not go back. A handler is the number of its request. The state records
the expiry time of each request, the calls of `wake_task`, and the handlers that have run with
the time of the call that ran them.

The main result is `timer_service`. Its invariant says that the handlers that have run, followed
by the agenda of the delta list, are all the requests in the order of their expiry times, and
among equal times in the order of insertion. It holds across the calls because the base time lies
between what has run and what is pending: a request is never inserted before the base time.
The times have to fit in 64 bits: a longer sleep is cut short, or panics (`long_sleep_cut_short`).
-/

namespace Awkernel

open TransitionSystem Agenda SleepingTasks List
open Option hiding map_map mem_map

namespace Timer

/-- The sleeping tasks with the clock and the record of a run. -/
structure State where
  tasks : SleepingTasks Nat
  now : Nat
  /-- The expiry times of the requests, in the order of insertion. -/
  expiry : List Nat
  /-- The calls of `wake_task`: how many requests were made before, and the time. -/
  wakes : List (Nat × Nat)
  /-- The handlers that have run, and the time of the call that ran them. -/
  ran : List (Nat × Nat)

inductive Action
  | advance (nanos : Nat)
  | sleepTask (dur : Nat)
  | sleepUntilTask (next : Nat)
  | wakeTask

namespace State

def init : State := ⟨.new, 0, [], [], []⟩

/-- A call; `none` is a panic. -/
def step (σ : State) : Action → Option State
  | .advance nanos => some { σ with now := σ.now + nanos }
  | .sleepTask dur =>
    (σ.tasks.sleepTask σ.now σ.expiry.length dur).map fun tasks =>
      { σ with tasks := tasks, expiry := σ.expiry ++ [σ.now + dur] }
  | .sleepUntilTask next =>
    let tasks := σ.tasks.sleepUntilTask σ.now σ.expiry.length next
    -- a time that is past counts as the base time
    some { σ with tasks := tasks, expiry := σ.expiry ++ [max next tasks.baseTime] }
  | .wakeTask =>
    let (tasks, handlers) := σ.tasks.wakeTask σ.now
    some { σ with
      tasks := tasks
      wakes := σ.wakes ++ [(σ.expiry.length, σ.now)]
      ran := σ.ran ++ handlers.map fun i => (i, σ.now) }

/-- The times fit in 64 bits. -/
def Fits (σ : State) : Action → Prop
  | .advance nanos => σ.now + nanos < 2 ^ 64
  | .sleepTask dur => σ.now + dur < 2 ^ 64
  | .sleepUntilTask next => next < 2 ^ 64
  | .wakeTask => True

/-- The handlers that have run, with their expiry times. -/
def finished (σ : State) : List (Nat × Nat) := σ.ran.map fun r => (σ.expiry.getD r.1 0, r.1)

/-- The first call of `wake_task` after request `i` whose time has reached `t`. -/
def firstWake (σ : State) (i t : Nat) : Option Nat :=
  (σ.wakes.find? fun w => decide (i < w.1) && decide (t ≤ w.2)).map Prod.snd

/-- What the calls keep. -/
structure Inv (σ : State) : Prop where
  clock : σ.now < 2 ^ 64
  /-- The base time is between what has run and the clock. -/
  base : σ.tasks.baseTime ≤ σ.now
  finished_le : ∀ e ∈ σ.finished, e.1 ≤ σ.tasks.baseTime
  /-- What has run and what is pending are the requests, in order. -/
  ordered : (σ.finished ++ σ.tasks.agenda.entries).Pairwise Agenda.Before
  requests : ∀ i t, (t, i) ∈ σ.finished ++ σ.tasks.agenda.entries ↔ σ.expiry[i]? = some t
  wakes : ∀ w ∈ σ.wakes, w.1 ≤ σ.expiry.length
  first : ∀ {i t}, σ.expiry[i]? = some t → ∀ u, (i, u) ∈ σ.ran ↔ σ.firstWake i t = some u

theorem mem_finished {σ : State} {e : Nat × Nat} :
    e ∈ σ.finished ↔ e.1 = σ.expiry.getD e.2 0 ∧ ∃ u, (e.2, u) ∈ σ.ran := by
  unfold finished
  rw [mem_map]
  constructor
  · rintro ⟨r, hr, rfl⟩
    exact ⟨rfl, r.2, hr⟩
  · rintro ⟨ht, u, hu⟩
    exact ⟨(e.2, u), hu, Prod.ext ht.symm rfl⟩

variable {tasks : SleepingTasks Nat}

theorem firstWake_wake {σ : State} {i t : Nat} {ran : List (Nat × Nat)} (hi : i < σ.expiry.length) :
    firstWake { σ with
      tasks := tasks, wakes := σ.wakes ++ [(σ.expiry.length, σ.now)], ran := ran } i t =
      (σ.firstWake i t).or (if t ≤ σ.now then some σ.now else none) := by
  unfold firstWake
  rw [find?_append, map_or, find?_singleton, decide_eq_true hi]
  split
  · next hle => rw [if_pos (of_decide_eq_true hle)]; rfl
  · next hgt => rw [if_neg fun hle => hgt (decide_eq_true hle)]; rfl

namespace Inv

variable {σ : State}

section

variable (h : σ.Inv)

include h

theorem lt_length {e : Nat × Nat} (he : e ∈ σ.finished ++ σ.tasks.agenda.entries) :
    e.2 < σ.expiry.length :=
  (List.getElem?_eq_some_iff.mp ((h.requests e.2 e.1).mp he)).1

theorem ran_lt {r : Nat × Nat} (hr : r ∈ σ.ran) : r.1 < σ.expiry.length :=
  h.lt_length (e := (σ.expiry.getD r.1 0, r.1)) (mem_append_left _ (mem_map.mpr ⟨r, hr, rfl⟩))

theorem pending_iff {i t : Nat} (hi : σ.expiry[i]? = some t) :
    (t, i) ∈ σ.tasks.agenda.entries ↔ ∀ u, (i, u) ∉ σ.ran := by
  have hmem : (t, i) ∈ σ.finished ↔ ∃ u, (i, u) ∈ σ.ran := by
    rw [mem_finished, getD_eq_getElem?_getD, hi]
    exact and_iff_right rfl
  rw [← not_exists, ← hmem]
  constructor
  · intro hpending hfinished
    exact ((pairwise_append.mp h.ordered).2.2 _ hfinished _ hpending).ne rfl
  · intro hnot
    exact (mem_append.mp ((h.requests i t).mpr hi)).resolve_left hnot

/-- **A request keeps the invariant**: it comes after what has run, and among what is pending it
has the place of its expiry time. -/
theorem request {t : Nat} (hagenda : tasks.agenda = σ.tasks.agenda.insert t σ.expiry.length)
    (hbase : tasks.baseTime ≤ σ.now) (hmono : ∀ e ∈ σ.finished, e.1 ≤ tasks.baseTime)
    (ht : tasks.baseTime ≤ t) : Inv { σ with tasks := tasks, expiry := σ.expiry ++ [t] } := by
  have hfinished : finished { σ with tasks := tasks, expiry := σ.expiry ++ [t] } = σ.finished := by
    refine map_congr_left fun r hr => ?_
    rw [getD_append _ _ _ _ (h.ran_lt hr)]
  have hmax : ∀ e ∈ σ.tasks.agenda.entries, e.2 < σ.expiry.length := fun e he =>
    h.lt_length (mem_append_right _ he)
  obtain ⟨hbefore, hpending, hcross⟩ := pairwise_append.mp h.ordered
  refine ⟨h.clock, hbase, by rw [hfinished]; exact hmono, ?_, fun i u => ?_, fun w hw => ?_, ?_⟩
  · rw [hfinished, hagenda]
    refine pairwise_append.mpr ⟨hbefore, insert_before hpending hmax, ?_⟩
    intro e he e' he'
    rcases mem_insert.mp he' with rfl | he'
    · rcases ((hmono e he).trans ht).lt_or_eq with hlt | heq
      · exact .inl hlt
      · exact .inr ⟨heq, h.lt_length (mem_append_left _ he)⟩
    · exact hcross e he e' he'
  · rw [hfinished, hagenda, mem_append, mem_insert, or_left_comm, ← mem_append, h.requests]
    rcases lt_trichotomy i σ.expiry.length with hlt | rfl | hgt
    · rw [getElem?_append_left hlt]
      exact or_iff_right fun heq => absurd (congrArg Prod.snd heq) hlt.ne
    · rw [getElem?_append_right le_rfl, Nat.sub_self, getElem?_eq_none le_rfl]
      refine ⟨fun hor => ?_, fun heq => .inl (Prod.ext (some.inj heq).symm rfl)⟩
      rcases hor with heq | hnone
      · exact congrArg some (congrArg Prod.fst heq).symm
      · cases hnone
    · rw [getElem?_eq_none hgt.le, getElem?_eq_none (by simp; omega)]
      refine iff_of_false ?_ (by simp)
      rintro (heq | hnone)
      · exact absurd (congrArg Prod.snd heq) hgt.ne'
      · cases hnone
  · exact (h.wakes w hw).trans (by simp)
  · intro i u hu v
    rcases lt_or_ge i σ.expiry.length with hlt | hge
    · rw [getElem?_append_left hlt] at hu
      exact h.first hu v
    -- the new request: no call of `wake_task` came after it
    refine iff_of_false (fun hran => absurd (h.ran_lt hran) (not_lt.mpr hge)) fun hfirst => ?_
    obtain ⟨w, hw, -⟩ := map_eq_some_iff.mp hfirst
    have hlt := find?_some hw
    rw [Bool.and_eq_true, decide_eq_true_iff] at hlt
    exact absurd (hlt.1.trans_le (h.wakes w (mem_of_find?_eq_some hw))) (not_lt.mpr hge)

/-- **A call of `wake_task` keeps the invariant.** -/
theorem wake : Inv { σ with
      tasks := (σ.tasks.wakeTask σ.now).1
      wakes := σ.wakes ++ [(σ.expiry.length, σ.now)]
      ran := σ.ran ++ (σ.tasks.wakeTask σ.now).2.map fun i => (i, σ.now) } := by
  obtain ⟨hran, hlater, hmono, hbase, hdue⟩ := wakeTask_spec h.base h.clock
  set σ' : State := { σ with
    tasks := (σ.tasks.wakeTask σ.now).1
    wakes := σ.wakes ++ [(σ.expiry.length, σ.now)]
    ran := σ.ran ++ (σ.tasks.wakeTask σ.now).2.map fun i => (i, σ.now) } with hσ'
  have hentry : ∀ e ∈ σ.tasks.agenda.entries, σ.expiry[e.2]? = some e.1 := fun e he =>
    (h.requests e.2 e.1).mp (mem_append_right _ he)
  have hfinished : σ'.finished = σ.finished ++ σ.tasks.agenda.due σ.now := by
    change (σ.ran ++ (σ.tasks.wakeTask σ.now).2.map fun i => (i, σ.now)).map _ = _
    rw [map_append, hran, map_map, map_map]
    refine congrArg (σ.finished ++ ·) ((map_congr_left fun e he => ?_).trans (map_id _))
    refine Prod.ext ?_ rfl
    change σ.expiry.getD e.2 0 = e.1
    rw [getD_eq_getElem?_getD, hentry e (mem_due.mp he).1, getD_some]
  have hall : σ'.finished ++ σ'.tasks.agenda.entries = σ.finished ++ σ.tasks.agenda.entries := by
    rw [hfinished, hlater, append_assoc, due_append_later]
  refine ⟨h.clock, hbase, ?_, hall ▸ h.ordered, fun i t => hall ▸ h.requests i t, ?_, ?_⟩
  · rw [hfinished]
    intro e he
    rcases mem_append.mp he with he | he
    · exact (h.finished_le e he).trans hmono
    · exact hdue e he
  · intro w hw
    rcases mem_append.mp hw with hw | hw
    · exact h.wakes w hw
    · rw [mem_singleton.mp hw]
  · intro i t hi u
    have hnew : (i, u) ∈ (σ.tasks.wakeTask σ.now).2.map (fun i => (i, σ.now)) ↔
        (∀ v, (i, v) ∉ σ.ran) ∧ t ≤ σ.now ∧ u = σ.now := by
      rw [hran, map_map, mem_map, ← h.pending_iff hi]
      constructor
      · rintro ⟨e, he, heq⟩
        obtain ⟨hpending, hle⟩ := mem_due.mp he
        obtain rfl : e.2 = i := congrArg Prod.fst heq
        obtain rfl : e.1 = t := some.inj ((hentry e hpending).symm.trans hi)
        exact ⟨hpending, hle, (congrArg Prod.snd heq).symm⟩
      · rintro ⟨hpending, hle, rfl⟩
        exact ⟨(t, i), mem_due.mpr ⟨hpending, hle⟩, rfl⟩
    have hwake : σ'.firstWake i t = (σ.firstWake i t).or (if t ≤ σ.now then some σ.now else none) :=
      firstWake_wake (List.getElem?_eq_some_iff.mp hi).1
    rw [mem_append, hnew, hwake, h.first hi]
    cases hfirst : σ.firstWake i t with
    | some v =>
      -- the handler has run before
      refine or_iff_left fun hnot => ?_
      exact hnot.1 v ((h.first hi v).mpr hfirst)
    | none =>
      have hnot : ∀ v, (i, v) ∉ σ.ran := fun v hv =>
        absurd (hfirst.symm.trans ((h.first hi v).mp hv)) nofun
      split
      · next hle => exact ⟨fun hor => congrArg some (hor.resolve_left nofun).2.2.symm,
          fun heq => .inr ⟨hnot, hle, (some.inj heq).symm⟩⟩
      · next hgt => exact iff_of_false (fun hor => hgt (hor.resolve_left nofun).2.1) nofun

theorem step {a : Action} {σ' : State} (hfits : σ.Fits a)
    (hstep : σ.step a = some σ') : σ'.Inv := by
  cases a with
  | advance nanos =>
    cases hstep
    exact ⟨hfits, h.base.trans (Nat.le_add_right _ _), h.finished_le, h.ordered, h.requests,
      h.wakes, h.first⟩
  | sleepTask dur =>
    obtain ⟨tasks, htasks, hagenda, hmono, hbase⟩ := sleepTask_spec h.base hfits σ.expiry.length
    obtain rfl := some.inj (hstep.symm.trans (congrArg (Option.map _) htasks))
    refine h.request hagenda hbase ?_ (hbase.trans (Nat.le_add_right _ _))
    exact fun e he => (h.finished_le e he).trans hmono
  | sleepUntilTask next =>
    cases hstep
    have hbase := σ.tasks.sleepUntilTask_baseTime σ.now σ.expiry.length next h.base
    refine h.request (agenda_sleepUntilTask hfits _) hbase.2 ?_ (le_max_right _ _)
    exact fun e he => (h.finished_le e he).trans hbase.1
  | wakeTask =>
    cases hstep
    exact h.wake

end

theorem init : State.init.Inv :=
  ⟨by decide, le_rfl, nofun, .nil, fun i t => iff_of_false nofun nofun, nofun, nofun⟩

theorem of_reaches (h : Reaches State.step Fits State.init σ) : σ.Inv :=
  h.invariant (I := Inv) .init fun _ _ _ hI hok hs => hI.step hok hs

end Inv

/-- **The timer service.** In every state of every run whose times fit in 64 bits:

* the base time plus the sums of the differences in the list are the expiry times of the requests
  whose handlers have not run, in order, and in the order of insertion among equal times;
* no handler has run twice, and a handler has run exactly if there was a call of `wake_task`
  after its request that had reached its expiry time, in the first such call;
* the handlers have run in the order of their expiry times, and of insertion among equal times;
* `time_to_wait` is the time from now to the first expiry time, zero if that is past, and `None`
  if nothing is pending. -/
theorem timer_service {σ : State} (h : Reaches State.step Fits State.init σ) :
    ((∀ i t, (t, i) ∈ σ.tasks.deltaList.expiries σ.tasks.baseTime ↔
        σ.expiry[i]? = some t ∧ ∀ u, (i, u) ∉ σ.ran) ∧
      (σ.tasks.deltaList.expiries σ.tasks.baseTime).Pairwise Agenda.Before) ∧
    ((σ.ran.map Prod.fst).Nodup ∧ (∀ r ∈ σ.ran, r.1 < σ.expiry.length) ∧
      ∀ {i t}, σ.expiry[i]? = some t → ∀ u, (i, u) ∈ σ.ran ↔ σ.firstWake i t = some u) ∧
    σ.finished.Pairwise Agenda.Before ∧
    (σ.tasks.timeToWait σ.now = none ↔ ∀ i < σ.expiry.length, ∃ u, (i, u) ∈ σ.ran) ∧
    ∀ {i t}, σ.expiry[i]? = some t → (∀ u, (i, u) ∉ σ.ran) →
      (∀ j t', σ.expiry[j]? = some t' → (∀ u, (j, u) ∉ σ.ran) → t ≤ t') →
      σ.tasks.timeToWait σ.now = some (t - σ.now) := by
  have hinv := Inv.of_reaches h
  obtain ⟨hfinished, hpending, -⟩ := pairwise_append.mp hinv.ordered
  have hmem : ∀ i t, (t, i) ∈ σ.tasks.agenda.entries ↔
      σ.expiry[i]? = some t ∧ ∀ u, (i, u) ∉ σ.ran := by
    intro i t
    constructor
    · intro hmem
      have hi := (hinv.requests i t).mp (mem_append_right _ hmem)
      exact ⟨hi, (hinv.pending_iff hi).mp hmem⟩
    · rintro ⟨hi, hnot⟩
      exact (hinv.pending_iff hi).mpr hnot
  refine ⟨⟨hmem, hpending⟩, ⟨?_, fun r hr => hinv.ran_lt hr, hinv.first⟩, hfinished, ?_, ?_⟩
  · -- two runs of one handler would have one place in the order
    refine pairwise_map.mpr ((pairwise_map.mp hfinished).imp fun hbefore heq => ?_)
    exact hbefore.ne (by rw [heq])
  · rw [timeToWait_eq hinv.base hinv.clock, map_eq_none_iff,
      first_eq_none, eq_nil_iff_forall_not_mem]
    constructor
    · intro hnone i hi
      by_contra hnot
      refine hnone (σ.expiry[i], i) ((hmem _ _).mpr ⟨getElem?_eq_getElem hi, fun u hu => ?_⟩)
      exact hnot ⟨u, hu⟩
    · rintro hall ⟨t, i⟩ he
      obtain ⟨hi, hnot⟩ := (hmem i t).mp he
      obtain ⟨u, hu⟩ := hall i (List.getElem?_eq_some_iff.mp hi).1
      exact hnot u hu
  · intro i t hi hnot hmin
    rw [timeToWait_eq hinv.base hinv.clock]
    have hfirst : σ.tasks.agenda.first = some t := by
      refine first_eq_some.mpr ⟨⟨i, (hmem i t).mpr ⟨hi, hnot⟩⟩, fun e he => ?_⟩
      obtain ⟨hj, hnotj⟩ := (hmem e.2 e.1).mp he
      exact hmin e.2 e.1 hj hnotj
    rw [hfirst, map_some]

/-- Four requests, the last for a time that is past; two calls of `wake_task`. -/
def fourRequests : List Action :=
  [.advance 5, .sleepTask 10, .sleepTask 4, .sleepUntilTask 15, .advance 6, .wakeTask,
    .sleepUntilTask 3, .advance 10, .wakeTask]

instance : DecidableRel Fits := fun _ a => by
  induction a using Action.casesOn <;> dsimp only [Fits] <;> infer_instance

/-- The run of `fourRequests`: the second request is run first, and the request for a past time
before the two that expire together, which are run in the order of insertion. -/
theorem timer_service_fourRequests : ∃ σ : State,
    Reaches State.step Fits State.init σ ∧ σ.expiry = [15, 9, 15, 9] ∧
      σ.ran = [(1, 11), (3, 21), (0, 21), (2, 21)] ∧ σ.finished.Pairwise Agenda.Before := by
  refine Reaches.exists_of_run_imp fourRequests (fun σ => σ.expiry = [15, 9, 15, 9] ∧
    σ.ran = [(1, 11), (3, 21), (0, 21), (2, 21)]) (by decide) ?_
  rintro σ hreach ⟨hexpiry, hran⟩
  exact ⟨hexpiry, hran, (timer_service hreach).2.2.1⟩

/-! ### Long sleeps -/

/-- The time a request asks for. -/
def requested (σ : State) : Action → Nat
  | .sleepTask dur => σ.now + dur
  | .sleepUntilTask next => next
  | _ => 0

/-- A run only adds requests. -/
theorem expiry_append {σ σ' : State} (h : Reaches step Fits σ σ') :
    ∃ later, σ'.expiry = σ.expiry ++ later := by
  refine h.invariant (I := fun σ' => ∃ later, σ'.expiry = σ.expiry ++ later)
    ⟨[], (append_nil _).symm⟩ ?_
  rintro σ₁ a σ₂ ⟨later, hlater⟩ - hs
  cases a with
  | advance | wakeTask =>
    cases hs
    exact ⟨later, hlater⟩
  | sleepUntilTask =>
    cases hs
    exact ⟨_, (congrArg (· ++ _) hlater).trans (append_assoc ..)⟩
  | sleepTask =>
    obtain ⟨tasks, -, rfl⟩ := map_eq_some_iff.mp hs
    exact ⟨_, (congrArg (· ++ _) hlater).trans (append_assoc ..)⟩

/-- A call whose times fit in 64 bits does not panic. -/
theorem Inv.exists_step {σ : State} {a : Action} (h : σ.Inv) (hfits : Fits σ a) :
    ∃ σ', σ.step a = some σ' := by
  cases a with
  | advance | sleepUntilTask | wakeTask => exact ⟨_, rfl⟩
  | sleepTask dur =>
    obtain ⟨tasks, htasks, -⟩ := sleepTask_spec h.base hfits σ.expiry.length
    exact ⟨_, congrArg (Option.map _) htasks⟩

/-- **No sleep is cut short** if the times fit in 64 bits: the call does not panic, and in no run
from there is the handler run before the requested time. -/
theorem sleeps_in_full {σ : State} {a : Action} (h : Reaches step Fits init σ)
    (hfits : Fits σ a) : ∃ σ₁, σ.step a = some σ₁ ∧
      ∀ σ₂, Reaches step Fits σ₁ σ₂ →
        ∀ u, (σ.expiry.length, u) ∈ σ₂.ran → σ.requested a ≤ u := by
  obtain ⟨σ₁, hs⟩ := (Inv.of_reaches h).exists_step hfits
  refine ⟨σ₁, hs, fun σ₂ hrun u hran => ?_⟩
  have hlast := Inv.of_reaches ((h.tail hfits hs).trans hrun)
  obtain ⟨later, hlater⟩ := expiry_append hrun
  -- a handler has run in a call of `wake_task` that had reached its expiry time
  have hwait : ∀ {t}, σ₁.expiry = σ.expiry ++ [t] → t ≤ u := by
    intro t ht
    have hi : σ₂.expiry[σ.expiry.length]? = some t := by simp [hlater, ht]
    obtain ⟨w, hw, rfl⟩ := map_eq_some_iff.mp ((hlast.first hi u).mp hran)
    have := find?_some hw
    rw [Bool.and_eq_true, decide_eq_true_iff, decide_eq_true_iff] at this
    exact this.2
  cases a with
  | advance | wakeTask => exact Nat.zero_le u
  | sleepUntilTask next =>
    cases hs
    exact (le_max_left _ _).trans (hwait rfl)
  | sleepTask dur =>
    obtain ⟨tasks, -, rfl⟩ := map_eq_some_iff.mp hs
    exact hwait rfl

/-- A sleep of 4 that is asked for at 8, while one that expires at 15 is pending: the call of
`wake_task` at 11 does not run it, and the one at 13 does. -/
theorem sleeps_in_full_pending : ∃ σ σ₁ σ₂ : State,
    run step init [.advance 5, .sleepTask 10, .advance 3] = some σ ∧
      σ.step (.sleepTask 4) = some σ₁ ∧
      run step σ₁ [.advance 3, .wakeTask, .advance 2, .wakeTask] = some σ₂ ∧
      σ₂.ran = [(1, 13)] ∧ ∀ u, (1, u) ∈ σ₂.ran → σ.requested (.sleepTask 4) ≤ u := by
  have hreach : Reaches step Fits init _ := .of_run
    (show run (guarded step Fits) init [.advance 5, .sleepTask 10, .advance 3] = some _ from rfl)
  obtain ⟨σ₁, hs, hfull⟩ := sleeps_in_full hreach (a := .sleepTask 4) (by decide)
  obtain rfl := some.inj hs
  refine ⟨_, _, _, rfl, rfl, rfl, by decide, hfull _ (.of_run (?_ :
    run (guarded step Fits) _ [.advance 3, .wakeTask, .advance 2, .wakeTask] = some _))⟩
  rfl

/-- **Long sleeps are cut short.** The nanoseconds are narrowed to 64 bits: a sleep of `2 ^ 64`
nanoseconds is over at once. A longer one panics if another timer is pending. -/
theorem long_sleep_cut_short : (∃ σ : State, Reaches step (fun _ _ => True) init σ ∧
      σ.expiry = [2 ^ 64] ∧ σ.ran = [(0, 0)]) ∧
    ∃ σ : State, Reaches step (fun _ _ => True) init σ ∧
      σ.step (.sleepTask (2 ^ 64 * 10 ^ 9 - 1)) = none := by
  constructor
  · exact Reaches.exists_of_run [.sleepTask (2 ^ 64), .wakeTask] (by decide)
  have hsleep : Reaches step (fun _ _ => True) init _ :=
    .tail .refl trivial (a := .sleepTask 1) rfl
  exact ⟨_, hsleep.tail trivial (a := .advance 1) rfl, rfl⟩

end State

end Timer

end Awkernel
