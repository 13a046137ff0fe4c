import Awkernel.Lib.TransitionSystem
import Mathlib.Tactic.NormNum

/-!
# The time accounting of a CPU

`perf` of `awkernel_async_lib/src/task.rs`, for one CPU. Every state change adds the interval since
the last one to the bucket of the state that is left, and its own time to that of `perf`; the next
interval begins where this one ends. So the times add up to the last reading of the counter minus
the first one (`time_accounted`), and no sum leaves the range of the counter.
-/

namespace Awkernel

open TransitionSystem Function

/-- `PerfState`. -/
inductive PerfState
  | boot
  | kernel
  | task
  | contextSwitch
  | contextSwitchMain
  | interrupt
  | idle
  deriving DecidableEq

/-- `*_TIME`, `*_COUNT` and `*_WCET`, and the intervals that were added. -/
structure PerfBucket where
  time : Nat
  count : Nat
  wcet : Nat
  intervals : List Nat
  time_eq : time = intervals.sum
  wcet_eq : wcet = intervals.foldr max 0

namespace PerfBucket

def empty : PerfBucket := ⟨0, 0, 0, [], rfl, rfl⟩

def add (b : PerfBucket) (diff : Nat) : PerfBucket where
  time := b.time + diff
  count := b.count + 1
  wcet := max b.wcet diff
  intervals := diff :: b.intervals
  time_eq := by rw [List.sum_cons, b.time_eq, Nat.add_comm]
  wcet_eq := by rw [List.foldr_cons, ← b.wcet_eq, max_comm]

end PerfBucket

/-- The statics of one CPU. -/
structure Perf where
  state : PerfState
  startTime : Nat
  bucket : PerfState → PerfBucket
  perf : PerfBucket

namespace Perf

def init : Perf := ⟨.boot, 0, fun _ => .empty, .empty⟩

/-- `update_time_and_state`, where the counter is read as `end_` and then as `cnt`. -/
def updateTimeAndState (p : Perf) (end_ cnt : Nat) (next : PerfState) : Perf :=
  if p.state = next then p
  else {
    state := next
    startTime := cnt
    bucket := if 0 < p.startTime ∧ p.startTime ≤ end_ ∧ p.state ≠ .boot
      then update p.bucket p.state ((p.bucket p.state).add (end_ - p.startTime)) else p.bucket
    perf := p.perf.add (cnt - end_) }

section

variable (p : Perf) (end_ cnt : Nat)

def startKernel : Perf := p.updateTimeAndState end_ cnt .kernel
def startTask : Perf := p.updateTimeAndState end_ cnt .task
def startContextSwitch : Perf := p.updateTimeAndState end_ cnt .contextSwitch
def startContextSwitchMain : Perf := p.updateTimeAndState end_ cnt .contextSwitchMain
def startIdle : Perf := p.updateTimeAndState end_ cnt .idle

/-- `start_interrupt`, with the previous state. -/
def startInterrupt : PerfState × Perf := (p.state, p.updateTimeAndState end_ cnt .interrupt)

/-- `transition_to`; `none` is `unreachable!()`. -/
def transitionTo : PerfState → Option Perf
  | .boot => none
  | .kernel => some (p.startKernel end_ cnt)
  | .task => some (p.startTask end_ cnt)
  | .contextSwitch => some (p.startContextSwitch end_ cnt)
  | .contextSwitchMain => some (p.startContextSwitchMain end_ cnt)
  | .interrupt => some (p.startInterrupt end_ cnt).2
  | .idle => some (p.startIdle end_ cnt)

end

/-- The sum of the totals. -/
def total (p : Perf) : Nat :=
  (p.bucket .kernel).time + (p.bucket .task).time + (p.bucket .interrupt).time +
    (p.bucket .contextSwitch).time + (p.bucket .contextSwitchMain).time + (p.bucket .idle).time +
    p.perf.time

theorem transitionTo_eq (p : Perf) (end_ cnt : Nat) {next : PerfState} (h : next ≠ .boot) :
    p.transitionTo end_ cnt next = some (p.updateTimeAndState end_ cnt next) := by
  cases next with
  | boot => exact absurd rfl h
  | kernel | task | contextSwitch | contextSwitchMain | interrupt | idle => rfl

theorem state_updateTimeAndState (p : Perf) (end_ cnt : Nat) (next : PerfState) :
    (p.updateTimeAndState end_ cnt next).state = next := by
  unfold updateTimeAndState
  split
  · assumption
  · rfl

/-- A change of the state, and the two readings of the counter. Each of the calls is the
`transition_to` of its state. -/
structure Change where
  next : PerfState
  end_ : Nat
  cnt : Nat

/-- A step, with the last reading of the counter. -/
def step (σ : Perf × Nat) (a : Change) : Option (Perf × Nat) :=
  (σ.1.transitionTo a.end_ a.cnt a.next).map (·, a.cnt)

/-- The counter is monotone. -/
def Monotone (σ : Perf × Nat) (a : Change) : Prop := σ.2 ≤ a.end_ ∧ a.end_ ≤ a.cnt

structure Inv (first : Nat) (σ : Perf × Nat) : Prop where
  state : σ.1.state ≠ .boot
  pos : 0 < σ.1.startTime
  le : σ.1.startTime ≤ σ.2
  total : σ.1.total + first = σ.1.startTime

theorem Inv.step {first : Nat} {σ σ' : Perf × Nat} {a : Change} (h : Inv first σ)
    (ha : Monotone σ a) (hs : step σ a = some σ') : Inv first σ' := by
  have hnext : a.next ≠ .boot := fun hboot => by
    rw [Perf.step, hboot] at hs
    cases hs
  rw [Perf.step, transitionTo_eq _ _ _ hnext] at hs
  cases hs
  obtain ⟨⟨state, start, bucket, perf⟩, now⟩ := σ
  obtain ⟨hstate, hpos, hle, htotal⟩ := h
  obtain ⟨hend, hcnt⟩ := ha
  dsimp only at *
  unfold updateTimeAndState
  split
  · exact ⟨hstate, hpos, hle.trans (hend.trans hcnt), htotal⟩
  · refine ⟨hnext, hpos.trans_le (hle.trans (hend.trans hcnt)), le_rfl, ?_⟩
    dsimp only
    rw [if_pos ⟨hpos, hle.trans hend, hstate⟩]
    -- the interval goes to the bucket of the state that is left
    cases state with
    | boot => exact absurd rfl hstate
    | _ =>
      simp only [Perf.total, PerfBucket.add, update_apply, reduceCtorEq, if_true, if_false] at *
      omega

/-- **The time accounting.** After every sequence of state changes that begins with `start_kernel`,
with a counter that is positive and monotone: the totals add up to `START_TIME` minus the first
reading of the counter, the worst case of each bucket is the greatest interval that was added to
it, and `start_interrupt` and `transition_to` of its result restore the state. -/
theorem time_accounted {first cnt : Nat} (hpos : 0 < first) (hcnt : first ≤ cnt) {σ : Perf × Nat}
    (h : Reaches step Monotone (init.startKernel first cnt, cnt) σ) :
    σ.1.total + first = σ.1.startTime ∧
    (∀ s, (σ.1.bucket s).wcet = (σ.1.bucket s).intervals.foldr max 0) ∧
    σ.1.perf.wcet = σ.1.perf.intervals.foldr max 0 ∧
    ∀ end₁ cnt₁ end₂ cnt₂, ∃ p, (σ.1.startInterrupt end₁ cnt₁).2.transitionTo end₂ cnt₂
      (σ.1.startInterrupt end₁ cnt₁).1 = some p ∧ p.state = σ.1.state := by
  have hinit : Inv first (init.startKernel first cnt, cnt) := by
    refine ⟨nofun, hpos.trans_le hcnt, le_rfl, ?_⟩
    change 0 + (0 + (cnt - first)) + first = cnt
    omega
  have hinv := h.invariant hinit fun _ _ _ hI ha hs => hI.step ha hs
  refine ⟨hinv.total, fun s => (σ.1.bucket s).wcet_eq, σ.1.perf.wcet_eq, fun _ _ _ _ => ?_⟩
  exact ⟨_, transitionTo_eq _ _ _ hinv.state, state_updateTimeAndState ..⟩

theorem time_accounted_task : ((init.startKernel 5 7).startTask 9 10).total + 5 = 10 :=
  (time_accounted (by decide) (by decide)
    (.tail (a := ⟨.task, 9, 10⟩) .refl (show 7 ≤ 9 ∧ 9 ≤ 10 by decide) rfl)).1

end Perf

end Awkernel
