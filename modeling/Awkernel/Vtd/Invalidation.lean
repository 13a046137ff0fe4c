import Awkernel.Lib.TransitionSystem
import Mathlib.Data.List.Basic
import Mathlib.Order.Basic

/-!
# Waiting for the invalidation queue of VT-d

`awkernel_lib/src/arch/x86_64/interrupt_remap.rs`: an entry of the interrupt remapping cache is
invalidated by a descriptor in a queue of the remapping unit. `wait_invalidation_complete` pushes a
wait descriptor behind it, for which the unit writes 1 to a status word, and polls the word.

The unit has one status word. A call that gives up leaves its wait descriptor in the queue, and
when the unit comes to it, the next call takes the write for its own: it returns `Ok` with its
descriptors still in the queue (`stale_wait_confirms`). If no wait descriptor is left in the queue
when the word is cleared, then `Ok` means that everything pushed before has been processed
(`wait_sound`).
-/

namespace Awkernel.Vtd

open TransitionSystem

inductive InvalidationDescriptor
  | interruptEntryCacheInvalidation (index : UInt16) (granularity : Nat)
  /-- The wait descriptor that writes 1 to the status word. -/
  | invalidationWait
  deriving DecidableEq

inductive VtdError
  | queueFull
  | dmaAllocationFailed
  | faultStatus
  | timeout
  deriving DecidableEq

/-- `QUEUE_ENTRIES`. -/
def queueEntries : Nat := 256

/-- Where the caller is. `start` is the number of the descriptors that had been pushed when
`wait_invalidation_complete` was called. -/
inductive Pc
  | idle
  /-- Before the status word is cleared. -/
  | clear (start : Nat)
  | pushWait (start : Nat)
  | polling (start left : Nat)
  deriving DecidableEq

/-- A remapping unit and the caller. -/
structure VtdUnit where
  /-- The descriptors that the unit has processed. -/
  processed : Nat
  /-- The descriptors from `IQH` to `IQT`. -/
  queue : List InvalidationDescriptor
  status : Nat
  pc : Pc
  /-- What `wait_invalidation_complete` has returned, with its `start`. -/
  returned : Option (Except VtdError Nat)

def VtdUnit.new : VtdUnit := ⟨0, [], 0, .idle, none⟩

inductive Action
  /-- The unit processes a descriptor. -/
  | process
  /-- `invalidate_interrupt_entry`, for an index, or `invalidate_all_interrupt_entries`. -/
  | invalidate (index : Option UInt16)
  /-- The status word is cleared; `pool` says whether there is memory for it. -/
  | clear (pool : Bool)
  | pushWait
  /-- One look at the fault status and at the status word. -/
  | poll (fault : Bool)

namespace VtdUnit

/-- The number of the descriptors that have been pushed. -/
def pushed (u : VtdUnit) : Nat := u.processed + u.queue.length

/-- The indices behind `IQH` and `IQT`. -/
def headIdx (u : VtdUnit) : Nat := u.processed % queueEntries
def tailIdx (u : VtdUnit) : Nat := u.pushed % queueEntries

/-- `push_invalidation_descriptor`. -/
def push (u : VtdUnit) (d : InvalidationDescriptor) : Option VtdUnit :=
  if (u.tailIdx + 1) % queueEntries = u.headIdx then none
  else some { u with queue := u.queue ++ [d] }

def leave (u : VtdUnit) (result : Except VtdError Nat) : VtdUnit :=
  { u with pc := .idle, returned := some result }

/-- The descriptor of an invalidation. -/
def descriptor : Option UInt16 → InvalidationDescriptor
  | some index => .interruptEntryCacheInvalidation index 1
  | none => .interruptEntryCacheInvalidation 0 0

def step (u : VtdUnit) : Action → Option VtdUnit
  | .process =>
    match u.queue with
    | [] => none
    | d :: queue =>
      some { u with
        processed := u.processed + 1, queue
        status := if d = .invalidationWait then 1 else u.status }
  | .invalidate index =>
    if u.pc = .idle then
      match u.push (descriptor index) with
      | none => some (u.leave (.error .queueFull))
      | some u => some { u with pc := .clear u.pushed }
    else none
  | .clear pool =>
    match u.pc with
    | .clear start =>
      if pool then some { u with status := 0, pc := .pushWait start }
      else some (u.leave (.error .dmaAllocationFailed))
    | _ => none
  | .pushWait =>
    match u.pc with
    | .pushWait start =>
      match u.push .invalidationWait with
      | none => some (u.leave (.error .queueFull))
      | some u => some { u with pc := .polling start 10000 }
    | _ => none
  | .poll fault =>
    match u.pc with
    | .polling start (left + 1) =>
      if fault then some (u.leave (.error .faultStatus))
      else if u.status ≠ 0 then some (u.leave (.ok start))
      else some { u with pc := .polling start left }
    | .polling _ 0 => some (u.leave (.error .timeout))
    | _ => none

/-- No wait descriptor is in the queue when the status word is cleared. -/
def NoStaleWait (u : VtdUnit) : Action → Prop
  | .clear _ => .invalidationWait ∉ u.queue
  | _ => True

instance (u : VtdUnit) : ∀ a, Decidable (u.NoStaleWait a)
  | .clear _ => inferInstanceAs (Decidable (_ ∉ _))
  | .process | .invalidate _ | .pushWait | .poll _ => .isTrue trivial

/-- What the status word says in each state of the caller. While it polls, the wait descriptor of
the call is the last one in the queue and the only one. -/
def PcOk (u : VtdUnit) : Pc → Prop
  | .idle => True
  | .clear start => start ≤ u.pushed
  | .pushWait start => start ≤ u.pushed ∧ u.status = 0 ∧ .invalidationWait ∉ u.queue
  | .polling start _ => start ≤ u.pushed ∧ (u.queue = [] ∨ u.status = 0 ∧
      ∃ ds, u.queue = ds ++ [.invalidationWait] ∧ .invalidationWait ∉ ds)

structure Inv (u : VtdUnit) : Prop where
  pc : u.PcOk u.pc
  returned : ∀ start, u.returned = some (.ok start) → start ≤ u.processed

variable {u u' : VtdUnit} {d : InvalidationDescriptor}

theorem inv_leave {result : Except VtdError Nat}
    (hok : ∀ start, result = .ok start → start ≤ u.processed) : Inv (u.leave result) :=
  ⟨trivial, fun start heq => hok start (Option.some.inj heq)⟩

theorem push_eq_some (h : u.push d = some u') : u' = { u with queue := u.queue ++ [d] } := by
  unfold push at h
  split at h
  · cases h
  · exact (Option.some.inj h).symm

theorem PcOk.process {queue : List InvalidationDescriptor} {pc : Pc}
    (hqueue : u.queue = d :: queue) (h : u.PcOk pc) :
    PcOk { u with
      processed := u.processed + 1, queue
      status := if d = .invalidationWait then 1 else u.status } pc := by
  have hpushed : u.pushed = u.processed + 1 + queue.length := by
    rw [pushed, hqueue, List.length_cons]
    omega
  cases pc with
  | idle => trivial
  | clear start => exact h.trans_eq hpushed
  | pushWait start =>
    obtain ⟨hstart, hstatus, hnone⟩ := h
    rw [hqueue, List.mem_cons, not_or] at hnone
    exact ⟨hstart.trans_eq hpushed, (if_neg (Ne.symm hnone.1)).trans hstatus, hnone.2⟩
  | polling start left =>
    obtain ⟨hstart, hnil | ⟨hstatus, ds, hds, hnone⟩⟩ := h
    · rw [hqueue] at hnil; cases hnil
    refine ⟨hstart.trans_eq hpushed, ?_⟩
    rw [hqueue] at hds
    cases ds with
    | nil => cases hds; exact .inl rfl
    | cons d' ds =>
      cases hds
      rw [List.mem_cons, not_or] at hnone
      exact .inr ⟨(if_neg (Ne.symm hnone.1)).trans hstatus, ds, rfl, hnone.2⟩

/-- While a call polls, its wait is the only one in the queue. -/
theorem Inv.step (h : Inv u) {a : Action} (hok : u.NoStaleWait a) (hstep : u.step a = some u') :
    Inv u' := by
  have hpcOk := h.pc
  cases a with
  | process =>
    dsimp only [VtdUnit.step] at hstep
    split at hstep
    · cases hstep
    rename_i d queue hqueue
    cases hstep
    exact ⟨hpcOk.process hqueue, fun start hr => Nat.le_succ_of_le (h.returned start hr)⟩
  | invalidate index =>
    obtain ⟨-, hstep⟩ := Option.ite_none_right_eq_some.mp hstep
    split at hstep <;> cases hstep
    · exact inv_leave nofun
    rename_i u₁ hpush
    obtain rfl := push_eq_some hpush
    exact ⟨Nat.le_refl _, h.returned⟩
  | clear pool =>
    dsimp only [VtdUnit.step] at hstep
    split at hstep
    · next start hpc =>
      rw [hpc] at hpcOk
      split at hstep <;> cases hstep
      · exact ⟨⟨hpcOk, rfl, hok⟩, h.returned⟩
      · exact inv_leave nofun
    · cases hstep
  | pushWait =>
    dsimp only [VtdUnit.step] at hstep
    split at hstep
    · next start hpc =>
      rw [hpc] at hpcOk
      obtain ⟨hstart, hstatus, hnone⟩ := hpcOk
      split at hstep <;> cases hstep
      · exact inv_leave nofun
      rename_i u₁ hpush
      obtain rfl := push_eq_some hpush
      refine ⟨⟨Nat.le_trans hstart ?_, .inr ⟨hstatus, _, rfl, hnone⟩⟩, h.returned⟩
      exact Nat.add_le_add_left (by simp) _
    · cases hstep
  | poll fault =>
    dsimp only [VtdUnit.step] at hstep
    split at hstep
    · next start left hpc =>
      rw [hpc] at hpcOk
      split at hstep
      · cases hstep; exact inv_leave nofun
      split at hstep <;> cases hstep
      · next hset =>
        refine inv_leave fun start' heq => ?_
        cases heq
        -- the word is set, so the queue is empty
        obtain ⟨hstart, hnil | ⟨hzero, -⟩⟩ := hpcOk
        · simpa [pushed, hnil] using hstart
        · exact absurd hzero hset
      · exact ⟨hpcOk, h.returned⟩
    · cases hstep; exact inv_leave nofun
    · cases hstep

end VtdUnit

/-- **A confirmed invalidation has been processed**, with all the descriptors before it. -/
theorem wait_sound {u : VtdUnit} (h : Reaches VtdUnit.step VtdUnit.NoStaleWait .new u) {start : Nat}
    (hok : u.returned = some (.ok start)) : start ≤ u.processed := by
  have hinv : u.Inv := h.invariant ⟨trivial, nofun⟩ fun _ _ _ h hok hs => h.step hok hs
  exact hinv.returned start hok

/-- A call gives up because of a fault, and the unit then processes its two descriptors. The next
call polls once before the unit comes to its wait descriptor. -/
theorem wait_sound_afterFault : ∃ u, Reaches VtdUnit.step VtdUnit.NoStaleWait .new u ∧
    u.returned = some (.ok 3) ∧ 3 ≤ u.processed := by
  obtain ⟨u, hreach, hok⟩ : ∃ u, Reaches VtdUnit.step VtdUnit.NoStaleWait .new u ∧
      u.returned = some (.ok 3) :=
    Reaches.exists_of_run
      [.invalidate (some 3), .clear true, .pushWait, .poll true, .process, .process,
        .invalidate none, .clear true, .pushWait, .process, .poll false, .process, .poll false]
      (by decide)
  exact ⟨u, hreach, hok, wait_sound hreach hok⟩

/-- A caller that polls a word which stays 0 times out. -/
theorem reaches_timeout (u : VtdUnit) (hstatus : u.status = 0) (start left : Nat) :
    Reaches VtdUnit.step (fun _ _ => True) { u with pc := .polling start left }
      (u.leave (.error .timeout)) := by
  induction left with
  | zero => exact .tail (a := .poll false) .refl trivial rfl
  | succ left ih =>
    refine (Reaches.tail (a := .poll false) .refl trivial ?_).trans ih
    simp [VtdUnit.step, hstatus]

/-- **The wait of an abandoned call confirms a later one.** The first call gives up with its two
descriptors in the queue. The second one pushes two more, the unit processes the first two, and the
second call returns `Ok`: two of the three descriptors before its wait have been processed. -/
theorem stale_wait_confirms : ∃ u, Reaches VtdUnit.step (fun _ _ => True) .new u ∧
    u.returned = some (.ok 3) ∧ u.processed = 2 := by
  let u₁ : VtdUnit :=
    ⟨0, [VtdUnit.descriptor (some 3), .invalidationWait], 0, .polling 1 10000, none⟩
  have hrun : run (guarded VtdUnit.step fun _ _ => True) .new
      [.invalidate (some 3), .clear true, .pushWait] = some u₁ := rfl
  obtain ⟨u, hreach, hu⟩ : ∃ u, Reaches VtdUnit.step (fun _ _ => True)
      (u₁.leave (.error .timeout)) u ∧ u.returned = some (.ok 3) ∧ u.processed = 2 :=
    Reaches.exists_of_run
      [.invalidate (some 4), .clear true, .pushWait, .process, .process, .poll false] (by decide)
  exact ⟨u, ((Reaches.of_run hrun).trans (reaches_timeout u₁ rfl 1 10000)).trans hreach, hu⟩

end Awkernel.Vtd
