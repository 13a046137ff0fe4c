import Awkernel.Lib.Bitmap
import Awkernel.Lib.TransitionSystem

/-!
# Guards for the mode of the heap

Every CPU has a bit that says which allocators it uses: only the primary one, or the backup one as
well (`Talloc`, `awkernel_lib/src/heap.rs`). `Talloc::save` records the mode in a guard, to be
restored when the guard is dropped; `preemption` (`awkernel_async_lib/src/task/preempt.rs`) holds
such a guard while the thread waits to be resumed, maybe on another CPU.

A guard has the word of the CPU that saved and the bit of that CPU if it was set, and its drop is a
`fetch_or`. So a guard restores nothing if the mode was the one with the backup allocator
(`mode_not_restored`), and one that is dropped on another CPU sets the bit of the CPU that saved
(`other_mode_set`). What a drop does is right exactly under the condition `Restorable`
(`guards_restore_iff`).
-/

namespace Awkernel

open TransitionSystem Bitmap

namespace Heap

variable {W : Nat}

/-- A CPU, for `W` words of flags (`NUM_MAX_CPU / 32`). -/
abbrev Cpu (W : Nat) := Fin (32 * W)

/-- `Talloc::cpu_index`. -/
def cpuIndex (cpu : Cpu W) : Pos (Fin W) 32 where
  index := ⟨cpu.val >>> 5, by rw [Nat.shiftRight_eq_div_pow]; omega⟩
  bit := ⟨cpu.val &&& (32 - 1), Nat.lt_succ_of_le Nat.and_le_right⟩

theorem cpuIndex_injective : Function.Injective (cpuIndex : Cpu W → Pos (Fin W) 32) := by
  intro cpu cpu' heq
  have hindex : cpu.val >>> 5 = cpu'.val >>> 5 := congrArg (fun p => p.index.val) heq
  have hbit : cpu.val &&& (2 ^ 5 - 1) = cpu'.val &&& (2 ^ 5 - 1) :=
    congrArg (fun p => p.bit.val) heq
  rw [Nat.and_two_pow_sub_one_eq_mod, Nat.and_two_pow_sub_one_eq_mod] at hbit
  exact Fin.ext (by omega)

/-- `Talloc`, as far as the modes are concerned. -/
structure Talloc (W : Nat) where
  flags : Fin W → BitVec 32

/-- `Guard`. -/
structure Guard (W : Nat) where
  index : Fin W
  flag : BitVec 32

namespace Talloc

/-- `Talloc::use_primary_then_backup`. -/
def usePrimaryThenBackup (talloc : Talloc W) (cpu : Cpu W) : Talloc W :=
  ⟨fetchAnd talloc.flags (cpuIndex cpu).index (~~~(cpuIndex cpu).mask)⟩

/-- `Talloc::use_primary`. -/
def usePrimary (talloc : Talloc W) (cpu : Cpu W) : Talloc W :=
  ⟨fetchOr talloc.flags (cpuIndex cpu).index (cpuIndex cpu).mask⟩

/-- `Talloc::save`. -/
def save (talloc : Talloc W) (cpu : Cpu W) : Guard W where
  index := (cpuIndex cpu).index
  flag := (cpuIndex cpu).mask &&& talloc.flags (cpuIndex cpu).index

/-- `Talloc::restore`. -/
def restore (talloc : Talloc W) (index : Fin W) (flag : BitVec 32) : Talloc W :=
  ⟨fetchOr talloc.flags index flag⟩

/-- `Talloc::is_primary`. -/
def isPrimary (talloc : Talloc W) (cpu : Cpu W) : Bool := test talloc.flags (cpuIndex cpu)

variable (talloc : Talloc W) (cpu cpu' : Cpu W)

@[simp] theorem isPrimary_usePrimary :
    (talloc.usePrimary cpu).isPrimary cpu' = (talloc.isPrimary cpu' || decide (cpu' = cpu)) := by
  rw [isPrimary, usePrimary, test_fetchOr, decide_eq_decide.mpr cpuIndex_injective.eq_iff]
  rfl

@[simp] theorem isPrimary_usePrimaryThenBackup : (talloc.usePrimaryThenBackup cpu).isPrimary cpu' =
      (talloc.isPrimary cpu' && !decide (cpu' = cpu)) := by
  rw [isPrimary, usePrimaryThenBackup, test_fetchAnd,
    decide_eq_decide.mpr cpuIndex_injective.eq_iff]
  rfl

/-- The guard of a CPU in the primary mode has its mask, any other guard has nothing. -/
theorem save_eq : talloc.save cpu =
    ⟨(cpuIndex cpu).index, if talloc.isPrimary cpu then (cpuIndex cpu).mask else 0⟩ := by
  rw [save, mask_and_eq]
  rfl

/-- **What a guard restores**: the bit of the CPU that saved, if it was set. -/
theorem isPrimary_restore_save (before : Talloc W) :
    (talloc.restore (before.save cpu).index (before.save cpu).flag).isPrimary cpu' =
      (talloc.isPrimary cpu' || (before.isPrimary cpu && decide (cpu' = cpu))) := by
  rw [save_eq]
  cases before.isPrimary cpu with
  | true => exact talloc.isPrimary_usePrimary cpu cpu'
  | false =>
    change test (fetchOr talloc.flags (cpuIndex cpu).index 0#32) (cpuIndex cpu') = _
    rw [fetchOr_zero, Bool.false_and, Bool.or_false]
    rfl

end Talloc

/-! ### Threads with guards -/

/-- A guard, with the CPU that saved and the state of the heap at that moment. -/
structure Saved (W : Nat) where
  guard : Guard W
  cpu : Cpu W
  talloc : Talloc W
  guard_eq : guard = talloc.save cpu

/-- The mode recorded at the save. -/
def Saved.mode (saved : Saved W) : Bool := saved.talloc.isPrimary saved.cpu

structure State (W : Nat) where
  talloc : Talloc W
  /-- The CPU that a thread runs on. -/
  cpu : Nat → Cpu W
  /-- The guards of a thread, the one to be dropped next first. -/
  guards : Nat → List (Saved W)

inductive Action (W : Nat)
  | save (t : Nat)
  | usePrimary (t : Nat)
  | usePrimaryThenBackup (t : Nat)
  /-- The thread drops the guard that it has saved last. -/
  | drop (t : Nat)
  /-- The thread is resumed on a CPU. -/
  | resume (t : Nat) (cpu : Cpu W)

/-- The thread that acts. -/
def Action.thread : Action W → Nat
  | save t | usePrimary t | usePrimaryThenBackup t | drop t | resume t _ => t

namespace State

/-- `Talloc::new`, with threads anywhere. -/
def init (cpu : Nat → Cpu W) : State W := ⟨⟨fun _ => 0⟩, cpu, fun _ => []⟩

/-- The mode of a CPU: it uses only the primary allocator. -/
def mode (σ : State W) (cpu : Cpu W) : Bool := σ.talloc.isPrimary cpu

/-- One operation; `none` if there is no guard to be dropped. -/
def step (σ : State W) : Action W → Option (State W)
  | .save t =>
    let saved : Saved W := ⟨σ.talloc.save (σ.cpu t), σ.cpu t, σ.talloc, rfl⟩
    some { σ with guards := Function.update σ.guards t (saved :: σ.guards t) }
  | .usePrimary t => some { σ with talloc := σ.talloc.usePrimary (σ.cpu t) }
  | .usePrimaryThenBackup t => some { σ with talloc := σ.talloc.usePrimaryThenBackup (σ.cpu t) }
  | .drop t =>
    match σ.guards t with
    | [] => none
    | saved :: guards =>
      some { σ with
        talloc := σ.talloc.restore saved.guard.index saved.guard.flag
        guards := Function.update σ.guards t guards }
  | .resume t cpu => some { σ with cpu := Function.update σ.cpu t cpu }

/-- No CPU changes its mode but the one that executes the step, and the drop of a guard gives that
one the mode that the guard has recorded. -/
structure Respects (σ : State W) (a : Action W) (σ' : State W) : Prop where
  others : ∀ cpu, cpu ≠ σ.cpu a.thread → σ'.mode cpu = σ.mode cpu
  restored : ∀ t, a = .drop t → ∀ saved ∈ (σ.guards t).head?, σ'.mode (σ.cpu t) = saved.mode

/-- A guard is dropped on the CPU that saved, or both CPUs are in the primary mode already; if it
has recorded the mode with the backup allocator, then the CPU is in that mode already. -/
def Restorable (σ : State W) : Action W → Prop
  | .drop t => ∀ saved ∈ (σ.guards t).head?,
      if saved.mode = true then
        saved.cpu = σ.cpu t ∨ (σ.mode (σ.cpu t) = true ∧ σ.mode saved.cpu = true)
      else σ.mode (σ.cpu t) = false
  | _ => True

variable {σ σ' : State W}

/-- The modes after a drop: one bit may have been set, that of the CPU that saved. -/
theorem mode_drop {t : Nat} (hstep : σ.step (.drop t) = some σ') :
    ∃ saved, (σ.guards t).head? = some saved ∧
      ∀ cpu, σ'.mode cpu = (σ.mode cpu || (saved.mode && decide (cpu = saved.cpu))) := by
  unfold step at hstep
  dsimp only at hstep
  split at hstep
  · cases hstep
  rename_i saved guards hguards
  cases hstep
  refine ⟨saved, by rw [hguards]; rfl, fun cpu => ?_⟩
  have hrestore := σ.talloc.isPrimary_restore_save saved.cpu cpu saved.talloc
  rwa [← saved.guard_eq] at hrestore

/-- **Guards of the heap**: an operation changes the mode of no other CPU, and a drop restores the
mode that was saved, exactly if the guard is restorable. -/
theorem guards_restore_iff {a : Action W} (hstep : σ.step a = some σ') :
    Respects σ a σ' ↔ σ.Restorable a := by
  cases a with
  | save | resume =>
    cases hstep
    exact iff_of_true ⟨fun _ _ => rfl, nofun⟩ trivial
  | usePrimary t =>
    cases hstep
    refine iff_of_true ⟨fun cpu hne => ?_, nofun⟩ trivial
    have hmode := σ.talloc.isPrimary_usePrimary (σ.cpu t) cpu
    rwa [decide_eq_false (show cpu ≠ σ.cpu t from hne), Bool.or_false] at hmode
  | usePrimaryThenBackup t =>
    cases hstep
    refine iff_of_true ⟨fun cpu hne => ?_, nofun⟩ trivial
    have hmode := σ.talloc.isPrimary_usePrimaryThenBackup (σ.cpu t) cpu
    rwa [decide_eq_false (show cpu ≠ σ.cpu t from hne), Bool.not_false, Bool.and_true] at hmode
  | drop t =>
    obtain ⟨saved, hsaved, hmode⟩ := mode_drop hstep
    -- both sides are about the guard that is dropped
    have hrespects : Respects σ (.drop t) σ' ↔
        (∀ cpu, cpu ≠ σ.cpu t → σ'.mode cpu = σ.mode cpu) ∧ σ'.mode (σ.cpu t) = saved.mode := by
      constructor
      · exact fun h => ⟨h.others, h.restored t rfl saved hsaved⟩
      rintro ⟨hothers, hrestored⟩
      refine ⟨hothers, fun t' ht' saved' hsaved' => ?_⟩
      cases ht'
      cases hsaved.symm.trans hsaved'
      exact hrestored
    have hrestorable : σ.Restorable (.drop t) ↔ if saved.mode = true then
        saved.cpu = σ.cpu t ∨ (σ.mode (σ.cpu t) = true ∧ σ.mode saved.cpu = true)
        else σ.mode (σ.cpu t) = false := by
      constructor
      · exact fun h => h saved hsaved
      intro h saved' hsaved'
      cases hsaved.symm.trans hsaved'
      exact h
    rw [hrespects, hrestorable]
    simp only [hmode]
    cases saved.mode with
    | false => simp
    | true =>
      rcases eq_or_ne saved.cpu (σ.cpu t) with heq | hne
      · simp +contextual [heq]
      simp only [Bool.true_and, if_true, hne, false_or, hne.symm, decide_false, Bool.or_false]
      rw [and_comm]
      refine and_congr_right fun _ => ⟨fun h => ?_, fun h cpu _ => ?_⟩
      · simpa using h saved.cpu hne
      rcases eq_or_ne cpu saved.cpu with rfl | hne'
      · simp [h]
      · simp [hne']

/-- A thread saves the mode of CPU 0, changes it and drops the guard there. -/
def savedPrimary : List (Action 1) := [.usePrimary 0, .save 0, .usePrimaryThenBackup 0]

theorem guards_restore_iff_savedPrimary :
    ∃ σ σ' : State 1, run step (init fun _ => 0) savedPrimary = some σ ∧
      σ.step (.drop 0) = some σ' ∧ Respects σ (.drop 0) σ' := by
  refine ⟨_, _, rfl, rfl, (guards_restore_iff rfl).mpr ?_⟩
  intro saved hsaved
  cases hsaved
  exact .inl rfl

/-- **A mode that is not restored**: a thread saves the mode with the backup allocator and goes to
the primary mode. It is still in the primary mode after the drop of the guard. -/
theorem mode_not_restored :
    ∃ σ σ' : State 1, run step (init fun _ => 0) [.save 0, .usePrimary 0] = some σ ∧
      (∃ saved, (σ.guards 0).head? = some saved ∧ saved.mode = false) ∧
      σ.step (.drop 0) = some σ' ∧ σ'.mode 0 = true :=
  ⟨_, _, rfl, ⟨_, rfl, by decide⟩, rfl, by decide⟩

/-- **The mode of another CPU**: a thread saves the primary mode of CPU 0, goes to the mode with the
backup allocator, and is resumed on CPU 1, where it drops the guard. CPU 0 is then in the primary
mode, and CPU 1 is not. -/
theorem other_mode_set : ∃ σ σ' : State 1, run step (init fun _ => 0)
        [.usePrimary 0, .save 0, .usePrimaryThenBackup 0, .resume 0 1] = some σ ∧
      σ.step (.drop 0) = some σ' ∧
      σ.mode 0 = false ∧ σ'.mode 0 = true ∧ σ'.mode 1 = false :=
  ⟨_, _, rfl, rfl, by decide, by decide, by decide⟩

end State

end Heap

end Awkernel
