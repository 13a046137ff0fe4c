import Awkernel.Kernel.System

/-!
# Caught panics

Code that panics in a step of `sysStep` stops where it is, with its flag set: the stack is being
unwound. This module adds what comes after. `handle_irq` catches the panic of an interrupt handler,
so that the call of `Task::wake` it made is gone, with the task it had in its hands. `preemption`
catches the panic of `do_preemption`, and of the `re_schedule` with which a preempted thread goes
on, and returns to what it had interrupted. Nothing catches the panic of `run_main`, of the main
loop, or of a `re_schedule` on a thread that has not started on a task: such a CPU stops for good.

* `kernelStep`: a step of the system, or the end of an unwinding.
* `Executed.unpanicked`: if no action panics (`NoPanic`), there is nothing to unwind, and the runs
  are those of `sysStep`.
-/

namespace Awkernel

open TransitionSystem Function

variable {B : Build} {n m : Nat}

/-- Where a CPU goes on when its panic is caught. -/
def CpuPc.caught : CpuPc n → Option (CpuPc n)
  | .preempting interrupted _ | .reScheduling _ (.preempted interrupted) => some interrupted.resume
  | _ => none

/-- The panic of a slot or of a CPU has been unwound and caught. The locks were dropped by the
step that panicked. -/
def Sys.unwind (σ : Sys B n m) : Fin m ⊕ Cpu n → Option (Sys B n m)
  | .inl i =>
    if σ.callPanicked i then
      some { σ with
        call := update σ.call i none
        callPanicked := update σ.callPanicked i false }
    else none
  | .inr c =>
    if σ.cpuPanicked c then
      (σ.cpu c).caught.map fun pc =>
        { σ with
          cpu := update σ.cpu c pc
          cpuPanicked := update σ.cpuPanicked c false }
    else none

/-- An action of the system, or the end of the unwinding of a slot or of a CPU. -/
inductive KernelEvent (n m : Nat)
  | act (a : Action n m)
  | unwind (p : Fin m ⊕ Cpu n)

/-- One step of the kernel. -/
def kernelStep (σ : Sys B n m) : KernelEvent n m → Option (Sys B n m)
  | .act a => sysStep σ a
  | .unwind p => σ.unwind p

/-- A condition on the actions, which says nothing about unwinding. -/
def KernelEvent.Meets (ok : Sys B n m → Action n m → Prop) (σ : Sys B n m) : KernelEvent n m → Prop
  | .act a => ok σ a
  | .unwind _ => True

instance (ok : Sys B n m → Action n m → Prop) [∀ σ a, Decidable (ok σ a)] (σ : Sys B n m) :
    DecidablePred (KernelEvent.Meets ok σ) := fun e => by
  induction e using KernelEvent.casesOn <;> dsimp only [KernelEvent.Meets] <;> infer_instance

/-- The states of the runs of the kernel, with caught panics, whose actions all meet `ok`. -/
abbrev Executed (ok : Sys B n m → Action n m → Prop) (σ : Sys B n m) : Prop :=
  Reaches kernelStep (KernelEvent.Meets ok) (Sys.init B n m) σ

/-- No code has panicked and is being unwound, or has stopped. -/
structure Sys.Unpanicked (σ : Sys B n m) : Prop where
  cpu : ∀ c, σ.cpuPanicked c = false
  call : ∀ i, σ.callPanicked i = false

instance (σ : Sys B n m) : Decidable σ.Unpanicked :=
  decidable_of_iff ((∀ c, σ.cpuPanicked c = false) ∧ ∀ i, σ.callPanicked i = false)
    ⟨fun h => ⟨h.1, h.2⟩, fun h => ⟨h.cpu, h.call⟩⟩

/-- The action is not a step in which kernel code panics. -/
def NoPanic (σ : Sys B n m) (a : Action n m) : Prop := ∀ σ' ∈ sysStep σ a, σ'.Unpanicked

instance (σ : Sys B n m) : DecidablePred (NoPanic σ) := fun a =>
  inferInstanceAs (Decidable (∀ σ' ∈ sysStep σ a, σ'.Unpanicked))

variable {ok : Sys B n m → Action n m → Prop} {σ : Sys B n m}

/-- The runs of the system are runs in which nothing is unwound. -/
theorem Executed.of_reachable (h : Reachable ok σ) : Executed ok σ := by
  induction h with
  | refl => exact .refl
  | @tail _ _ a _ ha hstep ih => exact .tail ih (a := .act a) ha hstep

/-- **Without panics the two kinds of runs are the same.** -/
theorem Executed.unpanicked (h : Executed (fun σ a => ok σ a ∧ NoPanic σ a) σ) :
    Reachable ok σ ∧ σ.Unpanicked := by
  induction h with
  | refl => exact ⟨.refl, fun _ => rfl, fun _ => rfl⟩
  | @tail σ σ' e _ he hstep ih =>
    obtain ⟨hreach, hflags⟩ := ih
    cases e with
    | act a => exact ⟨hreach.tail he.1 hstep, he.2 σ' hstep⟩
    | unwind p =>
      -- no flag is set
      cases p with
      | inl i =>
        obtain ⟨hflag, -⟩ := Option.ite_none_right_eq_some.mp hstep
        cases (hflags.call i).symm.trans hflag
      | inr c =>
        obtain ⟨hflag, -⟩ := Option.ite_none_right_eq_some.mp hstep
        cases (hflags.cpu c).symm.trans hflag

end Awkernel
