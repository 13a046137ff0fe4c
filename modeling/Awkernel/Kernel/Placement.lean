import Awkernel.Kernel.Safety
import Awkernel.Kernel.Unwinding

/-!
# Task placement

Where a task is, in every state of every run in which threads can be created and no kernel code
panics (`placement`): an active task is in exactly one place, one that waits to be woken is in none,
and no two CPUs are inside the same future.

This is the invariant `Inv` read off. What remains to be seen is that an active task is not in
the hands of a CPU that removes it (`Inv.isDead_of_removing`).

The unwrap in `invoke_preemption` can panic. If the wake was made by an interrupt handler, the panic
is caught and the task that was woken is in no place any more (`task_lost_of_panic`).
-/

namespace Awkernel

open Ledger TransitionSystem

variable {B : Build} {n m : Nat} {σ : Sys B n m}

/-- The places of a task. -/
def Sys.places (σ : Sys B n m) (t : Handle) : Multiset (Place n) := placesOf t σ.entries

theorem Inv.isDead_of_removing (h : Inv σ) {c : Cpu n} {t : Handle}
    (hmem : (.removing c, t) ∈ σ.entries) : (σ.shared.task t).info.state.isDead := by
  rcases Sys.mem_entries.mp hmem with hmem | ⟨c', hc'⟩ | ⟨i, w, -, hi⟩
  · exact absurd (Shared.mem_entries.mp hmem) (by simp)
  · -- only the CPU at the removal has such an entry
    rcases CpuPc.mem_entries hc' with ⟨hand, hp⟩ | hp | ⟨-, hpc⟩
    · cases hp
    · cases hp
    have hlocals := (h.cpu c').locals
    rw [hpc] at hlocals
    exact hlocals
  · obtain ⟨hand, hp⟩ := WakeCall.mem_entries hi
    cases hp

/-! ### The theorem -/

/-- **Task placement.** In every run in which `do_preemption` always finds a thread and no kernel
code panics, whatever the interleaving: an active task is in exactly one place, and it is not being
removed; a task that has not been woken is in none; at most one CPU is inside a future; and the
branch of `run_main` for a failed `try_lock` is never taken. -/
theorem placement (h : Executed (fun σ a => ThreadAvailable σ a ∧ NoPanic σ a) σ) :
    (∀ t, (σ.shared.task t).info.state.isActive →
      ∃ p, σ.places t = {p} ∧ ∀ c, p ≠ .removing c) ∧
    (∀ t, (σ.shared.task t).info.state = .initialized ∨
      (σ.shared.task t).info.state = .waiting → σ.places t = 0) ∧
    (∀ c c' t, (σ.cpu c).inside t → (σ.cpu c').inside t → c = c') ∧
    ∀ c t, σ.cpu c ≠ .lockFailed t := by
  have hI : Inv σ := Inv.reachable (fun _ _ ha => ha) h.unpanicked.1
  refine ⟨fun t ht => ?_, fun t ht => ?_, fun c c' t hc hc' => ?_, fun c t hc => ?_⟩
  · have hcard : (σ.places t).card = 1 := by
      rw [Sys.places, card_placesOf, hI.ledger, Shared.due_of_isActive ht]
    obtain ⟨p, hp⟩ := Multiset.card_eq_one.mp hcard
    refine ⟨p, hp, ?_⟩
    rintro c rfl
    have hmem : (Place.removing c, t) ∈ σ.entries := by
      rw [← mem_placesOf]
      change Place.removing c ∈ σ.places t
      rw [hp]
      exact Multiset.mem_singleton_self _
    have hdead := hI.isDead_of_removing hmem
    revert ht hdead
    cases (σ.shared.task t).info.state <;> decide
  · have hdue : σ.shared.due t = 0 := by
      rcases ht with ht | ht <;> simp [Shared.due, ht, State.isActive, State.isDead]
    rw [← Multiset.card_eq_zero, Sys.places, card_placesOf, hI.ledger, hdue]
  · -- both CPUs would hold the task
    by_contra hne
    obtain ⟨p, hp⟩ := inside_mem c hc
    obtain ⟨p', hp'⟩ := inside_mem c' hc'
    exact hI.exclusive (fun h => hne h.symm) hp hp'
  · have hlocals := (hI.cpu c).locals
    rw [hc] at hlocals
    exact hlocals

/-- A task is polled by worker 1, one of lower priority is spawned on CPU 0 and put into its run
queue, and the first one has returned `Pending`. -/
def queuedAndWaiting : List (Action 0 1) :=
  Action.spawnSteps 0 (.prioritizedFIFO 5) 10 ++ Action.cpuSteps 1 12 ++
    Action.spawnSteps 0 (.prioritizedFIFO 3) 14 ++ Action.cpuSteps 1 3

/-- The run queue is the one place of the second task, and the first one is in none. -/
theorem placement_queuedAndWaiting : ∃ σ : Sys Build.list 0 1,
    Executed (fun σ a => ThreadAvailable σ a ∧ NoPanic σ a) σ ∧
      (σ.shared.task 1).info.state = .runnable ∧ σ.places 1 = {.queue .prioritizedFIFO} ∧
      (σ.shared.task 0).info.state = .waiting ∧ σ.places 0 = 0 := by
  obtain ⟨σ, hreach, hrunnable, hqueued, hwaiting⟩ := Reaches.exists_of_run queuedAndWaiting
    (show (run (guarded sysStep fun σ a => ThreadAvailable σ a ∧ NoPanic σ a)
      (Sys.init Build.list 0 1) queuedAndWaiting).any (fun σ => decide
        ((σ.shared.task 1).info.state = .runnable ∧ 1 ∈ σ.shared.queued .prioritizedFIFO ∧
          (σ.shared.task 0).info.state = .waiting)) = true by decide)
  have hexec := Executed.of_reachable hreach
  refine ⟨σ, hexec, hrunnable, ?_, hwaiting, (placement hexec).2.1 0 (.inr hwaiting)⟩
  obtain ⟨p, hp, -⟩ := (placement hexec).1 1 (by rw [hrunnable]; rfl)
  have hmem : Place.queue .prioritizedFIFO ∈ σ.places 1 :=
    mem_placesOf.mpr (Sys.mem_entries_of_shared (mem_entries_of_queued hqueued))
  rw [hp] at hmem ⊢
  rw [Multiset.mem_singleton.mp hmem]

/-- A task waits and worker 1 polls another one. An interrupt handler on CPU 0 wakes the first one
and has read the id of the second one from `RUNNING` when that one ends and is removed. -/
def wokenWhileEnding : List (Action 0 1) :=
  Action.spawnSteps 0 (.prioritizedFIFO 5) 10 ++ Action.cpuSteps 1 15 ++
    Action.spawnSteps 0 (.prioritizedFIFO 1) 10 ++ Action.cpuSteps 1 12 ++
    [.wake 0 0 0] ++ List.replicate 7 (.call 0 {}) ++
    [.cpu 1 { poll := .ready }] ++ Action.cpuSteps 1 3 ++ List.replicate 3 (.call 0 {})

/-- The unwrap in `invoke_preemption` has panicked, and the panic is caught. -/
def panickingWake : List (KernelEvent 0 1) := wokenWhileEnding.map .act ++ [.unwind (.inl 0)]

/-- **A panic loses the task.** The task is runnable, and no queue, no CPU and no call has it. -/
theorem task_lost_of_panic : ∃ σ : Sys Build.list 0 1, Executed ThreadAvailable σ ∧
    σ.Unpanicked ∧ σ.call 0 = none ∧ (σ.shared.task 0).info.state = .runnable ∧
      σ.places 0 = 0 := by
  refine Reaches.exists_of_run_imp panickingWake (fun σ => σ.Unpanicked ∧ σ.call 0 = none ∧
    (σ.shared.task 0).info.state = .runnable ∧ holders 0 σ.entries = 0) (by decide +kernel) ?_
  rintro σ - ⟨hflags, hcall, hstate, hholders⟩
  refine ⟨hflags, hcall, hstate, ?_⟩
  rw [← Multiset.card_eq_zero, Sys.places, card_placesOf, hholders]

/-- **No task is left behind.** In such a run the live tasks have ids of their own, a task that has
ended and is still registered is being removed, and a locked future has a suspended thread or a CPU
inside it. -/
theorem tasks_accounted (h : Executed (fun σ a => ThreadAvailable σ a ∧ NoPanic σ a) σ) :
    (∀ t t', (σ.shared.task t).info.state.isDead = false →
      (σ.shared.task t').info.state.isDead = false →
        (σ.shared.task t).id = (σ.shared.task t').id → t = t') ∧
    (∀ t, (σ.shared.task t).info.state.isDead →
      σ.shared.registry (σ.shared.task t).id = some t → ∃ c, σ.cpu c = .removeTask t) ∧
    ∀ t, (σ.shared.task t).futureLocked →
      (σ.shared.task t).info.thread.isSome ∨ ∃ c, (σ.cpu c).inside t := by
  have hI : Inv σ := Inv.reachable (fun _ _ ha => ha) h.unpanicked.1
  refine ⟨fun t t' ht ht' hid => ?_, hI.ended, hI.locked⟩
  have hreg := hI.shared.live t ht
  rw [hid, hI.shared.live t' ht'] at hreg
  exact (Option.some.inj hreg).symm

/-- Worker 1 polls a task that has preempted another one. -/
def pollingPreemptor : List (Action 0 1) :=
  Action.spawnSteps 0 (.prioritizedFIFO 1) 10 ++ Action.cpuSteps 1 12 ++
    Action.spawnSteps 0 (.prioritizedFIFO 5) 16 ++ [.interrupt 1] ++ Action.cpuSteps 1 33

/-- Both futures are locked, and the two tasks have ids of their own. -/
theorem tasks_accounted_pollingPreemptor : ∃ σ : Sys Build.list 0 1,
    Executed (fun σ a => ThreadAvailable σ a ∧ NoPanic σ a) σ ∧ σ.cpu 1 = .polling 1 ∧
      (σ.shared.task 0).id ≠ (σ.shared.task 1).id ∧
      ((σ.shared.task 0).info.thread.isSome ∨ ∃ c, (σ.cpu c).inside 0) ∧
      ((σ.shared.task 1).info.thread.isSome ∨ ∃ c, (σ.cpu c).inside 1) := by
  obtain ⟨σ, hreach, hpc, hlive₀, hlive₁, hlocked₀, hlocked₁⟩ :=
    Reaches.exists_of_run pollingPreemptor
      (show (run (guarded sysStep fun σ a => ThreadAvailable σ a ∧ NoPanic σ a)
        (Sys.init Build.list 0 1) pollingPreemptor).any (fun σ => decide (σ.cpu 1 = .polling 1 ∧
          (σ.shared.task 0).info.state.isDead = false ∧
          (σ.shared.task 1).info.state.isDead = false ∧
          (σ.shared.task 0).futureLocked = true ∧
          (σ.shared.task 1).futureLocked = true)) = true by decide)
  have hexec := Executed.of_reachable hreach
  obtain ⟨hunique, -, hinside⟩ := tasks_accounted hexec
  refine ⟨σ, hexec, hpc, fun hid => ?_, hinside 0 hlocked₀, hinside 1 hlocked₁⟩
  exact absurd (hunique 0 1 hlive₀ hlive₁ hid) zero_ne_one

end Awkernel
