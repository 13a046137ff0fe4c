import Awkernel.Kernel.Safety
import Awkernel.Kernel.Unwinding

/-!
# When no thread can be created

`do_preemption` stores the id of the next task in `RUNNING` before it looks for a thread to
run it on. If there is none, the next task is put back and the interrupted one continues, but
`RUNNING` is not restored. The same happens, and the next task is lost, if `do_preemption` panics
in between: `preemption` catches the panic and returns to the interrupted poll.

* `PreemptionKept` is what a step of `do_preemption` owes: no task is lost between the pending
  heap and the place it is put back to, and a return without a switch finds `RUNNING` as it was.
* `preemption_kept`: this holds along every run in which a thread is there when it is needed and
  no kernel code panics, and the assertion of `run_main` after a poll then never fails.
* `not_preemptionSafe_of_exhausted`: one failed `create_thread` is enough to break it, and so is
  one caught panic.
-/

namespace Awkernel

open Ledger TransitionSystem Shared Multiset

variable {B : Build} {n m : Nat} {σ σ' : Sys B n m} {c : Cpu n}

namespace Sys

/-- CPU `c` has taken the task from a container and not put it anywhere. -/
def InHands (σ : Sys B n m) (c : Cpu n) (t : Handle) : Prop :=
  ∃ h, h ≠ .yielding ∧ (.hand h, t) ∈ (σ.cpu c).entries c

/-- The task is in a run queue or in a pending heap. -/
def Requeued (σ : Sys B n m) (t : Handle) : Prop :=
  (∃ S, t ∈ σ.shared.queued S) ∨ ∃ c, t ∈ σ.shared.pending c

/-- The task is what CPU `c` executes, now or after the switch of threads. -/
def Dispatched (σ : Sys B n m) (c : Cpu n) (t : Handle) : Prop :=
  t ∈ σ.shared.nextTask c ∨ (.executing c, t) ∈ (σ.cpu c).entries c

end Sys

/-- A step of `do_preemption` on CPU `c`, which interrupted `i`. -/
structure PreemptionKept (σ σ' : Sys B n m) (c : Cpu n) (i : Interrupted) : Prop where
  /-- What leaves the pending heap is in the hands of the call. -/
  taken : ∀ t ∈ σ.shared.pending c, t ∈ σ'.shared.pending c ∨ σ'.InHands c t
  /-- What leaves the hands of the call is put back or dispatched. -/
  putBack : ∀ t, σ.InHands c t → σ'.InHands c t ∨ σ'.Requeued t ∨ σ'.Dispatched c t
  /-- A return without a switch: nothing is in the hands of the call, nothing but the
  interrupted task is dispatched, and `RUNNING` names the interrupted task. -/
  returned : σ'.cpu c = i.resume → σ'.shared.running c = σ'.shared.idOf i.task ∧
    ∀ t, ¬ σ'.InHands c t ∧ (σ'.Dispatched c t → i.task = some t)

/-- The steps of `do_preemption` that meet `ok` are sound, and the assertion of `run_main`
after a poll holds. -/
structure PreemptionSafe (ok : Sys B n m → Action n m → Prop) (σ : Sys B n m) : Prop where
  kept : ∀ c inp i p σ', σ.cpu c = .preempting i p → ok σ (.cpu c inp) →
    sysStep σ (.cpu c inp) = some σ' → PreemptionKept σ σ' c i
  asserted : ∀ c t r, σ.cpu c = .polled t r → σ.shared.running c = (σ.shared.task t).id

/-! ### One step -/

variable {t : Handle}

theorem CpuPc.hand_mem {s : Shared B n} {pc : CpuPc n} {h : Hand}
    (hmem : (.hand h, t) ∈ s.entries + pc.entries c) : (.hand h, t) ∈ pc.entries c :=
  (mem_add.mp hmem).resolve_left fun hs => absurd (Shared.mem_entries.mp hs) (by simp)

theorem Shared.container_mem {s : Shared B n} {pc : CpuPc n} {p : Place n}
    (hmem : (p, t) ∈ s.entries + pc.entries c) (hhand : ∀ h, p ≠ .hand h)
    (hexec : p ≠ .executing c) (hrem : p ≠ .removing c) : (p, t) ∈ s.entries := by
  refine (mem_add.mp hmem).resolve_right fun hpc => ?_
  rcases CpuPc.mem_entries hpc with ⟨h, hp⟩ | hp | ⟨hp, -⟩
  · exact hhand h hp
  · exact hexec hp
  · exact hrem hp

theorem Sys.dispatched_of_executing {c' : Cpu n}
    (hmem : (.executing c', t) ∈ σ.shared.entries + (σ.cpu c).entries c) :
    σ.Dispatched c t := by
  have hpc : (Place.executing c', t) ∈ (σ.cpu c).entries c :=
    (mem_add.mp hmem).resolve_left fun hs => absurd (Shared.mem_entries.mp hs) (by simp)
  rcases CpuPc.mem_entries hpc with ⟨h, hp⟩ | hp | ⟨hp, -⟩
  · cases hp
  · rw [hp] at hpc
    exact .inr hpc
  · cases hp

theorem Sys.inHands_of_mem {h : Hand} (hmem : (.hand h, t) ∈ σ.shared.entries + (σ.cpu c).entries c)
    (hne : h ≠ .yielding) :
    σ.InHands c t :=
  ⟨h, hne, CpuPc.hand_mem hmem⟩

theorem Inv.not_mem_of_inHands (h : Inv σ) (ht : σ.InHands c t) (p : Place n) :
    (p, t) ∉ σ.shared.entries := by
  intro hp
  obtain ⟨hand, -, hmem⟩ := ht
  have hheld := (h.toLocal c).held t
  have htwo := two_le_holders hp hmem
  have hdue := σ.shared.due_le_one t
  omega

theorem CpuMove.taken (h : CpuMove σ σ' c) :
    ∀ t ∈ σ.shared.pending c, t ∈ σ'.shared.pending c ∨ σ'.InHands c t := by
  intro t ht
  have hmem : (Place.pending c, t) ∈ σ.shared.entries + (σ.cpu c).entries c :=
    mem_add.mpr (.inl (mem_entries_of_pending ht))
  rcases h.ok.flow.carried hmem with ⟨q, hq, hmem'⟩ | ⟨_, hq⟩ | ⟨_, hq⟩
  · cases hq with
    | stay =>
      have hs := container_mem hmem' nofun nofun nofun
      exact .inl (by simpa using mem_entries.mp hs)
    | move hmove =>
      cases hmove with
      | rewake => exact .inr (Sys.inHands_of_mem hmem' nofun)
    | moveHeap => exact .inr (Sys.inHands_of_mem hmem' nofun)
  · cases hq
  · cases hq

theorem CpuMove.putBack (h : CpuMove σ σ' c) (hI : Inv σ) (ht : σ.InHands c t) :
    σ'.InHands c t ∨ σ'.Requeued t ∨ σ'.Dispatched c t := by
  have hout := hI.not_mem_of_inHands ht
  obtain ⟨hand, hne, hmem⟩ := ht
  rcases h.ok.flow.carried (mem_add.mpr (.inr hmem)) with
    ⟨q, hq, hmem'⟩ | ⟨_, hq⟩ | ⟨_, hq⟩
  · cases hq with
    | stay => exact .inl (Sys.inHands_of_mem hmem' hne)
    | move hmove =>
      cases hmove with
      | enqueue S =>
        have hs := container_mem hmem' nofun nofun nofun
        exact .inr (.inl (.inl ⟨S, by simpa using mem_entries.mp hs⟩))
      | request _ _ c' | tick c' =>
        have hs := container_mem hmem' nofun nofun nofun
        exact .inr (.inl (.inr ⟨c', by simpa using mem_entries.mp hs⟩))
      | rewake => exact .inl (Sys.inHands_of_mem hmem' nofun)
      | yield => exact absurd rfl hne
    | @dispatch c' _ hq =>
      rcases hq with rfl | rfl
      · have hs := container_mem hmem' nofun nofun nofun
        have hnext : t ∈ σ'.shared.nextTask c' := by simpa using mem_entries.mp hs
        by_cases hc' : c' = c
        · subst hc'
          exact .inr (.inr (.inl hnext))
        -- the entries of other CPUs do not change, and the task had none there
        rw [h.ok.frame.nextTask c' hc'] at hnext
        exact absurd (mem_entries_of_next hnext) (hout _)
      · exact .inr (.inr (Sys.dispatched_of_executing hmem'))
    | count => exact .inl (Sys.inHands_of_mem hmem' nofun)
    | decrement hp =>
      rcases hp with ⟨c', rfl⟩ | rfl
      · exact .inr (.inr (Sys.dispatched_of_executing hmem'))
      · exact .inl (Sys.inHands_of_mem hmem' nofun)
  · cases hq
  · cases hq

/-- Where a CPU goes on after an interrupt it holds nothing but the interrupted task. -/
theorem Inv.resumed (h : Inv σ) {i : Interrupted} (hpc : σ.cpu c = i.resume) :
    σ.shared.running c = σ.shared.idOf i.task ∧
      ∀ t, ¬ σ.InHands c t ∧ (σ.Dispatched c t → i.task = some t) := by
  have hok := h.cpu c
  rw [hpc] at hok
  have hnext : σ.shared.nextTask c = [] := by
    refine hok.next.resolve_right fun hmay => ?_
    cases i with
    | polling | sleeping => cases hmay.1
  have hrunning := hok.running
  refine ⟨?_, fun t => ⟨?_, ?_⟩⟩
  · cases i with
    | polling | sleeping => exact hrunning
  · rintro ⟨hand, -, hmem⟩
    rw [hpc] at hmem
    cases i with
    | polling x => exact absurd (Prod.mk.inj (mem_singleton.mp hmem)).1 nofun
    | sleeping => cases hmem
  · rintro (hmem | hmem)
    · rw [hnext] at hmem
      cases hmem
    rw [hpc] at hmem
    cases i with
    | polling x => exact congrArg some (Prod.mk.inj (mem_singleton.mp hmem)).2.symm
    | sleeping => cases hmem

/-! ### Along every run -/

/-- **Preemption without thread exhaustion.** In every run in which `do_preemption` always finds
a thread and no kernel code panics: no task it takes from the pending heap is lost, `RUNNING` names
the interrupted task when it returns without a switch, and the assertion of `run_main` after a poll
holds. -/
theorem preemption_kept (h : Executed (fun σ a => ThreadAvailable σ a ∧ NoPanic σ a) σ) :
    PreemptionSafe (fun σ a => ThreadAvailable σ a ∧ NoPanic σ a) σ := by
  have hI : Inv σ := Inv.reachable (fun _ _ ha => ha) h.unpanicked.1
  refine ⟨fun c inp i p σ' hpc ha hstep => ?_, fun c t r hpc => ?_⟩
  · have hmove : CpuMove σ σ' c := hI.cpuMove ha.1 hstep
    exact ⟨hmove.taken, fun t => hmove.putBack hI, (hmove.inv hI).resumed⟩
  have hrunning := (hI.cpu c).running
  rw [hpc] at hrunning
  exact hrunning

/-- A worker polls a task, one of higher priority is in its pending heap, and the interrupt has
brought the worker to the search for a thread. -/
def preemptedPoll : List (Action 0 1) :=
  Action.spawnSteps 0 (.prioritizedFIFO 1) 10 ++ Action.cpuSteps 1 12 ++
    Action.spawnSteps 0 (.prioritizedFIFO 5) 16 ++ [.interrupt 1] ++ Action.cpuSteps 1 8

/-- The state in which the thread is looked for. -/
theorem preemption_kept_preemptedPoll : ∃ σ : Sys Build.list 0 1,
    Executed (fun σ a => ThreadAvailable σ a ∧ NoPanic σ a) σ ∧
      σ.cpu 1 = .preempting (.polling 0) (.takeThread 1 0) ∧
      PreemptionSafe (fun σ a => ThreadAvailable σ a ∧ NoPanic σ a) σ := by
  obtain ⟨σ, hreach, hpc⟩ := Reaches.exists_of_run preemptedPoll
    (show (run (guarded sysStep fun σ a => ThreadAvailable σ a ∧ NoPanic σ a)
      (Sys.init Build.list 0 1) preemptedPoll).any (fun σ => decide
        (σ.cpu 1 = .preempting (.polling 0) (.takeThread 1 0))) = true by decide)
  have hexec := Executed.of_reachable hreach
  exact ⟨σ, hexec, hpc, preemption_kept hexec⟩

/-- No thread can be created, so the next task is put back. One step is left of
`do_preemption`. -/
def exhaustedPoll : List (Action 0 1) :=
  preemptedPoll ++ [.cpu 1 { threadCreated := false }] ++ Action.cpuSteps 1 6

/-- `do_preemption` goes back to the poll of task 0, and `RUNNING` names another task. -/
def returnsWithOther (σ : Sys Build.list 0 1) : Bool :=
  match σ.cpu 1, sysStep σ (.cpu 1 {}) with
  | .preempting (.polling 0) _, some σ' =>
    σ'.cpu 1 = .polling 0 ∧ σ'.shared.running 1 ≠ (σ'.shared.task 0).id
  | _, _ => false

theorem not_preemptionSafe_of_returnsWithOther {σ : Sys Build.list 0 1}
    (h : returnsWithOther σ = true) : ¬ PreemptionSafe (fun _ _ => True) σ := by
  intro hsafe
  unfold returnsWithOther at h
  split at h
  · next p σ' hpc hstep =>
    obtain ⟨hresume, hother⟩ := of_decide_eq_true h
    have hkept := hsafe.kept 1 {} (.polling 0) p σ' hpc trivial hstep
    exact hother (hkept.returned hresume).1
  · cases h

/-- Two EDF tasks are in the pending heap of the worker that polls a task. At the interrupt the
deadline of the one that is put back does not fit in a task priority any more. -/
def panicsBehindSetCurrent : List (Action 0 1) :=
  Action.spawnSteps 0 (.prioritizedFIFO 1) 10 ++ Action.cpuSteps 1 12 ++
    Action.spawnSteps 0 (.gedf 1000) 16 ++ Action.spawnSteps 0 (.gedf 10) 16 ++
    [.advance (2 ^ 56), .interrupt 1] ++ Action.cpuSteps 1 7

/-- The poll of task 0 has returned, and `RUNNING` names another task. -/
def polledWithOther (σ : Sys Build.list 0 1) : Bool :=
  σ.cpu 1 = .polled 0 .pending ∧ σ.shared.running 1 ≠ (σ.shared.task 0).id

/-- **After one failed `create_thread` the interrupted task is polled under the id of the other
one**, and the assertion of `run_main` stops the worker. A panic behind `set_current_task` has the
same effect. -/
theorem not_preemptionSafe_of_exhausted :
    (∃ σ : Sys Build.list 0 1, Executed (fun _ _ => True) σ ∧
      ¬ PreemptionSafe (fun _ _ => True) σ) ∧
    (∃ σ : Sys Build.list 0 1, Executed (fun _ _ => True) σ ∧ σ.cpuPanicked 1) ∧
    ∃ σ : Sys Build.list 0 1, Executed ThreadAvailable σ ∧ σ.Unpanicked ∧
      ¬ PreemptionSafe ThreadAvailable σ := by
  refine ⟨?_, ?_, ?_⟩
  · obtain ⟨σ, hreach, hσ⟩ := Reaches.exists_of_run exhaustedPoll
      (show (run (guarded sysStep fun _ _ => True) (Sys.init Build.list 0 1) exhaustedPoll).any
        (fun σ => decide (returnsWithOther σ = true)) = true by decide)
    exact ⟨σ, .of_reachable hreach, not_preemptionSafe_of_returnsWithOther hσ⟩
  · obtain ⟨σ, hreach, hσ⟩ := Reaches.exists_of_run (exhaustedPoll ++ Action.cpuSteps 1 3)
      (show (run (guarded sysStep fun _ _ => True) (Sys.init Build.list 0 1)
        (exhaustedPoll ++ Action.cpuSteps 1 3)).any (fun σ => decide (σ.cpuPanicked 1)) = true
        by decide)
    exact ⟨σ, .of_reachable hreach, hσ⟩
  · refine Reaches.exists_of_run_imp
      (panicsBehindSetCurrent.map .act ++ [.unwind (.inr 1), .act (.cpu 1 {})])
      (fun σ => σ.Unpanicked ∧ polledWithOther σ = true) (by decide) ?_
    rintro σ - ⟨hflags, hother⟩
    obtain ⟨hpc, hne⟩ := of_decide_eq_true hother
    exact ⟨hflags, fun hsafe => hne (hsafe.asserted 1 0 .pending hpc)⟩

end Awkernel
