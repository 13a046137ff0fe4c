import Awkernel.Kernel.Safety

/-!
# The candidates of a preemption

`invoke_preemption` of GEDF, PrioritizedFIFO and PrioritizedRR reads `RUNNING` of every CPU,
then looks the ids up in `TASKS` one by one, and unwraps the minimum over those it has found.
A task that ends in between is not found any more.

* `WakeCall.unresolved`: the ids a call has read and not looked up, as long as it has found
  none.
* `KeepsCandidate`: a removal from `TASKS` leaves every such call an id that is registered.
* `candidate_found`: in every run in which removals do so, the minimum is never taken over
  nothing. Without that condition it is (`not_candidate_found_of_removal`).
-/

namespace Awkernel

open TransitionSystem

variable {B : Build} {n m : Nat} {σ σ' : Sys B n m}

namespace WakeCall

/-- The ids the call has read from `RUNNING` and not looked up, as long as none was found. -/
def unresolved (w : WakeCall n) : List Nat :=
  match w.pc with
  | .snapshot _ busy => busy.map Prod.snd
  | .lookup todo none => todo.map Prod.snd
  | _ => []

/-- Some id that is still to be looked up is registered. -/
def Finds (s : Shared B n) (w : WakeCall n) : Prop :=
  ∃ id ∈ w.unresolved, (s.registry id).isSome

/-- The call has a candidate or will find one. -/
def HasCandidate (s : Shared B n) (w : WakeCall n) : Prop :=
  match w.pc with
  | .snapshot _ busy => busy ≠ [] → w.Finds s
  | .lookup _ none => w.Finds s
  | .select none => False
  | _ => True

variable {w : WakeCall n} {s s' : Shared B n}

/-- `wake_task` goes on to the lock, or has pushed a panicked task. -/
theorem enter_pc {w' : WakeCall n} {d : Nat} (h : w.enter s d = .next s' w') :
    w'.pc = .lock ∨ w'.pc = .notify none := by
  have hrelease : ∀ {relativeDeadline s' w'},
      w.releaseEdf s relativeDeadline d = .next s' w' → w'.pc = .lock := fun hr => by
    obtain ⟨_, _, -, rfl⟩ := releaseEdf_next hr
    rfl
  unfold enter at h
  split at h
  · unfold finish at h
    split at h
    · cases h
      exact .inr rfl
    · cases h
  · cases h
    exact .inl rfl
  · cases h
    exact .inl rfl
  · exact .inl (hrelease h)
  · split at h
    · next hr =>
      split at h
      · cases h
      split at h
      · cases h
        exact .inl (hrelease hr)
      · cases h
    · next hr => exact absurd h (hr s' w')
  · cases h

/-- What a call needs of the registry is kept when registered ids stay registered. -/
theorem HasCandidate.mono (h : w.HasCandidate s) (hmono : w.Finds s → w.Finds s') :
    w.HasCandidate s' := by
  obtain ⟨cpu, task, sched, notifies, priority, deadline, time, pc⟩ := w
  cases pc with
  | snapshot todo busy => exact fun hbusy => hmono (h hbusy)
  | lookup todo best =>
    cases best with
    | none => exact hmono h
    | some => exact trivial
  | select best =>
    cases best with
    | none => exact h
    | some => exact trivial
  | _ => exact trivial

section

variable (hrunning : ∀ c, s.running c ≠ 0 → (s.registry (s.running c)).isSome)

include hrunning

theorem HasCandidate.read {pc : WakePc n} (h : w.HasCandidate s) (hread : WakeReads s w w.pc pc) :
    (w.moveTo pc).HasCandidate s := by
  obtain ⟨cpu, task, sched, notifies, priority, deadline, time, pc₀⟩ := w
  cases hread with
  | someBusy hbusy => exact h hbusy
  | snapshot c todo busy =>
    intro hbusy
    by_cases hc : s.running c = 0
    · rw [if_neg (not_not.mpr hc)] at hbusy ⊢
      exact h hbusy
    -- the task that has just been read is registered
    rw [if_pos hc]
    refine ⟨s.running c, ?_, hrunning c hc⟩
    exact List.mem_map.mpr ⟨(c, s.running c), by simp, rfl⟩
  | selects best =>
    cases best with
    | none =>
      obtain ⟨id, hid, -⟩ := h
      cases hid
    | some => exact trivial
  | @removed c id todo best hnone =>
    cases best with
    | none =>
      -- the id that was looked up is not the one that is registered
      obtain ⟨id', hid', hreg⟩ := h
      rcases List.mem_cons.mp hid' with rfl | hid'
      · rw [hnone] at hreg
        cases hreg
      · exact ⟨id', hid', hreg⟩
    | some => exact trivial
  | peek c running todo best x =>
    have hbest : ∃ b, updateBest s best (x, c) = some b := by
      unfold updateBest
      split
      · split <;> exact ⟨_, rfl⟩
      · exact ⟨_, rfl⟩
    obtain ⟨b, hb⟩ := hbest
    rw [hb]
    exact trivial
  | _ => exact trivial

/-- **A step of a call**, when the tasks in `RUNNING` are registered. -/
theorem HasCandidate.step {w' : WakeCall n} {d : Nat}
    (hregistry : s'.registry = s.registry) (h : w.HasCandidate s)
    (hstep : wakeStep s w d = some (.next s' w')) : w'.HasCandidate s' := by
  suffices hs : w'.HasCandidate s by
    refine hs.mono ?_
    rintro ⟨id, hid, hreg⟩
    exact ⟨id, hid, by rw [hregistry]; exact hreg⟩
  have hcase := wakeStep_cases hstep
  generalize hnext : WakeResult.next s' w' = r at hcase
  cases hcase with
  | read hread =>
    cases hnext
    exact h.read hrunning hread
  | enter hpc =>
    obtain hpc' | hpc' := enter_pc hnext.symm
    all_goals
      rw [HasCandidate, hpc']
      exact trivial
  | lock hpc hfree hpc' =>
    cases hnext
    rcases hpc' with rfl | rfl
    · exact trivial
    · exact fun hbusy => absurd rfl hbusy
  | unlock hpc =>
    unfold finish at hnext
    split at hnext
    · cases hnext
      exact trivial
    · cases hnext
  | claim | count | pushPending | setNeedPreemption | sendIpi | enqueue | notify =>
    cases hnext
    exact trivial
  | _ => cases hnext

end

end WakeCall

/-! ### Along every run -/

theorem Inv.registered_running {σ : Sys B n m} (h : Inv σ) (c : Cpu n)
    (hc : σ.shared.running c ≠ 0) : (σ.shared.registry (σ.shared.running c)).isSome := by
  have hrunning := (h.cpu c).running
  cases hocc : (σ.cpu c).occupant (σ.shared.nextTask c) with
  | none =>
    rw [hocc] at hrunning
    exact absurd hrunning hc
  | some t =>
    rw [hocc] at hrunning
    have hmem : ∃ p, (p, t) ∈ σ.shared.entries + (σ.cpu c).entries c := by
      rcases occupant_mem c hocc with ⟨p, hp⟩ | hnext
      · exact ⟨p, Multiset.mem_add.mpr (.inr hp)⟩
      · exact ⟨_, Multiset.mem_add.mpr (.inl (mem_entries_of_next hnext))⟩
    obtain ⟨p, hp⟩ := hmem
    rw [hrunning]
    change (σ.shared.registry (σ.shared.task t).id).isSome
    rw [(h.toLocal c).registry hp]
    rfl

/-- The task a CPU is about to remove from `TASKS`. -/
def CpuPc.removes : CpuPc n → Option Handle
  | .removeTask t => some t
  | _ => none

/-- A removal from `TASKS` leaves every call that has read the id, and found no candidate,
another id that is registered. -/
def KeepsCandidate (σ : Sys B n m) : Action n m → Prop
  | .cpu c _ => ∀ t ∈ (σ.cpu c).removes, ∀ p, ∀ w ∈ σ.callOf p,
      (σ.shared.task t).id ∈ w.unresolved →
        ∃ id ∈ w.unresolved, id ≠ (σ.shared.task t).id ∧ (σ.shared.registry id).isSome
  | _ => True

instance (σ : Sys B n m) : DecidablePred (KeepsCandidate σ) := fun a => by
  induction a using Action.casesOn <;> dsimp only [KeepsCandidate] <;> infer_instance

theorem Inv.registered_step {a : Action n m} (h : Inv σ)
    (hstep : sysStep σ a = some σ') {id : Nat} (hid : (σ.shared.registry id).isSome) :
    (σ'.shared.registry id).isSome ∨
      ∃ c inp t, a = .cpu c inp ∧ σ.cpu c = .removeTask t ∧ id = (σ.shared.task t).id := by
  -- a call writes no registration
  have hwake : ∀ {p w d r}, σ.callOf p = some w → wakeStep σ.shared w d = some r →
      (r.shared.registry id).isSome := fun hw hr => by
    rw [(wakeStep_ok (h.callOf_ok hw) hr).frame.registry]
    exact hid
  cases sysStep_cases hstep with
  | @cpu c inp r hrun hr =>
    cases cpuStep_cases hr with
    | @call w r hw hcall wrap after hwrap hafter =>
      have hreg := hwake (p := .inr c) hw hcall
      cases r <;> exact .inl hreg
    | own hw hown =>
      have hshared : (σ.setCpu c r).shared = r.shared := by cases r <;> rfl
      rw [hshared]
      rcases hown.registry id with hsame | ⟨t, hpc, hidt⟩
      · rw [hsame]
        exact .inl hid
      · exact .inr ⟨c, inp, t, rfl, hpc, hidt⟩
  | @call i inp w r hrun hw hr =>
    have hreg := hwake (p := .inl i) hw hr
    cases r <;> exact .inl hreg
  | @spawn i c ty dagInfo s hfree hs =>
    change (s.registry id).isSome ∨ _
    rw [(h.shared.spawned hs).registry]
    by_cases hnew : id = (s.task σ.shared.numHandles).id
    · subst hnew
      rw [Function.update_self]
      exact .inl rfl
    · rw [Function.update_of_ne hnew]
      exact .inl hid
  | panicking hpc hrun hs =>
    obtain ⟨-, hs⟩ := Option.ite_none_left_eq_some.mp hs
    obtain ⟨t, -, rfl⟩ := Option.map_eq_some_iff.mp hs
    exact .inl hid
  | wake | interrupt | advance => exact .inl hid

/-- Every call has a candidate or will find one. -/
def Sys.CallsFind (σ : Sys B n m) : Prop :=
  ∀ p w, σ.callOf p = some w → w.HasCandidate σ.shared

theorem Sys.CallsFind.step {a : Action n m} (h : σ.CallsFind) (hI : Inv σ)
    (ha : KeepsCandidate σ a) (hstep : sysStep σ a = some σ') : σ'.CallsFind := by
  intro p w' hw'
  rcases (sysStep_calls hstep).origin hw' with hw | ⟨w, d, hw, -, hr⟩ | ⟨c, hfresh⟩
  · -- the registry may have lost an id that the call has read
    refine (h p w' hw).mono ?_
    rintro ⟨id, hid, hreg⟩
    rcases hI.registered_step hstep hreg with hreg' | ⟨c, inp, t, rfl, hpc, rfl⟩
    · exact ⟨id, hid, hreg'⟩
    have hremoves : t ∈ (σ.cpu c).removes := by rw [hpc]; rfl
    obtain ⟨id', hid', hne, hreg'⟩ := ha t hremoves p w' hw hid
    rcases hI.registered_step hstep hreg' with hreg' | ⟨c₁, inp₁, t₁, ha₁, hpc₁, hidt⟩
    · exact ⟨id', hid', hreg'⟩
    cases ha₁
    rw [hpc] at hpc₁
    cases hpc₁
    exact absurd hidt hne
  · exact (h p w hw).step hI.registered_running (wakeStep_ok (hI.callOf_ok hw) hr).frame.registry hr
  · rcases hfresh with hfresh | hfresh
    all_goals
      rw [hfresh]
      exact trivial

/-- **The minimum is never taken over no candidate**, in every run in which threads can be
created and no removal takes the last candidate of a call. -/
theorem candidate_found {σ : Sys B n m}
    (h : Reachable (fun σ a => ThreadAvailable σ a ∧ KeepsCandidate σ a) σ) :
    ∀ p w, σ.callOf p = some w → w.pc ≠ .select none := by
  have hI : Inv σ ∧ σ.CallsFind := by
    refine h.invariant (I := fun σ => Inv σ ∧ σ.CallsFind) ⟨Inv.init B n m, ?_⟩
      fun σ a σ' hσ ha hstep => ⟨hσ.1.step ha.1 hstep, hσ.2.step hσ.1 ha.2 hstep⟩
    rintro (i | c) w hw
    · cases hw
    · change (if c = 0 then CpuPc.tick (workers n) else .top).call = some w at hw
      split at hw <;> cases hw
  intro p w hw hpc
  have hcand := hI.2 p w hw
  rw [WakeCall.HasCandidate, hpc] at hcand
  exact hcand

/-- A worker polls a task, and a task of higher priority has read the id of the first one. -/
def readRunning : List (Action 0 1) :=
  Action.spawnSteps 0 (.prioritizedFIFO 1) 10 ++ Action.cpuSteps 1 12 ++
    Action.spawnSteps 0 (.prioritizedFIFO 5) 7

/-- The polled task is the candidate. -/
theorem candidate_found_readRunning : ∃ σ : Sys Build.list 0 1,
    Reachable (fun σ a => ThreadAvailable σ a ∧ KeepsCandidate σ a) σ ∧
      (∀ p w, σ.callOf p = some w → w.pc ≠ .select none) ∧
      (σ.call 0).map WakeCall.pc = some (.select (some (0, 1))) := by
  refine Reaches.exists_of_run_imp (readRunning ++ List.replicate 3 (.call 0 {}))
    (fun σ => (σ.call 0).map WakeCall.pc = some (.select (some (0, 1)))) (by decide) ?_
  exact fun σ hreach hpc => ⟨candidate_found hreach, hpc⟩

/-- The polled task ends and is removed before it is looked up. -/
def removedBeforeLookup : List (Action 0 1) :=
  readRunning ++ [.cpu 1 { poll := .ready }] ++ Action.cpuSteps 1 3 ++ List.replicate 2 (.call 0 {})

/-- **A task that ends during a wake makes it panic**: the minimum over no candidate is
unwrapped. -/
theorem not_candidate_found_of_removal : ∃ σ : Sys Build.list 0 1, Reachable ThreadAvailable σ ∧
    (∃ p w, σ.callOf p = some w ∧ w.pc = .select none) ∧
    ∃ σ', sysStep σ (.call 0 {}) = some σ' ∧ σ'.callPanicked 0 := by
  refine Reaches.exists_of_run_imp removedBeforeLookup
    (fun σ => (σ.call 0).map WakeCall.pc = some (.select none) ∧
      ((sysStep σ (.call 0 {})).map fun σ' => σ'.callPanicked 0) = some true) (by decide) ?_
  rintro σ - ⟨hpc, hpanic⟩
  obtain ⟨w, hw, hpc⟩ := Option.map_eq_some_iff.mp hpc
  obtain ⟨σ', hstep, hpanic⟩ := Option.map_eq_some_iff.mp hpanic
  exact ⟨⟨.inl 0, w, hw, hpc⟩, σ', hstep, hpanic⟩

end Awkernel
