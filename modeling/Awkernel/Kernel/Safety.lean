import Awkernel.Kernel.Calls

/-!
# The invariant holds in every run

The invariant `Inv` holds initially and is kept by every action, provided that `do_preemption`
finds a thread whenever it needs one (`ThreadAvailable`).

* `Inv.exclusive`: no two CPUs hold the same task.
* `Inv.toLocal`: what a step of one CPU may use.
* `Inv.setCpu`, `Inv.ofFrame`: a step of a CPU and a step of a call keep the invariant.
* `Inv.reachable`: the invariant along runs.
-/

namespace Awkernel

open Ledger TransitionSystem Sys Multiset Function

variable {B : Build} {n m : Nat} {σ σ' : Sys B n m}

/-! ### The part of one CPU in the ledger -/

theorem Sys.entries_cpu (σ : Sys B n m) (c : Cpu n) :
    ∃ R, σ.entries = σ.shared.entries + (σ.cpu c).entries c + R ∧
      (∀ (σ' : Sys B n m) pc, σ'.cpu = update σ.cpu c pc → σ'.call = σ.call →
        σ'.entries = σ'.shared.entries + pc.entries c + R) ∧
      ∀ c', c' ≠ c → ∀ x ∈ (σ.cpu c').entries c', x ∈ R := by
  obtain ⟨R, hR, hset⟩ := exists_rest (fun c (pc : CpuPc n) => pc.entries c) σ.cpu c
  refine ⟨R + ∑ i, ((σ.call i).elim 0 WakeCall.entries), ?_, fun σ' pc hcpu hcall => ?_,
    fun c' hc' x hx => ?_⟩
  · rw [entries, hR]
    abel
  · rw [entries, hcpu, hcall, hset]
    abel
  -- with CPU `c` taken away, the entries of the others are what is left
  have hrest := hset .top
  have hmem : x ∈ ∑ j, (update σ.cpu c .top j).entries j := by
    refine mem_sum.mpr ⟨c', Finset.mem_univ c', ?_⟩
    rw [update_of_ne hc']
    exact hx
  rw [hrest] at hmem
  exact mem_add.mpr (.inl (by simpa [CpuPc.entries] using hmem))

/-- The ledger apart from the shared memory and the call in slot `i`. -/
theorem Sys.entries_call (σ : Sys B n m) (i : Fin m) :
    ∃ R, σ.entries = σ.shared.entries + (σ.call i).elim 0 WakeCall.entries + R ∧
      ∀ (σ' : Sys B n m) w, σ'.cpu = σ.cpu → σ'.call = update σ.call i w →
        σ'.entries = σ'.shared.entries + w.elim 0 WakeCall.entries + R := by
  obtain ⟨R, hR, hset⟩ :=
    exists_rest (fun _ (w : Option (WakeCall n)) => w.elim 0 WakeCall.entries) σ.call i
  refine ⟨∑ c, (σ.cpu c).entries c + R, ?_, fun σ' w hcpu hcall => ?_⟩
  · rw [entries, hR]
    abel
  · rw [entries, hcpu, hcall, hset]
    abel

variable {x : Place n × Handle} {c : Cpu n}

theorem Sys.mem_entries : x ∈ σ.entries ↔ x ∈ σ.shared.entries ∨
    (∃ c, x ∈ (σ.cpu c).entries c) ∨ ∃ i w, σ.call i = some w ∧ x ∈ w.entries := by
  have hcall : ∀ {o : Option (WakeCall n)}, x ∈ o.elim 0 WakeCall.entries ↔
      ∃ w, o = some w ∧ x ∈ w.entries := fun {o} => by cases o <;> simp
  simp only [entries, mem_add, mem_sum, Finset.mem_univ, true_and, hcall, or_assoc]

theorem Sys.mem_entries_of_shared (h : x ∈ σ.shared.entries) : x ∈ σ.entries :=
  mem_entries.mpr (.inl h)

theorem Sys.mem_entries_of_cpu (h : x ∈ (σ.cpu c).entries c) : x ∈ σ.entries :=
  mem_entries.mpr (.inr (.inl ⟨c, h⟩))

variable {w : WakeCall n} {t : Handle} {s' s : Shared B n} {i : Fin m} {p : Fin m ⊕ Cpu n}
  {r : WakeResult B n}

theorem Sys.mem_entries_of_call (hw : σ.callOf p = some w) (h : x ∈ w.entries) : x ∈ σ.entries := by
  cases p with
  | inl i => exact mem_entries.mpr (.inr (.inr ⟨i, w, hw, h⟩))
  | inr c =>
    refine mem_entries_of_cpu (c := c) ?_
    change (σ.cpu c).call = some w at hw
    generalize σ.cpu c = pc at hw
    cases pc with
    | draining | waking | timerWaking =>
      cases hw
      exact h
    | reScheduling =>
      cases hw
      exact mem_add.mpr (.inl h)
    | preempting i q =>
      cases q with
      | rewake =>
        cases hw
        exact mem_add.mpr (.inr h)
      | rewakingMoved =>
        cases hw
        exact mem_add.mpr (.inl (mem_add.mpr (.inr h)))
      | _ => cases hw
    | _ => cases hw

theorem Sys.container_mem {p : Place n} (hmem : (p, t) ∈ σ.entries) (hhand : ∀ h, p ≠ .hand h)
    (hexec : ∀ c, p ≠ .executing c) (hrem : ∀ c, p ≠ .removing c) :
    (p, t) ∈ σ.shared.entries := by
  rcases mem_entries.mp hmem with hmem | ⟨c, hc⟩ | ⟨i, w, -, hi⟩
  · exact hmem
  · rcases CpuPc.mem_entries hc with ⟨h, hp⟩ | hp | ⟨hp, -⟩
    · exact absurd hp (hhand h)
    · exact absurd hp (hexec c)
    · exact absurd hp (hrem c)
  · obtain ⟨h, hp⟩ := WakeCall.mem_entries hi
    exact absurd hp (hhand h)

theorem WakeStepOk.sysFlow (h : WakeStepOk σ.shared w r) (hw : σ.call i = some w) :
    Flow σ.shared (σ.setCall i r).shared σ.entries (σ.setCall i r).entries := by
  obtain ⟨R, hR, hset⟩ := σ.entries_call i
  have hflow := h.flow.add_right R
  rw [hw] at hR
  change σ.entries = σ.shared.entries + w.entries + R at hR
  rw [← hR] at hflow
  cases r with
  | next s' w' =>
    rw [hset (σ.setCall i (.next s' w')) (some w') rfl rfl]
    exact hflow
  | done s' =>
    rw [hset (σ.setCall i (.done s')) none rfl rfl]
    exact hflow
  | panicked s' =>
    rw [hset (σ.setCall i (.panicked s')) (some w) rfl
      (by rw [← hw]; exact (update_eq_self i σ.call).symm)]
    exact hflow

theorem Sys.entries_startCall (hfree : σ.call i = none)
    (hs' : s'.entries = σ.shared.entries) (hw : w.entries = 0) :
    (σ.startCall i s' w).entries = σ.entries := by
  obtain ⟨R, hR, hset⟩ := σ.entries_call i
  rw [hset (σ.startCall i s' w) (some w) rfl rfl, hR, hfree]
  change s'.entries + w.entries + R = σ.shared.entries + 0 + R
  rw [hs', hw]

/-! ### From the invariant to one CPU and back -/

namespace Inv

variable {c c' : Cpu n} {p p' : Place n} {t : Handle}

section

variable (h : Inv σ)

include h

theorem not_mem_rest {L R : Ledger (Place n) Handle} (hσ : σ.entries = L + R)
    (hL : (p, t) ∈ L) : (p', t) ∉ R := by
  intro hR
  have htwo := two_le_holders hL hR
  rw [← hσ, h.ledger t] at htwo
  exact absurd (htwo.trans (σ.shared.due_le_one t)) (by decide)

section

variable (hp : (p, t) ∈ σ.entries)

include hp

theorem place_unique (hp' : (p', t) ∈ σ.entries) : p = p' := by
  refine eq_of_holders_le_one ?_ hp hp'
  rw [h.ledger t]
  exact σ.shared.due_le_one t

theorem registry_of_mem : σ.shared.registry (σ.shared.task t).id = some t := by
  have hdue : σ.shared.due t = 1 := by
    have hpos := holders_pos hp
    rw [h.ledger t] at hpos
    have hle := σ.shared.due_le_one t
    omega
  by_cases hdead : (σ.shared.task t).info.state.isDead
  · exact Shared.registry_of_due hdue hdead
  · exact h.shared.live t (by simpa using hdead)

theorem lt_numHandles : t < σ.shared.numHandles :=
  (h.shared.registered _ _ (h.registry_of_mem hp)).1

end

/-- **No two CPUs hold the same task.** -/
theorem exclusive (hne : c' ≠ c) (hc : (p, t) ∈ (σ.cpu c).entries c) :
    (p', t) ∉ (σ.cpu c').entries c' := by
  obtain ⟨R, hR, -, hother⟩ := σ.entries_cpu c
  intro hc'
  exact h.not_mem_rest hR (mem_add.mpr (.inr hc)) (hother c' hne _ hc')

theorem held (c : Cpu n) (t : Handle) :
    holders t (σ.shared.entries + (σ.cpu c).entries c) ≤ σ.shared.due t := by
  obtain ⟨R, hR, -⟩ := σ.entries_cpu c
  rw [← h.ledger t, hR]
  exact holders_le_add t _ R

/-- Only the CPU that removes it still has an entry for a task that has ended. -/
theorem live (hmem : (p, t) ∈ σ.shared.entries + (σ.cpu c).entries c)
    (hp : ∀ c', p ≠ .removing c') : (σ.shared.task t).info.state.isDead = false := by
  obtain ⟨R, hR, -, hother⟩ := σ.entries_cpu c
  by_contra hdead
  rw [Bool.not_eq_false] at hdead
  have hdue : σ.shared.due t = 1 :=
    le_antisymm (σ.shared.due_le_one t) ((holders_pos hmem).trans_le (h.held c t))
  obtain ⟨c', hc'⟩ := h.ended t hdead (Shared.registry_of_due hdue hdead)
  have hremoving : (Place.removing c', t) ∈ (σ.cpu c').entries c' := by
    rw [hc']; exact mem_singleton_self _
  by_cases hcc : c' = c
  · -- the entry at hand is another one, in the shared memory
    subst hcc
    have hshared : (p, t) ∈ σ.shared.entries := by
      refine (mem_add.mp hmem).resolve_right fun hp' => hp c' ?_
      rw [hc'] at hp'
      exact (Prod.mk.inj (mem_singleton.mp hp')).1
    have htwo := (two_le_holders hshared hremoving).trans (h.held c' t)
    rw [hdue] at htwo
    exact absurd htwo (by decide)
  · exact h.not_mem_rest hR hmem (hother c' hcc _ hremoving)

theorem unlocked (hc : σ.cpu c = .tryLock t) : (σ.shared.task t).futureLocked = false := by
  by_contra hlocked
  rw [Bool.not_eq_false] at hlocked
  have hown : (Place.executing c, t) ∈ (σ.cpu c).entries c := by
    rw [hc]; exact mem_singleton_self _
  have hthread := (h.cpu c).locals
  rw [hc] at hthread
  rcases h.locked t hlocked with hsome | ⟨c', hc'⟩
  · rw [show (σ.shared.task t).info.thread = none from hthread] at hsome
    exact absurd hsome (by decide)
  -- another CPU would be inside the future
  obtain ⟨p', hp'⟩ := inside_mem c' hc'
  refine h.exclusive ?_ hown hp'
  rintro rfl
  rw [hc] at hc'
  exact hc'

theorem unterminated (hc : σ.cpu c = .checkFuture t) :
    (σ.shared.task t).futureTerminated = false := by
  by_contra hterm
  rw [Bool.not_eq_false] at hterm
  have hown : (Place.executing c, t) ∈ (σ.cpu c).entries c := by
    rw [hc]; exact mem_singleton_self _
  rcases h.terminated t hterm with hdead | ⟨c', hc'⟩
  · rw [h.live (mem_add.mpr (.inr hown)) (by simp)] at hdead
    exact absurd hdead (by decide)
  refine h.exclusive ?_ hown (ending_mem c' hc')
  rintro rfl
  rw [hc] at hc'
  cases hc'

theorem toLocal (c : Cpu n) : Local σ.shared c (σ.cpu c) where
  shared := h.shared
  ok := h.cpu c
  held := h.held c
  live _ _ := h.live
  unlocked _ := h.unlocked
  unterminated _ := h.unterminated

theorem setCpu {s' : Shared B n} {pc' : CpuPc n}
    (hstep : CpuStepOk σ.shared c (σ.cpu c) s' pc') (hshared : σ'.shared = s')
    (hcpu : σ'.cpu = update σ.cpu c pc') (hcall : σ'.call = σ.call) : Inv σ' := by
  subst hshared
  obtain ⟨R, hR, hset, -⟩ := σ.entries_cpu c
  have hself : σ'.cpu c = pc' := by rw [hcpu, update_self]
  have hother : ∀ c', c' ≠ c → σ'.cpu c' = σ.cpu c' := fun c' hc' => by
    rw [hcpu, update_of_ne hc']
  refine ⟨hstep.shared, fun c' => ?_, by rw [hcall]; exact h.call, ?_, fun t ht hreg => ?_,
    fun t ht => ?_, fun t ht => ?_⟩
  · by_cases hc' : c' = c
    · subst hc'; rw [hself]; exact hstep.ok
    have hok := h.cpu c'
    rw [hother c' hc']
    refine ⟨?_, ?_, ?_⟩
    · rw [hstep.frame.running c' hc', hstep.frame.nextTask c' hc',
        idOf_congr fun t => (hstep.frame.task t).id]
      exact hok.running
    · rw [hstep.frame.nextTask c' hc']
      exact hok.next
    refine hok.locals.stable (fun _ t _ => (hstep.frame.task t).id)
      (hstep.frame.pending c' hc') (fun _ t _ => hstep.frame.isDead t) fun t ht => ?_
    -- the task is in the hands of the other CPU
    have hown : (Place.executing c', t) ∈ (σ.cpu c').entries c' := by
      rw [ht]; exact mem_singleton_self _
    exact hstep.thread t fun p hp => h.exclusive hc' hp hown
  · refine Flow.holders_eq (L := σ.entries) (s := σ.shared) ?_ h.ledger
    rw [hR, hset σ' pc' hcpu hcall]
    exact hstep.flow.add_right R
  · rcases hstep.ended t ht hreg with hpc | ⟨hdead, hpc⟩
    · exact ⟨c, by rw [hself, hpc]⟩
    rw [(hstep.frame.task t).id] at hreg
    obtain ⟨c', hc'⟩ := h.ended t hdead (hstep.frame.registry _ _ hreg)
    refine ⟨c', ?_⟩
    rw [hother c' fun hcc => hpc (hcc ▸ hc'), hc']
  · rcases hstep.locked t ht with hin | ⟨hlocked, hout⟩
    · exact hin.imp_right fun hin => ⟨c, by rw [hself]; exact hin⟩
    rw [not_or] at hout
    obtain ⟨c', hc'⟩ := (h.locked t hlocked).resolve_left hout.1
    refine .inr ⟨c', ?_⟩
    rw [hother c' fun hcc => hout.2 (hcc ▸ hc')]
    exact hc'
  · rcases hstep.terminated t ht with hend | ⟨hterm, hout⟩
    · exact hend.imp_right fun hend => ⟨c, by rw [hself]; exact hend⟩
    rw [not_or] at hout
    obtain ⟨c', hc'⟩ := (h.terminated t hterm).resolve_left hout.1
    refine .inr ⟨c', ?_⟩
    rw [hother c' fun hcc => hout.2 (hcc ▸ hc')]
    exact hc'

/-- A step that leaves alone what a call leaves alone keeps the invariant, if it keeps the
ledger at what is due. -/
theorem ofFrame (hf : WakeFrame σ.shared σ'.shared) (hcpu : σ'.cpu = σ.cpu)
    (hcall : ∀ i w, σ'.call i = some w → w.Ok)
    (hledger : ∀ t, holders t σ'.entries = σ'.shared.due t) : Inv σ' := by
  refine ⟨hf.sharedOk h.shared, fun c => ?_, hcall, hledger, fun t ht hreg => ?_, fun t ht => ?_,
    fun t ht => ?_⟩
  · have hok := h.cpu c
    rw [hcpu]
    refine ⟨?_, ?_, ?_⟩
    · rw [hf.running, hf.nextTask, idOf_congr fun t => (hf.task t).id]
      exact hok.running
    · rw [hf.nextTask]
      exact hok.next
    · refine hok.locals.stable (fun _ t _ => (hf.task t).id) (hf.pending c) (fun _ t _ ht => ?_)
        fun t _ => (hf.task t).thread
      rw [(hf.task t).isDead]
      exact ht
  · rw [(hf.task t).isDead] at ht
    rw [(hf.task t).id, hf.registry] at hreg
    rw [hcpu]
    exact h.ended t ht hreg
  · rw [(hf.task t).futureLocked] at ht
    rw [(hf.task t).thread, hcpu]
    exact h.locked t ht
  · rw [(hf.task t).futureTerminated] at ht
    rw [(hf.task t).isDead, hcpu]
    exact h.terminated t ht

end

theorem call_update {call : Fin m → Option (WakeCall n)} {x : Option (WakeCall n)}
    (hcall : ∀ j w, call j = some w → w.Ok) (hx : ∀ w, x = some w → w.Ok) (j : Fin m)
    (w : WakeCall n) (h : update call i x j = some w) : w.Ok := by
  by_cases hj : j = i
  · subst hj; rw [update_self] at h; exact hx w h
  · rw [update_of_ne hj] at h; exact hcall j w h

theorem setCall {w : WakeCall n} (h : Inv σ)
    (hw : σ.call i = some w) (hstep : WakeStepOk σ.shared w r) : Inv (σ.setCall i r) := by
  have hledger := (hstep.sysFlow hw).holders_eq h.ledger
  cases r with
  | next s' w' =>
    exact h.ofFrame hstep.frame rfl
      (call_update h.call fun w₁ hw₁ => Option.some.inj hw₁ ▸ hstep.ok) hledger
  | done s' => exact h.ofFrame hstep.frame rfl (call_update h.call nofun) hledger
  | panicked s' => exact h.ofFrame hstep.frame rfl h.call hledger

theorem startCall (h : Inv σ) (hfree : σ.call i = none) :
    Inv (σ.startCall i σ.shared (σ.shared.wake c t)) := by
  refine h.ofFrame (.refl _) rfl (call_update h.call fun w hw => ?_) fun u => ?_
  · cases hw
    rfl
  · rw [entries_startCall hfree rfl rfl]
    exact h.ledger u

end Inv

/-! ### Spawning -/

section Spawn

variable {s s' : Shared B n} {ty : SchedulerType} {dagInfo : Option DagInfo} {t : Handle}

/-- The memory after a spawn. The id of the new task was free. -/
structure Spawned (s s' : Shared B n) : Prop where
  old : ∀ t, t ≠ s.numHandles → s'.task t = s.task t
  new : (s'.task s.numHandles).id ≠ 0 ∧ (s'.task s.numHandles).id < 2 ^ 32 ∧
    s.registry (s'.task s.numHandles).id = none
  clustered : (s'.task s.numHandles).scheduler = .clusteredEDF ↔
    (s'.task s.numHandles).cpuSet.isSome
  future : (s'.task s.numHandles).futureLocked = false ∧
    (s'.task s.numHandles).futureTerminated = false
  info : (s'.task s.numHandles).info.state = .initialized ∧
    (s'.task s.numHandles).info.thread = none
  type : getScheduler (s'.task s.numHandles).info.schedulerType =
    (s'.task s.numHandles).scheduler ∧ (s'.task s.numHandles).info.panicked = false
  rest : ∃ task, s' =
    { s with
      task := task
      numHandles := s.numHandles + 1
      registry := update s.registry (s'.task s.numHandles).id (some s.numHandles)
      candidateId := (s'.task s.numHandles).id }

theorem SharedOk.spawned (h : SharedOk s) (hspawn : s.spawn ty dagInfo = some s') :
    Spawned s s' := by
  obtain ⟨id, task, hid, htask, rfl⟩ := Shared.spawn_spec hspawn
  obtain ⟨hfree, hpos, hlt⟩ := findId_spec hid h.candidateId
  obtain ⟨rfl, hclustered, hunlocked, hunterminated, hinit, hthread, htype, hpanicked⟩ :=
    newTask_spec htask
  have hself : update s.task s.numHandles task s.numHandles = task :=
    update_self ..
  refine ⟨fun t ht => update_of_ne ht _ _, ?_, ?_, ?_, ?_, ?_,
    ⟨update s.task s.numHandles task, ?_⟩⟩
  all_goals simp only [hself]
  · exact ⟨hpos, hlt, hfree⟩
  · exact hclustered
  · exact ⟨hunlocked, hunterminated⟩
  · exact ⟨hinit, hthread⟩
  · exact ⟨htype, hpanicked⟩

namespace Spawned

section

variable (h : Spawned s s')

include h

theorem numHandles : s'.numHandles = s.numHandles + 1 := by
  obtain ⟨task, hs⟩ := h.rest
  exact congrArg Shared.numHandles hs

theorem registry : s'.registry =
    update s.registry (s'.task s.numHandles).id (some s.numHandles) := by
  obtain ⟨task, hs⟩ := h.rest
  exact congrArg Shared.registry hs

theorem registry_iff (ht : t ≠ s.numHandles) :
    s'.registry (s'.task t).id = some t ↔ s.registry (s.task t).id = some t := by
  rw [h.old t ht, h.registry]
  by_cases hid : (s.task t).id = (s'.task s.numHandles).id
  · rw [hid, update_self, h.new.2.2]
    exact ⟨fun heq => absurd (Option.some.inj heq).symm ht, nofun⟩
  · rw [update_of_ne hid]

theorem entries : s'.entries = s.entries := by
  obtain ⟨task, hs⟩ := h.rest
  rw [hs]
  rfl

theorem due (hs : SharedOk s) : s'.due = s.due := by
  funext t
  by_cases ht : t = s.numHandles
  · -- neither the unused handle nor the new task has an entry
    subst ht
    have hdead := hs.unused s.numHandles le_rfl
    have hreg : s.registry (s.task s.numHandles).id ≠ some s.numHandles := fun hreg =>
      absurd (hs.registered _ _ hreg).1 (Nat.lt_irrefl _)
    have hactive : ¬ (s.task s.numHandles).info.state.isActive := by
      revert hdead
      cases (s.task s.numHandles).info.state <;> decide
    have hbefore : s.due s.numHandles = 0 := by
      rw [Shared.due, if_neg]
      simp [hactive, hreg]
    have hafter : s'.due s.numHandles = 0 := by
      rw [Shared.due, if_neg]
      rw [h.info.1]
      simp [State.isActive, State.isDead]
    rw [hbefore, hafter]
  · have hiff := h.registry_iff ht
    rw [h.old t ht] at hiff
    rw [Shared.due, Shared.due]
    simp only [h.old t ht, hiff]

theorem sharedOk (hs : SharedOk s) : SharedOk s' := by
  have hlt : ∀ {t}, t < s'.numHandles → t ≠ s.numHandles → t < s.numHandles := fun ht hne => by
    rw [h.numHandles] at ht
    omega
  refine ⟨fun t ht => ?_, fun t ht => ?_, fun id t hreg => ?_, fun t ht => ?_, fun t ht => ?_,
    fun t k hk => ?_, ?_, ?_, ?_⟩
  · rw [h.numHandles] at ht
    rw [h.old t (by omega)]
    exact hs.unused t (by omega)
  · by_cases hne : t = s.numHandles
    · subst hne; exact ⟨h.new.1, h.new.2.1⟩
    · rw [h.old t hne]; exact hs.id t (hlt ht hne)
  · rw [h.registry] at hreg
    by_cases hid : id = (s'.task s.numHandles).id
    · rw [hid, update_self] at hreg
      cases hreg
      exact ⟨by rw [h.numHandles]; exact Nat.lt_succ_self _, hid.symm⟩
    rw [update_of_ne hid] at hreg
    obtain ⟨ht, htid⟩ := hs.registered id t hreg
    rw [h.old t (Nat.ne_of_lt ht), h.numHandles]
    exact ⟨Nat.lt_succ_of_lt ht, htid⟩
  · by_cases hne : t = s.numHandles
    · subst hne; rw [h.registry, update_self]
    refine (h.registry_iff hne).mpr (hs.live t ?_)
    rw [h.old t hne] at ht
    exact ht
  · by_cases hne : t = s.numHandles
    · subst hne; exact h.clustered
    · rw [h.old t hne]; exact hs.clustered t (hlt ht hne)
  · by_cases hne : t = s.numHandles
    · subst hne; rw [h.info.2] at hk; cases hk
    · rw [h.old t hne] at hk; exact hs.threads t k hk
  all_goals obtain ⟨task, hrest⟩ := h.rest
  · rw [hrest]; exact hs.pooled
  · rw [hrest]; exact hs.threadPool
  · rw [show s'.candidateId = _ from congrArg Shared.candidateId hrest]
    exact h.new.2.1

end

end Spawned

end Spawn

/-- **A spawn keeps the invariant**: the new task is in no place. -/
theorem Inv.spawn {ty : SchedulerType} {dagInfo : Option DagInfo} (h : Inv σ)
    (hfree : σ.call i = none)
    (hspawn : σ.shared.spawn ty dagInfo = some s') :
    Inv (σ.startCall i s' (s'.wake c σ.shared.numHandles)) := by
  have hs := h.shared.spawned hspawn
  -- every task that a CPU refers to is an old one
  have hold : ∀ c p t, (p, t) ∈ σ.shared.entries + (σ.cpu c).entries c →
      s'.task t = σ.shared.task t := fun c p t ht =>
    hs.old t (Nat.ne_of_lt ((h.toLocal c).lt_numHandles ht))
  have hown : ∀ c p t, (p, t) ∈ (σ.cpu c).entries c → s'.task t = σ.shared.task t :=
    fun c p t ht => hold c p t (mem_add.mpr (.inr ht))
  refine ⟨hs.sharedOk h.shared, fun c => ?_, Inv.call_update h.call fun w hw => ?_, fun t => ?_,
    fun t ht hreg => ?_, fun t ht => ?_, fun t ht => ?_⟩
  · obtain ⟨task, hrest⟩ := hs.rest
    have hrun : s'.running = σ.shared.running := by rw [hrest]
    have hnext : s'.nextTask = σ.shared.nextTask := by rw [hrest]
    have hpending : s'.pending = σ.shared.pending := by rw [hrest]
    refine ⟨?_, ?_, ?_⟩
    · change s'.running c = s'.idOf ((σ.cpu c).occupant (s'.nextTask c))
      rw [hrun, hnext, (h.cpu c).running]
      cases hocc : (σ.cpu c).occupant (σ.shared.nextTask c) with
      | none => rfl
      | some t =>
        change (σ.shared.task t).id = (s'.task t).id
        rcases occupant_mem c hocc with ⟨p, hp⟩ | hmem
        · rw [hown c p t hp]
        · rw [hold c _ t (mem_add.mpr (.inl (mem_entries_of_next hmem)))]
    · change s'.nextTask c = [] ∨ _ ∧ ∃ t, s'.nextTask c = [t]
      rw [hnext]
      exact (h.cpu c).next
    · refine (h.cpu c).locals.stable (fun p t ht => ?_) (fun t ht => ?_) (fun p t ht hd => ?_)
        fun t ht => ?_
      · change (s'.task t).id = _
        rw [hown c p t ht]
      · change t ∈ s'.pending c
        rw [hpending]
        exact ht
      · change ((s'.task t).info.state.isDead : Prop)
        rw [hown c p t ht]
        exact hd
      · change (s'.task t).info.thread = _
        rw [hown c (.executing c) t (by rw [ht]; exact mem_singleton_self _)]
  · cases hw
    rfl
  · rw [entries_startCall hfree hs.entries rfl, h.ledger t]
    exact (congrFun (hs.due h.shared) t).symm
  · change ((s'.task t).info.state.isDead : Prop) at ht
    by_cases hne : t = σ.shared.numHandles
    · subst hne; rw [hs.info.1] at ht; exact absurd ht (by decide)
    · rw [hs.old t hne] at ht
      exact h.ended t ht ((hs.registry_iff hne).mp hreg)
  · change ((s'.task t).futureLocked : Prop) at ht
    by_cases hne : t = σ.shared.numHandles
    · subst hne; rw [hs.future.1] at ht; exact absurd ht (by decide)
    rw [hs.old t hne] at ht
    change ((s'.task t).info.thread.isSome : Prop) ∨ _
    rw [hs.old t hne]
    exact h.locked t ht
  · change ((s'.task t).futureTerminated : Prop) at ht
    by_cases hne : t = σ.shared.numHandles
    · subst hne; rw [hs.future.2] at ht; exact absurd ht (by decide)
    rw [hs.old t hne] at ht
    change ((s'.task t).info.state.isDead : Prop) ∨ _
    rw [hs.old t hne]
    exact h.terminated t ht

/-! ### Interrupts -/

theorem interruptible_resume {pc : CpuPc n} {i : Interrupted} (h : pc.interruptible = some i) :
    pc = i.resume := by
  unfold CpuPc.interruptible at h
  split at h
  all_goals cases h <;> rfl

theorem sameRole_interrupt (next : List Handle) (i : Interrupted) :
    SameRole next (i.resume : CpuPc n) (.preempting i .peekPending) := by
  cases i with
  | polling t => exact ⟨rfl, nofun, fun _ h => congrArg some h, nofun, nofun⟩
  | sleeping p => exact ⟨rfl, nofun, nofun, nofun, nofun⟩

theorem stepOk_interrupt {i : Interrupted} (hl : Local s c i.resume) :
    CpuStepOk s c i.resume (s.clearRequest c) (.preempting i .peekPending) :=
  .quiet hl (.rest s) rfl rfl rfl (entries_resume i).symm (sameRole_interrupt _ i) trivial

theorem Local.markPanicking_eq (hl : Local s c (.polling t)) (hmark : s.markPanicking c = some s') :
    s' = s.modifyInfo t fun info => { info with schedulerType := .panicked, panicked := true } := by
  have hmem : (Place.executing c, t) ∈ s.entries + CpuPc.entries c (.polling t) := mem_own rfl
  have hrun : s.running c = (s.task t).id := hl.ok.running
  rw [Shared.markPanicking, hrun, if_neg (hl.id_ne_zero hmem), hl.registry hmem] at hmark
  exact (Option.some.inj hmark).symm

theorem stepOk_panicking (hl : Local s c (.polling t)) (hmark : s.markPanicking c = some s') :
    CpuStepOk s c (.polling t) (s'.clearRequest c) (.preempting (.polling t) .peekPending) := by
  obtain rfl := hl.markPanicking_eq hmark
  have hown : OwnContainers c s (s.clearRequest c) := ⟨rfl, rfl, rfl, fun _ _ => rfl,
    fun _ _ => rfl, fun _ _ => rfl, hl.shared.pooled, hl.shared.threadPool⟩
  change CpuStepOk s c (.polling t) ((s.clearRequest c).modifyInfo t fun info =>
    { info with schedulerType := .panicked, panicked := true }) _
  refine .ofInfo hl hown rfl id (hl.shared.threads t) (.inr rfl)
    (.stay _ (Shared.due_modifyInfo _ t rfl) rfl) ⟨?_, hl.ok.next, trivial⟩ .inr nofun
    (Or.imp_right (congrArg some)) (fun u _ => congrArg some) nofun nofun
  rw [idOf_modifyInfo]
  exact hl.ok.running

theorem Inv.callOf_ok (h : Inv σ) (hw : σ.callOf p = some w) : w.Ok := by
  cases p with
  | inl i => exact h.call i w hw
  | inr c =>
    have hlocals := (h.cpu c).locals
    change (σ.cpu c).call = some w at hw
    generalize σ.cpu c = pc at hw hlocals
    cases pc with
    | draining | waking | timerWaking | reScheduling =>
      cases hw
      exact hlocals
    | preempting i p =>
      cases p with
      | rewake =>
        cases hw
        exact hlocals
      | rewakingMoved =>
        cases hw
        exact hlocals.1
      | _ => cases hw
    | _ => cases hw

/-! ### The invariant along runs -/

/-- `do_preemption` finds a thread whenever it needs one. -/
def ThreadAvailable (σ : Sys B n m) : Action n m → Prop
  | .cpu c inp => CanCreate σ.shared inp (σ.cpu c)
  | _ => True

instance (σ : Sys B n m) : DecidablePred (ThreadAvailable σ) := fun a => by
  induction a using Action.casesOn <;> dsimp only [ThreadAvailable] <;> infer_instance

theorem entries_boot (B : Build) (n : Nat) : (Shared.boot B n).entries = 0 := by
  have hqueued : ∀ S, (Shared.boot B n).queued S = [] := by
    intro S
    cases S with
    | clusteredEDF => exact AffinityQueue.Sized.vals_empty
    | _ => rfl
  simp only [Shared.entries, hqueued, placed_nil, Finset.sum_const_zero, zero_add]
  exact Finset.sum_eq_zero fun c _ => rfl

theorem Inv.init (B : Build) (n m : Nat) : Inv (init B n m) := by
  refine ⟨⟨fun _ _ => rfl, nofun, nofun, nofun, nofun, nofun, nofun, nofun,
    (by decide : 1 < 2 ^ 32)⟩, fun c => ?_, nofun, fun t => ?_, nofun, nofun, fun _ _ => .inl rfl⟩
  · by_cases hc : c = 0
    · subst hc; exact ⟨rfl, .inl rfl, trivial⟩
    have hpc : (Sys.init B n m).cpu c = .top := if_neg hc
    rw [hpc]
    exact ⟨rfl, .inl rfl, trivial⟩
  · have hcpu : ∀ c, ((Sys.init B n m).cpu c).entries c = 0 := fun c => by
      by_cases hc : c = 0
      · subst hc; rfl
      · rw [show (Sys.init B n m).cpu c = .top from if_neg hc]; rfl
    have hcall : ∀ i, ((Sys.init B n m).call i).elim 0 WakeCall.entries = 0 := fun _ => rfl
    have hentries : (Sys.init B n m).entries = 0 := by
      simp only [entries, hcpu, hcall, Finset.sum_const_zero, add_zero]
      exact entries_boot B n
    rw [hentries]
    rfl

/-- A step of CPU `c` in the system: its own, an interrupt or a panic of the polled task. -/
structure CpuMove (σ σ' : Sys B n m) (c : Cpu n) : Prop where
  ok : CpuStepOk σ.shared c (σ.cpu c) σ'.shared (σ'.cpu c)
  cpu : ∀ c', c' ≠ c → σ'.cpu c' = σ.cpu c'
  call : σ'.call = σ.call

theorem CpuMove.of_ok {r : CpuResult B n}
    (h : CpuStepOk σ.shared c (σ.cpu c) r.shared (r.after (σ.cpu c))) :
    CpuMove σ (σ.setCpu c r) c := by
  cases r with
  | next s' pc' =>
    refine ⟨?_, fun c' hc' => update_of_ne hc' _ _, rfl⟩
    rw [show (σ.setCpu c (.next s' pc')).cpu c = pc' from update_self ..]
    exact h
  | panicked s' => exact ⟨h, fun _ _ => rfl, rfl⟩

theorem CpuMove.cpu_eq (hm : CpuMove σ σ' c) :
    σ'.cpu = update σ.cpu c (σ'.cpu c) := eq_update_iff.mpr ⟨rfl, hm.cpu⟩

theorem CpuMove.inv (hm : CpuMove σ σ' c) (h : Inv σ) : Inv σ' :=
  h.setCpu hm.ok rfl hm.cpu_eq hm.call

theorem CpuMove.flow (hm : CpuMove σ σ' c) : Flow σ.shared σ'.shared σ.entries σ'.entries := by
  obtain ⟨R, hR, hset, -⟩ := σ.entries_cpu c
  rw [hR, hset σ' _ hm.cpu_eq hm.call]
  exact hm.ok.flow.add_right R

theorem Inv.cpuMove {inp : Input} (h : Inv σ) (ha : ThreadAvailable σ (.cpu c inp))
    (hstep : sysStep σ (.cpu c inp) = some σ') :
    CpuMove σ σ' c := by
  cases sysStep_cases hstep with
  | cpu _ hr => exact .of_ok (cpuStep_ok (h.toLocal c) ha hr)

theorem Inv.interruptMove {i : Interrupted} (h : Inv σ) (hi : (σ.cpu c).interruptible = some i) :
    CpuMove σ (σ.setCpu c (.next (σ.shared.clearRequest c) (.preempting i .peekPending))) c := by
  have hpc := interruptible_resume hi
  have hl := h.toLocal c
  rw [hpc] at hl
  exact .of_ok (hpc ▸ stepOk_interrupt hl)

theorem Inv.panickingMove (h : Inv σ) (hpc : σ.cpu c = .polling t)
    (hs : σ.shared.markPanicking c = some s) : CpuMove σ
      (σ.setCpu c (.next (s.clearRequest c) (.preempting (.polling t) .peekPending))) c := by
  have hl := h.toLocal c
  rw [hpc] at hl
  exact .of_ok (hpc ▸ stepOk_panicking hl hs)

/-- **Every action keeps the invariant.** -/
theorem Inv.step {a : Action n m} (h : Inv σ) (ha : ThreadAvailable σ a)
    (hstep : sysStep σ a = some σ') : Inv σ' := by
  cases sysStep_cases hstep with
  | cpu _ hr => exact (h.cpuMove ha hstep).inv h
  | call _ hw hr => exact h.setCall hw (wakeStep_ok (h.call _ _ hw) hr)
  | wake hfree => exact h.startCall hfree
  | spawn hfree hs => exact h.spawn hfree hs
  | interrupt _ _ hi => exact (h.interruptMove hi).inv h
  | panicking hpc _ hs => exact (h.panickingMove hpc hs).inv h
  | advance micros => exact h.ofFrame (.rest σ.shared) rfl h.call h.ledger

/-- **Every action is a flow.** -/
theorem Inv.flow {a : Action n m} (h : Inv σ) (ha : ThreadAvailable σ a)
    (hstep : sysStep σ a = some σ') : Flow σ.shared σ'.shared σ.entries σ'.entries := by
  cases sysStep_cases hstep with
  | cpu _ hr => exact (h.cpuMove ha hstep).flow
  | call _ hw hr => exact (wakeStep_ok (h.call _ _ hw) hr).sysFlow hw
  | wake hfree =>
    rw [entries_startCall hfree rfl rfl]
    exact .stay _ rfl rfl
  | spawn hfree hs =>
    have hspawned := h.shared.spawned hs
    rw [entries_startCall hfree hspawned.entries rfl]
    obtain ⟨task, hrest⟩ := hspawned.rest
    have hnum := congrArg Shared.numTaskInQueue hrest
    exact .stay _ (hspawned.due h.shared) hnum
  | interrupt _ _ hi => exact (h.interruptMove hi).flow
  | panicking hpc _ hs => exact (h.panickingMove hpc hs).flow
  | advance micros => exact .stay _ rfl rfl

/-- **The invariant of the kernel.** -/
theorem Inv.reachable {ok : Sys B n m → Action n m → Prop}
    (hok : ∀ σ a, ok σ a → ThreadAvailable σ a) (h : Reachable ok σ) : Inv σ :=
  Reaches.invariant h (Inv.init B n m) fun _ _ _ hI ha hs => hI.step (hok _ _ ha) hs

end Awkernel
