import Awkernel.Kernel.Invariant

/-!
# The steps of the CPUs

Every step of a CPU meets `CpuStepOk`, provided that a thread can be created when
`do_preemption` needs one (`cpuStep_ok`).

Three general lemmas cover the steps. `CpuStepOk.ofFrame` is for steps that leave alone what a
call leaves alone, and through it for the calls a CPU makes and for everything that only reads.
`CpuStepOk.ofContainers` is for steps that write no task, `CpuStepOk.ofTask` for steps that
write one task the CPU holds.
-/

namespace Awkernel

open Ledger Shared Multiset

variable {B : Build} {n : Nat} {s s' : Shared B n} {c : Cpu n} {pc pc' : CpuPc n}

/-! ### What the local part of the invariant gives -/

variable {t : Handle} {q : Place n} {pick : List GEDFTask → Nat} {S : Sched}

theorem Shared.due_of_isActive (h : (s.task t).info.state.isActive) : s.due t = 1 := by
  rw [due, if_pos (.inl h)]

/-- A task that has ended is due an entry only while it is registered. -/
theorem Shared.registry_of_due (hdue : s.due t = 1) (hdead : (s.task t).info.state.isDead) :
    s.registry (s.task t).id = some t := by
  by_contra hreg
  have hactive : ¬ (s.task t).info.state.isActive := by
    revert hdead
    cases (s.task t).info.state <;> decide
  rw [due, if_neg (by simp [hactive, hreg])] at hdue
  cases hdue

theorem mem_entries_of_queued (h : t ∈ s.queued S) : (.queue S, t) ∈ s.entries :=
  mem_entries.mpr (.inl ⟨S, rfl, h⟩)

theorem mem_entries_of_pending (h : t ∈ s.pending c) : (.pending c, t) ∈ s.entries :=
  mem_entries.mpr (.inr ⟨c, .inl ⟨rfl, h⟩⟩)

theorem mem_entries_of_next (h : t ∈ s.nextTask c) : (.next c, t) ∈ s.entries :=
  mem_entries.mpr (.inr ⟨c, .inr (.inl ⟨rfl, h⟩)⟩)

namespace Local

variable {p : Place n} {t : Handle}

section

variable (h : Local s c pc)

include h

section

variable (hmem : (p, t) ∈ s.entries + pc.entries c)

include hmem

theorem due : s.due t = 1 :=
  le_antisymm (s.due_le_one t) ((holders_pos hmem).trans_le (h.held t))

theorem registry : s.registry (s.task t).id = some t := by
  by_cases hdead : (s.task t).info.state.isDead
  · exact registry_of_due (h.due hmem) hdead
  · exact h.shared.live t (by simpa using hdead)

theorem lt_numHandles : t < s.numHandles :=
  (h.shared.registered _ _ (h.registry hmem)).1

theorem id_ne_zero : (s.task t).id ≠ 0 :=
  (h.shared.id t (h.lt_numHandles hmem)).1

theorem eq_of_id_eq {p' : Place n} {t' : Handle} (hmem' : (p', t') ∈ s.entries + pc.entries c)
    (hid : (s.task t).id = (s.task t').id) : t = t' := by
  have hreg := h.registry hmem
  rw [hid, h.registry hmem'] at hreg
  exact (Option.some.inj hreg).symm

theorem isActive (hp : ∀ c', p ≠ .removing c') : (s.task t).info.state.isActive := by
  have hdue := h.due hmem
  have hdead := h.live p t hmem hp
  by_contra hactive
  rw [Shared.due, if_neg (by simp [hactive, hdead])] at hdue
  cases hdue

end

theorem noDead : s.NoDead := by
  intro S t ht
  exact h.live (.queue S) t (mem_add.mpr (.inl (mem_entries_of_queued ht))) (by simp)

end

end Local

/-! ### The tasks a CPU refers to -/

theorem inside_mem {pc : CpuPc n} (c : Cpu n) (h : pc.inside t) : ∃ p, (p, t) ∈ pc.entries c := by
  have hthread : ∀ {k : ThreadContext}, k.task = some t →
      (Place.executing c, t) ∈ entryOf (.executing c) k.task := fun hk => by
    rw [hk]; exact mem_singleton_self _
  cases pc with
  | checkFuture x | checkState x | startPoll x | polling x =>
    obtain rfl : x = t := h
    exact ⟨_, mem_singleton_self _⟩
  | pool k | reSchedule k | repool k => exact ⟨_, hthread h⟩
  | reScheduling call k => exact ⟨_, mem_add.mpr (.inr (hthread h))⟩
  | preempting i p =>
    have hi : i.task = some t → ∀ q : Place n, (q, t) ∈ entryOf q i.task := fun hi q => by
      rw [hi]; exact mem_singleton_self _
    cases p with
    | peekPending | readCurrent | compare | removePending | movePending => exact ⟨_, hi h _⟩
    | rewakingMoved =>
      exact ⟨_, mem_add.mpr (.inl (mem_add.mpr (.inl (hi h _))))⟩
    | saveContext currentTask k =>
      rcases h with h | h
      · exact ⟨_, mem_add.mpr (.inl (hi h _))⟩
      · exact ⟨_, mem_add.mpr (.inr (hthread h))⟩
    | pushPreempted currentTask k => exact ⟨_, mem_add.mpr (.inr (hthread h))⟩
    | _ => exact ⟨_, mem_add.mpr (.inl (hi h _))⟩
  | _ => cases h

theorem ending_mem {pc : CpuPc n} (c : Cpu n) (h : pc.ending = some t) :
    (.executing c, t) ∈ pc.entries c := by
  unfold CpuPc.ending at h
  split at h
  · cases h
    exact mem_singleton_self _
  · cases h
    exact mem_singleton_self _
  · cases h

/-- The task in `RUNNING` is held by the CPU or waits in `NEXT_TASK`. -/
theorem occupant_mem {next : List Handle} (c : Cpu n) (h : pc.occupant next = some t) :
    (∃ p, (p, t) ∈ pc.entries c) ∨ t ∈ next := by
  have hhead : next.head? = some t → t ∈ next := List.mem_of_mem_head?
  have hthread : ∀ {k : ThreadContext}, k.occupant next = some t →
      (Place.executing c, t) ∈ entryOf (.executing c) k.task ∨ t ∈ next := fun {k} hk => by
    cases k with
    | entry | pooled => exact .inr (hhead hk)
    | preempted i =>
      refine .inl ?_
      rw [show (ThreadContext.preempted i).task = some t from hk]
      exact mem_singleton_self _
  cases pc with
  | top | takeNext => exact .inr (hhead h)
  | getNext g =>
    cases g with
    | lock | pop => cases h
    | decrement x =>
      cases h
      exact .inl ⟨_, mem_singleton_self _⟩
    | unlock x =>
      obtain rfl : x = some t := h
      exact .inl ⟨_, mem_singleton_self _⟩
  | dispatch x | tryLock x | lockFailed x | checkFuture x | checkState x | startPoll x | polling x
  | polled x _ =>
    cases h
    exact .inl ⟨_, mem_singleton_self _⟩
  | pool k | reSchedule k | repool k => exact (hthread h).imp_left fun hk => ⟨_, hk⟩
  | reScheduling call k =>
    exact (hthread h).imp_left fun hk => ⟨_, mem_add.mpr (.inr hk)⟩
  | preempting i p =>
    have hi : i.task = some t → (Place.executing c, t) ∈ entryOf (.executing c) i.task := by
      intro hi
      rw [hi]
      exact mem_singleton_self _
    cases p with
    | peekPending | readCurrent | compare | removePending | movePending => exact .inl ⟨_, hi h⟩
    | rewake | setCurrent => exact .inl ⟨_, mem_add.mpr (.inl (hi h))⟩
    | saveContext _ k | pushPreempted _ k =>
      exact (hthread h).imp_left fun hk => ⟨_, mem_add.mpr (.inr hk)⟩
    | _ =>
      cases h
      exact .inl ⟨.hand .moving, mem_add.mpr (.inr (mem_placed.mpr ⟨rfl, List.mem_cons_self⟩))⟩
  | _ => cases h

theorem PcOk.stable (h : PcOk s c pc)
    (hid : ∀ p t, (p, t) ∈ pc.entries c → (s'.task t).id = (s.task t).id)
    (hpending : ∀ t ∈ s.pending c, t ∈ s'.pending c)
    (hdead : ∀ p t, (p, t) ∈ pc.entries c →
      (s.task t).info.state.isDead → (s'.task t).info.state.isDead)
    (hthread : ∀ t, pc = .tryLock t → (s'.task t).info.thread = (s.task t).info.thread) :
    PcOk s' c pc := by
  have hinside : ∀ t, pc.inside t → (s'.task t).id = (s.task t).id := fun t ht =>
    (inside_mem c ht).elim fun p => hid p t
  cases pc with
  | tryLock t => exact (hthread t rfl).trans h
  | removeTask t => exact hdead _ t (mem_singleton_self _) h
  | preempting interrupted p =>
    cases p with
    | readCurrent next | removePending next => exact hpending _ h
    | compare next current =>
      obtain ⟨hnext, x, rfl, hcur⟩ := h
      exact ⟨hpending _ hnext, x, rfl, hcur.trans (hinside x rfl).symm⟩
    | movePending current | setCurrent _ _ current | rewakeMoved _ _ current
    | lookupCurrent _ current =>
      obtain ⟨x, rfl, hcur⟩ := h
      exact ⟨x, rfl, hcur.trans (hinside x rfl).symm⟩
    | rewakingMoved call _ _ current =>
      obtain ⟨hcall, x, rfl, hcur⟩ := h
      exact ⟨hcall, x, rfl, hcur.trans (hinside x rfl).symm⟩
    | _ => exact h
  | _ => exact h

theorem idOf_congr (hid : ∀ t, (s'.task t).id = (s.task t).id) (t : Option Handle) :
    s'.idOf t = s.idOf t := by
  cases t with
  | none => rfl
  | some t => exact hid t

/-! ### Steps that touch no more than a call does -/

/-- The control state changes nothing that the invariant says about the CPU. -/
structure SameRole (next : List Handle) (pc pc' : CpuPc n) : Prop where
  occupant : pc'.occupant next = pc.occupant next
  mayHaveNext : next ≠ [] → pc.mayHaveNext → pc'.mayHaveNext
  inside : ∀ t, pc.inside t → pc'.inside t
  ending : ∀ t, pc.ending ≠ some t
  remove : ∀ t, pc ≠ .removeTask t

theorem SharedOk.step (h : SharedOk s) (htask : ∀ t, TaskFixed (s.task t) (s'.task t))
    (hdead : ∀ t, (s.task t).info.state.isDead → (s'.task t).info.state.isDead)
    (hnum : s'.numHandles = s.numHandles) (hreg : s'.registry = s.registry)
    (hcandidate : s'.candidateId = s.candidateId)
    (hthreads : ∀ t k, (s'.task t).info.thread = some k → k = .preempted (.polling t))
    (hpooled : ∀ k ∈ s'.pooled, k.isFresh) (hpool : ∀ c, ∀ k ∈ s'.threadPool c, k.isFresh) :
    SharedOk s' where
  unused t ht := hdead t (h.unused t (hnum ▸ ht))
  id t ht := by
    rw [(htask t).id]
    exact h.id t (hnum ▸ ht)
  registered id t ht := by
    rw [(htask t).id, hnum]
    exact h.registered id t (hreg ▸ ht)
  live t ht := by
    rw [(htask t).id, hreg]
    refine h.live t (Bool.eq_false_iff.mpr fun hd => ?_)
    exact Bool.eq_false_iff.mp ht (hdead t hd)
  clustered t ht := by
    rw [(htask t).scheduler, (htask t).cpuSet]
    exact h.clustered t (hnum ▸ ht)
  threads := hthreads
  pooled := hpooled
  threadPool := hpool
  candidateId := hcandidate ▸ h.candidateId

theorem WakeFrame.sharedOk (hf : WakeFrame s s') (h : SharedOk s) : SharedOk s' := by
  refine h.step (fun t => (hf.task t).fixed) (fun t ht => ?_) hf.numHandles hf.registry
    hf.candidateId (fun t k hk => ?_) ?_ ?_
  · rw [(hf.task t).isDead]; exact ht
  · rw [(hf.task t).thread] at hk; exact h.threads t k hk
  · rw [hf.pooled]; exact h.pooled
  · rw [hf.threadPool]; exact h.threadPool

theorem WakeFrame.cpuFrame (hf : WakeFrame s s') (c : Cpu n) : CpuFrame c s s' where
  task t := (hf.task t).fixed
  isDead t ht := by rw [(hf.task t).isDead]; exact ht
  numHandles := hf.numHandles
  registry id t h := by rw [← hf.registry]; exact h
  running c' _ := by rw [hf.running]
  nextTask c' _ := by rw [hf.nextTask]
  pending c' _ := hf.pending c'

theorem CpuStepOk.ofFrame (hl : Local s c pc) (hf : WakeFrame s s')
    (hflow : Flow s s' (s.entries + pc.entries c) (s'.entries + pc'.entries c))
    (hrole : SameRole (s.nextTask c) pc pc') (hlocals : PcOk s' c pc') :
    CpuStepOk s c pc s' pc' where
  frame := hf.cpuFrame c
  flow := hflow
  shared := hf.sharedOk hl.shared
  ok := by
    refine ⟨?_, ?_, hlocals⟩
    · rw [hf.running, hf.nextTask, hrole.occupant, idOf_congr fun t => (hf.task t).id]
      exact hl.ok.running
    rw [hf.nextTask]
    refine hl.ok.next.imp_right fun ⟨hmay, t, ht⟩ => ⟨hrole.mayHaveNext ?_ hmay, t, ht⟩
    rw [ht]
    exact List.cons_ne_nil t []
  thread t _ := (hf.task t).thread
  ended t ht _ := by
    rw [(hf.task t).isDead] at ht
    exact .inr ⟨ht, hrole.remove t⟩
  locked t ht := by
    rw [(hf.task t).futureLocked] at ht
    rw [(hf.task t).thread]
    by_cases hin : (s.task t).info.thread.isSome ∨ pc.inside t
    · exact .inl (hin.imp_right (hrole.inside t))
    · exact .inr ⟨ht, hin⟩
  terminated t ht := by
    rw [(hf.task t).futureTerminated] at ht
    rw [(hf.task t).isDead]
    by_cases hdead : (s.task t).info.state.isDead
    · exact .inl (.inl hdead)
    · exact .inr ⟨ht, fun h => h.elim hdead (hrole.ending t)⟩

/-- A step that changes neither the containers nor what the CPU holds. -/
theorem CpuStepOk.quiet (hl : Local s c pc) (hf : WakeFrame s s')
    (hentries : s'.entries = s.entries) (hdue : s'.due = s.due)
    (hnum : s'.numTaskInQueue = s.numTaskInQueue) (hheld : pc'.entries c = pc.entries c)
    (hrole : SameRole (s.nextTask c) pc pc') (hlocals : PcOk s' c pc') :
    CpuStepOk s c pc s' pc' := by
  refine .ofFrame hl hf ?_ hrole hlocals
  rw [hentries, hheld]
  exact .stay _ hdue hnum

theorem CpuStepOk.read (hl : Local s c pc) (hheld : pc'.entries c = pc.entries c)
    (hrole : SameRole (s.nextTask c) pc pc') (hlocals : PcOk s c pc') :
    CpuStepOk s c pc s pc' :=
  .quiet hl (.refl s) rfl rfl rfl hheld hrole hlocals

/-! ### Steps that write no task -/

/-- A step of CPU `c` that writes its own part of the containers. -/
structure OwnContainers (c : Cpu n) (s s' : Shared B n) : Prop where
  numHandles : s'.numHandles = s.numHandles
  registry : s'.registry = s.registry
  candidateId : s'.candidateId = s.candidateId
  running : ∀ c', c' ≠ c → s'.running c' = s.running c'
  nextTask : ∀ c', c' ≠ c → s'.nextTask c' = s.nextTask c'
  pending : ∀ c', c' ≠ c → s'.pending c' = s.pending c'
  pooled : ∀ k ∈ s'.pooled, k.isFresh
  threadPool : ∀ c, ∀ k ∈ s'.threadPool c, k.isFresh

theorem OwnContainers.cpuFrame (h : OwnContainers c s s')
    (htask : ∀ t, TaskFixed (s.task t) (s'.task t))
    (hdead : ∀ t, (s.task t).info.state.isDead → (s'.task t).info.state.isDead) :
    CpuFrame c s s' where
  task := htask
  isDead := hdead
  numHandles := h.numHandles
  registry id t ht := by rw [← h.registry]; exact ht
  running := h.running
  nextTask := h.nextTask
  pending c' hc' t ht := by rw [h.pending c' hc']; exact ht

theorem CpuStepOk.ofContainers (hl : Local s c pc) (hown : OwnContainers c s s')
    (htask : s'.task = s.task)
    (hflow : Flow s s' (s.entries + pc.entries c) (s'.entries + pc'.entries c))
    (hok : CpuOk s' c pc') (hinside : ∀ t, pc.inside t → pc'.inside t)
    (hending : ∀ t, pc.ending = some t → pc'.ending = some t)
    (hremove : ∀ t, pc ≠ .removeTask t) : CpuStepOk s c pc s' pc' := by
  have hfixed : ∀ t, TaskFixed (s.task t) (s'.task t) := fun t => by rw [htask]; exact .refl _
  have hdead : ∀ t, (s.task t).info.state.isDead → (s'.task t).info.state.isDead :=
    fun t ht => by rw [htask]; exact ht
  refine ⟨hown.cpuFrame hfixed hdead, hflow, ?_, hok, fun t _ => by rw [htask], ?_, ?_, ?_⟩
  · refine hl.shared.step hfixed hdead hown.numHandles hown.registry hown.candidateId ?_
      hown.pooled hown.threadPool
    rw [htask]
    exact hl.shared.threads
  · intro t ht _
    rw [htask] at ht
    exact .inr ⟨ht, hremove t⟩
  · intro t ht
    rw [htask] at ht ⊢
    by_cases hin : (s.task t).info.thread.isSome ∨ pc.inside t
    · exact .inl (hin.imp_right (hinside t))
    · exact .inr ⟨ht, hin⟩
  · intro t ht
    rw [htask] at ht ⊢
    by_cases hend : (s.task t).info.state.isDead ∨ pc.ending = some t
    · exact .inl (hend.imp_right (hending t))
    · exact .inr ⟨ht, hend⟩

/-! ### Steps that write one task -/

/-- A step that changes one task and the containers of its CPU. -/
theorem CpuStepOk.ofTask (hl : Local s c pc) (hown : OwnContainers c s s')
    (hother : ∀ u, u ≠ t → s'.task u = s.task u)
    (hfixed : TaskFixed (s.task t) (s'.task t))
    (hdead : (s.task t).info.state.isDead → (s'.task t).info.state.isDead)
    (hthreads : ∀ k, (s'.task t).info.thread = some k → k = .preempted (.polling t))
    (hthread : (∃ p, (p, t) ∈ pc.entries c) ∨ (s'.task t).info.thread = (s.task t).info.thread)
    (hflow : Flow s s' (s.entries + pc.entries c) (s'.entries + pc'.entries c))
    (hok : CpuOk s' c pc')
    (hended : (s'.task t).info.state.isDead → pc' = .removeTask t ∨ (s.task t).info.state.isDead)
    (hremove : ∀ u, pc ≠ .removeTask u)
    (hlocked : (s'.task t).futureLocked → ((s'.task t).info.thread.isSome ∨ pc'.inside t) ∨
        (s.task t).futureLocked ∧ ¬ ((s.task t).info.thread.isSome ∨ pc.inside t))
    (hinside : ∀ u, u ≠ t → pc.inside u → pc'.inside u)
    (hterminated : (s'.task t).futureTerminated →
      ((s'.task t).info.state.isDead ∨ pc'.ending = some t) ∨
        (s.task t).futureTerminated ∧ ¬ ((s.task t).info.state.isDead ∨ pc.ending = some t))
    (hending : ∀ u, u ≠ t → pc.ending ≠ some u) : CpuStepOk s c pc s' pc' := by
  have hfixed' : ∀ u, TaskFixed (s.task u) (s'.task u) := fun u => by
    by_cases hu : u = t
    · subst hu; exact hfixed
    · rw [hother u hu]; exact .refl _
  have hdead' : ∀ u, (s.task u).info.state.isDead → (s'.task u).info.state.isDead := fun u => by
    by_cases hu : u = t
    · subst hu; exact hdead
    · rw [hother u hu]; exact id
  refine ⟨hown.cpuFrame hfixed' hdead', hflow, ?_, hok, fun u hu => ?_, fun u => ?_, fun u => ?_,
    fun u => ?_⟩
  · refine hl.shared.step hfixed' hdead' hown.numHandles hown.registry hown.candidateId
      (fun u k hk => ?_) hown.pooled hown.threadPool
    by_cases hu : u = t
    · subst hu; exact hthreads k hk
    · rw [hother u hu] at hk; exact hl.shared.threads u k hk
  · by_cases ht : u = t
    · subst ht
      exact hthread.resolve_left fun ⟨p, hp⟩ => hu p hp
    · rw [hother u ht]
  all_goals by_cases ht : u = t
  · subst ht
    exact fun hd _ => (hended hd).imp_right fun h => ⟨h, hremove u⟩
  · rw [hother u ht]
    exact fun hd _ => .inr ⟨hd, hremove u⟩
  · subst ht; exact hlocked
  · rw [hother u ht]
    intro hl'
    by_cases hin : (s.task u).info.thread.isSome ∨ pc.inside u
    · exact .inl (hin.imp_right (hinside u ht))
    · exact .inr ⟨hl', hin⟩
  · subst ht; exact hterminated
  · rw [hother u ht]
    intro hterm
    by_cases hd : (s.task u).info.state.isDead
    · exact .inl (.inl hd)
    · exact .inr ⟨hterm, fun h => h.elim hd (hending u ht)⟩

theorem idOf_modifyInfo (s : Shared B n) (t : Handle) (f : TaskInfo → TaskInfo)
    (x : Option Handle) : (s.modifyInfo t f).idOf x = s.idOf x :=
  idOf_congr (s.modifyTask_keeps Task.id rfl) x

theorem CpuStepOk.ofInfo {s₀ : Shared B n} {f : TaskInfo → TaskInfo} (hl : Local s c pc)
    (hown : OwnContainers c s s₀) (htask : s₀.task = s.task)
    (hdead : (s.task t).info.state.isDead → (f (s.task t).info).state.isDead)
    (hthreads : ∀ k, (f (s.task t).info).thread = some k → k = .preempted (.polling t))
    (hthread : (∃ p, (p, t) ∈ pc.entries c) ∨ (f (s.task t).info).thread = (s.task t).info.thread)
    (hflow : Flow s (s₀.modifyInfo t f) (s.entries + pc.entries c) (s₀.entries + pc'.entries c))
    (hok : CpuOk (s₀.modifyInfo t f) c pc')
    (hended : (f (s.task t).info).state.isDead → pc' = .removeTask t ∨ (s.task t).info.state.isDead)
    (hremove : ∀ u, pc ≠ .removeTask u)
    (hinside : (s.task t).info.thread.isSome ∨ pc.inside t →
      (f (s.task t).info).thread.isSome ∨ pc'.inside t)
    (hother : ∀ u, u ≠ t → pc.inside u → pc'.inside u)
    (hending : pc.ending = some t → (f (s.task t).info).state.isDead ∨ pc'.ending = some t)
    (hendingOther : ∀ u, u ≠ t → pc.ending ≠ some u) :
    CpuStepOk s c pc (s₀.modifyInfo t f) pc' := by
  have hself : (s₀.modifyInfo t f).task t = { s.task t with info := f (s.task t).info } := by
    rw [modifyInfo, modifyTask_task_self, htask]
  have hne : ∀ u, u ≠ t → (s₀.modifyInfo t f).task u = s.task u := fun u hu => by
    rw [modifyInfo, modifyTask_task_of_ne _ _ hu, htask]
  refine .ofTask hl ⟨hown.numHandles, hown.registry, hown.candidateId, hown.running,
    hown.nextTask, hown.pending, hown.pooled, hown.threadPool⟩ hne ?_ ?_ ?_ ?_ hflow hok ?_ hremove
    ?_ hother ?_ hendingOther
  all_goals rw [hself]
  · exact ⟨rfl, rfl, rfl⟩
  · exact hdead
  · exact hthreads
  · exact hthread
  · exact hended
  · intro hlocked
    by_cases hin : (s.task t).info.thread.isSome ∨ pc.inside t
    · exact .inl (hinside hin)
    · exact .inr ⟨hlocked, hin⟩
  · intro hterm
    by_cases hend : (s.task t).info.state.isDead ∨ pc.ending = some t
    · exact .inl (hend.elim (fun h => .inl (hdead h)) hending)
    · exact .inr ⟨hterm, hend⟩

/-! ### Calls made by a CPU -/

namespace CpuResult

@[reducible] def shared : CpuResult B n → Shared B n
  | next s _ => s
  | panicked s => s

/-- Where a CPU stands after the step. A CPU whose code has panicked stays where it was. -/
@[reducible] def after (pc : CpuPc n) : CpuResult B n → CpuPc n
  | next _ pc' => pc'
  | panicked _ => pc

end CpuResult

/-- A step of a call made by the CPU. `R` is what the CPU holds besides. -/
theorem CpuStepOk.ofWake (wrap : WakeCall n → CpuPc n) {next : CpuPc n} {w : WakeCall n}
    {r : WakeResult B n} {d : Nat} (R : Ledger (Place n) Handle) (hl : Local s c (wrap w))
    (hw : w.Ok) (hstep : wakeStep s w d = some r)
    (hwrap : ∀ w', (wrap w').entries c = w'.entries + R) (hnext : next.entries c = R)
    (hrole : ∀ w', SameRole (s.nextTask c) (wrap w) (wrap w'))
    (hroleNext : SameRole (s.nextTask c) (wrap w) next)
    (hlocals : ∀ s' w', WakeFrame s s' → w'.Ok → PcOk s' c (wrap w'))
    (hlocalsNext : ∀ s', WakeFrame s s' → PcOk s' c next) :
    CpuStepOk s c (wrap w) (CpuResult.ofWake wrap next r).shared
      ((CpuResult.ofWake wrap next r).after (wrap w)) := by
  have hcall := wakeStep_ok hw hstep
  have hflow := hcall.flow.add_right R
  rw [add_assoc, add_assoc, ← hwrap w] at hflow
  cases r with
  | next s' w' =>
    change CpuStepOk s c (wrap w) s' (wrap w')
    refine .ofFrame hl hcall.frame ?_ (hrole w') (hlocals s' w' hcall.frame hcall.ok)
    rw [hwrap w']
    exact hflow
  | done s' =>
    change CpuStepOk s c (wrap w) s' next
    refine .ofFrame hl hcall.frame ?_ hroleNext (hlocalsNext s' hcall.frame)
    change Flow s s' _ (s'.entries + (0 + R)) at hflow
    rw [zero_add] at hflow
    rw [hnext]
    exact hflow
  | panicked s' =>
    change CpuStepOk s c (wrap w) s' (wrap w)
    refine .ofFrame hl hcall.frame ?_ (hrole w) (hlocals s' w hcall.frame hw)
    rw [hwrap w] at hflow ⊢
    exact hflow

/-! ### Taking a task -/

/-- The task that `get_next_task` has taken. -/
def GetNextPc.task : GetNextPc → Option Handle
  | .lock | .pop => none
  | .decrement t => some t
  | .unlock t => t

/-- A task has been taken from the queue of a scheduler. -/
structure Taken (s s' : Shared B n) (c : Cpu n) (ensured : Bool) (S : Sched) (t : Handle) :
    Prop where
  other : ∀ u, u ≠ t → s'.task u = s.task u
  kept : TaskKept (s.task t) (s'.task t)
  due : s'.due = s.due
  entries : s.entries = (.queue S, t) ::ₘ s'.entries
  running : s'.running = if ensured then Function.update s.running c (s.task t).id else s.running
  nextTask : s'.nextTask = s.nextTask
  frame : s'.numHandles = s.numHandles ∧ s'.registry = s.registry ∧
    s'.candidateId = s.candidateId ∧ s'.pooled = s.pooled ∧ s'.pending = s.pending ∧
    s'.threadPool = s.threadPool ∧ s'.numTaskInQueue = s.numTaskInQueue

theorem Local.taken {s₀ : Shared B n} (hl : Local s c pc)
    (hpop : s.popQueue c pick S = some (t, s₀)) (ensured : Bool) :
    Taken s (s₀.markTaken c ensured t) c ensured S t := by
  have hentries := entries_popQueue hpop
  have hmem : ((.queue S, t) : Place n × Handle) ∈ s.entries + pc.entries c := by
    rw [hentries]
    exact mem_add.mpr (.inl (mem_cons_self _ _))
  have hlive := hl.live _ _ hmem (by simp)
  have hactive := hl.isActive hmem (by simp)
  obtain ⟨_, _, _, _, _, _, rfl⟩ := popQueue_frame hpop
  refine ⟨fun u hu => Function.update_of_ne hu _ _, ?_, funext fun u => ?_, hentries, ?_, rfl, rfl,
    rfl, rfl, rfl, rfl, rfl, rfl⟩
  · rw [markTaken]
    simp only [modifyInfo, modifyTask_task_self]
    refine ⟨rfl, rfl, rfl, rfl, rfl, ?_, rfl, rfl, rfl, rfl⟩
    cases ensured with
    | false => rfl
    | true => exact hlive.symm
  · by_cases hu : u = t
    · subst hu
      rw [due_of_isActive hactive]
      refine due_of_isActive ?_
      rw [markTaken]
      simp only [modifyInfo, modifyTask_task_self]
      cases ensured with
      | false => exact hactive
      | true => rfl
    · rw [Shared.due, Shared.markTaken]
      simp only [modifyInfo, modifyTask_task_of_ne _ _ hu]
      rfl
  · rw [markTaken]
    simp only [modifyInfo, modifyTask_task_self]
    rfl

theorem CpuStepOk.ofTaken {ensured : Bool} (hl : Local s c pc)
    (h : Taken s s' c ensured S t) (hheld : pc.entries c = 0)
    (hheld' : pc'.entries c = {(q, t)}) (hmove : Move s (.queue S) q t) (hok : CpuOk s' c pc')
    (hinside : ∀ u, ¬ pc.inside u) (hending : ∀ u, pc.ending ≠ some u)
    (hremove : ∀ u, pc ≠ .removeTask u) : CpuStepOk s c pc s' pc' := by
  obtain ⟨hnum, hreg, hcandidate, hpooled, hpending, hpool, hcount⟩ := h.frame
  have hown : OwnContainers c s s' := by
    refine ⟨hnum, hreg, hcandidate, fun c' hc' => ?_, fun c' _ => by rw [h.nextTask],
      fun c' _ => by rw [hpending], by rw [hpooled]; exact hl.shared.pooled,
      by rw [hpool]; exact hl.shared.threadPool⟩
    rw [h.running]
    split
    · exact Function.update_of_ne hc' _ _
    · rfl
  refine .ofTask hl hown h.other h.kept.fixed ?_ ?_ (.inr h.kept.thread) ?_ hok ?_ hremove ?_
    (fun u _ hu => absurd hu (hinside u)) ?_ (fun u _ => hending u)
  · rw [h.kept.isDead]; exact id
  · rw [h.kept.thread]; exact hl.shared.threads t
  · rw [h.entries, hheld, hheld', add_zero, add_entry]
    exact .move _ hmove h.due hcount
  · rw [h.kept.isDead]; exact .inr
  · rw [h.kept.futureLocked, h.kept.thread]
    intro hlocked
    by_cases hin : (s.task t).info.thread.isSome
    · exact .inl (.inl hin)
    · exact .inr ⟨hlocked, fun h => h.elim hin (hinside t)⟩
  · rw [h.kept.futureTerminated, h.kept.isDead]
    intro hterm
    by_cases hd : (s.task t).info.state.isDead
    · exact .inl (.inl hd)
    · exact .inr ⟨hterm, fun h => h.elim hd (hending t)⟩

theorem CpuStepOk.ofDecrement {k : Nat} (hl : Local s c pc)
    (hk : k = (s.numTaskInQueue + 2 ^ 32 - 1) % 2 ^ 32)
    (hq : (∃ c, q = .executing c) ∨ q = .hand .taken)
    (hheld : pc.entries c = {(.hand .popped, t)}) (hheld' : pc'.entries c = {(q, t)})
    (hrole : SameRole (s.nextTask c) pc pc')
    (hlocals : PcOk { s with numTaskInQueue := k } c pc') :
    CpuStepOk s c pc { s with numTaskInQueue := k } pc' := by
  refine .ofFrame hl (.rest s) ?_ hrole hlocals
  rw [hheld, hheld', add_entry, add_entry]
  exact .decrement _ t hq rfl hk

/-- A step of `get_next_task`. `q` is where the task goes once it is counted out. -/
theorem CpuStepOk.ofGetNext (wrap : GetNextPc → CpuPc n) {next : Option Handle → CpuPc n}
    {ensured : Bool} {g : GetNextPc}
    {r : GetNextResult B n} (hl : Local s c (wrap g))
    (hstep : getNextStep s c ensured pick g = some r)
    (hq : (∃ c, q = .executing c) ∨ q = .hand .taken)
    (hwrap : ∀ g, (wrap g).entries c = g.entries q) (hnext : ∀ t, (next t).entries c = entryOf q t)
    (hrole : ∀ g g', g.task = g'.task → SameRole (s.nextTask c) (wrap g) (wrap g'))
    (hroleNext : ∀ t, SameRole (s.nextTask c) (wrap (.unlock t)) (next t))
    (hlocals : ∀ (s' : Shared B n) g, PcOk s' c (wrap g))
    (hlocalsNext : ∀ (s' : Shared B n) t, PcOk s' c (next t))
    (hpop : ∀ S t s' g', Taken s s' c ensured S t → g'.task = some t → CpuOk s' c (wrap g'))
    (hinside : ∀ u, ¬ (wrap .pop).inside u) :
    CpuStepOk s c (wrap g) (CpuResult.ofGetNext wrap next r).shared
      ((CpuResult.ofGetNext wrap next r).after (wrap g)) := by
  cases getNextStep_cases hl.noDead hstep with
  | lock hfree =>
    refine .quiet hl (.rest s) rfl rfl rfl ?_ (hrole _ _ rfl) (hlocals _ _)
    exact (hwrap .pop).trans (hwrap .lock).symm
  | @pop S t s₀ htaken =>
    have h := hl.taken htaken ensured
    have hrolePop := hrole .pop .pop rfl
    by_cases hS : S = .clusteredEDF
    · subst hS
      exact .ofTaken hl h (hwrap _) (hwrap _) (.popClustered hq t)
        (hpop _ _ _ _ h rfl) hinside hrolePop.ending hrolePop.remove
    · rw [if_neg hS]
      exact .ofTaken hl h (hwrap _) (hwrap _) (.pop hS t) (hpop _ _ _ _ h rfl) hinside
        hrolePop.ending hrolePop.remove
  | empty hnone hclustered =>
    refine .read hl ?_ (hrole _ _ rfl) (hlocals _ _)
    exact (hwrap (.unlock none)).trans (hwrap .pop).symm
  | decrement t =>
    exact .ofDecrement hl rfl hq (hwrap _) (hwrap _) (hrole (.decrement t) (.unlock (some t)) rfl)
      (hlocals _ _)
  | unlock t =>
    refine .quiet hl (.rest s) rfl rfl rfl ?_ (hroleNext t) (hlocalsNext _ _)
    exact (hnext t).trans (hwrap (.unlock t)).symm

end Awkernel
