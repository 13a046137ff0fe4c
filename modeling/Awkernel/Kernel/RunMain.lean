import Awkernel.Kernel.CpuSteps

/-!
# The steps of `run_main`

One lemma for each control state of `run_main` and of `re_schedule`: the step from it meets
`CpuStepOk`. Three branches of the source are shown to be dead on the way: the failed
`try_lock`, and the two early exits of a dispatch whose future or task has already ended.
-/

namespace Awkernel

open Ledger CpuResult List Function

variable {B : Build} {n : Nat} {s : Shared B n} {c : Cpu n} {pc : CpuPc n} {t : Handle}

/-! ### Auxiliary facts -/

theorem Local.nextTask_eq_nil (hl : Local s c pc) (h : pc.mayHaveNext = false) :
    s.nextTask c = [] := by
  refine hl.ok.next.resolve_right fun hnext => ?_
  rw [h] at hnext
  cases hnext.1

/-- An idle CPU that would look into `NEXT_TASK` finds nothing there. -/
theorem Local.nextTask_eq_nil_of_idle (hl : Local s c pc)
    (hocc : pc.occupant (s.nextTask c) = (s.nextTask c).head?) (hidle : s.running c = 0) :
    s.nextTask c = [] := by
  rcases hl.ok.next with h | ⟨-, t, ht⟩
  · exact h
  -- otherwise `RUNNING` would be the id of a registered task
  have hmem : t ∈ s.nextTask c := by rw [ht]; exact mem_singleton_self t
  have hrun := hl.ok.running
  rw [hocc, ht, hidle] at hrun
  exact absurd hrun.symm (hl.id_ne_zero (Multiset.mem_add.mpr (.inl (mem_entries_of_next hmem))))

variable {rest : List Handle} {thread : ThreadContext} {f : TaskInfo → TaskInfo}
  {result : PollResult}

theorem popGreatest_perm {N : Nat} {v : PreemptionView N} {heap : List Handle}
    (h : v.popGreatest heap = some (t, rest)) : heap.Perm (t :: rest) := by
  obtain ⟨x, hx, hp⟩ := Option.map_eq_some_iff.mp h
  cases hp
  exact perm_cons_erase (argmax_mem hx)

theorem ownContainers_setPending (hs : SharedOk s) (heap : List Handle) :
    OwnContainers c s (s.setPending c heap) :=
  ⟨rfl, rfl, rfl, fun _ _ => rfl, fun _ _ => rfl, fun _ hc' => update_of_ne hc' _ _,
    hs.pooled, hs.threadPool⟩

theorem ownContainers_setCurrentTask (hs : SharedOk s) (id : Nat) :
    OwnContainers c s (s.setCurrentTask c id) :=
  ⟨rfl, rfl, rfl, fun _ hc' => update_of_ne hc' _ _, fun _ _ => rfl, fun _ _ => rfl,
    hs.pooled, hs.threadPool⟩

theorem ownContainers_setNext (hs : SharedOk s) (tasks : List Handle) :
    OwnContainers c s (s.setNext c tasks) :=
  ⟨rfl, rfl, rfl, fun _ _ => rfl, fun _ hc' => update_of_ne hc' _ _, fun _ _ => rfl,
    hs.pooled, hs.threadPool⟩

theorem ownContainers_rfl (hs : SharedOk s) : OwnContainers c s s :=
  ⟨rfl, rfl, rfl, fun _ _ => rfl, fun _ _ => rfl, fun _ _ => rfl, hs.pooled, hs.threadPool⟩

theorem fresh_update {pool : Cpu n → List ThreadContext} {l : List ThreadContext}
    (hpool : ∀ c, ∀ k ∈ pool c, k.isFresh) (hl : ∀ k ∈ l, k.isFresh) (c' : Cpu n) :
    ∀ k ∈ update pool c l c', k.isFresh := by
  by_cases hc' : c' = c
  · subst hc'; rw [update_self]; exact hl
  · rw [update_of_ne hc']; exact hpool c'

/-! ### The head of the loop -/

theorem stepOk_top (hl : Local s c .top) :
    CpuStepOk s c .top s (if s.running c = 0 then .drain else .takeNext) := by
  split
  · next hidle =>
    have hnil := hl.nextTask_eq_nil_of_idle rfl hidle
    exact .read hl rfl ⟨by rw [hnil]; rfl, fun h => absurd hnil h, fun _ h => h, nofun, nofun⟩
      trivial
  · exact .read hl rfl ⟨rfl, fun _ h => h, fun _ h => h, nofun, nofun⟩ trivial

theorem stepOk_drain (hl : Local s c .drain)
    (hpop : s.view.popGreatest (s.pending c) = some (t, rest)) :
    CpuStepOk s c .drain (s.setPending c rest) (.draining (s.wakeTask c t)) := by
  refine .ofContainers hl (ownContainers_setPending hl.shared rest) rfl ?_
    ⟨hl.ok.running, hl.ok.next, trivial⟩ (fun _ h => h) nofun nofun
  obtain ⟨R, hR, hset⟩ := s.entries_setPending c rest
  rw [hR, hset, placed_perm _ (popGreatest_perm hpop)]
  change Flow s _ (R + ((.pending c, t) ::ₘ placed (.pending c) rest) + 0)
    (R + placed (.pending c) rest + {(.hand (.waking (s.task t).scheduler false), t)})
  rw [add_zero, add_entry, Multiset.add_cons]
  exact .move _ (.rewake (.inl ⟨c, rfl⟩) t) rfl rfl

theorem stepOk_drain_empty (hl : Local s c .drain) : CpuStepOk s c .drain s .takeNext := by
  have hnil := hl.nextTask_eq_nil rfl
  exact .read hl rfl ⟨by rw [hnil]; rfl, fun h => absurd hnil h, fun _ h => h, nofun, nofun⟩ trivial

/-- The task `do_preemption` has left in `NEXT_TASK` is dispatched. -/
theorem stepOk_takeNext (hl : Local s c .takeNext) (hnext : s.nextTask c = t :: rest) :
    CpuStepOk s c .takeNext ((s.setNext c rest).setCurrentTask c (s.task t).id) (.dispatch t) := by
  obtain rfl : rest = [] := by
    rcases hl.ok.next with h | ⟨-, t', ht'⟩
    · rw [hnext] at h; exact absurd h (by simp)
    · rw [hnext] at ht'; exact (cons.inj ht').2
  refine .ofContainers hl ⟨rfl, rfl, rfl, fun _ hc' => update_of_ne hc' _ _,
    fun _ hc' => update_of_ne hc' _ _, fun _ _ => rfl, hl.shared.pooled,
    hl.shared.threadPool⟩ rfl ?_
    ⟨update_self .., .inl (update_self ..), trivial⟩ nofun nofun nofun
  obtain ⟨R, hR, hset⟩ := s.entries_setNext c []
  change Flow s _ (s.entries + 0) ((s.setNext c []).entries + {(.executing c, t)})
  rw [hR, hset, hnext, placed_cons, placed_nil, add_zero, add_zero, add_entry, Multiset.add_cons,
    add_zero]
  exact .move _ (.dispatch c t) rfl rfl

theorem stepOk_getNext {pick : List GEDFTask → Nat} {g : GetNextPc} {r : GetNextResult B n}
    {next : Option Handle → CpuPc n}
    (hnext : next = fun | some t => .dispatch t | none => .sleep .checkContinue)
    (hl : Local s c (.getNext g)) (hstep : getNextStep s c true pick g = some r) :
    CpuStepOk s c (.getNext g) (ofGetNext .getNext next r).shared
      ((ofGetNext .getNext next r).after (.getNext g)) := by
  subst hnext
  have hnil := hl.nextTask_eq_nil rfl
  refine .ofGetNext .getNext (q := .executing c) hl hstep (.inl ⟨c, rfl⟩) (fun _ => rfl) ?_ ?_ ?_
    (fun _ _ => trivial) ?_ ?_ nofun
  · rintro (_ | t) <;> rfl
  · intro g g' hg
    refine ⟨?_, fun _ h => h, nofun, nofun, nofun⟩
    have hocc : ∀ g : GetNextPc, (CpuPc.getNext g : CpuPc n).occupant (s.nextTask c) = g.task := by
      intro g; cases g <;> rfl
    rw [hocc, hocc, hg]
  · rintro (_ | t) <;> exact ⟨rfl, fun _ h => h, nofun, nofun, nofun⟩
  · rintro _ (_ | t) <;> exact trivial
  · intro S t s' g' htaken hg
    refine ⟨?_, .inl ?_, trivial⟩
    · have hocc : (CpuPc.getNext g' : CpuPc n).occupant (s'.nextTask c) = some t := by
        rw [← hg]; cases g' <;> rfl
      rw [hocc, htaken.running, if_pos rfl, update_self]
      exact htaken.kept.id.symm
    · rw [htaken.nextTask, hnil]

/-! ### The dispatch -/

theorem mem_own {p : Place n} (h : pc.entries c = {(p, t)}) :
    (p, t) ∈ s.entries + pc.entries c := by
  rw [h]
  exact Multiset.mem_add.mpr (.inr (Multiset.mem_singleton_self _))

theorem stepOk_dispatch_thread (hl : Local s c (.dispatch t))
    (hthread : (s.task t).info.thread = some thread) :
    CpuStepOk s c (.dispatch t) ((s.clearRequest c).modifyInfo t fun info =>
      { info with thread := none, lastExecuted := s.uptime }) (.pool thread) := by
  have hnil := hl.nextTask_eq_nil rfl
  obtain rfl := hl.shared.threads t thread hthread
  have hown : OwnContainers c s (s.clearRequest c) :=
    ⟨rfl, rfl, rfl, fun _ _ => rfl, fun _ _ => rfl, fun _ _ => rfl, hl.shared.pooled,
      hl.shared.threadPool⟩
  refine .ofInfo hl hown rfl id nofun (.inl ⟨.executing c, Multiset.mem_singleton_self _⟩) ?_
    ⟨?_, .inl hnil, trivial⟩ .inr nofun (fun _ => .inr rfl) nofun nofun nofun
  · exact .stay _ (Shared.due_modifyInfo (s.clearRequest c) t rfl) rfl
  · rw [idOf_modifyInfo]
    exact hl.ok.running

theorem stepOk_pool (hl : Local s c (.pool thread)) : CpuStepOk s c (.pool thread)
      { s with threadPool := update s.threadPool c (s.threadPool c ++ [.pooled]) }
      (.reSchedule thread) := by
  refine .ofContainers hl ⟨rfl, rfl, rfl, fun _ _ => rfl, fun _ _ => rfl, fun _ _ => rfl,
    hl.shared.pooled, fresh_update hl.shared.threadPool fun k hk => ?_⟩ rfl (.stay _ rfl rfl)
    ⟨hl.ok.running, hl.ok.next, trivial⟩ (fun _ h => h) nofun nofun
  rcases mem_append.mp hk with hk | hk
  · exact hl.shared.threadPool c k hk
  · rw [mem_singleton.mp hk]
    rfl

theorem stepOk_tryLock (hl : Local s c (.tryLock t)) :
    (s.task t).futureLocked = false ∧ CpuStepOk s c (.tryLock t)
      (s.modifyTask t fun task => { task with futureLocked := true }) (.checkFuture t) := by
  refine ⟨hl.unlocked t rfl, ?_⟩
  refine .ofTask (t := t) hl ?_ (fun u hu => s.modifyTask_task_of_ne _ hu) ?_ ?_ ?_
    (.inr ?_) (.stay _ (s.due_modifyTask t rfl rfl) rfl) ⟨?_, hl.ok.next, trivial⟩ ?_ nofun
    (fun _ => .inl (.inr rfl)) nofun ?_ nofun
  · exact ⟨rfl, rfl, rfl, fun _ _ => rfl, fun _ _ => rfl, fun _ _ => rfl, hl.shared.pooled,
      hl.shared.threadPool⟩
  case refine_6 =>
    rw [idOf_congr (s := s) (s.modifyTask_keeps Task.id rfl)]
    exact hl.ok.running
  all_goals rw [s.modifyTask_task_self]
  · exact ⟨rfl, rfl, rfl⟩
  · exact id
  · exact hl.shared.threads t
  · exact .inr
  · intro hterm
    by_cases hd : (s.task t).info.state.isDead
    · exact .inl (.inl hd)
    · exact .inr ⟨hterm, fun h => h.elim hd nofun⟩

theorem stepOk_checkState (hl : Local s c (.checkState t)) :
    (s.task t).info.state.isDead = false ∧ CpuStepOk s c (.checkState t)
      (s.modifyInfo t fun info => { info with lastExecuted := s.uptime }) (.startPoll t) := by
  refine ⟨hl.live (.executing c) t (mem_own rfl) (by simp), ?_⟩
  exact .quiet hl (.modifyInfo s ⟨rfl, rfl, rfl, rfl, rfl, rfl, rfl, rfl, rfl, rfl⟩) rfl
    (s.due_modifyInfo t rfl) rfl rfl ⟨rfl, fun _ h => h, fun _ h => h, nofun, nofun⟩ trivial

/-! ### The end of a poll -/

theorem stepOk_polling (result : PollResult) (hl : Local s c (.polling t)) :
    CpuStepOk s c (.polling t) (s.endPoll t result) (.polled t result) := by
  refine .ofTask (t := t) hl ?_ (fun u hu => s.modifyTask_task_of_ne _ hu) ?_ ?_ ?_
    (.inr ?_) (.stay _ (s.due_modifyTask t rfl rfl) rfl) ⟨?_, hl.ok.next, trivial⟩ ?_ nofun
    ?_ (fun u hu h => absurd h.symm hu) ?_ nofun
  · exact ⟨rfl, rfl, rfl, fun _ _ => rfl, fun _ _ => rfl, fun _ _ => rfl, hl.shared.pooled,
      hl.shared.threadPool⟩
  case refine_6 =>
    rw [Shared.endPoll, idOf_congr (s := s) (s.modifyTask_keeps Task.id rfl)]
    exact hl.ok.running
  all_goals rw [Shared.endPoll, s.modifyTask_task_self]
  · exact ⟨rfl, rfl, rfl⟩
  · exact id
  · exact hl.shared.threads t
  · exact .inr
  · exact nofun
  intro hterm
  by_cases hd : (s.task t).info.state.isDead
  · exact .inl (.inl hd)
  cases result with
  | ready => exact .inl (.inr rfl)
  | pending | panicked =>
    refine .inr ⟨?_, fun h => h.elim hd nofun⟩
    simpa using hterm

theorem stepOk_polled (hl : Local s c (.polled t result)) : s.running c = (s.task t).id ∧
      CpuStepOk s c (.polled t result) (s.setCurrentTask c 0) (.finish t result) := by
  refine ⟨hl.ok.running, ?_⟩
  refine .ofContainers hl (ownContainers_setCurrentTask hl.shared 0) rfl (.stay _ rfl rfl)
    ⟨update_self .., hl.ok.next, trivial⟩ nofun (fun u hu => ?_) nofun
  cases result <;> exact hu

/-- The poll has returned `Pending`. The task is in no place until it is woken, which the CPU
does itself if a wake has arrived during the poll. -/
theorem stepOk_finish_pending
    (hf : ∀ info, (f info).state = .waiting ∧ (f info).thread = info.thread)
    (hl : Local s c (.finish t .pending))
    (hpc : pc = .top ∨ ∃ w, pc = .waking w ∧ w.entries = 0 ∧ w.Ok) :
    CpuStepOk s c (.finish t .pending) (s.modifyInfo t f) pc := by
  have hnil := hl.nextTask_eq_nil rfl
  have hlive := hl.live (.executing c) t (mem_own rfl) (by simp)
  have hheld : pc.entries c = 0 := by
    rcases hpc with rfl | ⟨w, rfl, hw, -⟩
    · rfl
    · exact hw
  refine .ofInfo hl (ownContainers_rfl hl.shared) rfl ?_ ?_ (.inr (hf _).2) ?_ ⟨?_, ?_, ?_⟩ ?_
    nofun ?_ nofun nofun nofun
  · rw [hlive]; exact nofun
  · rw [(hf _).2]; exact hl.shared.threads t
  · rw [hheld, add_zero]
    change Flow s _ (s.entries + {(Place.executing c, t)}) s.entries
    rw [add_entry]
    refine .release _ t (.inl ⟨c, rfl⟩) ?_ rfl
    rw [s.due_modifyInfo_state, (hf _).1, if_neg (by simp [State.isActive, State.isDead])]
  · have hocc : pc.occupant ((s.modifyInfo t f).nextTask c) = none := by
      change pc.occupant (s.nextTask c) = none
      rw [hnil]
      rcases hpc with rfl | ⟨w, rfl, -⟩ <;> rfl
    rw [hocc]
    exact hl.ok.running
  · exact .inl hnil
  · rcases hpc with rfl | ⟨w, rfl, -, hw⟩
    · trivial
    · exact hw
  · rw [(hf _).1]; exact fun h => by cases h
  · rw [(hf _).2]
    exact fun h => .inl (h.resolve_right id)

theorem stepOk_finish_ended (hf : ∀ info, (f info).state.isDead ∧ (f info).thread = info.thread)
    (hl : Local s c (.finish t result)) :
    CpuStepOk s c (.finish t result) (s.modifyInfo t f) (.removeTask t) := by
  have hmem : (Place.executing c, t) ∈ s.entries + CpuPc.entries c (.finish t result) := mem_own rfl
  refine .ofInfo hl (ownContainers_rfl hl.shared) rfl (fun _ => (hf _).1) ?_ (.inr (hf _).2) ?_
    ⟨?_, hl.ok.next, ?_⟩ (fun _ => .inl rfl) nofun ?_ nofun (fun _ => .inl (hf _).1) ?_
  · rw [(hf _).2]; exact hl.shared.threads t
  · change Flow s _ (s.entries + {(Place.executing c, t)}) (s.entries + {(Place.removing c, t)})
    rw [add_entry, add_entry]
    refine .move _ (.finish c t) ?_ rfl
    rw [s.due_modifyInfo_state, if_pos (.inr ⟨(hf _).1, hl.registry hmem⟩), ← hl.due hmem,
      update_eq_self]
  · exact hl.ok.running
  · change (((s.modifyInfo t f).task t).info.state.isDead : Prop)
    rw [Shared.modifyInfo, Shared.modifyTask_task_self]
    exact (hf _).1
  · rw [(hf _).2]
    exact fun h => .inl (h.resolve_right id)
  · intro u hu hend
    cases result with
    | ready => exact hu (Option.some.inj hend).symm
    | pending | panicked => cases hend

/-- The id of a task that has ended is free again. -/
theorem stepOk_removeTask (hl : Local s c (.removeTask t)) : CpuStepOk s c (.removeTask t)
      { s with registry := update s.registry (s.task t).id none } .top := by
  have hnil := hl.nextTask_eq_nil rfl
  have hdead : (s.task t).info.state.isDead := hl.ok.locals
  have hreg : s.registry (s.task t).id = some t := hl.registry (p := .removing c) (mem_own rfl)
  have hkeep : ∀ id u, update s.registry (s.task t).id none id = some u →
      s.registry id = some u := fun id u h => by
    by_cases hid : id = (s.task t).id
    · rw [hid, update_self] at h
      cases h
    · rw [update_of_ne hid] at h
      exact h
  -- no other task loses its registration
  have hother : ∀ u, u ≠ t → s.registry (s.task u).id = some u →
      update s.registry (s.task t).id none (s.task u).id = some u := fun u hu h => by
    rw [update_of_ne, h]
    intro hid
    rw [hid, hreg] at h
    exact hu (Option.some.inj h).symm
  refine ⟨⟨fun _ => .refl _, fun _ => id, rfl, hkeep, fun _ _ => rfl, fun _ _ => rfl,
    fun _ _ _ h => h⟩, ?_, ?_, ⟨?_, .inl hnil, trivial⟩, fun _ _ => rfl, ?_, ?_, ?_⟩
  · change Flow s _ (s.entries + {(Place.removing c, t)}) (s.entries + 0)
    rw [add_entry, add_zero]
    refine .release _ t (.inr ⟨c, rfl⟩) (funext fun u => ?_) rfl
    by_cases hu : u = t
    · subst hu
      rw [update_self, Shared.due, if_neg]
      rintro (hactive | ⟨-, hu⟩)
      · revert hactive hdead
        cases (s.task u).info.state <;> decide
      dsimp only at hu
      exact absurd hu (by simp)
    · rw [update_of_ne hu, Shared.due, Shared.due]
      have hiff : update s.registry (s.task t).id none (s.task u).id = some u ↔
          s.registry (s.task u).id = some u := ⟨hkeep _ _, hother u hu⟩
      simp only [hiff]
  · refine ⟨hl.shared.unused, hl.shared.id, fun id u h => hl.shared.registered id u (hkeep id u h),
      fun u hu => ?_, hl.shared.clustered, hl.shared.threads, hl.shared.pooled,
      hl.shared.threadPool, hl.shared.candidateId⟩
    refine hother u ?_ (hl.shared.live u hu)
    rintro rfl
    rw [hdead] at hu
    cases hu
  · rw [hnil]
    exact hl.ok.running
  · intro u hu hreg'
    refine .inr ⟨hu, ?_⟩
    rintro ⟨⟩
    dsimp only at hreg'
    exact absurd hreg' (by simp)
  · intro u hlocked
    by_cases hin : (s.task u).info.thread.isSome
    · exact .inl (.inl hin)
    · exact .inr ⟨hlocked, fun h => h.elim hin id⟩
  · intro u hterm
    by_cases hd : (s.task u).info.state.isDead
    · exact .inl (.inl hd)
    · exact .inr ⟨hterm, fun h => h.elim hd fun h => by cases h⟩

/-! ### The calls of `run_main` -/

variable {w : WakeCall n} {r : WakeResult B n} {d : Nat}

theorem stepOk_draining (hl : Local s c (.draining w)) (hstep : wakeStep s w d = some r) :
    CpuStepOk s c (.draining w) (ofWake .draining .drain r).shared
      ((ofWake .draining .drain r).after (.draining w)) :=
  .ofWake .draining 0 hl hl.ok.locals hstep (fun w' => (add_zero w'.entries).symm) rfl
    (fun _ => ⟨rfl, fun _ h => h, nofun, nofun, nofun⟩) ⟨rfl, fun _ h => h, nofun, nofun, nofun⟩
    (fun _ _ _ h => h) fun _ _ => trivial

theorem stepOk_waking (hl : Local s c (.waking w)) (hstep : wakeStep s w d = some r) :
    CpuStepOk s c (.waking w) (ofWake .waking .top r).shared
      ((ofWake .waking .top r).after (.waking w)) := by
  have hnil := hl.nextTask_eq_nil rfl
  exact .ofWake .waking 0 hl hl.ok.locals hstep (fun w' => (add_zero w'.entries).symm) rfl
    (fun _ => ⟨rfl, fun _ h => h, nofun, nofun, nofun⟩)
    ⟨by rw [hnil]; rfl, fun h => absurd hnil h, nofun, nofun, nofun⟩
    (fun _ _ _ h => h) fun _ _ => trivial

theorem stepOk_reScheduling (hl : Local s c (.reScheduling w thread))
    (hstep : wakeStep s w d = some r) :
    CpuStepOk s c (.reScheduling w thread)
      (ofWake (fun w' => .reScheduling w' thread) (.reSchedule thread) r).shared
      ((ofWake (fun w' => .reScheduling w' thread) (.reSchedule thread) r).after
        (.reScheduling w thread)) :=
  .ofWake (fun w' => .reScheduling w' thread) _ hl hl.ok.locals hstep (fun _ => rfl) rfl
    (fun _ => ⟨rfl, fun _ h => h, fun _ h => h, nofun, nofun⟩)
    ⟨rfl, fun _ h => h, fun _ h => h, nofun, nofun⟩ (fun _ _ _ h => h) fun _ _ => trivial

/-! ### `re_schedule` -/

theorem stepOk_reSchedule (hl : Local s c (.reSchedule thread))
    (htask : s.preemptedTasks c = t :: rest) :
    CpuStepOk s c (.reSchedule thread) (s.setPreempted c rest)
      (.reScheduling (s.wakeTask c t) thread) := by
  refine .ofContainers hl ⟨rfl, rfl, rfl, fun _ _ => rfl, fun _ _ => rfl, fun _ _ => rfl,
    hl.shared.pooled, hl.shared.threadPool⟩ rfl ?_ ⟨hl.ok.running, hl.ok.next, trivial⟩
    (fun _ h => h) nofun nofun
  obtain ⟨R, hR, hset⟩ := s.entries_setPreempted c rest
  rw [hR, hset, htask]
  change Flow s _ (R + ((.preempted c, t) ::ₘ placed (.preempted c) rest) +
      entryOf (.executing c) thread.task)
    (R + placed (.preempted c) rest +
      ({(.hand (.waking (s.task t).scheduler false), t)} + entryOf (.executing c) thread.task))
  rw [← add_assoc, add_entry, Multiset.add_cons, Multiset.cons_add, Multiset.cons_add]
  exact .move _ (.rewake (.inr (.inl ⟨c, rfl⟩)) t) rfl rfl

theorem stepOk_repool {k : ThreadContext} {rest : List ThreadContext}
    (hl : Local s c (.repool thread)) (hpool : s.threadPool c = k :: rest) :
    CpuStepOk s c (.repool thread)
      { s with
        pooled := k :: s.pooled
        threadPool := update s.threadPool c rest } (.repool thread) := by
  have hfresh : ∀ k' ∈ k :: rest, k'.isFresh := by
    rw [← hpool]; exact hl.shared.threadPool c
  refine .ofContainers hl ⟨rfl, rfl, rfl, fun _ _ => rfl, fun _ _ => rfl, fun _ _ => rfl, ?_, ?_⟩
    rfl (.stay _ rfl rfl) ⟨hl.ok.running, hl.ok.next, trivial⟩ (fun _ h => h) nofun nofun
  · exact forall_mem_cons.mpr ⟨hfresh k mem_cons_self, hl.shared.pooled⟩
  · exact fresh_update hl.shared.threadPool fun k' hk' => hfresh k' (mem_cons_of_mem _ hk')

theorem stepOk_repool_empty (hl : Local s c (.repool thread)) :
    CpuStepOk s c (.repool thread) s thread.resume := by
  rcases thread with _ | _ | (t | p)
  case preempted.polling =>
    exact .read hl rfl ⟨rfl, fun _ h => h, fun _ h => Option.some.inj h, nofun, nofun⟩ trivial
  all_goals exact .read hl rfl ⟨rfl, fun _ h => h, nofun, nofun, nofun⟩ trivial

end Awkernel
