import Awkernel.Kernel.RunMain

/-!
# The steps of `do_preemption`

One lemma for each control state of `do_preemption`. Up to the write of `RUNNING` the CPU is
occupied by the interrupted task, from then on by the next one. The switch exchanges the two in
one step, at `takeContext` or at `pushNext`.

The branch in which no thread can be created is not covered: it leaves `RUNNING` at the id of a
task that is not on this CPU.
-/

namespace Awkernel

open Ledger Place List Option
open Multiset hiding mem_singleton_self

variable {B : Build} {n : Nat} {s : Shared B n} {c : Cpu n} {i : Interrupted} {t : Handle}

/-! ### Auxiliary facts -/

theorem sameRole_resume {next : List Handle} {p : PreemptPc n}
    (hocc : p.occupant next i = i.task) (hnext : (CpuPc.preempting i p).mayHaveNext = false)
    (hinside : ∀ t, (CpuPc.preempting i p).inside t → i.task = some t) :
    SameRole next (.preempting i p) i.resume := by
  refine ⟨?_, ?_, fun t ht => ?_, nofun, nofun⟩
  · rw [show (CpuPc.preempting i p).occupant next = i.task from hocc]
    cases i <;> rfl
  · rw [hnext]; exact nofun
  have htask := hinside t ht
  cases i with
  | polling x => exact some.inj htask
  | sleeping p => cases htask

theorem entries_resume (i : Interrupted) :
    (i.resume : CpuPc n).entries c = entryOf (.executing c) i.task := by
  cases i <;> rfl

theorem pcOk_resume (s : Shared B n) (i : Interrupted) : PcOk s c i.resume := by
  cases i <;> exact trivial

variable {next currentTask : Handle} {moved : List Handle} {current : Nat} {thread : ThreadContext}

theorem Local.pending_perm {pc : CpuPc n} (hl : Local s c pc) (hnext : next ∈ s.pending c) :
    (s.pending c).Perm
      (next :: (s.pending c).filter fun t => (s.task t).id ≠ (s.task next).id) := by
  have hmem : ∀ t ∈ s.pending c, (.pending c, t) ∈ s.entries + pc.entries c := fun t ht =>
    mem_add.mpr (.inl (mem_entries_of_pending ht))
  have hcount : (s.pending c).count next = 1 := by
    have hle := (hl.held next).trans (s.due_le_one next)
    obtain ⟨R, hR, -⟩ := s.entries_setPending c []
    rw [hR, holders_add, holders_add, holders_placed] at hle
    have hpos := count_pos_iff.mpr hnext
    omega
  have hsame : (s.pending c).filter (fun t => !decide ((s.task t).id ≠ (s.task next).id)) =
      [next] := by
    rw [filter_congr (q := fun t => t == next), filter_beq, hcount]
    · rfl
    intro t ht
    by_cases heq : t = next
    · simp [heq]
    have hid : (s.task t).id ≠ (s.task next).id := fun h =>
      heq (hl.eq_of_id_eq (hmem t ht) (hmem next hnext) h)
    simp [heq, hid]
  have hperm := filter_append_perm
    (fun t => decide ((s.task t).id ≠ (s.task next).id)) (s.pending c)
  rw [hsame] at hperm
  exact hperm.symm.trans (perm_append_singleton ..)

/-! ### The heap -/

/-- The pending task does not preempt: it leaves the heap and is put back. -/
theorem stepOk_removePending (hl : Local s c (.preempting i (.removePending next))) :
    CpuStepOk s c (.preempting i (.removePending next))
      (s.setPending c ((s.pending c).filter fun t => (s.task t).id ≠ (s.task next).id))
      (.preempting i (.rewake (s.wakeTask c next))) := by
  refine .ofContainers hl (ownContainers_setPending hl.shared _) rfl ?_
    ⟨hl.ok.running, hl.ok.next, trivial⟩ (fun _ h => h) nofun nofun
  have hperm := hl.pending_perm (show next ∈ s.pending c from hl.ok.locals)
  generalize (s.pending c).filter _ = rest at hperm ⊢
  obtain ⟨R, hR, hset⟩ := s.entries_setPending c rest
  rw [hR, hset, placed_perm _ hperm, placed_cons]
  change Flow s _ (R + ((.pending c, next) ::ₘ placed (.pending c) rest) +
      entryOf (.executing c) i.task)
    (R + placed (.pending c) rest + (entryOf (.executing c) i.task +
      {(.hand (.waking (s.task next).scheduler false), next)}))
  rw [← add_assoc, add_entry, add_cons, cons_add]
  exact .move _ (.rewake (.inl ⟨c, rfl⟩) next) rfl rfl

theorem stepOk_movePending (hl : Local s c (.preempting i (.movePending current)))
    (hpop : s.view.popGreatest (s.pending c) = some (next, moved)) :
    CpuStepOk s c (.preempting i (.movePending current)) (s.setPending c [])
      (.preempting i (.setCurrent next moved current)) := by
  refine .ofContainers hl (ownContainers_setPending hl.shared []) rfl ?_
    ⟨hl.ok.running, hl.ok.next, hl.ok.locals⟩ (fun _ h => h) nofun nofun
  obtain ⟨R, hR, hset⟩ := s.entries_setPending c []
  rw [hR, hset, placed_nil, add_zero]
  change Flow s _ (R + placed (.pending c) (s.pending c) + entryOf (.executing c) i.task)
    (R + (entryOf (.executing c) i.task + placed (.hand .moving) (next :: moved)))
  rw [← placed_perm _ (popGreatest_perm hpop), add_right_comm, ← add_assoc]
  exact .moveHeap _ c (s.pending c) rfl rfl

theorem stepOk_setCurrent (hl : Local s c (.preempting i (.setCurrent next moved current))) :
    CpuStepOk s c (.preempting i (.setCurrent next moved current))
      (s.setCurrentTask c (s.task next).id) (.preempting i (.rewakeMoved next moved current)) :=
  .ofContainers hl (ownContainers_setCurrentTask hl.shared _) rfl (.stay _ rfl rfl)
    ⟨Function.update_self .., hl.ok.next, hl.ok.locals⟩ (fun _ h => h) nofun nofun

theorem stepOk_rewakeMoved {p : Handle} {moved' : List Handle}
    (hl : Local s c (.preempting i (.rewakeMoved next moved current)))
    (hpop : s.view.popGreatest moved = some (p, moved')) :
    CpuStepOk s c (.preempting i (.rewakeMoved next moved current)) s
      (.preempting i (.rewakingMoved (s.wakeTask c p) next moved' current)) := by
  refine .ofFrame hl (.refl s) ?_ ⟨rfl, fun _ h => h, fun _ h => h, nofun, nofun⟩
    ⟨trivial, hl.ok.locals⟩
  change Flow s s (s.entries + (entryOf (.executing c) i.task +
      placed (.hand .moving) (next :: moved)))
    (s.entries + (entryOf (.executing c) i.task +
      {(.hand (.waking (s.task p).scheduler false), p)} +
      placed (.hand .moving) (next :: moved')))
  have hperm : (next :: moved).Perm (p :: next :: moved') :=
    ((popGreatest_perm hpop).cons next).trans (List.Perm.swap p next moved')
  rw [placed_perm _ hperm, placed_cons, add_entry, add_cons, add_cons, cons_add, add_cons]
  exact .move _ (.rewake (.inr (.inr rfl)) p) rfl rfl

/-! ### The switch -/

theorem stepOk_takeContext (hl : Local s c (.preempting i (.takeContext next currentTask)))
    (hthread : (s.task next).info.thread = some thread) :
    CpuStepOk s c (.preempting i (.takeContext next currentTask))
      (s.modifyInfo next fun info => { info with thread := none })
      (.preempting i (.saveContext currentTask thread)) := by
  obtain rfl : i = .polling currentTask := hl.ok.locals
  obtain rfl := hl.shared.threads next thread hthread
  have hheld : ∃ p, (p, next) ∈ CpuPc.entries c
      (.preempting (.polling currentTask) (.takeContext next currentTask)) :=
    ⟨.hand .moving, mem_add.mpr (.inr (mem_placed.mpr ⟨rfl, mem_singleton_self _⟩))⟩
  refine .ofInfo hl (ownContainers_rfl hl.shared) rfl id nofun (.inl hheld) ?_
    ⟨?_, .inl (hl.nextTask_eq_nil rfl), rfl⟩ .inr nofun (fun _ => .inr (.inr rfl))
    (fun u _ h => .inl h) nofun nofun
  · change Flow s _ (s.entries + ({(executing c, currentTask)} +
        {(hand .moving, next)}))
      (s.entries + ({(hand .yielding, currentTask)} + {(executing c, next)}))
    rw [add_entry, add_entry, add_cons, add_cons, add_entry, add_entry]
    exact .switch _ (.inr rfl) (s.due_modifyInfo next rfl) rfl
  · rw [idOf_modifyInfo]
    exact hl.ok.running

/-- The next task is left for a thread that has not started on a task. -/
theorem stepOk_pushNext (hl : Local s c (.preempting i (.pushNext next currentTask thread))) :
    CpuStepOk s c (.preempting i (.pushNext next currentTask thread))
      (s.setNext c (s.nextTask c ++ [next])) (.preempting i (.saveContext currentTask thread)) := by
  obtain ⟨hi, hfresh⟩ : i = .polling currentTask ∧ thread.isFresh := hl.ok.locals
  subst hi
  have hnil := hl.nextTask_eq_nil rfl
  rw [hnil, nil_append]
  -- such a thread is inside no future, and looks into `NEXT_TASK`
  have htask : thread.task = none := by cases thread <;> first | rfl | cases hfresh
  have hocc : thread.occupant [next] = some next := by
    cases thread <;> first | rfl | cases hfresh
  have hset : (s.setNext c [next]).nextTask c = [next] := Function.update_self ..
  refine .ofContainers hl (ownContainers_setNext hl.shared _) rfl ?_
    ⟨?_, .inr ⟨hfresh, next, hset⟩, rfl⟩ (fun u h => .inl h) nofun nofun
  · obtain ⟨R, hR, hentries⟩ := s.entries_setNext c [next]
    rw [hR, hentries, hnil]
    change Flow s _ (R + 0 + ({(executing c, currentTask)} + {(hand .moving, next)}))
      (R + {(Place.next c, next)} + ({(Place.hand .yielding, currentTask)} +
        entryOf (.executing c) thread.task))
    rw [htask, entryOf, add_zero, add_zero, add_entry, add_entry, add_entry, add_cons,
      add_entry, cons_swap (hand .yielding, currentTask)]
    exact .switch _ (.inl rfl) rfl rfl
  · change s.running c = (s.setNext c [next]).idOf
      (thread.occupant ((s.setNext c [next]).nextTask c))
    rw [hset, hocc]
    exact hl.ok.running

theorem stepOk_saveContext (hl : Local s c (.preempting i (.saveContext currentTask thread))) :
    CpuStepOk s c (.preempting i (.saveContext currentTask thread))
      (s.modifyInfo currentTask fun info =>
        { info with
          thread := some (.preempted i)
          state := .preempted
          numPreempt := info.numPreempt + 1 })
      (.preempting i (.pushPreempted currentTask thread)) := by
  obtain rfl : i = .polling currentTask := hl.ok.locals
  have hown : (hand .yielding, currentTask) ∈ CpuPc.entries c
      (.preempting (.polling currentTask) (.saveContext currentTask thread)) :=
    mem_add.mpr (.inl (Multiset.mem_singleton_self _))
  have hmem : (hand .yielding, currentTask) ∈ s.entries + CpuPc.entries c
      (.preempting (.polling currentTask) (.saveContext currentTask thread)) :=
    mem_add.mpr (.inr hown)
  have hlive := hl.live _ _ hmem (by simp)
  refine .ofInfo hl (ownContainers_rfl hl.shared) rfl ?_ ?_ (.inl ⟨_, hown⟩) ?_
    ⟨?_, hl.ok.next, rfl⟩ nofun nofun (fun _ => .inl rfl) ?_ nofun nofun
  · rw [hlive]; exact nofun
  · intro k hk
    exact (some.inj hk).symm
  · refine .stay _ ?_ rfl
    rw [s.due_modifyInfo_state currentTask]
    refine (congrArg (Function.update s.due currentTask) (if_pos (.inl rfl))).trans ?_
    rw [← hl.due hmem, Function.update_eq_self]
  · rw [idOf_modifyInfo]
    exact hl.ok.running
  · intro u hu hin
    refine hin.resolve_left fun h => hu ?_
    exact (some.inj h).symm

theorem stepOk_pushPreempted (hl : Local s c (.preempting i (.pushPreempted currentTask thread))) :
    CpuStepOk s c (.preempting i (.pushPreempted currentTask thread))
      (s.setPreempted c (currentTask :: s.preemptedTasks c)) (.reSchedule thread) := by
  refine .ofContainers hl ⟨rfl, rfl, rfl, fun _ _ => rfl, fun _ _ => rfl, fun _ _ => rfl,
    hl.shared.pooled, hl.shared.threadPool⟩ rfl ?_ ⟨hl.ok.running, hl.ok.next, trivial⟩
    (fun _ h => h) nofun nofun
  obtain ⟨R, hR, hset⟩ := s.entries_setPreempted c (currentTask :: s.preemptedTasks c)
  rw [hR, hset, placed_cons]
  change Flow s _ (R + placed (.preempted c) (s.preemptedTasks c) +
      ({(.hand .yielding, currentTask)} + entryOf (.executing c) thread.task))
    (R + ((.preempted c, currentTask) ::ₘ placed (.preempted c) (s.preemptedTasks c)) +
      entryOf (.executing c) thread.task)
  rw [← add_assoc, add_entry, add_cons, cons_add, cons_add]
  exact .move _ (.yield c currentTask) rfl rfl

/-! ### All steps -/

theorem ofPreempt_ofWake (wrap : WakeCall n → PreemptPc n)
    (done : Shared B n → PreemptResult B n) (after : CpuPc n)
    (hdone : ∀ s', CpuResult.ofPreempt i (done s') = .next s' after) (r : WakeResult B n) :
    CpuResult.ofPreempt i (.ofWake r wrap done) =
      .ofWake (fun w => .preempting i (wrap w)) after r := by
  cases r with
  | done s' => exact hdone s'
  | next | panicked => rfl

/-- **A step of `do_preemption`**, when a thread can be created. -/
theorem preemptStep_ok {inp : Input} {p : PreemptPc n} {r : PreemptResult B n}
    (hl : Local s c (.preempting i p))
    (hcreate : ∀ next currentTask, p = .takeThread next currentTask → s.pooled = [] →
      inp.threadCreated = true)
    (hstep : preemptStep s c i inp p = some r) :
    CpuStepOk s c (.preempting i p) (CpuResult.ofPreempt i r).shared
      ((CpuResult.ofPreempt i r).after (.preempting i p)) := by
  -- a panic leaves everything as it is
  have hpanic : CpuStepOk s c (.preempting i p) s (.preempting i p) :=
    .read hl rfl ⟨rfl, fun _ h => h, fun _ h => h, nofun, nofun⟩ hl.ok.locals
  cases p with
  | peekPending =>
    simp only [preemptStep] at hstep
    split at hstep
    · cases hstep
      exact .read hl (entries_resume i) (sameRole_resume rfl rfl fun _ h => h) (pcOk_resume s i)
    rename_i hpeek
    cases hstep
    exact .read hl rfl ⟨rfl, fun _ h => h, fun _ h => h, nofun, nofun⟩
      (s.view.peekPreemptionPending_mem hpeek)
  | readCurrent next =>
    have hnext : next ∈ s.pending c := hl.ok.locals
    simp only [preemptStep] at hstep
    split at hstep
    · cases hstep
      exact .read hl rfl ⟨rfl, fun _ h => h, fun _ h => h, nofun, nofun⟩ hnext
    rename_i hbusy
    cases hstep
    refine .read hl rfl ⟨rfl, fun _ h => h, fun _ h => h, nofun, nofun⟩ ⟨hnext, ?_⟩
    -- a CPU that was interrupted in its sleep is idle
    cases i with
    | polling x => exact ⟨x, rfl, hl.ok.running⟩
    | sleeping q => exact absurd hl.ok.running hbusy
  | compare next current =>
    obtain ⟨hnext, hcurrent⟩ : next ∈ s.pending c ∧ _ := hl.ok.locals
    simp only [preemptStep] at hstep
    split at hstep
    · cases hstep
      exact hpanic
    split at hstep
    · cases hstep
      exact .read hl rfl ⟨rfl, fun _ h => h, fun _ h => h, nofun, nofun⟩ hcurrent
    · cases hstep
      exact .read hl rfl ⟨rfl, fun _ h => h, fun _ h => h, nofun, nofun⟩ hnext
  | removePending next =>
    cases hstep
    exact stepOk_removePending hl
  | rewake call =>
    obtain ⟨r, hcall, rfl⟩ := map_eq_some_iff.mp hstep
    rw [ofPreempt_ofWake _ _ i.resume fun _ => rfl]
    refine .ofWake (fun w => .preempting i (.rewake w)) (entryOf (.executing c) i.task) hl
      hl.ok.locals hcall (fun _ => add_comm _ _) (entries_resume i)
      (fun _ => ⟨rfl, fun _ h => h, fun _ h => h, nofun, nofun⟩)
      (sameRole_resume rfl rfl fun _ h => h) (fun _ _ _ h => h) fun s' _ => pcOk_resume s' i
  | movePending current =>
    simp only [preemptStep] at hstep
    split at hstep
    · cases hstep
      exact hpanic
    rename_i hpop
    cases hstep
    exact stepOk_movePending hl hpop
  | setCurrent next moved current =>
    cases hstep
    exact stepOk_setCurrent hl
  | rewakeMoved next moved current =>
    simp only [preemptStep] at hstep
    split at hstep
    · next hpop =>
      cases hstep
      obtain rfl : moved = [] := argmax_eq_none.mp (map_eq_none_iff.mp hpop)
      exact .read hl rfl ⟨rfl, fun _ h => h, fun _ h => h, nofun, nofun⟩ hl.ok.locals
    · next hpop =>
      cases hstep
      exact stepOk_rewakeMoved hl hpop
  | rewakingMoved call next moved current =>
    obtain ⟨hok, x, hi, hcurrent⟩ : call.Ok ∧ _ := hl.ok.locals
    obtain ⟨r, hcall, rfl⟩ := map_eq_some_iff.mp hstep
    rw [ofPreempt_ofWake _ _ (.preempting i (.rewakeMoved next moved current)) fun _ => rfl]
    refine .ofWake (fun w => .preempting i (.rewakingMoved w next moved current))
      (entryOf (.executing c) i.task + placed (.hand .moving) (next :: moved)) hl hok hcall
      (fun w => ?_) rfl (fun _ => ⟨rfl, fun _ h => h, fun _ h => h, nofun, nofun⟩)
      ⟨rfl, fun _ h => h, fun _ h => h, nofun, nofun⟩
      (fun s' w hf hw => ⟨hw, x, hi, hcurrent.trans (hf.task x).id.symm⟩)
      fun s' hf => ⟨x, hi, hcurrent.trans (hf.task x).id.symm⟩
    change entryOf (.executing c) i.task + w.entries + placed (.hand .moving) (next :: moved) = _
    rw [add_comm (entryOf _ _), add_assoc]
  | lookupCurrent next current =>
    obtain ⟨x, rfl, rfl⟩ : ∃ x, i = .polling x ∧ current = (s.task x).id := hl.ok.locals
    -- the interrupted task is registered, so it is the one that is found
    have hreg : s.registry (s.task x).id = some x := by
      refine hl.registry (p := .executing c) (mem_add.mpr (.inr ?_))
      exact mem_add.mpr (.inl (Multiset.mem_singleton_self _))
    simp only [preemptStep, hreg] at hstep
    cases hstep
    exact .read hl rfl ⟨rfl, fun _ h => h, fun _ h => h, nofun, nofun⟩ rfl
  | takeContext next currentTask =>
    simp only [preemptStep] at hstep
    split at hstep
    · next hthread =>
      cases hstep
      exact stepOk_takeContext hl hthread
    · cases hstep
      exact .read hl rfl ⟨rfl, fun _ h => h, fun _ h => h, nofun, nofun⟩ hl.ok.locals
  | takeThread next currentTask =>
    simp only [preemptStep] at hstep
    split at hstep
    · next thread rest hpooled =>
      cases hstep
      have hfresh : ∀ k ∈ thread :: rest, k.isFresh := by
        rw [← hpooled]; exact hl.shared.pooled
      exact .ofContainers hl ⟨rfl, rfl, rfl, fun _ _ => rfl, fun _ _ => rfl, fun _ _ => rfl,
        fun k hk => hfresh k (mem_cons_of_mem _ hk), hl.shared.threadPool⟩ rfl
        (.stay _ rfl rfl) ⟨hl.ok.running, hl.ok.next, hl.ok.locals, hfresh _ mem_cons_self⟩
        (fun _ h => h) nofun nofun
    · next hpooled =>
      rw [if_pos (hcreate next currentTask rfl hpooled)] at hstep
      cases hstep
      exact .read hl rfl ⟨rfl, fun _ h => h, fun _ h => h, nofun, nofun⟩ ⟨hl.ok.locals, rfl⟩
  | pushNext next currentTask thread =>
    cases hstep
    exact stepOk_pushNext hl
  | saveContext currentTask thread =>
    simp only [preemptStep] at hstep
    split at hstep
    · cases hstep
      exact hpanic
    · cases hstep
      exact stepOk_saveContext hl
  | pushPreempted currentTask thread =>
    cases hstep
    exact stepOk_pushPreempted hl

end Awkernel
