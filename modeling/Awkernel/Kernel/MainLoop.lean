import Awkernel.Kernel.PreemptSteps

/-!
# The main loop of CPU 0, sleeping, and all steps of a CPU

The steps of `sleep`, of the round-robin tick, of the timers and of `wake_workers`, and from all
lemmas about steps the one about `cpuStep` (`cpuStep_ok`). The main loop touches no more than the
calls do, with one exception: the tick takes a task from a run queue and pushes it to the heap
of another CPU.
-/

namespace Awkernel

open Ledger Option

variable {B : Build} {n : Nat} {s : Shared B n} {c : Cpu n}

/-! ### Sleeping -/

/-- The memory after a step of `sleep`. -/
@[reducible] def SleepResult.shared : SleepResult B n → Shared B n
  | next s _ => s
  | returned s => s
  | panicked s => s

theorem sleepStep_tags (s : Shared B n) (c : Cpu n) (timedOut : Bool) (p : SleepPc) :
    ∃ tags, (sleepStep s c timedOut p).shared = { s with cpuSleepTag := tags } := by
  cases p with
  | checkContinue | checkTimeout =>
    simp only [sleepStep]
    split <;> exact ⟨_, rfl⟩
  | markWaiting | checkAgain =>
    simp only [sleepStep]
    cases s.cpuSleepTag c <;> exact ⟨_, rfl⟩
  | notify seen =>
    simp only [sleepStep]
    split
    · exact ⟨_, rfl⟩
    obtain ⟨tags, htags⟩ := s.wakeUp_tags 0 seen
    split
    all_goals
      next hw =>
      rw [hw] at htags
      exact ⟨tags, htags⟩
  | halted | reset => exact ⟨_, rfl⟩

theorem stepOk_sleep {p : SleepPc} (timedOut : Bool) {after : CpuPc n}
    (hafter : after = .loadNum ∨ after = .top) (hl : Local s c (.sleep p)) :
    CpuStepOk s c (.sleep p) (CpuResult.ofSleep after (sleepStep s c timedOut p)).shared
      ((CpuResult.ofSleep after (sleepStep s c timedOut p)).after (.sleep p)) := by
  have hnil := hl.nextTask_eq_nil rfl
  have hquiet : ∀ {pc' : CpuPc n} {tags}, SameRole (s.nextTask c) (.sleep p) pc' →
      pc'.entries c = 0 → (∀ s' : Shared B n, PcOk s' c pc') →
      CpuStepOk s c (.sleep p) { s with cpuSleepTag := tags } pc' :=
    fun hrole hheld hlocals => .quiet hl (.rest s) rfl rfl rfl hheld hrole (hlocals _)
  obtain ⟨tags, htags⟩ := sleepStep_tags s c timedOut p
  cases hr : sleepStep s c timedOut p with
  | next s' | panicked s' =>
    rw [hr] at htags
    obtain rfl : s' = _ := htags
    exact hquiet ⟨rfl, fun _ h => h, nofun, nofun, nofun⟩ rfl fun _ => trivial
  | returned s' =>
    rw [hr] at htags
    obtain rfl : s' = _ := htags
    rcases hafter with rfl | rfl
    · exact hquiet ⟨rfl, fun _ h => h, nofun, nofun, nofun⟩ rfl fun _ => trivial
    · exact hquiet ⟨by rw [hnil]; rfl, fun h => absurd hnil h, nofun, nofun, nofun⟩ rfl
        fun _ => trivial

/-! ### The round-robin tick -/

/-- The tick keeps what holds of a CPU, like the other steps. -/
theorem tickStep_ok {target : Cpu n} {current : Nat} {todo : List (Cpu n)} {inp : Input}
    {p : TickPc} {r : CpuResult B n} (hl : Local s c (.ticking target current todo p))
    (hstep : tickStep s c target current todo inp p = some r) :
    CpuStepOk s c (.ticking target current todo p) r.shared
      (r.after (.ticking target current todo p)) := by
  cases p with
  | schedulerType =>
    simp only [tickStep] at hstep
    split at hstep
    all_goals
      cases hstep
      exact .read hl rfl ⟨rfl, fun _ h => h, nofun, nofun, nofun⟩ trivial
  | lastExecuted =>
    simp only [tickStep] at hstep
    split at hstep
    · split at hstep
      all_goals
        cases hstep
        exact .read hl rfl ⟨rfl, fun _ h => h, nofun, nofun, nofun⟩ trivial
    · cases hstep
      exact .read hl rfl ⟨rfl, fun _ h => h, nofun, nofun, nofun⟩ trivial
  | getNext g =>
    obtain ⟨r, hget, rfl⟩ := map_eq_some_iff.mp hstep
    refine .ofGetNext (fun g => .ticking target current todo (.getNext g))
      (q := .hand .taken) hl hget (.inr rfl) (fun _ => rfl) ?_ ?_ ?_ (fun _ _ => trivial) ?_ ?_
      nofun
    · rintro (_ | t) <;> rfl
    · exact fun _ _ _ => ⟨rfl, fun _ h => h, nofun, nofun, nofun⟩
    · rintro (_ | t) <;> exact ⟨rfl, fun _ h => h, nofun, nofun, nofun⟩
    · rintro _ (_ | t) <;> exact trivial
    -- the task is not marked as running, so `RUNNING` stays
    intro S t s' g' htaken _
    refine ⟨?_, ?_, trivial⟩
    · rw [htaken.running]
      exact hl.ok.running
    · rw [htaken.nextTask]
      exact hl.ok.next
  | pushPending t =>
    cases hstep
    refine .ofFrame hl (.pushPreemptionPending s target t) ?_
      ⟨rfl, fun _ h => h, nofun, nofun, nofun⟩ trivial
    change Flow s _ (s.entries + {(Place.hand .taken, t)})
      ((s.pushPreemptionPending target t).entries + 0)
    rw [s.entries_pushPreemptionPending, add_zero, add_entry]
    exact .move _ (.tick target t) rfl rfl
  | setNeedPreemption =>
    cases hstep
    obtain ⟨_, hframe⟩ := s.setNeedPreemption_frame current target
    refine .quiet hl (.setNeedPreemption s current target) ?_
      (WakeFrame.setNeedPreemption_due ..) ?_ rfl ⟨rfl, fun _ h => h, nofun, nofun, nofun⟩ trivial
    · rw [hframe]
      rfl
    · rw [hframe]
  | sendIpi =>
    cases hstep
    exact .quiet hl (.rest s) rfl rfl rfl rfl ⟨rfl, fun _ h => h, nofun, nofun, nofun⟩ trivial

/-! ### All steps of a CPU -/

/-- `do_preemption` is about to take a thread from the pool or to create one. -/
def CpuPc.takesThread : CpuPc n → Bool
  | .preempting _ (.takeThread _ _) => true
  | _ => false

/-- The pool has a thread, or one can be created. -/
def CanCreate (s : Shared B n) (inp : Input) (pc : CpuPc n) : Prop :=
  pc.takesThread → s.pooled = [] → inp.threadCreated

instance (s : Shared B n) (inp : Input) (pc : CpuPc n) : Decidable (CanCreate s inp pc) :=
  inferInstanceAs (Decidable (_ → _))

/-- **A step of a CPU.** -/
theorem cpuStep_ok {inp : Input} {pc : CpuPc n} {r : CpuResult B n} (hl : Local s c pc)
    (hcreate : CanCreate s inp pc) (hstep : cpuStep s c inp pc = some r) :
    CpuStepOk s c pc r.shared (r.after pc) := by
  cases pc with
  | top =>
    cases hstep
    exact stepOk_top hl
  | drain =>
    simp only [cpuStep] at hstep
    split at hstep
    · next hpop =>
      cases hstep
      exact stepOk_drain hl hpop
    · cases hstep
      exact stepOk_drain_empty hl
  | draining call =>
    obtain ⟨r, hcall, rfl⟩ := map_eq_some_iff.mp hstep
    exact stepOk_draining hl hcall
  | takeNext =>
    simp only [cpuStep] at hstep
    split at hstep
    · next hnext =>
      cases hstep
      exact stepOk_takeNext hl hnext
    · next hnext =>
      cases hstep
      exact .read hl rfl ⟨by rw [hnext]; rfl, fun h => absurd hnext h, nofun, nofun, nofun⟩ trivial
  | getNext g =>
    obtain ⟨r, hget, rfl⟩ := map_eq_some_iff.mp hstep
    exact stepOk_getNext rfl hl hget
  | dispatch t =>
    simp only [cpuStep] at hstep
    split at hstep
    · next hthread =>
      cases hstep
      exact stepOk_dispatch_thread hl hthread
    · next hthread =>
      cases hstep
      exact .quiet hl (.rest s) rfl rfl rfl rfl ⟨rfl, fun _ h => h, nofun, nofun, nofun⟩ hthread
  | pool thread =>
    cases hstep
    exact stepOk_pool hl
  | tryLock t =>
    obtain ⟨hfree, hok⟩ := stepOk_tryLock hl
    simp only [cpuStep, hfree] at hstep
    cases hstep
    exact hok
  | lockFailed t => cases hl.ok.locals
  | checkFuture t =>
    simp only [cpuStep, hl.unterminated t rfl] at hstep
    cases hstep
    exact .read hl rfl ⟨rfl, fun _ h => h, fun _ h => h, nofun, nofun⟩ trivial
  | checkState t =>
    obtain ⟨hlive, hok⟩ := stepOk_checkState hl
    simp only [cpuStep, hlive] at hstep
    cases hstep
    exact hok
  | startPoll t =>
    cases hstep
    exact .ofContainers hl (ownContainers_setCurrentTask hl.shared _) rfl (.stay _ rfl rfl)
      ⟨Function.update_self .., hl.ok.next, trivial⟩ (fun _ h => h) nofun nofun
  | polling t =>
    cases hstep
    exact stepOk_polling inp.poll hl
  | polled t result =>
    obtain ⟨hrunning, hok⟩ := stepOk_polled hl
    simp only [cpuStep, hrunning, if_true] at hstep
    cases hstep
    exact hok
  | finish t result =>
    cases result with
    | pending =>
      cases hstep
      refine stepOk_finish_pending (fun _ => ⟨rfl, rfl⟩) hl ?_
      split
      · exact .inr ⟨_, rfl, rfl, rfl⟩
      · exact .inl rfl
    | ready | panicked =>
      cases hstep
      exact stepOk_finish_ended (fun _ => ⟨rfl, rfl⟩) hl
  | removeTask t =>
    cases hstep
    exact stepOk_removeTask hl
  | waking call =>
    obtain ⟨r, hcall, rfl⟩ := map_eq_some_iff.mp hstep
    exact stepOk_waking hl hcall
  | preempting i p =>
    obtain ⟨r, hpre, rfl⟩ := map_eq_some_iff.mp hstep
    refine preemptStep_ok hl (fun next currentTask hp => ?_) hpre
    subst hp
    exact hcreate rfl
  | reSchedule thread =>
    simp only [cpuStep] at hstep
    split at hstep
    · next htask =>
      cases hstep
      exact stepOk_reSchedule hl htask
    · cases hstep
      exact .read hl rfl ⟨rfl, fun _ h => h, fun _ h => h, nofun, nofun⟩ trivial
  | reScheduling call thread =>
    obtain ⟨r, hcall, rfl⟩ := map_eq_some_iff.mp hstep
    exact stepOk_reScheduling hl hcall
  | repool thread =>
    simp only [cpuStep] at hstep
    split at hstep
    · next hpool =>
      cases hstep
      exact stepOk_repool hl hpool
    · cases hstep
      exact stepOk_repool_empty hl
  | sleep p =>
    cases hstep
    refine stepOk_sleep inp.timedOut ?_ hl
    split
    · exact .inl rfl
    · exact .inr rfl
  | tick todo | wakeWorkers todo =>
    cases todo with
    | nil =>
      cases hstep
      exact .read hl rfl ⟨rfl, fun _ h => h, nofun, nofun, nofun⟩ trivial
    | cons target todo =>
      simp only [cpuStep] at hstep
      split at hstep
      all_goals
        cases hstep
        exact .read hl rfl ⟨rfl, fun _ h => h, nofun, nofun, nofun⟩ trivial
  | ticking target current todo p => exact tickStep_ok hl hstep
  | timers =>
    simp only [cpuStep] at hstep
    split at hstep
    · obtain ⟨-, ⟨⟩⟩ := ite_none_right_eq_some.mp hstep
      exact .read hl rfl ⟨rfl, fun _ h => h, nofun, nofun, nofun⟩ rfl
    cases hstep
    split
    all_goals exact .read hl rfl ⟨rfl, fun _ h => h, nofun, nofun, nofun⟩ trivial
  | timerWaking call =>
    obtain ⟨r, hcall, rfl⟩ := map_eq_some_iff.mp hstep
    exact .ofWake .timerWaking 0 hl hl.ok.locals hcall (fun w' => (add_zero w'.entries).symm) rfl
      (fun _ => ⟨rfl, fun _ h => h, nofun, nofun, nofun⟩)
      ⟨rfl, fun _ h => h, nofun, nofun, nofun⟩ (fun _ _ _ h => h) fun _ _ => trivial
  | loadNum | loadMask numTasks =>
    cases hstep
    exact .read hl rfl ⟨rfl, fun _ h => h, nofun, nofun, nofun⟩ trivial
  | wakeWorker target seen todo numTasks mask =>
    obtain ⟨tags, htags⟩ := s.wakeUp_tags target seen
    simp only [cpuStep] at hstep
    split at hstep
    all_goals
      next hw =>
      cases hstep
      rw [hw] at htags
      obtain rfl := htags
      exact .quiet hl (.rest s) rfl rfl rfl rfl ⟨rfl, fun _ h => h, nofun, nofun, nofun⟩ trivial

end Awkernel
