import Awkernel.Kernel.MainLoop

/-!
# The calls in progress

A call of `wake_task` is executed by a slot, or by a CPU as part of its own code. What a step
does to the calls, and to what the calls read, does not depend on which of the two it is.

* `Sys.callOf`: the call of a slot or of a CPU.
* `cpuStep_cases`: a step of a CPU is a step of its call (`CpuCase.call`), or it is outside of
  any call (`CpuCase.own`), and then it may start one.
* `sysStep_calls`: what a step of the system does to the calls, and where the calls after it
  come from (`CallCase.origin`).
-/

namespace Awkernel

open Shared Option Function

variable {B : Build} {n m : Nat} {r : CpuResult B n} {c : Cpu n} {pick : List GEDFTask → Nat}

/-- The call a CPU is in. -/
def CpuPc.call : CpuPc n → Option (WakeCall n)
  | .draining w | .waking w | .timerWaking w | .reScheduling w _
  | .preempting _ (.rewake w) | .preempting _ (.rewakingMoved w _ _ _) => some w
  | _ => none

/-- The call of a slot or of a CPU. -/
def Sys.callOf (σ : Sys B n m) : Fin m ⊕ Cpu n → Option (WakeCall n)
  | .inl i => σ.call i
  | .inr c => (σ.cpu c).call

/-- What is left of the call `w` after a step. -/
def WakeResult.call (w : WakeCall n) : WakeResult B n → Option (WakeCall n)
  | .next _ w' => some w'
  | .done _ => none
  | .panicked _ => some w

/-- A call that is about to start on CPU `c`, of `Task::wake` or of a bare `wake_task`. -/
def WakeCall.IsFresh (s : Shared B n) (c : Cpu n) (w : WakeCall n) : Prop :=
  w = s.wake c w.task ∨ w = s.wakeTask c w.task

/-! ### What is kept of a task between two wakes -/

/-- The fields that say which scheduler a task belongs to, from which `wake_task` computes its
deadline and priority, and where these are stored. -/
structure SameJob (t t' : Task) : Prop where
  priority : t'.priority = t.priority
  absoluteDeadline : t'.info.absoluteDeadline = t.info.absoluteDeadline
  schedulerType : t'.info.schedulerType = t.info.schedulerType
  panicked : t'.info.panicked = t.info.panicked
  dagInfo : t'.info.dagInfo = t.info.dagInfo

namespace SameJob

theorem refl (t : Task) : SameJob t t := ⟨rfl, rfl, rfl, rfl, rfl⟩

theorem trans {t t' t'' : Task} (h : SameJob t t') (h' : SameJob t' t'') : SameJob t t'' :=
  ⟨h'.priority.trans h.priority, h'.absoluteDeadline.trans h.absoluteDeadline,
    h'.schedulerType.trans h.schedulerType, h'.panicked.trans h.panicked,
    h'.dagInfo.trans h.dagInfo⟩

theorem modifyTask (s : Shared B n) {x : Handle} {f : Task → Task}
    (hf : SameJob (s.task x) (f (s.task x))) (t : Handle) :
    SameJob (s.task t) ((s.modifyTask x f).task t) := by
  by_cases ht : t = x
  · subst ht
    rw [modifyTask_task_self]
    exact hf
  · rw [s.modifyTask_task_of_ne f ht]
    exact .refl _

end SameJob

/-- No job and no registration changes. -/
structure JobsKept (s s' : Shared B n) : Prop where
  job : ∀ t, SameJob (s.task t) (s'.task t)
  registry : s'.registry = s.registry
  numHandles : s'.numHandles = s.numHandles

namespace JobsKept

variable {s s' : Shared B n}

theorem of_task (htask : s'.task = s.task) (hregistry : s'.registry = s.registry)
    (hnum : s'.numHandles = s.numHandles) : JobsKept s s' := by
  refine ⟨fun t => ?_, hregistry, hnum⟩
  rw [htask]
  exact .refl _

theorem refl (s : Shared B n) : JobsKept s s := .of_task rfl rfl rfl

theorem numTaskInQueue (s : Shared B n) (k : Nat) : JobsKept s { s with numTaskInQueue := k } :=
  .of_task rfl rfl rfl

theorem trans {s'' : Shared B n} (h : JobsKept s s') (h' : JobsKept s' s'') : JobsKept s s'' :=
  ⟨fun t => (h.job t).trans (h'.job t), h'.registry.trans h.registry,
    h'.numHandles.trans h.numHandles⟩

theorem modifyTask {x : Handle} {f : Task → Task} (h : JobsKept s s')
    (hf : SameJob (s'.task x) (f (s'.task x))) : JobsKept s (s'.modifyTask x f) :=
  ⟨fun t => (h.job t).trans (.modifyTask s' hf t), h.registry, h.numHandles⟩

theorem setNeedPreemption (s : Shared B n) (id : Nat) (c : Cpu n) :
    JobsKept s (s.setNeedPreemption id c) := by
  unfold Shared.setNeedPreemption
  cases s.registry id with
  | none => exact .of_task rfl rfl rfl
  | some x =>
    have hinfo : JobsKept s (s.modifyInfo x fun info => { info with needPreemption := true }) :=
      .modifyTask (.refl s) ⟨rfl, rfl, rfl, rfl, rfl⟩
    exact ⟨hinfo.job, hinfo.registry, hinfo.numHandles⟩

/-! ### `get_next_task` -/

theorem popQueue {S : Sched} {t : Handle}
    (h : s.popQueue c pick S = some (t, s')) : JobsKept s s' := by
  obtain ⟨_, _, _, _, _, _, rfl⟩ := popQueue_frame h
  exact .of_task rfl rfl rfl

theorem popLive (c : Cpu n) (pick : List GEDFTask → Nat) (S : Sched) (fuel : Nat) :
    ∀ s : Shared B n, JobsKept s (popLive c pick S fuel s).2 := by
  induction fuel with
  | zero => exact .refl
  | succ fuel ih =>
    intro s
    unfold Shared.popLive
    split
    · exact .refl s
    rename_i hpop
    have hkept := popQueue hpop
    split
    · exact hkept.trans (ih _)
    · exact hkept

theorem markTaken (s : Shared B n) (c : Cpu n) (ensured : Bool) (t : Handle) :
    JobsKept s (s.markTaken c ensured t) := by
  have hinfo : JobsKept s (s.modifyInfo t fun info =>
      { info with
        needPreemption := if info.state = .preempted then false else info.needPreemption
        state := if ensured then .running else info.state }) :=
    .modifyTask (.refl s) ⟨rfl, rfl, rfl, rfl, rfl⟩
  exact ⟨hinfo.job, hinfo.registry, hinfo.numHandles⟩

theorem getNext (s : Shared B n) (c : Cpu n) (ensured : Bool) (pick : List GEDFTask → Nat)
    (S : Sched) : JobsKept s (s.getNext c ensured pick S).2 := by
  have hkept := popLive c pick S ((s.queued S).length + 1) s
  unfold Shared.getNext
  split
  · next hpop =>
    rw [hpop] at hkept
    exact hkept
  · next hpop =>
    rw [hpop] at hkept
    exact hkept.trans (.markTaken ..)

theorem findNext (c : Cpu n) (ensured : Bool) (pick : List GEDFTask → Nat) (Ss : List Sched) :
    ∀ s : Shared B n, JobsKept s (findNext c ensured pick Ss s).2 := by
  induction Ss with
  | nil => exact .refl
  | cons S Ss ih =>
    intro s
    have hkept := getNext s c ensured pick S
    unfold Shared.findNext
    split
    · next hget =>
      rw [hget] at hkept
      exact hkept.trans (ih _)
    · next hget =>
      rw [hget] at hkept
      exact hkept

end JobsKept

@[reducible] def GetNextResult.shared : GetNextResult B n → Shared B n
  | .next s _ => s
  | .done s _ => s

theorem getNextStep_kept {s : Shared B n} {ensured : Bool} {g : GetNextPc} {r : GetNextResult B n}
    (h : getNextStep s c ensured pick g = some r) : JobsKept s r.shared := by
  cases g with
  | lock =>
    simp only [getNextStep] at h
    split at h
    · cases h
    · cases h
      exact .of_task rfl rfl rfl
  | pop =>
    simp only [getNextStep] at h
    -- the clustered queue first, if its counter says so
    have hclustered : JobsKept s (if s.numClusteredTasksInQueue > 0 then
        findNext c ensured pick clusteredSchedulers s else (none, s)).2 := by
      split
      · exact .findNext ..
      · exact .refl s
    split at h
    · next hfind =>
      cases h
      rw [hfind] at hclustered
      exact hclustered
    rename_i s' hfind
    rw [hfind] at hclustered
    have hglobal := JobsKept.findNext c ensured pick globalSchedulers s'
    split at h
    all_goals
      next hfind' =>
      cases h
      rw [hfind'] at hglobal
      exact hclustered.trans hglobal
  | decrement t =>
    cases h
    exact .numTaskInQueue s _
  | unlock t =>
    cases h
    exact .of_task rfl rfl rfl

/-! ### A step of a CPU -/

/-- A step of CPU `c` outside of any call. -/
structure OwnStep (s : Shared B n) (c : Cpu n) (pc : CpuPc n) (s' : Shared B n)
    (pc' : CpuPc n) : Prop where
  job : ∀ t, SameJob (s.task t) (s'.task t)
  registry : ∀ id, s'.registry id = s.registry id ∨ ∃ t, pc = .removeTask t ∧ id = (s.task t).id
  numHandles : s'.numHandles = s.numHandles
  call : ∀ w, pc'.call = some w → w.IsFresh s' c

theorem JobsKept.ownStep {s s' : Shared B n} {pc pc' : CpuPc n} (h : JobsKept s s')
    (hcall : ∀ w, pc'.call = some w → w.IsFresh s' c) : OwnStep s c pc s' pc' :=
  ⟨h.job, fun _ => .inl (by rw [h.registry]), h.numHandles, hcall⟩

/-- **A step of a CPU** is a step of its call, or it is outside of any call. -/
inductive CpuCase (s : Shared B n) (c : Cpu n) (d : Nat) (pc : CpuPc n) : CpuResult B n → Prop
  | call {w : WakeCall n} {r : WakeResult B n} (hw : pc.call = some w)
      (hr : wakeStep s w d = some r) {wrap : WakeCall n → CpuPc n} {after : CpuPc n}
      (hwrap : ∀ w', (wrap w').call = some w') (hafter : after.call = none) :
      CpuCase s c d pc (.ofWake wrap after r)
  | own {r : CpuResult B n} (hw : pc.call = none)
      (hown : OwnStep s c pc r.shared (r.after pc)) : CpuCase s c d pc r

namespace CpuCase

variable {s s' : Shared B n} {c : Cpu n} {d : Nat} {pc pc' : CpuPc n}

section

variable (hw : pc.call = none)

include hw

theorem kept (h : JobsKept s s') (hcall : pc'.call = none) : CpuCase s c d pc (.next s' pc') := by
  refine .own hw (h.ownStep fun w hw' => ?_)
  rw [show (CpuResult.next s' pc').after pc = pc' from rfl, hcall] at hw'
  cases hw'

theorem quiet (htask : s'.task = s.task)
    (hregistry : s'.registry = s.registry) (hnum : s'.numHandles = s.numHandles)
    (hcall : pc'.call = none) : CpuCase s c d pc (.next s' pc') :=
  .kept hw (.of_task htask hregistry hnum) hcall

theorem starts {w : WakeCall n} (h : JobsKept s s')
    (hcall : pc'.call = some w) (hfresh : w.IsFresh s' c) : CpuCase s c d pc (.next s' pc') := by
  refine .own hw (h.ownStep fun w' hw' => ?_)
  obtain rfl : w = w' := some.inj (hcall.symm.trans hw')
  exact hfresh

theorem panics (h : JobsKept s s') : CpuCase s c d pc (.panicked s') := by
  refine .own hw (h.ownStep fun w hw' => ?_)
  rw [show (CpuResult.panicked s').after pc = pc from rfl, hw] at hw'
  cases hw'

end

end CpuCase

section Steps

variable {s : Shared B n} {c : Cpu n} {inp : Input}

theorem preemptStep_cases {i : Interrupted} {p : PreemptPc n} {r : PreemptResult B n}
    (h : preemptStep s c i inp p = some r) :
    CpuCase s c inp.dagDeadline (.preempting i p) (.ofPreempt i r) := by
  have hresume : (i.resume : CpuPc n).call = none := by cases i <;> rfl
  cases p with
  | peekPending =>
    simp only [preemptStep] at h
    split at h <;> cases h
    · exact .quiet rfl rfl rfl rfl hresume
    · exact .quiet rfl rfl rfl rfl rfl
  | readCurrent next =>
    simp only [preemptStep] at h
    split at h <;> (cases h; exact .quiet rfl rfl rfl rfl rfl)
  | compare next current =>
    simp only [preemptStep] at h
    split at h
    · cases h
      exact .panics rfl (.refl s)
    · split at h <;> (cases h; exact .quiet rfl rfl rfl rfl rfl)
  | removePending next =>
    cases h
    exact .starts rfl (.of_task rfl rfl rfl) rfl (.inr rfl)
  | rewake w =>
    obtain ⟨r, hr, rfl⟩ := map_eq_some_iff.mp h
    rw [ofPreempt_ofWake .rewake .returned i.resume fun _ => rfl]
    exact .call rfl hr (fun _ => rfl) hresume
  | movePending | lookupCurrent =>
    simp only [preemptStep] at h
    split at h <;> cases h
    · exact .panics rfl (.refl s)
    · exact .quiet rfl rfl rfl rfl rfl
  | setCurrent | pushNext | pushPreempted =>
    cases h
    exact .quiet rfl rfl rfl rfl rfl
  | rewakeMoved next moved current =>
    simp only [preemptStep] at h
    split at h <;> cases h
    · exact .quiet rfl rfl rfl rfl rfl
    · exact .starts rfl (.refl s) rfl (.inr rfl)
  | rewakingMoved w next moved current =>
    obtain ⟨r, hr, rfl⟩ := map_eq_some_iff.mp h
    rw [ofPreempt_ofWake (fun w' => .rewakingMoved w' next moved current) _
      (.preempting i (.rewakeMoved next moved current)) fun _ => rfl]
    exact .call rfl hr (fun _ => rfl) rfl
  | takeContext next currentTask =>
    simp only [preemptStep] at h
    split at h <;> cases h
    · exact .kept rfl (.modifyTask (.of_task rfl rfl rfl) ⟨rfl, rfl, rfl, rfl, rfl⟩) rfl
    · exact .quiet rfl rfl rfl rfl rfl
  | takeThread next currentTask =>
    simp only [preemptStep] at h
    split at h
    · cases h
      exact .quiet rfl rfl rfl rfl rfl
    split at h <;> cases h
    · exact .quiet rfl rfl rfl rfl rfl
    · exact .starts rfl (.refl s) rfl (.inr rfl)
  | saveContext currentTask thread =>
    simp only [preemptStep] at h
    split at h <;> cases h
    · exact .panics rfl (.refl s)
    · exact .kept rfl (.modifyTask (.of_task rfl rfl rfl) ⟨rfl, rfl, rfl, rfl, rfl⟩) rfl

theorem tickStep_cases {target : Cpu n} {current : Nat} {todo : List (Cpu n)} {p : TickPc}
    (h : tickStep s c target current todo inp p = some r) :
    CpuCase s c inp.dagDeadline (.ticking target current todo p) r := by
  cases p with
  | schedulerType =>
    simp only [tickStep] at h
    split at h <;> (cases h; exact .quiet rfl rfl rfl rfl rfl)
  | lastExecuted =>
    simp only [tickStep] at h
    split at h
    · split at h <;> (cases h; exact .quiet rfl rfl rfl rfl rfl)
    · cases h
      exact .quiet rfl rfl rfl rfl rfl
  | getNext g =>
    obtain ⟨r, hget, rfl⟩ := map_eq_some_iff.mp h
    have hkept := getNextStep_kept hget
    cases r with
    | next => exact .kept rfl hkept rfl
    | done s' t => cases t <;> exact .kept rfl hkept rfl
  | pushPending t | sendIpi =>
    cases h
    exact .quiet rfl rfl rfl rfl rfl
  | setNeedPreemption =>
    cases h
    exact .kept rfl (.setNeedPreemption s current target) rfl

/-- A step of a CPU is one of the call that it makes, or its own. -/
theorem cpuStep_cases {pc : CpuPc n} (h : cpuStep s c inp pc = some r) :
    CpuCase s c inp.dagDeadline pc r := by
  cases pc with
  | top =>
    cases h
    exact .quiet rfl rfl rfl rfl (by split <;> rfl)
  | drain | reSchedule =>
    simp only [cpuStep] at h
    split at h <;> cases h
    · exact .starts rfl (.of_task rfl rfl rfl) rfl (.inr rfl)
    · exact .quiet rfl rfl rfl rfl rfl
  | draining w | waking w | timerWaking w | reScheduling w thread =>
    obtain ⟨r, hr, rfl⟩ := map_eq_some_iff.mp h
    exact .call rfl hr (fun _ => rfl) rfl
  | takeNext =>
    simp only [cpuStep] at h
    split at h <;> (cases h; exact .quiet rfl rfl rfl rfl rfl)
  | getNext g =>
    obtain ⟨r, hget, rfl⟩ := map_eq_some_iff.mp h
    have hkept := getNextStep_kept hget
    cases r with
    | next => exact .kept rfl hkept rfl
    | done s' t => cases t <;> exact .kept rfl hkept rfl
  | dispatch | checkFuture =>
    simp only [cpuStep] at h
    split at h <;> cases h
    · exact .kept rfl (.modifyTask (.of_task rfl rfl rfl) ⟨rfl, rfl, rfl, rfl, rfl⟩) rfl
    · exact .quiet rfl rfl rfl rfl rfl
  | pool thread | startPoll t | loadNum | loadMask numTasks =>
    cases h
    exact .quiet rfl rfl rfl rfl rfl
  | tryLock t =>
    simp only [cpuStep] at h
    split at h <;> cases h
    · exact .quiet rfl rfl rfl rfl rfl
    · exact .kept rfl (.modifyTask (.of_task rfl rfl rfl) ⟨rfl, rfl, rfl, rfl, rfl⟩) rfl
  | lockFailed t =>
    cases h
    exact .starts rfl (.of_task rfl rfl rfl) rfl (.inl rfl)
  | checkState t =>
    simp only [cpuStep] at h
    split at h <;> cases h
    all_goals exact .kept rfl (.modifyTask (.of_task rfl rfl rfl) ⟨rfl, rfl, rfl, rfl, rfl⟩) rfl
  | polling t =>
    cases h
    exact .kept rfl (.modifyTask (.of_task rfl rfl rfl) ⟨rfl, rfl, rfl, rfl, rfl⟩) rfl
  | polled t result =>
    simp only [cpuStep] at h
    split at h <;> cases h
    · exact .quiet rfl rfl rfl rfl rfl
    · exact .panics rfl (.of_task rfl rfl rfl)
  | finish t result =>
    cases result with
    | pending =>
      cases h
      split
      · exact .starts rfl (.modifyTask (.of_task rfl rfl rfl) ⟨rfl, rfl, rfl, rfl, rfl⟩) rfl
          (.inl rfl)
      · exact .kept rfl (.modifyTask (.of_task rfl rfl rfl) ⟨rfl, rfl, rfl, rfl, rfl⟩) rfl
    | ready | panicked =>
      cases h
      exact .kept rfl (.modifyTask (.of_task rfl rfl rfl) ⟨rfl, rfl, rfl, rfl, rfl⟩) rfl
  | removeTask t =>
    cases h
    refine .own rfl ⟨fun _ => .refl _, fun id => ?_, rfl, fun _ hw => by cases hw⟩
    by_cases hid : id = (s.task t).id
    · exact .inr ⟨t, rfl, hid⟩
    · exact .inl (update_of_ne hid ..)
  | preempting i p =>
    obtain ⟨r, hr, rfl⟩ := map_eq_some_iff.mp h
    exact preemptStep_cases hr
  | repool thread =>
    simp only [cpuStep] at h
    split at h <;> cases h
    · exact .quiet rfl rfl rfl rfl rfl
    refine .quiet rfl rfl rfl rfl ?_
    cases thread with
    | preempted i => cases i <;> rfl
    | _ => rfl
  | sleep p =>
    cases h
    obtain ⟨tags, htags⟩ := sleepStep_tags s c inp.timedOut p
    have hkept : JobsKept s (sleepStep s c inp.timedOut p).shared := by
      rw [htags]
      exact .of_task rfl rfl rfl
    cases hr : sleepStep s c inp.timedOut p <;> rw [hr] at hkept
    · exact .kept rfl hkept rfl
    · exact .kept rfl hkept (by split <;> rfl)
    · exact .panics rfl hkept
  | tick todo | wakeWorkers todo =>
    cases todo with
    | nil =>
      cases h
      exact .quiet rfl rfl rfl rfl rfl
    | cons target todo =>
      simp only [cpuStep] at h
      split at h <;> (cases h; exact .quiet rfl rfl rfl rfl rfl)
  | ticking target current todo p => exact tickStep_cases h
  | timers =>
    simp only [cpuStep] at h
    split at h
    · split at h
      · cases h
        exact .starts rfl (.refl s) rfl (.inl rfl)
      · cases h
    · cases h
      exact .quiet rfl rfl rfl rfl (by split <;> rfl)
  | wakeWorker target seen todo numTasks mask =>
    obtain ⟨tags, htags⟩ := s.wakeUp_tags target seen
    simp only [cpuStep] at h
    split at h
    all_goals
      next hw =>
      cases h
      rw [hw] at htags
      obtain rfl := htags
      exact .quiet rfl rfl rfl rfl rfl

end Steps

/-! ### The calls of the system -/

section System

variable {σ σ' : Sys B n m}

/-- Whose code an action executes. -/
def Action.mover : Action n m → Option (Fin m ⊕ Cpu n)
  | .cpu c _ => some (.inr c)
  | .call i _ => some (.inl i)
  | _ => none

section

variable (σ : Sys B n m)

theorem Sys.callOf_eq : σ.callOf = Sum.elim σ.call fun c => (σ.cpu c).call :=
  funext fun p => by cases p <;> rfl

theorem Sys.callOf_setCpu (c : Cpu n) (r : CpuResult B n) :
    (σ.setCpu c r).callOf = update σ.callOf (.inr c) (r.after (σ.cpu c)).call := by
  rw [callOf_eq, callOf_eq, Sum.update_elim_inr]
  cases r with
  | next s pc => exact congrArg (Sum.elim σ.call) (comp_update CpuPc.call σ.cpu c pc)
  | panicked s => exact congrArg (Sum.elim σ.call) (update_eq_self c fun c => (σ.cpu c).call).symm

theorem Sys.callOf_startCall (i : Fin m) (s : Shared B n) (w : WakeCall n) :
    (σ.startCall i s w).callOf = update σ.callOf (.inl i) (some w) := by
  rw [callOf_eq, callOf_eq, Sum.update_elim_inl]
  rfl

theorem Sys.callOf_setCall {i : Fin m} {w : WakeCall n} (hw : σ.call i = some w)
    (r : WakeResult B n) :
    (σ.setCall i r).callOf = update σ.callOf (.inl i) (r.call w) := by
  rw [callOf_eq, callOf_eq, Sum.update_elim_inl]
  cases r with
  | next | done => rfl
  | panicked s => exact congrArg (Sum.elim · _) (hw ▸ update_eq_self i σ.call).symm

end

/-- **What a step does to the calls**: that of one party takes a step or is new. -/
inductive CallCase (σ : Sys B n m) (a : Action n m) (σ' : Sys B n m) : Prop
  | step {p : Fin m ⊕ Cpu n} {w : WakeCall n} {r : WakeResult B n} {d : Nat}
      (hp : a.mover = some p) (hw : σ.callOf p = some w)
      (hr : wakeStep σ.shared w d = some r) (hs : σ'.shared = r.shared)
      (hcall : σ'.callOf = update σ.callOf p (r.call w))
  | start {p : Fin m ⊕ Cpu n} {o : Option (WakeCall n)}
      (hfresh : ∀ w, o = some w → ∃ c, w.IsFresh σ'.shared c)
      (hcall : σ'.callOf = update σ.callOf p o)
  | same (hcall : σ'.callOf = σ.callOf)

variable {a : Action n m}

theorem CallCase.ofOwn (h : OwnStep σ.shared c (σ.cpu c) r.shared (r.after (σ.cpu c))) :
    CallCase σ a (σ.setCpu c r) := by
  refine .start (fun w hw => ⟨c, ?_⟩) (σ.callOf_setCpu c r)
  have hfresh := h.call w hw
  cases r <;> exact hfresh

theorem sysStep_calls (h : sysStep σ a = some σ') : CallCase σ a σ' := by
  cases sysStep_cases h with
  | @cpu c inp r hrun hr =>
    cases cpuStep_cases hr with
    | @call w r hw hwake wrap after hwrap hafter =>
      refine .step (p := .inr c) rfl hw hwake ?_ ?_
      · cases r <;> rfl
      rw [σ.callOf_setCpu]
      cases r with
      | next s' w' => exact congrArg _ (hwrap w')
      | done s' => exact congrArg _ hafter
      | panicked s' => exact congrArg _ hw
    | own hw hown => exact .ofOwn hown
  | @call i inp w r hrun hw hr =>
    refine .step (p := .inl i) rfl hw hr ?_ (σ.callOf_setCall hw r)
    cases r <;> rfl
  | @wake _ c | @spawn _ c =>
    exact .start (fun w hw => ⟨c, some.inj hw ▸ .inl rfl⟩) (σ.callOf_startCall ..)
  | interrupt | panicking => exact .start (o := none) nofun (σ.callOf_setCpu ..)
  | advance micros => exact .same (funext fun p => by cases p <;> rfl)

/-- Where the call of a party after a step comes from: it is unchanged, or the party has taken
a step of it, or it is new. -/
theorem CallCase.origin (h : CallCase σ a σ') {p : Fin m ⊕ Cpu n} {w' : WakeCall n}
    (hw' : σ'.callOf p = some w') :
    σ.callOf p = some w' ∨ (∃ w d, σ.callOf p = some w ∧ a.mover = some p ∧
        wakeStep σ.shared w d = some (.next σ'.shared w')) ∨
      ∃ c, w'.IsFresh σ'.shared c := by
  cases h with
  | @step q w r d hq hw hr hs hcall =>
    rw [hcall] at hw'
    by_cases hpq : p = q
    · subst hpq
      rw [update_self] at hw'
      cases r with
      | next s' w₁ =>
        obtain rfl : w₁ = w' := some.inj hw'
        exact .inr (.inl ⟨w, d, hw, hq, by rw [hr, hs]⟩)
      | done s' => cases hw'
      | panicked s' => exact .inl (hw.trans hw')
    · rw [update_of_ne hpq] at hw'
      exact .inl hw'
  | @start q w₁ hfresh hcall =>
    rw [hcall] at hw'
    by_cases hpq : p = q
    · subst hpq
      rw [update_self] at hw'
      exact .inr (.inr (hfresh w' hw'))
    · rw [update_of_ne hpq] at hw'
      exact .inl hw'
  | same hcall =>
    rw [hcall] at hw'
    exact .inl hw'

end System

end Awkernel
