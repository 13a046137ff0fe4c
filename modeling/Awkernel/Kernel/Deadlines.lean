import Awkernel.Kernel.Calls

/-!
# The deadline of a job

`wake_task` of the two EDF schedulers computes the absolute deadline and the priority of a task
from the time at which it is called. It is called when a job is released, by `Task::wake`, and
again whenever the task is put back before its poll has returned: after a preemption, or from a
pending heap.

* `ReleasesJob`: the step in which `Task::wake` computes the deadline.
* `PutBackAt`: a step that calls `wake_task` on the task does so at a given time.
* `deadline_stable`: as long as the task is put back at the time of its release only, the
  deadline and the priority stay. A task that is put back later gets a later deadline
  (`not_deadline_stable_of_preempted`).
-/

namespace Awkernel

open TransitionSystem Build Option

variable {B : Build} {n m : Nat} {r : WakeResult B n}

/-- The relative deadline of an EDF task. -/
def SchedulerType.relativeDeadline : SchedulerType → Option UInt64
  | .gedf d | .clusteredEDF d _ => some d
  | _ => none

/-- Task `t` has the deadline and the priority that `wake_task` computes at time `u`. -/
structure JobAt (s : Shared B n) (t : Handle) (u deadline word : Nat) : Prop where
  spawned : t < s.numHandles
  dagInfo : (s.task t).info.dagInfo = none
  absoluteDeadline : (s.task t).info.absoluteDeadline = some deadline
  priority : (s.task t).priority = word
  /-- What `wake_task` would compute again. -/
  again : ∀ d, (s.task t).info.schedulerType.relativeDeadline = some d →
    edfWake B.width (getScheduler (s.task t).info.schedulerType).priority u d.toNat =
      some (deadline, word)

namespace JobAt

variable {s s' : Shared B n} {t : Handle} {u deadline word : Nat}

theorem congr (h : JobAt s t u deadline word) (hjob : SameJob (s.task t) (s'.task t))
    (hnum : s.numHandles ≤ s'.numHandles) : JobAt s' t u deadline word := by
  refine ⟨h.spawned.trans_le hnum, hjob.dagInfo.trans h.dagInfo,
    hjob.absoluteDeadline.trans h.absoluteDeadline, hjob.priority.trans h.priority, ?_⟩
  rw [hjob.schedulerType]
  exact h.again

variable {w : WakeCall n} {relativeDeadline : UInt64} {d : Nat}

theorem releaseEdf (h : JobAt s w.task u deadline word) (htime : s.uptime = u)
    (hsched : w.sched = getScheduler (s.task w.task).info.schedulerType)
    (htype : (s.task w.task).info.schedulerType.relativeDeadline = some relativeDeadline)
    (d : Nat) :
    w.releaseEdf s relativeDeadline d = .next (s.modifyTask w.task fun t =>
        { t with
          priority := word
          info := { t.info with absoluteDeadline := some deadline } })
      { w with absoluteDeadline := deadline, wakeTime := s.uptime, pc := .lock } := by
  unfold WakeCall.releaseEdf
  dsimp only
  rw [h.dagInfo, hsched, htime, h.again _ htype]

section

variable (h : JobAt s t u deadline word)

include h

theorem rewrite : JobAt (s.modifyTask t fun x => { x with
      priority := word
      info := { x.info with absoluteDeadline := some deadline } }) t u deadline word := by
  refine h.congr ?_ le_rfl
  rw [Shared.modifyTask_task_self]
  exact ⟨h.priority.symm, h.absoluteDeadline.symm, rfl, rfl, rfl⟩

theorem other {x : Handle} {f : Task → Task} (hne : t ≠ x) :
    JobAt (s.modifyTask x f) t u deadline word := by
  refine h.congr ?_ le_rfl
  rw [s.modifyTask_task_of_ne f hne]
  exact .refl _

/-- A task that has panicked keeps its deadline, and has no relative deadline any more. -/
theorem markPanicked (x : Handle) :
    JobAt (s.modifyInfo x fun info => { info with schedulerType := .panicked, panicked := true })
      t u deadline word := by
  by_cases hx : t = x
  · subst hx
    unfold Shared.modifyInfo
    refine ⟨h.spawned, ?_, ?_, ?_, ?_⟩
    all_goals rw [Shared.modifyTask_task_self]
    · exact h.dagInfo
    · exact h.absoluteDeadline
    · exact h.priority
    · exact nofun
  · exact h.other hx

theorem releaseEdf_other (hne : t ≠ w.task) :
    JobAt (w.releaseEdf s relativeDeadline d).shared t u deadline word := by
  unfold WakeCall.releaseEdf
  dsimp only
  split
  · exact h
  · exact h.other hne

/-- **The start of `wake_task`**, on another task or at the time of the release. -/
theorem enter (htime : w.task = t → s.uptime = u) :
    JobAt (w.enter s d).shared t u deadline word := by
  -- the deadline is written by the EDF schedulers only
  have hrelease : ∀ relativeDeadline, w.sched = getScheduler (s.task w.task).info.schedulerType →
      (s.task w.task).info.schedulerType.relativeDeadline = some relativeDeadline →
      JobAt (w.releaseEdf s relativeDeadline d).shared t u deadline word := by
    intro relativeDeadline hsched htype
    by_cases ht : w.task = t
    · subst ht
      rw [h.releaseEdf (htime rfl) hsched htype d]
      exact h.rewrite
    · exact h.releaseEdf_other fun heq => ht heq.symm
  unfold WakeCall.enter
  split
  · rw [shared_finish]
    exact h.congr (.refl _) le_rfl
  · exact h
  · exact h
  · next hs hty => exact hrelease _ (by rw [hs, hty]; rfl) (by rw [hty]; rfl)
  · next relativeDeadline _ hs hty =>
    have hr := hrelease relativeDeadline (by rw [hs, hty]; rfl) (by rw [hty]; rfl)
    split
    · next hnext =>
      -- the deadline is stored whether the set is accepted or not
      rw [hnext] at hr
      split
      · exact hr
      · split <;> exact hr
    · exact hr
  · exact h

end

theorem of_releaseEdf {w' : WakeCall n} (hspawned : w.task < s.numHandles)
    (hdag : (s.task w.task).info.dagInfo = none)
    (hsched : w.sched = getScheduler (s.task w.task).info.schedulerType)
    (htype : (s.task w.task).info.schedulerType.relativeDeadline = some relativeDeadline)
    (h : w.releaseEdf s relativeDeadline d = .next s' w') :
    ∃ deadline word, JobAt s' w.task s.uptime deadline word := by
  unfold WakeCall.releaseEdf at h
  dsimp only at h
  rw [hdag] at h
  split at h
  · cases h
  rename_i deadline word hcomputed
  cases h
  refine ⟨deadline, word, hspawned, ?_, ?_, ?_, ?_⟩
  all_goals rw [Shared.modifyTask_task_self]
  · exact hdag
  intro d' hd'
  obtain rfl : relativeDeadline = d' := some.inj (htype.symm.trans hd')
  rw [← hsched]
  exact hcomputed

/-- An EDF `wake_task` that goes on to the lock has computed a deadline. -/
theorem of_enter {w' : WakeCall n} (hspawned : w.task < s.numHandles)
    (hdag : (s.task w.task).info.dagInfo = none)
    (hedf : (s.task w.task).info.schedulerType.relativeDeadline.isSome)
    (hlock : w'.pc = .lock) (h : w.enter s d = .next s' w') :
    ∃ deadline word, JobAt s' w.task s.uptime deadline word := by
  unfold WakeCall.enter at h
  split at h
  · unfold WakeCall.finish at h
    split at h
    · cases h
      cases hlock
    · cases h
  · next hty =>
    rw [hty] at hedf
    cases hedf
  · next hty =>
    rw [hty] at hedf
    cases hedf
  · next hs hty => exact of_releaseEdf hspawned hdag (by rw [hs, hty]; rfl) (by rw [hty]; rfl) h
  · next hs hty =>
    split at h
    · next hrelease =>
      have hjob := of_releaseEdf hspawned hdag (by rw [hs, hty]; rfl) (by rw [hty]; rfl) hrelease
      split at h
      · cases h
      split at h
      · cases h
        exact hjob
      · cases h
    · next hrelease => exact absurd h (hrelease s' w')
  · cases h

end JobAt

/-- A step of a call past its start, or before, writes no deadline. -/
theorem wakeStep_kept {s : Shared B n} {w : WakeCall n} {d : Nat}
    (hpc : w.pc ≠ .enter) (h : wakeStep s w d = some r) : JobsKept s r.shared := by
  cases wakeStep_cases h with
  | enter hpc' => exact absurd hpc' hpc
  | needSched | claim => exact .modifyTask (.refl s) ⟨rfl, rfl, rfl, rfl, rfl⟩
  | count => exact .numTaskInQueue s _
  | setNeedPreemption => exact .setNeedPreemption s _ _
  | enqueue hpc' hpush =>
    obtain ⟨_, _, _, _, _, _, rfl⟩ := Shared.enqueue_frame hpush
    exact .of_task rfl rfl rfl
  | unlock =>
    rw [shared_finish]
    exact .of_task rfl rfl rfl
  | @notify seen _ s' _ _ hwake | @notified seen s' _ _ _ hwake =>
    obtain ⟨tags, htags⟩ := s.wakeUp_tags 0 seen
    rw [hwake] at htags
    obtain rfl : s' = _ := htags
    exact .of_task rfl rfl rfl
  | ended | lock | read | unwrapNone | pushPending | sendIpi | refused | notifySelf =>
    exact .of_task rfl rfl rfl

/-! ### Along every run -/

section Run

variable {σ σ' : Sys B n m} {t : Handle} {u deadline word : Nat}

/-- A step that calls `wake_task` on task `t` does so at time `u`. -/
def PutBackAt (t : Handle) (u : Nat) (σ : Sys B n m) (a : Action n m) : Prop :=
  ∀ p ∈ a.mover, ∀ w ∈ σ.callOf p, w.task = t → w.pc = .enter → σ.shared.uptime = u

instance (σ : Sys B n m) (a : Action n m) : Decidable (PutBackAt t u σ a) :=
  inferInstanceAs (Decidable (∀ p ∈ a.mover, ∀ w ∈ σ.callOf p, _ → _ → _))

variable {a : Action n m}

theorem JobAt.call {p : Fin m ⊕ Cpu n} {w : WakeCall n} {d : Nat}
    (h : JobAt σ.shared t u deadline word) (ha : PutBackAt t u σ a)
    (hp : a.mover = some p) (hw : σ.callOf p = some w)
    (hr : wakeStep σ.shared w d = some r) : JobAt r.shared t u deadline word := by
  by_cases hpc : w.pc = .enter
  · rw [wakeStep, hpc] at hr
    cases hr
    exact h.enter fun ht => ha p hp w hw ht hpc
  · have hkept := wakeStep_kept hpc hr
    exact h.congr (hkept.job t) hkept.numHandles.ge

theorem JobAt.step (h : JobAt σ.shared t u deadline word) (ha : PutBackAt t u σ a)
    (hstep : sysStep σ a = some σ') :
    JobAt σ'.shared t u deadline word := by
  cases sysStep_cases hstep with
  | @cpu c inp r hrun hr =>
    cases cpuStep_cases hr with
    | @call w r hw hcall wrap after hwrap hafter =>
      have hjob := h.call ha (p := .inr c) rfl hw hcall
      cases r <;> exact hjob
    | own hw hown =>
      have hshared : (σ.setCpu c r).shared = r.shared := by cases r <;> rfl
      rw [hshared]
      exact h.congr (hown.job t) hown.numHandles.ge
  | @call i inp w r hrun hw hr =>
    have hjob := h.call ha (p := .inl i) rfl hw hr
    cases r <;> exact hjob
  | spawn hfree hs =>
    -- the new task has another handle
    obtain ⟨id, task, -, -, rfl⟩ := Shared.spawn_spec hs
    refine h.congr ?_ (Nat.le_succ _)
    change SameJob _ (Function.update σ.shared.task σ.shared.numHandles task t)
    rw [Function.update_of_ne (Nat.ne_of_lt h.spawned)]
    exact .refl _
  | panicking hpc hrun hs =>
    obtain ⟨-, hs⟩ := ite_none_left_eq_some.mp hs
    obtain ⟨x, -, rfl⟩ := map_eq_some_iff.mp hs
    exact (h.markPanicked x).congr (.refl _) le_rfl
  | wake | interrupt | advance => exact h.congr (.refl _) le_rfl

/-- `Task::wake` computes the deadline of a job of task `t`, an EDF task outside of any DAG. -/
structure ReleasesJob (σ : Sys B n m) (a : Action n m) (σ' : Sys B n m) (t : Handle) : Prop where
  spawned : t < σ.shared.numHandles
  edf : (σ.shared.task t).info.schedulerType.relativeDeadline.isSome
  dagInfo : (σ.shared.task t).info.dagInfo = none
  step : sysStep σ a = some σ'
  call : ∃ p w w', a.mover = some p ∧ σ.callOf p = some w ∧ w.task = t ∧ w.notifies ∧
    w.pc = .enter ∧ σ'.callOf p = some w' ∧ w'.pc = .lock

theorem ReleasesJob.jobAt (h : ReleasesJob σ a σ' t) :
    ∃ deadline word, JobAt σ'.shared t σ.shared.uptime deadline word := by
  obtain ⟨p, w, w', hp, hw, rfl, -, hpc, hw', hpc'⟩ := h.call
  rcases (sysStep_calls h.step).origin hw' with hsame | ⟨w₁, d, hw₁, -, hr⟩ | ⟨c, hfresh⟩
  · -- the call has moved
    obtain rfl : w = w' := some.inj (hw.symm.trans hsame)
    rw [hpc] at hpc'
    cases hpc'
  · obtain rfl : w = w₁ := some.inj (hw.symm.trans hw₁)
    rw [wakeStep, hpc] at hr
    exact JobAt.of_enter h.spawned h.dagInfo h.edf hpc' (some.inj hr)
  · -- a new call is not at the lock
    rcases hfresh with hfresh | hfresh
    all_goals
      rw [hfresh] at hpc'
      cases hpc'

/-- **The deadline of a job is stable** as long as the task is put back at the time of its
release only. -/
theorem deadline_stable {a : Action n m} {σ₀ σ₁ : Sys B n m} (hrelease : ReleasesJob σ₀ a σ₁ t)
    (h : ReachesFrom σ₁ (PutBackAt t σ₀.shared.uptime) σ) :
    (σ.shared.task t).info.absoluteDeadline = (σ₁.shared.task t).info.absoluteDeadline ∧
      (σ.shared.task t).priority = (σ₁.shared.task t).priority := by
  obtain ⟨deadline, word, hjob₁⟩ := hrelease.jobAt
  have hjob : JobAt σ.shared t σ₀.shared.uptime deadline word :=
    h.invariant (I := fun σ => JobAt σ.shared t σ₀.shared.uptime deadline word) hjob₁
      fun σ a σ' hσ ha hstep => hσ.step ha hstep
  rw [hjob.absoluteDeadline, hjob₁.absoluteDeadline, hjob.priority, hjob₁.priority]
  exact ⟨rfl, rfl⟩

end Run

/-! ### A task that is preempted -/

/-- The step does not end a poll of task `t`. -/
def PollGoesOn (t : Handle) (σ : Sys B n m) : Action n m → Prop
  | .cpu c _ => σ.cpu c ≠ .polling t
  | _ => True

instance (t : Handle) (σ : Sys B n m) : DecidablePred (PollGoesOn t σ) := fun a => by
  induction a using Action.casesOn <;> dsimp only [PollGoesOn] <;> infer_instance

/-- A GEDF task is spawned, up to the computation of its deadline. -/
def beforeRelease : List (Action 0 1) := Action.spawnSteps 0 (.gedf 1000) 2

/-- The rest of the wake; a worker polls the task. `delay` later a task with an earlier deadline
is spawned, which preempts it, and `re_schedule` puts it back. -/
def preemptedAfter (delay : Nat) : List (Action 0 1) :=
  List.replicate 7 (.call 0 {}) ++ Action.cpuSteps 1 12 ++ [.advance delay] ++
    Action.spawnSteps 0 (.gedf 10) 16 ++ [.interrupt 1] ++ Action.cpuSteps 1 14

/-- The call in slot 0 computes the deadline of task 0 in its next step. -/
def releasesNext (σ σ₁ : Sys list 0 1) : Bool :=
  0 < σ.shared.numHandles ∧ (σ.shared.task 0).info.schedulerType = .gedf 1000 ∧
    (σ.shared.task 0).info.dagInfo = none ∧
    (σ.call 0).map (fun w => (w.task, w.notifies, w.pc)) = some (0, true, .enter) ∧
    (σ₁.call 0).map WakeCall.pc = some .lock

theorem releasesJob_of_releasesNext {σ σ₁ : Sys list 0 1}
    (hstep : sysStep σ (.call 0 {}) = some σ₁) (h : releasesNext σ σ₁ = true) :
    ReleasesJob σ (.call 0 {}) σ₁ 0 := by
  obtain ⟨hspawned, htype, hdag, hcall, hcall'⟩ := of_decide_eq_true h
  obtain ⟨w, hw, hfields⟩ := map_eq_some_iff.mp hcall
  obtain ⟨w', hw', hpc'⟩ := map_eq_some_iff.mp hcall'
  obtain ⟨htask, hfields⟩ := Prod.mk.inj hfields
  obtain ⟨hnotifies, hpc⟩ := Prod.mk.inj hfields
  refine ⟨hspawned, ?_, hdag, hstep, .inl 0, w, w', rfl, hw, htask, hnotifies, hpc, hw', hpc'⟩
  rw [htype]
  rfl

/-- The release of a job of task 0, followed by steps that meet `ok` and reach a state that is
`good` against the one after the release. -/
def releasedRun (ok : Sys list 0 1 → Action 0 1 → Prop) [∀ σ a, Decidable (ok σ a)]
    (after : List (Action 0 1)) (good : Sys list 0 1 → Sys list 0 1 → Bool)
    (σ : Sys list 0 1) : Bool :=
  σ.shared.uptime = 0 ∧ (match sysStep σ (.call 0 {}) with
    | some σ₁ => releasesNext σ σ₁ && (run (guarded sysStep ok) σ₁ after).any (good σ₁)
    | none => false) = true

theorem exists_releasesJob (ok : Sys list 0 1 → Action 0 1 → Prop)
    [∀ σ a, Decidable (ok σ a)] (after : List (Action 0 1))
    (good : Sys list 0 1 → Sys list 0 1 → Bool)
    (h : ((run (guarded sysStep fun _ _ => True) (Sys.init list 0 1) beforeRelease).any
      (releasedRun ok after good)) = true) :
    ∃ σ₀ σ₁ σ : Sys list 0 1, Reachable (fun _ _ => True) σ₀ ∧ σ₀.shared.uptime = 0 ∧
      ReleasesJob σ₀ (.call 0 {}) σ₁ 0 ∧ ReachesFrom σ₁ ok σ ∧ good σ₁ σ = true := by
  obtain ⟨σ₀, hrun, h⟩ := exists_of_run_any _ _ _ _ h
  obtain ⟨htime, h⟩ := of_decide_eq_true h
  split at h
  · next σ₁ hstep =>
    obtain ⟨hrelease, hafter⟩ := Bool.and_eq_true_iff.mp h
    obtain ⟨σ, hrun', hgood⟩ := exists_of_run_any _ _ _ _ hafter
    exact ⟨σ₀, σ₁, σ, Reaches.of_run hrun, htime, releasesJob_of_releasesNext hstep hrelease,
      Reaches.of_run hrun', hgood⟩
  · cases h

/-- The task is preempted and put back at the time of its release, and keeps its deadline. -/
theorem deadline_stable_preempted : ∃ σ₀ σ₁ σ : Sys list 0 1,
    ReleasesJob σ₀ (.call 0 {}) σ₁ 0 ∧ ReachesFrom σ₁ (PutBackAt 0 σ₀.shared.uptime) σ ∧
      (σ.shared.task 0).info.state = .preempted ∧
      (σ.shared.task 0).info.absoluteDeadline = (σ₁.shared.task 0).info.absoluteDeadline ∧
      (σ.shared.task 0).priority = (σ₁.shared.task 0).priority := by
  obtain ⟨σ₀, σ₁, σ, -, htime, hrelease, hreach, hgood⟩ :=
    exists_releasesJob (PutBackAt 0 0) (preemptedAfter 0)
      (fun _ σ => (σ.shared.task 0).info.state = .preempted) (by decide)
  have hputBack : ReachesFrom σ₁ (PutBackAt 0 σ₀.shared.uptime) σ := by
    rw [htime]
    exact hreach
  exact ⟨σ₀, σ₁, σ, hrelease, hputBack, of_decide_eq_true hgood, deadline_stable hrelease hputBack⟩

/-- **A task that is put back later gets a later deadline**, in the same job: the poll that
follows the release has not returned. -/
theorem not_deadline_stable_of_preempted : ∃ σ₀ σ₁ σ : Sys list 0 1,
    Reachable (fun _ _ => True) σ₀ ∧ ReleasesJob σ₀ (.call 0 {}) σ₁ 0 ∧
      ReachesFrom σ₁ (PollGoesOn 0) σ ∧
      (σ.shared.task 0).info.absoluteDeadline ≠ (σ₁.shared.task 0).info.absoluteDeadline ∧
      (σ.shared.task 0).priority ≠ (σ₁.shared.task 0).priority := by
  obtain ⟨σ₀, σ₁, σ, hreach₀, -, hrelease, hreach, hgood⟩ :=
    exists_releasesJob (PollGoesOn 0) (preemptedAfter 5) (fun σ₁ σ =>
        (σ.shared.task 0).info.absoluteDeadline ≠ (σ₁.shared.task 0).info.absoluteDeadline ∧
          (σ.shared.task 0).priority ≠ (σ₁.shared.task 0).priority) (by decide)
  exact ⟨σ₀, σ₁, σ, hreach₀, hrelease, hreach, of_decide_eq_true hgood⟩

end Awkernel
