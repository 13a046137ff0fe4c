import Awkernel.Kernel.Spawn
import Awkernel.Kernel.Wake

/-!
# What a call of `wake_task` decides

`wakeStep` reads `RUNNING`, `TASKS` and the pending heaps one access at a time. When nothing
else moves in between, its loops compute the decisions of `Awkernel.Preemption`:

* `runs_invokePreemption`, `runs_invokePreemptionClustered`: from the lock to the decision;
* `wakeTask_decision`: from the start of `wake_task` to the release of the lock, with the
  effect on the heaps, the IPIs and the run queues.
-/

namespace Awkernel

open TransitionSystem WakeCall Shared List

variable {B : Build} {n : Nat}

/-- A step of a call that has not ended. -/
def callStep (p : Shared B n × WakeCall n) (dagDeadline : Nat) : Option (Shared B n × WakeCall n) :=
  match wakeStep p.1 p.2 dagDeadline with
  | some (.next s w) => some (s, w)
  | _ => none

/-- The call gets from one point to another with nothing in between. -/
def Runs (p q : Shared B n × WakeCall n) : Prop := Reaches callStep (fun _ _ => True) p q

namespace Runs

theorem refl (p : Shared B n × WakeCall n) : Runs p p := Reaches.refl

theorem trans {p q r : Shared B n × WakeCall n} (h₁ : Runs p q) (h₂ : Runs q r) : Runs p r :=
  Reaches.trans h₁ h₂

theorem head {s s' : Shared B n} {w w' : WakeCall n} {q : Shared B n × WakeCall n}
    (h : wakeStep s w 0 = some (.next s' w')) (hr : Runs (s', w') q) : Runs (s, w) q := by
  have hstep : callStep (s, w) 0 = some (s', w') := by rw [callStep, h]
  exact (Reaches.tail .refl trivial hstep).trans hr

end Runs

/-! ### The loops -/

theorem runs_snapshot (s : Shared B n) (w : WakeCall n) (todo : List (Cpu n))
    (busy : List (Cpu n × Nat)) :
    Runs (s, w.moveTo (.snapshot todo busy)) (s, w.moveTo (.snapshot [] (busy ++
        (todo.filter fun c => s.running c ≠ 0).map fun c => (c, s.running c)))) := by
  induction todo generalizing busy with
  | nil => rw [filter_nil, map_nil, append_nil]; exact Runs.refl _
  | cons c todo ih =>
    have hstep : Runs (s, w.moveTo (.snapshot (c :: todo) busy)) (s, w.moveTo (.snapshot todo
          (if s.running c ≠ 0 then busy ++ [(c, s.running c)] else busy))) :=
      Runs.head rfl (Runs.refl _)
    refine hstep.trans ?_
    by_cases hc : s.running c ≠ 0
    · rw [if_pos hc, filter_cons_of_pos (by simpa using hc), map_cons, append_cons busy _ (map _ _)]
      exact ih _
    · rw [if_neg hc, filter_cons_of_neg (by simpa using hc)]
      exact ih _

/-- The order in which `min` compares the candidates: the CPU id breaks ties. -/
abbrev candidateKey (s : Shared B n) (x : Handle × Cpu n) : (ℕ ×ₗ ℕ) ×ₗ Cpu n :=
  toLex (s.view.key x.1, x.2)

theorem updateBest_argmin (s : Shared B n) (L : List (Handle × Cpu n)) (x : Handle × Cpu n) :
    updateBest s (L.argmin (candidateKey s)) x = (L ++ [x]).argmin (candidateKey s) := by
  rw [argmin_concat]
  cases L.argmin (candidateKey s) with
  | none => rfl
  | some b =>
    change (if candidateKey s b ≤ candidateKey s x then some b else some x) =
      if candidateKey s x < candidateKey s b then some x else some b
    by_cases h : candidateKey s b ≤ candidateKey s x
    · rw [if_pos h, if_neg (not_lt.mpr h)]
    · rw [if_neg h, if_pos (not_le.mp h)]

variable {s s' : Shared B n} {w : WakeCall n}

/-- The `filter_map` and the minimum over the busy CPUs `cs` that are left. Induction on `cs`,
over the candidates `L` already found. -/
theorem runs_lookup (s : Shared B n) (w : WakeCall n) (cs : List (Cpu n))
    (L : List (Handle × Cpu n)) :
    Runs (s, w.moveTo (.lookup (cs.map fun c => (c, s.running c)) (L.argmin (candidateKey s))))
      (s, w.moveTo (.select ((L ++ cs.filterMap s.view.candidate).argmin (candidateKey s)))) := by
  induction cs generalizing L with
  | nil =>
    rw [filterMap_nil, append_nil]
    exact Runs.head rfl (Runs.refl _)
  | cons c cs ih =>
    cases hr : s.registry (s.running c) with
    | none =>
      have hnone : s.view.candidate c = none := Option.map_eq_none_iff.mpr hr
      rw [filterMap_cons_none hnone]
      exact Runs.head (by simp only [wakeStep, moveTo, map_cons, hr]; rfl) (ih L)
    | some r =>
      have hsome : s.view.candidate c =
          some (s.view.maxTask r ((s.view.peekPreemptionPending c).getD r), c) :=
        Option.map_eq_some_iff.mpr ⟨r, hr, rfl⟩
      rw [filterMap_cons_some hsome, append_cons]
      refine Runs.head (by simp only [wakeStep, moveTo, map_cons, hr]; rfl) (Runs.head rfl ?_)
      have hbest := updateBest_argmin s L
        (s.view.maxTask r ((s.view.peekPreemptionPending c).getD r), c)
      rw [hbest]
      exact ih _

/-! ### From the lock to the decision -/

/-- Where a call stands once it has decided. -/
def Decision.pc : Decision (n + 2) → WakePc n
  | .enqueue => .enqueue
  | .preempt target cpu => .pushPending target cpu
  | .panicked => .select none

section

variable (s : Shared B n)

section

variable (w : WakeCall n)

theorem conclude_eq_next (target : Handle × Cpu n) :
    w.conclude s target = .next s (w.moveTo (s.view.conclude w.task target).pc) := by
  unfold conclude PreemptionView.conclude
  rw [view_task]
  split <;> rfl

theorem runs_invokePreemption :
    Runs (s, w.moveTo (.snapshot (finRange (n + 2)) []))
      (s, w.moveTo (s.view.invokePreemption w.task).pc) := by
  have hsnap := runs_snapshot s w (finRange (n + 2)) []
  refine hsnap.trans ?_
  -- the test for an early return reads the same CPUs through the pairs
  have htest : ((s.view.tasksRunning.map fun c => (c, s.running c)).isEmpty ||
      (s.view.tasksRunning.map fun c => (c, s.running c)).any fun b =>
        b.2 == (s.task w.task).id) =
      (s.view.tasksRunning.isEmpty || s.view.tasksRunning.any fun c =>
        s.view.running c == (s.view.task w.task).id) := by
    rw [isEmpty_map, any_map]
    rfl
  have hstep : wakeStep s (w.moveTo (.snapshot [] (s.view.tasksRunning.map fun c =>
      (c, s.running c)))) 0 =
      if s.view.tasksRunning.isEmpty || s.view.tasksRunning.any fun c =>
        s.view.running c == (s.view.task w.task).id then some (w.goto s .enqueue)
      else some (w.goto s (.lookup (s.view.tasksRunning.map fun c => (c, s.running c)) none)) := by
    rw [← htest]
    rfl
  unfold PreemptionView.invokePreemption
  split
  · next hstop =>
    rw [if_pos hstop] at hstep
    exact Runs.head hstep (Runs.refl _)
  rename_i hgo
  rw [if_neg hgo] at hstep
  refine Runs.head hstep ((runs_lookup s w s.view.tasksRunning []).trans ?_)
  change Runs (s, w.moveTo (.select ((s.view.tasksRunning.filterMap s.view.candidate).argmin
    fun x => (toLex (s.view.key x.1, x.2) : (ℕ ×ₗ ℕ) ×ₗ Cpu n)))) _
  split
  · next hmin => rw [hmin]; exact Runs.refl _
  rename_i target hmin
  rw [hmin]
  exact Runs.head (congrArg some (conclude_eq_next s (w.moveTo _) target)) (Runs.refl _)

/-- One round of the ClusteredEDF loop, on a CPU that does not end it. -/
theorem runs_scan_round {c : Cpu n}
    (hself : s.running c ≠ (s.task w.task).id) (hidle : s.running c ≠ 0)
    (cs : List (Cpu n)) (victim : Option (Handle × Cpu n)) :
    Runs (s, w.moveTo (.scanRunning (c :: cs) victim))
      (s, w.moveTo (match s.view.clusteredTarget c with
        | none => .enqueue
        | some target => .scanRunning cs (s.view.updateVictim victim (target, c)))) := by
  have hread : wakeStep s (w.moveTo (.scanRunning (c :: cs) victim)) 0 =
      some (w.goto s (.scanTask c (s.running c) cs victim)) :=
    (if_neg hself).trans (if_neg hidle)
  refine Runs.head hread (Runs.head rfl (Runs.head ?_ (Runs.refl _)))
  have htarget : s.view.targetTask (s.registry (s.running c)) (s.view.peekPreemptionPending c) =
    s.view.clusteredTarget c := rfl
  simp only [wakeStep, moveTo, htarget]
  cases s.view.clusteredTarget c <;> rfl

theorem runs_scanVictim (cs : List (Cpu n))
    (victim : Option (Handle × Cpu n)) :
    Runs (s, w.moveTo (.scanRunning cs victim))
      (s, w.moveTo (match s.view.scanVictim w.task cs victim with
        | none => .enqueue
        | some v => .selectVictim v)) := by
  induction cs generalizing victim with
  | nil => exact Runs.head rfl (Runs.refl _)
  | cons c cs ih =>
    by_cases hself : s.running c = (s.task w.task).id
    · rw [s.view.scanVictim_eq_none w.task (c :: cs) ⟨c, mem_cons_self, .inr hself⟩]
      exact Runs.head (if_pos hself) (Runs.refl _)
    by_cases hidle : s.running c = 0
    · rw [s.view.scanVictim_eq_none w.task (c :: cs) ⟨c, mem_cons_self, .inl hidle⟩]
      exact Runs.head ((if_neg hself).trans (if_pos hidle)) (Runs.refl _)
    refine (runs_scan_round s w hself hidle cs victim).trans ?_
    rw [PreemptionView.scanVictim, view_running, view_task, if_neg hself, if_neg hidle]
    cases s.view.clusteredTarget c with
    | none => exact Runs.refl _
    | some target => exact ih _

theorem runs_invokePreemptionClustered (set : CpuSet) :
    Runs (s, w.moveTo (.scanRunning (PreemptionView.cpuSetIter (n + 2) set) none))
      (s, w.moveTo (s.view.invokePreemptionClustered w.task set).pc) := by
  refine (runs_scanVictim s w _ none).trans ?_
  unfold PreemptionView.invokePreemptionClustered
  cases s.view.scanVictim w.task (PreemptionView.cpuSetIter (n + 2) set) none with
  | none => exact Runs.refl _
  | some victim =>
    cases victim with
    | none => exact Runs.head rfl (Runs.refl _)
    | some target =>
      exact Runs.head (congrArg some (conclude_eq_next s (w.moveTo _) target)) (Runs.refl _)

theorem runs_decision (hfree : s.globalWakeGetMutex = false) :
    Runs (s, w.moveTo .lock) (s.withMutex true, w.moveTo (s.view.decision w.task w.sched).pc) := by
  have hlock : wakeStep s (w.moveTo .lock) 0 = some (w.goto (s.withMutex true) _) :=
    if_neg (by rw [hfree]; decide)
  refine Runs.head hlock ?_
  rw [show (w.moveTo .lock).sched = w.sched from rfl]
  cases w.sched with
  | clusteredEDF => exact runs_invokePreemptionClustered (s.withMutex true) w _
  | _ => exact runs_invokePreemption (s.withMutex true) w

end

end

/-! ### The effect of the call -/

/-- A task whose own scheduler is called passes the start of `wake_task` with nothing but its
deadline and its priority changed. -/
theorem enter_next {w' : WakeCall n} {dagDeadline : Nat} (hsched : w.sched ≠ .panicked)
    (h : w.enter s dagDeadline = .next s' w') :
    (∃ f : Task → Task, s' = s.modifyTask w.task f ∧
        ∀ t, (f t).id = t.id ∧ (f t).cpuSet = t.cpuSet) ∧
      (∃ level deadline time, w' =
        { w with
          priority := level, absoluteDeadline := deadline, wakeTime := time, pc := .lock }) ∧
      (w.sched = .clusteredEDF → ∃ set, (s.task w.task).cpuSet = some set ∧ normalized n set) := by
  unfold enter at h
  split at h
  case h_1 hp => exact absurd hp hsched
  case h_2 hs _ =>
    cases h
    exact ⟨⟨id, (s.modifyTask_id w.task).symm, fun t => ⟨rfl, rfl⟩⟩, ⟨_, _, _, rfl⟩, by simp [hs]⟩
  case h_3 hs _ =>
    cases h
    exact ⟨⟨id, (s.modifyTask_id w.task).symm, fun t => ⟨rfl, rfl⟩⟩, ⟨_, _, _, rfl⟩, by simp [hs]⟩
  case h_4 hs _ =>
    obtain ⟨d, word, rfl, rfl⟩ := releaseEdf_next h
    exact ⟨⟨_, rfl, fun t => ⟨rfl, rfl⟩⟩, ⟨_, _, _, rfl⟩, by simp [hs]⟩
  case h_5 =>
    split at h
    · next hrel =>
      obtain ⟨d, word, rfl, rfl⟩ := releaseEdf_next hrel
      split at h
      · cases h
      rename_i set hset
      split at h
      · next hnorm =>
        cases h
        exact ⟨⟨_, rfl, fun t => ⟨rfl, rfl⟩⟩, ⟨_, _, _, rfl⟩, fun _ => ⟨set, hset, hnorm⟩⟩
      · cases h
    · next hne => exact absurd h (hne _ _)
  case h_6 => exact absurd h (by simp)

/-- A set that passes the check of `wake_task` is accepted by the queue. -/
theorem enqueue_isSome (s : Shared B n) (w : WakeCall n) (hset : w.sched = .clusteredEDF →
      ∃ set, (s.task w.task).cpuSet = some set ∧ normalized n set) :
    (s.enqueue w).isSome := by
  unfold enqueue
  cases hs : w.sched
  case clusteredEDF =>
    obtain ⟨set, hcpu, hnorm⟩ := hset hs
    obtain ⟨hne, hmask⟩ := of_decide_eq_true hnorm
    simp only [hcpu, Option.getD_some, Option.isSome_map]
    refine AffinityQueue.Sized.push_isSome _ _ _ _ hne fun c hc => ?_
    rw [← hmask] at hc
    exact (mem_maskedWorkers.mp hc).2.1
  all_goals rfl

theorem runs_enqueue (h : s.enqueue (w.moveTo .enqueue) = some s') :
    Runs (s, w.moveTo .enqueue) (s', w.moveTo .unlock) := by
  refine Runs.head ?_ (Runs.refl _)
  have heq : (w.moveTo .enqueue).pc = .enqueue := rfl
  simp only [wakeStep, heq, h]
  rfl

/-- What a call that has decided leaves behind, from the state `s` at its lock to `s'`. -/
structure Decided (s s' : Shared B n) (t : Handle) (S : Sched) : Prop where
  /-- A preemption is due: one heap and its CPU's IPI change, no run queue does. -/
  request : s.view.Wanted t S → ∃ x c, s.view.IsVictim (s.view.scope t S) x c ∧
      s'.pending = Function.update s.pending c (t :: s.pending c) ∧
      s'.preemptIpi = Function.update s.preemptIpi c (s.preemptIpi c + 1) ∧
      ∀ S', s'.queued S' = s.queued S'
  /-- None is due: the task's own run queue changes, nothing else does. -/
  queue : ¬ s.view.Wanted t S →
    (s'.queued S).Perm (t :: s.queued S) ∧ (∀ S', S' ≠ S → s'.queued S' = s.queued S') ∧
      s'.pending = s.pending ∧ s'.preemptIpi = s.preemptIpi

theorem decided_preempt {t x : Handle} {S : Sched} {c : Cpu n}
    (hx : s.view.IsVictim (s.view.scope t S) x c) (hw : s.view.Wanted t S) (id : Nat)
    (held : Bool) :
    Decided s ((((s.withMutex held).pushPreemptionPending c t).setNeedPreemption
      id c).sendPreemptIpi c) t S := by
  obtain ⟨task, hframe⟩ :=
    ((s.withMutex held).pushPreemptionPending c t).setNeedPreemption_frame id c
  rw [hframe]
  refine ⟨fun _ => ⟨x, c, hx, rfl, rfl, fun S' => ?_⟩, fun hnot => absurd hw hnot⟩
  cases S' <;> rfl

theorem decided_enqueue {held : Bool} (hpush : (s.withMutex held).enqueue w = some s')
    (hnot : ¬ s.view.Wanted w.task w.sched) : Decided s s' w.task w.sched := by
  refine ⟨fun hw => absurd hw hnot, fun _ => ⟨?_, fun S' hS' => ?_, ?_⟩⟩
  · exact queued_withMutex s held ▸ enqueue_queued_perm hpush
  · rw [enqueue_queued_of_ne hpush hS', queued_withMutex]
  · obtain ⟨_, _, _, _, _, _, rfl⟩ := enqueue_frame hpush
    exact ⟨rfl, rfl⟩

/-- A call at its lock gets to the release of it and leaves behind what it is to decide. -/
theorem runs_wakeTask (s : Shared B n) (w : WakeCall n) (hfree : s.globalWakeGetMutex = false)
    (hreg : s.view.Registered)
    (hset : w.sched = .clusteredEDF → ∃ set, (s.task w.task).cpuSet = some set ∧ normalized n set) :
    ∃ s', Runs (s, w.moveTo .lock) (s', w.moveTo .unlock) ∧ Decided s s' w.task w.sched := by
  have hrun := runs_decision s w hfree
  rcases s.view.decision_spec hreg w.task w.sched with ⟨x, c, hd, hx, hw⟩ | ⟨hd, hnot⟩
  · rw [hd] at hrun
    exact ⟨_, hrun.trans (.head rfl (.head rfl (.head rfl (.refl _)))),
      decided_preempt hx hw _ true⟩
  rw [hd] at hrun
  obtain ⟨s', hpush⟩ := Option.isSome_iff_exists.mp
    (enqueue_isSome (s.withMutex true) (w.moveTo .enqueue) hset)
  exact ⟨s', hrun.trans (runs_enqueue hpush), decided_enqueue (w := w.moveTo _) hpush hnot⟩

/-- **The preemption decision.** A call of `wake_task` that has passed its start, on a state
where every id in `RUNNING` is registered, reaches the release of its lock. If a preemption is
due, the task is pushed to the heap of one CPU with a least occupant, that CPU gets the one
IPI and the task is in no run queue; otherwise the task is pushed to its own run queue and no
heap and no IPI changes. -/
theorem wakeTask_decision {s s₁ : Shared B n} {w w₁ : WakeCall n} {dagDeadline : Nat}
    (hpc : w.pc = .enter) (hsched : w.sched ≠ .panicked)
    (hstart : wakeStep s w dagDeadline = some (.next s₁ w₁))
    (hfree : s₁.globalWakeGetMutex = false) (hreg : s₁.view.Registered)
    (hnew : ∀ S, w.task ∉ s₁.queued S) :
    ∃ s₂, Runs (s₁, w₁) (s₂, w₁.moveTo .unlock) ∧ Decided s₁ s₂ w.task w.sched ∧
      (s₁.view.Wanted w.task w.sched → ∀ S, w.task ∉ s₂.queued S) := by
  have henter : w.enter s dagDeadline = .next s₁ w₁ := by
    rw [wakeStep, hpc] at hstart
    exact Option.some.inj hstart
  obtain ⟨⟨f, rfl, hf⟩, ⟨level, deadline, time, rfl⟩, hset⟩ := enter_next hsched henter
  obtain ⟨s₂, hrun, hdec⟩ := runs_wakeTask (s.modifyTask w.task f)
    { w with priority := level, absoluteDeadline := deadline, wakeTime := time } hfree hreg
    fun hs => by
      obtain ⟨set, hcpu, hnorm⟩ := hset hs
      refine ⟨set, ?_, hnorm⟩
      change ((Function.update s.task w.task (f (s.task w.task))) w.task).cpuSet = some set
      rw [Function.update_self, (hf _).2, hcpu]
  refine ⟨s₂, hrun, hdec, fun hw S => ?_⟩
  obtain ⟨-, -, -, -, -, hsame⟩ := hdec.request hw
  rw [hsame S]
  exact hnew S

/-- Two CPUs. Tasks of levels 3 and 5 have been spawned and the worker runs the first. -/
def busyWorker : Shared Build.list 0 :=
  { ((boot Build.list 0).spawn (.prioritizedFIFO 3) none).bind
      (fun s => s.spawn (.prioritizedFIFO 5) none) |>.getD (boot Build.list 0) with
    running := fun c => if c = 1 then 1 else 0 }

/-- The wake of the second task. -/
def wakeSecond : WakeCall 0 where
  cpu := 0
  task := 1
  sched := .prioritizedFIFO
  notifies := true
  priority := 0
  absoluteDeadline := 0
  wakeTime := 0
  pc := .enter

theorem wakeTask_decision_busyWorker :
    ∃ s₂, Runs (busyWorker, { wakeSecond with priority := 5, pc := .lock })
        (s₂, { wakeSecond with priority := 5, pc := .unlock }) ∧
      Decided busyWorker s₂ 1 .prioritizedFIFO ∧
      (busyWorker.view.Wanted 1 .prioritizedFIFO → ∀ S, 1 ∉ s₂.queued S) := by
  have hstart : wakeStep busyWorker wakeSecond 0 =
      some (.next busyWorker { wakeSecond with priority := 5, pc := .lock }) := rfl
  have hreg : ∀ c, busyWorker.running c ≠ 0 → (busyWorker.registry (busyWorker.running c)).isSome :=
    by decide
  have hnew : ∀ S, wakeSecond.task ∉ busyWorker.queued S := by decide
  exact wakeTask_decision rfl (by decide) hstart rfl hreg hnew

end Awkernel
