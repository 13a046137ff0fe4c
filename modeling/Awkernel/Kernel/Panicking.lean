import Awkernel.Kernel.Safety

/-!
# Tasks that panic

`panicking` moves the running task to the scheduler of panicked tasks: it changes
`scheduler_type` and sets the flag `panicked`. The field `scheduler` keeps naming the scheduler
the task was spawned for. `Task::wake` goes by the flag, every other caller of `wake_task` by
the field.

* `Task.handler`: the scheduler whose `wake_task` accepts the task.
* `PlaceOk`: what a place says about the handler of the task in it. The places from which a
  task is put back by its field are the pending heaps and the list of preempted tasks.
* `handled`: in every run in which no panicked task is in one of those, every call of
  `wake_task` is on a task that the scheduler accepts. Otherwise `unreachable!()` is reached
  (`not_handled_of_preempted`).
-/

namespace Awkernel

open Ledger TransitionSystem Function

variable {B : Build} {n m : Nat} {σ σ' : Sys B n m} {t t' : Task}

/-- The scheduler that accepts a task. -/
def Task.handler (t : Task) : Sched := if t.info.panicked then .panicked else t.scheduler

/-- What the place of a task says about it. -/
def PlaceOk (t : Task) : Place n → Prop
  | .queue S | .hand (.waking S _) => S = t.handler
  | .hand (.claimed panicked) => panicked = t.info.panicked
  | .hand .moving => t.info.panicked = false
  | .next _ => t.info.panicked = false
  | _ => True

/-- Every task is where its handler expects it. -/
structure Handled (σ : Sys B n m) : Prop where
  type : ∀ t, t < σ.shared.numHandles →
    getScheduler (σ.shared.task t).info.schedulerType = (σ.shared.task t).handler
  place : ∀ p t, (p, t) ∈ σ.entries → PlaceOk (σ.shared.task t) p

/-- No task that has panicked waits to be put back by the scheduler it was spawned for. -/
def Sys.NotParked (σ : Sys B n m) : Prop :=
  ∀ c, (∀ t ∈ σ.shared.pending c, (σ.shared.task t).info.panicked = false) ∧
    ∀ t ∈ σ.shared.preemptedTasks c, (σ.shared.task t).info.panicked = false

instance (σ : Sys B n m) : Decidable σ.NotParked :=
  inferInstanceAs (Decidable (∀ _, _ ∧ _))

/-! ### Steps that mark no task -/

/-- Neither the scheduler of a task nor the flag changes. -/
structure SameHandler (t t' : Task) : Prop where
  scheduler : t'.scheduler = t.scheduler
  schedulerType : t'.info.schedulerType = t.info.schedulerType
  panicked : t'.info.panicked = t.info.panicked

theorem SameHandler.handler (h : SameHandler t t') : t'.handler = t.handler := by
  rw [Task.handler, Task.handler, h.panicked, h.scheduler]

theorem PlaceOk.congr {p : Place n} (hsame : SameHandler t t') (h : PlaceOk t p) :
    PlaceOk t' p := by
  cases p with
  | queue S => exact Eq.trans h hsame.handler.symm
  | next c => exact hsame.panicked.trans h
  | hand hand =>
    cases hand with
    | claimed => exact Eq.trans h hsame.panicked.symm
    | waking => exact Eq.trans h hsame.handler.symm
    | moving => exact hsame.panicked.trans h
    | _ => exact trivial
  | _ => exact trivial

variable {s : Shared B n} {c : Cpu n}

/-- What a place says stays true where the task goes, unless it is put back though it has
panicked. -/
theorem PlaceOk.carried {t : Handle} {p q : Place n}
    (hpending : ∀ c, p = .pending c → (s.task t).info.panicked = false)
    (hpreempted : ∀ c, p = .preempted c → (s.task t).info.panicked = false)
    (h : PlaceOk (s.task t) p) (hq : Carried s t p q) : PlaceOk (s.task t) q := by
  -- a task that has not panicked is handled by the scheduler it was spawned for
  have hspawned : (s.task t).info.panicked = false →
      (s.task t).scheduler = (s.task t).handler := fun hno => by
    rw [Task.handler, hno]
    rfl
  cases hq with
  | stay => exact h
  | move hmove =>
    cases hmove with
    | enqueue => exact h
    | rewake hp =>
      rcases hp with ⟨c, rfl⟩ | ⟨c, rfl⟩ | rfl
      · exact hspawned (hpending c rfl)
      · exact hspawned (hpreempted c rfl)
      · exact hspawned h
    | popClustered hp =>
      rcases hp with ⟨c, rfl⟩ | rfl <;> exact trivial
    | _ => exact trivial
  | moveHeap c => exact hpending c rfl
  | dispatch hq =>
    rcases hq with rfl | rfl
    · exact h
    · exact trivial
  | yields => exact trivial
  | count panicked =>
    have hflag : panicked = (s.task t).info.panicked := h
    rw [hflag]
    rfl
  | decrement hp =>
    rcases hp with ⟨c, rfl⟩ | rfl <;> exact trivial

/-! ### What a step does to the handlers -/

theorem TaskKept.sameHandler (h : TaskKept t t') : SameHandler t t' :=
  ⟨h.scheduler, h.schedulerType, h.panicked⟩

theorem Inv.sameHandler_cpu {inp : Input} {r : CpuResult B n} (h : Inv σ)
    (ha : ThreadAvailable σ (.cpu c inp))
    (hr : cpuStep σ.shared c inp (σ.cpu c) = some r) (t : Handle) :
    SameHandler (σ.shared.task t) (r.shared.task t) := by
  have hfixed := (cpuStep_ok (h.toLocal c) ha hr).frame.task t
  cases cpuStep_cases hr with
  | @call w r hw hcall wrap after hwrap hafter =>
    have hkept := (wakeStep_ok (h.callOf_ok (p := .inr c) hw) hcall).frame.task t
    cases r <;> exact hkept.sameHandler
  | own hw hown =>
    exact ⟨hfixed.scheduler, (hown.job t).schedulerType, (hown.job t).panicked⟩

/-- The task after `panicking` has marked it. -/
def Task.marked (t : Task) : Task :=
  { t with info := { t.info with schedulerType := .panicked, panicked := true } }

/-- **What a step does to the scheduler and the flag of a task.** -/
inductive HandlerStep (σ σ' : Sys B n m) (t : Handle) : Prop
  | same (hnum : t < σ'.shared.numHandles → t < σ.shared.numHandles)
      (hsame : SameHandler (σ.shared.task t) (σ'.shared.task t))
  /-- `panicking` marks the task that a CPU polls. -/
  | marked {c : Cpu n} (hexec : (.executing c, t) ∈ σ.entries)
      (hexec' : (.executing c, t) ∈ σ'.entries)
      (hmarked : σ'.shared.task t = (σ.shared.task t).marked)
  /-- A new task has no entry yet. -/
  | spawned
      (htype : getScheduler (σ'.shared.task t).info.schedulerType = (σ'.shared.task t).scheduler)
      (hpanicked : (σ'.shared.task t).info.panicked = false) (hnone : ∀ p, (p, t) ∉ σ'.entries)

theorem HandlerStep.spawn {i : Fin m} {ty : SchedulerType} {dagInfo : Option DagInfo}
    (hI : Inv σ) (hfree : σ.call i = none)
    (hs : σ.shared.spawn ty dagInfo = some s) (t : Handle) :
    HandlerStep σ (σ.startCall i s (s.wake c σ.shared.numHandles)) t := by
  have hspawned := hI.shared.spawned hs
  by_cases hnew : t = σ.shared.numHandles
  · subst hnew
    refine .spawned hspawned.type.1 hspawned.type.2 fun p hmem => ?_
    rw [Sys.entries_startCall hfree hspawned.entries rfl] at hmem
    exact absurd (hI.lt_numHandles hmem) (Nat.lt_irrefl _)
  refine .same (fun ht => ?_) ?_
  · change t < s.numHandles at ht
    rw [hspawned.numHandles] at ht
    exact lt_of_le_of_ne (Nat.lt_succ_iff.mp ht) hnew
  · change SameHandler (σ.shared.task t) (s.task t)
    rw [hspawned.old t hnew]
    exact ⟨rfl, rfl, rfl⟩

theorem HandlerStep.panicking {x : Handle} (hI : Inv σ) (hpc : σ.cpu c = .polling x)
    (hs : σ.shared.markPanicking c = some s) (t : Handle) :
    HandlerStep σ
      (σ.setCpu c (.next (s.clearRequest c) (.preempting (.polling x) .peekPending))) t := by
  have hlocal := hI.toLocal c
  rw [hpc] at hlocal
  have hmark := hlocal.markPanicking_eq hs
  have htask : s.task = update σ.shared.task x (σ.shared.task x).marked :=
    congrArg Shared.task hmark
  have hnum : s.numHandles = σ.shared.numHandles := by
    rw [hmark]
    rfl
  by_cases hx : t = x
  · subst hx
    refine .marked (c := c) (Sys.mem_entries_of_cpu (c := c) ?_)
      (Sys.mem_entries_of_cpu (c := c) ?_) ?_
    · rw [hpc]
      exact Multiset.mem_singleton_self _
    · change (Place.executing c, t) ∈ (update σ.cpu c _ c).entries c
      rw [update_self]
      exact Multiset.mem_singleton_self _
    · change s.task t = _
      rw [htask, update_self]
  · refine .same (fun ht => lt_of_lt_of_eq ht hnum) ?_
    change SameHandler (σ.shared.task t) (s.task t)
    rw [htask, update_of_ne hx]
    exact ⟨rfl, rfl, rfl⟩

theorem Inv.handlerStep {a : Action n m} (h : Inv σ) (ha : ThreadAvailable σ a)
    (hstep : sysStep σ a = some σ') (t : Handle) : HandlerStep σ σ' t := by
  cases sysStep_cases hstep with
  | @cpu c inp r hrun hr =>
    have hshared : (σ.setCpu c r).shared = r.shared := by cases r <;> rfl
    refine .same (fun ht => ?_) ?_
    · rw [hshared, (cpuStep_ok (h.toLocal c) ha hr).frame.numHandles] at ht
      exact ht
    · rw [hshared]
      exact h.sameHandler_cpu ha hr t
  | @call i inp w r hrun hw hr =>
    have hshared : (σ.setCall i r).shared = r.shared := by cases r <;> rfl
    have hframe := (wakeStep_ok (h.call i w hw) hr).frame
    refine .same (fun ht => ?_) ?_
    · rw [hshared, hframe.numHandles] at ht
      exact ht
    · rw [hshared]
      exact (hframe.task t).sameHandler
  | spawn hfree hs => exact .spawn h hfree hs t
  | panicking hpc _ hs => exact .panicking h hpc hs t
  | wake | interrupt | advance => exact .same id ⟨rfl, rfl, rfl⟩

/-- **Every action keeps the tasks where their handlers expect them**, from a state in which no
panicked task waits to be put back. -/
theorem Handled.step {a : Action n m} (h : Handled σ) (hI : Inv σ) (ha : ThreadAvailable σ a)
    (hok : σ.NotParked) (hstep : sysStep σ a = some σ') : Handled σ' := by
  refine ⟨fun t ht => ?_, fun p t hmem => ?_⟩
  · cases hI.handlerStep ha hstep t with
    | same hnum hsame =>
      rw [hsame.schedulerType, hsame.handler]
      exact h.type t (hnum ht)
    | marked _ _ hmarked =>
      rw [hmarked]
      rfl
    | spawned htype hpanicked =>
      rw [Task.handler, hpanicked]
      exact htype
  · cases hI.handlerStep ha hstep t with
    | same _ hsame =>
      refine PlaceOk.congr hsame ?_
      rcases (hI.flow ha hstep).origin hmem with ⟨q, hcarried, hq⟩ | rfl
      · refine PlaceOk.carried (p := q) ?_ ?_ (h.place q t hq) hcarried
        · rintro c rfl
          have hpending := Shared.mem_entries.mp (Sys.container_mem hq nofun nofun nofun)
          exact (hok c).1 t (by simpa using hpending)
        · rintro c rfl
          have hpreempted := Shared.mem_entries.mp (Sys.container_mem hq nofun nofun nofun)
          exact (hok c).2 t (by simpa using hpreempted)
      · rfl
    | marked _ hexec' =>
      -- a task that has just been marked is executed
      rw [(hI.step ha hstep).place_unique hmem hexec']
      exact trivial
    | spawned _ _ hnone => exact absurd hmem (hnone p)

/-- **No call of `wake_task` reaches `unreachable!()`**, in every run in which threads can be
created and no task that has panicked is in a pending heap or among the preempted tasks: the
scheduler that is called is the one for the task's `scheduler_type`. -/
theorem handled (h : Reachable (fun σ a => ThreadAvailable σ a ∧ σ.NotParked) σ) :
    ∀ p w, σ.callOf p = some w → w.pc = .enter →
      getScheduler (σ.shared.task w.task).info.schedulerType = w.sched := by
  have hI : Inv σ ∧ Handled σ := by
    refine h.invariant (I := fun σ => Inv σ ∧ Handled σ) ⟨Inv.init B n m, ?_⟩
      fun σ a σ' hσ ha hstep => ⟨hσ.1.step ha.1 hstep, hσ.2.step hσ.1 ha.1 ha.2 hstep⟩
    refine ⟨nofun, fun p t hmem => ?_⟩
    have hledger := (Inv.init B n m).registry_of_mem hmem
    cases hledger
  intro p w hw hpc
  have hmem : (Place.hand (.waking w.sched w.notifies), w.task) ∈ σ.entries := by
    refine Sys.mem_entries_of_call hw ?_
    rw [entries_of_hand (h := .waking w.sched w.notifies) (by rw [WakeCall.hand, hpc])]
    exact Multiset.mem_singleton_self _
  have hplace : w.sched = (σ.shared.task w.task).handler := hI.2.place _ _ hmem
  rw [hI.2.type _ (hI.1.lt_numHandles hmem), hplace]

/-- A polled task panics, its poll returns, and it is woken again. -/
def wokenAfterPanic : List (Action 0 1) :=
  Action.spawnSteps 0 (.prioritizedFIFO 1) 10 ++ Action.cpuSteps 1 12 ++ [.panicking 1] ++
    Action.cpuSteps 1 4 ++ [.wake 0 0 0] ++ List.replicate 2 (.call 0 {})

/-- The wake goes to the scheduler of panicked tasks, which is the one for the task's type. -/
theorem handled_wokenAfterPanic : ∃ (σ : Sys Build.list 0 1) (w : WakeCall 0),
    Reachable (fun σ a => ThreadAvailable σ a ∧ σ.NotParked) σ ∧ σ.callOf (.inl 0) = some w ∧
      w.sched = .panicked ∧ getScheduler (σ.shared.task w.task).info.schedulerType = w.sched := by
  obtain ⟨σ, hrun, hσ⟩ := exists_of_run_any
    (guarded sysStep fun σ a => ThreadAvailable σ a ∧ σ.NotParked)
    (Sys.init Build.list 0 1) wokenAfterPanic
    (fun σ => (σ.call 0).map (fun w => (w.sched, w.pc)) = some (.panicked, .enter)) (by decide)
  obtain ⟨w, hw, hcall⟩ := Option.map_eq_some_iff.mp (of_decide_eq_true hσ)
  obtain ⟨hsched, hpc⟩ := Prod.mk.inj hcall
  have hreach : Reachable (fun σ a => ThreadAvailable σ a ∧ σ.NotParked) σ := Reaches.of_run hrun
  exact ⟨σ, w, hreach, hw, hsched, handled hreach (.inl 0) w hw hpc⟩

/-- A polled task panics while a task of higher priority is in the pending heap, and is
preempted. -/
def preemptedAfterPanic : List (Action 0 1) :=
  Action.spawnSteps 0 (.prioritizedFIFO 1) 10 ++ Action.cpuSteps 1 12 ++
    Action.spawnSteps 0 (.prioritizedFIFO 5) 16 ++ [.panicking 1] ++ Action.cpuSteps 1 13

/-- **A task that is preempted after it has panicked is put back by the wrong scheduler**:
`re_schedule` calls `wake_task` of PrioritizedFIFO on a task of type `Panicked`, and the worker
stops in `unreachable!()`. -/
theorem not_handled_of_preempted : ∃ (σ : Sys Build.list 0 1) (w : WakeCall 0),
    Reachable ThreadAvailable σ ∧ σ.callOf (.inr 1) = some w ∧ w.pc = .enter ∧
      getScheduler (σ.shared.task w.task).info.schedulerType ≠ w.sched ∧
      ∃ σ', sysStep σ (.cpu 1 {}) = some σ' ∧ σ'.cpuPanicked 1 := by
  obtain ⟨σ, hrun, hσ⟩ := exists_of_run_any (guarded sysStep ThreadAvailable)
    (Sys.init Build.list 0 1) preemptedAfterPanic
    (fun σ => ((σ.cpu 1).call.map fun w => (w.pc,
        decide (getScheduler (σ.shared.task w.task).info.schedulerType = w.sched))) =
          some (.enter, false) ∧
      ((sysStep σ (.cpu 1 {})).map fun σ' => σ'.cpuPanicked 1) = some true) (by decide)
  obtain ⟨hcall, hpanic⟩ := of_decide_eq_true hσ
  obtain ⟨w, hw, hcall⟩ := Option.map_eq_some_iff.mp hcall
  obtain ⟨hpc, hother⟩ := Prod.mk.inj hcall
  obtain ⟨σ', hstep, hpanic⟩ := Option.map_eq_some_iff.mp hpanic
  exact ⟨σ, w, Reaches.of_run hrun, hw, hpc, of_decide_eq_false hother, σ', hstep, hpanic⟩

end Awkernel
