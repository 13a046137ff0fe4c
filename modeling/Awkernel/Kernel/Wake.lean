import Awkernel.Kernel.State

/-!
# Waking a task

The steps of `Task::wake` and of the schedulers' `wake_task`, one access to shared memory at
a time. `wakeStep` is the whole call: `Task::wake` enters it at `claim` and ends with
`wake_cpu(0)`; the re-queues of `run_main`, `do_preemption` and `re_schedule` enter it at
`enter` and end when the lock is released.

A step that cannot be taken yet, because the lock is held, is `none`. A call ends in
`panicked` where the source panics; unwinding drops the guard of the lock.
-/

namespace Awkernel

open WakeCall Function

variable {B : Build} {n : Nat}

namespace Shared

/-- What `invoke_preemption` reads. -/
def view (s : Shared B n) : PreemptionView (n + 2) where
  task := s.task
  running := s.running
  registry := s.registry
  pending := s.pending

@[simp] theorem view_task (s : Shared B n) : s.view.task = s.task := rfl

@[simp] theorem view_running (s : Shared B n) : s.view.running = s.running := rfl

/-- Change the task behind a handle. -/
def modifyTask (s : Shared B n) (h : Handle) (f : Task → Task) : Shared B n :=
  { s with task := update s.task h (f (s.task h)) }

section

variable (s : Shared B n)

theorem modifyTask_id (h : Handle) : s.modifyTask h id = s := by
  rw [modifyTask, id, update_eq_self]

@[simp] theorem modifyTask_task_self (h : Handle) (f : Task → Task) :
    (s.modifyTask h f).task h = f (s.task h) := update_self ..

theorem modifyTask_task_of_ne {h t : Handle} (f : Task → Task) (ht : t ≠ h) :
    (s.modifyTask h f).task t = s.task t := update_of_ne ht ..

theorem modifyTask_keeps {α : Type*} {h : Handle} {f : Task → Task}
    (g : Task → α) (hg : g (f (s.task h)) = g (s.task h)) (t : Handle) :
    g ((s.modifyTask h f).task t) = g (s.task t) := by
  by_cases ht : t = h
  · subst ht; rw [modifyTask_task_self, hg]
  · rw [s.modifyTask_task_of_ne f ht]

end

/-- Change what the mutex `info` of a task protects. -/
def modifyInfo (s : Shared B n) (h : Handle) (f : TaskInfo → TaskInfo) : Shared B n :=
  s.modifyTask h fun t => { t with info := f t.info }

/-- Take or release `GLOBAL_WAKE_GET_MUTEX`. -/
def withMutex (s : Shared B n) (held : Bool) : Shared B n := { s with globalWakeGetMutex := held }

/-- `set_need_preemption`. -/
def setNeedPreemption (s : Shared B n) (id : Nat) (c : Cpu n) : Shared B n :=
  let s' := match s.registry id with
    | some h => s.modifyInfo h fun info => { info with needPreemption := true }
    | none => s
  { s' with preemptionRequest := update s'.preemptionRequest c true }

/-- Only the memory of the tasks and the request flag of `c` can change. -/
theorem setNeedPreemption_frame (s : Shared B n) (id : Nat) (c : Cpu n) :
    ∃ task, s.setNeedPreemption id c =
      { s with
        task := task
        preemptionRequest := update s.preemptionRequest c true } := by
  unfold setNeedPreemption
  cases s.registry id <;> exact ⟨_, rfl⟩

/-- `push_preemption_pending`. -/
def pushPreemptionPending (s : Shared B n) (c : Cpu n) (h : Handle) : Shared B n :=
  { s with pending := update s.pending c (h :: s.pending c) }

/-- `send_ipi` of the preemption IRQ. -/
def sendPreemptIpi (s : Shared B n) (c : Cpu n) : Shared B n :=
  { s with preemptIpi := update s.preemptIpi c (s.preemptIpi c + 1) }

/-- One round of the loop of `wake_up`: load the tag, then exchange it. -/
inductive WakeUp
  | again (seen : Option SleepTag)
  | returned (woken : Bool)

/-- `wake_up(target)` after the test of the caller's own id. -/
def wakeUp (s : Shared B n) (target : Cpu n) : Option SleepTag → Shared B n × WakeUp
  | none => (s, .again (some (s.cpuSleepTag target)))
  | some .active =>
    if s.cpuSleepTag target = .active then
      ({ s with cpuSleepTag := update s.cpuSleepTag target .continued }, .returned false)
    else (s, .again none)
  | some .waiting =>
    if s.cpuSleepTag target = .waiting then
      ({ s with cpuSleepTag := update s.cpuSleepTag target .waking }, .returned true)
    else (s, .again none)
  | some .waking => (s, .returned false)
  | some .continued => (s, .returned false)

theorem wakeUp_tags (s : Shared B n) (target : Cpu n) (seen : Option SleepTag) :
    ∃ tags, (s.wakeUp target seen).1 = { s with cpuSleepTag := tags } := by
  unfold wakeUp
  split
  case h_2 | h_3 => split <;> exact ⟨_, rfl⟩
  all_goals exact ⟨_, rfl⟩

/-- The `push` to the run queue of the call's scheduler; `none` is the failed `expect` of
ClusteredEDF. -/
def enqueue (s : Shared B n) (w : WakeCall n) : Option (Shared B n) :=
  match w.sched with
  | .prioritizedFIFO => some
      { s with prioritizedFIFO := s.prioritizedFIFO.push w.priority w.task }
  | .prioritizedRR => some { s with prioritizedRR := s.prioritizedRR.push w.priority w.task }
  | .gedf => some { s with gedf := ⟨w.task, w.absoluteDeadline, w.wakeTime⟩ :: s.gedf }
  | .clusteredEDF =>
    (s.clusteredEDF.push (toLex (w.absoluteDeadline, w.wakeTime))
      ((s.task w.task).cpuSet.getD ∅) w.task).map fun q =>
        { s with
          clusteredEDF := q
          numClusteredTasksInQueue := (s.numClusteredTasksInQueue + 1) % 2 ^ 32 }
  | .panicked => some { s with panicked := s.panicked ++ [w.task] }

/-- The tasks in the run queue of a scheduler. -/
def queued (s : Shared B n) : Sched → List Handle
  | .clusteredEDF => s.clusteredEDF.vals
  | .gedf => s.gedf.map GEDFTask.task
  | .prioritizedFIFO => s.prioritizedFIFO.entries
  | .prioritizedRR => s.prioritizedRR.entries
  | .panicked => s.panicked

@[simp] theorem queued_withMutex (s : Shared B n) (held : Bool) :
    (s.withMutex held).queued = s.queued := by
  funext S
  cases S <;> rfl

variable {s s' : Shared B n} {w : WakeCall n}

section

variable (h : s.enqueue w = some s')

include h

/-- A push touches the run queues and the counter of clustered tasks, nothing else. -/
theorem enqueue_frame : ∃ edf gedf fifo rr panicked clustered, s' = { s with
        clusteredEDF := edf, gedf := gedf, prioritizedFIFO := fifo, prioritizedRR := rr,
        panicked := panicked, numClusteredTasksInQueue := clustered } := by
  unfold enqueue at h
  split at h
  case h_4 =>
    obtain ⟨q, -, rfl⟩ := Option.map_eq_some_iff.mp h
    exact ⟨_, _, _, _, _, _, rfl⟩
  all_goals
    cases h
    exact ⟨_, _, _, _, _, _, rfl⟩

theorem enqueue_queued_perm : (s'.queued w.sched).Perm (w.task :: s.queued w.sched) := by
  unfold enqueue at h
  cases hs : w.sched <;> rw [hs] at h
  case clusteredEDF =>
    obtain ⟨q, hpush, rfl⟩ := Option.map_eq_some_iff.mp h
    change q.vals.Perm (w.task :: s.clusteredEDF.vals)
    rw [AffinityQueue.Sized.vals_push hpush]
    exact List.perm_append_singleton ..
  case gedf =>
    cases h
    exact List.Perm.refl _
  case panicked =>
    cases h
    exact List.perm_append_singleton ..
  all_goals
    cases h
    exact PriorityQueue.entries_push_perm ..

theorem enqueue_queued_of_ne {S : Sched} (hS : S ≠ w.sched) : s'.queued S = s.queued S := by
  unfold enqueue at h
  cases hs : w.sched <;> rw [hs] at h hS
  case clusteredEDF =>
    obtain ⟨q, -, rfl⟩ := Option.map_eq_some_iff.mp h
    cases S <;> first | rfl | exact absurd rfl hS
  all_goals
    cases h
    cases S <;> first | rfl | exact absurd rfl hS

end

end Shared

/-- How a step of a call ends. -/
inductive WakeResult (B : Build) (n : Nat)
  | next (s : Shared B n) (call : WakeCall n)
  | done (s : Shared B n)
  | panicked (s : Shared B n)

namespace WakeCall

def moveTo (w : WakeCall n) (pc : WakePc n) : WakeCall n := { w with pc := pc }

/-- The call goes on at `pc`. -/
def goto (w : WakeCall n) (s : Shared B n) (pc : WakePc n) : WakeResult B n :=
  .next s (w.moveTo pc)

/-- The end of `wake_task`: `Task::wake` goes on to `wake_cpu(0)`. -/
def finish (w : WakeCall n) (s : Shared B n) : WakeResult B n :=
  if w.notifies then w.goto s (.notify none) else .done s

/-- The start of an EDF `wake_task`, under the lock of `info`: compute the deadline, store
it and the new priority. `dagDeadline` is what `calculate_and_update_dag_deadline` returns
for a DAG node. -/
def releaseEdf (w : WakeCall n) (s : Shared B n) (relativeDeadline : UInt64)
    (dagDeadline : Nat) : WakeResult B n :=
  let t := s.task w.task
  let computed : Option (Nat × Nat) :=
    match t.info.dagInfo with
    | some _ =>
      (deadlinePriority B.width w.sched.priority dagDeadline).map fun p => (dagDeadline, p)
    | none => edfWake B.width w.sched.priority s.uptime relativeDeadline.toNat
  match computed with
  | none => .panicked s
  | some (absoluteDeadline, priority) =>
    .next (s.modifyTask w.task fun t =>
        { t with
          priority := priority
          info := { t.info with absoluteDeadline := some absoluteDeadline } })
      { w with absoluteDeadline := absoluteDeadline, wakeTime := s.uptime, pc := .lock }

/-- `cpu_set` is what `Tasks::spawn` leaves: a non-empty set of workers. -/
def normalized (n : Nat) (set : CpuSet) : Bool :=
  set.Nonempty ∧ maskedWorkers set (n + 2) = set

/-- `wake_task` up to the lock. The last arm is `unreachable!()`; the scheduler of panicked
tasks has no such match, takes no lock and pushes at once. -/
def enter (w : WakeCall n) (s : Shared B n) (dagDeadline : Nat) : WakeResult B n :=
  match w.sched, (s.task w.task).info.schedulerType with
  | .panicked, _ => w.finish { s with panicked := s.panicked ++ [w.task] }
  | .prioritizedFIFO, .prioritizedFIFO p => .next s { w with priority := p, pc := .lock }
  | .prioritizedRR, .prioritizedRR p => .next s { w with priority := p, pc := .lock }
  | .gedf, .gedf relativeDeadline => w.releaseEdf s relativeDeadline dagDeadline
  | .clusteredEDF, .clusteredEDF relativeDeadline _ =>
    match w.releaseEdf s relativeDeadline dagDeadline with
    | .next s' w' =>
      -- the set is checked after the deadline is stored
      match (s.task w.task).cpuSet with
      | none => .panicked s'
      | some set => if normalized n set then .next s' w' else .panicked s'
    | result => result
  | _, _ => .panicked s

/-- What the start of `wake_task` can change: the deadline and the priority of the task, and
what the call remembers of them. -/
theorem releaseEdf_next {w w' : WakeCall n} {s s' : Shared B n} {relativeDeadline : UInt64}
    {dagDeadline : Nat} (h : w.releaseEdf s relativeDeadline dagDeadline = .next s' w') :
    ∃ deadline word, s' = (s.modifyTask w.task fun t =>
        { t with priority := word, info := { t.info with absoluteDeadline := some deadline } }) ∧
      w' = { w with absoluteDeadline := deadline, wakeTime := s.uptime, pc := .lock } := by
  unfold releaseEdf at h
  dsimp only at h
  split at h
  · cases h
  · cases h
    exact ⟨_, _, rfl, rfl⟩

/-- The minimum of the candidates, taken as they are found. -/
def updateBest (s : Shared B n) (best : Option (Handle × Cpu n)) (x : Handle × Cpu n) :
    Option (Handle × Cpu n) :=
  match best with
  | some b =>
    if (toLex (s.view.key b.1, b.2) : (ℕ ×ₗ ℕ) ×ₗ Cpu n) ≤ toLex (s.view.key x.1, x.2) then
      some b
    else some x
  | none => some x

/-- The state after a panic: the guard of the lock has been dropped. -/
def unwind (s : Shared B n) : WakeResult B n :=
  .panicked (s.withMutex false)

/-- `preempts` against the selected target. -/
def conclude (w : WakeCall n) (s : Shared B n) (target : Handle × Cpu n) : WakeResult B n :=
  if (s.task w.task).preempts (s.task target.1) then
    w.goto s (.pushPending target.1 target.2)
  else w.goto s .enqueue

end WakeCall

/-- One step of a call. -/
def wakeStep (s : Shared B n) (w : WakeCall n) (dagDeadline : Nat) : Option (WakeResult B n) :=
  match w.pc with
  | .claim =>
    let info := (s.task w.task).info
    match info.state with
    | .running | .runnable | .preempted =>
      some (.done (s.modifyInfo w.task fun info => { info with needSched := true }))
    | .terminated | .panicked => some (.done s)
    | .initialized | .waiting =>
      some (w.goto (s.modifyInfo w.task fun info => { info with state := .runnable })
        (.count info.panicked))
  | .count panicked =>
    let t := s.task w.task
    let counted := panicked || t.cpuSet.isNone
    some (.next
      { s with
        numTaskInQueue :=
          if counted then (s.numTaskInQueue + 1) % 2 ^ 32 else s.numTaskInQueue }
      { w with sched := if panicked then .panicked else t.scheduler, pc := .enter })
  | .enter => some (w.enter s dagDeadline)
  | .lock =>
    if s.globalWakeGetMutex then none
    else
      some (w.goto (s.withMutex true) (match w.sched with
          | .clusteredEDF => .scanRunning
              (PreemptionView.cpuSetIter (n + 2) ((s.task w.task).cpuSet.getD ∅)) none
          | _ => .snapshot (List.finRange (n + 2)) []))
  | .snapshot [] busy =>
    -- the task is running, or nothing is
    if busy.isEmpty || busy.any fun b => b.2 == (s.task w.task).id then
      some (w.goto s .enqueue)
    else some (w.goto s (.lookup busy none))
  | .snapshot (c :: todo) busy =>
    some (w.goto s (.snapshot todo (if s.running c ≠ 0 then busy ++ [(c, s.running c)] else busy)))
  | .lookup [] best => some (w.goto s (.select best))
  | .lookup ((c, id) :: todo) best =>
    match s.registry id with
    | none => some (w.goto s (.lookup todo best))
    | some running => some (w.goto s (.peek c running todo best))
  | .peek c running todo best =>
    let x := s.view.maxTask running ((s.view.peekPreemptionPending c).getD running)
    some (w.goto s (.lookup todo (updateBest s best (x, c))))
  | .scanRunning [] victim => some (w.goto s (.selectVictim victim))
  | .scanRunning (c :: todo) victim =>
    if s.running c = (s.task w.task).id then some (w.goto s .enqueue)
    else if s.running c = 0 then some (w.goto s .enqueue)
    else some (w.goto s (.scanTask c (s.running c) todo victim))
  | .scanTask c id todo victim => some (w.goto s (.scanPending c (s.registry id) todo victim))
  | .scanPending c running todo victim =>
    match s.view.targetTask running (s.view.peekPreemptionPending c) with
    | some target =>
      some (w.goto s (.scanRunning todo (s.view.updateVictim victim (target, c))))
    | none => some (w.goto s .enqueue)
  | .select none => some (unwind s)
  | .select (some target) => some (w.conclude s target)
  | .selectVictim none => some (w.goto s .enqueue)
  | .selectVictim (some target) => some (w.conclude s target)
  | .pushPending target c =>
    some (w.goto (s.pushPreemptionPending c w.task) (.setNeedPreemption target c))
  | .setNeedPreemption target c =>
    some (w.goto (s.setNeedPreemption (s.task target).id c) (.sendIpi c))
  | .sendIpi c => some (w.goto (s.sendPreemptIpi c) .unlock)
  | .enqueue =>
    match s.enqueue w with
    | none => some (unwind s)
    | some s' => some (w.goto s' .unlock)
  | .unlock => some (w.finish (s.withMutex false))
  | .notify seen =>
    if w.cpu = 0 then some (.done s)
    else
      match s.wakeUp 0 seen with
      | (s', .again seen') => some (w.goto s' (.notify seen'))
      | (s', .returned _) => some (.done s')

/-! ### The steps of a call -/

/-- The steps that only read, from one control state of the call `w` to the next. -/
inductive WakeReads (s : Shared B n) (w : WakeCall n) : WakePc n → WakePc n → Prop
  /-- Nothing is running, or the task is. -/
  | noneBusy (busy : List (Cpu n × Nat)) : WakeReads s w (.snapshot [] busy) .enqueue
  | someBusy {busy : List (Cpu n × Nat)} (hbusy : busy ≠ []) :
      WakeReads s w (.snapshot [] busy) (.lookup busy none)
  | snapshot (c : Cpu n) (todo : List (Cpu n)) (busy : List (Cpu n × Nat)) :
      WakeReads s w (.snapshot (c :: todo) busy) (.snapshot todo
        (if s.running c ≠ 0 then busy ++ [(c, s.running c)] else busy))
  | selects (best : Option (Handle × Cpu n)) : WakeReads s w (.lookup [] best) (.select best)
  /-- The task has been removed since its id was read. -/
  | removed {c : Cpu n} {id : Nat} {todo : List (Cpu n × Nat)} {best : Option (Handle × Cpu n)}
      (hid : s.registry id = none) :
      WakeReads s w (.lookup ((c, id) :: todo) best) (.lookup todo best)
  | lookup {c : Cpu n} {id : Nat} {running : Handle} {todo : List (Cpu n × Nat)}
      {best : Option (Handle × Cpu n)} (hid : s.registry id = some running) :
      WakeReads s w (.lookup ((c, id) :: todo) best) (.peek c running todo best)
  | peek (c : Cpu n) (running : Handle) (todo : List (Cpu n × Nat))
      (best : Option (Handle × Cpu n)) (x : Handle) :
      WakeReads s w (.peek c running todo best) (.lookup todo (updateBest s best (x, c)))
  | scanned (victim : Option (Handle × Cpu n)) :
      WakeReads s w (.scanRunning [] victim) (.selectVictim victim)
  /-- A CPU of the set is idle or runs the task. -/
  | idle (c : Cpu n) (todo : List (Cpu n)) (victim : Option (Handle × Cpu n)) :
      WakeReads s w (.scanRunning (c :: todo) victim) .enqueue
  | scanRunning (c : Cpu n) (todo : List (Cpu n)) (victim : Option (Handle × Cpu n)) :
      WakeReads s w (.scanRunning (c :: todo) victim) (.scanTask c (s.running c) todo victim)
  | scanTask (c : Cpu n) (id : Nat) (todo : List (Cpu n)) (victim : Option (Handle × Cpu n)) :
      WakeReads s w (.scanTask c id todo victim) (.scanPending c (s.registry id) todo victim)
  | scanPending (c : Cpu n) (running : Option Handle) (todo : List (Cpu n))
      (victim victim' : Option (Handle × Cpu n)) :
      WakeReads s w (.scanPending c running todo victim) (.scanRunning todo victim')
  | scanNone (c : Cpu n) (running : Option Handle) (todo : List (Cpu n))
      (victim : Option (Handle × Cpu n)) :
      WakeReads s w (.scanPending c running todo victim) .enqueue
  | preempts {pc : WakePc n} {target : Handle × Cpu n}
      (hpc : pc = .select (some target) ∨ pc = .selectVictim (some target)) :
      WakeReads s w pc (.pushPending target.1 target.2)
  | waits {pc : WakePc n} (hpc : (∃ target, pc = .select (some target)) ∨
      ∃ victim, pc = .selectVictim victim) : WakeReads s w pc .enqueue

/-- **The steps of a call**, with the conditions under which they are taken. -/
inductive WakeCase (s : Shared B n) (w : WakeCall n) (d : Nat) : WakeResult B n → Prop
  /-- The task is awake already. -/
  | needSched (hpc : w.pc = .claim) : WakeCase s w d
      (.done (s.modifyInfo w.task fun info => { info with needSched := true }))
  | ended (hpc : w.pc = .claim) : WakeCase s w d (.done s)
  | claim (hpc : w.pc = .claim) (hstate : (s.task w.task).info.state = .initialized ∨
      (s.task w.task).info.state = .waiting) : WakeCase s w d
        (w.goto (s.modifyInfo w.task fun info => { info with state := .runnable })
          (.count (s.task w.task).info.panicked))
  | count {panicked : Bool} (hpc : w.pc = .count panicked) : WakeCase s w d (.next
      { s with
        numTaskInQueue := if panicked || (s.task w.task).cpuSet.isNone then
          (s.numTaskInQueue + 1) % 2 ^ 32 else s.numTaskInQueue }
      { w with
        sched := if panicked then .panicked else (s.task w.task).scheduler
        pc := .enter })
  | enter (hpc : w.pc = .enter) : WakeCase s w d (w.enter s d)
  | lock (hpc : w.pc = .lock) (hfree : s.globalWakeGetMutex = false) {pc : WakePc n}
      (hnext : pc = .scanRunning
        (PreemptionView.cpuSetIter (n + 2) ((s.task w.task).cpuSet.getD ∅)) none ∨
        pc = .snapshot (List.finRange (n + 2)) []) : WakeCase s w d (w.goto (s.withMutex true) pc)
  | read {pc : WakePc n} (hread : WakeReads s w w.pc pc) : WakeCase s w d (w.goto s pc)
  /-- The minimum of no candidates. -/
  | unwrapNone (hpc : w.pc = .select none) : WakeCase s w d (unwind s)
  | pushPending {target : Handle} {c : Cpu n} (hpc : w.pc = .pushPending target c) :
      WakeCase s w d (w.goto (s.pushPreemptionPending c w.task) (.setNeedPreemption target c))
  | setNeedPreemption {target : Handle} {c : Cpu n} (hpc : w.pc = .setNeedPreemption target c) :
      WakeCase s w d (w.goto (s.setNeedPreemption (s.task target).id c) (.sendIpi c))
  | sendIpi {c : Cpu n} (hpc : w.pc = .sendIpi c) :
      WakeCase s w d (w.goto (s.sendPreemptIpi c) .unlock)
  | enqueue {s' : Shared B n} (hpc : w.pc = .enqueue) (hpush : s.enqueue w = some s') :
      WakeCase s w d (w.goto s' .unlock)
  | refused (hpc : w.pc = .enqueue) (hpush : s.enqueue w = none) :
      WakeCase s w d (unwind s)
  | unlock (hpc : w.pc = .unlock) : WakeCase s w d (w.finish (s.withMutex false))
  /-- `wake_cpu(0)` on CPU 0 itself. -/
  | notifySelf {seen : Option SleepTag} (hpc : w.pc = .notify seen) (hcpu : w.cpu = 0) :
      WakeCase s w d (.done s)
  | notify {seen seen' : Option SleepTag} {s' : Shared B n} (hpc : w.pc = .notify seen)
      (hcpu : w.cpu ≠ 0) (hwake : s.wakeUp 0 seen = (s', .again seen')) :
      WakeCase s w d (w.goto s' (.notify seen'))
  | notified {seen : Option SleepTag} {s' : Shared B n} {woken : Bool}
      (hpc : w.pc = .notify seen) (hcpu : w.cpu ≠ 0)
      (hwake : s.wakeUp 0 seen = (s', .returned woken)) : WakeCase s w d (.done s')

/-- What a step of `Task::wake` finds and does. -/
theorem wakeStep_cases {s : Shared B n} {w : WakeCall n} {d : Nat} {r : WakeResult B n}
    (h : wakeStep s w d = some r) : WakeCase s w d r := by
  have hread : ∀ {pc}, WakeReads s w w.pc pc → some (w.goto s pc) = some r →
      WakeCase s w d r := fun hpc heq => Option.some.inj heq ▸ .read hpc
  cases hpc : w.pc with
  | claim =>
    rw [wakeStep, hpc] at h
    dsimp only at h
    split at h <;> cases h
    case h_1 | h_2 | h_3 => exact .needSched hpc
    case h_4 | h_5 => exact .ended hpc
    case h_6 hstate => exact .claim hpc (.inl hstate)
    case h_7 hstate => exact .claim hpc (.inr hstate)
  | count panicked =>
    rw [wakeStep, hpc] at h
    cases h
    exact .count hpc
  | enter =>
    rw [wakeStep, hpc] at h
    cases h
    exact .enter hpc
  | lock =>
    rw [wakeStep, hpc] at h
    obtain ⟨hfree, ⟨⟩⟩ := Option.ite_none_left_eq_some.mp h
    refine .lock hpc (by simpa using hfree) ?_
    cases w.sched with
    | clusteredEDF => exact .inl rfl
    | _ => exact .inr rfl
  | snapshot todo busy =>
    rw [hpc] at hread
    rw [wakeStep, hpc] at h
    cases todo with
    | nil =>
      dsimp only at h
      split at h
      · exact hread (.noneBusy busy) h
      rename_i hbusy
      refine hread (.someBusy fun hnil => hbusy ?_) h
      rw [hnil]
      rfl
    | cons c todo => exact hread (.snapshot c todo busy) h
  | lookup todo best =>
    rw [hpc] at hread
    rw [wakeStep, hpc] at h
    cases todo with
    | nil => exact hread (.selects best) h
    | cons x todo =>
      obtain ⟨c, id⟩ := x
      dsimp only at h
      split at h
      · next hid => exact hread (.removed hid) h
      · next hid => exact hread (.lookup hid) h
  | peek c running todo best =>
    rw [hpc] at hread
    rw [wakeStep, hpc] at h
    exact hread (.peek c running todo best _) h
  | scanRunning todo victim =>
    rw [hpc] at hread
    rw [wakeStep, hpc] at h
    cases todo with
    | nil => exact hread (.scanned victim) h
    | cons c todo =>
      dsimp only at h
      split at h
      · exact hread (.idle c todo victim) h
      split at h
      · exact hread (.idle c todo victim) h
      · exact hread (.scanRunning c todo victim) h
  | scanTask c id todo victim =>
    rw [hpc] at hread
    rw [wakeStep, hpc] at h
    exact hread (.scanTask c id todo victim) h
  | scanPending c running todo victim =>
    rw [hpc] at hread
    rw [wakeStep, hpc] at h
    dsimp only at h
    split at h
    · exact hread (.scanPending c running todo victim _) h
    · exact hread (.scanNone c running todo victim) h
  | select best =>
    rw [hpc] at hread
    rw [wakeStep, hpc] at h
    cases best with
    | none =>
      cases h
      exact .unwrapNone hpc
    | some target =>
      dsimp only [conclude] at h
      split at h
      · exact hread (.preempts (.inl rfl)) h
      · exact hread (.waits (.inl ⟨target, rfl⟩)) h
  | selectVictim victim =>
    rw [hpc] at hread
    rw [wakeStep, hpc] at h
    cases victim with
    | none => exact hread (.waits (.inr ⟨none, rfl⟩)) h
    | some target =>
      dsimp only [conclude] at h
      split at h
      · exact hread (.preempts (.inr rfl)) h
      · exact hread (.waits (.inr ⟨some target, rfl⟩)) h
  | pushPending target c =>
    rw [wakeStep, hpc] at h
    cases h
    exact .pushPending hpc
  | setNeedPreemption target c =>
    rw [wakeStep, hpc] at h
    cases h
    exact .setNeedPreemption hpc
  | sendIpi c =>
    rw [wakeStep, hpc] at h
    cases h
    exact .sendIpi hpc
  | enqueue =>
    rw [wakeStep, hpc] at h
    dsimp only at h
    split at h <;> cases h
    · next hpush => exact .refused hpc hpush
    · next hpush => exact .enqueue hpc hpush
  | unlock =>
    rw [wakeStep, hpc] at h
    cases h
    exact .unlock hpc
  | notify seen =>
    rw [wakeStep, hpc] at h
    dsimp only at h
    split at h
    · next hcpu =>
      cases h
      exact .notifySelf hpc hcpu
    rename_i hcpu
    split at h <;> cases h
    · next hwake => exact .notify hpc hcpu hwake
    · next hwake => exact .notified hpc hcpu hwake

end Awkernel
