import Awkernel.Kernel.Places
import Mathlib.Tactic.Abel

/-!
# The steps of the calls as flows

What a step of `wake_task` and of `get_next_task` can do, said once: what it leaves alone
(`WakeFrame`) and how it changes the ledger (`wakeStep_flow`, `getNextStep_flow`).
-/

namespace Awkernel

open Ledger Shared WakeCall List Option Finset Function Multiset

variable {B : Build} {n : Nat} {f : TaskInfo → TaskInfo} {S : Sched}

/-! ### The containers -/

namespace Shared

variable {s s' : Shared B n}

theorem sum_queued_cons {t : Handle}
    (hS : (s'.queued S).Perm (t :: s.queued S)) (hne : ∀ S', S' ≠ S → s'.queued S' = s.queued S') :
    ∑ S', placed (.queue S' : Place n) (s'.queued S')
      = (.queue S, t) ::ₘ ∑ S', placed (.queue S') (s.queued S') := by
  rw [← sum_erase_add _ _ (mem_univ S),
    ← sum_erase_add _ (fun S' => placed (.queue S' : Place n) (s.queued S'))
      (mem_univ S), placed_perm _ hS, placed_cons, add_cons]
  congr 2
  exact sum_congr rfl fun S' hS' => by rw [hne S' (ne_of_mem_erase hS')]

theorem entries_enqueue {w : WakeCall n} (h : s.enqueue w = some s') :
    s'.entries = (.queue w.sched, w.task) ::ₘ s.entries := by
  have hsum := sum_queued_cons (enqueue_queued_perm h) fun S' hS' => enqueue_queued_of_ne h hS'
  obtain ⟨_, _, _, _, _, _, rfl⟩ := enqueue_frame h
  rw [entries, hsum, cons_add]
  rfl

theorem entries_split (s s' : Shared B n) (c : Cpu n) (hq : s'.queued = s.queued)
    (hne : ∀ c', c' ≠ c → s'.cpuEntries c' = s.cpuEntries c') :
    ∃ R, s.entries = R + s.cpuEntries c ∧ s'.entries = R + s'.cpuEntries c := by
  refine ⟨(∑ S, placed (.queue S) (s.queued S)) + ∑ c' ∈ univ.erase c, s.cpuEntries c', ?_, ?_⟩
  · rw [entries, ← sum_erase_add _ _ (mem_univ c), add_assoc]
  rw [entries, ← sum_erase_add _ _ (mem_univ c), hq, add_assoc]
  congr 2
  exact sum_congr rfl fun c' hc' => hne c' (ne_of_mem_erase hc')

section

variable (s : Shared B n)

theorem entries_setPending (c : Cpu n) (heap : List Handle) :
    ∃ R, s.entries = R + placed (.pending c) (s.pending c) ∧
      (s.setPending c heap).entries = R + placed (.pending c) heap := by
  obtain ⟨R, hs, hs'⟩ := entries_split s (s.setPending c heap) c rfl fun c' hc' => by
    simp only [cpuEntries, setPending, update_of_ne hc']
  refine ⟨R + placed (.next c) (s.nextTask c) + placed (.preempted c) (s.preemptedTasks c), ?_, ?_⟩
  · rw [hs, cpuEntries]
    abel
  rw [hs']
  simp only [cpuEntries, setPending, update_self]
  abel

theorem entries_setNext (c : Cpu n) (tasks : List Handle) :
    ∃ R, s.entries = R + placed (.next c) (s.nextTask c) ∧
      (s.setNext c tasks).entries = R + placed (.next c) tasks := by
  obtain ⟨R, hs, hs'⟩ := entries_split s (s.setNext c tasks) c rfl fun c' hc' => by
    simp only [cpuEntries, setNext, update_of_ne hc']
  refine ⟨R + placed (.pending c) (s.pending c) + placed (.preempted c) (s.preemptedTasks c),
    ?_, ?_⟩
  · rw [hs, cpuEntries]
    abel
  rw [hs']
  simp only [cpuEntries, setNext, update_self]
  abel

theorem entries_setPreempted (c : Cpu n) (tasks : List Handle) :
    ∃ R, s.entries = R + placed (.preempted c) (s.preemptedTasks c) ∧
      (s.setPreempted c tasks).entries = R + placed (.preempted c) tasks := by
  obtain ⟨R, hs, hs'⟩ := entries_split s (s.setPreempted c tasks) c rfl
    fun c' hc' => by simp only [cpuEntries, setPreempted, update_of_ne hc']
  refine ⟨R + placed (.pending c) (s.pending c) + placed (.next c) (s.nextTask c), ?_, ?_⟩
  · rw [hs, cpuEntries]
    abel
  rw [hs']
  simp only [cpuEntries, setPreempted, update_self]
  abel

theorem entries_pushPreemptionPending (c : Cpu n) (t : Handle) :
    (s.pushPreemptionPending c t).entries = (.pending c, t) ::ₘ s.entries := by
  obtain ⟨R, hR, hset⟩ := s.entries_setPending c (t :: s.pending c)
  calc (s.pushPreemptionPending c t).entries = (s.setPending c (t :: s.pending c)).entries := rfl
    _ = (.pending c, t) ::ₘ s.entries := by
      rw [hset, hR, placed_cons, add_cons]

/-! ### What is due -/

theorem due_le_one (t : Handle) : s.due t ≤ 1 := by
  unfold due
  split <;> omega

end

theorem due_congr (hreg : s'.registry = s.registry) (hid : ∀ t, (s'.task t).id = (s.task t).id)
    (hstate : ∀ t, (s'.task t).info.state = (s.task t).info.state) : s'.due = s.due := by
  funext t
  rw [due, due, hreg, hid, hstate]

theorem due_modifyTask (s : Shared B n) (h : Handle) {f : Task → Task}
    (hid : (f (s.task h)).id = (s.task h).id)
    (hstate : (f (s.task h)).info.state = (s.task h).info.state) :
    (s.modifyTask h f).due = s.due := by
  exact due_congr rfl (s.modifyTask_keeps Task.id hid)
    (s.modifyTask_keeps (fun t => t.info.state) hstate)

theorem due_modifyInfo (s : Shared B n) (h : Handle)
    (hstate : (f (s.task h).info).state = (s.task h).info.state) :
    (s.modifyInfo h f).due = s.due :=
  s.due_modifyTask h rfl hstate

theorem due_modifyInfo_state (s : Shared B n) (t : Handle) (f : TaskInfo → TaskInfo) :
    (s.modifyInfo t f).due = update s.due t (if (f (s.task t).info).state.isActive ∨
        ((f (s.task t).info).state.isDead ∧ s.registry (s.task t).id = some t) then 1 else 0) := by
  funext u
  by_cases hu : u = t
  · subst hu
    rw [update_self, due, modifyInfo, modifyTask_task_self]
    rfl
  · rw [update_of_ne hu, due, due, modifyInfo, s.modifyTask_task_of_ne _ hu]
    rfl

end Shared

/-! ### Flows beside other parties -/

variable {s s' : Shared B n}

/-- What one party does to its part of the ledger it does to the whole. -/
theorem Flow.add_right {L L' : Ledger (Place n) Handle}
    (h : Flow s s' L L') (R : Ledger (Place n) Handle) : Flow s s' (L + R) (L' + R) := by
  cases h with
  | stay _ hdue hnum => exact .stay _ hdue hnum
  | move R' hmove hdue hnum =>
    rw [cons_add, cons_add]
    exact .move _ hmove hdue hnum
  | moveHeap R' c heap hdue hnum =>
    rw [add_right_comm, add_right_comm R' (placed (.hand .moving) heap)]
    exact .moveHeap _ c heap hdue hnum
  | switch R' hq hdue hnum =>
    simp only [cons_add]
    exact .switch _ hq hdue hnum
  | claim _ t hout hdue hnum =>
    rw [cons_add]
    exact .claim _ t hout hdue hnum
  | count R' t panicked hdue hnum =>
    rw [cons_add, cons_add]
    exact .count _ t panicked hdue hnum
  | decrement R' t hp hdue hnum =>
    rw [cons_add, cons_add]
    exact .decrement _ t hp hdue hnum
  | release _ t hp hdue hnum =>
    rw [cons_add]
    exact .release _ t hp hdue hnum

theorem Flow.holders_eq {L L' : Ledger (Place n) Handle}
    (h : Flow s s' L L') (hL : ∀ t, holders t L = s.due t) (t : Handle) :
    holders t L' = s'.due t := by
  have ht := hL t
  cases h with
  | stay _ hdue => rw [hdue]; exact ht
  | move _ _ hdue | count _ _ _ hdue | decrement _ _ _ hdue =>
    rw [hdue, ← ht, holders_cons, holders_cons]
  | moveHeap R c heap hdue =>
    rw [hdue, ← ht, holders_add, holders_add, holders_placed, holders_placed]
  | switch R hq hdue =>
    rw [hdue, ← ht]
    simp only [holders_cons]
  | claim _ u hout hdue =>
    rw [hdue, holders_cons, ht]
    by_cases hu : t = u
    · subst hu; rw [update_self, if_pos rfl, hout]
    · rw [update_of_ne hu, if_neg fun h => hu h.symm, add_zero]
  | release _ u hp hdue =>
    rw [hdue]
    rw [holders_cons] at ht
    by_cases hu : t = u
    · -- the entry that goes was the only one
      subst hu
      have hle := s.due_le_one t
      rw [if_pos rfl] at ht
      rw [update_self]
      omega
    · rw [if_neg fun h => hu h.symm, add_zero] at ht
      rw [update_of_ne hu, ht]

/-! ### What a call leaves alone -/

/-- The fields of a task that no step of a call writes. -/
structure TaskKept (t t' : Task) : Prop where
  id : t'.id = t.id
  scheduler : t'.scheduler = t.scheduler
  cpuSet : t'.cpuSet = t.cpuSet
  futureLocked : t'.futureLocked = t.futureLocked
  futureTerminated : t'.futureTerminated = t.futureTerminated
  isDead : t'.info.state.isDead = t.info.state.isDead
  schedulerType : t'.info.schedulerType = t.info.schedulerType
  panicked : t'.info.panicked = t.info.panicked
  dagInfo : t'.info.dagInfo = t.info.dagInfo
  thread : t'.info.thread = t.info.thread

theorem TaskKept.refl (t : Task) : TaskKept t t :=
  ⟨rfl, rfl, rfl, rfl, rfl, rfl, rfl, rfl, rfl, rfl⟩

/-- What a step of a call leaves alone. -/
structure WakeFrame (s s' : Shared B n) : Prop where
  task : ∀ t, TaskKept (s.task t) (s'.task t)
  numHandles : s'.numHandles = s.numHandles
  registry : s'.registry = s.registry
  candidateId : s'.candidateId = s.candidateId
  pooled : s'.pooled = s.pooled
  running : s'.running = s.running
  nextTask : s'.nextTask = s.nextTask
  preemptedTasks : s'.preemptedTasks = s.preemptedTasks
  threadPool : s'.threadPool = s.threadPool
  /-- A heap only grows. -/
  pending : ∀ c t, t ∈ s.pending c → t ∈ s'.pending c

namespace WakeFrame

section

variable (s : Shared B n)

theorem rest {edf : B.edfQueue.Sized (n + 2)} {gedf : List GEDFTask}
    {fifo rr : PriorityQueue Handle} {panicked : List Handle} {num clustered uptime : Nat}
    {mutex : Bool} {request : Cpu n → Bool} {tags : Cpu n → SleepTag} {ipi : Cpu n → Nat} :
    WakeFrame s
      { s with
        clusteredEDF := edf, gedf := gedf, prioritizedFIFO := fifo, prioritizedRR := rr,
        panicked := panicked, numTaskInQueue := num, numClusteredTasksInQueue := clustered,
        globalWakeGetMutex := mutex, uptime := uptime, preemptionRequest := request,
        cpuSleepTag := tags, preemptIpi := ipi } :=
  ⟨fun _ => .refl _, rfl, rfl, rfl, rfl, rfl, rfl, rfl, rfl, fun _ _ h => h⟩

theorem refl : WakeFrame s s := rest s

theorem modifyTask {h : Handle} {f : Task → Task}
    (hf : TaskKept (s.task h) (f (s.task h))) : WakeFrame s (s.modifyTask h f) := by
  refine ⟨fun t => ?_, rfl, rfl, rfl, rfl, rfl, rfl, rfl, rfl, fun _ _ h => h⟩
  by_cases ht : t = h
  · subst ht; rw [modifyTask_task_self]; exact hf
  · rw [s.modifyTask_task_of_ne f ht]; exact .refl _

theorem modifyInfo {h : Handle}
    (hf : TaskKept (s.task h) { s.task h with info := f (s.task h).info }) :
    WakeFrame s (s.modifyInfo h f) := modifyTask s hf

theorem pushPreemptionPending (c : Cpu n) (h : Handle) :
    WakeFrame s (s.pushPreemptionPending c h) := by
  refine ⟨fun _ => .refl _, rfl, rfl, rfl, rfl, rfl, rfl, rfl, rfl, fun c' t ht => ?_⟩
  change t ∈ update s.pending c (h :: s.pending c) c'
  by_cases hc : c' = c
  · subst hc; rw [update_self]; exact mem_cons_of_mem _ ht
  · rw [update_of_ne hc]; exact ht

theorem setNeedPreemption (id : Nat) (c : Cpu n) :
    WakeFrame s (s.setNeedPreemption id c) := by
  unfold Shared.setNeedPreemption
  cases s.registry id with
  | none => exact .rest s
  | some h =>
    have hf := modifyInfo s (h := h) (f := fun info => { info with needPreemption := true })
      ⟨rfl, rfl, rfl, rfl, rfl, rfl, rfl, rfl, rfl, rfl⟩
    exact ⟨hf.task, rfl, rfl, rfl, rfl, rfl, rfl, rfl, rfl, fun _ _ h => h⟩

theorem setNeedPreemption_due (id : Nat) (c : Cpu n) :
    (s.setNeedPreemption id c).due = s.due := by
  unfold Shared.setNeedPreemption
  cases s.registry id with
  | none => rfl
  | some h =>
    exact s.due_modifyInfo h (f := fun info => { info with needPreemption := true }) rfl

end

end WakeFrame

/-! ### A step of a call -/

namespace WakeResult

@[reducible] def shared : WakeResult B n → Shared B n
  | next s _ => s
  | done s => s
  | panicked s => s

/-- What the call `w` holds after the step. A call that has panicked keeps what it held. -/
def entries (w : WakeCall n) : WakeResult B n → Ledger (Place n) Handle
  | next _ w' => w'.entries
  | done _ => 0
  | panicked _ => w.entries

end WakeResult

/-- What a call keeps to. Only `Task::wake` claims and counts. The scheduler of panicked tasks
pushes at once, so a call that is past its start is of another scheduler. -/
def WakeCall.Ok (w : WakeCall n) : Prop :=
  match w.pc with
  | .claim | .count _ => w.notifies = true
  | .enter | .setNeedPreemption .. | .sendIpi _ | .unlock | .notify _ => True
  | _ => w.sched ≠ .panicked

def WakeResult.Ok : WakeResult B n → Prop
  | .next _ w => w.Ok
  | _ => True

/-- What is known of a step of the call `w`. -/
structure WakeStepOk (s : Shared B n) (w : WakeCall n) (r : WakeResult B n) : Prop where
  frame : WakeFrame s r.shared
  flow : Flow s r.shared (s.entries + w.entries) (r.shared.entries + r.entries w)
  ok : r.Ok

variable {w : WakeCall n}

variable {s : Shared B n}

variable {r : WakeResult B n}

/-- A step that changes neither the containers nor what the call holds. -/
theorem WakeStepOk.quiet (hframe : WakeFrame s r.shared) (hentries : r.shared.entries = s.entries)
    (hdue : r.shared.due = s.due) (hnum : r.shared.numTaskInQueue = s.numTaskInQueue)
    (hheld : r.entries w = w.entries) (hok : r.Ok) : WakeStepOk s w r := by
  refine ⟨hframe, ?_, hok⟩
  rw [hentries, hheld]
  exact .stay _ hdue hnum

theorem WakeStepOk.read
    (hs : r.shared = s) (hheld : r.entries w = w.entries) (hok : r.Ok) : WakeStepOk s w r := by
  refine .quiet ?_ ?_ ?_ ?_ hheld hok
  · rw [hs]; exact .refl s
  all_goals rw [hs]

theorem WakeStepOk.panicked {w w' : WakeCall n}
    (h : WakeStepOk s w (.next s' w')) (hheld : w'.entries = w.entries) :
    WakeStepOk s w (.panicked s') := by
  refine ⟨h.frame, ?_, trivial⟩
  have hflow : Flow s s' (s.entries + w.entries) (s'.entries + w'.entries) := h.flow
  rw [hheld] at hflow
  exact hflow

/-- A task that is claimed was due no entry and is due one from now on. -/
theorem claim_due {t : Handle}
    (hstate : (s.task t).info.state = .initialized ∨ (s.task t).info.state = .waiting) :
    s.due t = 0 ∧ (s.modifyInfo t fun info => { info with state := .runnable }).due
      = update s.due t 1 := by
  refine ⟨?_, ?_⟩
  · rcases hstate with h | h <;> simp [due, h, State.isActive, State.isDead]
  · rw [s.due_modifyInfo_state t]
    exact congrArg (update s.due t) (if_pos (.inl rfl))

@[simp] theorem shared_goto (w : WakeCall n) (s : Shared B n) (pc : WakePc n) :
    (w.goto s pc).shared = s := rfl

@[simp] theorem shared_finish (w : WakeCall n) (s : Shared B n) : (w.finish s).shared = s := by
  unfold finish
  split <;> rfl

@[simp] theorem entries_finish (w w' : WakeCall n) (s : Shared B n) :
    (w.finish s).entries w' = 0 := by
  unfold finish
  split <;> rfl

theorem ok_finish (w : WakeCall n) (s : Shared B n) : (w.finish s).Ok := by
  unfold finish
  split <;> exact trivial

theorem entries_of_hand {h : Hand} (hw : w.hand = some h) : w.entries = {(.hand h, w.task)} := by
  rw [WakeCall.entries, hw]

theorem entries_of_hand_none (hw : w.hand = none) : w.entries = 0 := by
  rw [WakeCall.entries, hw]

theorem WakeStepOk.push {q : Place n} (hframe : WakeFrame s r.shared)
    (hentries : r.shared.entries = (q, w.task) ::ₘ s.entries)
    (hdue : r.shared.due = s.due) (hnum : r.shared.numTaskInQueue = s.numTaskInQueue)
    (hhand : w.hand = some (.waking w.sched w.notifies))
    (hmove : Move s (.hand (.waking w.sched w.notifies)) q w.task)
    (hheld : r.entries w = 0) (hok : r.Ok) : WakeStepOk s w r := by
  refine ⟨hframe, ?_, hok⟩
  rw [hentries, hheld, entries_of_hand hhand, add_zero, add_entry]
  exact .move s.entries hmove hdue hnum

theorem wakeFrame_enqueue (h : s.enqueue w = some s') :
    WakeFrame s s' ∧ s'.due = s.due ∧ s'.numTaskInQueue = s.numTaskInQueue := by
  obtain ⟨_, _, _, _, _, _, rfl⟩ := enqueue_frame h
  exact ⟨.rest s, rfl, rfl⟩

theorem wakeStepOk_claim (hpc : w.pc = .claim) (hok : w.Ok)
    (hstate : (s.task w.task).info.state = .initialized ∨ (s.task w.task).info.state = .waiting) :
    WakeStepOk s w (w.goto (s.modifyInfo w.task fun info => { info with state := .runnable })
      (.count (s.task w.task).info.panicked)) := by
  have hheld : w.entries = 0 := entries_of_hand_none (by rw [hand, hpc])
  have hdead : (s.task w.task).info.state.isDead = false := by
    rcases hstate with h | h <;> rw [h] <;> rfl
  rw [WakeCall.Ok, hpc] at hok
  obtain ⟨hout, hdue⟩ := claim_due hstate
  refine ⟨.modifyInfo s ⟨rfl, rfl, rfl, rfl, rfl, hdead.symm, rfl, rfl, rfl, rfl⟩, ?_, hok⟩
  rw [hheld, add_zero]
  change Flow s _ s.entries
    (s.entries + {(Place.hand (.claimed (s.task w.task).info.panicked), w.task)})
  rw [add_entry]
  exact .claim s.entries w.task hout hdue rfl

theorem wakeStepOk_count {panicked : Bool} {k : Nat} (hpc : w.pc = .count panicked) (hok : w.Ok)
    (hk : k = if panicked || (s.task w.task).cpuSet.isNone then
      (s.numTaskInQueue + 1) % 2 ^ 32 else s.numTaskInQueue) :
    WakeStepOk s w (.next { s with numTaskInQueue := k }
      { w with
        sched := if panicked then .panicked else (s.task w.task).scheduler
        pc := .enter }) := by
  rw [WakeCall.Ok, hpc] at hok
  refine ⟨.rest s, ?_, trivial⟩
  rw [entries_of_hand (w := w) (h := .claimed panicked) (by rw [hand, hpc])]
  change Flow s _ (s.entries + {(Place.hand (.claimed panicked), w.task)})
    (s.entries + {(Place.hand (.waking (if panicked then .panicked
      else (s.task w.task).scheduler) w.notifies), w.task)})
  rw [show w.notifies = true from hok, add_entry, add_entry]
  exact .count s.entries w.task panicked rfl hk

/-- The start of an EDF `wake_task`: only the deadline and the priority change. -/
theorem wakeStepOk_releaseEdf (relativeDeadline : UInt64)
    (d : Nat) (hhand : w.hand = some (.waking w.sched w.notifies)) (hS : w.sched ≠ .panicked) :
    WakeStepOk s w (w.releaseEdf s relativeDeadline d) := by
  cases hr : w.releaseEdf s relativeDeadline d with
  | next s' w' =>
    obtain ⟨deadline, word, rfl, rfl⟩ := releaseEdf_next hr
    exact .quiet (.modifyTask s ⟨rfl, rfl, rfl, rfl, rfl, rfl, rfl, rfl, rfl, rfl⟩) rfl
      (s.due_modifyTask _ rfl rfl) rfl (entries_of_hand hhand).symm hS
  | done s' =>
    unfold releaseEdf at hr
    dsimp only at hr
    split at hr <;> exact absurd hr (by simp)
  | panicked s' =>
    obtain rfl : s' = s := by
      unfold releaseEdf at hr
      dsimp only at hr
      split at hr
      · exact (WakeResult.panicked.inj hr).symm
      · cases hr
    exact .read rfl rfl trivial

/-- The start of `wake_task`: a panicked task is pushed at once, a deadline is set. -/
theorem wakeStepOk_enter (d : Nat) (hpc : w.pc = .enter) : WakeStepOk s w (w.enter s d) := by
  have hhand : w.hand = some (.waking w.sched w.notifies) := by rw [hand, hpc]
  unfold enter
  split
  case h_1 hs =>
    have hpush : s.enqueue w = some { s with panicked := s.panicked ++ [w.task] } := by
      rw [enqueue, hs]
    refine .push (q := .queue w.sched) ?_ ?_ ?_ ?_ hhand (.enqueue ..) (entries_finish ..)
      (ok_finish ..)
    all_goals rw [shared_finish]
    · exact (wakeFrame_enqueue hpush).1
    · exact entries_enqueue hpush
    · rfl
  case h_2 hs _ =>
    have hS : w.sched ≠ .panicked := by rw [hs]; decide
    exact .read rfl (entries_of_hand hhand).symm hS
  case h_3 hs _ =>
    have hS : w.sched ≠ .panicked := by rw [hs]; decide
    exact .read rfl (entries_of_hand hhand).symm hS
  case h_4 hs _ => exact wakeStepOk_releaseEdf _ d hhand (by rw [hs]; decide)
  case h_5 relativeDeadline _ hs _ =>
    have hrel := wakeStepOk_releaseEdf (s := s) relativeDeadline d hhand (by rw [hs]; decide)
    split
    · next hr =>
      -- the deadline has been stored, whether the set is accepted or not
      obtain ⟨deadline, word, rfl, rfl⟩ := releaseEdf_next hr
      have hnext := hr ▸ hrel
      have hdead := hnext.panicked (entries_of_hand hhand).symm
      split
      · exact hdead
      split
      · exact hnext
      · exact hdead
    · exact hrel
  case h_6 => exact .read rfl rfl trivial

/-- While the call looks for a target it keeps the task in its hands. -/
theorem wakeStepOk_read {pc : WakePc n} (hok : w.Ok)
    (h : WakeReads s w w.pc pc) : WakeStepOk s w (w.goto s pc) := by
  obtain ⟨cpu, task, sched, notifies, priority, deadline, time, pc₀⟩ := w
  cases h with
  | preempts hpc =>
    rcases hpc with hpc | hpc
    all_goals
      subst hpc
      exact .read rfl rfl hok
  | waits hpc =>
    rcases hpc with ⟨_, hpc⟩ | ⟨_, hpc⟩
    all_goals
      subst hpc
      exact .read rfl rfl hok
  | _ => exact .read rfl rfl hok

/-- **A step of a call.** -/
theorem wakeStep_ok {d : Nat} (hok : w.Ok) (h : wakeStep s w d = some r) : WakeStepOk s w r := by
  -- where the call holds nothing, and where it holds the task
  have hempty : w.hand = none → w.entries = 0 := entries_of_hand_none
  have hhand : w.hand = some (.waking w.sched w.notifies) →
      w.entries = {(.hand (.waking w.sched w.notifies), w.task)} := entries_of_hand
  cases wakeStep_cases h with
  | needSched hpc =>
    exact .quiet (.modifyInfo s ⟨rfl, rfl, rfl, rfl, rfl, rfl, rfl, rfl, rfl, rfl⟩) rfl
      (s.due_modifyInfo _ rfl) rfl (hempty (by rw [hand, hpc])).symm trivial
  | ended hpc | notifySelf hpc => exact .read rfl (hempty (by rw [hand, hpc])).symm trivial
  | claim hpc hstate => exact wakeStepOk_claim hpc hok hstate
  | count hpc => exact wakeStepOk_count hpc hok rfl
  | enter hpc => exact wakeStepOk_enter d hpc
  | lock hpc hfree hnext =>
    rw [WakeCall.Ok, hpc] at hok
    have hheld := hhand (by rw [hand, hpc])
    rcases hnext with rfl | rfl
    all_goals exact .quiet (.rest s) rfl rfl rfl hheld.symm hok
  | read hread => exact wakeStepOk_read hok hread
  | unwrapNone | refused => exact .quiet (.rest s) rfl rfl rfl rfl trivial
  | @pushPending target c hpc =>
    rw [WakeCall.Ok, hpc] at hok
    exact .push (q := .pending c) (.pushPreemptionPending s c w.task)
      (s.entries_pushPreemptionPending c w.task) rfl rfl (by rw [hand, hpc])
      (.request hok w.notifies c w.task) rfl trivial
  | @setNeedPreemption target c hpc =>
    obtain ⟨_, hframe⟩ := s.setNeedPreemption_frame (s.task target).id c
    refine .quiet (.setNeedPreemption s _ c) ?_ (WakeFrame.setNeedPreemption_due ..) ?_
      (hempty (by rw [hand, hpc])).symm trivial
    · rw [shared_goto, hframe]; rfl
    · rw [shared_goto, hframe]
  | sendIpi hpc =>
    exact .quiet (.rest s) rfl rfl rfl (hempty (by rw [hand, hpc])).symm trivial
  | enqueue hpc hpush =>
    obtain ⟨hframe, hdue, hnum⟩ := wakeFrame_enqueue hpush
    exact .push (q := .queue w.sched) hframe (entries_enqueue hpush) hdue hnum
      (by rw [hand, hpc]) (.enqueue ..) rfl trivial
  | unlock hpc =>
    have hheld := hempty (by rw [hand, hpc])
    refine .quiet ?_ ?_ ?_ ?_ ((entries_finish ..).trans hheld.symm) (ok_finish ..)
    all_goals rw [shared_finish]
    · exact .rest s
    all_goals rfl
  | @notify seen _ s' hpc _ hwake | @notified seen s' _ hpc _ hwake =>
    obtain ⟨tags, htags⟩ := s.wakeUp_tags 0 seen
    rw [hwake] at htags
    obtain rfl : s' = _ := htags
    exact .quiet (.rest s) rfl rfl rfl (hempty (by rw [hand, hpc])).symm trivial

/-! ### Popping a task -/

namespace Shared

variable {pick : List GEDFTask → Nat}

variable {s s' : Shared B n}

variable {c : Cpu n} {S : Sched} {t : Handle}

section

variable (h : s.popQueue c pick S = some (t, s'))

include h

/-- A pop touches the run queues and the counter of clustered tasks, nothing else. -/
theorem popQueue_frame : ∃ edf gedf fifo rr panicked clustered, s' = { s with
        clusteredEDF := edf, gedf := gedf, prioritizedFIFO := fifo, prioritizedRR := rr,
        panicked := panicked, numClusteredTasksInQueue := clustered } := by
  cases S with
  | panicked =>
    simp only [popQueue] at h
    split at h
    · cases h
    · cases h
      exact ⟨_, _, _, _, _, _, rfl⟩
  | _ =>
    obtain ⟨p, -, hp⟩ := map_eq_some_iff.mp h
    cases hp
    exact ⟨_, _, _, _, _, _, rfl⟩

theorem popQueue_perm : (s.queued S).Perm (t :: s'.queued S) := by
  cases S with
  | clusteredEDF =>
    obtain ⟨⟨t', q⟩, hpop, hp⟩ := map_eq_some_iff.mp h
    cases hp
    exact AffinityQueue.Sized.vals_popForCpu_perm hpop
  | gedf =>
    obtain ⟨e, he, hp⟩ := map_eq_some_iff.mp h
    cases hp
    have hmem : e ∈ s.gedf := mem_of_mem_filter (mem_of_getElem? he)
    exact (perm_cons_erase hmem).map GEDFTask.task
  | prioritizedFIFO | prioritizedRR =>
    obtain ⟨⟨t', q⟩, hpop, hp⟩ := map_eq_some_iff.mp h
    cases hp
    exact List.Perm.of_eq (PriorityQueue.pop_entries hpop)
  | panicked =>
    simp only [popQueue] at h
    split at h
    · cases h
    rename_i hq
    cases h
    exact List.Perm.of_eq hq

theorem popQueue_of_ne {S' : Sched} (hS : S' ≠ S) : s'.queued S' = s.queued S' := by
  cases S with
  | panicked =>
    simp only [popQueue] at h
    split at h
    · cases h
    · cases h
      cases S' <;> first | rfl | exact absurd rfl hS
  | _ =>
    obtain ⟨p, -, hp⟩ := map_eq_some_iff.mp h
    cases hp
    cases S' <;> first | rfl | exact absurd rfl hS

theorem entries_popQueue : s.entries = (.queue S, t) ::ₘ s'.entries := by
  have hsum := sum_queued_cons (n := n) (popQueue_perm h) fun S' hS' => (popQueue_of_ne h hS').symm
  obtain ⟨_, _, _, _, _, _, rfl⟩ := popQueue_frame h
  rw [entries, hsum, cons_add]
  rfl

end

/-- No run queue holds a task that has ended. -/
def NoDead (s : Shared B n) : Prop :=
  ∀ S, ∀ t ∈ s.queued S, (s.task t).info.state.isDead = false

theorem getNext_cases {s : Shared B n} (hlive : s.NoDead) (c : Cpu n) (ensured : Bool)
    (pick : List GEDFTask → Nat) (S : Sched) :
    (s.popQueue c pick S = none ∧ s.getNext c ensured pick S = (none, s)) ∨
      ∃ t s', s.popQueue c pick S = some (t, s') ∧
        s.getNext c ensured pick S = (some t, s'.markTaken c ensured t) := by
  cases hpop : s.popQueue c pick S with
  | none => exact .inl ⟨rfl, by rw [getNext, popLive, hpop]⟩
  | some p =>
    obtain ⟨t, s'⟩ := p
    have hdead : (s'.task t).info.state.isDead = false := by
      have hmem : t ∈ s.queued S := (popQueue_perm hpop).mem_iff.mpr mem_cons_self
      obtain ⟨_, _, _, _, _, _, rfl⟩ := popQueue_frame hpop
      exact hlive S t hmem
    refine .inr ⟨t, s', rfl, ?_⟩
    rw [getNext, popLive, hpop]
    dsimp only
    rw [if_neg (by rw [hdead]; decide)]

/-- `find_map` stops at the first queue that has a task for the CPU. -/
theorem findNext_cases {s : Shared B n} (hlive : s.NoDead) (c : Cpu n) (ensured : Bool)
    (pick : List GEDFTask → Nat) (Ss : List Sched) :
    ((∀ S ∈ Ss, s.popQueue c pick S = none) ∧ findNext c ensured pick Ss s = (none, s)) ∨
      ∃ S ∈ Ss, ∃ t s', s.popQueue c pick S = some (t, s') ∧
        findNext c ensured pick Ss s = (some t, s'.markTaken c ensured t) := by
  induction Ss with
  | nil => exact .inl ⟨by simp, rfl⟩
  | cons S Ss ih =>
    rcases getNext_cases hlive c ensured pick S with ⟨hnone, hget⟩ | ⟨t, s', hpop, hget⟩
    · rcases ih with ⟨hall, hfind⟩ | ⟨S', hS', t, s', hpop, hfind⟩
      · refine .inl ⟨forall_mem_cons.mpr ⟨hnone, hall⟩, ?_⟩
        rw [findNext, hget]
        exact hfind
      · refine .inr ⟨S', mem_cons_of_mem _ hS', t, s', hpop, ?_⟩
        rw [findNext, hget]
        exact hfind
    · refine .inr ⟨S, mem_cons_self, t, s', hpop, ?_⟩
      rw [findNext, hget]

end Shared

/-- **The steps of `get_next_task`**, when no queued task has ended. -/
inductive GetNextCase (s : Shared B n) (c : Cpu n) (ensured : Bool)
    (pick : List GEDFTask → Nat) : GetNextPc → GetNextResult B n → Prop
  | lock (hfree : s.globalWakeGetMutex = false) :
      GetNextCase s c ensured pick .lock (.next (s.withMutex true) .pop)
  | pop {S : Sched} {t : Handle} {s' : Shared B n} (hpop : s.popQueue c pick S = some (t, s')) :
      GetNextCase s c ensured pick .pop (.next (s'.markTaken c ensured t)
        (if S = .clusteredEDF then .unlock (some t) else .decrement t))
  | empty (hnone : ∀ S, S ≠ .clusteredEDF → s.popQueue c pick S = none)
      (hclustered : 0 < s.numClusteredTasksInQueue → s.popQueue c pick .clusteredEDF = none) :
      GetNextCase s c ensured pick .pop (.next s (.unlock none))
  | decrement (t : Handle) :
      GetNextCase s c ensured pick (.decrement t) (.next
        { s with numTaskInQueue := (s.numTaskInQueue + 2 ^ 32 - 1) % 2 ^ 32 } (.unlock (some t)))
  | unlock (t : Option Handle) :
      GetNextCase s c ensured pick (.unlock t) (.done (s.withMutex false) t)

theorem mem_clusteredSchedulers : S ∈ clusteredSchedulers ↔ S = .clusteredEDF := by
  cases S <;> decide

theorem mem_globalSchedulers : S ∈ globalSchedulers ↔ S ≠ .clusteredEDF := by
  cases S <;> decide

/-- The result of `get_next_task` when the clustered queue gives nothing. -/
def afterGlobal : Option Handle × Shared B n → Option (GetNextResult B n)
  | (some t, s) => some (.next s (.decrement t))
  | (none, s) => some (.next s (.unlock none))

theorem getNextStep_cases (hlive : s.NoDead) {c : Cpu n} {ensured : Bool}
    {pick : List GEDFTask → Nat} {g : GetNextPc} {r : GetNextResult B n}
    (h : getNextStep s c ensured pick g = some r) : GetNextCase s c ensured pick g r := by
  cases g with
  | lock =>
    rw [getNextStep] at h
    split at h
    · cases h
    rename_i hfree
    cases h
    exact .lock (by simpa using hfree)
  | pop =>
    -- what follows when the clustered queue gives nothing
    have hrest (hnone : 0 < s.numClusteredTasksInQueue → s.popQueue c pick .clusteredEDF = none)
        (h : afterGlobal (findNext c ensured pick globalSchedulers s) = some r) :
        GetNextCase s c ensured pick .pop r := by
      rcases findNext_cases hlive c ensured pick globalSchedulers with
        ⟨hall, hfind⟩ | ⟨S, hS, t, s', hpop, hfind⟩
      · rw [hfind] at h
        cases h
        exact .empty (fun S hS => hall S (mem_globalSchedulers.mpr hS)) hnone
      rw [hfind] at h
      cases h
      have hcase : GetNextCase s c ensured pick .pop _ := .pop hpop
      rw [if_neg (mem_globalSchedulers.mp hS)] at hcase
      exact hcase
    rw [getNextStep] at h
    by_cases hpos : 0 < s.numClusteredTasksInQueue
    · rw [if_pos hpos] at h
      rcases findNext_cases hlive c ensured pick clusteredSchedulers with
        ⟨hall, hfind⟩ | ⟨S, hS, t, s', hpop, hfind⟩
      · rw [hfind] at h
        exact hrest (fun _ => hall _ (mem_clusteredSchedulers.mpr rfl)) h
      rw [hfind] at h
      cases h
      have hcase : GetNextCase s c ensured pick .pop _ := .pop hpop
      rw [if_pos (mem_clusteredSchedulers.mp hS)] at hcase
      exact hcase
    · rw [if_neg hpos] at h
      exact hrest (fun hlt => absurd hlt hpos) h
  | decrement t =>
    cases h
    exact .decrement t
  | unlock t =>
    cases h
    exact .unlock t

end Awkernel
