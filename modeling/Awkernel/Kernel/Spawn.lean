import Awkernel.Kernel.State
import Awkernel.Lib.TransitionSystem

/-!
# Spawning a task

`Tasks::spawn`, which runs under the lock of `TASKS`: it finds an id, normalises the CPU set
of a clustered task and registers the task. A new task is in no queue; `inner_spawn` then
calls `Task::wake`.

`none` stands for a panic: the overflow of `id += 1`, or the assertion of `combine_priority`
on 32-bit targets.
-/

namespace Awkernel

variable {B : Build} {n : Nat} {dagInfo : Option DagInfo} {ty : SchedulerType}

/-- The CPU set `Tasks::spawn` stores: the worker CPUs of the given one, or all of them if
none is left. -/
def SchedulerType.normalize (numCpus : Nat) : SchedulerType → SchedulerType
  | .clusteredEDF relativeDeadline set =>
    .clusteredEDF relativeDeadline
      (if maskedWorkers set numCpus = ∅ then allWorkers numCpus else maskedWorkers set numCpus)
  | ty => ty

/-- `SchedulerType::cpu_set`. -/
def SchedulerType.cpuSet : SchedulerType → Option CpuSet
  | .clusteredEDF _ set => some set
  | _ => none

/-- The search for an unused id. The id grows in every round, so `fuel = 2 ^ 32` rounds are
as good as the unbounded loop. -/
def findId (registry : Nat → Option Handle) : Nat → Nat → Option Nat
  | 0, _ => none
  | fuel + 1, id =>
    let id := if id = 0 then 1 else id
    if (registry id).isNone then some id
    else if id + 1 < 2 ^ 32 then findId registry fuel (id + 1) else none

/-- The task `Tasks::spawn` inserts. -/
def newTask (B : Build) (n id : Nat) (ty : SchedulerType) (dagInfo : Option DagInfo)
    (now : Nat) : Option Task :=
  (spawnPriority B.width ty).map fun priority =>
    { id := id
      scheduler := getScheduler ty
      priority := priority
      cpuSet := (ty.normalize (n + 2)).cpuSet
      futureLocked := false
      futureTerminated := false
      info :=
        { state := .initialized
          schedulerType := ty.normalize (n + 2)
          numPreempt := 0
          lastExecuted := now
          absoluteDeadline := none
          needSched := false
          needPreemption := false
          panicked := false
          dagInfo := dagInfo
          thread := none } }

/-- `Tasks::spawn`. The new task gets the next handle. -/
def Shared.spawn (s : Shared B n) (ty : SchedulerType) (dagInfo : Option DagInfo) :
    Option (Shared B n) :=
  (findId s.registry (2 ^ 32) s.candidateId).bind fun id =>
    (newTask B n id ty dagInfo s.uptime).map fun task =>
      { s with
        task := Function.update s.task s.numHandles task
        numHandles := s.numHandles + 1
        registry := Function.update s.registry id (some s.numHandles)
        candidateId := id }

/-- The id found is in range and unused. Induction on the rounds left: the id stays in range
because the loop ends where it would leave it. -/
theorem findId_spec {registry : Nat → Option Handle} {fuel start id : Nat}
    (h : findId registry fuel start = some id) (hstart : start < 2 ^ 32) :
    registry id = none ∧ id ≠ 0 ∧ id < 2 ^ 32 := by
  induction fuel generalizing start with
  | zero => cases h
  | succ fuel ih =>
    rw [findId] at h
    have hpos : (if start = 0 then 1 else start) ≠ 0 := by split <;> omega
    have hlt : (if start = 0 then 1 else start) < 2 ^ 32 := by split <;> omega
    generalize (if start = 0 then 1 else start) = next at h hpos hlt
    split at h
    · next hfree =>
      cases h
      exact ⟨Option.isNone_iff_eq_none.mp hfree, hpos, hlt⟩
    · split at h
      · next hnext => exact ih h hnext
      · cases h

theorem newTask_spec {id now : Nat} {task : Task} (h : newTask B n id ty dagInfo now = some task) :
    task.id = id ∧ (task.scheduler = .clusteredEDF ↔ task.cpuSet.isSome) ∧
      task.futureLocked = false ∧ task.futureTerminated = false ∧
      task.info.state = .initialized ∧ task.info.thread = none ∧
      getScheduler task.info.schedulerType = task.scheduler ∧ task.info.panicked = false := by
  obtain ⟨priority, -, rfl⟩ := Option.map_eq_some_iff.mp h
  refine ⟨rfl, ?_, rfl, rfl, rfl, rfl, ?_, rfl⟩
  · cases ty <;> simp [getScheduler, SchedulerType.normalize, SchedulerType.cpuSet]
  · cases ty <;> rfl

theorem Shared.spawn_spec {s s' : Shared B n} (h : s.spawn ty dagInfo = some s') :
    ∃ id task, findId s.registry (2 ^ 32) s.candidateId = some id ∧
      newTask B n id ty dagInfo s.uptime = some task ∧
      s' = { s with
        task := Function.update s.task s.numHandles task
        numHandles := s.numHandles + 1
        registry := Function.update s.registry id (some s.numHandles)
        candidateId := id } := by
  obtain ⟨id, hid, h⟩ := Option.bind_eq_some_iff.mp h
  obtain ⟨task, htask, rfl⟩ := Option.map_eq_some_iff.mp h
  exact ⟨id, task, hid, htask, rfl⟩

/-! ### The ids over a whole history

`spawn` and `remove` alone, on the candidate and the registry. -/

/-- The fields of `Tasks`. -/
structure Tasks where
  candidateId : Nat
  registry : Nat → Option Handle

namespace Tasks

inductive Call
  | spawn (task : Handle)
  | remove (id : Nat)

def new : Tasks := ⟨1, fun _ => none⟩

/-- `Tasks::spawn` and `Tasks::remove`; `none` is the overflow of `id += 1`. -/
def step (σ : Tasks) : Call → Option Tasks
  | .spawn task =>
    (findId σ.registry (2 ^ 32) σ.candidateId).map fun id =>
      ⟨id, Function.update σ.registry id (some task)⟩
  | .remove id => some { σ with registry := Function.update σ.registry id none }

end Tasks

/-- The spawn of the kernel is this one. -/
theorem Shared.spawn_ids {s s' : Shared B n} (h : s.spawn ty dagInfo = some s') :
    Tasks.step ⟨s.candidateId, s.registry⟩ (.spawn s.numHandles) =
      some ⟨s'.candidateId, s'.registry⟩ := by
  obtain ⟨id, task, hid, -, rfl⟩ := s.spawn_spec h
  exact congrArg (Option.map _) hid

variable {registry : Nat → Option Handle} {start id : Nat}

/-- The loop ends if an id from `start` on is unused: it does not run past it. -/
theorem findId_isSome (hid : registry id = none) (hle : start ≤ id) (hpos : id ≠ 0)
    (hlt : id < 2 ^ 32) {fuel : Nat} (hfuel : id < start + fuel) :
    (findId registry fuel start).isSome := by
  induction fuel generalizing start with
  | zero => omega
  | succ fuel ih =>
    rw [findId]
    have hle' : (if start = 0 then 1 else start) ≤ id := by split <;> omega
    have hge : start ≤ if start = 0 then 1 else start := by split <;> omega
    generalize (if start = 0 then 1 else start) = next at hle' hge
    split
    · rfl
    rename_i hused
    have hne : next ≠ id := by
      rintro rfl
      exact hused (Option.isNone_iff_eq_none.mpr hid)
    rw [if_pos (by omega)]
    exact ih (by omega) (by omega)

/-- The search goes upwards. -/
theorem le_of_findId {fuel : Nat} (h : findId registry fuel start = some id) : start ≤ id := by
  induction fuel generalizing start with
  | zero => cases h
  | succ fuel ih =>
    rw [findId] at h
    have hge : start ≤ if start = 0 then 1 else start := by split <;> omega
    generalize (if start = 0 then 1 else start) = next at h hge
    split at h
    · cases h
      exact hge
    · obtain ⟨-, h⟩ := Option.ite_none_right_eq_some.mp h
      have := ih h
      omega

namespace Tasks

open TransitionSystem

variable {σ : Tasks}

/-- The candidate is an id in every state of a history. -/
theorem candidateId_spec (h : Reaches step (fun _ _ => True) new σ) :
    σ.candidateId ≠ 0 ∧ σ.candidateId < 2 ^ 32 := by
  refine h.invariant (I := fun σ => σ.candidateId ≠ 0 ∧ σ.candidateId < 2 ^ 32) (by decide) ?_
  intro σ a σ' hI _ hs
  cases a with
  | spawn task =>
    obtain ⟨id, hid, rfl⟩ := Option.map_eq_some_iff.mp hs
    exact (findId_spec hid hI.2).2
  | remove id =>
    cases hs
    exact hI

/-- **An id is found** exactly if one from the candidate up to `u32::MAX` is unused, in every
history: the loop then ends without an overflow, and the id is not zero and not in use. -/
theorem spawn_finds_id_iff (h : Reaches step (fun _ _ => True) new σ) (task : Handle) :
    (∃ id, id ≠ 0 ∧ id < 2 ^ 32 ∧ σ.registry id = none ∧
      σ.step (.spawn task) = some ⟨id, Function.update σ.registry id (some task)⟩) ↔
    ∃ id, σ.candidateId ≤ id ∧ id < 2 ^ 32 ∧ σ.registry id = none := by
  obtain ⟨hcandidate, hbound⟩ := candidateId_spec h
  constructor
  · rintro ⟨id, -, hlt, hunused, hstep⟩
    obtain ⟨found, hfound, heq⟩ := Option.map_eq_some_iff.mp hstep
    cases heq
    exact ⟨id, le_of_findId hfound, hlt, hunused⟩
  · rintro ⟨free, hle, hlt, hnone⟩
    have hfuel : free < σ.candidateId + 2 ^ 32 := by omega
    obtain ⟨id, hid⟩ := Option.isSome_iff_exists.mp (findId_isSome hnone hle (by omega) hlt hfuel)
    obtain ⟨hunused, hpos, hlt'⟩ := findId_spec hid hbound
    exact ⟨id, hpos, hlt', hunused, congrArg (Option.map _) hid⟩

/-- Three tasks are spawned and the second one is removed. The candidate is then the id of the
third one, which is live, and the search goes on to 4. -/
theorem spawn_finds_id_iff_fourth : ∃ σ, Reaches step (fun _ _ => True) new σ ∧
    σ.registry 1 = some 0 ∧ σ.registry σ.candidateId = some 2 ∧
    ∃ id, id ≠ 0 ∧ id < 2 ^ 32 ∧ σ.registry id = none ∧
      σ.step (.spawn 3) = some ⟨id, Function.update σ.registry id (some 3)⟩ := by
  refine Reaches.exists_of_run_imp [.spawn 0, .spawn 1, .spawn 2, .remove 2] (fun σ =>
    σ.registry 1 = some 0 ∧ σ.candidateId = 3 ∧ σ.registry 3 = some 2 ∧ σ.registry 4 = none)
    (by decide) ?_
  rintro σ h ⟨hfirst, hcandidate, hthird, hfree⟩
  refine ⟨hfirst, by rw [hcandidate]; exact hthird, (spawn_finds_id_iff h 3).mpr ⟨4, ?_⟩⟩
  exact ⟨by omega, by decide, hfree⟩

/-- One task is live, with the candidate as its id. -/
def only (id : Nat) : Tasks := ⟨id, Function.update (fun _ => none) id (some 0)⟩

/-- Spawning a task and then removing the one before it moves the candidate up by one, so it
reaches every id. -/
theorem reaches_only (k : Nat) (hk : k + 1 < 2 ^ 32) :
    Reaches step (fun _ _ => True) new (only (k + 1)) := by
  induction k with
  | zero => exact .tail .refl trivial (a := .spawn 0) (by simp [step, findId, new, only])
  | succ k ih =>
    have hspawn : (only (k + 1)).step (.spawn 0) =
        some ⟨k + 2, Function.update (only (k + 1)).registry (k + 2) (some 0)⟩ := by
      simp [step, findId, only]
      omega
    refine .tail (.tail (ih (by omega)) trivial hspawn) trivial (a := .remove (k + 1)) ?_
    simp only [step, only, Option.some.injEq, Tasks.mk.injEq, true_and]
    rw [Function.update_comm (by omega), Function.update_idem, Function.update_eq_self]

/-- **The id overflows.** In a history in which at most two tasks are live at a time, only the
task with the id `u32::MAX` is left, and the next `spawn` computes `u32::MAX + 1`. -/
theorem spawn_overflows : Reaches step (fun _ _ => True) new (only (2 ^ 32 - 1)) ∧
    (only (2 ^ 32 - 1)).step (.spawn 0) = none :=
  ⟨reaches_only (2 ^ 32 - 2) (by decide), by simp [step, findId, only]⟩

end Tasks

end Awkernel
