import Awkernel.Task
import Mathlib.Data.List.MinMax

/-!
# The preemption decision

`invoke_preemption` of the schedulers, on a frozen view of what it reads: `RUNNING`,
`TASKS` and the preemption-pending heaps. GEDF, PrioritizedFIFO and PrioritizedRR share
one text (`invokePreemption`); ClusteredEDF scans the task's own CPU set and stops at an
idle CPU (`invokePreemptionClustered`).

Both look for the CPU whose occupant, the larger of its running task and its highest
pending task, is least. The purpose of the code is stated apart from either text, as
`Requests`: some CPU of the set carries a least occupant that the woken task preempts.

* `invokePreemption_spec`: the first text decides `Requests` over the busy CPUs.
* `invokePreemptionClustered_spec`: the second decides it over the CPU set, if no CPU of
  the set is idle or runs the task.
-/

namespace Awkernel

open List Option

/-- What a decision reads: the task table, `RUNNING`, `TASKS` and the pending heaps. -/
structure PreemptionView (N : Nat) where
  task : Handle → Task
  running : Fin N → Nat
  registry : Nat → Option Handle
  pending : Fin N → List Handle

/-- The outcome of a decision. `panicked` is the failed `unwrap` of an empty minimum. -/
inductive Decision (N : Nat)
  | enqueue
  | preempt (target : Handle) (cpu : Fin N)
  | panicked
  deriving DecidableEq

namespace PreemptionView

variable {N : Nat} (v : PreemptionView N)

/-- The order of the tasks behind the handles. -/
def key (h : Handle) : ℕ ×ₗ ℕ := (v.task h).key

/-- `peek_preemption_pending`. -/
def peekPreemptionPending (c : Fin N) : Option Handle := (v.pending c).argmax v.key

/-- `core::cmp::max`, which returns its second argument on a tie. -/
def maxTask (a b : Handle) : Handle := if v.key a ≤ v.key b then b else a

/-- The common end of the decisions: `task.preempts(&target_task)`. -/
def conclude (t : Handle) (target : Handle × Fin N) : Decision N :=
  if (v.task t).preempts (v.task target.1) then .preempt target.1 target.2 else .enqueue

/-! ### The two texts -/

/-- `get_tasks_running` without the idle CPUs. -/
def tasksRunning : List (Fin N) := (finRange N).filter fun c => v.running c ≠ 0

/-- The closure of the `filter_map`. -/
def candidate (c : Fin N) : Option (Handle × Fin N) :=
  (v.registry (v.running c)).map fun t =>
    (v.maxTask t ((v.peekPreemptionPending c).getD t), c)

/-- `invoke_preemption` of GEDF and PrioritizedFIFO, `invoke_preemption_wake` of
PrioritizedRR. The minimum is over pairs, so the CPU id breaks ties. -/
def invokePreemption (t : Handle) : Decision N :=
  if v.tasksRunning.isEmpty || v.tasksRunning.any fun c => v.running c == (v.task t).id then
    .enqueue
  else
    match (v.tasksRunning.filterMap v.candidate).argmin
        fun x => (toLex (v.key x.1, x.2) : (ℕ ×ₗ ℕ) ×ₗ Fin N) with
    | none => .panicked
    | some target => v.conclude t target

/-- `target_task` of one round of the ClusteredEDF loop; `none` is its `return false`. -/
def targetTask : Option Handle → Option Handle → Option Handle
  | some running, some pending => some (v.maxTask running pending)
  | some running, none => some running
  | none, some pending => some pending
  | none, none => none

def clusteredTarget (c : Fin N) : Option Handle :=
  v.targetTask (v.registry (v.running c)) (v.peekPreemptionPending c)

/-- The update of `victim` at the end of a round. -/
def updateVictim (victim : Option (Handle × Fin N)) (x : Handle × Fin N) :
    Option (Handle × Fin N) :=
  match victim with
  | some lowest => if v.key lowest.1 ≤ v.key x.1 then some lowest else some x
  | none => some x

/-- The loop of ClusteredEDF over the CPU set. The outer `none` is a `return false`. -/
def scanVictim (t : Handle) :
    List (Fin N) → Option (Handle × Fin N) → Option (Option (Handle × Fin N))
  | [], victim => some victim
  | c :: cs, victim =>
    if v.running c = (v.task t).id then none
    else if v.running c = 0 then none
    else
      match v.clusteredTarget c with
      | none => none
      | some target => scanVictim t cs (v.updateVictim victim (target, c))

/-- `cpu_set.iter()`: the CPUs of the set in ascending order. -/
def cpuSetIter (N : Nat) (set : CpuSet) : List (Fin N) :=
  (finRange N).filter fun c => (c : Nat) ∈ set

/-- `ClusteredEDFScheduler::invoke_preemption`. -/
def invokePreemptionClustered (t : Handle) (set : CpuSet) : Decision N :=
  match v.scanVictim t (cpuSetIter N set) none with
  | some (some victim) => v.conclude t victim
  | _ => .enqueue

/-! ### What a decision is for -/

/-- The tasks that have a claim on a CPU: the one that runs there and those pending. -/
def Contender (c : Fin N) (x : Handle) : Prop :=
  v.registry (v.running c) = some x ∨ x ∈ v.pending c

/-- `max(running task, highest pending task)`. -/
def IsOccupant (c : Fin N) (x : Handle) : Prop :=
  v.Contender c x ∧ ∀ y, v.Contender c y → v.key y ≤ v.key x

/-- `x` on `c` is a least occupant over the CPUs of `S`. -/
structure IsVictim (S : Set (Fin N)) (x : Handle) (c : Fin N) : Prop where
  mem : c ∈ S
  occupant : v.IsOccupant c x
  le : ∀ c' ∈ S, ∀ y, v.IsOccupant c' y → v.key x ≤ v.key y

/-- **The purpose of a decision.** The woken task preempts a least occupant of `S`. -/
def Requests (t : Handle) (S : Set (Fin N)) : Prop :=
  ∃ x c, v.IsVictim S x c ∧ (v.task t).preempts (v.task x)

variable {S : Set (Fin N)} {x r : Handle} {c : Fin N} {p : Handle × Fin N}

/-- Which least occupant is looked at makes no difference to the request. -/
theorem requests_iff_preempts (t : Handle) (h : v.IsVictim S x c) :
    v.Requests t S ↔ (v.task t).preempts (v.task x) := by
  refine ⟨?_, fun hpre => ⟨x, c, h, hpre⟩⟩
  rintro ⟨y, d, hy, hpre⟩
  exact (Prod.Lex.monotone_fst _ _ (h.le d hy.mem y hy.occupant)).trans_lt hpre

/-- The end of a decision, once its minimum is known to be a least occupant. -/
theorem conclude_cases {x : Handle × Fin N} (t : Handle) (h : v.IsVictim S x.1 x.2) :
    v.conclude t x = .preempt x.1 x.2 ∧ v.Requests t S ∨
      v.conclude t x = .enqueue ∧ ¬ v.Requests t S := by
  rw [v.requests_iff_preempts t h]
  by_cases hpre : (v.task t).preempts (v.task x.1)
  · exact .inl ⟨if_pos hpre, hpre⟩
  · exact .inr ⟨if_neg hpre, hpre⟩

theorem peekPreemptionPending_mem (h : v.peekPreemptionPending c = some x) : x ∈ v.pending c :=
  argmax_mem h

theorem key_le_maxTask_left (a b : Handle) : v.key a ≤ v.key (v.maxTask a b) := by
  unfold maxTask
  split
  · next h => exact h
  · exact le_refl _

theorem key_le_maxTask_right (a b : Handle) : v.key b ≤ v.key (v.maxTask a b) := by
  unfold maxTask
  split
  · exact le_refl _
  · next h => exact le_of_lt (not_le.mp h)

theorem maxTask_eq (a b : Handle) : v.maxTask a b = a ∨ v.maxTask a b = b := by
  unfold maxTask
  split
  · exact .inr rfl
  · exact .inl rfl

/-- On a CPU whose running task is registered, the larger of the two is the occupant. -/
theorem isOccupant_maxTask (hr : v.registry (v.running c) = some r) :
    v.IsOccupant c (v.maxTask r ((v.peekPreemptionPending c).getD r)) := by
  cases hp : v.peekPreemptionPending c with
  | none =>
    have hnil : v.pending c = [] := argmax_eq_none.mp hp
    have hself : v.maxTask r r = r := (v.maxTask_eq r r).elim id id
    rw [getD_none, hself]
    refine ⟨.inl hr, fun y hy => ?_⟩
    rcases hy with hy | hy
    · exact le_of_eq (congrArg v.key (some.inj (hy.symm.trans hr)))
    · exact absurd hy (by simp [hnil])
  | some p =>
    rw [getD_some]
    refine ⟨?_, fun y hy => ?_⟩
    · rcases v.maxTask_eq r p with h | h
      · exact .inl (by rw [h]; exact hr)
      · exact .inr (by rw [h]; exact v.peekPreemptionPending_mem hp)
    rcases hy with hy | hy
    · rw [some.inj (hy.symm.trans hr)]
      exact v.key_le_maxTask_left r p
    · exact le_trans (le_of_mem_argmax hy hp) (v.key_le_maxTask_right r p)

/-- A least pair of a list that has one occupant for every CPU of `S`. -/
theorem isVictim_of_least {L : List (Handle × Fin N)} {x : Handle × Fin N}
    (hL : ∀ p ∈ L, p.2 ∈ S ∧ v.IsOccupant p.2 p.1) (hcover : ∀ c ∈ S, ∃ p ∈ L, p.2 = c)
    (hx : x ∈ L) (hle : ∀ p ∈ L, v.key x.1 ≤ v.key p.1) : v.IsVictim S x.1 x.2 := by
  obtain ⟨hmem, hocc⟩ := hL x hx
  refine ⟨hmem, hocc, fun c' hc' y hy => ?_⟩
  obtain ⟨p, hp, rfl⟩ := hcover c' hc'
  exact le_trans (hle p hp) (hy.2 p.1 (hL p hp).2.1)

/-! ### The first text decides the request over the busy CPUs -/

/-- Every busy CPU runs a registered task: no task has completed since it was read. -/
def Registered : Prop := ∀ c, v.running c ≠ 0 → (v.registry (v.running c)).isSome

theorem mem_tasksRunning : c ∈ v.tasksRunning ↔ v.running c ≠ 0 := by
  simp [tasksRunning]

/-- The pairs the minimum is taken over: one occupant for each busy CPU. -/
theorem mem_candidates (h : p ∈ v.tasksRunning.filterMap v.candidate) :
    p.2 ∈ {c | v.running c ≠ 0} ∧ v.IsOccupant p.2 p.1 := by
  obtain ⟨c, hc, hp⟩ := mem_filterMap.mp h
  obtain ⟨r, hr, rfl⟩ := map_eq_some_iff.mp hp
  exact ⟨v.mem_tasksRunning.mp hc, v.isOccupant_maxTask hr⟩

theorem exists_candidate (hreg : v.Registered) (hc : v.running c ≠ 0) :
    ∃ p ∈ v.tasksRunning.filterMap v.candidate, p.2 = c := by
  obtain ⟨r, hr⟩ := isSome_iff_exists.mp (hreg c hc)
  refine ⟨(v.maxTask r ((v.peekPreemptionPending c).getD r), c), ?_, rfl⟩
  refine mem_filterMap.mpr ⟨c, v.mem_tasksRunning.mpr hc, ?_⟩
  rw [candidate, hr]
  rfl

/-- **`invoke_preemption` of GEDF, PrioritizedFIFO and PrioritizedRR.** It never panics, and
it asks for a preemption exactly when the task is not running and is requested over the
busy CPUs; the CPU it names carries a least occupant. -/
theorem invokePreemption_spec (hreg : v.Registered) (t : Handle) :
    let wanted := (∀ c, v.running c ≠ 0 → v.running c ≠ (v.task t).id) ∧
      v.Requests t {c | v.running c ≠ 0}
    (∃ x c, v.invokePreemption t = .preempt x c ∧ v.IsVictim {c | v.running c ≠ 0} x c ∧
      wanted) ∨ v.invokePreemption t = .enqueue ∧ ¬ wanted := by
  intro wanted
  unfold invokePreemption
  split
  · next hstop =>
    refine .inr ⟨rfl, fun hw => ?_⟩
    rcases Bool.or_eq_true_iff.mp hstop with hidle | hruns
    · -- every CPU is idle, so there is no occupant to preempt
      obtain ⟨-, x, c, hx, -⟩ := hw
      have hmem := v.mem_tasksRunning.mpr hx.mem
      rw [isEmpty_iff.mp hidle] at hmem
      cases hmem
    · obtain ⟨c, hc, heq⟩ := any_eq_true.mp hruns
      exact hw.1 c (v.mem_tasksRunning.mp hc) (beq_iff_eq.mp heq)
  · next hgo =>
    obtain ⟨hbusy, hnot⟩ := Bool.or_eq_false_iff.mp (Bool.not_eq_true _ ▸ hgo)
    have hfree : ∀ c, v.running c ≠ 0 → v.running c ≠ (v.task t).id := fun c hc heq =>
      any_eq_false.mp hnot c (v.mem_tasksRunning.mpr hc) (beq_iff_eq.mpr heq)
    split
    · -- the minimum exists: some CPU is busy and its task is registered
      next hnone =>
      have hnil := argmin_eq_none.mp hnone
      obtain ⟨c, hc⟩ := exists_mem_of_ne_nil v.tasksRunning (by
        intro h; rw [h] at hbusy; exact absurd hbusy (by simp))
      obtain ⟨p, hp, -⟩ := v.exists_candidate hreg (v.mem_tasksRunning.mp hc)
      exact absurd hp (by simp [hnil])
    · next target hmin =>
      have hvictim : v.IsVictim {c | v.running c ≠ 0} target.1 target.2 := by
        refine v.isVictim_of_least (fun p hp => v.mem_candidates hp)
          (fun c hc => v.exists_candidate hreg hc) (argmin_mem hmin) fun p hp => ?_
        -- the CPU id only breaks ties of the key
        exact Prod.Lex.monotone_fst _ _ (le_of_mem_argmin hp hmin)
      rcases v.conclude_cases t hvictim with ⟨hc, hreq⟩ | ⟨hc, hreq⟩
      · exact .inl ⟨_, _, hc, hvictim, hfree, hreq⟩
      · exact .inr ⟨hc, fun hw => hreq hw.2⟩

/-! ### The second text decides the request over the CPU set -/

theorem mem_cpuSetIter {set : CpuSet} : c ∈ cpuSetIter N set ↔ (c : Nat) ∈ set := by
  simp [cpuSetIter]

/-- The target of a round whose running task is registered is the occupant of the CPU. -/
theorem clusteredTarget_eq (hr : v.registry (v.running c) = some r) :
    v.clusteredTarget c = some (v.maxTask r ((v.peekPreemptionPending c).getD r)) := by
  rw [clusteredTarget, hr]
  cases v.peekPreemptionPending c with
  | none => exact congrArg some ((v.maxTask_eq r r).elim Eq.symm Eq.symm)
  | some p => rfl

/-- The pair a round contributes. -/
def clusteredCandidate (c : Fin N) : Option (Handle × Fin N) :=
  (v.clusteredTarget c).map fun target => (target, c)

theorem clusteredCandidate_eq (hr : v.registry (v.running c) = some r) :
    v.clusteredCandidate c = some (v.maxTask r ((v.peekPreemptionPending c).getD r), c) := by
  rw [clusteredCandidate, v.clusteredTarget_eq hr]
  rfl

theorem updateVictim_argmin (L : List (Handle × Fin N)) (x : Handle × Fin N) :
    v.updateVictim (L.argmin fun p => v.key p.1) x = (L ++ [x]).argmin fun p => v.key p.1 := by
  rw [argmin_concat]
  cases L.argmin fun p => v.key p.1 with
  | none => rfl
  | some lowest =>
    change (if v.key lowest.1 ≤ v.key x.1 then some lowest else some x) =
      if v.key x.1 < v.key lowest.1 then some x else some lowest
    by_cases h : v.key lowest.1 ≤ v.key x.1
    · rw [if_pos h, if_neg (not_lt.mpr h)]
    · rw [if_neg h, if_pos (not_le.mp h)]

/-- A loop that meets no idle CPU and not the task itself ends with the first least pair.
Induction on the CPUs left, over the pairs `L` seen so far. -/
theorem scanVictim_eq_argmin (t : Handle) (hreg : v.Registered) (cs : List (Fin N))
    (hgo : ∀ c ∈ cs, v.running c ≠ 0 ∧ v.running c ≠ (v.task t).id)
    (L : List (Handle × Fin N)) :
    v.scanVictim t cs (L.argmin fun p => v.key p.1)
      = some ((L ++ cs.filterMap v.clusteredCandidate).argmin fun p => v.key p.1) := by
  induction cs generalizing L with
  | nil => rw [scanVictim, filterMap_nil, append_nil]
  | cons c cs ih =>
    obtain ⟨hbusy, hne⟩ := hgo c mem_cons_self
    obtain ⟨r, hr⟩ := isSome_iff_exists.mp (hreg c hbusy)
    rw [scanVictim, if_neg hne, if_neg hbusy, v.clusteredTarget_eq hr]
    change v.scanVictim t cs (v.updateVictim _ _) = _
    rw [updateVictim_argmin, ih fun c' hc' => hgo c' (mem_cons_of_mem c hc'),
      filterMap_cons_some (v.clusteredCandidate_eq hr), append_assoc,
      singleton_append]

/-- A loop that meets an idle CPU or the task itself returns without a victim. -/
theorem scanVictim_eq_none (t : Handle) (cs : List (Fin N))
    (hstop : ∃ c ∈ cs, v.running c = 0 ∨ v.running c = (v.task t).id)
    (victim : Option (Handle × Fin N)) : v.scanVictim t cs victim = none := by
  induction cs generalizing victim with
  | nil => obtain ⟨c, hc, -⟩ := hstop; exact absurd hc (by simp)
  | cons c cs ih =>
    rw [scanVictim]
    by_cases hself : v.running c = (v.task t).id
    · rw [if_pos hself]
    by_cases hidle : v.running c = 0
    · rw [if_neg hself, if_pos hidle]
    rw [if_neg hself, if_neg hidle]
    obtain ⟨d, hd, hstop⟩ := hstop
    -- the CPU that stops the loop is still ahead
    have hd' : d ∈ cs := (mem_cons.mp hd).resolve_left fun h =>
      hstop.elim (fun h0 => hidle (h ▸ h0)) fun h0 => hself (h ▸ h0)
    cases v.clusteredTarget c with
    | none => rfl
    | some target => exact ih ⟨d, hd', hstop⟩ _

theorem mem_clusteredCandidates (hreg : v.Registered) {cs : List (Fin N)}
    (hbusy : ∀ c ∈ cs, v.running c ≠ 0)
    (h : p ∈ cs.filterMap v.clusteredCandidate) : p.2 ∈ cs ∧ v.IsOccupant p.2 p.1 := by
  obtain ⟨c, hc, hp⟩ := mem_filterMap.mp h
  obtain ⟨r, hr⟩ := isSome_iff_exists.mp (hreg c (hbusy c hc))
  rw [v.clusteredCandidate_eq hr] at hp
  cases hp
  exact ⟨hc, v.isOccupant_maxTask hr⟩

theorem exists_clusteredCandidate (hreg : v.Registered) {cs : List (Fin N)}
    (hbusy : ∀ c ∈ cs, v.running c ≠ 0) (hc : c ∈ cs) :
    ∃ p ∈ cs.filterMap v.clusteredCandidate, p.2 = c := by
  obtain ⟨r, hr⟩ := isSome_iff_exists.mp (hreg c (hbusy c hc))
  exact ⟨_, mem_filterMap.mpr ⟨c, hc, v.clusteredCandidate_eq hr⟩, rfl⟩

/-- **`invoke_preemption` of ClusteredEDF.** It asks for a preemption exactly when no CPU of
the set is idle or runs the task and the task is requested over the set; the CPU it names
is in the set and carries a least occupant. -/
theorem invokePreemptionClustered_spec (hreg : v.Registered) (t : Handle) (set : CpuSet) :
    let S : Set (Fin N) := {c | (c : Nat) ∈ set}
    let wanted := (∀ c ∈ S, v.running c ≠ 0 ∧ v.running c ≠ (v.task t).id) ∧ v.Requests t S
    (∃ x c, v.invokePreemptionClustered t set = .preempt x c ∧ v.IsVictim S x c ∧ wanted) ∨
      v.invokePreemptionClustered t set = .enqueue ∧ ¬ wanted := by
  intro S wanted
  by_cases hgo : ∀ c ∈ cpuSetIter N set, v.running c ≠ 0 ∧ v.running c ≠ (v.task t).id
  · have hscan := v.scanVictim_eq_argmin t hreg _ hgo []
    rw [argmin_nil, nil_append] at hscan
    unfold invokePreemptionClustered
    rw [hscan]
    cases hmin : ((cpuSetIter N set).filterMap v.clusteredCandidate).argmin fun p => v.key p.1 with
    | none =>
      -- no pair at all: the set is empty and nothing is requested over it
      refine .inr ⟨rfl, fun hw => ?_⟩
      obtain ⟨-, x, c, hx, -⟩ := hw
      obtain ⟨p, hp, -⟩ := v.exists_clusteredCandidate hreg (fun c hc => (hgo c hc).1)
        (mem_cpuSetIter.mpr hx.mem)
      exact absurd hp (by simp [argmin_eq_none.mp hmin])
    | some target =>
      have hvictim : v.IsVictim S target.1 target.2 := by
        refine v.isVictim_of_least (fun p hp => ?_) (fun c hc => ?_) (argmin_mem hmin)
          fun p hp => le_of_mem_argmin (f := fun q => v.key q.1) hp hmin
        · obtain ⟨hmem, hocc⟩ :=
            v.mem_clusteredCandidates hreg (fun c hc => (hgo c hc).1) hp
          exact ⟨mem_cpuSetIter.mp hmem, hocc⟩
        · exact v.exists_clusteredCandidate hreg (fun c hc => (hgo c hc).1) (mem_cpuSetIter.mpr hc)
      have hfree : ∀ c ∈ S, v.running c ≠ 0 ∧ v.running c ≠ (v.task t).id :=
        fun c hc => hgo c (mem_cpuSetIter.mpr hc)
      rcases v.conclude_cases t hvictim with ⟨hc, hreq⟩ | ⟨hc, hreq⟩
      · exact .inl ⟨_, _, hc, hvictim, hfree, hreq⟩
      · exact .inr ⟨hc, fun hw => hreq hw.2⟩
  · have hstop : ∃ c ∈ cpuSetIter N set, v.running c = 0 ∨ v.running c = (v.task t).id := by
      by_contra hno
      refine hgo fun c hc => ⟨fun h => hno ⟨c, hc, .inl h⟩, fun h => hno ⟨c, hc, .inr h⟩⟩
    refine .inr ⟨?_, fun hw => hgo fun c hc => hw.1 c (mem_cpuSetIter.mp hc)⟩
    unfold invokePreemptionClustered
    rw [v.scanVictim_eq_none t _ hstop]

/-! ### The decision of a scheduler -/

/-- The CPUs a scheduler chooses among: the busy ones, or those of the task's set. -/
def scope (t : Handle) : Sched → Set (Fin N)
  | .clusteredEDF => {c | (c : Nat) ∈ (v.task t).cpuSet.getD ∅}
  | _ => {c | v.running c ≠ 0}

/-- When a wake of `t` is to request a preemption. -/
def Wanted (t : Handle) : Sched → Prop
  | .clusteredEDF =>
    (∀ c ∈ v.scope t .clusteredEDF, v.running c ≠ 0 ∧ v.running c ≠ (v.task t).id) ∧
      v.Requests t (v.scope t .clusteredEDF)
  | S =>
    (∀ c, v.running c ≠ 0 → v.running c ≠ (v.task t).id) ∧ (∃ c, v.running c ≠ 0) ∧
      v.Requests t (v.scope t S)

/-- `invoke_preemption` of a scheduler. -/
def decision (t : Handle) : Sched → Decision N
  | .clusteredEDF => v.invokePreemptionClustered t ((v.task t).cpuSet.getD ∅)
  | _ => v.invokePreemption t

/-- **Every scheduler decides what it is to decide.** -/
theorem decision_spec (hreg : v.Registered) (t : Handle) (S : Sched) :
    (∃ x c, v.decision t S = .preempt x c ∧ v.IsVictim (v.scope t S) x c ∧ v.Wanted t S) ∨
      v.decision t S = .enqueue ∧ ¬ v.Wanted t S := by
  cases S with
  | clusteredEDF => exact v.invokePreemptionClustered_spec hreg t _
  | _ =>
    rcases v.invokePreemption_spec hreg t with ⟨x, c, hd, hx, hfree, hreq⟩ | ⟨hd, hnot⟩
    · exact .inl ⟨x, c, hd, hx, hfree, ⟨c, hx.mem⟩, hreq⟩
    · exact .inr ⟨hd, fun hw => hnot ⟨hw.1, hw.2.2⟩⟩

end PreemptionView

end Awkernel
