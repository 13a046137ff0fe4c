import Awkernel.Dag.Graph
import Awkernel.Lib.TransitionSystem
import Awkernel.PubSub.Subscriber
import Mathlib.Data.List.MinMax

/-!
# The deadline store of a DAG

`Dag::get_or_release_absolute_deadline` and `Dag::finish_job`. A job is one run of the
DAG; `absolute_deadlines` maps the number of a released job to its deadline, and each node
counts the jobs it has finished, which is the number of the job it processes next.

The two functions run under the locks of the store and of the graph, so a history is a list
of calls. `deadline_store` says what holds after every history:

* a released job keeps its deadline, until every node has finished it or the cap evicts it;
* only a source node that releases adds an entry;
* `finish_job` leaves no entry older than the least `num_finished`, and no more entries
  than the cap;
* `deadline_job` of a node says whether its last query found or released its job, exactly if no
  closure panics in a query that releases. The field is written before the closure is called, and
  stays if the closure panics (`deadlineJob_without_release`).
-/

namespace Awkernel

open TransitionSystem SortedMap List Option

namespace Dag

/-- The node has no incoming edge. -/
def isSource (dag : Dag) (nodeIdx : Nat) : Bool :=
  (dag.graph.neighborsDirected nodeIdx .incoming).isEmpty

/-- `Dag::get_or_release_absolute_deadline`, with the deadline that it returns. The value of the
closure `release_deadline` is `none` if the closure panics; it is called only if it is needed, and
its panic ends the call with what is written by then. -/
def getOrReleaseAbsoluteDeadline (dag : Dag) (nodeIdx : Nat) (release : Bool)
    (releaseDeadline : Option Nat) : Option (Dag × Option Nat) := do
  let nodeInfo ← dag.graph.nodeWeight nodeIdx
  let job := nodeInfo.numFinished
  let release := release && dag.isSource nodeIdx
  let deadlineJob := if release || (dag.absoluteDeadlines.get job).isSome then some job else none
  let dag := { dag with
    graph := dag.graph.modifyNode nodeIdx fun info => { info with deadlineJob := deadlineJob } }
  match dag.absoluteDeadlines.get job with
  | some deadline => some (dag, some deadline)
  | none =>
    match releaseDeadline with
    | none => some (dag, none)
    | some deadline =>
      if release then
        let absoluteDeadlines := dag.absoluteDeadlines.insert job deadline
        some ({ dag with absoluteDeadlines }, some deadline)
      else some (dag, some deadline)

/-- `Dag::has_stale_deadline`. -/
def hasStaleDeadline (dag : Dag) (nodeIdx : Nat) : Option Bool :=
  (dag.graph.nodeWeight nodeIdx).map fun info =>
    info.deadlineJob ≠ some info.numFinished ∧
      (dag.absoluteDeadlines.get info.numFinished).isSome = true

/-- The greatest value of a `u64`. -/
def u64Max : Nat := 2 ^ 64 - 1

/-- `Dag::finish_job` up to the call of `retain`. -/
def retainUnfinished (dag : Dag) (nodeIdx : Nat) : Option Dag := do
  let nodeInfo ← dag.graph.nodeWeight nodeIdx
  -- the counter overflows
  if nodeInfo.numFinished = u64Max then none
  else
    let graph := dag.graph.modifyNode nodeIdx fun info =>
      { info with numFinished := info.numFinished + 1 }
    let oldestUnfinished ← (graph.nodes.map NodeInfo.numFinished).min?
    some { dag with
      graph := graph
      absoluteDeadlines := dag.absoluteDeadlines.retain fun job => job ≥ oldestUnfinished }

/-- The greatest number of entries, `max_unfinished`. -/
def maxUnfinished (dag : Dag) : Nat :=
  dag.graph.nodeCount * (Attribute.default.queueSize + 1) + 1

/-- The rest of `Dag::finish_job`: the loop that enforces the cap. -/
def capEntries (dag : Dag) : Dag :=
  { dag with absoluteDeadlines := dag.absoluteDeadlines.truncate dag.maxUnfinished }

/-- `Dag::finish_job`. -/
def finishJob (dag : Dag) (nodeIdx : Nat) : Option Dag :=
  (dag.retainUnfinished nodeIdx).map capEntries

end Dag

/-! ### Histories -/

/-- A call of one of the two functions. -/
inductive StoreCall
  | query (nodeIdx : Nat) (release : Bool) (releaseDeadline : Option Nat)
  | finish (nodeIdx : Nat)
  deriving DecidableEq

namespace Dag

variable {dag dag' : Dag} {k : Nat}

def call (dag : Dag) : StoreCall → Option Dag
  | .query nodeIdx release releaseDeadline =>
    (dag.getOrReleaseAbsoluteDeadline nodeIdx release releaseDeadline).map Prod.fst
  | .finish nodeIdx => dag.finishJob nodeIdx

/-- No call has been made yet. -/
structure Fresh (dag : Dag) : Prop where
  noEntry : dag.absoluteDeadlines.entries = []
  noQuery : ∀ nodeIdx info, dag.graph.nodeWeight nodeIdx = some info → info.deadlineJob = none

/-- Every node has finished job `k`. -/
def AllFinished (dag : Dag) (k : Nat) : Prop := ∀ info ∈ dag.graph.nodes, k < info.numFinished

/-- The cap evicts job `k` in this call. -/
def Evicts (dag : Dag) (k : Nat) : StoreCall → Prop
  | .query _ _ _ => False
  | .finish nodeIdx => ∃ retained, dag.retainUnfinished nodeIdx = some retained ∧
      (retained.absoluteDeadlines.get k).isSome = true ∧
      retained.capEntries.absoluteDeadlines.get k = none

/-- After this call, some node has not finished job `k`, and the cap has not evicted it. -/
def Keeps (k : Nat) (dag : Dag) (c : StoreCall) : Prop :=
  ¬ dag.Evicts k c ∧ ∀ dag', dag.call c = some dag' → ¬ dag'.AllFinished k

/-- The last query of the node was for job `k`, and found or released it. -/
def LastQueryHit (dag₀ : Dag) (calls : List StoreCall) (nodeIdx k : Nat) : Prop :=
  ∃ earlier release deadline later mid mid',
    calls = earlier ++ .query nodeIdx release deadline :: later ∧
    (∀ release' deadline', .query nodeIdx release' deadline' ∉ later) ∧
    run call dag₀ earlier = some mid ∧ mid.call (.query nodeIdx release deadline) = some mid' ∧
    (∃ info, mid.graph.nodeWeight nodeIdx = some info ∧ info.numFinished = k) ∧
    ((mid.absoluteDeadlines.get k).isSome = true ∨ (mid'.absoluteDeadlines.get k).isSome = true)

/-- The closure does not panic in a query by which a source releases its job. -/
def ReleaseReturns (dag : Dag) : StoreCall → Prop
  | .query nodeIdx release none => (release && dag.isSource nodeIdx) = true →
      ∀ info, dag.graph.nodeWeight nodeIdx = some info →
        (dag.absoluteDeadlines.get info.numFinished).isSome = true
  | _ => True

/-! ### What the calls do -/

variable {nodeIdx v : Nat} {c : StoreCall}

/-- A query: it finds the deadline of the node's job, or computes one and stores it if it
comes from a source node that releases, or its closure panics. In all cases `deadline_job` is
written. -/
theorem query_cases {release : Bool} {releaseDeadline w : Option Nat}
    (h : dag.getOrReleaseAbsoluteDeadline nodeIdx release releaseDeadline = some (dag', w)) :
    ∃ info, dag.graph.nodeWeight nodeIdx = some info ∧
      dag'.graph = dag.graph.modifyNode nodeIdx (fun info' => { info' with
        deadlineJob := if (release && dag.isSource nodeIdx ||
          (dag.absoluteDeadlines.get info.numFinished).isSome) = true
          then some info.numFinished else none }) ∧
      ((dag.absoluteDeadlines.get info.numFinished).isSome = true ∧
          w = dag.absoluteDeadlines.get info.numFinished ∧
          dag'.absoluteDeadlines = dag.absoluteDeadlines ∨
        dag.absoluteDeadlines.get info.numFinished = none ∧ w = releaseDeadline ∧
          dag'.absoluteDeadlines = match releaseDeadline with
            | some v => if (release && dag.isSource nodeIdx) = true
              then dag.absoluteDeadlines.insert info.numFinished v else dag.absoluteDeadlines
            | none => dag.absoluteDeadlines) := by
  obtain ⟨info, hinfo, h⟩ := bind_eq_some_iff.mp h
  refine ⟨info, hinfo, ?_⟩
  dsimp only at h
  cases hget : dag.absoluteDeadlines.get info.numFinished with
  | some deadline =>
    rw [hget] at h
    cases h
    exact ⟨rfl, .inl ⟨rfl, rfl, rfl⟩⟩
  | none =>
    rw [hget] at h
    cases releaseDeadline with
    | none =>
      cases h
      exact ⟨rfl, .inr ⟨rfl, rfl, rfl⟩⟩
    | some deadline =>
      dsimp only at h ⊢
      split at h
      · next hrel =>
        cases h
        exact ⟨rfl, .inr ⟨rfl, rfl, by rw [if_pos hrel]⟩⟩
      · next hrel =>
        cases h
        exact ⟨rfl, .inr ⟨rfl, rfl, by rw [if_neg hrel]⟩⟩

/-- A query that finds its job returns the deadline that is stored. -/
theorem query_found {info : NodeInfo} (hinfo : dag.graph.nodeWeight nodeIdx = some info)
    (hget : dag.absoluteDeadlines.get info.numFinished = some v) (release : Bool)
    (releaseDeadline : Option Nat) : ∃ dag',
      dag.getOrReleaseAbsoluteDeadline nodeIdx release releaseDeadline = some (dag', some v) := by
  unfold getOrReleaseAbsoluteDeadline
  rw [hinfo]
  dsimp only [bind_eq_bind, bind_some]
  rw [hget]
  exact ⟨_, rfl⟩

/-- A finished job is counted first: the oldest job that is kept is that of the new counts. -/
theorem retainUnfinished_spec (h : dag.retainUnfinished nodeIdx = some dag') :
    ∃ oldest, (dag'.graph.nodes.map NodeInfo.numFinished).min? = some oldest ∧
      dag'.graph = dag.graph.modifyNode nodeIdx (fun info =>
        { info with numFinished := info.numFinished + 1 }) ∧
      dag'.absoluteDeadlines = dag.absoluteDeadlines.retain fun job => job ≥ oldest := by
  obtain ⟨info, hinfo, h⟩ := bind_eq_some_iff.mp h
  split at h
  · cases h
  obtain ⟨oldest, holdest, h⟩ := bind_eq_some_iff.mp h
  cases h
  exact ⟨oldest, holdest, rfl, rfl⟩

theorem finishJob_spec (h : dag.finishJob nodeIdx = some dag') :
    ∃ retained, dag.retainUnfinished nodeIdx = some retained ∧ dag' = retained.capEntries := by
  obtain ⟨retained, hretained, rfl⟩ := map_eq_some_iff.mp h
  exact ⟨retained, hretained, rfl⟩

theorem le_of_min? {oldest : Nat}
    (h : (dag.graph.nodes.map NodeInfo.numFinished).min? = some oldest) :
    ∀ info ∈ dag.graph.nodes, oldest ≤ info.numFinished := fun _ hinfo =>
  (min?_eq_some_iff.mp h).2 _ (mem_map_of_mem hinfo)

theorem get_capEntries (h : dag.capEntries.absoluteDeadlines.get k = some v) :
    dag.absoluteDeadlines.get k = some v :=
  get_eq_some.mpr (mem_of_mem_truncate (get_eq_some.mp h))

/-- **A released job keeps its deadline**, unless this call makes every node finish it, or
the cap evicts it. -/
theorem get_call (hget : dag.absoluteDeadlines.get k = some v) (hkeeps : Keeps k dag c)
    (h : dag.call c = some dag') :
    dag'.absoluteDeadlines.get k = some v := by
  cases c with
  | query nodeIdx release deadline =>
    obtain ⟨⟨mid, w⟩, hquery, rfl⟩ := map_eq_some_iff.mp h
    obtain ⟨info, -, -, ⟨-, -, hsame⟩ | ⟨hnone, -, hsame⟩⟩ := query_cases hquery
    · rw [hsame]
      exact hget
    rw [hsame]
    split
    on_goal 2 => exact hget
    split
    · -- a release inserts only what was not there
      have hne : k ≠ info.numFinished := by
        rintro rfl
        cases hnone.symm.trans hget
      rw [get_insert_of_ne hne]
      exact hget
    · exact hget
  | finish nodeIdx =>
    obtain ⟨retained, hretained, rfl⟩ := finishJob_spec h
    obtain ⟨oldest, holdest, -, hdeadlines⟩ := retainUnfinished_spec hretained
    have hle : oldest ≤ k := by
      by_contra hlt
      refine hkeeps.2 _ h fun info hinfo => ?_
      exact (not_le.mp hlt).trans_le (le_of_min? holdest info hinfo)
    have hkept : retained.absoluteDeadlines.get k = some v := by
      rw [hdeadlines, get_retain, if_pos (by simpa using hle)]
      exact hget
    cases hcap : retained.capEntries.absoluteDeadlines.get k with
    | none =>
      exact absurd ⟨retained, hretained, by rw [hkept]; rfl, hcap⟩ hkeeps.1
    | some w => exact (get_capEntries hcap).symm.trans hkept

/-- **Only a source node that releases adds an entry**, for the job it processes next. -/
theorem inserted_by_source (h : dag.call c = some dag') (hnone : dag.absoluteDeadlines.get k = none)
    (hsome : dag'.absoluteDeadlines.get k = some v) :
    ∃ nodeIdx info, c = .query nodeIdx true (some v) ∧ dag.isSource nodeIdx = true ∧
      dag.graph.nodeWeight nodeIdx = some info ∧ info.numFinished = k := by
  cases c with
  | query nodeIdx release deadline =>
    obtain ⟨⟨mid, w⟩, hquery, rfl⟩ := map_eq_some_iff.mp h
    obtain ⟨info, hinfo, -, ⟨-, -, hsame⟩ | ⟨-, -, hsame⟩⟩ := query_cases hquery
    · rw [hsame, hnone] at hsome
      cases hsome
    rw [hsame] at hsome
    obtain _ | deadline := deadline
    · cases hnone.symm.trans hsome
    dsimp only at hsome
    split at hsome
    · next hrel =>
      obtain ⟨rfl, hsource⟩ := Bool.and_eq_true_iff.mp hrel
      by_cases hk : k = info.numFinished
      · subst hk
        rw [get_insert_self] at hsome
        cases hsome
        exact ⟨nodeIdx, info, rfl, hsource, hinfo, rfl⟩
      · rw [get_insert_of_ne hk, hnone] at hsome
        cases hsome
    · rw [hnone] at hsome
      cases hsome
  | finish nodeIdx =>
    obtain ⟨retained, hretained, rfl⟩ := finishJob_spec h
    obtain ⟨oldest, -, -, hdeadlines⟩ := retainUnfinished_spec hretained
    have hkept := get_capEntries hsome
    rw [hdeadlines, get_retain, hnone] at hkept
    split at hkept <;> cases hkept

/-- **After `finish_job`**, no entry is older than the least `num_finished`, and the entries
are within the cap. -/
theorem finishJob_bounds (h : dag.finishJob nodeIdx = some dag') :
    (∀ oldest, (dag'.graph.nodes.map NodeInfo.numFinished).min? = some oldest →
      ∀ k v, dag'.absoluteDeadlines.get k = some v → oldest ≤ k) ∧
    dag'.absoluteDeadlines.size ≤ dag'.graph.nodeCount * (Attribute.default.queueSize + 1) + 1 := by
  obtain ⟨retained, hretained, rfl⟩ := finishJob_spec h
  obtain ⟨oldest, holdest, -, hdeadlines⟩ := retainUnfinished_spec hretained
  refine ⟨?_, size_truncate_le _ _⟩
  intro oldest' holdest' k v hget
  cases holdest.symm.trans holdest'
  have hkept := get_capEntries hget
  rw [hdeadlines, get_retain] at hkept
  split at hkept
  · next hle => simpa using hle
  · cases hkept

/-! ### The job of the last query -/

/-- A call that is not a query of the node leaves its `deadline_job`. -/
theorem deadlineJob_call_of_ne {info' : NodeInfo} (h : dag.call c = some dag')
    (hne : ∀ release deadline, c ≠ .query nodeIdx release deadline)
    (hinfo' : dag'.graph.nodeWeight nodeIdx = some info') :
    ∃ info, dag.graph.nodeWeight nodeIdx = some info ∧ info.deadlineJob = info'.deadlineJob := by
  cases c with
  | query node release deadline =>
    obtain ⟨⟨mid, w⟩, hquery, rfl⟩ := map_eq_some_iff.mp h
    obtain ⟨info, -, hgraph, -⟩ := query_cases hquery
    have hnode : node ≠ nodeIdx := by
      rintro rfl
      exact hne release deadline rfl
    rw [hgraph, Graph.nodeWeight_modifyNode, if_neg hnode] at hinfo'
    exact ⟨info', hinfo', rfl⟩
  | finish node =>
    obtain ⟨retained, hretained, rfl⟩ := finishJob_spec h
    obtain ⟨oldest, -, hgraph, -⟩ := retainUnfinished_spec hretained
    change retained.graph.nodeWeight nodeIdx = some info' at hinfo'
    rw [hgraph, Graph.nodeWeight_modifyNode] at hinfo'
    split at hinfo'
    · obtain ⟨info, hinfo, rfl⟩ := map_eq_some_iff.mp hinfo'
      exact ⟨info, hinfo, rfl⟩
    · exact ⟨info', hinfo', rfl⟩

/-- `deadline_job` is written before the closure runs, so it does not depend on what that does. -/
theorem deadlineJob_query {release : Bool} {deadline : Option Nat} {info' : NodeInfo}
    (h : dag.call (.query nodeIdx release deadline) = some dag')
    (hinfo' : dag'.graph.nodeWeight nodeIdx = some info') :
    ∃ info, dag.graph.nodeWeight nodeIdx = some info ∧
      (info'.deadlineJob = some k ↔ info.numFinished = k ∧
        ((release && dag.isSource nodeIdx) = true ∨
          (dag.absoluteDeadlines.get k).isSome = true)) := by
  obtain ⟨⟨mid, w⟩, hquery, rfl⟩ := map_eq_some_iff.mp h
  obtain ⟨info, hinfo, hgraph, -⟩ := query_cases hquery
  rw [hgraph, Graph.nodeWeight_modifyNode, if_pos rfl, hinfo] at hinfo'
  cases hinfo'
  refine ⟨info, hinfo, ?_⟩
  dsimp only
  rw [← Bool.or_eq_true]
  split
  · next hhit =>
    refine ⟨fun heq => ?_, fun hand => congrArg some hand.1⟩
    cases heq
    exact ⟨rfl, hhit⟩
  · next hmiss =>
    refine iff_of_false nofun ?_
    rintro ⟨rfl, hhit⟩
    exact hmiss hhit

/-- A query stores an entry for the job of the node exactly if a source releases it, unless the
closure panics. -/
theorem get_query {release : Bool} {deadline : Option Nat} {info : NodeInfo}
    (h : dag.call (.query nodeIdx release deadline) = some dag')
    (hinfo : dag.graph.nodeWeight nodeIdx = some info) :
    (dag'.absoluteDeadlines.get info.numFinished).isSome = true ↔
      (dag.absoluteDeadlines.get info.numFinished).isSome = true ∨
        (release && dag.isSource nodeIdx) = true ∧ deadline.isSome = true := by
  obtain ⟨⟨mid, w⟩, hquery, rfl⟩ := map_eq_some_iff.mp h
  obtain ⟨info', hinfo', -, hstore⟩ := query_cases hquery
  cases hinfo.symm.trans hinfo'
  obtain ⟨hget, -, hsame⟩ | ⟨hget, -, hsame⟩ := hstore
  · rw [hsame]
    exact iff_of_true hget (.inl hget)
  rw [hsame, hget]
  cases deadline with
  | none => simp [hget]
  | some deadline =>
    dsimp only
    split
    · next hrel => simp [hrel, get_insert_self]
    · next hrel => simp [hrel, hget]

/-- **A query whose closure returns where it has to** says in `deadline_job` whether it found or
released the job, and any other query by which a source releases says so wrongly. -/
theorem deadlineJob_query_iff {release : Bool} {deadline : Option Nat} {info' : NodeInfo}
    (h : dag.call (.query nodeIdx release deadline) = some dag')
    (hinfo' : dag'.graph.nodeWeight nodeIdx = some info') :
    (∀ k, info'.deadlineJob = some k ↔
      (∃ info, dag.graph.nodeWeight nodeIdx = some info ∧ info.numFinished = k) ∧
        ((dag.absoluteDeadlines.get k).isSome = true ∨
          (dag'.absoluteDeadlines.get k).isSome = true)) ↔
      dag.ReleaseReturns (.query nodeIdx release deadline) := by
  obtain ⟨info, hinfo, -⟩ := deadlineJob_query (k := 0) h hinfo'
  have hjob : ∀ k, (∃ info, dag.graph.nodeWeight nodeIdx = some info ∧ info.numFinished = k) ↔
      info.numFinished = k := fun k =>
    ⟨fun ⟨info', hinfo', hk⟩ => some.inj (hinfo.symm.trans hinfo') ▸ hk,
      fun hk => ⟨info, hinfo, hk⟩⟩
  have hfield : ∀ k, info'.deadlineJob = some k ↔ info.numFinished = k ∧
      ((release && dag.isSource nodeIdx) = true ∨ (dag.absoluteDeadlines.get k).isSome = true) := by
    intro k
    obtain ⟨info₁, hinfo₁, hiff⟩ := deadlineJob_query (k := k) h hinfo'
    cases hinfo.symm.trans hinfo₁
    exact hiff
  -- the two sides differ only in a release whose closure panics: the field is set, the store is not
  have hstore := get_query h hinfo
  simp only [hjob, hfield, and_congr_right_iff, forall_eq', hstore]
  cases deadline with
  | none => simp [ReleaseReturns, hinfo]
  | some deadline =>
    simp only [ReleaseReturns, isSome_some, and_true, iff_true]
    tauto

theorem concat_eq_append_cons {calls earlier later : List StoreCall} {q : StoreCall}
    (h : calls ++ [c] = earlier ++ q :: later) :
    later = [] ∧ calls = earlier ∧ c = q ∨
      ∃ later', later = later' ++ [c] ∧ calls = earlier ++ q :: later' := by
  obtain rfl | ⟨later', last, rfl⟩ := eq_nil_or_concat later
  · obtain ⟨hcalls, hlast⟩ := append_inj' h rfl
    exact .inl ⟨rfl, hcalls, singleton_inj.mp hlast⟩
  rw [concat_eq_append, ← cons_append, ← append_assoc] at h
  obtain ⟨hcalls, hlast⟩ := append_inj' h rfl
  rw [concat_eq_append, singleton_inj.mp hlast]
  exact .inr ⟨later', rfl, hcalls⟩

variable {dag₀ : Dag} {calls : List StoreCall}

/-- A query is the last one of its node, with what it finds before and leaves after. -/
theorem lastQueryHit_query {release : Bool} {deadline : Option Nat}
    (hrun : run call dag₀ calls = some dag)
    (hcall : dag.call (.query nodeIdx release deadline) = some dag') :
    LastQueryHit dag₀ (calls ++ [.query nodeIdx release deadline]) nodeIdx k ↔
      (∃ info, dag.graph.nodeWeight nodeIdx = some info ∧ info.numFinished = k) ∧
        ((dag.absoluteDeadlines.get k).isSome = true ∨
          (dag'.absoluteDeadlines.get k).isSome = true) := by
  constructor
  · rintro ⟨earlier, release', deadline', later, mid, mid', hcalls, hlater, hmid, hmid', hhit⟩
    obtain ⟨-, rfl, hq⟩ | ⟨later', rfl, -⟩ := concat_eq_append_cons hcalls
    · cases hq
      cases hmid.symm.trans hrun
      cases hmid'.symm.trans hcall
      exact hhit
    · exact absurd (mem_append_right _ (.head _)) (hlater release deadline)
  · intro hhit
    exact ⟨calls, release, deadline, [], dag, dag', rfl, nofun, hrun, hcall, hhit⟩

theorem lastQueryHit_concat_of_ne
    (hne : ∀ release deadline, c ≠ .query nodeIdx release deadline) :
    LastQueryHit dag₀ (calls ++ [c]) nodeIdx k ↔ LastQueryHit dag₀ calls nodeIdx k := by
  constructor
  · rintro ⟨earlier, release, deadline, later, mid, mid', hcalls, hlater, hrest⟩
    obtain ⟨-, -, hq⟩ | ⟨later', rfl, hcalls'⟩ := concat_eq_append_cons hcalls
    · exact absurd hq (hne release deadline)
    · exact ⟨earlier, release, deadline, later', mid, mid', hcalls',
        fun r d hmem => hlater r d (mem_append_left _ hmem), hrest⟩
  · rintro ⟨earlier, release, deadline, later, mid, mid', rfl, hlater, hrest⟩
    refine ⟨earlier, release, deadline, later ++ [c], mid, mid', by simp, ?_, hrest⟩
    intro r d hmem
    rcases mem_append.mp hmem with hmem | hmem
    · exact hlater r d hmem
    · exact hne r d (mem_singleton.mp hmem).symm

/-- `deadline_job` of every node is the job of its last query, if that found or released it. -/
def JobsOfQueries (dag₀ : Dag) (calls : List StoreCall) (dag : Dag) : Prop :=
  ∀ nodeIdx info k, dag.graph.nodeWeight nodeIdx = some info →
    (info.deadlineJob = some k ↔ LastQueryHit dag₀ calls nodeIdx k)

/-- **One call** keeps the jobs of the queries exactly if its closure returns where it has to. -/
theorem JobsOfQueries.call_iff (h : JobsOfQueries dag₀ calls dag)
    (hrun : run call dag₀ calls = some dag) (hcall : dag.call c = some dag') :
    JobsOfQueries dag₀ (calls ++ [c]) dag' ↔ dag.ReleaseReturns c := by
  -- the nodes that the call does not query keep the field and the last query
  have hothers : ∀ nodeIdx info' k, (∀ release deadline, c ≠ .query nodeIdx release deadline) →
      dag'.graph.nodeWeight nodeIdx = some info' →
      (info'.deadlineJob = some k ↔ LastQueryHit dag₀ (calls ++ [c]) nodeIdx k) := by
    intro nodeIdx info' k hne hinfo'
    obtain ⟨info, hinfo, heq⟩ := deadlineJob_call_of_ne hcall hne hinfo'
    rw [← heq, lastQueryHit_concat_of_ne hne]
    exact h nodeIdx info k hinfo
  cases c with
  | finish node =>
    exact iff_of_true (fun nodeIdx info k => hothers nodeIdx info k nofun) trivial
  | query node release deadline =>
    obtain ⟨⟨mid, w⟩, hquery, hmid⟩ := map_eq_some_iff.mp hcall
    obtain ⟨info, hinfo, hgraph, -⟩ := query_cases hquery
    obtain ⟨info', hinfo'⟩ : ∃ info', dag'.graph.nodeWeight node = some info' := by
      rw [← hmid, hgraph, Graph.nodeWeight_modifyNode, if_pos rfl, hinfo]
      exact ⟨_, rfl⟩
    rw [← deadlineJob_query_iff hcall hinfo']
    simp only [← lastQueryHit_query hrun hcall]
    refine ⟨fun hall k => hall node info' k hinfo', fun hnode nodeIdx info₁ k hinfo₁ => ?_⟩
    by_cases heq : nodeIdx = node
    · subst heq
      cases hinfo'.symm.trans hinfo₁
      exact hnode k
    · refine hothers nodeIdx info₁ k (fun release' deadline' hc => ?_) hinfo₁
      cases hc
      exact heq rfl

/-- **The jobs of the queries** are right all along a history exactly if the closures return where
they have to. -/
theorem jobsOfQueries_iff (hfresh : dag₀.Fresh) {dag : Dag}
    (hrun : run call dag₀ calls = some dag) :
    (∀ earlier later mid, earlier ++ later = calls → run call dag₀ earlier = some mid →
      JobsOfQueries dag₀ earlier mid) ↔ Meets call ReleaseReturns dag₀ calls := by
  induction calls using reverseRecOn generalizing dag with
  | nil =>
    refine iff_of_true (fun earlier later mid hnil hmid nodeIdx info k hinfo => ?_) trivial
    obtain ⟨rfl, -⟩ := append_eq_nil_iff.mp hnil
    cases hmid
    rw [hfresh.noQuery nodeIdx info hinfo]
    refine iff_of_false nofun ?_
    rintro ⟨earlier, release, deadline, later, -, -, hcalls, -⟩
    exact absurd hcalls.symm (by simp)
  | append_singleton calls c ih =>
    rw [run_append] at hrun
    obtain ⟨dag₁, hrun₁, hlast⟩ := bind_eq_some_iff.mp hrun
    have hcall : dag₁.call c = some dag := by simpa [run] using hlast
    have hwhole : run call dag₀ (calls ++ [c]) = some dag := by rwa [run_append, hrun₁]
    rw [meets_concat hrun₁, ← ih hrun₁]
    constructor
    · intro hall
      have hbefore : ∀ earlier later mid, earlier ++ later = calls →
          run call dag₀ earlier = some mid → JobsOfQueries dag₀ earlier mid :=
        fun earlier later mid heq hmid =>
          hall earlier (later ++ [c]) mid (by rw [← append_assoc, heq]) hmid
      refine ⟨hbefore, ?_⟩
      rw [← (hbefore calls [] dag₁ (append_nil _) hrun₁).call_iff hrun₁ hcall]
      exact hall _ [] dag (append_nil _) hwhole
    · rintro ⟨hbefore, hreturns⟩ earlier later mid heq hmid
      obtain rfl | ⟨later', last, rfl⟩ := eq_nil_or_concat later
      · rw [append_nil] at heq
        subst heq
        cases hwhole.symm.trans hmid
        exact ((hbefore calls [] dag₁ (append_nil _) hrun₁).call_iff hrun₁ hcall).mpr hreturns
      · rw [concat_eq_append, ← append_assoc] at heq
        exact hbefore earlier later' mid (append_inj' heq rfl).1 hmid

end Dag

/-- **The deadline store**, after every history of calls; the last part says when `deadline_job` is
right all along the history. -/
theorem deadline_store {dag₀ dag : Dag} (hfresh : dag₀.Fresh) {calls : List StoreCall}
    (hrun : run Dag.call dag₀ calls = some dag) :
    (∀ k v dag', dag.absoluteDeadlines.get k = some v → Reaches Dag.call (Dag.Keeps k) dag dag' →
      ∀ nodeIdx info release releaseDeadline, dag'.graph.nodeWeight nodeIdx = some info →
        info.numFinished = k → ∃ dag'',
          dag'.getOrReleaseAbsoluteDeadline nodeIdx release releaseDeadline =
            some (dag'', some v)) ∧
    (∀ c k v dag', dag.call c = some dag' → dag.absoluteDeadlines.get k = none →
      dag'.absoluteDeadlines.get k = some v →
        ∃ nodeIdx info, c = .query nodeIdx true (some v) ∧ dag.isSource nodeIdx = true ∧
          dag.graph.nodeWeight nodeIdx = some info ∧ info.numFinished = k) ∧
    (∀ nodeIdx dag', dag.finishJob nodeIdx = some dag' →
      (∀ oldest, (dag'.graph.nodes.map NodeInfo.numFinished).min? = some oldest →
        ∀ k v, dag'.absoluteDeadlines.get k = some v → oldest ≤ k) ∧
      dag'.absoluteDeadlines.size ≤ dag'.graph.nodeCount * (Attribute.default.queueSize + 1) + 1) ∧
    ((∀ earlier later mid, earlier ++ later = calls → run Dag.call dag₀ earlier = some mid →
      ∀ nodeIdx info k, mid.graph.nodeWeight nodeIdx = some info →
        (info.deadlineJob = some k ↔ Dag.LastQueryHit dag₀ earlier nodeIdx k)) ↔
      Meets Dag.call Dag.ReleaseReturns dag₀ calls) := by
  refine ⟨?_, ?_, ?_, Dag.jobsOfQueries_iff hfresh hrun⟩
  · intro k v dag' hget hreach nodeIdx info release releaseDeadline hinfo hjob
    have hget' := hreach.invariant (I := fun dag => dag.absoluteDeadlines.get k = some v) hget
      fun _ _ _ hI hkeeps hs => Dag.get_call hI hkeeps hs
    exact Dag.query_found hinfo (hjob ▸ hget') release releaseDeadline
  · intro c k v dag' hcall hnone hsome
    exact Dag.inserted_by_source hcall hnone hsome
  · intro nodeIdx dag' hfinish
    exact Dag.finishJob_bounds hfinish

/-- A source, node 0, and a sink, node 1. -/
def pipeline : Dag where
  id := 1
  graph :=
    { nodes := [⟨0, [], ["a"], none, 0, none⟩, ⟨0, ["a"], [], some 50, 0, none⟩]
      edges := [⟨0, 1, ⟨"a"⟩⟩]
      inBounds := by decide }
  absoluteDeadlines := .empty

theorem pipeline_fresh : pipeline.Fresh := by
  refine ⟨rfl, ?_⟩
  rintro (_ | _ | _) info hinfo
  · exact some.inj hinfo ▸ rfl
  · exact some.inj hinfo ▸ rfl
  · cases hinfo

/-- The closure of the sink's query panics, but the query does not need it. -/
def oneJob : List StoreCall := [.query 0 true (some 100), .finish 0, .query 1 false none]

theorem deadline_store_pipeline : ∃ dag, run Dag.call pipeline oneJob = some dag ∧
    dag.absoluteDeadlines.get 0 = some 100 ∧
    (∃ info, dag.graph.nodeWeight 1 = some info ∧ info.deadlineJob = some 0) ∧
    Dag.LastQueryHit pipeline oneJob 1 0 := by
  refine ⟨_, rfl, rfl, ⟨_, rfl, rfl⟩, ?_⟩
  have hmeets : Meets Dag.call Dag.ReleaseReturns pipeline oneJob := by
    refine ⟨trivial, fun dag₁ h₁ => ⟨trivial, fun dag₂ h₂ => ⟨?_, fun _ _ => trivial⟩⟩⟩
    exact nofun
  exact ((deadline_store pipeline_fresh rfl).2.2.2.mpr hmeets oneJob [] _ rfl rfl 1 _ 0 rfl).mp rfl

/-- **The field is written before the closure is called.** The source releases job 0, its closure
panics, and `deadline_job` says that the job was found or released, which it was not. -/
theorem deadlineJob_without_release : ∃ dag info,
    run Dag.call pipeline [.query 0 true none] = some dag ∧
      dag.graph.nodeWeight 0 = some info ∧ info.deadlineJob = some 0 ∧
      dag.absoluteDeadlines.get 0 = none ∧
      ¬ Dag.LastQueryHit pipeline [.query 0 true none] 0 0 := by
  refine ⟨_, _, rfl, rfl, rfl, rfl, fun hhit => ?_⟩
  have hnil : run Dag.call pipeline [] = some pipeline := rfl
  obtain ⟨-, hfound | hreleased⟩ := (Dag.lastQueryHit_query hnil rfl).mp hhit
  · cases hfound
  · cases hreleased

end Awkernel
