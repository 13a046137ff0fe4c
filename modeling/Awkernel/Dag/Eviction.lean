import Awkernel.Dag.Traffic

/-!
# The cap of the deadline store

`finish_job` evicts the oldest jobs when there are more than `n * (q + 1) + 1` entries. The
entries are jobs that the source has reached, so an evicted job is at least that many jobs behind
the source; and a node whose ancestors are alive is less far behind (`Flowing.lag`). So the cap is
safe if the source is spawned last (`eviction_safe`).

`spawn_dag` spawns a periodic reactor last. But a plain reactor without inputs is a source as well
and is spawned in the order of the registrations: it runs while the sink is not there, its
messages get lost, and the cap evicts jobs that the sink will still process
(`unfinished_job_evicted`).
-/

namespace Awkernel

open TransitionSystem List Option
open DagSystem (Registration)

theorem Dag.Evicts.add_max_le {dag dag' : Dag} {v j b : Nat} (h : dag.Evicts j (.finish v))
    (hfinish : dag.finishJob v = some dag')
    (hkeys : ∀ {k d}, dag'.absoluteDeadlines.get k = some d → k ≤ b) :
    j + dag.maxUnfinished ≤ b := by
  obtain ⟨retained, hretained, hget, hgone⟩ := h
  obtain ⟨retained', hretained', rfl⟩ := finishJob_spec hfinish
  cases hretained.symm.trans hretained'
  obtain ⟨oldest, -, hgraph, -⟩ := retainUnfinished_spec hretained
  have hmax : retained.maxUnfinished = dag.maxUnfinished := by
    unfold maxUnfinished
    rw [hgraph, Graph.nodeCount_modifyNode]
  obtain ⟨d, hmem⟩ := SortedMap.isSome_get.mp hget
  rw [← hmax]
  refine SortedMap.add_max_le_of_truncated hmem (SortedMap.get_eq_none.mp hgone d) ?_ ?_
  · intro e he
    exact hkeys (SortedMap.get_eq_some.mpr he)
  · exact Nat.succ_pos _

namespace Reactors

variable {σ : Reactors} {regs : List Registration}

theorem finish_eq {σ' : Reactors} {v : Nat} {waker : Waker} (hphase : σ.phase v = .finishing)
    (hstep : σ.step (.advance v waker) = some σ') :
    ∃ dag, σ.dag.finishJob v = some dag ∧
      σ' = { σ with dag := dag }.goto v (loopHead σ.regs v) := by
  obtain ⟨⟨σ₁, pending⟩, hadvance, rfl⟩ := map_eq_some_iff.mp hstep
  unfold advance at hadvance
  rw [hphase] at hadvance
  obtain ⟨dag, hdag, heq⟩ := map_eq_some_iff.mp hadvance
  exact ⟨dag, hdag, (Prod.mk.inj heq).1.symm⟩

theorem alive_loopHead (regs : List Registration) (v : Nat) : (loopHead regs v).alive = true := by
  unfold loopHead
  split <;> rfl

/-- A job that is finished in a run: the messages flow before and after. -/
theorem Inv.flowing {dag₀ : Dag} {W : Wiring dag₀ regs} (h : Inv W σ)
    {v : Nat} (hphase : σ.phase v = .finishing) : Flowing regs σ := by
  rcases h.flow with hquiet | hflowing
  · rcases hquiet.waiting v with ⟨rest, hv⟩ | hv | hv
    · cases hphase.symm.trans hv
    · cases hphase.symm.trans hv
    · cases hphase.symm.trans hv
  · exact hflowing

theorem Inv.eviction {dag₀ : Dag} {W : Wiring dag₀ regs} {σ' : Reactors}
    (h : Inv W σ) {v : Nat} {waker : Waker} (hphase : σ.phase v = .finishing)
    (hstep : σ.step (.advance v waker) = some σ') {j : Nat}
    (hevicts : σ.dag.Evicts j (.finish v)) {w : Nat} (hw : w < regs.length)
    (halive : ∀ u, Ancestor dag₀.graph u w → (σ.phase u).alive = true) :
    j < σ'.dag.numFinished w := by
  have hflow : Flowing regs σ' :=
    (h.flowing hphase).step W h.base h.topics (step_cases h.base.queues hstep)
  have h' : Inv W σ' := h.step (a := .advance v waker) trivial hstep
  obtain ⟨dag, hfinish, rfl⟩ := finish_eq hphase hstep
  have halive' : ∀ u, Ancestor dag₀.graph u w →
      (({ σ with dag := dag }.goto v (loopHead σ.regs v)).phase u).alive = true := by
    intro u hu
    rw [goto_phase]
    split
    · exact alive_loopHead _ _
    · exact halive u hu
  have hlag := hflow.lag h'.base.queues W hw halive'
  have hfar := hevicts.add_max_le hfinish h'.keys
  -- the rank is less than the number of nodes
  have hrank : (W.rank w + 1) * edgeRoom ≤ regs.length * edgeRoom :=
    Nat.mul_le_mul_right _ (W.rank_lt hw)
  have hmax : σ.dag.maxUnfinished = regs.length * edgeRoom + 1 := by
    unfold Dag.maxUnfinished Graph.nodeCount
    rw [h.base.length, W.length]
    rfl
  rw [Nat.succ_mul] at hrank
  omega

/-- **The cap is safe if the source is spawned last.** A job that `finish_job` evicts is finished
by every node that is alive and whose ancestors are. The DAG was accepted by the validation; the
tasks are polled and woken in any order, and may end. -/
theorem eviction_safe {algo : GraphAlgo} (halgo : algo.Correct) {sys sys' : DagSystem}
    (hsys : Reaches DagSystem.step (fun _ _ => True) .init sys) {dags : List Dag}
    (hdags : ∀ dag ∈ dags, dag ∈ sys.arcs)
    (hok : DagSystem.validateAllRules algo sys dags = some (sys', [])) {dag : Dag}
    (hdag : dag ∈ dags) {regs : List Registration} (hnew : dag.Unstarted regs) {σ σ' : Reactors}
    (hreach : Reaches Reactors.step SpawnsSourceLast (.init dag regs) σ) {v : Nat} {waker : Waker}
    (hphase : σ.phase v = .finishing) (hstep : σ.step (.advance v waker) = some σ') {j : Nat}
    (hevicts : σ.dag.Evicts j (.finish v)) {w : Nat} (hw : w < dag.graph.nodeCount)
    (halive : ∀ u, Ancestor dag.graph u w → (σ.phase u).alive = true) :
    j < σ'.dag.numFinished w := by
  have hvalid := (DagSystem.validateAllRules_sound halgo hsys hdags hok).1 dag hdag
  obtain ⟨tables, hbuilt⟩ := hnew.built
  have hreplayed := replay_replayed hbuilt
  obtain ⟨W⟩ := exists_wiring hvalid hreplayed
  have hinv : Inv W σ := Inv.of_reaches hnew.fresh hreplayed.numFinished hreach
  have hlt : w < regs.length := W.length ▸ hw
  exact hinv.eviction hphase hstep hevicts hlt halive

/-! ### Two reactors

The graph `pipeline` is that of a periodic reactor and a sink, and also that of a plain reactor
and a sink. -/

def periodicAndSink : List Registration :=
  [.periodic [7] ["a"] (.gedf 0) 10, .sink [7] ["a"] (.gedf 0) 50]

def plainAndSink : List Registration :=
  [.reactor [] [7] [] ["a"] (.gedf 0), .sink [7] ["a"] (.gedf 0) 50]

/-- A system in which the two reactors were registered and are accepted. -/
theorem pipeline_accepted (regs : List Registration)
    (h : ∃ sys sys', run (guarded DagSystem.step fun _ _ => True) .init
      (.create :: regs.map (.register 0)) = some sys ∧ sys.arcs = [pipeline] ∧
        DagSystem.validateAllRules .passing sys [pipeline] = some (sys', [])) :
    ∃ sys sys', Reaches DagSystem.step (fun _ _ => True) .init sys ∧
      (∀ dag ∈ [pipeline], dag ∈ sys.arcs) ∧
      DagSystem.validateAllRules .exact sys [pipeline] = some (sys', []) := by
  obtain ⟨sys, sys', hrun, harcs, hok⟩ := h
  refine ⟨sys, sys', .of_run hrun, fun dag hdag => harcs ▸ hdag, ?_⟩
  unfold DagSystem.validateAllRules
  rw [DagSystem.validateEach_exact fun dag hdag => ?_]
  · exact hok
  · rw [mem_singleton.mp hdag]
    decide

theorem ancestor_pipeline {u w : Nat} (h : Ancestor pipeline.graph u w) : u = w ∨ u = 0 := by
  induction h with
  | refl => exact .inl rfl
  | tail _ hedge ih =>
    obtain ⟨t, hedge⟩ := hedge
    -- the one edge starts at node 0
    have hsource := congrArg Edge.source (mem_singleton.mp hedge)
    exact .inr (ih.elim (fun heq => heq.trans hsource) id)

/-- Steps of the first task. -/
def advances (n : Nat) : List Action := replicate n (.advance 0 0)

/-- The reactors are at the end of a job of node 0, and `finish_job` evicts job `j`. -/
def evictsNow (σ : Reactors) (j : Nat) : Bool :=
  decide (σ.phase 0 = .finishing) && (σ.dag.retainUnfinished 0).any fun retained =>
    (retained.absoluteDeadlines.get j).isSome &&
      (retained.capEntries.absoluteDeadlines.get j).isNone

theorem evicts_of_evictsNow {j : Nat} (h : σ.evictsNow j = true) :
    σ.phase 0 = .finishing ∧ σ.dag.Evicts j (.finish 0) := by
  obtain ⟨hphase, hany⟩ := (Bool.and_eq_true _ _).mp h
  obtain ⟨retained, hretained, hget⟩ := (any_eq_true _ _).mp hany
  obtain ⟨hsome, hnone⟩ := (Bool.and_eq_true _ _).mp hget
  exact ⟨of_decide_eq_true hphase, retained, hretained, hsome, isNone_iff_eq_none.mp hnone⟩

/-- A job of the periodic reactor, up to `finish_job`. -/
def tickedJob : List Action := [.wakeTask 0 true (some 100), .advance 0 0, .fire 0] ++ advances 6

/-- The sink ends at once, and the source goes on. -/
def sinkEnds : List Action :=
  [.subscribe 1, .spawn 1, .spawn 0, .terminate 1, .unsubscribe 1 "a"] ++
    (replicate 23 (tickedJob ++ advances 1)).flatten ++ tickedJob

/-- If the sink ends, the cap evicts jobs that the source has finished. -/
theorem eviction_safe_sinkEnds : ∃ σ σ',
    Reaches Reactors.step SpawnsSourceLast (.init pipeline periodicAndSink) σ ∧
      σ.step (.advance 0 0) = some σ' ∧ σ.dag.Evicts 0 (.finish 0) ∧
      0 < σ'.dag.numFinished 0 := by
  obtain ⟨sys, sys', hsys, hdags, hok⟩ :=
    pipeline_accepted periodicAndSink ⟨_, _, rfl, rfl, rfl⟩
  obtain ⟨σ, hreach, hevicts, halive, hstep⟩ : ∃ σ,
      Reaches step SpawnsSourceLast (init pipeline periodicAndSink) σ ∧
        σ.evictsNow 0 ∧ (σ.phase 0).alive ∧ (σ.step (.advance 0 0)).isSome :=
    Reaches.exists_of_run sinkEnds (by decide +kernel)
  obtain ⟨hphase, hevicts⟩ := evicts_of_evictsNow hevicts
  obtain ⟨σ', hstep⟩ := isSome_iff_exists.mp hstep
  refine ⟨σ, σ', hreach, hstep, hevicts, ?_⟩
  refine eviction_safe GraphAlgo.exact_correct hsys hdags hok (mem_singleton_self pipeline)
    ⟨⟨_, rfl⟩, pipeline_fresh⟩ hreach hphase hstep hevicts (by decide) fun u hu => ?_
  obtain rfl : u = 0 := (ancestor_pipeline hu).elim id id
  exact halive

/-- A job of the plain reactor, up to `finish_job`: it is woken at the yield of `send`. -/
def plainJob : List Action := advances 6 ++ .wakeTask 0 true (some 100) :: advances 1

/-- The source is spawned first, and has finished 24 jobs when the sink is spawned. -/
def sourceFirst : List Action :=
  [.spawn 0, .wakeTask 0 true (some 100)] ++ (replicate 24 (plainJob ++ advances 1)).flatten ++
    [.subscribe 1, .spawn 1] ++ advances 1 ++ plainJob

/-- **A job is evicted that a node has not finished.** The reactors are accepted; the source is a
plain reactor, which was registered before the sink and is spawned before it. -/
theorem unfinished_job_evicted : ∃ sys sys' σ σ',
    Reaches DagSystem.step (fun _ _ => True) .init sys ∧ pipeline ∈ sys.arcs ∧
      DagSystem.validateAllRules .exact sys [pipeline] = some (sys', []) ∧
      pipeline.Unstarted plainAndSink ∧
      Reaches Reactors.step (fun _ _ => True) (.init pipeline plainAndSink) σ ∧
      σ.phase 0 = .finishing ∧ σ.step (.advance 0 0) = some σ' ∧
      σ.dag.Evicts 1 (.finish 0) ∧
      (∀ u, Ancestor pipeline.graph u 1 → (σ.phase u).alive = true) ∧
      ¬ 1 < σ'.dag.numFinished 1 := by
  obtain ⟨sys, sys', hsys, hdags, hok⟩ :=
    pipeline_accepted plainAndSink ⟨_, _, rfl, rfl, rfl⟩
  obtain ⟨σ, hreach, hevicts, halive₀, halive₁, hstep⟩ : ∃ σ,
      Reaches step (fun _ _ => True) (init pipeline plainAndSink) σ ∧
        σ.evictsNow 1 ∧ (σ.phase 0).alive ∧ (σ.phase 1).alive ∧
        (σ.step (.advance 0 0)).any fun σ' => σ'.dag.numFinished 1 = 0 :=
    Reaches.exists_of_run sourceFirst (by decide +kernel)
  obtain ⟨hphase, hevicts⟩ := evicts_of_evictsNow hevicts
  obtain ⟨σ', hstep, hfinished⟩ := (any_eq_true _ _).mp hstep
  refine ⟨sys, sys', σ, σ', hsys, hdags pipeline (mem_singleton_self _), hok,
    ⟨⟨_, rfl⟩, pipeline_fresh⟩, hreach, hphase, hstep, hevicts, fun u hu => ?_, ?_⟩
  · rcases ancestor_pipeline hu with rfl | rfl
    · exact halive₁
    · exact halive₀
  · rw [of_decide_eq_true hfinished]
    decide

end Reactors

end Awkernel
