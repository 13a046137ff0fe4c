import Awkernel.Dag.Reactors
import Awkernel.Dag.Replay
import Awkernel.Lib.AcyclicRank

/-!
# How the reactors of a valid DAG are connected

`Wiring` is what the results about running DAGs use of the validation: the edges are the topics
that one reactor publishes and another subscribes to, a topic has one publisher, all reactors
but one have a predecessor, and there is a rank that grows along the edges and is less than the
number of nodes. `exists_wiring` takes it from a valid graph and from the registrations the
graph was built with.
-/

namespace Awkernel

open Relation
open DagSystem (Registration Tables)

/-- The DAG was built with these registrations, and its deadline store was not used yet. -/
structure Dag.Unstarted (dag : Dag) (regs : List Registration) : Prop where
  built : ∃ tables, replay dag.id regs = some (dag.graph, tables)
  fresh : dag.Fresh

/-- The connections of the reactors, with a rank. -/
structure Wiring (dag : Dag) (regs : List Registration) where
  source : Nat
  rank : Nat → Nat
  length : dag.graph.nodes.length = regs.length
  source_lt : source < regs.length
  isSource : ∀ {v}, v < regs.length → (dag.isSource v = true ↔ v = source)
  edge : ∀ {u v t}, dag.graph.HasEdge u v t ↔ t ∈ publishTopics regs u ∧ t ∈ subscribeTopics regs v
  nodup : ∀ v, (subscribeTopics regs v).Nodup ∧ (publishTopics regs v).Nodup
  publisher : ∀ {u u' v t}, t ∈ publishTopics regs u → t ∈ publishTopics regs u' →
    t ∈ subscribeTopics regs v → u = u'
  pred : ∀ {v}, v < regs.length → v ≠ source → ∃ u t, dag.graph.HasEdge u v t
  rank_lt_rank : ∀ {u v t}, dag.graph.HasEdge u v t → rank u < rank v
  rank_lt : ∀ {v}, v < regs.length → rank v < regs.length

/-! ### Topics and registrations -/

variable {regs : List Registration} {v : Nat} {t : String}

theorem mem_subscribeTopics :
    t ∈ subscribeTopics regs v ↔ ∃ r, regs[v]? = some r ∧ t ∈ r.subscribeTopicNames := by
  unfold subscribeTopics
  cases regs[v]? with
  | none | some => simp

theorem mem_publishTopics :
    t ∈ publishTopics regs v ↔ ∃ r, regs[v]? = some r ∧ t ∈ r.publishTopicNames := by
  unfold publishTopics
  cases regs[v]? with
  | none | some => simp

theorem subscribeTopics_of_periodic (h : regs[v]?.any Registration.isPeriodic = true) :
    subscribeTopics regs v = [] := by
  unfold subscribeTopics
  cases hr : regs[v]? with
  | none => rfl
  | some r =>
    rw [hr] at h
    cases r with
    | periodic => rfl
    | reactor | sink => cases h

namespace Replayed

variable {id : Nat} {regs : List Registration} {graph : TopicGraph} {tables : Tables}
  (h : Replayed id regs graph tables)

include h

theorem nodeWeight {v : Nat} {info : NodeInfo} (hinfo : graph.nodeWeight v = some info) :
    ∃ r, regs[v]? = some r ∧ info.subscribeTopicNames = r.subscribeTopicNames ∧
      info.publishTopicNames = r.publishTopicNames ∧ info.numFinished = 0 := by
  have hlt : v < regs.length := h.length ▸ (List.getElem?_eq_some_iff.mp hinfo).1
  have hr : regs[v]? = some regs[v] := List.getElem?_eq_getElem hlt
  obtain ⟨info', hinfo', hsubs, hpubs, -, hfinished⟩ := h.node hr
  cases hinfo.symm.trans hinfo'
  exact ⟨_, hr, hsubs, hpubs, hfinished⟩

theorem subscribes_iff {v : Nat} : graph.Subscribes v t ↔ t ∈ subscribeTopics regs v := by
  rw [mem_subscribeTopics]
  constructor
  · rintro ⟨info, hinfo, ht⟩
    obtain ⟨r, hr, hsubs, -⟩ := h.nodeWeight hinfo
    exact ⟨r, hr, hsubs ▸ ht⟩
  · rintro ⟨r, hr, ht⟩
    obtain ⟨info, hinfo, hsubs, -⟩ := h.node hr
    exact ⟨info, hinfo, hsubs ▸ ht⟩

theorem publishes_iff {v : Nat} : graph.Publishes v t ↔ t ∈ publishTopics regs v := by
  rw [mem_publishTopics]
  constructor
  · rintro ⟨info, hinfo, ht⟩
    obtain ⟨r, hr, -, hpubs, -⟩ := h.nodeWeight hinfo
    exact ⟨r, hr, hpubs ▸ ht⟩
  · rintro ⟨r, hr, ht⟩
    obtain ⟨info, hinfo, -, hpubs, -⟩ := h.node hr
    exact ⟨info, hinfo, hpubs ▸ ht⟩

theorem nodup (hvalid : graph.Valid) (v : Nat) :
    (subscribeTopics regs v).Nodup ∧ (publishTopics regs v).Nodup := by
  unfold subscribeTopics publishTopics
  cases hr : regs[v]? with
  | none => exact ⟨List.nodup_nil, List.nodup_nil⟩
  | some r =>
    obtain ⟨info, hinfo, hsubs, hpubs, -⟩ := h.node hr
    have hall := hvalid.nodup hinfo
    rw [hsubs, hpubs] at hall
    exact ⟨hall.of_append_left, hall.of_append_right⟩

end Replayed

/-- The sources of the validation are the sources of the deadline store. -/
theorem Dag.isSource_iff {dag : Dag} (hv : v < dag.graph.nodeCount) :
    dag.isSource v = true ↔ dag.graph.IsSource ⟨v, hv⟩ := by
  rw [← Graph.mem_externals_incoming]
  unfold Dag.isSource Graph.externals
  rw [List.mem_filter, List.mem_range]
  exact ⟨fun h => ⟨hv, h⟩, fun h => h.2⟩

open Classical in
/-- The rank of a node of an acyclic graph. -/
noncomputable def Graph.rank (graph : TopicGraph) (v : Nat) : Nat :=
  if h : v < graph.nodeCount then AcyclicRank.rank graph.Adj ⟨v, h⟩ else 0

theorem Graph.rank_of_lt {graph : TopicGraph} (h : v < graph.nodeCount) :
    graph.rank v = AcyclicRank.rank graph.Adj ⟨v, h⟩ := dif_pos h

/-- **The wiring of a valid DAG.** -/
theorem exists_wiring {dag : Dag} (hvalid : dag.graph.Valid) {tables : Tables}
    (h : Replayed dag.id regs dag.graph tables) : Nonempty (Wiring dag regs) := by
  obtain ⟨s, hs, hunique⟩ := hvalid.source
  have hlength : dag.graph.nodeCount = regs.length := h.length
  have hedge : ∀ {u v t}, dag.graph.HasEdge u v t ↔
      t ∈ publishTopics regs u ∧ t ∈ subscribeTopics regs v := fun {u v t} => by
    rw [h.built.linked u v t, h.publishes_iff, h.subscribes_iff]
  refine ⟨{
    source := s
    rank := dag.graph.rank
    length := hlength
    source_lt := hlength ▸ s.2
    isSource := fun {v} hv => ?_
    edge := hedge
    nodup := h.nodup hvalid
    publisher := fun {u u' v t} hu hu' hv => ?_
    pred := fun {v} hv hne => ?_
    rank_lt_rank := fun {u v t} he => ?_
    rank_lt := fun {v} hv => ?_ }⟩
  · have hlt : v < dag.graph.nodeCount := hlength.symm ▸ hv
    rw [Dag.isSource_iff hlt]
    constructor
    · exact fun hsource => congrArg Fin.val (hunique ⟨v, hlt⟩ hsource)
    · rintro rfl
      exact hs
  · obtain ⟨w, -, honly⟩ := hvalid.publisher (h.subscribes_iff.mpr hv)
    exact (honly u (h.publishes_iff.mpr hu)).trans (honly u' (h.publishes_iff.mpr hu')).symm
  · -- only the source has no predecessor
    have hlt : v < dag.graph.nodeCount := hlength.symm ▸ hv
    by_contra hnone
    refine hne (congrArg Fin.val (hunique ⟨v, hlt⟩ ?_))
    rintro u ⟨t, he⟩
    exact hnone ⟨u, t, he⟩
  · obtain ⟨hu, hv⟩ := Graph.lt_of_hasEdge he
    rw [Graph.rank_of_lt hu, Graph.rank_of_lt hv]
    exact AcyclicRank.rank_lt_rank hvalid.acyclic ⟨t, he⟩
  · have hlt : v < dag.graph.nodeCount := hlength.symm ▸ hv
    rw [Graph.rank_of_lt hlt]
    calc AcyclicRank.rank dag.graph.Adj ⟨v, hlt⟩
        < Fintype.card (Fin dag.graph.nodeCount) := AcyclicRank.rank_lt_card hvalid.acyclic _
      _ = regs.length := (Fintype.card_fin _).trans hlength

end Awkernel
