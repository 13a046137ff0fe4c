import Awkernel.Dag.Registry
import Awkernel.Lib.TransitionSystem
import Mathlib.SetTheory.Cardinal.Finite

/-!
# Validation is sound

`validate_all_rules` does not look at the topics of a node: it counts edges. Two counts
together say which topics are connected:

* `validate_single_publisher_per_topic` — a topic labels at most one edge of a DAG.
* `validate_edge_connect` — a node has at least as many incoming edges as subscriptions, and
  at least as many outgoing edges as publications.

The incoming edges of a node are labelled with topics it subscribes to (`Linked`), all
different, and are at least as many as its subscriptions; so the labels are the
subscriptions in another order (`labels_perm`), none of which is listed twice. The records of
duplicates are not needed for this.

The results of `connected_components` and `is_cyclic_directed` are assumed
(`GraphAlgo.Correct`). A finite graph without a cycle has a source and a sink, so the checks
for more than one leave exactly one.
-/

open TransitionSystem Relation List Option

namespace Awkernel

namespace Graph

/-- There is an edge from `u` to `v`. -/
def Adj (graph : TopicGraph) (u v : Fin graph.nodeCount) : Prop := ∃ t, graph.HasEdge u v t

/-- A node without incoming edges. -/
def IsSource (graph : TopicGraph) (s : Fin graph.nodeCount) : Prop := ∀ u, ¬ graph.Adj u s

/-- A node without outgoing edges. -/
def IsSink (graph : TopicGraph) (s : Fin graph.nodeCount) : Prop := ∀ v, ¬ graph.Adj s v

/-- What the validation of a DAG is for. -/
structure Valid (graph : TopicGraph) : Prop where
  nonempty : 0 < graph.nodeCount
  acyclic : ∀ a, ¬ TransGen graph.Adj a a
  connected : ∀ a b, EqvGen graph.Adj a b
  source : ∃! s, graph.IsSource s
  sink : ∃! s, graph.IsSink s
  publisher : ∀ {v t}, graph.Subscribes v t → ∃! u, graph.Publishes u t
  subscriber : ∀ {u t}, graph.Publishes u t → ∃! v, graph.Subscribes v t
  nodup : ∀ {v info}, graph.nodeWeight v = some info →
    (info.subscribeTopicNames ++ info.publishTopicNames).Nodup

end Graph

/-- `connected_components` counts the classes of nodes connected by edges in either
direction, and `is_cyclic_directed` finds a cycle if there is one. -/
structure GraphAlgo.Correct (algo : GraphAlgo) : Prop where
  connectedComponents : ∀ graph, algo.connectedComponents graph = Nat.card (Quot graph.Adj)
  isCyclicDirected : ∀ graph, algo.isCyclicDirected graph = true ↔ ∃ a, TransGen graph.Adj a a

/-! ### An instance

The results of the two algorithms, by definition, and two conditions that can be checked by
evaluation. -/

variable {graph : TopicGraph}

namespace GraphAlgo

/-- The algorithms by their results. -/
noncomputable def exact : GraphAlgo where
  connectedComponents graph := Nat.card (Quot graph.Adj)
  isCyclicDirected graph := @decide (∃ a, TransGen graph.Adj a a) (Classical.propDecidable _)

theorem exact_correct : exact.Correct :=
  ⟨fun _ => rfl, fun _ => @decide_eq_true_iff _ (Classical.propDecidable _)⟩

theorem exact_isCyclicDirected (h : ∀ e ∈ graph.edges, e.source < e.target) :
    exact.isCyclicDirected graph = false := by
  have hlt : ∀ {a b}, TransGen graph.Adj a b → a < b := by
    intro a b hab
    induction hab with
    | single hadj =>
      obtain ⟨t, ht⟩ := hadj
      exact h _ ht
    | tail _ hadj ih =>
      obtain ⟨t, ht⟩ := hadj
      exact ih.trans (h _ ht)
  rw [Bool.eq_false_iff]
  intro hcyclic
  obtain ⟨a, ha⟩ := (exact_correct.isCyclicDirected graph).mp hcyclic
  exact lt_irrefl a (hlt ha)

/-- One class, since every node but the first has an edge from or to an earlier one. -/
theorem exact_connectedComponents (hpos : 0 < graph.nodeCount)
    (h : ∀ v < graph.nodeCount, v = 0 ∨ ∃ e ∈ graph.edges,
      e.source < v ∧ e.target = v ∨ e.target < v ∧ e.source = v) :
    exact.connectedComponents graph = 1 := by
  have hfirst : ∀ v (hv : v < graph.nodeCount),
      Quot.mk graph.Adj ⟨v, hv⟩ = Quot.mk graph.Adj ⟨0, hpos⟩ := by
    intro v
    induction v using Nat.strong_induction_on with
    | _ v ih =>
      intro hv
      obtain rfl | ⟨e, he, ⟨hlt, rfl⟩ | ⟨hlt, rfl⟩⟩ := h v hv
      · rfl
      · rw [← ih e.source hlt (hlt.trans hv)]
        exact (Quot.sound ⟨e.weight.topicName, he⟩).symm
      · rw [← ih e.target hlt (hlt.trans hv)]
        exact Quot.sound ⟨e.weight.topicName, he⟩
  refine Nat.card_eq_one_iff_unique.mpr ⟨⟨fun p q => ?_⟩, ⟨Quot.mk _ ⟨0, hpos⟩⟩⟩
  obtain ⟨a, rfl⟩ := Quot.exists_rep p
  obtain ⟨b, rfl⟩ := Quot.exists_rep q
  exact (hfirst a.1 a.2).trans (hfirst b.1 b.2).symm

/-- Results that let a graph pass. -/
def passing : GraphAlgo := ⟨fun _ => 1, fun _ => false⟩

/-- A graph for which the two conditions hold. -/
def Ordered (graph : TopicGraph) : Prop :=
  0 < graph.nodeCount ∧ (∀ e ∈ graph.edges, e.source < e.target) ∧
    ∀ v < graph.nodeCount, v = 0 ∨ ∃ e ∈ graph.edges,
      e.source < v ∧ e.target = v ∨ e.target < v ∧ e.source = v

instance (graph : TopicGraph) : Decidable (Ordered graph) :=
  inferInstanceAs (Decidable (_ ∧ _ ∧ _))

end GraphAlgo

/-! ### What the checks of one DAG leave -/

namespace DagSystem

variable {algo : GraphAlgo} {sys sys' : DagSystem} {dag : Dag}

/-- The checks of a DAG without an error. -/
structure Passes (algo : GraphAlgo) (dag : Dag) : Prop where
  components : algo.connectedComponents dag.graph = 1
  acyclic : algo.isCyclicDirected dag.graph = false
  sources : (dag.graph.externals .incoming).length ≤ 1
  sinks : (dag.graph.externals .outgoing).length ≤ 1
  connect : ∀ v info, dag.graph.nodeWeight v = some info →
    info.subscribeTopicNames.length ≤ (dag.graph.neighborsDirected v .incoming).length ∧
      info.publishTopicNames.length ≤ (dag.graph.neighborsDirected v .outgoing).length
  single : ∀ t, (dag.graph.edges.filter (·.weight.topicName = t)).length ≤ 1

theorem validateEdgeConnect_eq_none {dagId : Nat}
    (h : validateEdgeConnect dagId graph = none) (v : Nat) (info : NodeInfo)
    (hv : graph.nodeWeight v = some info) :
    info.subscribeTopicNames.length ≤ (graph.neighborsDirected v .incoming).length ∧
      info.publishTopicNames.length ≤ (graph.neighborsDirected v .outgoing).length := by
  have hnode : connectError dagId graph info v = none :=
    findSome?_eq_none_iff.mp h (info, v) (mem_zipIdx_iff_getElem?.mpr hv)
  unfold connectError at hnode
  split at hnode
  · cases hnode
  split at hnode
  · cases hnode
  · exact ⟨not_lt.mp ‹_›, not_lt.mp ‹_›⟩

theorem get_publisherCountsByTopic (graph : TopicGraph) (t : String) :
    ((publisherCountsByTopic graph).get t).getD 0 =
      (graph.edges.filter (·.weight.topicName = t)).length := by
  have hcount : ∀ (l : List (Edge EdgeInfo)) (n : Nat), l.foldl (fun n _ => n + 1) n =
      n + l.length := by
    intro l
    induction l with
    | nil => exact fun n => rfl
    | cons e l ih =>
      intro n
      rw [foldl_cons, ih, length_cons]
      omega
  unfold publisherCountsByTopic
  rw [SortedMap.getD_foldl_insert (fun e : Edge EdgeInfo => e.weight.topicName)
    (fun n _ => n + 1) 0, hcount]
  exact Nat.zero_add _

theorem validateSinglePublisherPerTopic_eq_nil
    (h : validateSinglePublisherPerTopic dag = []) (t : String) :
    (dag.graph.edges.filter (·.weight.topicName = t)).length ≤ 1 := by
  rw [← get_publisherCountsByTopic]
  cases hget : (publisherCountsByTopic dag.graph).get t with
  | none => exact Nat.zero_le 1
  | some n =>
    have hnone := filter_eq_nil_iff.mp (map_eq_nil_iff.mp h) (t, n) (SortedMap.get_eq_some.mp hget)
    simpa using hnone

theorem validateDag_eq_none (h : validateDag algo sys dag = some none) :
    (sys.pendingTasks dag.id).isSome ∧ algo.connectedComponents dag.graph = 1 ∧
      algo.isCyclicDirected dag.graph = false ∧ (dag.graph.externals .incoming).length ≤ 1 ∧
      (dag.graph.externals .outgoing).length ≤ 1 ∧
      validateEdgeConnect dag.id dag.graph = none := by
  unfold validateDag at h
  split at h
  · cases h
  have h := some.inj h
  split_ifs at h with hpending hcomponents hcyclic hsources hsinks
  refine ⟨?_, not_not.mp hcomponents, Bool.eq_false_iff.mpr hcyclic, not_lt.mp hsources,
    not_lt.mp hsinks, h⟩
  exact isSome_iff_ne_none.mpr fun hnone => hpending (by rw [hnone]; rfl)

/-- The checks of one DAG: its records are removed if no check before them fails. -/
theorem validateOne_eq_nil (h : validateOne algo sys dag = some (sys', [])) :
    sys' = ((sys.checkForArityMismatches dag.id).1.checkForPubsubDuplicates dag.id).1 ∧
      validateDag algo (sys.checkForArityMismatches dag.id).1 dag = some none ∧
      validateSinglePublisherPerTopic dag = [] := by
  unfold validateOne at h
  dsimp only at h
  split at h
  · next hne => exact absurd (Prod.mk.inj (some.inj h)).2 hne
  obtain ⟨error, hdag, h⟩ := map_eq_some_iff.mp h
  cases error with
  | some error => exact absurd (Prod.mk.inj h).2 nofun
  | none =>
    dsimp only at h
    split at h
    · next hne => exact absurd (Prod.mk.inj h).2 hne
    · exact ⟨(Prod.mk.inj h).1.symm, hdag, (Prod.mk.inj h).2⟩

theorem validateEach_eq_nil : ∀ {dags : List Dag} {sys sys' : DagSystem},
    validateEach algo sys dags = some (sys', []) → ∀ dag ∈ dags, Passes algo dag := by
  intro dags
  induction dags with
  | nil => exact fun _ => nofun
  | cons first rest ih =>
    intro sys sys' h dag hdag
    obtain ⟨⟨mid, errors⟩, hfirst, h⟩ := bind_eq_some_iff.mp h
    obtain ⟨⟨last, errors'⟩, hrest, heq⟩ := map_eq_some_iff.mp h
    obtain ⟨rfl, rfl⟩ := append_eq_nil_iff.mp (Prod.mk.inj heq).2
    rcases mem_cons.mp hdag with rfl | hdag
    · obtain ⟨-, hvalid, hsingle⟩ := validateOne_eq_nil hfirst
      obtain ⟨-, hcomponents, hacyclic, hsources, hsinks, hconnect⟩ := validateDag_eq_none hvalid
      exact ⟨hcomponents, hacyclic, hsources, hsinks, validateEdgeConnect_eq_none hconnect,
        validateSinglePublisherPerTopic_eq_nil hsingle⟩
    · exact ih hrest dag hdag

theorem validateEach_exact : ∀ {dags : List Dag} {sys : DagSystem},
    (∀ dag ∈ dags, GraphAlgo.Ordered dag.graph) →
      validateEach .exact sys dags = validateEach .passing sys dags := by
  intro dags
  induction dags with
  | nil => exact fun _ => rfl
  | cons first rest ih =>
    intro sys hdags
    obtain ⟨hpos, hinc, hconn⟩ := hdags first mem_cons_self
    have hvalid : ∀ sys, validateDag .exact sys first = validateDag .passing sys first := by
      intro sys
      unfold validateDag
      rw [GraphAlgo.exact_connectedComponents hpos hconn, GraphAlgo.exact_isCyclicDirected hinc]
      rfl
    have hone : validateOne .exact sys first = validateOne .passing sys first := by
      unfold validateOne
      simp only [hvalid]
    unfold validateEach
    rw [hone]
    simp only [ih fun dag hdag => hdags dag (mem_cons_of_mem _ hdag)]

end DagSystem

/-! ### From the counts to the topics -/

namespace Graph

variable {graph : TopicGraph}

variable {t : String} {a : Nat} {s : Fin graph.nodeCount}

theorem lt_of_hasEdge {u v : Nat} (h : graph.HasEdge u v t) :
    u < graph.nodeCount ∧ v < graph.nodeCount := graph.inBounds _ h

theorem mem_edgesDirected_incoming {e : Edge EdgeInfo} :
    e ∈ graph.edgesDirected a .incoming ↔ e ∈ graph.edges ∧ e.target = a := by
  simp [edgesDirected]

theorem mem_edgesDirected_outgoing {e : Edge EdgeInfo} :
    e ∈ graph.edgesDirected a .outgoing ↔ e ∈ graph.edges ∧ e.source = a := by
  simp [edgesDirected]

theorem mem_externals {dir : Direction} :
    a ∈ graph.externals dir ↔ a < graph.nodeCount ∧ ∀ e, e ∉ graph.edgesDirected a dir := by
  unfold externals
  rw [List.mem_filter, List.mem_range, List.isEmpty_iff, neighborsDirected, List.map_eq_nil_iff,
    eq_nil_iff_forall_not_mem]
  rfl

theorem mem_externals_incoming : s.1 ∈ graph.externals .incoming ↔ graph.IsSource s := by
  rw [mem_externals, and_iff_right s.2]
  constructor
  · rintro h u ⟨t, ht⟩
    exact h _ (mem_edgesDirected_incoming.mpr ⟨ht, rfl⟩)
  intro h e he
  obtain ⟨he, htarget⟩ := mem_edgesDirected_incoming.mp he
  refine h ⟨e.source, (graph.inBounds e he).1⟩ ⟨e.weight.topicName, ?_⟩
  rw [← htarget]
  exact he

theorem mem_externals_outgoing : s.1 ∈ graph.externals .outgoing ↔ graph.IsSink s := by
  rw [mem_externals, and_iff_right s.2]
  constructor
  · rintro h v ⟨t, ht⟩
    exact h _ (mem_edgesDirected_outgoing.mpr ⟨ht, rfl⟩)
  intro h e he
  obtain ⟨he, hsource⟩ := mem_edgesDirected_outgoing.mp he
  refine h ⟨e.target, (graph.inBounds e he).2⟩ ⟨e.weight.topicName, ?_⟩
  rw [← hsource]
  exact he

theorem eq_of_length_le_one {α : Type*} {l : List α} (h : l.length ≤ 1) {a b : α} (ha : a ∈ l)
    (hb : b ∈ l) : a = b := by
  match l, h with
  | [_], _ => exact (mem_singleton.mp ha).trans (mem_singleton.mp hb).symm

/-- A relation without a cycle on a finite, nonempty type has a minimal element. -/
theorem exists_minimal {α : Type*} [Finite α] [Nonempty α] {r : α → α → Prop}
    (h : ∀ a, ¬ TransGen r a a) : ∃ a, ∀ b, ¬ r b a := by
  have : IsTrans α (TransGen r) := ⟨fun _ _ _ => TransGen.trans⟩
  have : Std.Irrefl (TransGen r) := ⟨h⟩
  obtain ⟨a, -, hmin⟩ := (Finite.wellFounded_of_trans_of_irrefl (TransGen r)).has_min
    Set.univ Set.univ_nonempty
  exact ⟨a, fun b hb => hmin b trivial (.single hb)⟩

theorem connected_of_card (h : Nat.card (Quot graph.Adj) = 1) :
    0 < graph.nodeCount ∧ ∀ a b, EqvGen graph.Adj a b := by
  obtain ⟨hsub, ⟨q⟩⟩ := Nat.card_eq_one_iff_unique.mp h
  obtain ⟨a, -⟩ := Quot.exists_rep q
  exact ⟨a.pos, fun a b => Quot.eqvGen_exact (Subsingleton.elim _ _)⟩

/-- The labels of the edges of a node. -/
def labels (graph : TopicGraph) (a : Nat) (dir : Direction) : List String :=
  (graph.edgesDirected a dir).map (·.weight.topicName)

theorem length_labels (a : Nat) (dir : Direction) :
    (graph.labels a dir).length = (graph.neighborsDirected a dir).length := by
  unfold labels neighborsDirected
  rw [length_map, length_map]

theorem mem_labels_incoming {v : Nat} :
    t ∈ graph.labels v .incoming ↔ ∃ u, graph.HasEdge u v t := by
  constructor
  · intro h
    obtain ⟨⟨u, v', info⟩, hmem, rfl⟩ := mem_map.mp h
    obtain ⟨he, rfl⟩ := mem_edgesDirected_incoming.mp hmem
    exact ⟨u, he⟩
  · rintro ⟨u, he⟩
    exact mem_map.mpr ⟨_, mem_edgesDirected_incoming.mpr ⟨he, rfl⟩, rfl⟩

theorem mem_labels_outgoing {u : Nat} :
    t ∈ graph.labels u .outgoing ↔ ∃ v, graph.HasEdge u v t := by
  constructor
  · intro h
    obtain ⟨⟨u', v, info⟩, hmem, rfl⟩ := mem_map.mp h
    obtain ⟨he, rfl⟩ := mem_edgesDirected_outgoing.mp hmem
    exact ⟨v, he⟩
  · rintro ⟨v, he⟩
    exact mem_map.mpr ⟨_, mem_edgesDirected_outgoing.mpr ⟨he, rfl⟩, rfl⟩

section SinglePublisher

variable (hsingle : ∀ t, (graph.edges.filter (·.weight.topicName = t)).length ≤ 1)

include hsingle

theorem edge_unique {u u' v v' : Nat} {t : String} (h : graph.HasEdge u v t)
    (h' : graph.HasEdge u' v' t) : u = u' ∧ v = v' := by
  have heq : (⟨u, v, ⟨t⟩⟩ : Edge EdgeInfo) = ⟨u', v', ⟨t⟩⟩ :=
    eq_of_length_le_one (hsingle t) (mem_filter.mpr ⟨h, by simp⟩) (mem_filter.mpr ⟨h', by simp⟩)
  exact ⟨(Edge.mk.inj heq).1, (Edge.mk.inj heq).2.1⟩

theorem nodup_labels (a : Nat) (dir : Direction) : (graph.labels a dir).Nodup := by
  have hall : (graph.edges.map (·.weight.topicName)).Nodup := by
    refine nodup_iff_count_le_one.mpr fun t => ?_
    rw [count_eq_countP, countP_map, countP_eq_length_filter]
    exact hsingle t
  cases dir with
  | outgoing | incoming => exact hall.sublist (filter_sublist.map _)

/-- **The counting argument**: labels that are all listed, and as many as the list, are the
list in another order. -/
theorem labels_perm {dir : Direction} {topics : List String} (hsub : graph.labels a dir ⊆ topics)
    (hlen : topics.length ≤ (graph.neighborsDirected a dir).length) :
    (graph.labels a dir).Perm topics :=
  ((nodup_labels hsingle a dir).subperm hsub).perm_of_length_le (by rw [length_labels]; exact hlen)

end SinglePublisher

end Graph

/-- **The checks of a DAG are enough.** -/
theorem DagSystem.Passes.valid {algo : GraphAlgo} (halgo : algo.Correct) {dag : Dag}
    (h : Passes algo dag) (hlinked : dag.graph.Linked) : dag.graph.Valid := by
  obtain ⟨hpos, hconnected⟩ := Graph.connected_of_card
    ((halgo.connectedComponents dag.graph).symm.trans h.components)
  have hacyclic : ∀ a, ¬ TransGen dag.graph.Adj a a := by
    intro a ha
    have hcyclic := (halgo.isCyclicDirected dag.graph).mpr ⟨a, ha⟩
    rw [h.acyclic] at hcyclic
    cases hcyclic
  have : Nonempty (Fin dag.graph.nodeCount) := ⟨⟨0, hpos⟩⟩
  -- the labels at a node are its topics in another order
  have hsubs : ∀ {v info}, dag.graph.nodeWeight v = some info →
      (dag.graph.labels v .incoming).Perm info.subscribeTopicNames := by
    intro v info hv
    refine Graph.labels_perm h.single ?_ (h.connect v info hv).1
    intro t ht
    obtain ⟨u, he⟩ := Graph.mem_labels_incoming.mp ht
    obtain ⟨info', hinfo', hmem⟩ := ((hlinked u v t).mp he).2
    rwa [some.inj (hinfo'.symm.trans hv)] at hmem
  have hpubs : ∀ {u info}, dag.graph.nodeWeight u = some info →
      (dag.graph.labels u .outgoing).Perm info.publishTopicNames := by
    intro u info hu
    refine Graph.labels_perm h.single ?_ (h.connect u info hu).2
    intro t ht
    obtain ⟨v, he⟩ := Graph.mem_labels_outgoing.mp ht
    obtain ⟨info', hinfo', hmem⟩ := ((hlinked u v t).mp he).1
    rwa [some.inj (hinfo'.symm.trans hu)] at hmem
  have hin : ∀ {v t}, dag.graph.Subscribes v t → ∃ u, dag.graph.HasEdge u v t := by
    rintro v t ⟨info, hv, ht⟩
    exact Graph.mem_labels_incoming.mp ((hsubs hv).mem_iff.mpr ht)
  have hout : ∀ {u t}, dag.graph.Publishes u t → ∃ v, dag.graph.HasEdge u v t := by
    rintro u t ⟨info, hu, ht⟩
    exact Graph.mem_labels_outgoing.mp ((hpubs hu).mem_iff.mpr ht)
  refine ⟨hpos, hacyclic, hconnected, ?_, ?_, ?_, ?_, ?_⟩
  · obtain ⟨s, hs⟩ := Graph.exists_minimal hacyclic
    refine ⟨s, hs, fun s' hs' => Fin.ext ?_⟩
    exact Graph.eq_of_length_le_one h.sources (Graph.mem_externals_incoming.mpr hs')
      (Graph.mem_externals_incoming.mpr hs)
  · obtain ⟨s, hs⟩ := Graph.exists_minimal (r := Function.swap dag.graph.Adj)
      fun a ha => hacyclic a (transGen_swap.mp ha)
    refine ⟨s, hs, fun s' hs' => Fin.ext ?_⟩
    exact Graph.eq_of_length_le_one h.sinks (Graph.mem_externals_outgoing.mpr hs')
      (Graph.mem_externals_outgoing.mpr hs)
  · intro v t hsub
    obtain ⟨u, he⟩ := hin hsub
    refine ⟨u, ((hlinked u v t).mp he).1, fun u' hu' => ?_⟩
    exact (Graph.edge_unique h.single ((hlinked u' v t).mpr ⟨hu', hsub⟩) he).1
  · intro u t hpub
    obtain ⟨v, he⟩ := hout hpub
    refine ⟨v, ((hlinked u v t).mp he).2, fun v' hv' => ?_⟩
    exact (Graph.edge_unique h.single ((hlinked u v' t).mpr ⟨hpub, hv'⟩) he).2
  · intro v info hv
    refine nodup_append'.mpr ⟨(hsubs hv).nodup_iff.mp (Graph.nodup_labels h.single v _),
      (hpubs hv).nodup_iff.mp (Graph.nodup_labels h.single v _), ?_⟩
    -- a topic that a node subscribes to and publishes is an edge to itself
    intro t hsub hpub
    have hv' : v < dag.graph.nodeCount := (List.getElem?_eq_some_iff.mp hv).1
    exact hacyclic ⟨v, hv'⟩ (.single ⟨t, (hlinked v v t).mpr ⟨⟨info, hv, hpub⟩, ⟨info, hv, hsub⟩⟩⟩)

/-! ### Topics of several DAGs -/

namespace DagSystem

/-- A topic labels an edge of the graph. -/
def Labels (dag : Dag) (t : String) : Prop := ∃ u v, dag.graph.HasEdge u v t

theorem get_topicToDags (dags : List Dag) (t : String) : ((topicToDags dags).get t).getD [] =
      ((dags.flatMap fun dag => dag.graph.edges.map fun e => (e.weight.topicName, dag.id)).filter
        (·.1 = t)).map Prod.snd := by
  have hconcat : ∀ (l : List (String × Nat)) (ids : List Nat),
      l.foldl (fun ids e => ids ++ [e.2]) ids = ids ++ l.map Prod.snd := by
    intro l
    induction l with
    | nil => exact fun ids => (append_nil ids).symm
    | cons e l ih =>
      intro ids
      rw [foldl_cons, ih, append_assoc]
      rfl
  have hfold : topicToDags dags =
      (dags.flatMap fun dag => dag.graph.edges.map fun e => (e.weight.topicName, dag.id)).foldl
        (fun acc e => acc.insert e.1 ((acc.get e.1).getD [] ++ [e.2])) .empty := by
    rw [foldl_flatMap]
    simp only [foldl_map]
    rfl
  rw [hfold, SortedMap.getD_foldl_insert Prod.fst (fun ids e => ids ++ [e.2]) [], hconcat]
  rfl

/-- Without a conflict, two registered DAGs that share a topic have the same id. -/
theorem validateDagTopicConflicts_eq_nil {sys : DagSystem}
    (h : sys.validateDagTopicConflicts = []) {dag dag' : Dag} (hdag : dag ∈ sys.registered)
    (hdag' : dag' ∈ sys.registered) {t : String} (ht : Labels dag t) (ht' : Labels dag' t) :
    dag.id = dag'.id := by
  have hmem : ∀ {d : Dag}, d ∈ sys.registered → Labels d t →
      d.id ∈ ((topicToDags sys.registered).get t).getD [] := by
    rintro d hd ⟨u, v, he⟩
    rw [get_topicToDags]
    refine mem_map.mpr ⟨(t, d.id), mem_filter.mpr ⟨?_, by simp⟩, rfl⟩
    exact mem_flatMap.mpr ⟨d, hd, mem_map.mpr ⟨_, he, rfl⟩⟩
  have hid := hmem hdag ht
  have hid' := hmem hdag' ht'
  cases hget : (topicToDags sys.registered).get t with
  | none =>
    rw [hget] at hid
    cases hid
  | some ids =>
    rw [hget] at hid hid'
    have hnone := filterMap_eq_nil_iff.mp h (t, ids) (SortedMap.get_eq_some.mp hget)
    have hlen : (ids.insertionSort (· ≤ ·)).dedup.length ≤ 1 := by
      by_contra hlt
      dsimp only at hnone
      rw [if_pos (not_le.mp hlt)] at hnone
      cases hnone
    have hsort : ∀ {x}, x ∈ ids → x ∈ (ids.insertionSort (· ≤ ·)).dedup := fun hx =>
      mem_dedup.mpr ((mem_insertionSort _).mpr hx)
    exact Graph.eq_of_length_le_one hlen (hsort hid) (hsort hid')

/-- No topic labels edges of two registered DAGs. -/
def NoSharedTopic (sys : DagSystem) : Prop :=
  ∀ {id id' dag dag' t}, sys.getDag id = some dag → sys.getDag id' = some dag' →
    Labels dag t → Labels dag' t → id = id'

theorem mem_registered {sys : DagSystem} {id : Nat} {dag : Dag} (h : sys.getDag id = some dag) :
    dag ∈ sys.registered := by
  obtain ⟨handle, hget, hdag⟩ := bind_eq_some_iff.mp h
  exact mem_filterMap.mpr ⟨(id, handle), SortedMap.get_eq_some.mp hget, hdag⟩

theorem validateEach_frame {algo : GraphAlgo} : ∀ {dags : List Dag} {sys sys' : DagSystem}
    {errors : List DagError}, validateEach algo sys dags = some (sys', errors) →
      sys'.arcs = sys.arcs ∧ sys'.idToDag = sys.idToDag := by
  intro dags
  induction dags with
  | nil =>
    intro sys sys' errors h
    cases h
    exact ⟨rfl, rfl⟩
  | cons first rest ih =>
    intro sys sys' errors h
    obtain ⟨⟨mid, errors₁⟩, hfirst, h⟩ := bind_eq_some_iff.mp h
    obtain ⟨⟨last, errors₂⟩, hrest, heq⟩ := map_eq_some_iff.mp h
    cases heq
    have hmid : mid.arcs = sys.arcs ∧ mid.idToDag = sys.idToDag := by
      unfold validateOne at hfirst
      dsimp only at hfirst
      split at hfirst
      · cases hfirst
        exact ⟨rfl, rfl⟩
      obtain ⟨error, -, hfirst⟩ := map_eq_some_iff.mp hfirst
      cases error with
      | some error =>
        cases hfirst
        exact ⟨rfl, rfl⟩
      | none =>
        dsimp only at hfirst
        split at hfirst <;>
        · cases hfirst
          exact ⟨rfl, rfl⟩
    obtain ⟨harcs, hreg⟩ := ih hrest
    exact ⟨harcs.trans hmid.1, hreg.trans hmid.2⟩

/-- **Validation is sound.** Whatever calls built the DAGs, if `validate_all_rules` returns
`Ok` then every listed DAG is valid, and no topic is shared by two registered DAGs. -/
theorem validateAllRules_sound {algo : GraphAlgo} (halgo : algo.Correct) {sys sys' : DagSystem}
    (hsys : Reaches step (fun _ _ => True) init sys) {dags : List Dag}
    (hdags : ∀ dag ∈ dags, dag ∈ sys.arcs)
    (hok : validateAllRules algo sys dags = some (sys', [])) :
    (∀ dag ∈ dags, dag.graph.Valid) ∧ sys.NoSharedTopic := by
  have hcoherent : sys.Coherent :=
    hsys.invariant .init fun _ _ _ hs _ hstep => hs.step hstep
  obtain ⟨⟨mid, errors⟩, heach, heq⟩ := map_eq_some_iff.mp hok
  dsimp only at heq
  split at heq
  · next hne => exact absurd (Prod.mk.inj heq).2 hne
  next hnil =>
  obtain rfl : errors = [] := not_not.mp hnil
  refine ⟨fun dag hdag => ?_, fun {id id' dag dag' t} hget hget' ht ht' => ?_⟩
  · obtain ⟨h, hh⟩ := mem_iff_getElem?.mp (hdags dag hdag)
    exact (validateEach_eq_nil heach dag hdag).valid halgo (hcoherent.built hh).linked
  obtain ⟨harcs, hreg⟩ := validateEach_frame heach
  have hmid : ∀ {id dag}, sys.getDag id = some dag → dag ∈ mid.registered := by
    intro id dag hget
    have hget' : mid.getDag id = some dag := by
      unfold getDag
      rw [harcs, hreg]
      exact hget
    exact mem_registered hget'
  have hid : ∀ {id dag}, sys.getDag id = some dag → dag.id = id := by
    intro id dag hget
    obtain ⟨h, hh, hdag⟩ := bind_eq_some_iff.mp hget
    obtain ⟨d, hd, hdid⟩ := hcoherent.registered hh
    rwa [← some.inj (hd.symm.trans hdag)]
  rw [← hid hget, ← hid hget']
  exact validateDagTopicConflicts_eq_nil (Prod.mk.inj heq).2 (hmid hget) (hmid hget') ht ht'

/-- A periodic reactor and a sink. -/
def twoReactors : List Write :=
  [.create, .register 0 (.periodic [7] ["a"] (.gedf 0) 10),
    .register 0 (.sink [7] ["a"] (.gedf 0) 10)]

/-- The two reactors are accepted. -/
theorem validateAllRules_sound_twoReactors : ∃ sys dag sys',
    Reaches step (fun _ _ => True) init sys ∧ dag ∈ sys.arcs ∧
      validateAllRules .exact sys [dag] = some (sys', []) ∧ dag.graph.Valid := by
  obtain ⟨sys, hrun, hsys⟩ := exists_of_run_any (guarded step fun _ _ => True) init twoReactors
    (fun sys => sys.arcs.head?.any fun dag => decide (GraphAlgo.Ordered dag.graph) &&
      decide ((validateAllRules .passing sys [dag]).map Prod.snd = some [])) (by decide)
  obtain ⟨dag, hdag, hpass⟩ := (any_eq_true _ _).mp hsys
  obtain ⟨hordered, hvalid⟩ := (Bool.and_eq_true _ _).mp hpass
  have hmem : dag ∈ sys.arcs := mem_of_mem_head? hdag
  obtain ⟨⟨sys', errors⟩, hvalid, rfl⟩ := map_eq_some_iff.mp (of_decide_eq_true hvalid)
  have hall : ∀ d ∈ [dag], GraphAlgo.Ordered d.graph ∧ d ∈ sys.arcs := fun d hd => by
    rw [mem_singleton.mp hd]
    exact ⟨of_decide_eq_true hordered, hmem⟩
  have hexact : validateAllRules .exact sys [dag] = some (sys', []) := by
    unfold validateAllRules
    rw [validateEach_exact fun d hd => (hall d hd).1]
    exact hvalid
  have hreach := Reaches.of_run hrun
  exact ⟨sys, dag, sys', hreach, hmem, hexact, (validateAllRules_sound GraphAlgo.exact_correct
    hreach (fun d hd => (hall d hd).2) hexact).1 dag (mem_singleton_self dag)⟩

end DagSystem

end Awkernel
