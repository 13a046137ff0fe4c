import Awkernel.Dag.Graph

/-!
# Building the graph of a DAG

`Dag::add_node_with_topic_edges` adds a node with the topics it subscribes to and publishes,
and an edge, labelled with the topic, for every topic that one node publishes and the other
subscribes to. A topic that a node lists twice may give two edges, and a node that
subscribes to a topic it publishes gets edges to itself.

`Linked` is what the order of the calls does not change: there is an edge from `u` to `v`
labelled `t` exactly if `u` publishes `t` and `v` subscribes to it. Every graph that is built
this way is linked (`Built.linked`).
-/

namespace Awkernel

open List

/-- The graph of a DAG. -/
abbrev TopicGraph := Graph NodeInfo EdgeInfo

namespace Graph

/-- The loop that adds the edges. -/
def addEdges (graph : TopicGraph) : List (Nat × Nat × String) → Option TopicGraph
  | [] => some graph
  | (source, target, topicName) :: rest =>
    (graph.addEdge source target ⟨topicName⟩).bind fun graph => graph.addEdges rest

/-- The edges between the new node and the node `id`, which may be the new node itself. -/
def edgesWith (newIdx : Nat) (subscribeTopicNames publishTopicNames : List String)
    (nodeInfo : NodeInfo) (id : Nat) : List (Nat × Nat × String) :=
  let edgesFrom := (nodeInfo.subscribeTopicNames.filter (· ∈ publishTopicNames)).map fun topic =>
    (newIdx, id, topic)
  let edgesTo := (nodeInfo.publishTopicNames.filter (· ∈ subscribeTopicNames)).map fun topic =>
    (id, newIdx, topic)
  edgesTo ++ edgesFrom

/-- The weight of a new node. -/
def newNodeInfo (subscribeTopicNames publishTopicNames : List String) : NodeInfo where
  taskId := 0
  subscribeTopicNames := subscribeTopicNames
  publishTopicNames := publishTopicNames
  relativeDeadline := none
  numFinished := 0
  deadlineJob := none

/-- The graph part of `Dag::add_node_with_topic_edges`. -/
def addNodeWithTopicEdges (graph : TopicGraph)
    (subscribeTopicNames publishTopicNames : List String) : Option (TopicGraph × Nat) :=
  (graph.addNode (newNodeInfo subscribeTopicNames publishTopicNames)).bind fun (graph, newIdx) =>
    let edgesToAdd := graph.nodes.zipIdx.flatMap fun (nodeInfo, id) =>
      edgesWith newIdx subscribeTopicNames publishTopicNames nodeInfo id
    (graph.addEdges edgesToAdd).map fun graph => (graph, newIdx)

/-! ### The edges -/

/-- There is an edge from `u` to `v` labelled `t`. -/
def HasEdge (graph : TopicGraph) (u v : Nat) (t : String) : Prop := ⟨u, v, ⟨t⟩⟩ ∈ graph.edges

/-- Node `u` publishes `t`. -/
def Publishes (graph : TopicGraph) (u : Nat) (t : String) : Prop :=
  ∃ info, graph.nodeWeight u = some info ∧ t ∈ info.publishTopicNames

/-- Node `v` subscribes to `t`. -/
def Subscribes (graph : TopicGraph) (v : Nat) (t : String) : Prop :=
  ∃ info, graph.nodeWeight v = some info ∧ t ∈ info.subscribeTopicNames

/-- **The edges are the topics**: those that one node publishes and the other subscribes to. -/
def Linked (graph : TopicGraph) : Prop :=
  ∀ u v t, graph.HasEdge u v t ↔ graph.Publishes u t ∧ graph.Subscribes v t

variable {graph graph' : TopicGraph} {info : NodeInfo} {subs pubs : List String} {idx : Nat}

theorem addEdge_spec {a b : Nat} {info : EdgeInfo} (h : graph.addEdge a b info = some graph') :
    graph'.nodes = graph.nodes ∧ graph'.edges = graph.edges ++ [⟨a, b, info⟩] := by
  unfold addEdge at h
  split at h
  · cases h
  split at h
  · cases h
    exact ⟨rfl, rfl⟩
  · cases h

theorem addEdges_spec : ∀ {edges : List (Nat × Nat × String)} {graph graph' : TopicGraph},
    graph.addEdges edges = some graph' → graph'.nodes = graph.nodes ∧
        graph'.edges = graph.edges ++ edges.map fun e => ⟨e.1, e.2.1, ⟨e.2.2⟩⟩ := by
  intro edges
  induction edges with
  | nil =>
    intro graph graph' h
    cases h
    exact ⟨rfl, (append_nil _).symm⟩
  | cons e edges ih =>
    intro graph graph' h
    obtain ⟨mid, hmid, hrest⟩ := Option.bind_eq_some_iff.mp h
    obtain ⟨hnodes, hedges⟩ := addEdge_spec hmid
    obtain ⟨hnodes', hedges'⟩ := ih hrest
    refine ⟨hnodes'.trans hnodes, ?_⟩
    rw [hedges', hedges, append_assoc]
    rfl

theorem addNode_spec (h : graph.addNode info = some (graph', idx)) :
    idx = graph.nodes.length ∧ graph'.nodes = graph.nodes ++ [info] ∧
      graph'.edges = graph.edges := by
  obtain ⟨-, ⟨⟩⟩ := Option.ite_none_left_eq_some.mp h
  exact ⟨rfl, rfl, rfl⟩

theorem mem_edgesWith {newIdx id : Nat} {u v : Nat} {t : String} :
    (u, v, t) ∈ edgesWith newIdx subs pubs info id ↔
      u = id ∧ v = newIdx ∧ t ∈ info.publishTopicNames ∧ t ∈ subs ∨
        u = newIdx ∧ v = id ∧ t ∈ info.subscribeTopicNames ∧ t ∈ pubs := by
  simp only [edgesWith, mem_append, mem_map, mem_filter, decide_eq_true_eq, Prod.mk.injEq]
  constructor
  · rintro (⟨topic, ⟨hpub, hsub⟩, rfl, rfl, rfl⟩ | ⟨topic, ⟨hsub, hpub⟩, rfl, rfl, rfl⟩)
    · exact .inl ⟨rfl, rfl, hpub, hsub⟩
    · exact .inr ⟨rfl, rfl, hsub, hpub⟩
  · rintro (⟨rfl, rfl, hpub, hsub⟩ | ⟨rfl, rfl, hsub, hpub⟩)
    · exact .inl ⟨t, ⟨hpub, hsub⟩, rfl, rfl, rfl⟩
    · exact .inr ⟨t, ⟨hsub, hpub⟩, rfl, rfl, rfl⟩

/-- `Dag::add_node_with_topic_edges` adds one node, and the edges from and to it. -/
theorem addNodeWithTopicEdges_spec
    (h : graph.addNodeWithTopicEdges subs pubs = some (graph', idx)) :
    idx = graph.nodes.length ∧ graph'.nodes = graph.nodes ++ [newNodeInfo subs pubs] ∧
      ∀ u v t, graph'.HasEdge u v t ↔ graph.HasEdge u v t ∨
        u < idx + 1 ∧ v = idx ∧ graph'.Publishes u t ∧ t ∈ subs ∨
        u = idx ∧ v < idx + 1 ∧ graph'.Subscribes v t ∧ t ∈ pubs := by
  obtain ⟨⟨mid, newIdx⟩, hmid, h⟩ := Option.bind_eq_some_iff.mp h
  obtain ⟨graph'', hedges, heq⟩ := Option.map_eq_some_iff.mp h
  obtain ⟨rfl, rfl⟩ := Prod.mk.inj heq
  obtain ⟨rfl, hnodes, hedges₀⟩ := addNode_spec hmid
  obtain ⟨hnodes', hedges'⟩ := addEdges_spec hedges
  refine ⟨rfl, hnodes'.trans hnodes, fun u v t => ?_⟩
  have hlen : mid.nodes.length = graph.nodes.length + 1 := by
    rw [hnodes, length_append]
    rfl
  -- a new edge comes from some node of the graph, the new one included
  have hnew : (∃ info id, mid.nodes[id]? = some info ∧
      (u, v, t) ∈ edgesWith graph.nodes.length subs pubs info id) ↔
      u < graph.nodes.length + 1 ∧ v = graph.nodes.length ∧ graph''.Publishes u t ∧ t ∈ subs ∨
      u = graph.nodes.length ∧ v < graph.nodes.length + 1 ∧ graph''.Subscribes v t ∧ t ∈ pubs := by
    have hlt : ∀ {id info}, mid.nodes[id]? = some info → id < graph.nodes.length + 1 := by
      intro id info hid
      rw [← hlen]
      exact (List.getElem?_eq_some_iff.mp hid).1
    unfold Publishes Subscribes nodeWeight
    rw [hnodes']
    constructor
    · rintro ⟨info, id, hid, hmem⟩
      obtain ⟨rfl, rfl, hpub, hsub⟩ | ⟨rfl, rfl, hsub, hpub⟩ := mem_edgesWith.mp hmem
      · exact .inl ⟨hlt hid, rfl, ⟨info, hid, hpub⟩, hsub⟩
      · exact .inr ⟨rfl, hlt hid, ⟨info, hid, hsub⟩, hpub⟩
    · rintro (⟨-, rfl, ⟨info, hid, hpub⟩, hsub⟩ | ⟨rfl, -, ⟨info, hid, hsub⟩, hpub⟩)
      · exact ⟨info, u, hid, mem_edgesWith.mpr (.inl ⟨rfl, rfl, hpub, hsub⟩)⟩
      · exact ⟨info, v, hid, mem_edgesWith.mpr (.inr ⟨rfl, rfl, hsub, hpub⟩)⟩
  rw [← hnew]
  unfold HasEdge
  rw [hedges', hedges₀, mem_append, mem_map]
  refine or_congr Iff.rfl ?_
  constructor
  · rintro ⟨⟨a, b, topic⟩, hmem, heq⟩
    obtain ⟨rfl, rfl, hweight⟩ := Edge.mk.inj heq
    obtain rfl := EdgeInfo.mk.inj hweight
    obtain ⟨⟨info, id⟩, hid, hmem⟩ := mem_flatMap.mp hmem
    exact ⟨info, id, (mem_zipIdx_iff_getElem?.mp hid), hmem⟩
  · rintro ⟨info, id, hid, hmem⟩
    exact ⟨(u, v, t), mem_flatMap.mpr ⟨(info, id), mem_zipIdx_iff_getElem?.mpr hid, hmem⟩, rfl⟩

/-! ### Built graphs -/

/-- The graphs built by calls of `Dag::add_node_with_topic_edges`; other fields of the nodes
may be written in between. -/
inductive Built : TopicGraph → Prop
  | new : Built .new
  | addNode {graph graph' : TopicGraph} {subs pubs : List String} {idx : Nat} :
      Built graph → graph.addNodeWithTopicEdges subs pubs = some (graph', idx) → Built graph'
  | modifyNode {graph : TopicGraph} {a : Nat} {f : NodeInfo → NodeInfo} : Built graph →
      (∀ info, (f info).subscribeTopicNames = info.subscribeTopicNames ∧
        (f info).publishTopicNames = info.publishTopicNames) → Built (graph.modifyNode a f)

theorem nodeWeight_append (hnodes : graph'.nodes = graph.nodes ++ [info]) (a : Nat) :
    graph'.nodeWeight a = if a = graph.nodes.length then some info else graph.nodeWeight a := by
  unfold nodeWeight
  rw [hnodes]
  by_cases ha : a = graph.nodes.length
  · subst ha
    rw [if_pos rfl, getElem?_concat_length]
  rw [if_neg ha]
  by_cases hlt : a < graph.nodes.length
  · exact getElem?_append_left hlt
  · rw [getElem?_eq_none (by rw [length_append, length_singleton]; omega),
      getElem?_eq_none (not_lt.mp hlt)]

/-- The edges of a new node are those to the nodes that share a topic. -/
theorem Linked.addNode (h : graph.Linked)
    (hadd : graph.addNodeWithTopicEdges subs pubs = some (graph', idx)) :
    graph'.Linked := by
  obtain ⟨rfl, hnodes, hedges⟩ := addNodeWithTopicEdges_spec hadd
  have hweight := nodeWeight_append hnodes
  have hpub : ∀ u t, graph'.Publishes u t ↔
      u = graph.nodes.length ∧ t ∈ pubs ∨ u ≠ graph.nodes.length ∧ graph.Publishes u t := by
    intro u t
    unfold Publishes
    rw [hweight]
    by_cases hu : u = graph.nodes.length <;> simp [hu, newNodeInfo]
  have hsub : ∀ v t, graph'.Subscribes v t ↔
      v = graph.nodes.length ∧ t ∈ subs ∨ v ≠ graph.nodes.length ∧ graph.Subscribes v t := by
    intro v t
    unfold Subscribes
    rw [hweight]
    by_cases hv : v = graph.nodes.length <;> simp [hv, newNodeInfo]
  have hlt : ∀ {u t}, graph'.Publishes u t ∨ graph'.Subscribes u t →
      u < graph.nodes.length + 1 := by
    rintro u t (⟨info, hinfo, -⟩ | ⟨info, hinfo, -⟩) <;>
    · have := (List.getElem?_eq_some_iff.mp hinfo).1
      rwa [hnodes, length_append] at this
  have hold : ∀ {u}, u < graph.nodes.length → u ≠ graph.nodes.length := Nat.ne_of_lt
  intro u v t
  rw [hedges, h u v t]
  constructor
  · rintro (⟨hp, hs⟩ | ⟨-, rfl, hp, ht⟩ | ⟨rfl, -, hs, ht⟩)
    · obtain ⟨info, hinfo, -⟩ := id hp
      obtain ⟨info', hinfo', -⟩ := id hs
      exact ⟨(hpub u t).mpr (.inr ⟨hold (List.getElem?_eq_some_iff.mp hinfo).1, hp⟩),
        (hsub v t).mpr (.inr ⟨hold (List.getElem?_eq_some_iff.mp hinfo').1, hs⟩)⟩
    · exact ⟨hp, (hsub _ t).mpr (.inl ⟨rfl, ht⟩)⟩
    · exact ⟨(hpub _ t).mpr (.inl ⟨rfl, ht⟩), hs⟩
  · rintro ⟨hp, hs⟩
    obtain ⟨rfl, ht⟩ | ⟨-, hp₀⟩ := (hpub u t).mp hp
    · exact .inr (.inr ⟨rfl, hlt (.inr hs), hs, ht⟩)
    obtain ⟨rfl, ht⟩ | ⟨-, hs₀⟩ := (hsub v t).mp hs
    · exact .inr (.inl ⟨hlt (.inl hp), rfl, hp, ht⟩)
    · exact .inl ⟨hp₀, hs₀⟩

theorem Linked.modifyNode (h : graph.Linked) {a : Nat} {f : NodeInfo → NodeInfo}
    (hf : ∀ info, (f info).subscribeTopicNames = info.subscribeTopicNames ∧
      (f info).publishTopicNames = info.publishTopicNames) : (graph.modifyNode a f).Linked := by
  have hpub : ∀ u t, (graph.modifyNode a f).Publishes u t ↔ graph.Publishes u t := by
    intro u t
    unfold Publishes
    rw [nodeWeight_modifyNode]
    by_cases hu : a = u
    · cases graph.nodeWeight u <;> simp [hu, hf]
    · simp [hu]
  have hsub : ∀ v t, (graph.modifyNode a f).Subscribes v t ↔ graph.Subscribes v t := by
    intro v t
    unfold Subscribes
    rw [nodeWeight_modifyNode]
    by_cases hv : a = v
    · cases graph.nodeWeight v <;> simp [hv, hf]
    · simp [hv]
  intro u v t
  rw [hpub, hsub]
  exact h u v t

/-- **Every graph that is built is linked.** -/
theorem Built.linked (h : graph.Built) : graph.Linked := by
  induction h with
  | new =>
    intro u v t
    refine iff_of_false (not_mem_nil) ?_
    rintro ⟨⟨info, hinfo, -⟩, -⟩
    cases hinfo
  | addNode _ hadd ih => exact ih.addNode hadd
  | modifyNode _ hf ih => exact ih.modifyNode hf

end Graph

end Awkernel
