import Awkernel.Lib.SortedMap

/-!
# The graph of a DAG

`awkernel_async_lib/src/dag/graph.rs`: a directed graph that may have several edges
between two nodes. The nodes and the edges are numbered in the order in which they were
added. The source keeps, for each node, linked lists of its outgoing and of its incoming
edges; here the edges of a node are read off the list of all edges, and a graph carries the
proof that the ends of its edges are nodes.

`NodeInfo` and `Dag` are the weights and the record of `dag.rs`.
-/

namespace Awkernel

open List

/-- `Direction`. -/
inductive Direction
  | outgoing
  | incoming
  deriving DecidableEq

structure Edge (E : Type) where
  source : Nat
  target : Nat
  weight : E
  deriving DecidableEq

/-- `Graph<N, E>`. -/
structure Graph (N E : Type) where
  nodes : List N
  edges : List (Edge E)
  inBounds : ∀ e ∈ edges, e.source < nodes.length ∧ e.target < nodes.length

/-- `NodeIndex::end()` and `EdgeIndex::end()`; indices are of type `u32`. -/
def indexEnd : Nat := 2 ^ 32 - 1

namespace Graph

variable {N E : Type}

/-- `Graph::new`. -/
def new : Graph N E := ⟨[], [], nofun⟩

def nodeCount (graph : Graph N E) : Nat := graph.nodes.length

/-- `Graph::add_node`; `none` is a failed assertion. -/
def addNode (graph : Graph N E) (weight : N) : Option (Graph N E × Nat) :=
  if graph.nodes.length = indexEnd then none
  else some ({
    nodes := graph.nodes ++ [weight]
    edges := graph.edges
    inBounds := fun e he => by
      have h := graph.inBounds e he
      rw [length_append]
      exact ⟨h.1.trans_le (Nat.le_add_right _ _), h.2.trans_le (Nat.le_add_right _ _)⟩ },
    graph.nodes.length)

/-- `Graph::add_edge`; `none` is a failed assertion or a node that does not exist. -/
def addEdge (graph : Graph N E) (a b : Nat) (weight : E) : Option (Graph N E) :=
  if graph.edges.length = indexEnd then none
  else if h : a < graph.nodes.length ∧ b < graph.nodes.length then
    some { graph with
      edges := graph.edges ++ [⟨a, b, weight⟩]
      inBounds := fun e he => by
        rcases mem_append.mp he with he | he
        · exact graph.inBounds e he
        · rw [mem_singleton.mp he]
          exact h }
  else none

/-- `Graph::node_weight`. -/
def nodeWeight (graph : Graph N E) (a : Nat) : Option N := graph.nodes[a]?

/-- A write through `Graph::node_weight_mut`. -/
def modifyNode (graph : Graph N E) (a : Nat) (f : N → N) : Graph N E where
  nodes := graph.nodes.modify a f
  edges := graph.edges
  inBounds := by
    rw [length_modify]
    exact graph.inBounds

/-- The edges of `a` in a direction. -/
def edgesDirected (graph : Graph N E) (a : Nat) : Direction → List (Edge E)
  | .outgoing => graph.edges.filter fun e => e.source = a
  | .incoming => graph.edges.filter fun e => e.target = a

/-- `Graph::neighbors_directed`: one entry for each edge. -/
def neighborsDirected (graph : Graph N E) (a : Nat) (dir : Direction) : List Nat :=
  (graph.edgesDirected a dir).map fun e => match dir with
    | .outgoing => e.target
    | .incoming => e.source

/-- `Graph::externals`: the nodes without an edge in a direction. -/
def externals (graph : Graph N E) (dir : Direction) : List Nat :=
  (range graph.nodes.length).filter fun a => (graph.neighborsDirected a dir).isEmpty

theorem nodeWeight_modifyNode (graph : Graph N E) (a b : Nat) (f : N → N) :
    (graph.modifyNode a f).nodeWeight b =
      if a = b then (graph.nodeWeight b).map f else graph.nodeWeight b := by
  unfold nodeWeight modifyNode
  by_cases hab : a = b <;> simp [hab]

theorem nodeCount_modifyNode (graph : Graph N E) (a : Nat) (f : N → N) :
    (graph.modifyNode a f).nodeCount = graph.nodeCount := length_modify ..

end Graph

/-- `NodeInfo`; the deadline is a `Duration` in nanoseconds. -/
structure NodeInfo where
  taskId : Nat
  subscribeTopicNames : List String
  publishTopicNames : List String
  relativeDeadline : Option Nat
  numFinished : Nat
  deadlineJob : Option Nat

/-- `EdgeInfo`. -/
structure EdgeInfo where
  topicName : String
  deriving DecidableEq

/-- `Dag`. -/
structure Dag where
  id : Nat
  graph : Graph NodeInfo EdgeInfo
  absoluteDeadlines : SortedMap Nat Nat

end Awkernel
