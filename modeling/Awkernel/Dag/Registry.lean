import Awkernel.Dag.Build
import Awkernel.Task
import Mathlib.Data.String.Basic

/-!
# The registry of the DAGs

The static variables of `awkernel_async_lib/src/dag.rs` and the functions that build,
validate and remove DAGs.

`create_dag` hands out an `Arc<Dag>`, which stays usable after the DAG is removed from
`DAGS`; `arcs` holds every DAG ever created, and a handle is an index into it. The other
static variables are maps from the id of a DAG, which a later DAG may get again.

* `register_reactor`, `register_periodic_reactor` and `register_sink_reactor` add a node
  (`addNode`), record the nodes with repeated topics and those whose topics do not fit the
  types of the reactor, and leave a task to be spawned. The type parameters `Args` and
  `Ret` are lists of type ids; the sizes of the tuples are their lengths.
* `validate_all_rules` collects the errors of the listed DAGs. The checks of one DAG stop
  at the first that fails, and some of them remove the records they look at.

`connected_components` and `is_cyclic_directed` are parameters (`GraphAlgo`).
-/

namespace Awkernel

open List Option

/-- `core::any::TypeId`. -/
abbrev TypeId := Nat

/-- The function that spawns a reactor; the period is a `Duration` in nanoseconds. -/
inductive ReactorKind
  | reactor
  | periodic (period : Nat)
  | sink
  deriving DecidableEq

/-- `PendingTask`: the node, and what the closure `spawn` has captured. -/
structure PendingTask where
  nodeIdx : Nat
  kind : ReactorKind
  args : List TypeId
  ret : List TypeId
  subscribeTopicNames : List String
  publishTopicNames : List String
  schedType : SchedulerType
  dagInfo : DagInfo
  deriving DecidableEq

/-- `DagError`. -/
inductive DagError
  | notWeaklyConnected (dagId : Nat)
  | containsCycle (dagId : Nat)
  | missingPendingTasks (dagId : Nat)
  | multipleSourceNodes (dagId : Nat)
  | multipleSinkNodes (dagId : Nat)
  | noPublisherFound (dagId nodeId : Nat)
  | noSubscriberFound (dagId nodeId : Nat)
  | subscribeArityMismatch (dagId nodeId : Nat)
  | publishArityMismatch (dagId nodeId : Nat)
  | duplicateSubscribe (dagId nodeId : Nat)
  | duplicatePublish (dagId nodeId : Nat)
  | topicHasMultiplePublishers (dagId : Nat) (topicName : String)
  | interDagTopicConflict (topicName : String) (dagIds : List Nat)
  deriving DecidableEq

/-- The graph algorithms of `dag/graph/algo.rs`. -/
structure GraphAlgo where
  connectedComponents : TopicGraph → Nat
  isCyclicDirected : TopicGraph → Bool

/-- `Dags` and the other static variables. -/
structure DagSystem where
  candidateId : Nat
  arcs : List Dag
  idToDag : SortedMap Nat Nat
  pendingTasks : Nat → Option (List PendingTask)
  sourcePendingTasks : Nat → Option PendingTask
  mismatchSubscribeNodes : Nat → Option (List Nat)
  mismatchPublishNodes : Nat → Option (List Nat)
  duplicateSubscribeNodes : Nat → Option (List Nat)
  duplicatePublishNodes : Nat → Option (List Nat)

/-- `entry(id).or_default().push(x)`. -/
def pushEntry {α : Type} (table : Nat → Option (List α)) (id : Nat) (x : α) :
    Nat → Option (List α) :=
  Function.update table id (some ((table id).getD [] ++ [x]))

/-- `remove(&id)`. -/
def removeEntry {α : Type} (table : Nat → Option α) (id : Nat) : Nat → Option α :=
  Function.update table id none

namespace DagSystem

/-- The static variables at the start. -/
def init : DagSystem where
  candidateId := 1
  arcs := []
  idToDag := .empty
  pendingTasks _ := none
  sourcePendingTasks _ := none
  mismatchSubscribeNodes _ := none
  mismatchPublishNodes _ := none
  duplicateSubscribeNodes _ := none
  duplicatePublishNodes _ := none

/-- `get_dag`. -/
def getDag (sys : DagSystem) (id : Nat) : Option Dag := (sys.idToDag.get id).bind (sys.arcs[·]?)

/-- The loop of `Dags::create`; the first argument bounds its rounds, and `none` is a loop
that does not end. -/
def findUnused (used : Nat → Bool) : Nat → Nat → Option Nat
  | 0, _ => none
  | rounds + 1, id =>
    if used id then findUnused used rounds (max ((id + 1) % 2 ^ 32) 1) else some id

/-- `create_dag`. -/
def create (sys : DagSystem) : Option (DagSystem × Nat) :=
  (findUnused (fun id => (sys.idToDag.get id).isSome) (2 ^ 32) sys.candidateId).map fun id =>
    ({ sys with
        candidateId := id
        arcs := sys.arcs ++ [⟨id, .new, .empty⟩]
        idToDag := sys.idToDag.insert id sys.arcs.length }, sys.arcs.length)

/-! ### Registration -/

def setGraph (sys : DagSystem) (h : Nat) (dag : Dag) (graph : TopicGraph) : DagSystem :=
  { sys with arcs := sys.arcs.set h { dag with graph := graph } }

/-- `Dag::add_node_with_topic_edges`. -/
def addNode (sys : DagSystem) (h : Nat) (dag : Dag)
    (subscribeTopicNames publishTopicNames : List String) : Option (DagSystem × Nat) :=
  (dag.graph.addNodeWithTopicEdges subscribeTopicNames publishTopicNames).map fun (graph, idx) =>
    let sys := sys.setGraph h dag graph
    let sys := if subscribeTopicNames.length ≠ subscribeTopicNames.dedup.length then
        { sys with duplicateSubscribeNodes := pushEntry sys.duplicateSubscribeNodes dag.id idx }
      else sys
    let sys := if publishTopicNames.length ≠ publishTopicNames.dedup.length then
        { sys with duplicatePublishNodes := pushEntry sys.duplicatePublishNodes dag.id idx }
      else sys
    (sys, idx)

/-- `Dag::check_subscribe_mismatch`. -/
def checkSubscribeMismatch (sys : DagSystem) (dagId : Nat) (args : List TypeId)
    (subscribeTopicNames : List String) (nodeIdx : Nat) : DagSystem :=
  if args.length ≠ subscribeTopicNames.length then
    { sys with mismatchSubscribeNodes := pushEntry sys.mismatchSubscribeNodes dagId nodeIdx }
  else sys

/-- `Dag::check_publish_mismatch`. -/
def checkPublishMismatch (sys : DagSystem) (dagId : Nat) (ret : List TypeId)
    (publishTopicNames : List String) (nodeIdx : Nat) : DagSystem :=
  if ret.length ≠ publishTopicNames.length then
    { sys with mismatchPublishNodes := pushEntry sys.mismatchPublishNodes dagId nodeIdx }
  else sys

/-- What a registration is given. -/
inductive Registration
  | reactor (args ret : List TypeId) (subscribeTopicNames publishTopicNames : List String)
      (schedType : SchedulerType)
  | periodic (ret : List TypeId) (publishTopicNames : List String) (schedType : SchedulerType)
      (period : Nat)
  | sink (args : List TypeId) (subscribeTopicNames : List String) (schedType : SchedulerType)
      (relativeDeadline : Nat)
  deriving DecidableEq

/-- `Dag::register_reactor`, `Dag::register_periodic_reactor` and
`Dag::register_sink_reactor`, on the DAG with the handle `h`. -/
def register (sys : DagSystem) (h : Nat) : Registration → Option DagSystem
  | .reactor args ret subscribeTopicNames publishTopicNames schedType => do
    let dag ← sys.arcs[h]?
    let (sys, idx) ← sys.addNode h dag subscribeTopicNames publishTopicNames
    let sys := sys.checkSubscribeMismatch dag.id args subscribeTopicNames idx
    let sys := sys.checkPublishMismatch dag.id ret publishTopicNames idx
    some { sys with
      pendingTasks := pushEntry sys.pendingTasks dag.id
        ⟨idx, .reactor, args, ret, subscribeTopicNames, publishTopicNames, schedType,
          ⟨dag.id, idx⟩⟩ }
  | .periodic ret publishTopicNames schedType period => do
    let dag ← sys.arcs[h]?
    let (sys, idx) ← sys.addNode h dag [] publishTopicNames
    let sys := sys.checkPublishMismatch dag.id ret publishTopicNames idx
    some { sys with
      sourcePendingTasks := Function.update sys.sourcePendingTasks dag.id
        (some ⟨idx, .periodic period, [], ret, [], publishTopicNames, schedType, ⟨dag.id, idx⟩⟩) }
  | .sink args subscribeTopicNames schedType relativeDeadline => do
    let dag ← sys.arcs[h]?
    let (sys, idx) ← sys.addNode h dag subscribeTopicNames []
    let dag ← sys.arcs[h]?
    -- `Dag::set_relative_deadline`
    let sys := sys.setGraph h dag (dag.graph.modifyNode idx fun info =>
      { info with relativeDeadline := some relativeDeadline })
    let sys := sys.checkSubscribeMismatch dag.id args subscribeTopicNames idx
    some { sys with
      pendingTasks := pushEntry sys.pendingTasks dag.id
        ⟨idx, .sink, args, [], subscribeTopicNames, [], schedType, ⟨dag.id, idx⟩⟩ }

/-! What a registration writes, for the three functions at once. -/

namespace Registration

def subscribeTopicNames : Registration → List String
  | .reactor _ _ subscribeTopicNames _ _ => subscribeTopicNames
  | .periodic .. => []
  | .sink _ subscribeTopicNames _ _ => subscribeTopicNames

def publishTopicNames : Registration → List String
  | .reactor _ _ _ publishTopicNames _ => publishTopicNames
  | .periodic _ publishTopicNames _ _ => publishTopicNames
  | .sink .. => []

def args : Registration → List TypeId
  | .reactor args .. => args
  | .periodic .. => []
  | .sink args .. => args

def ret : Registration → List TypeId
  | .reactor _ ret .. => ret
  | .periodic ret .. => ret
  | .sink .. => []

def schedType : Registration → SchedulerType
  | .reactor _ _ _ _ schedType => schedType
  | .periodic _ _ schedType _ => schedType
  | .sink _ _ schedType _ => schedType

def kind : Registration → ReactorKind
  | .reactor .. => .reactor
  | .periodic _ _ _ period => .periodic period
  | .sink .. => .sink

def isPeriodic : Registration → Bool
  | .periodic .. => true
  | _ => false

/-- The deadline that `Dag::set_relative_deadline` writes. -/
def relativeDeadline : Registration → Option Nat
  | .sink _ _ _ relativeDeadline => some relativeDeadline
  | _ => none

def pendingTask (r : Registration) (dagId idx : Nat) : PendingTask :=
  ⟨idx, r.kind, r.args, r.ret, r.subscribeTopicNames, r.publishTopicNames, r.schedType,
    ⟨dagId, idx⟩⟩

/-- The graph with the deadline of the node. -/
def setDeadline (r : Registration) (graph : TopicGraph) (idx : Nat) : TopicGraph :=
  match r.relativeDeadline with
  | some relativeDeadline =>
    graph.modifyNode idx fun info => { info with relativeDeadline := some relativeDeadline }
  | none => graph

end Registration

/-- A record is made if the condition holds. -/
def recordIf (c : Prop) [Decidable c] (table : Nat → Option (List Nat)) (id idx : Nat) :
    Nat → Option (List Nat) := if c then pushEntry table id idx else table

/-- The static variables after a node was registered. -/
def withNode (sys : DagSystem) (h : Nat) (dag : Dag) (graph : TopicGraph) (idx : Nat)
    (r : Registration) : DagSystem :=
  { sys with
    arcs := sys.arcs.set h { dag with graph := r.setDeadline graph idx }
    pendingTasks := if r.isPeriodic then sys.pendingTasks else
      pushEntry sys.pendingTasks dag.id (r.pendingTask dag.id idx)
    sourcePendingTasks := if r.isPeriodic then
      Function.update sys.sourcePendingTasks dag.id (some (r.pendingTask dag.id idx)) else
      sys.sourcePendingTasks
    mismatchSubscribeNodes := recordIf (r.args.length ≠ r.subscribeTopicNames.length)
      sys.mismatchSubscribeNodes dag.id idx
    mismatchPublishNodes := recordIf (r.ret.length ≠ r.publishTopicNames.length)
      sys.mismatchPublishNodes dag.id idx
    duplicateSubscribeNodes := recordIf (¬ r.subscribeTopicNames.Nodup)
      sys.duplicateSubscribeNodes dag.id idx
    duplicatePublishNodes := recordIf (¬ r.publishTopicNames.Nodup)
      sys.duplicatePublishNodes dag.id idx }

/-- A list has repetitions exactly if removing them makes it shorter. -/
theorem length_ne_dedup_iff {l : List String} : l.length ≠ l.dedup.length ↔ ¬ l.Nodup := by
  refine not_congr ⟨fun h => ?_, fun h => by rw [h.dedup]⟩
  rw [← l.dedup_sublist.eq_of_length h.symm]
  exact l.nodup_dedup

variable {sys sys' : DagSystem} {h : Nat}

theorem addNode_spec {idx : Nat} {dag : Dag} {subs pubs : List String}
    (hadd : sys.addNode h dag subs pubs = some (sys', idx)) :
    ∃ graph, dag.graph.addNodeWithTopicEdges subs pubs = some (graph, idx) ∧
      sys' = { sys.setGraph h dag graph with
        duplicateSubscribeNodes := recordIf (¬ subs.Nodup) sys.duplicateSubscribeNodes dag.id idx
        duplicatePublishNodes :=
          recordIf (¬ pubs.Nodup) sys.duplicatePublishNodes dag.id idx } := by
  obtain ⟨⟨graph, idx'⟩, hgraph, heq⟩ := map_eq_some_iff.mp hadd
  obtain ⟨hsys, rfl⟩ := Prod.mk.inj heq
  refine ⟨graph, hgraph, hsys.symm.trans ?_⟩
  simp only [length_ne_dedup_iff]
  unfold recordIf
  split_ifs <;> rfl

theorem checkSubscribeMismatch_eq (sys : DagSystem) (dagId : Nat) (args : List TypeId)
    (subs : List String) (idx : Nat) :
    sys.checkSubscribeMismatch dagId args subs idx = { sys with
      mismatchSubscribeNodes := recordIf (args.length ≠ subs.length)
        sys.mismatchSubscribeNodes dagId idx } := by
  unfold checkSubscribeMismatch recordIf
  split <;> rfl

theorem checkPublishMismatch_eq (sys : DagSystem) (dagId : Nat) (ret : List TypeId)
    (pubs : List String) (idx : Nat) :
    sys.checkPublishMismatch dagId ret pubs idx = { sys with
      mismatchPublishNodes := recordIf (ret.length ≠ pubs.length)
        sys.mismatchPublishNodes dagId idx } := by
  unfold checkPublishMismatch recordIf
  split <;> rfl

/-- **A registration**: one node, one task to be spawned, and the records of what is wrong. -/
theorem register_spec {r : Registration} (hreg : sys.register h r = some sys') :
    ∃ dag graph idx, sys.arcs[h]? = some dag ∧
      dag.graph.addNodeWithTopicEdges r.subscribeTopicNames r.publishTopicNames =
        some (graph, idx) ∧ sys' = sys.withNode h dag graph idx r := by
  cases r with
  | reactor args ret subs pubs schedType =>
    obtain ⟨dag, hdag, hreg⟩ := bind_eq_some_iff.mp hreg
    obtain ⟨⟨mid, idx⟩, hadd, hreg⟩ := bind_eq_some_iff.mp hreg
    obtain ⟨graph, hgraph, rfl⟩ := addNode_spec hadd
    simp only [checkPublishMismatch_eq, checkSubscribeMismatch_eq] at hreg
    exact ⟨dag, graph, idx, hdag, hgraph, (some.inj hreg).symm⟩
  | periodic ret pubs schedType period =>
    obtain ⟨dag, hdag, hreg⟩ := bind_eq_some_iff.mp hreg
    obtain ⟨⟨mid, idx⟩, hadd, hreg⟩ := bind_eq_some_iff.mp hreg
    obtain ⟨graph, hgraph, rfl⟩ := addNode_spec hadd
    simp only [checkPublishMismatch_eq] at hreg
    exact ⟨dag, graph, idx, hdag, hgraph, (some.inj hreg).symm⟩
  | sink args subs schedType relativeDeadline =>
    obtain ⟨dag, hdag, hreg⟩ := bind_eq_some_iff.mp hreg
    obtain ⟨⟨mid, idx⟩, hadd, hreg⟩ := bind_eq_some_iff.mp hreg
    obtain ⟨graph, hgraph, rfl⟩ := addNode_spec hadd
    obtain ⟨dag', hdag', hreg⟩ := bind_eq_some_iff.mp hreg
    have hlt : h < sys.arcs.length := (List.getElem?_eq_some_iff.mp hdag).1
    obtain rfl : { dag with graph := graph } = dag' := by
      have hself : (sys.arcs.set h { dag with graph := graph })[h]? = some dag' := hdag'
      rw [getElem?_set_self hlt] at hself
      exact some.inj hself
    simp only [checkSubscribeMismatch_eq, setGraph, set_set] at hreg
    exact ⟨dag, graph, idx, hdag, hgraph, (some.inj hreg).symm⟩

/-! ### Validation -/

/-- `check_for_arity_mismatches`: the errors, and the records are removed. -/
def checkForArityMismatches (sys : DagSystem) (dagId : Nat) : DagSystem × List DagError :=
  ({ sys with
      mismatchSubscribeNodes := removeEntry sys.mismatchSubscribeNodes dagId
      mismatchPublishNodes := removeEntry sys.mismatchPublishNodes dagId },
    ((sys.mismatchSubscribeNodes dagId).getD []).map (.subscribeArityMismatch dagId) ++
      ((sys.mismatchPublishNodes dagId).getD []).map (.publishArityMismatch dagId))

/-- `check_for_pubsub_duplicates`: the errors, and the records are removed. -/
def checkForPubsubDuplicates (sys : DagSystem) (dagId : Nat) : DagSystem × List DagError :=
  ({ sys with
      duplicateSubscribeNodes := removeEntry sys.duplicateSubscribeNodes dagId
      duplicatePublishNodes := removeEntry sys.duplicatePublishNodes dagId },
    ((sys.duplicateSubscribeNodes dagId).getD []).map (.duplicateSubscribe dagId) ++
      ((sys.duplicatePublishNodes dagId).getD []).map (.duplicatePublish dagId))

/-- One node of the loop of `validate_edge_connect`: the incoming edges are counted first. -/
def connectError (dagId : Nat) (graph : TopicGraph) (nodeInfo : NodeInfo) (nodeIdx : Nat) :
    Option DagError :=
  if (graph.neighborsDirected nodeIdx .incoming).length < nodeInfo.subscribeTopicNames.length then
    some (.noPublisherFound dagId nodeIdx)
  else if (graph.neighborsDirected nodeIdx .outgoing).length <
      nodeInfo.publishTopicNames.length then
    some (.noSubscriberFound dagId nodeIdx)
  else none

/-- `validate_edge_connect`: the first error. -/
def validateEdgeConnect (dagId : Nat) (graph : TopicGraph) : Option DagError :=
  graph.nodes.zipIdx.findSome? fun (nodeInfo, nodeIdx) => connectError dagId graph nodeInfo nodeIdx

/-- `validate_dag`: `none` if its assertion fails, and otherwise the error, if any. -/
def validateDag (algo : GraphAlgo) (sys : DagSystem) (dag : Dag) : Option (Option DagError) :=
  if (sys.getDag dag.id).isNone then none
  else some (
    if (sys.pendingTasks dag.id).isNone then some (.missingPendingTasks dag.id)
    else if algo.connectedComponents dag.graph ≠ 1 then some (.notWeaklyConnected dag.id)
    else if algo.isCyclicDirected dag.graph then some (.containsCycle dag.id)
    else if (dag.graph.externals .incoming).length > 1 then some (.multipleSourceNodes dag.id)
    else if (dag.graph.externals .outgoing).length > 1 then some (.multipleSinkNodes dag.id)
    else validateEdgeConnect dag.id dag.graph)

/-- The fold of `validate_single_publisher_per_topic`. -/
def publisherCountsByTopic (graph : TopicGraph) : SortedMap String Nat :=
  graph.edges.foldl (fun acc edge =>
    acc.insert edge.weight.topicName ((acc.get edge.weight.topicName).getD 0 + 1)) .empty

/-- `validate_single_publisher_per_topic`. -/
def validateSinglePublisherPerTopic (dag : Dag) : List DagError :=
  ((publisherCountsByTopic dag.graph).entries.filter fun e => e.2 > 1).map fun e =>
    .topicHasMultiplePublishers dag.id e.1

/-- The checks of one DAG, in the loop of `validate_all_rules`. -/
def validateOne (algo : GraphAlgo) (sys : DagSystem) (dag : Dag) :
    Option (DagSystem × List DagError) :=
  let (sys, arityErrors) := sys.checkForArityMismatches dag.id
  if arityErrors ≠ [] then some (sys, arityErrors)
  else (validateDag algo sys dag).map fun error =>
    match error with
    | some error => (sys, [error])
    | none =>
      let (sys, duplicateErrors) := sys.checkForPubsubDuplicates dag.id
      if duplicateErrors ≠ [] then (sys, duplicateErrors)
      else (sys, validateSinglePublisherPerTopic dag)

/-- The loop of `validate_all_rules`. -/
def validateEach (algo : GraphAlgo) : DagSystem → List Dag → Option (DagSystem × List DagError)
  | sys, [] => some (sys, [])
  | sys, dag :: rest =>
    (validateOne algo sys dag).bind fun (sys, errors) =>
      (validateEach algo sys rest).map fun (sys, errors') => (sys, errors ++ errors')

/-- The map of `validate_dag_topic_conflicts`, from a topic to the DAGs with such an edge. -/
def topicToDags (dags : List Dag) : SortedMap String (List Nat) :=
  dags.foldl (fun acc dag => dag.graph.edges.foldl (fun acc edge =>
    acc.insert edge.weight.topicName ((acc.get edge.weight.topicName).getD [] ++ [dag.id])) acc)
    .empty

/-- `id_to_dag.values()`. -/
def registered (sys : DagSystem) : List Dag :=
  sys.idToDag.entries.filterMap fun e => sys.arcs[e.2]?

/-- `validate_dag_topic_conflicts`. -/
def validateDagTopicConflicts (sys : DagSystem) : List DagError :=
  (topicToDags sys.registered).entries.filterMap fun (topic, dagIds) =>
    let dagIds := (dagIds.insertionSort (· ≤ ·)).dedup
    if dagIds.length > 1 then some (.interDagTopicConflict topic dagIds) else none

/-- `validate_all_rules`; the empty list is `Ok`. -/
def validateAllRules (algo : GraphAlgo) (sys : DagSystem) (dags : List Dag) :
    Option (DagSystem × List DagError) :=
  (validateEach algo sys dags).map fun (sys, errors) =>
    if errors ≠ [] then (sys, errors) else (sys, sys.validateDagTopicConflicts)

/-- `remove_dag`. -/
def removeDag (sys : DagSystem) (id : Nat) : DagSystem :=
  { sys with
    idToDag := sys.idToDag.retain (· ≠ id)
    pendingTasks := removeEntry sys.pendingTasks id
    sourcePendingTasks := removeEntry sys.sourcePendingTasks id }

/-! ### Start -/

/-- The write of a task id to its node. -/
def setTaskId (sys : DagSystem) (h idx taskId : Nat) : DagSystem :=
  match sys.arcs[h]? with
  | none => sys
  | some dag => sys.setGraph h dag (dag.graph.modifyNode idx fun info =>
      { info with taskId := taskId })

/-- The loop of `spawn_dag`. Spawning a task gives its id, or panics; `false` is a panic. -/
def spawnTasks (spawn : PendingTask → Option Nat) (h : Nat) :
    DagSystem → List PendingTask → DagSystem × Bool
  | sys, [] => (sys, true)
  | sys, task :: tasks =>
    match spawn task with
    | none => (sys, false)
    | some taskId => spawnTasks spawn h (sys.setTaskId h task.nodeIdx taskId) tasks

/-- `spawn_dag`: the source is spawned after the other tasks. `false` is a panic, by a
missing table entry or while a task is spawned. -/
def spawnDag (spawn : PendingTask → Option Nat) (sys : DagSystem) (h id : Nat) : DagSystem × Bool :=
  match sys.pendingTasks id with
  | none => (sys, false)
  | some tasks =>
    match spawnTasks spawn h
        { sys with pendingTasks := removeEntry sys.pendingTasks id } tasks with
    | (sys, false) => (sys, false)
    | (sys, true) =>
      match sys.sourcePendingTasks id with
      | none => (sys, false)
      | some task =>
        spawnTasks spawn h
          { sys with sourcePendingTasks := removeEntry sys.sourcePendingTasks id } [task]

/-- The loop of `finish_create_dags` over the DAGs to be started, with those whose start was
begun. -/
def spawnDags (spawn : PendingTask → Option Nat) : DagSystem → List (Nat × Dag) →
    DagSystem × List Nat × Bool
  | sys, [] => (sys, [], true)
  | sys, (h, dag) :: rest =>
    match sys.spawnDag spawn h dag.id with
    | (sys, false) => (sys, [h], false)
    | (sys, true) =>
      let (sys, begun, ok) := spawnDags spawn sys rest
      (sys, h :: begun, ok)

/-- How `finish_create_dags` ends. -/
inductive Outcome
  | ok
  | err (errors : List DagError)
  | panicked
  deriving DecidableEq

/-- `finish_create_dags`, with the DAGs whose start was begun. -/
def finishCreateDags (algo : GraphAlgo) (spawn : PendingTask → Option Nat) (sys : DagSystem)
    (dags : List (Nat × Dag)) : Option (DagSystem × Outcome × List Nat) :=
  (validateAllRules algo sys (dags.map Prod.snd)).map fun (sys, errors) =>
    if errors = [] then
      let (sys, begun, ok) := spawnDags spawn sys dags
      (sys, if ok then .ok else .panicked, begun)
    else (dags.foldl (fun sys dag => sys.removeDag dag.2.id) sys, .err errors, [])

/-! ### Runs -/

/-- The writes to the static variables and to the DAGs. A call of this module makes one or
several of them, and those of different calls may alternate. -/
inductive Write
  | create
  | addNode (h : Nat) (subscribeTopicNames publishTopicNames : List String)
  | register (h : Nat) (registration : Registration)
  /-- The checks that remove the records of a DAG, and `remove_dag`. -/
  | checkForArityMismatches (id : Nat)
  | checkForPubsubDuplicates (id : Nat)
  | removeDag (id : Nat)
  /-- `spawn_dag` takes the tasks of a DAG. -/
  | takePending (id : Nat)
  | takeSourcePending (id : Nat)
  /-- The task id and the counters of a node, written by `spawn_dag` and by its reactor. -/
  | setNode (h node taskId numFinished : Nat) (deadlineJob : Option Nat)
  | setDeadlines (h : Nat) (deadlines : SortedMap Nat Nat)

def step (sys : DagSystem) : Write → Option DagSystem
  | .create => sys.create.map Prod.fst
  | .addNode h subscribeTopicNames publishTopicNames => do
    let dag ← sys.arcs[h]?
    (sys.addNode h dag subscribeTopicNames publishTopicNames).map Prod.fst
  | .register h registration => sys.register h registration
  | .checkForArityMismatches id => some (sys.checkForArityMismatches id).1
  | .checkForPubsubDuplicates id => some (sys.checkForPubsubDuplicates id).1
  | .removeDag id => some (sys.removeDag id)
  | .takePending id => some { sys with pendingTasks := removeEntry sys.pendingTasks id }
  | .takeSourcePending id =>
    some { sys with sourcePendingTasks := removeEntry sys.sourcePendingTasks id }
  | .setNode h node taskId numFinished deadlineJob => do
    let dag ← sys.arcs[h]?
    some (sys.setGraph h dag (dag.graph.modifyNode node fun info =>
      { info with taskId := taskId, numFinished := numFinished, deadlineJob := deadlineJob }))
  | .setDeadlines h deadlines => do
    let dag ← sys.arcs[h]?
    some { sys with arcs := sys.arcs.set h { dag with absoluteDeadlines := deadlines } }

/-- What every run keeps: the graphs are built by adding nodes, and a registered DAG has the
id it is registered under. -/
structure Coherent (sys : DagSystem) : Prop where
  built : ∀ {h : Nat} {dag : Dag}, sys.arcs[h]? = some dag → dag.graph.Built
  registered : ∀ {id h : Nat}, sys.idToDag.get id = some h →
    ∃ dag, sys.arcs[h]? = some dag ∧ dag.id = id

theorem Coherent.init : DagSystem.init.Coherent := ⟨nofun, nofun⟩

theorem findUnused_spec {used : Nat → Bool} : ∀ {rounds id id' : Nat},
    findUnused used rounds id = some id' → used id' = false := by
  intro rounds
  induction rounds with
  | zero => exact fun h => absurd h nofun
  | succ rounds ih =>
    intro id id' h
    unfold findUnused at h
    split at h
    · exact ih h
    · next hused => rwa [← some.inj h, ← Bool.not_eq_true]

/-- **A new DAG** is added under an id that is not in use. -/
theorem create_spec (hcreate : sys.create = some (sys', h)) :
    h = sys.arcs.length ∧ ∃ id, sys.idToDag.get id = none ∧ sys' = { sys with
      candidateId := id
      arcs := sys.arcs ++ [⟨id, .new, .empty⟩]
      idToDag := sys.idToDag.insert id sys.arcs.length } := by
  obtain ⟨id, hid, heq⟩ := map_eq_some_iff.mp hcreate
  obtain ⟨hsys, hh⟩ := Prod.mk.inj heq
  refine ⟨hh.symm, id, ?_, hsys.symm⟩
  have hused := findUnused_spec hid
  rwa [isSome_eq_false_iff, isNone_iff_eq_none] at hused

theorem Coherent.create (hsys : sys.Coherent) (hcreate : sys.create = some (sys', h)) :
    sys'.Coherent := by
  obtain ⟨-, id, -, rfl⟩ := create_spec hcreate
  refine ⟨fun {h dag} hdag => ?_, fun {id' h} hid => ?_⟩
  · rcases mem_append.mp (mem_of_getElem? hdag) with hold | hnew
    · obtain ⟨h', hh'⟩ := mem_iff_getElem?.mp hold
      exact hsys.built hh'
    · rw [mem_singleton.mp hnew]
      exact .new
  · by_cases heq : id' = id
    · subst heq
      rw [SortedMap.get_insert_self] at hid
      cases hid
      exact ⟨_, getElem?_concat_length, rfl⟩
    · rw [SortedMap.get_insert_of_ne heq] at hid
      obtain ⟨dag, hdag, hdagId⟩ := hsys.registered hid
      have hlt : h < sys.arcs.length := (List.getElem?_eq_some_iff.mp hdag).1
      exact ⟨dag, (getElem?_append_left hlt).trans hdag, hdagId⟩

theorem Coherent.set {dag dag' : Dag} (hsys : sys.Coherent) (hdag : sys.arcs[h]? = some dag)
    (harcs : sys'.arcs = sys.arcs.set h dag')
    (hreg : sys'.idToDag = sys.idToDag) (hid : dag'.id = dag.id)
    (hgraph : dag.graph.Built → dag'.graph.Built) : sys'.Coherent := by
  have hlt : h < sys.arcs.length := (List.getElem?_eq_some_iff.mp hdag).1
  have hself : sys'.arcs[h]? = some dag' := by rw [harcs, getElem?_set_self hlt]
  have hother : ∀ {h'}, h ≠ h' → sys'.arcs[h']? = sys.arcs[h']? := fun hne => by
    rw [harcs, getElem?_set_ne hne]
  refine ⟨fun {h' d} hd => ?_, fun {id h'} hget => ?_⟩
  · by_cases hh : h = h'
    · subst hh
      cases hself.symm.trans hd
      exact hgraph (hsys.built hdag)
    · exact hsys.built ((hother hh).symm.trans hd)
  · rw [hreg] at hget
    obtain ⟨d, hd, hdid⟩ := hsys.registered hget
    by_cases hh : h = h'
    · subst hh
      cases hdag.symm.trans hd
      exact ⟨dag', hself, hid.trans hdid⟩
    · exact ⟨d, (hother hh).trans hd, hdid⟩

theorem Coherent.of_same (hsys : sys.Coherent) (harcs : sys'.arcs = sys.arcs)
    (hreg : ∀ {id h}, sys'.idToDag.get id = some h → sys.idToDag.get id = some h) :
    sys'.Coherent := by
  refine ⟨fun {h dag} hdag => ?_, fun {id h} hget => ?_⟩
  · rw [harcs] at hdag
    exact hsys.built hdag
  · rw [harcs]
    exact hsys.registered (hreg hget)

theorem Registration.built_setDeadline {graph : TopicGraph} (r : Registration) (idx : Nat)
    (h : graph.Built) : (r.setDeadline graph idx).Built := by
  unfold setDeadline
  cases r.relativeDeadline with
  | some d => exact h.modifyNode fun info => ⟨rfl, rfl⟩
  | none => exact h

/-- **One write.** -/
theorem Coherent.step {w : Write} (hsys : sys.Coherent) (hstep : sys.step w = some sys') :
    sys'.Coherent := by
  cases w with
  | create =>
    obtain ⟨⟨sys'', h⟩, hcreate, rfl⟩ := map_eq_some_iff.mp hstep
    exact hsys.create hcreate
  | addNode h subs pubs =>
    obtain ⟨dag, hdag, hstep⟩ := bind_eq_some_iff.mp hstep
    obtain ⟨⟨sys'', idx⟩, hadd, rfl⟩ := map_eq_some_iff.mp hstep
    obtain ⟨graph, hgraph, rfl⟩ := addNode_spec hadd
    exact hsys.set hdag rfl rfl rfl fun hbuilt => hbuilt.addNode hgraph
  | register h r =>
    obtain ⟨dag, graph, idx, hdag, hgraph, rfl⟩ := register_spec hstep
    exact hsys.set hdag rfl rfl rfl fun hbuilt =>
      r.built_setDeadline idx (hbuilt.addNode hgraph)
  | removeDag id =>
    cases hstep
    refine hsys.of_same rfl fun {id' h} hget => ?_
    rw [DagSystem.removeDag, SortedMap.get_retain] at hget
    split at hget
    · exact hget
    · cases hget
  | setNode h node taskId numFinished deadlineJob =>
    obtain ⟨dag, hdag, hstep⟩ := bind_eq_some_iff.mp hstep
    cases hstep
    exact hsys.set hdag rfl rfl rfl fun hbuilt => hbuilt.modifyNode fun info => ⟨rfl, rfl⟩
  | setDeadlines h deadlines =>
    obtain ⟨dag, hdag, hstep⟩ := bind_eq_some_iff.mp hstep
    cases hstep
    exact hsys.set hdag rfl rfl rfl id
  | checkForArityMismatches | checkForPubsubDuplicates | takePending | takeSourcePending =>
    cases hstep
    exact hsys.of_same rfl id

end DagSystem

end Awkernel
