import Awkernel.Dag.Session

/-!
# The registrations of a DAG

What the graph and the tables of a DAG that was only registered on say about its
registrations: the nodes are the registrations in their order, the tasks that are pending are
those of the registrations that are not periodic, and the pending source task is that of the
last periodic one (`Replayed`).
-/

open TransitionSystem List Option

namespace Awkernel

open DagSystem (Registration Tables)

/-- The tasks of the registrations that are not periodic. -/
def tasksOf (id : Nat) (regs : List Registration) : List PendingTask :=
  regs.zipIdx.filterMap fun (r, i) => if r.isPeriodic then none else some (r.pendingTask id i)

/-- The task of the last periodic registration. -/
def sourceOf (id : Nat) (regs : List Registration) : Option PendingTask :=
  (regs.zipIdx.filterMap fun (r, i) =>
    if r.isPeriodic then some (r.pendingTask id i) else none).getLast?

variable {id : Nat} {regs : List Registration} {task : PendingTask} {graph : TopicGraph}

theorem mem_tasksOf : task ∈ tasksOf id regs ↔
      ∃ (i : Nat) (r : Registration), regs[i]? = some r ∧ r.isPeriodic = false ∧
        task = r.pendingTask id i := by
  unfold tasksOf
  rw [mem_filterMap]
  constructor
  · rintro ⟨⟨r, i⟩, hmem, htask⟩
    dsimp only at htask
    split at htask
    · cases htask
    rename_i hperiodic
    exact ⟨i, r, mem_zipIdx_iff_getElem?.mp hmem, Bool.eq_false_iff.mpr hperiodic,
      (some.inj htask).symm⟩
  · rintro ⟨i, r, hr, hperiodic, rfl⟩
    refine ⟨(r, i), mem_zipIdx_iff_getElem?.mpr hr, ?_⟩
    dsimp only
    rw [hperiodic]
    rfl

theorem tasksOf_concat (id : Nat) (regs : List Registration) (r : Registration) :
    tasksOf id (regs ++ [r]) = tasksOf id regs ++
      if r.isPeriodic then [] else [r.pendingTask id regs.length] := by
  unfold tasksOf
  rw [zipIdx_append, Nat.zero_add]
  cases hperiodic : r.isPeriodic <;> simp [hperiodic]

theorem sourceOf_concat (id : Nat) (regs : List Registration) (r : Registration) :
    sourceOf id (regs ++ [r]) =
      if r.isPeriodic then some (r.pendingTask id regs.length) else sourceOf id regs := by
  unfold sourceOf
  rw [zipIdx_append, Nat.zero_add]
  cases hperiodic : r.isPeriodic <;> simp [hperiodic]

theorem sourceOf_eq_some (h : sourceOf id regs = some task) :
    ∃ (i : Nat) (r : Registration), regs[i]? = some r ∧ r.isPeriodic = true ∧
      task = r.pendingTask id i := by
  obtain ⟨⟨r, i⟩, hmem, htask⟩ := mem_filterMap.mp (mem_of_getLast? h)
  dsimp only at htask
  split at htask
  · next hperiodic =>
    exact ⟨i, r, mem_zipIdx_iff_getElem?.mp hmem, hperiodic, (some.inj htask).symm⟩
  · cases htask

/-- What the graph and the tables say about the registrations. -/
structure Replayed (id : Nat) (regs : List Registration) (graph : TopicGraph) (t : Tables) :
    Prop where
  built : graph.Built
  length : graph.nodeCount = regs.length
  node : ∀ {i : Nat} {r : Registration}, regs[i]? = some r → ∃ info,
    graph.nodeWeight i = some info ∧ info.subscribeTopicNames = r.subscribeTopicNames ∧
      info.publishTopicNames = r.publishTopicNames ∧
      info.relativeDeadline = r.relativeDeadline ∧ info.numFinished = 0
  pending : t.pending = if tasksOf id regs = [] then none else some (tasksOf id regs)
  source : t.source = sourceOf id regs
  arity : t.arityErrors id = [] → ∀ r ∈ regs, r.args.length = r.subscribeTopicNames.length ∧
    r.ret.length = r.publishTopicNames.length

theorem getD_recordAt {c : Prop} [Decidable c] {entry : Option (List Nat)} {idx : Nat}
    (h : (DagSystem.recordAt c entry idx).getD [] = []) : ¬ c ∧ entry.getD [] = [] := by
  unfold DagSystem.recordAt at h
  split at h
  · simp at h
  · next hc => exact ⟨hc, h⟩

/-- One more registration is one more node, behind the others. -/
theorem Replayed.concat {t : Tables} (h : Replayed id regs graph t)
    {r : Registration} {v : TopicGraph × Tables}
    (hr : replayOne id (graph, t) r = some v) : Replayed id (regs ++ [r]) v.1 v.2 := by
  obtain ⟨⟨graph', idx⟩, hgraph, rfl⟩ := map_eq_some_iff.mp hr
  obtain ⟨rfl, hnodes, -⟩ := Graph.addNodeWithTopicEdges_spec hgraph
  have hidx : graph.nodes.length = regs.length := h.length
  have hweight := Graph.nodeWeight_append hnodes
  -- the deadline is written to the new node only
  have hset : ∀ a, (r.setDeadline graph' graph.nodes.length).nodeWeight a =
      if a = graph.nodes.length then
        some { Graph.newNodeInfo r.subscribeTopicNames r.publishTopicNames with
          relativeDeadline := r.relativeDeadline }
      else graph.nodeWeight a := by
    intro a
    unfold Registration.setDeadline
    cases r.relativeDeadline with
    | none =>
      rw [hweight]
      rfl
    | some d =>
      rw [Graph.nodeWeight_modifyNode, hweight]
      by_cases ha : a = graph.nodes.length
      · rw [if_pos ha.symm, if_pos ha, if_pos ha]
        rfl
      · rw [if_neg (Ne.symm ha), if_neg ha, if_neg ha]
  refine ⟨r.built_setDeadline _ (h.built.addNode hgraph), ?_, fun {i r'} hr' => ?_, ?_, ?_, ?_⟩
  · have hcount : (r.setDeadline graph' graph.nodes.length).nodeCount = graph'.nodes.length := by
      unfold Registration.setDeadline
      cases r.relativeDeadline with
      | none => rfl
      | some d => exact Graph.nodeCount_modifyNode ..
    rw [hcount, hnodes, length_append, length_append, hidx]
    rfl
  · rw [hset]
    by_cases hi : i = graph.nodes.length
    · rw [if_pos hi]
      rw [hi, hidx, getElem?_concat_length] at hr'
      cases hr'
      exact ⟨_, rfl, rfl, rfl, rfl, rfl⟩
    have hlt : i < regs.length := by
      have := (List.getElem?_eq_some_iff.mp hr').1
      rw [length_append, length_singleton] at this
      omega
    rw [if_neg hi]
    rw [getElem?_append_left hlt] at hr'
    exact h.node hr'
  · show (if r.isPeriodic then t.pending else _) = _
    rw [tasksOf_concat, h.pending, hidx]
    cases r.isPeriodic with
    | true => simp
    | false =>
      by_cases hnil : tasksOf id regs = [] <;> simp [hnil]
  · show (if r.isPeriodic then _ else t.source) = _
    rw [sourceOf_concat, h.source, hidx]
  · intro harity r' hr'
    obtain ⟨hsub, hpub⟩ := append_eq_nil_iff.mp harity
    obtain ⟨hsub, hsub₀⟩ := getD_recordAt (map_eq_nil_iff.mp hsub)
    obtain ⟨hpub, hpub₀⟩ := getD_recordAt (map_eq_nil_iff.mp hpub)
    rcases mem_append.mp hr' with hold | hnew
    · refine h.arity ?_ r' hold
      unfold Tables.arityErrors
      rw [hsub₀, hpub₀]
      rfl
    · rw [mem_singleton.mp hnew]
      exact ⟨not_not.mp hsub, not_not.mp hpub⟩

/-- **A replay** tells its registrations. -/
theorem replay_replayed {t : Tables} (h : replay id regs = some (graph, t)) :
    Replayed id regs graph t := by
  induction regs using reverseRecOn generalizing graph t with
  | nil =>
    cases h
    exact ⟨.new, rfl, nofun, rfl, rfl, fun _ => nofun⟩
  | append_singleton regs r ih =>
    rw [replay_concat] at h
    obtain ⟨⟨graph₀, t₀⟩, hregs, hr⟩ := bind_eq_some_iff.mp h
    exact (ih hregs).concat hr

end Awkernel
