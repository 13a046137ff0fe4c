import Awkernel.Dag.Validation

/-!
# What a DAG leaves in the static variables

All static variables but `DAGS` are maps from the id of a DAG. `Tables` is what they hold for
one id, and every function of the registry is described by what it does to the tables of each
id. The checks of one DAG depend on its graph and on its tables only (`validateOne_eq`).

`replay id regs` is the graph and the tables of a DAG that was created in empty tables and then
got the registrations `regs`. A `Session` is a system with its past: the registrations of
every DAG, and which DAGs were started.
-/

open TransitionSystem SortedMap List Option Function

namespace Awkernel

namespace DagSystem

/-- What the static variables hold for one id. -/
structure Tables where
  pending : Option (List PendingTask)
  source : Option PendingTask
  mismatchSubscribe : Option (List Nat)
  mismatchPublish : Option (List Nat)
  duplicateSubscribe : Option (List Nat)
  duplicatePublish : Option (List Nat)
  deriving DecidableEq

def Tables.empty : Tables := ⟨none, none, none, none, none, none⟩

def tables (sys : DagSystem) (id : Nat) : Tables where
  pending := sys.pendingTasks id
  source := sys.sourcePendingTasks id
  mismatchSubscribe := sys.mismatchSubscribeNodes id
  mismatchPublish := sys.mismatchPublishNodes id
  duplicateSubscribe := sys.duplicateSubscribeNodes id
  duplicatePublish := sys.duplicatePublishNodes id

/-- No static variable holds anything for `id`. -/
def Traceless (sys : DagSystem) (id : Nat) : Prop :=
  sys.idToDag.get id = none ∧ sys.tables id = .empty

/-! ### Writes to the tables -/

theorem removeEntry_apply {α : Type} (table : Nat → Option α) (id id' : Nat) :
    removeEntry table id id' = if id' = id then none else table id' :=
  update_apply ..

theorem pushEntry_apply {α : Type} (table : Nat → Option (List α)) (id id' : Nat) (x : α) :
    pushEntry table id x id' =
      if id' = id then some ((table id').getD [] ++ [x]) else table id' := by
  unfold pushEntry
  rw [update_apply]
  split
  · next h => rw [h]
  · rfl

/-- A record is made in an entry if the condition holds. -/
def recordAt (c : Prop) [Decidable c] (entry : Option (List Nat)) (idx : Nat) :
    Option (List Nat) := if c then some (entry.getD [] ++ [idx]) else entry

theorem recordIf_apply (c : Prop) [Decidable c] (table : Nat → Option (List Nat))
    (id id' idx : Nat) :
    recordIf c table id idx id' = if id' = id then recordAt c (table id') idx else table id' := by
  unfold recordIf recordAt
  by_cases hc : c
  · rw [if_pos hc, if_pos hc, pushEntry_apply]
  · rw [if_neg hc, if_neg hc, ite_self]

/-- The tables after a node was registered. -/
def Tables.register (t : Tables) (id : Nat) (r : Registration) (idx : Nat) : Tables where
  pending := if r.isPeriodic then t.pending else
    some (t.pending.getD [] ++ [r.pendingTask id idx])
  source := if r.isPeriodic then some (r.pendingTask id idx) else t.source
  mismatchSubscribe :=
    recordAt (r.args.length ≠ r.subscribeTopicNames.length) t.mismatchSubscribe idx
  mismatchPublish := recordAt (r.ret.length ≠ r.publishTopicNames.length) t.mismatchPublish idx
  duplicateSubscribe := recordAt (¬ r.subscribeTopicNames.Nodup) t.duplicateSubscribe idx
  duplicatePublish := recordAt (¬ r.publishTopicNames.Nodup) t.duplicatePublish idx

/-- The tables after the checks of a DAG; `reached` tells whether the check for duplicates
was made. -/
def Tables.drain (t : Tables) (reached : Bool) : Tables :=
  { t with
    mismatchSubscribe := none
    mismatchPublish := none
    duplicateSubscribe := if reached then none else t.duplicateSubscribe
    duplicatePublish := if reached then none else t.duplicatePublish }

/-- The tables after `remove_dag`. -/
def Tables.remove (t : Tables) : Tables := { t with pending := none, source := none }

theorem tables_withNode (sys : DagSystem) (h : Nat) (dag : Dag) (graph : TopicGraph) (idx : Nat)
    (r : Registration) (id : Nat) :
    (sys.withNode h dag graph idx r).tables id =
      if id = dag.id then (sys.tables id).register id r idx else sys.tables id := by
  unfold tables withNode Tables.register
  simp only [recordIf_apply]
  by_cases hid : id = dag.id
  · subst hid
    cases r.isPeriodic <;> simp [pushEntry_apply]
  · cases r.isPeriodic <;> simp [hid, pushEntry_apply, update_of_ne]

theorem tables_removeDag (sys : DagSystem) (id id' : Nat) : (sys.removeDag id).tables id' =
      if id' = id then (sys.tables id').remove else sys.tables id' := by
  unfold tables removeDag Tables.remove
  simp only [removeEntry_apply]
  split <;> rfl

theorem get_removeDag (sys : DagSystem) (id id' : Nat) :
    (sys.removeDag id).idToDag.get id' = if id' = id then none else sys.idToDag.get id' := by
  unfold removeDag
  rw [get_retain]
  by_cases hid : id' = id <;> simp [hid]

/-- The static variables after the checks of a DAG. -/
def drain (sys : DagSystem) (id : Nat) (reached : Bool) : DagSystem :=
  let sys := (sys.checkForArityMismatches id).1
  if reached then (sys.checkForPubsubDuplicates id).1 else sys

theorem tables_drain (sys : DagSystem) (id : Nat) (reached : Bool) (id' : Nat) :
    (sys.drain id reached).tables id' =
      if id' = id then (sys.tables id').drain reached else sys.tables id' := by
  unfold tables drain checkForArityMismatches checkForPubsubDuplicates Tables.drain
  cases reached <;> by_cases hid : id' = id <;> simp [hid, removeEntry_apply]

theorem arcs_drain (sys : DagSystem) (id : Nat) (reached : Bool) :
    (sys.drain id reached).arcs = sys.arcs ∧ (sys.drain id reached).idToDag = sys.idToDag := by
  cases reached <;> exact ⟨rfl, rfl⟩

/-! ### The checks of one DAG -/

namespace Tables

def arityErrors (t : Tables) (id : Nat) : List DagError :=
  (t.mismatchSubscribe.getD []).map (.subscribeArityMismatch id) ++
    (t.mismatchPublish.getD []).map (.publishArityMismatch id)

def duplicateErrors (t : Tables) (id : Nat) : List DagError :=
  (t.duplicateSubscribe.getD []).map (.duplicateSubscribe id) ++
    (t.duplicatePublish.getD []).map (.duplicatePublish id)

/-- The error of `validate_dag`. -/
def dagError (algo : GraphAlgo) (t : Tables) (id : Nat) (graph : TopicGraph) : Option DagError :=
  if t.pending.isNone then some (.missingPendingTasks id)
  else if algo.connectedComponents graph ≠ 1 then some (.notWeaklyConnected id)
  else if algo.isCyclicDirected graph then some (.containsCycle id)
  else if (graph.externals .incoming).length > 1 then some (.multipleSourceNodes id)
  else if (graph.externals .outgoing).length > 1 then some (.multipleSinkNodes id)
  else validateEdgeConnect id graph

/-- The check for duplicates is made: the checks before it find nothing. -/
def Reached (algo : GraphAlgo) (t : Tables) (id : Nat) (graph : TopicGraph) : Prop :=
  t.arityErrors id = [] ∧ t.dagError algo id graph = none

instance (algo : GraphAlgo) (t : Tables) (id : Nat) (graph : TopicGraph) :
    Decidable (t.Reached algo id graph) := inferInstanceAs (Decidable (_ ∧ _))

/-- The errors of one DAG. -/
def errors (algo : GraphAlgo) (t : Tables) (dag : Dag) : List DagError :=
  if t.arityErrors dag.id ≠ [] then t.arityErrors dag.id
  else match t.dagError algo dag.id dag.graph with
    | some error => [error]
    | none =>
      if t.duplicateErrors dag.id ≠ [] then t.duplicateErrors dag.id
      else validateSinglePublisherPerTopic dag

end Tables

variable {sys sys' : DagSystem} {dag : Dag} {algo : GraphAlgo} {t : Tables}

/-- **The checks of a registered DAG** depend on its graph and its tables. -/
theorem validateOne_eq (algo : GraphAlgo) (hreg : (sys.getDag dag.id).isSome) :
    validateOne algo sys dag =
      some (sys.drain dag.id ((sys.tables dag.id).Reached algo dag.id dag.graph),
        (sys.tables dag.id).errors algo dag) := by
  have hdag : validateDag algo (sys.checkForArityMismatches dag.id).1 dag =
      some ((sys.tables dag.id).dagError algo dag.id dag.graph) := by
    have hnot : ¬ ((sys.checkForArityMismatches dag.id).1.getDag dag.id).isNone = true := by
      show ¬ (sys.getDag dag.id).isNone = true
      rw [isNone_iff_eq_none, ← not_isSome_iff_eq_none, not_not]
      exact hreg
    unfold validateDag
    rw [if_neg hnot]
    rfl
  unfold validateOne Tables.errors drain
  dsimp only
  rw [hdag]
  change (if (sys.tables dag.id).arityErrors dag.id ≠ [] then _ else _) = _
  by_cases harity : (sys.tables dag.id).arityErrors dag.id = []
  · cases herror : (sys.tables dag.id).dagError algo dag.id dag.graph with
    | some error =>
      have hreached : ¬ (sys.tables dag.id).Reached algo dag.id dag.graph := fun h =>
        absurd (herror.symm.trans h.2) nofun
      rw [if_neg (not_not.mpr harity), if_neg (not_not.mpr harity), decide_eq_false hreached]
      rfl
    | none =>
      have hreached : (sys.tables dag.id).Reached algo dag.id dag.graph := ⟨harity, herror⟩
      rw [if_neg (not_not.mpr harity), if_neg (not_not.mpr harity), decide_eq_true hreached]
      change some (if (sys.tables dag.id).duplicateErrors dag.id ≠ [] then _ else _) = _
      by_cases hdup : (sys.tables dag.id).duplicateErrors dag.id = []
      · simp only [hdup]
        rfl
      · simp only [ne_eq, hdup, not_false_eq_true, if_true]
        rfl
  · have hreached : ¬ (sys.tables dag.id).Reached algo dag.id dag.graph := fun h => harity h.1
    rw [if_pos harity, if_pos harity, decide_eq_false hreached]
    rfl

/-! ### The checks of a list of DAGs -/

/-- The records of duplicates are removed by the checks of the DAG, or there are none. -/
def Settled (algo : GraphAlgo) (sys : DagSystem) (dag : Dag) : Prop :=
  ((sys.tables dag.id).duplicateSubscribe = none ∧ (sys.tables dag.id).duplicatePublish = none) ∨
    (sys.tables dag.id).Reached algo dag.id dag.graph

instance (algo : GraphAlgo) (sys : DagSystem) (dag : Dag) : Decidable (Settled algo sys dag) :=
  inferInstanceAs (Decidable (_ ∨ _))

theorem Settled.drain (h : Settled algo sys dag) :
    (sys.tables dag.id).drain ((sys.tables dag.id).Reached algo dag.id dag.graph) =
      (sys.tables dag.id).drain true := by
  by_cases hreached : (sys.tables dag.id).Reached algo dag.id dag.graph
  · rw [decide_eq_true hreached]
  obtain ⟨hsub, hpub⟩ := h.resolve_right hreached
  rw [decide_eq_false hreached]
  unfold Tables.drain
  rw [hsub, hpub]
  rfl

theorem getDag_drain (sys : DagSystem) (id : Nat) (reached : Bool) (id' : Nat) :
    (sys.drain id reached).getDag id' = sys.getDag id' := by
  unfold getDag
  rw [(arcs_drain sys id reached).1, (arcs_drain sys id reached).2]

theorem validateEach_cons {first : Dag} {rest : List Dag} {errors : List DagError}
    (hreg : (sys.getDag first.id).isSome)
    (h : validateEach algo sys (first :: rest) = some (sys', errors)) :
    ∃ errors', validateEach algo
        (sys.drain first.id ((sys.tables first.id).Reached algo first.id first.graph)) rest =
          some (sys', errors') ∧ errors = (sys.tables first.id).errors algo first ++ errors' := by
  unfold validateEach at h
  rw [validateOne_eq algo hreg] at h
  obtain ⟨⟨last, errors'⟩, hrest, heq⟩ := map_eq_some_iff.mp h
  cases heq
  exact ⟨errors', hrest, rfl⟩

/-- The checks leave the records of the other DAGs. -/
theorem validateEach_other : ∀ {dags : List Dag} {sys sys' : DagSystem}
    {errors : List DagError}, (∀ dag ∈ dags, (sys.getDag dag.id).isSome) →
      validateEach algo sys dags = some (sys', errors) → ∀ {id}, (∀ dag ∈ dags, id ≠ dag.id) →
        sys'.tables id = sys.tables id := by
  intro dags
  induction dags with
  | nil =>
    intro sys sys' errors _ h id _
    cases h
    rfl
  | cons first rest ih =>
    intro sys sys' errors hreg h id hid
    obtain ⟨errors', hrest, -⟩ := validateEach_cons (hreg first mem_cons_self) h
    rw [ih (fun dag hdag => ?_) hrest fun dag hdag => hid dag (mem_cons_of_mem _ hdag),
      tables_drain, if_neg (hid first mem_cons_self)]
    rw [getDag_drain]
    exact hreg dag (mem_cons_of_mem _ hdag)

/-- A listed DAG has no records left, however often it is listed. -/
theorem validateEach_listed : ∀ {dags : List Dag} {sys sys' : DagSystem}
    {errors : List DagError}, (∀ dag ∈ dags, (sys.getDag dag.id).isSome) →
      (∀ dag ∈ dags, Settled algo sys dag) →
      validateEach algo sys dags = some (sys', errors) → ∀ dag ∈ dags,
        sys'.tables dag.id = (sys.tables dag.id).drain true := by
  intro dags
  induction dags with
  | nil => exact fun _ _ _ => nofun
  | cons first rest ih =>
    intro sys sys' errors hreg hsettled h
    obtain ⟨errors', hrest, -⟩ := validateEach_cons (hreg first mem_cons_self) h
    have hfirst := (hsettled first mem_cons_self).drain
    have hreg' : ∀ dag ∈ rest, ((sys.drain first.id
        ((sys.tables first.id).Reached algo first.id first.graph)).getDag dag.id).isSome := by
      intro dag hdag
      rw [getDag_drain]
      exact hreg dag (mem_cons_of_mem _ hdag)
    have htables : ∀ id, (sys.drain first.id
        ((sys.tables first.id).Reached algo first.id first.graph)).tables id =
          if id = first.id then (sys.tables id).drain true else sys.tables id := by
      intro id
      rw [tables_drain]
      split
      · next hid => rw [hid, hfirst]
      · rfl
    -- a DAG that is listed again, or shares the id, has no records left
    have hsettled' : ∀ dag ∈ rest, Settled algo (sys.drain first.id
        ((sys.tables first.id).Reached algo first.id first.graph)) dag := by
      intro dag hdag
      unfold Settled
      rw [htables]
      split
      · exact .inl ⟨rfl, rfl⟩
      · exact hsettled dag (mem_cons_of_mem _ hdag)
    have hrest' : ∀ dag ∈ rest, sys'.tables dag.id = (sys.tables dag.id).drain true := by
      intro dag hdag
      rw [ih hreg' hsettled' hrest dag hdag, htables]
      split
      · rfl
      · rfl
    intro dag hdag
    rcases mem_cons.mp hdag with rfl | hdag
    · by_cases hagain : ∃ dag' ∈ rest, dag'.id = dag.id
      · obtain ⟨dag', hdag', hid⟩ := hagain
        rw [← hid]
        exact hrest' dag' hdag'
      · rw [validateEach_other hreg' hrest fun dag' hdag' hid => hagain ⟨dag', hdag', hid.symm⟩,
          htables, if_pos rfl]
    · exact hrest' dag hdag

theorem validateEach_isSome : ∀ {dags : List Dag} {sys : DagSystem},
    (∀ dag ∈ dags, (sys.getDag dag.id).isSome) → (validateEach algo sys dags).isSome := by
  intro dags
  induction dags with
  | nil => exact fun _ => rfl
  | cons first rest ih =>
    intro sys hreg
    unfold validateEach
    rw [validateOne_eq algo (hreg first mem_cons_self)]
    simp only [bind_some, isSome_map]
    refine ih fun dag hdag => ?_
    rw [getDag_drain]
    exact hreg dag (mem_cons_of_mem _ hdag)

/-- **The result depends on the graphs and the tables of the listed DAGs.** -/
theorem validateEach_congr : ∀ {dags dags' : List Dag}
    {sys sys' last last' : DagSystem} {errors errors' : List DagError},
    (∀ dag ∈ dags, (sys.getDag dag.id).isSome) → (∀ dag ∈ dags', (sys'.getDag dag.id).isSome) →
    List.Forall₂ (fun dag dag' => dag.id = dag'.id ∧ dag.graph = dag'.graph ∧
      sys.tables dag.id = sys'.tables dag'.id) dags dags' →
      validateEach algo sys dags = some (last, errors) →
      validateEach algo sys' dags' = some (last', errors') → errors = errors' := by
  intro dags
  induction dags with
  | nil =>
    intro dags' sys sys' last last' errors errors' _ _ hall h h'
    cases hall
    rw [← (Prod.mk.inj (some.inj h)).2, ← (Prod.mk.inj (some.inj h')).2]
  | cons first rest ih =>
    intro dags' sys sys' last last' errors errors' hreg hreg' hall h h'
    cases hall with
    | cons hfirst hrest =>
      obtain ⟨hid, hgraph, htables⟩ := hfirst
      obtain ⟨tail, htail, rfl⟩ := validateEach_cons (hreg first mem_cons_self) h
      obtain ⟨tail', htail', rfl⟩ := validateEach_cons (hreg' _ mem_cons_self) h'
      congr 1
      · unfold Tables.errors validateSinglePublisherPerTopic
        rw [htables, hid, hgraph]
      refine ih (fun dag hdag => ?_) (fun dag hdag => ?_) (hrest.imp fun dag dag' hpair => ?_)
        htail htail'
      · rw [getDag_drain]
        exact hreg dag (mem_cons_of_mem _ hdag)
      · rw [getDag_drain]
        exact hreg' dag (mem_cons_of_mem _ hdag)
      · refine ⟨hpair.1, hpair.2.1, ?_⟩
        rw [tables_drain, tables_drain, hpair.2.2, hpair.1, htables, hid, hgraph]

/-- A record that exists is not empty. -/
structure Tables.Proper (t : Tables) : Prop where
  mismatchSubscribe : t.mismatchSubscribe ≠ some []
  mismatchPublish : t.mismatchPublish ≠ some []
  duplicateSubscribe : t.duplicateSubscribe ≠ some []
  duplicatePublish : t.duplicatePublish ≠ some []

theorem recordAt_ne {c : Prop} [Decidable c] {entry : Option (List Nat)} {idx : Nat}
    (h : entry ≠ some []) : recordAt c entry idx ≠ some [] := by
  unfold recordAt
  split
  · simp
  · exact h

theorem Tables.Proper.register (h : t.Proper) (id : Nat) (r : Registration) (idx : Nat) :
    (t.register id r idx).Proper :=
  ⟨recordAt_ne h.1, recordAt_ne h.2, recordAt_ne h.3, recordAt_ne h.4⟩

theorem Tables.Proper.drain (h : t.Proper) {id : Nat} (harity : t.arityErrors id = [])
    (hdup : t.duplicateErrors id = []) (reached : Bool) : t.drain reached = t := by
  have hnone : ∀ {o : Option (List Nat)}, o ≠ some [] → o.getD [] = [] → o = none := by
    intro o hne hnil
    cases o with
    | none => rfl
    | some l => exact absurd (congrArg some hnil) hne
  obtain ⟨harity₁, harity₂⟩ := append_eq_nil_iff.mp harity
  obtain ⟨hdup₁, hdup₂⟩ := append_eq_nil_iff.mp hdup
  have hms := hnone h.1 (map_eq_nil_iff.mp harity₁)
  have hmp := hnone h.2 (map_eq_nil_iff.mp harity₂)
  have hds := hnone h.3 (map_eq_nil_iff.mp hdup₁)
  have hdp := hnone h.4 (map_eq_nil_iff.mp hdup₂)
  clear harity harity₁ harity₂ hdup hdup₁ hdup₂
  obtain ⟨pending, source, ms, mp, ds, dp⟩ := t
  subst hms hmp hds hdp
  cases reached <;> rfl

theorem Tables.errors_eq_nil (h : t.errors algo dag = []) :
    t.arityErrors dag.id = [] ∧ t.dagError algo dag.id dag.graph = none ∧
      t.duplicateErrors dag.id = [] := by
  unfold errors at h
  split at h
  · next hne => exact absurd h hne
  rename_i harity
  split at h
  · cases h
  rename_i hdag
  split at h
  · next hne => exact absurd h hne
  · next hdup => exact ⟨not_not.mp harity, hdag, not_not.mp hdup⟩

/-- Without errors the checks change no table, so no DAG has an error in the tables at the
start. -/
theorem validateEach_clean : ∀ {dags : List Dag} {sys sys' : DagSystem},
    (∀ dag ∈ dags, (sys.getDag dag.id).isSome) → (∀ dag ∈ dags, (sys.tables dag.id).Proper) →
      validateEach algo sys dags = some (sys', []) → (∀ id, sys'.tables id = sys.tables id) ∧
        ∀ dag ∈ dags, (sys.tables dag.id).errors algo dag = [] := by
  intro dags
  induction dags with
  | nil =>
    intro sys sys' _ _ h
    cases h
    exact ⟨fun _ => rfl, nofun⟩
  | cons first rest ih =>
    intro sys sys' hreg hproper h
    obtain ⟨tail, htail, heq⟩ := validateEach_cons (hreg first mem_cons_self) h
    obtain ⟨hfirst, rfl⟩ := append_eq_nil_iff.mp heq.symm
    obtain ⟨harity, -, hdup⟩ := Tables.errors_eq_nil hfirst
    have hsame : ∀ id, (sys.drain first.id
        ((sys.tables first.id).Reached algo first.id first.graph)).tables id = sys.tables id := by
      intro id
      rw [tables_drain]
      split
      · next hid =>
        rw [hid]
        exact (hproper first mem_cons_self).drain harity hdup _
      · rfl
    obtain ⟨hids, herrors⟩ := ih (fun dag hdag => by
        rw [getDag_drain]
        exact hreg dag (mem_cons_of_mem _ hdag))
      (fun dag hdag => by
        rw [hsame]
        exact hproper dag (mem_cons_of_mem _ hdag)) htail
    refine ⟨fun id => (hids id).trans (hsame id), fun dag hdag => ?_⟩
    rcases mem_cons.mp hdag with rfl | hdag
    · exact hfirst
    · rw [← hsame]
      exact herrors dag hdag

/-! ### Starting and removing DAGs -/

/-- Only the DAGs with a handle in `hs` change, and none is registered or removed. -/
structure Touches (hs : Nat → Prop) (sys sys' : DagSystem) : Prop where
  idToDag : sys'.idToDag = sys.idToDag
  other : ∀ {h}, ¬ hs h → sys'.arcs[h]? = sys.arcs[h]?
  id : ∀ {h : Nat} {dag : Dag}, sys.arcs[h]? = some dag →
    ∃ dag', sys'.arcs[h]? = some dag' ∧ dag'.id = dag.id
  length : sys'.arcs.length = sys.arcs.length
  coherent : sys.Coherent → sys'.Coherent

theorem Touches.refl (hs : Nat → Prop) (sys : DagSystem) : Touches hs sys sys :=
  ⟨rfl, fun _ => rfl, fun h => ⟨_, h, rfl⟩, rfl, fun h => h⟩

theorem Touches.trans {hs : Nat → Prop} {sys₁ sys₂ sys₃ : DagSystem} (h : Touches hs sys₁ sys₂)
    (h' : Touches hs sys₂ sys₃) : Touches hs sys₁ sys₃ where
  idToDag := h'.idToDag.trans h.idToDag
  other hn := (h'.other hn).trans (h.other hn)
  id hdag := by
    obtain ⟨dag₂, hdag₂, hid₂⟩ := h.id hdag
    obtain ⟨dag₃, hdag₃, hid₃⟩ := h'.id hdag₂
    exact ⟨dag₃, hdag₃, hid₃.trans hid₂⟩
  length := h'.length.trans h.length
  coherent hc := h'.coherent (h.coherent hc)

theorem Touches.mono {hs hs' : Nat → Prop} (h : Touches hs sys sys') (himp : ∀ h, hs h → hs' h) :
    Touches hs' sys sys' :=
  ⟨h.idToDag, fun hn => h.other (mt (himp _) hn), h.id, h.length, h.coherent⟩

theorem Touches.set {h : Nat} {dag' : Dag} (hdag : sys.arcs[h]? = some dag)
    (harcs : sys'.arcs = sys.arcs.set h dag')
    (hreg : sys'.idToDag = sys.idToDag) (hid : dag'.id = dag.id)
    (hgraph : dag.graph.Built → dag'.graph.Built) : Touches (· = h) sys sys' where
  idToDag := hreg
  other hn := by rw [harcs, getElem?_set_ne (Ne.symm hn)]
  id {h' d} hd := by
    by_cases hh : h' = h
    · subst hh
      cases hdag.symm.trans hd
      have hlt : h' < sys.arcs.length := (List.getElem?_eq_some_iff.mp hdag).1
      exact ⟨dag', by rw [harcs, getElem?_set_self hlt], hid⟩
    · exact ⟨d, by rw [harcs, getElem?_set_ne (Ne.symm hh)]; exact hd, rfl⟩
  length := by rw [harcs, length_set]
  coherent hc := hc.set hdag harcs hreg hid hgraph

theorem setTaskId_touches (sys : DagSystem) (h idx taskId : Nat) :
    Touches (· = h) sys (sys.setTaskId h idx taskId) ∧
      ∀ id, (sys.setTaskId h idx taskId).tables id = sys.tables id := by
  unfold setTaskId
  cases hdag : sys.arcs[h]? with
  | none => exact ⟨.refl _ _, fun _ => rfl⟩
  | some dag =>
    exact ⟨.set hdag rfl rfl rfl fun hbuilt => hbuilt.modifyNode fun _ => ⟨rfl, rfl⟩, fun _ => rfl⟩

section

variable (spawn : PendingTask → Option Nat)

theorem spawnTasks_touches (h : Nat) :
    ∀ (tasks : List PendingTask) (sys : DagSystem),
      Touches (· = h) sys (spawnTasks spawn h sys tasks).1 ∧
        ∀ id, (spawnTasks spawn h sys tasks).1.tables id = sys.tables id := by
  intro tasks
  induction tasks with
  | nil => exact fun sys => ⟨.refl _ _, fun _ => rfl⟩
  | cons task tasks ih =>
    intro sys
    unfold spawnTasks
    cases spawn task with
    | none => exact ⟨.refl _ _, fun _ => rfl⟩
    | some taskId =>
      obtain ⟨htouch, htables⟩ := setTaskId_touches sys h task.nodeIdx taskId
      obtain ⟨htouch', htables'⟩ := ih (sys.setTaskId h task.nodeIdx taskId)
      exact ⟨htouch.trans htouch', fun id => (htables' id).trans (htables id)⟩

/-- `spawn_dag` writes the DAG it starts, and the tables of its id. -/
theorem spawnDag_touches (sys : DagSystem) (h id : Nat) :
    Touches (· = h) sys (sys.spawnDag spawn h id).1 ∧
      ∀ {id'}, id' ≠ id → (sys.spawnDag spawn h id).1.tables id' = sys.tables id' := by
  unfold spawnDag
  cases sys.pendingTasks id with
  | none => exact ⟨.refl _ _, fun _ => rfl⟩
  | some tasks =>
    dsimp only
    have hpending : ∀ {id'}, id' ≠ id →
        ({ sys with pendingTasks := removeEntry sys.pendingTasks id } : DagSystem).tables id' =
          sys.tables id' := by
      intro id' hid
      unfold tables
      simp only [removeEntry_apply, if_neg hid]
    obtain ⟨htouch, htables⟩ := spawnTasks_touches spawn h tasks
      { sys with pendingTasks := removeEntry sys.pendingTasks id }
    have htouch₀ : Touches (· = h) sys
        (spawnTasks spawn h { sys with pendingTasks := removeEntry sys.pendingTasks id } tasks).1 :=
      ⟨htouch.idToDag, htouch.other, htouch.id, htouch.length,
        fun hc => htouch.coherent (hc.of_same rfl fun hget => hget)⟩
    split
    · next mid heq =>
      rw [heq] at htouch₀ htables
      exact ⟨htouch₀, fun hid => (htables _).trans (hpending hid)⟩
    rename_i mid heq
    rw [heq] at htouch₀ htables
    cases mid.sourcePendingTasks id with
    | none => exact ⟨htouch₀, fun hid => (htables _).trans (hpending hid)⟩
    | some task =>
      obtain ⟨htouch', htables'⟩ := spawnTasks_touches spawn h [task]
        { mid with sourcePendingTasks := removeEntry mid.sourcePendingTasks id }
      refine ⟨htouch₀.trans ⟨htouch'.idToDag, htouch'.other, htouch'.id, htouch'.length,
        fun hc => htouch'.coherent (hc.of_same rfl fun hget => hget)⟩, fun {id'} hid => ?_⟩
      rw [htables', ← hpending hid, ← htables]
      unfold tables
      simp only [removeEntry_apply, if_neg hid]

/-- The loop over the DAGs to be started writes those whose start was begun. -/
theorem spawnDags_touches :
    ∀ (dags : List (Nat × Dag)) (sys : DagSystem),
      Touches (· ∈ (spawnDags spawn sys dags).2.1) sys (spawnDags spawn sys dags).1 ∧
        (∀ {id}, (∀ p ∈ dags, p.1 ∈ (spawnDags spawn sys dags).2.1 → id ≠ p.2.id) →
          (spawnDags spawn sys dags).1.tables id = sys.tables id) ∧
        ∀ h ∈ (spawnDags spawn sys dags).2.1, ∃ dag, (h, dag) ∈ dags := by
  intro dags
  induction dags with
  | nil => exact fun sys => ⟨.refl _ _, fun _ => rfl, nofun⟩
  | cons first rest ih =>
    intro sys
    obtain ⟨h, dag⟩ := first
    obtain ⟨htouch, htables⟩ := spawnDag_touches spawn sys h dag.id
    unfold spawnDags
    split
    · next mid heq =>
      rw [heq] at htouch htables
      refine ⟨htouch.mono fun h' hh' => by rw [hh']; exact mem_singleton_self _,
        fun hid => htables (hid (h, dag) mem_cons_self (mem_singleton_self _)),
        fun h' hh' => ⟨dag, ?_⟩⟩
      rw [mem_singleton.mp hh']
      exact mem_cons_self
    · next mid heq =>
      rw [heq] at htouch htables
      obtain ⟨htouch', htables', hbegun⟩ := ih mid
      refine ⟨(htouch.mono fun h' hh' => ?_).trans (htouch'.mono fun h' hh' => ?_), fun hid => ?_,
        fun h' hh' => ?_⟩
      · rw [hh']
        exact mem_cons_self
      · exact mem_cons_of_mem _ hh'
      · rw [htables' fun p hp hmem => hid p (mem_cons_of_mem _ hp) (mem_cons_of_mem _ hmem)]
        exact htables (hid (h, dag) mem_cons_self mem_cons_self)
      · rcases mem_cons.mp hh' with rfl | hh'
        · exact ⟨dag, mem_cons_self⟩
        · obtain ⟨dag', hdag'⟩ := hbegun h' hh'
          exact ⟨dag', mem_cons_of_mem _ hdag'⟩

end

theorem removeDags_spec : ∀ (dags : List (Nat × Dag)) (sys : DagSystem),
    (dags.foldl (fun sys dag => sys.removeDag dag.2.id) sys).arcs = sys.arcs ∧
      ∀ id, ((∃ p ∈ dags, p.2.id = id) →
        (dags.foldl (fun sys dag => sys.removeDag dag.2.id) sys).idToDag.get id = none ∧
          (dags.foldl (fun sys dag => sys.removeDag dag.2.id) sys).tables id =
            (sys.tables id).remove) ∧
      ((∀ p ∈ dags, p.2.id ≠ id) →
        (dags.foldl (fun sys dag => sys.removeDag dag.2.id) sys).idToDag.get id =
            sys.idToDag.get id ∧
          (dags.foldl (fun sys dag => sys.removeDag dag.2.id) sys).tables id = sys.tables id) := by
  intro dags
  induction dags with
  | nil => exact fun sys => ⟨rfl, fun id => ⟨fun ⟨_, hp, _⟩ => absurd hp not_mem_nil,
      fun _ => ⟨rfl, rfl⟩⟩⟩
  | cons first rest ih =>
    intro sys
    obtain ⟨harcs, hrest⟩ := ih (sys.removeDag first.2.id)
    rw [foldl_cons]
    refine ⟨harcs, fun id => ⟨?_, fun hid => ?_⟩⟩
    · rintro ⟨p, hp, rfl⟩
      by_cases hagain : ∃ p' ∈ rest, p'.2.id = p.2.id
      · obtain ⟨hget, htables⟩ := (hrest p.2.id).1 hagain
        refine ⟨hget, htables.trans ?_⟩
        rw [tables_removeDag]
        split <;> rfl
      obtain ⟨hget, htables⟩ := (hrest p.2.id).2 fun p' hp' hid => hagain ⟨p', hp', hid⟩
      have hfirst : p.2.id = first.2.id := by
        rcases mem_cons.mp hp with rfl | hp
        · rfl
        · exact absurd ⟨p, hp, rfl⟩ hagain
      rw [hget, htables, get_removeDag, tables_removeDag, if_pos hfirst, if_pos hfirst]
      exact ⟨rfl, rfl⟩
    · obtain ⟨hget, htables⟩ := (hrest id).2 fun p hp => hid p (mem_cons_of_mem _ hp)
      have hfirst : id ≠ first.2.id := (hid first mem_cons_self).symm
      rw [hget, htables, get_removeDag, tables_removeDag, if_neg hfirst, if_neg hfirst]
      exact ⟨rfl, rfl⟩

end DagSystem

/-! ### Sessions -/

/-- One registration of a DAG that is alone in the static variables. -/
def replayOne (id : Nat) (v : TopicGraph × DagSystem.Tables) (r : DagSystem.Registration) :
    Option (TopicGraph × DagSystem.Tables) :=
  (v.1.addNodeWithTopicEdges r.subscribeTopicNames r.publishTopicNames).map fun (graph, idx) =>
    (r.setDeadline graph idx, v.2.register id r idx)

/-- The graph and the tables of a DAG with the given registrations, from empty tables. -/
def replay (id : Nat) (regs : List DagSystem.Registration) :
    Option (TopicGraph × DagSystem.Tables) := regs.foldlM (replayOne id) (.new, .empty)

theorem replay_concat (id : Nat) (regs : List DagSystem.Registration) (r : DagSystem.Registration) :
    replay id (regs ++ [r]) = (replay id regs).bind fun v => replayOne id v r := by
  unfold replay
  rw [foldlM_append]
  simp only [foldlM_cons, foldlM_nil, bind_pure]
  rfl

theorem replay_proper {id : Nat} {regs : List DagSystem.Registration} {graph : TopicGraph}
    {t : DagSystem.Tables} (h : replay id regs = some (graph, t)) : t.Proper := by
  induction regs using reverseRecOn generalizing graph t with
  | nil =>
    cases h
    exact ⟨nofun, nofun, nofun, nofun⟩
  | append_singleton regs r ih =>
    rw [replay_concat] at h
    obtain ⟨⟨graph₀, t₀⟩, hregs, hr⟩ := bind_eq_some_iff.mp h
    obtain ⟨⟨graph₁, idx⟩, -, heq⟩ := map_eq_some_iff.mp hr
    cases heq
    exact (ih hregs).register id r idx

/-- The static variables with their past: the registrations of each DAG, by its handle, and
the DAGs whose start was begun. -/
structure Session where
  sys : DagSystem
  regs : Nat → List DagSystem.Registration
  started : Nat → Bool

namespace Session

/-- A system without DAGs; `candidateId` is the id that is tried first. -/
def init (candidateId : Nat) : Session where
  sys := { DagSystem.init with candidateId := candidateId }
  regs _ := []
  started _ := false

/-- The calls of a program, and what the reactors of a started DAG write. -/
inductive Call
  | create
  | register (h : Nat) (r : DagSystem.Registration)
  | finish (handles : List Nat) (spawn : PendingTask → Option Nat)
  | setNode (h node taskId numFinished : Nat) (deadlineJob : Option Nat)
  | setDeadlines (h : Nat) (deadlines : SortedMap Nat Nat)

/-- The DAGs of the handles in a list. -/
def listed (σ : Session) (handles : List Nat) : List (Nat × Dag) :=
  handles.filterMap fun h => (σ.sys.arcs[h]?).map fun dag => (h, dag)

def step (algo : GraphAlgo) (σ : Session) : Call → Option Session
  | .create => σ.sys.create.map fun (sys, _) => { σ with sys := sys }
  | .register h r => (σ.sys.register h r).map fun sys =>
    { σ with sys := sys, regs := update σ.regs h (σ.regs h ++ [r]) }
  | .finish handles spawn =>
    (σ.sys.finishCreateDags algo spawn (σ.listed handles)).map fun (sys, _, begun) =>
      { σ with sys := sys, started := fun h => σ.started h || decide (h ∈ begun) }
  | .setNode h node taskId numFinished deadlineJob =>
    if σ.started h then
      (σ.sys.step (.setNode h node taskId numFinished deadlineJob)).map fun sys =>
        { σ with sys := sys }
    else none
  | .setDeadlines h deadlines =>
    if σ.started h then
      (σ.sys.step (.setDeadlines h deadlines)).map fun sys => { σ with sys := sys }
    else none

theorem mem_listed {σ : Session} {handles : List Nat} {p : Nat × Dag} :
    p ∈ σ.listed handles ↔ p.1 ∈ handles ∧ σ.sys.arcs[p.1]? = some p.2 := by
  unfold listed
  rw [mem_filterMap]
  constructor
  · rintro ⟨h, hmem, hp⟩
    obtain ⟨dag, hdag, rfl⟩ := map_eq_some_iff.mp hp
    exact ⟨hmem, hdag⟩
  · rintro ⟨hmem, hdag⟩
    exact ⟨p.1, hmem, by rw [hdag]; rfl⟩

/-- The handle is the one that is registered under the id of its DAG. -/
def Current (σ : Session) (h : Nat) : Prop :=
  ∃ dag, σ.sys.arcs[h]? = some dag ∧ σ.sys.idToDag.get dag.id = some h

/-- What holds of a session whose calls leave no trace of a rejected DAG. -/
structure Inv (σ : Session) : Prop where
  coherent : σ.sys.Coherent
  /-- There is nothing under an id that is not in use. -/
  vacant : ∀ {id}, σ.sys.idToDag.get id = none → σ.sys.tables id = .empty
  /-- A registered DAG that was not started is what its registrations make of empty tables. -/
  fresh : ∀ {h : Nat} {dag : Dag}, σ.sys.arcs[h]? = some dag →
    σ.sys.idToDag.get dag.id = some h → σ.started h = false →
      replay dag.id (σ.regs h) = some (dag.graph, σ.sys.tables dag.id)
  started : ∀ {h}, σ.started h = true → σ.Current h
  unused : ∀ {h}, σ.sys.arcs.length ≤ h → σ.regs h = []

theorem Inv.init (candidateId : Nat) : (init candidateId).Inv :=
  ⟨⟨nofun, nofun⟩, fun _ => rfl, nofun, nofun, fun _ => rfl⟩

variable {algo : GraphAlgo} {σ σ' : Session}

/-- The new id was vacant. -/
theorem Inv.create (hσ : σ.Inv) (hstep : σ.step algo .create = some σ') : σ'.Inv := by
  obtain ⟨⟨sys, h⟩, hcreate, rfl⟩ := map_eq_some_iff.mp hstep
  have hcoherent := hσ.coherent.create hcreate
  obtain ⟨rfl, id, hid, rfl⟩ := DagSystem.create_spec hcreate
  have hold : ∀ {h : Nat} {dag : Dag}, σ.sys.arcs[h]? = some dag →
      (σ.sys.arcs ++ [(⟨id, .new, .empty⟩ : Dag)])[h]? = some dag := fun hdag =>
    (List.getElem?_append_left (List.getElem?_eq_some_iff.mp hdag).1).trans hdag
  refine ⟨hcoherent, fun {id'} hnone => ?_, fun {h dag} hdag hget hstart => ?_,
    fun {h} hstart => ?_, fun {h} hle => ?_⟩
  · by_cases hid' : id' = id
    · subst hid'
      rw [get_insert_self] at hnone
      cases hnone
    · rw [get_insert_of_ne hid'] at hnone
      exact hσ.vacant hnone
  · by_cases hlt : h < σ.sys.arcs.length
    · have hdag₀ : σ.sys.arcs[h]? = some dag := (getElem?_append_left hlt).symm.trans hdag
      refine hσ.fresh hdag₀ ?_ hstart
      by_cases hid' : dag.id = id
      · -- the id of the new DAG was not in use, and the handle of `dag` is an old one
        rw [hid', get_insert_self] at hget
        exact absurd (some.inj hget) hlt.ne'
      · rwa [get_insert_of_ne hid'] at hget
    · obtain rfl : h = σ.sys.arcs.length := by
        have := (List.getElem?_eq_some_iff.mp hdag).1
        rw [length_append, length_singleton] at this
        omega
      rw [getElem?_concat_length] at hdag
      cases hdag
      change replay id (σ.regs σ.sys.arcs.length) = some (.new, σ.sys.tables id)
      rw [hσ.unused le_rfl, hσ.vacant hid]
      rfl
  · obtain ⟨dag, hdag, hget⟩ := hσ.started hstart
    refine ⟨dag, hold hdag, ?_⟩
    rw [get_insert_of_ne fun heq => ?_]
    · exact hget
    · rw [heq, hid] at hget
      cases hget
  · refine hσ.unused (le_trans ?_ hle)
    rw [length_append]
    exact Nat.le_add_right _ _

variable {h : Nat}

/-- The new registration is replayed last. -/
theorem Inv.register {r : DagSystem.Registration} (hσ : σ.Inv) (hcur : σ.Current h)
    (hstep : σ.step algo (.register h r) = some σ') : σ'.Inv := by
  obtain ⟨sys, hreg, rfl⟩ := map_eq_some_iff.mp hstep
  have hcoherent : sys.Coherent := hσ.coherent.step (w := .register h r) hreg
  obtain ⟨dag, graph, idx, hdag, hgraph, rfl⟩ := DagSystem.register_spec hreg
  obtain ⟨dag', hdag', hget⟩ := hcur
  cases hdag.symm.trans hdag'
  have hlt : h < σ.sys.arcs.length := (List.getElem?_eq_some_iff.mp hdag).1
  have hself : (σ.sys.arcs.set h { dag with graph := r.setDeadline graph idx })[h]? =
      some { dag with graph := r.setDeadline graph idx } := getElem?_set_self hlt
  refine ⟨hcoherent, fun {id} hnone => ?_, fun {h' d} hd hget' hstart => ?_,
    fun {h'} hstart => ?_, fun {h'} hle => ?_⟩
  · have hne : id ≠ dag.id := by
      rintro rfl
      cases hget.symm.trans hnone
    rw [DagSystem.tables_withNode, if_neg hne]
    exact hσ.vacant hnone
  · by_cases hh : h' = h
    · subst hh
      cases hself.symm.trans hd
      dsimp only
      rw [DagSystem.tables_withNode, if_pos rfl, update_self, replay_concat,
        hσ.fresh hdag hget hstart, bind_some, replayOne, hgraph]
      rfl
    · have hd₀ : σ.sys.arcs[h']? = some d := (getElem?_set_ne (Ne.symm hh)).symm.trans hd
      have hne : d.id ≠ dag.id := fun heq => hh (some.inj
        (hget'.symm.trans ((congrArg σ.sys.idToDag.get heq).trans hget)))
      dsimp only
      rw [DagSystem.tables_withNode, if_neg hne, update_of_ne hh]
      exact hσ.fresh hd₀ hget' hstart
  · obtain ⟨d, hd, hgetd⟩ := hσ.started hstart
    by_cases hh : h' = h
    · subst hh
      exact ⟨_, hself, hget⟩
    · exact ⟨d, (getElem?_set_ne (Ne.symm hh)).trans hd, hgetd⟩
  · have hle' : σ.sys.arcs.length ≤ h' := by
      rwa [DagSystem.withNode, length_set] at hle
    dsimp only
    rw [update_of_ne (by omega)]
    exact hσ.unused hle'

theorem Inv.touch {sys : DagSystem} (hσ : σ.Inv) (hstart : σ.started h = true)
    (htouch : DagSystem.Touches (· = h) σ.sys sys)
    (htables : ∀ id, sys.tables id = σ.sys.tables id) : ({ σ with sys := sys } : Session).Inv := by
  refine ⟨htouch.coherent hσ.coherent, fun {id} hnone => ?_, fun {h' d} hd hget hstart' => ?_,
    fun {h'} hstart' => ?_, fun {h'} hle => ?_⟩
  · rw [htouch.idToDag] at hnone
    exact (htables id).trans (hσ.vacant hnone)
  · have hne : h' ≠ h := by
      rintro rfl
      cases hstart.symm.trans hstart'
    rw [htouch.other hne] at hd
    rw [htouch.idToDag] at hget
    rw [htables]
    exact hσ.fresh hd hget hstart'
  · obtain ⟨d, hd, hget⟩ := hσ.started hstart'
    obtain ⟨d', hd', hid⟩ := htouch.id hd
    exact ⟨d', hd', by rw [htouch.idToDag, hid]; exact hget⟩
  · rw [htouch.length] at hle
    exact hσ.unused hle

theorem Inv.setNode {node taskId numFinished : Nat} {deadlineJob : Option Nat} (hσ : σ.Inv)
    (hstep : σ.step algo (.setNode h node taskId numFinished deadlineJob) = some σ') :
    σ'.Inv := by
  obtain ⟨hstart, hstep⟩ := ite_none_right_eq_some.mp hstep
  obtain ⟨sys, hsys, rfl⟩ := map_eq_some_iff.mp hstep
  obtain ⟨dag, hdag, hsys⟩ := bind_eq_some_iff.mp hsys
  cases hsys
  exact hσ.touch hstart (.set hdag rfl rfl rfl fun hb => hb.modifyNode fun _ => ⟨rfl, rfl⟩)
    fun _ => rfl

theorem Inv.setDeadlines {deadlines : SortedMap Nat Nat} (hσ : σ.Inv)
    (hstep : σ.step algo (.setDeadlines h deadlines) = some σ') : σ'.Inv := by
  obtain ⟨hstart, hstep⟩ := ite_none_right_eq_some.mp hstep
  obtain ⟨sys, hsys, rfl⟩ := map_eq_some_iff.mp hstep
  obtain ⟨dag, hdag, hsys⟩ := bind_eq_some_iff.mp hsys
  cases hsys
  exact hσ.touch hstart (.set hdag rfl rfl rfl fun hb => hb) fun _ => rfl

end Session

end Awkernel
