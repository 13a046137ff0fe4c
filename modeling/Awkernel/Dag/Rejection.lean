import Awkernel.Dag.Session

/-!
# Rejected DAGs

`finish_create_dags` removes the listed DAGs from `DAGS`, `PENDING_TASKS` and
`SOURCE_PENDING_TASKS` if it returns an error; the records of the other four static variables
are removed by the checks that look at them. The check for duplicates is not made if an
earlier check of the DAG fails, so its records stay, and ids are used again at once: the next
DAG with the id is rejected for topics it does not have.

The condition (`Careful`) rules this out, and two uses of a handle that go through the id of
its DAG to another DAG: registering on, or listing, a DAG that was rejected, and listing a DAG
that was started. Under it

* after an error nothing is left under the ids of the listed DAGs (`rejected_traceless`),
* nothing is ever left under an id that is not in use, and a DAG that was not started is what
  its own registrations make of empty tables (`Inv.step`), so the result of the validation
  does not depend on the DAGs that were rejected before (`validateAllRules_congr`),
* the DAGs that were started stay registered.
-/

open TransitionSystem List Option Bool Prod

namespace Awkernel

namespace Session

variable {algo : GraphAlgo} {σ σ' : Session}

/-- The call uses the handles of DAGs that are registered, lists no DAG that was started, and
lists a DAG with repeated topics only if the checks get as far as looking for them. -/
def Careful (algo : GraphAlgo) (σ : Session) : Call → Prop
  | .register h _ => σ.Current h
  | .finish handles _ => ∀ p ∈ σ.listed handles,
      σ.sys.idToDag.get p.2.id = some p.1 ∧ σ.started p.1 = false ∧ σ.sys.Settled algo p.2
  | _ => True

theorem getDag_isSome {h : Nat} {dag : Dag} (hdag : σ.sys.arcs[h]? = some dag)
    (hget : σ.sys.idToDag.get dag.id = some h) : (σ.sys.getDag dag.id).isSome := by
  unfold DagSystem.getDag
  rw [hget, bind_some, hdag]
  rfl

variable {dags : List (Nat × Dag)} {sys sys' : DagSystem}

/-- The two ways in which `finish_create_dags` goes on after the validation. -/
theorem finish_cases {spawn : PendingTask → Option Nat}
    {outcome : DagSystem.Outcome} {begun : List Nat}
    (h : sys.finishCreateDags algo spawn dags = some (sys', outcome, begun)) :
    ∃ mid errors, DagSystem.validateEach algo sys (dags.map snd) = some (mid, errors) ∧
      ((errors = [] ∧ sys' = (DagSystem.spawnDags spawn mid dags).1 ∧
          begun = (DagSystem.spawnDags spawn mid dags).2.1 ∧ ∀ e, outcome ≠ .err e) ∨
        (sys' = dags.foldl (fun sys dag => sys.removeDag dag.2.id) mid ∧ begun = [] ∧
          ∃ e, outcome = .err e)) := by
  obtain ⟨⟨mid, errors⟩, hvalid, heq⟩ := map_eq_some_iff.mp h
  obtain ⟨⟨mid', errors'⟩, heach, hrules⟩ := map_eq_some_iff.mp hvalid
  dsimp only at hrules heq
  have hmid : mid' = mid ∧ (errors = [] → errors' = []) := by
    split at hrules
    · cases hrules
      exact ⟨rfl, fun hnil => hnil⟩
    · next hnil => exact ⟨(Prod.mk.inj hrules).1, fun _ => not_not.mp hnil⟩
  obtain ⟨rfl, hnil⟩ := hmid
  refine ⟨mid', errors', heach, ?_⟩
  split at heq
  · next herrors =>
    obtain ⟨rfl, hrest⟩ := Prod.mk.inj heq
    cases hrest
    refine .inl ⟨hnil herrors, rfl, rfl, fun e => ?_⟩
    split <;> nofun
  · obtain ⟨rfl, hrest⟩ := Prod.mk.inj heq
    cases hrest
    exact .inr ⟨rfl, rfl, _, rfl⟩

section Finish

variable {handles : List Nat} {spawn : PendingTask → Option Nat}
  (hcareful : σ.Careful algo (.finish handles spawn))

include hcareful

theorem listed_registered : ∀ dag ∈ (σ.listed handles).map snd, (σ.sys.getDag dag.id).isSome := by
  intro dag hdag
  obtain ⟨p, hp, rfl⟩ := mem_map.mp hdag
  exact getDag_isSome (mem_listed.mp hp).2 (hcareful p hp).1

variable {errors : List DagError}

/-- After an error nothing is left under the ids of the listed DAGs. -/
theorem rejected_traceless {sys' : DagSystem} {begun : List Nat}
    (hfin : σ.sys.finishCreateDags algo spawn (σ.listed handles) =
      some (sys', .err errors, begun)) :
    ∀ p ∈ σ.listed handles, sys'.Traceless p.2.id := by
  obtain ⟨mid, errors', heach, ⟨-, -, -, hne⟩ | ⟨rfl, -, -⟩⟩ := finish_cases hfin
  · exact absurd rfl (hne errors)
  intro p hp
  obtain ⟨hget, htables⟩ := ((DagSystem.removeDags_spec (σ.listed handles) mid).2 p.2.id).1
    ⟨p, hp, rfl⟩
  refine ⟨hget, htables.trans ?_⟩
  rw [DagSystem.validateEach_listed (listed_registered hcareful) (fun dag hdag => ?_) heach
    p.2 (mem_map_of_mem hp)]
  · rfl
  · obtain ⟨p', hp', rfl⟩ := mem_map.mp hdag
    exact (hcareful p' hp').2.2

theorem id_ne_of_not_listed {h : Nat} {dag : Dag}
    (hget : σ.sys.idToDag.get dag.id = some h) (hnot : ∀ dag, (h, dag) ∉ σ.listed handles) :
    ∀ p ∈ σ.listed handles, p.2.id ≠ dag.id := by
  intro p hp heq
  have hp₁ : p.1 = h := some.inj
    ((hcareful p hp).1.symm.trans ((congrArg σ.sys.idToDag.get heq).trans hget))
  refine hnot p.2 ?_
  rw [← hp₁]
  exact hp

/-- A rejection removes all that it has not drained. -/
theorem Inv.finish_err (hσ : σ.Inv) {mid : DagSystem}
    (heach : DagSystem.validateEach algo σ.sys ((σ.listed handles).map snd) =
      some (mid, errors)) :
    ({ σ with sys := (σ.listed handles).foldl (fun sys dag => sys.removeDag dag.2.id) mid } :
      Session).Inv := by
  obtain ⟨harcs, hids⟩ := DagSystem.removeDags_spec (σ.listed handles) mid
  obtain ⟨hmidArcs, hmidIds⟩ := DagSystem.validateEach_frame heach
  have hreg := listed_registered hcareful
  -- under the ids of the other DAGs nothing changes
  have hother : ∀ {id}, (∀ p ∈ σ.listed handles, p.2.id ≠ id) →
      ((σ.listed handles).foldl (fun sys dag => sys.removeDag dag.2.id) mid).idToDag.get id =
          σ.sys.idToDag.get id ∧
        ((σ.listed handles).foldl (fun sys dag => sys.removeDag dag.2.id) mid).tables id =
          σ.sys.tables id := by
    intro id hid
    obtain ⟨hget, htables⟩ := (hids id).2 hid
    rw [hget, htables, hmidIds, DagSystem.validateEach_other hreg heach fun dag hdag heq => ?_]
    · exact ⟨rfl, rfl⟩
    · obtain ⟨p, hp, rfl⟩ := mem_map.mp hdag
      exact hid p hp heq.symm
  have hget_of : ∀ {id h}, ((σ.listed handles).foldl
      (fun sys dag => sys.removeDag dag.2.id) mid).idToDag.get id = some h →
        σ.sys.idToDag.get id = some h ∧ ∀ p ∈ σ.listed handles, p.2.id ≠ id := by
    intro id h hget
    have hnot : ∀ p ∈ σ.listed handles, p.2.id ≠ id := fun p hp heq =>
      absurd (((hids id).1 ⟨p, hp, heq⟩).1.symm.trans hget) nofun
    exact ⟨(hother hnot).1.symm.trans hget, hnot⟩
  refine ⟨hσ.coherent.of_same (harcs.trans hmidArcs) fun hget => (hget_of hget).1,
    fun {id} hnone => ?_, fun {h dag} hdag hget hstart => ?_, fun {h} hstart => ?_,
    fun {h} hle => ?_⟩
  · by_cases hlisted : ∃ p ∈ σ.listed handles, p.2.id = id
    · obtain ⟨p, hp, rfl⟩ := hlisted
      rw [((hids p.2.id).1 ⟨p, hp, rfl⟩).2, DagSystem.validateEach_listed hreg
        (fun dag hdag => ?_) heach p.2 (mem_map_of_mem hp)]
      · rfl
      · obtain ⟨p', hp', rfl⟩ := mem_map.mp hdag
        exact (hcareful p' hp').2.2
    · have hnot : ∀ p ∈ σ.listed handles, p.2.id ≠ id := fun p hp heq => hlisted ⟨p, hp, heq⟩
      rw [(hother hnot).2]
      exact hσ.vacant ((hother hnot).1.symm.trans hnone)
  · rw [harcs, hmidArcs] at hdag
    obtain ⟨hget₀, hnot⟩ := hget_of hget
    rw [(hother hnot).2]
    exact hσ.fresh hdag hget₀ hstart
  · -- a DAG that was started is not listed
    obtain ⟨dag, hdag, hget⟩ := hσ.started hstart
    have hnot := id_ne_of_not_listed hcareful hget fun d hd =>
      absurd (hstart.symm.trans (hcareful (h, d) hd).2.1) nofun
    exact ⟨dag, by rw [harcs, hmidArcs]; exact hdag, (hother hnot).1.trans hget⟩
  · rw [harcs, hmidArcs] at hle
    exact hσ.unused hle

/-- A start takes the tasks of the DAGs that it begins. -/
theorem Inv.finish_ok (hσ : σ.Inv) {mid : DagSystem}
    (heach : DagSystem.validateEach algo σ.sys ((σ.listed handles).map snd) =
      some (mid, [])) :
    ({ σ with
      sys := (DagSystem.spawnDags spawn mid (σ.listed handles)).1
      started := fun h => σ.started h ||
        decide (h ∈ (DagSystem.spawnDags spawn mid (σ.listed handles)).2.1) } : Session).Inv := by
  obtain ⟨hmidArcs, hmidIds⟩ := DagSystem.validateEach_frame heach
  obtain ⟨hmid, -⟩ := DagSystem.validateEach_clean (listed_registered hcareful) (fun dag hdag => by
      obtain ⟨p, hp, rfl⟩ := mem_map.mp hdag
      obtain ⟨hget, hstart, -⟩ := hcareful p hp
      exact replay_proper (hσ.fresh (mem_listed.mp hp).2 hget hstart)) heach
  obtain ⟨htouch, htables, hbegun⟩ :=
    DagSystem.spawnDags_touches spawn (σ.listed handles) mid
  have hmidCoherent : mid.Coherent := hσ.coherent.of_same hmidArcs fun hget => by
    rwa [hmidIds] at hget
  refine ⟨htouch.coherent hmidCoherent, fun {id} hnone => ?_, fun {h dag} hdag hget hstart => ?_,
    fun {h} hstart => ?_, fun {h} hle => ?_⟩
  · rw [htouch.idToDag, hmidIds] at hnone
    rw [htables fun p hp _ heq => ?_, hmid]
    · exact hσ.vacant hnone
    · rw [heq] at hnone
      cases (hcareful p hp).1.symm.trans hnone
  · -- the start of this DAG was not begun
    obtain ⟨hstart, hnot⟩ := or_eq_false_iff.mp hstart
    have hnot := of_decide_eq_false hnot
    rw [htouch.other hnot, hmidArcs] at hdag
    rw [htouch.idToDag, hmidIds] at hget
    rw [htables fun p hp hmem heq => ?_, hmid]
    · exact hσ.fresh hdag hget hstart
    have hp₁ : p.1 = h := some.inj
      ((hcareful p hp).1.symm.trans ((congrArg σ.sys.idToDag.get heq.symm).trans hget))
    rw [hp₁] at hmem
    exact hnot hmem
  · have hcur : σ.Current h := by
      rcases or_eq_true_iff.mp hstart with hstart | hmem
      · exact hσ.started hstart
      · obtain ⟨dag, hdag⟩ := hbegun h (of_decide_eq_true hmem)
        exact ⟨dag, (mem_listed.mp hdag).2, (hcareful _ hdag).1⟩
    obtain ⟨dag, hdag, hget⟩ := hcur
    rw [← hmidArcs] at hdag
    obtain ⟨dag', hdag', hid⟩ := htouch.id hdag
    exact ⟨dag', hdag', by rw [htouch.idToDag, hmidIds, hid]; exact hget⟩
  · rw [htouch.length, hmidArcs] at hle
    exact hσ.unused hle

end Finish

/-- **One call.** -/
theorem Inv.step {c : Call} (hσ : σ.Inv) (hcareful : σ.Careful algo c)
    (hstep : σ.step algo c = some σ') : σ'.Inv := by
  cases c with
  | create => exact hσ.create hstep
  | register h r => exact hσ.register hcareful hstep
  | setNode h node taskId numFinished deadlineJob => exact hσ.setNode hstep
  | setDeadlines h deadlines => exact hσ.setDeadlines hstep
  | finish handles spawn =>
    obtain ⟨⟨sys, outcome, begun⟩, hfin, rfl⟩ := map_eq_some_iff.mp hstep
    obtain ⟨mid, errors, heach, ⟨rfl, rfl, rfl, -⟩ | ⟨rfl, rfl, -⟩⟩ := finish_cases hfin
    · exact Inv.finish_ok hcareful hσ heach
    have hinv := Inv.finish_err hcareful hσ heach
    have hsame : (fun h => σ.started h || decide (h ∈ ([] : List Nat))) = σ.started := by
      funext h
      simp
    dsimp only
    rw [hsame]
    exact hinv

/-! ### The result of the validation -/

/-- A registered DAG that was not started, with its handle. -/
structure Ready (σ : Session) (p : Nat × Dag) : Prop where
  dag : σ.sys.arcs[p.1]? = some p.2
  current : σ.sys.idToDag.get p.2.id = some p.1
  unstarted : σ.started p.1 = false

/-- The errors that `validate_all_rules` finds. -/
def verdict (algo : GraphAlgo) (σ : Session) (dags : List (Nat × Dag)) : Option (List DagError) :=
  (DagSystem.validateAllRules algo σ.sys (dags.map snd)).map snd

/-- The edges of the registered DAGs, with the id of the DAG. -/
def edges (σ : Session) : List (Nat × List (Edge EdgeInfo)) :=
  σ.sys.registered.map fun dag => (dag.id, dag.graph.edges)

theorem validateDagTopicConflicts_congr
    (h : (sys.registered.map fun dag => (dag.id, dag.graph.edges)) =
      sys'.registered.map fun dag => (dag.id, dag.graph.edges)) :
    sys.validateDagTopicConflicts = sys'.validateDagTopicConflicts := by
  have heq : ∀ dags : List Dag, DagSystem.topicToDags dags =
      (dags.map fun dag => (dag.id, dag.graph.edges)).foldl (fun acc dag =>
        dag.2.foldl (fun acc edge => acc.insert edge.weight.topicName
          ((acc.get edge.weight.topicName).getD [] ++ [dag.1])) acc) .empty := by
    intro dags
    rw [foldl_map]
    rfl
  unfold DagSystem.validateDagTopicConflicts
  rw [heq, heq, h]

theorem Ready.getDag_isSome (h : ∀ p ∈ dags, σ.Ready p) :
    ∀ dag ∈ dags.map snd, (σ.sys.getDag dag.id).isSome := by
  intro dag hdag
  obtain ⟨p, hp, rfl⟩ := mem_map.mp hdag
  exact Session.getDag_isSome (h p hp).dag (h p hp).current

/-- **The same DAGs get the same result**, whatever was rejected before. -/
theorem verdict_congr {dags' : List (Nat × Dag)} (hσ : σ.Inv) (hσ' : σ'.Inv)
    (hready : ∀ p ∈ dags, σ.Ready p) (hready' : ∀ p ∈ dags', σ'.Ready p)
    (hsame : List.Forall₂ (fun p p' => p.2.id = p'.2.id ∧ σ.regs p.1 = σ'.regs p'.1) dags dags')
    (hedges : σ.edges = σ'.edges) : verdict algo σ dags = verdict algo σ' dags' := by
  -- both DAGs are what their registrations make of empty tables
  have hall : List.Forall₂ (fun dag dag' => dag.id = dag'.id ∧ dag.graph = dag'.graph ∧
      σ.sys.tables dag.id = σ'.sys.tables dag'.id) (dags.map snd) (dags'.map snd) := by
    rw [forall₂_map_left_iff, forall₂_map_right_iff]
    have hleft : List.Forall₂ (fun p p' => σ.Ready p ∧ (p.2.id = p'.2.id ∧
        σ.regs p.1 = σ'.regs p'.1)) dags dags' := (forall₂_and_left _ _).mpr ⟨hready, hsame⟩
    have hboth : List.Forall₂ (fun p' p => σ'.Ready p' ∧ (σ.Ready p ∧ (p.2.id = p'.2.id ∧
        σ.regs p.1 = σ'.regs p'.1))) dags' dags :=
      (forall₂_and_left _ _).mpr ⟨hready', hleft.flip⟩
    refine hboth.flip.imp ?_
    rintro p p' ⟨hp', hp, hid, hregs⟩
    have heq := hσ.fresh hp.dag hp.current hp.unstarted
    rw [hid, hregs, hσ'.fresh hp'.dag hp'.current hp'.unstarted] at heq
    obtain ⟨hgraph, htables⟩ := Prod.mk.inj (some.inj heq)
    exact ⟨hid, hgraph.symm, by rw [hid]; exact htables.symm⟩
  have hreg := Ready.getDag_isSome hready
  have hreg' := Ready.getDag_isSome hready'
  have hsome : (DagSystem.validateEach algo σ.sys (dags.map snd)).isSome :=
    DagSystem.validateEach_isSome hreg
  have hsome' : (DagSystem.validateEach algo σ'.sys (dags'.map snd)).isSome :=
    DagSystem.validateEach_isSome hreg'
  obtain ⟨⟨mid, errors⟩, heach⟩ := isSome_iff_exists.mp hsome
  obtain ⟨⟨mid', errors'⟩, heach'⟩ := isSome_iff_exists.mp hsome'
  obtain rfl := DagSystem.validateEach_congr hreg hreg' hall heach heach'
  obtain ⟨harcs, hids⟩ := DagSystem.validateEach_frame heach
  obtain ⟨harcs', hids'⟩ := DagSystem.validateEach_frame heach'
  have hconflicts : mid.validateDagTopicConflicts = mid'.validateDagTopicConflicts := by
    refine validateDagTopicConflicts_congr ?_
    unfold DagSystem.registered
    rw [harcs, hids, harcs', hids']
    exact hedges
  unfold verdict DagSystem.validateAllRules
  rw [heach, heach']
  simp only [map_some, hconflicts]
  split <;> rfl

/-- **A rejected DAG leaves no trace**, in runs of careful calls: after an error no static
variable holds anything for the ids of the listed DAGs; DAGs with the same ids and
registrations get the same result as in any other such run, in particular one in which
nothing was rejected, if the same topics are in use; and started DAGs stay registered. -/
theorem rejection_leaves_no_trace {candidateId : Nat}
    (hσ : Reaches (step algo) (Careful algo) (init candidateId) σ) :
    (∀ {handles spawn sys' errors begun}, σ.Careful algo (.finish handles spawn) →
      σ.sys.finishCreateDags algo spawn (σ.listed handles) = some (sys', .err errors, begun) →
        ∀ p ∈ σ.listed handles, sys'.Traceless p.2.id) ∧
    (∀ {candidateId' σ' dags dags'}, Reaches (step algo) (Careful algo) (init candidateId') σ' →
      (∀ p ∈ dags, σ.Ready p) → (∀ p ∈ dags', σ'.Ready p) →
      List.Forall₂ (fun p p' => p.2.id = p'.2.id ∧ σ.regs p.1 = σ'.regs p'.1) dags dags' →
      σ.edges = σ'.edges → verdict algo σ dags = verdict algo σ' dags') ∧
    ∀ {h}, σ.started h = true → σ.Current h := by
  have hinv : ∀ {candidateId σ}, Reaches (step algo) (Careful algo) (init candidateId) σ →
      σ.Inv := fun h => h.invariant (.init _) fun _ _ _ hσ hcareful hstep => hσ.step hcareful hstep
  refine ⟨fun hcareful hfin => rejected_traceless hcareful hfin, ?_, (hinv hσ).started⟩
  intro candidateId' σ' dags dags' hσ' hready hready' hsame hedges
  exact verdict_congr (hinv hσ) (hinv hσ') hready hready' hsame hedges

instance (σ : Session) (h : Nat) : Decidable (σ.Current h) :=
  match hdag : σ.sys.arcs[h]? with
  | none => .isFalse fun ⟨_, hd, _⟩ => absurd (hdag.symm.trans hd) nofun
  | some dag => decidable_of_iff (σ.sys.idToDag.get dag.id = some h)
      ⟨fun hget => ⟨dag, hdag, hget⟩, fun ⟨_, hd, hget⟩ => by
        rwa [some.inj (hdag.symm.trans hd)]⟩

instance (algo : GraphAlgo) (σ : Session) : DecidablePred (σ.Careful algo) := fun c => by
  induction c using Call.casesOn <;> dsimp only [Careful] <;> infer_instance

/-- A periodic reactor and a sink, on the DAG with the handle `h`. -/
def validCalls (h : Nat) (topic : String) : List Call :=
  [.create, .register h (.periodic [7] [topic] (.gedf 0) 10),
    .register h (.sink [7] [topic] (.gedf 0) 10)]

/-- A DAG is started, and a second one is rejected: its reactor takes two arguments and subscribes
to one topic. Nothing is left of the second, and the first stays registered. The two graphs pass
the checks of `petgraph`. -/
theorem rejection_leaves_no_trace_second : ∃ σ sys' begun,
    Reaches (step .passing) (Careful .passing) (init 1) σ ∧ (σ.listed [1]).map (·.2.id) = [2] ∧
      σ.sys.finishCreateDags .passing (fun _ => none) (σ.listed [1]) =
        some (sys', .err [.subscribeArityMismatch 2 2], begun) ∧
      (∀ p ∈ σ.listed [1], sys'.Traceless p.2.id) ∧ σ.started 0 = true ∧ σ.Current 0 := by
  obtain ⟨σ, hreach, hid, hcareful, hfin, hstarted⟩ :
      ∃ σ, Reaches (step .passing) (Careful .passing) (init 1) σ ∧
        (σ.listed [1]).map (·.2.id) = [2] ∧ σ.Careful .passing (.finish [1] fun _ => none) ∧
        (σ.sys.finishCreateDags .passing (fun _ => none) (σ.listed [1])).map (·.2.1) =
          some (.err [.subscribeArityMismatch 2 2]) ∧ σ.started 0 = true :=
    Reaches.exists_of_run (validCalls 0 "a" ++ .finish [0] (fun task => some task.nodeIdx) ::
      validCalls 1 "b" ++ [.register 1 (.reactor [7, 7] [] ["b"] [] (.gedf 0))]) (by decide)
  obtain ⟨⟨sys', outcome, begun⟩, hfin, rfl⟩ := map_eq_some_iff.mp hfin
  obtain ⟨htraceless, -, hcurrent⟩ := rejection_leaves_no_trace hreach
  exact ⟨σ, sys', begun, hreach, hid, hfin, htraceless hcareful hfin, hstarted, hcurrent hstarted⟩

/-! ### A DAG that is rejected for the topics of another -/

/-- A DAG with a repeated topic and the wrong number of arguments. -/
def rejectedCalls : List Call :=
  [.create, .register 0 (.reactor [] [] ["b", "b"] [] (.gedf 0)), .finish [0] fun _ => none]

theorem verdict_exact (h : ∀ p ∈ dags, GraphAlgo.Ordered p.2.graph) :
    verdict .exact σ dags = verdict .passing σ dags := by
  unfold verdict DagSystem.validateAllRules
  rw [DagSystem.validateEach_exact fun dag hdag => ?_]
  obtain ⟨p, hp, rfl⟩ := mem_map.mp hdag
  exact h p hp

/-- The record of the repeated topic stays, and the next DAG with the id is rejected for it;
in a system of its own it is accepted. -/
theorem duplicate_record_left :
    (∃ σ, run (step .exact) (init 1) rejectedCalls = some σ ∧ σ.sys.getDag 1 = none ∧
      σ.sys.duplicateSubscribeNodes 1 = some [0]) ∧
    (∃ σ, run (step .exact) (init 1) (rejectedCalls ++ validCalls 1 "a") = some σ ∧
      (σ.listed [1]).map (·.2.id) = [1] ∧
      verdict .exact σ (σ.listed [1]) = some [.duplicateSubscribe 1 0]) ∧
    ∃ σ, run (step .exact) (init 1) (validCalls 0 "a") = some σ ∧
      (σ.listed [0]).map (·.2.id) = [1] ∧ verdict .exact σ (σ.listed [0]) = some [] := by
  refine ⟨?_, ?_, ?_⟩
  · obtain ⟨σ, hrun, hσ⟩ := exists_of_run_any (step .exact) (init 1) rejectedCalls
      (fun σ => (σ.sys.idToDag.get 1).isNone &&
        decide (σ.sys.duplicateSubscribeNodes 1 = some [0])) (by decide)
    obtain ⟨hget, hdup⟩ := (and_eq_true _ _).mp hσ
    refine ⟨σ, hrun, ?_, of_decide_eq_true hdup⟩
    unfold DagSystem.getDag
    rw [isNone_iff_eq_none.mp hget]
    rfl
  · obtain ⟨σ, hrun, hσ⟩ := exists_of_run_any (step .exact) (init 1)
      (rejectedCalls ++ validCalls 1 "a") (fun σ => decide ((σ.listed [1]).map (·.2.id) = [1]) &&
        (decide (∀ p ∈ σ.listed [1], GraphAlgo.Ordered p.2.graph) &&
          decide (verdict .passing σ (σ.listed [1]) = some [.duplicateSubscribe 1 0])))
      (by decide)
    obtain ⟨hid, hσ⟩ := (and_eq_true _ _).mp hσ
    obtain ⟨hordered, hverdict⟩ := (and_eq_true _ _).mp hσ
    exact ⟨σ, hrun, of_decide_eq_true hid,
      (verdict_exact (of_decide_eq_true hordered)).trans (of_decide_eq_true hverdict)⟩
  · obtain ⟨σ, hrun, hσ⟩ := exists_of_run_any (step .exact) (init 1) (validCalls 0 "a")
      (fun σ => decide ((σ.listed [0]).map (·.2.id) = [1]) &&
        (decide (∀ p ∈ σ.listed [0], GraphAlgo.Ordered p.2.graph) &&
          decide (verdict .passing σ (σ.listed [0]) = some [])))
      (by decide)
    obtain ⟨hid, hσ⟩ := (and_eq_true _ _).mp hσ
    obtain ⟨hordered, hverdict⟩ := (and_eq_true _ _).mp hσ
    exact ⟨σ, hrun, of_decide_eq_true hid,
      (verdict_exact (of_decide_eq_true hordered)).trans (of_decide_eq_true hverdict)⟩

end Session

end Awkernel
