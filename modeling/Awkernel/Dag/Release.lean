import Awkernel.Dag.Dispatch

/-!
# Jobs run under their released deadline

Every job of a DAG is released once, by the source, and whenever a node starts its function
for job `k` the last `wake_task` of the node returned the deadline that was released for job `k`
(`jobs_under_released_deadline`).

`deadline_job` of a node is the job that its last `wake_task` was for, if that job had been
released. The source waits for a tick before each job. A `Sleep` is not ready in its first poll,
so there is a `wake_task` after the last `finish_job`, and it releases the job. Any other node has
received all messages of its job, so the source has begun the job (`begun_le`) and the job was
released; by `Reactors.Inv.eviction` it is still stored. If `deadline_job` is that of another job,
the node yields, and the `wake_task` of the yield finds the deadline.
-/

namespace Awkernel

open TransitionSystem Reactors Dag Reactors.Phase List Option Function
open DagSystem (Registration)

/-! ### The deadline store -/

variable {w : Nat}

namespace Dag

variable {dag dag' : Dag}

/-- `deadline_job` of a node. -/
def deadlineJob (dag : Dag) (v : Nat) : Option Nat :=
  (dag.graph.nodeWeight v).bind NodeInfo.deadlineJob

variable {v d : Nat} {releaseDeadline : Option Nat}

theorem numFinished_eq {info : NodeInfo} (h : dag.graph.nodeWeight v = some info) :
    dag.numFinished v = info.numFinished := by
  unfold numFinished
  rw [h]
  rfl

/-- **A query**, by the job that the node processes next. -/
theorem query_spec {release : Bool}
    (h : dag.getOrReleaseAbsoluteDeadline v release releaseDeadline = some (dag', some d)) :
    (∀ w, dag'.deadlineJob w = if w = v then
      (if (release && dag.isSource v ||
        (dag.absoluteDeadlines.get (dag.numFinished v)).isSome) = true
        then some (dag.numFinished v) else none) else dag.deadlineJob w) ∧
    (dag.absoluteDeadlines.get (dag.numFinished v) = some d ∧
        dag'.absoluteDeadlines = dag.absoluteDeadlines ∨
      dag.absoluteDeadlines.get (dag.numFinished v) = none ∧
        dag'.absoluteDeadlines = if (release && dag.isSource v) = true
          then dag.absoluteDeadlines.insert (dag.numFinished v) d
          else dag.absoluteDeadlines) := by
  obtain ⟨info, hinfo, hgraph, hstore⟩ := query_cases h
  rw [numFinished_eq hinfo]
  constructor
  · intro w
    unfold deadlineJob
    rw [hgraph, Graph.nodeWeight_modifyNode]
    by_cases hvw : v = w
    · subst hvw
      rw [if_pos rfl, if_pos rfl, hinfo]
      rfl
    · rw [if_neg hvw, if_neg (Ne.symm hvw)]
  · obtain ⟨-, hvalue, hsame⟩ | ⟨hnone, rfl, hsame⟩ := hstore
    · exact .inl ⟨hvalue.symm, hsame⟩
    · exact .inr ⟨hnone, hsame⟩

theorem call_of_query {release : Bool} {w : Option Nat}
    (h : dag.getOrReleaseAbsoluteDeadline v release releaseDeadline = some (dag', w)) :
    dag.call (.query v release releaseDeadline) = some dag' :=
  congrArg (Option.map Prod.fst) h

section

variable (h : dag.finishJob v = some dag')

include h

theorem deadlineJob_finish (w : Nat) : dag'.deadlineJob w = dag.deadlineJob w := by
  obtain ⟨retained, hretained, rfl⟩ := finishJob_spec h
  obtain ⟨oldest, -, hgraph, -⟩ := retainUnfinished_spec hretained
  show (retained.graph.nodeWeight w).bind NodeInfo.deadlineJob = _
  unfold deadlineJob
  rw [hgraph, Graph.nodeWeight_modifyNode]
  split
  · cases dag.graph.nodeWeight w <;> rfl
  · rfl

/-- A job that some node has not finished stays, unless the cap evicts it. -/
theorem get_finish {k : Nat}
    (hget : dag.absoluteDeadlines.get k = some d) (hevicts : ¬ dag.Evicts k (.finish v))
    (hw : w < dag'.graph.nodes.length) (hle : dag'.numFinished w ≤ k) :
    dag'.absoluteDeadlines.get k = some d := by
  refine get_call hget ⟨hevicts, fun dag'' hcall hall => ?_⟩ h
  cases h.symm.trans hcall
  have hinfo : dag'.graph.nodeWeight w = some dag'.graph.nodes[w] := getElem?_eq_getElem hw
  have hlt := hall _ (getElem_mem hw)
  rw [← numFinished_eq hinfo] at hlt
  exact absurd hlt (not_lt.mpr hle)

theorem get_of_get_finish {k : Nat}
    (hget : dag'.absoluteDeadlines.get k = some d) : dag.absoluteDeadlines.get k = some d := by
  obtain ⟨retained, hretained, rfl⟩ := finishJob_spec h
  obtain ⟨oldest, -, -, hdeadlines⟩ := retainUnfinished_spec hretained
  have hkept := get_capEntries hget
  rw [hdeadlines, SortedMap.get_retain] at hkept
  split at hkept
  · exact hkept
  · cases hkept

end

end Dag

namespace Reactors

/-! ### The phases of a job -/

namespace Phase

/-- How many jobs the node has begun and not finished. -/
def begun : Phase → Nat
  | .checking | .yielding _ | .executing | .sending .. | .sent .. | .finishing => 1
  | .subscribing _ | .ticking _ | .receiving _ | .ended => 0

/-- The node must have been woken for the job that it processes next. -/
def Due (status : Status) : Phase → Prop
  | .executing => True
  | .yielding true | .ticking .wait | .ticking .finished => status.current = true
  | _ => False

theorem Due.mono {s s' : Status} {p : Phase} (h : p.Due s)
    (hs : s.current = true → s'.current = true) : p.Due s' := by
  unfold Due at h ⊢
  split at h
  · exact trivial
  · exact hs h
  · exact hs h
  · exact hs h
  · exact h.elim

/-- The phases of a periodic reactor. -/
def Timed : Phase → Prop
  | .receiving _ | .checking | .yielding _ => False
  | _ => True

theorem begun_le_received (t : String) (p : Phase) : p.begun ≤ p.received t := by
  cases p with
  | subscribing | ticking | receiving | ended => exact Nat.zero_le _
  | checking | yielding | executing | sending | sent | finishing => exact le_rfl

theorem delivered_le_begun (v : Nat) (t : String) (p : Phase) : p.delivered v t ≤ p.begun := by
  cases p with
  | sending | sent =>
    show (if _ then 0 else 1) ≤ 1
    split <;> decide
  | finishing => exact le_rfl
  | subscribing | ticking | receiving | ended | checking | yielding | executing =>
    exact Nat.zero_le _

theorem begun_sendAll (l : List String) : (sendAll l).begun = 1 := by
  cases l <;> rfl

theorem timed_sendAll (l : List String) : (sendAll l).Timed := by
  cases l <;> exact trivial

theorem not_due_sendAll (l : List String) (status : Status) : ¬ (sendAll l).Due status := by
  cases l <;> exact id

end Phase

theorem begun_loopHead (regs : List Registration) (v : Nat) : (loopHead regs v).begun = 0 := by
  unfold loopHead
  split <;> rfl

theorem not_due_loopHead (regs : List Registration) (v : Nat) (status : Status) :
    ¬ (loopHead regs v).Due status := by
  unfold loopHead
  split <;> exact id

/-- What a step of a task does to its phase, as far as the deadlines go. -/
structure Moves (σ : Reactors) (v : Nat) (p p' : Phase) (pending : Bool) : Prop where
  due : p'.Due (if pending then .returned else .running) → p.Due .running ∨
    p = .checking ∧ σ.dag.hasStaleDeadline v = some false
  begun : p'.begun ≤ p.begun ∨ p = .ticking .finished ∨ p = .receiving []
  timed : p.Timed → loopHead σ.regs v = .ticking .ready → p'.Timed

variable {σ σ' : Reactors} {v : Nat} {a : Action}

/-- The phase and the store after a step of a task. -/
def Advanced (σ σ' : Reactors) (v : Nat) (pending : Bool) : Prop :=
  (∃ p', σ'.phase = update σ.phase v p' ∧ Moves σ v (σ.phase v) p' pending) ∧
    (σ'.dag = σ.dag ∨ σ.phase v = .finishing ∧ σ.dag.finishJob v = some σ'.dag)

/-- **One step of a task**, as far as the deadlines go. -/
theorem advance_moves {waker : Waker} {pending : Bool}
    (h : σ.advance v waker = some (σ', pending)) : Advanced σ σ' v pending := by
  -- a step that leaves the store
  have key : ∀ {p p' : Phase} {b : Bool} {τ : Reactors}, σ.phase v = p →
      some (τ, b) = some (σ', pending) → τ.phase = update σ.phase v p' → τ.dag = σ.dag →
      Moves σ v p p' b → Advanced σ σ' v pending := by
    intro p p' b τ hp heq hphase hdag hmoves
    cases heq
    exact ⟨⟨p', hphase, hp ▸ hmoves⟩, .inl hdag⟩
  -- a poll that finds nothing to do
  have same : ∀ {p : Phase}, σ.phase v = p → σ.phase = update σ.phase v p := by
    rintro p rfl
    exact (update_eq_self ..).symm
  unfold advance at h
  split at h
  · cases h
  · cases h
  · next hp => exact key hp h rfl rfl ⟨nofun, .inl le_rfl, fun _ _ => trivial⟩
  · next hp => exact key hp h (same hp) rfl ⟨nofun, .inl le_rfl, fun _ _ => trivial⟩
  · next hp => exact key hp h rfl rfl ⟨fun _ => .inl rfl, .inr (.inl rfl), fun _ _ => trivial⟩
  · next hp => exact key hp h rfl rfl ⟨nofun, .inr (.inr rfl), fun hp _ => hp.elim⟩
  · next topic rest hp =>
    obtain ⟨⟨inner, woken, result⟩, -, heq⟩ := map_eq_some_iff.mp h
    cases result with
    | some d => exact key hp (congrArg some heq) rfl rfl ⟨nofun, .inl le_rfl, fun hp _ => hp.elim⟩
    | none =>
      exact key hp (congrArg some heq) (same hp) rfl ⟨nofun, .inl le_rfl, fun hp _ => hp.elim⟩
  · next hp =>
    obtain ⟨stale, hstale, heq⟩ := map_eq_some_iff.mp h
    cases stale with
    | true => exact key hp (congrArg some heq) rfl rfl ⟨nofun, .inl le_rfl, fun hp _ => hp.elim⟩
    | false =>
      exact key hp (congrArg some heq) rfl rfl
        ⟨fun _ => .inr ⟨rfl, hstale⟩, .inl le_rfl, fun hp _ => hp.elim⟩
  · next hp => exact key hp h rfl rfl ⟨nofun, .inl le_rfl, fun hp _ => hp.elim⟩
  · next hp => exact key hp h rfl rfl ⟨fun _ => .inl rfl, .inl le_rfl, fun hp _ => hp.elim⟩
  · next hp =>
    exact key hp h rfl rfl ⟨fun hdue => (not_due_sendAll _ _ hdue).elim,
      .inl (begun_sendAll _).le, fun _ _ => timed_sendAll _⟩
  · next hp => exact key hp h rfl rfl ⟨nofun, .inl le_rfl, fun _ _ => trivial⟩
  · next hp => exact key hp h rfl rfl ⟨nofun, .inl le_rfl, fun _ _ => trivial⟩
  · next topic w ws rest hp =>
    obtain ⟨⟨inner, woken, visit⟩, -, heq⟩ := map_eq_some_iff.mp h
    cases visit with
    | closed | pushed =>
      exact key hp (congrArg some heq) rfl rfl ⟨nofun, .inl le_rfl, fun _ _ => trivial⟩
    | parked =>
      exact key hp (congrArg some heq) (same hp) rfl ⟨nofun, .inl le_rfl, fun _ _ => trivial⟩
  · next hp => exact key hp h rfl rfl ⟨nofun, .inl le_rfl, fun _ _ => trivial⟩
  · next hp =>
    exact key hp h rfl rfl ⟨fun hdue => (not_due_sendAll _ _ hdue).elim,
      .inl (begun_sendAll _).le, fun _ _ => timed_sendAll _⟩
  · next hp =>
    obtain ⟨dag, hdag, heq⟩ := map_eq_some_iff.mp h
    cases heq
    refine ⟨⟨loopHead σ.regs v, rfl, hp ▸ ⟨fun hdue => (not_due_loopHead _ _ _ hdue).elim,
      .inl ?_, fun _ hhead => hhead ▸ trivial⟩⟩, .inr ⟨hp, hdag⟩⟩
    exact (begun_loopHead _ _).le.trans (Nat.zero_le _)

/-! ### Tasks that do not end -/

theorem Phase.alive_iff {p : Phase} : p.alive = true ↔ p.spawned = true ∧ p ≠ .ended := by
  cases p with
  | subscribing => exact iff_of_false nofun fun h => absurd h.1 nofun
  | ended => exact iff_of_false nofun fun h => h.2 rfl
  | ticking | receiving | checking | yielding | executing | sending | sent | finishing =>
    exact iff_of_true rfl ⟨rfl, nofun⟩

theorem StepCase.phase_induct (h : StepCase σ a σ') {P : Phase → Prop}
    (hturn : ∀ {v p}, Turn σ v (σ.phase v) p → P p)
    (hreceiving : ∀ rest, P (.receiving rest))
    (hsending : ∀ topic ws rest, P (.sending topic (some ws) rest))
    (hhead : ∀ v, P (loopHead σ.regs v))
    (hsub : ∀ {v topic rest}, a = .subscribe v → σ.phase v = .subscribing (topic :: rest) →
      P (.subscribing rest))
    (hended : ∀ v, a = .terminate v → P .ended) (hv : P (σ.phase v)) :
    P (σ'.phase v) := by
  have hgoto : ∀ {w : Nat} {p : Phase} {τ : Reactors}, τ.phase = σ.phase → P p →
      P ((τ.goto w p).phase v) := by
    intro w p τ hτ hp
    rw [goto_phase]
    split
    · exact hp
    · exact hτ ▸ hv
  cases h with
  | subscribe hp => exact hgoto rfl (hsub rfl hp)
  | spawn | finish => exact hgoto rfl (hhead _)
  | turn _ ht => exact hgoto rfl (hturn ht)
  | received => exact hgoto rfl (hreceiving _)
  | skipped | pushed => exact hgoto rfl (hsending _ _ _)
  | terminate => exact hgoto rfl (hended _ rfl)
  | query | idle | waits | unsubscribe | close => exact hv

theorem StepCase.not_ended (h : StepCase σ a σ') (ha : ∀ v, a ≠ .terminate v)
    (hv : σ.phase v ≠ .ended) : σ'.phase v ≠ .ended := by
  refine h.phase_induct (P := (· ≠ .ended)) (fun {w p} hturn => ?_) nofun nofun (fun w => ?_)
    nofun (fun w heq => absurd heq (ha w)) hv
  · exact (alive_iff.mp hturn.alive.2).2
  · exact (alive_iff.mp (alive_loopHead _ _)).2

theorem StepCase.spawned (h : StepCase σ a σ') (hv : (σ.phase v).spawned = true) :
    (σ'.phase v).spawned = true := by
  -- a task that still subscribes is not spawned
  by_cases hsub : ∃ w, a = .subscribe w
  · obtain ⟨w, rfl⟩ := hsub
    cases h with
    | subscribe hp =>
      have hne : v ≠ w := by
        rintro rfl
        rw [hp] at hv
        cases hv
      rw [goto_phase, if_neg hne]
      exact hv
    | turn ha _ => rcases ha with ha | ⟨_, ha⟩ <;> cases ha
  · refine h.phase_induct (P := (·.spawned = true)) (fun {w p} hturn => ?_) (fun _ => rfl)
      (fun _ _ _ => rfl) (fun w => ?_) (fun heq _ => absurd ⟨_, heq⟩ hsub) (fun _ _ => rfl) hv
    · exact (alive_iff.mp hturn.alive.2).1
    · exact (alive_iff.mp (alive_loopHead _ _)).1

section

variable {dag₀ : Dag} {regs : List Registration} {σ : Reactors}

/-- **No node is ahead of the source**: it begins a job after the source has. -/
theorem Flowing.begun_le (h : Flowing regs σ) (W : Wiring dag₀ regs)
    (halive : ∀ v < regs.length, (σ.phase v).alive = true) (hw : w < regs.length) :
    σ.dag.numFinished w + (σ.phase w).begun ≤
      σ.dag.numFinished W.source + (σ.phase W.source).begun := by
  induction hrank : W.rank w using Nat.strong_induction_on generalizing w with
  | _ r ih =>
    by_cases hsource : w = W.source
    · rw [hsource]
    obtain ⟨u, t, hedge⟩ := W.pred hw hsource
    obtain ⟨hu, hv⟩ := W.edge.mp hedge
    have hulen : u < regs.length := W.length ▸ (Graph.lt_of_hasEdge hedge).1
    calc σ.dag.numFinished w + (σ.phase w).begun
        ≤ σ.numReceived w t := Nat.add_le_add_left (begun_le_received t _) _
      _ ≤ σ.numReceived w t + (σ.inner w t).items.length := Nat.le_add_right _ _
      _ = σ.numDelivered u w t := (h.edges hu hv (halive u hulen) (halive w hw)).symm
      _ ≤ σ.dag.numFinished u + (σ.phase u).begun :=
          Nat.add_le_add_left (delivered_le_begun w t _) _
      _ ≤ _ := ih (W.rank u) (hrank ▸ W.rank_lt_rank hedge) hulen rfl

theorem Flowing.alive (h : Flowing regs σ) (hlive : σ.phase v ≠ .ended) :
    (σ.phase v).alive = true := by
  refine alive_iff.mpr ⟨?_, hlive⟩
  cases hp : σ.phase v with
  | subscribing rest => exact absurd hp (h.spawned v rest)
  | ticking | receiving | checking | yielding | executing | sending | sent | finishing
  | ended => rfl

/-- The same before the source is spawned, when no node has begun anything. -/
theorem Inv.begun_le {W : Wiring dag₀ regs} (h : Inv W σ)
    (hlive : ∀ v < regs.length, σ.phase v ≠ .ended) (hw : w < regs.length) :
    σ.dag.numFinished w + (σ.phase w).begun ≤
      σ.dag.numFinished W.source + (σ.phase W.source).begun := by
  rcases h.flow with hquiet | hflowing
  · have hzero : (σ.phase w).begun = 0 := by
      rcases hquiet.waiting w with ⟨rest, hp⟩ | hp | hp <;> rw [hp] <;> rfl
    rw [hquiet.unfinished w, hzero]
    exact Nat.zero_le _
  · exact hflowing.begun_le W (fun v hv => hflowing.alive (hlive v hv)) hw

end

end Reactors

namespace DagRun

/-! ### The order of the spawns -/

section

variable {dag₀ : Dag} {regs : List Registration}

/-- The tasks that are not spawned are to be spawned, the source last, and no task has ended. -/
structure Order (W : Wiring dag₀ regs) (ρ : DagRun) : Prop where
  order : ρ.toSpawn = [] ∨ ∃ l, ρ.toSpawn = l ++ [W.source] ∧ W.source ∉ l
  unspawned : ∀ {v}, v < regs.length → (ρ.reactors.phase v).spawned = false → v ∈ ρ.toSpawn
  live : ∀ v < regs.length, ρ.reactors.phase v ≠ .ended
  woken : ∀ {v}, ρ.status v ≠ .waiting → (ρ.reactors.phase v).alive = true

variable {v : Nat} {release : Bool} {reactors : Reactors}

theorem eq_source_of_periodic (W : Wiring dag₀ regs)
    (h : regs[v]?.any Registration.isPeriodic = true) : v = W.source := by
  by_contra hne
  have hlt : v < regs.length := by
    obtain ⟨r, hr, -⟩ := (any_eq_true _ _).mp h
    exact (List.getElem?_eq_some_iff.mp hr).1
  exact subscribeTopics_ne_nil W hlt hne (subscribeTopics_of_periodic h)

theorem Order.start (W : Wiring dag₀ regs) {ρ : DagRun} (h : start dag₀ regs = some ρ) :
    Order W ρ ∧ regs[W.source]?.any Registration.isPeriodic = true := by
  obtain ⟨task, htask, rfl⟩ := map_eq_some_iff.mp h
  obtain ⟨i, r, hr, hperiodic, rfl⟩ := sourceOf_eq_some htask
  have hany : ∀ {v : Nat} {r : Registration}, regs[v]? = some r → r.isPeriodic = true →
      regs[v]?.any Registration.isPeriodic = true := by
    intro v r hr hp
    rw [hr]
    exact hp
  obtain rfl : i = W.source := eq_source_of_periodic W (hany hr hperiodic)
  refine ⟨⟨.inr ⟨_, rfl, fun hmem => ?_⟩, fun {v} hv _ => ?_, fun v hv => ?_,
    fun {v} hne => absurd rfl hne⟩, hany hr hperiodic⟩
  · -- the tasks that are spawned first are not periodic
    obtain ⟨task, htask, heq⟩ := mem_map.mp hmem
    obtain ⟨j, r', hr', hnot, rfl⟩ := mem_tasksOf.mp htask
    obtain rfl : j = W.source := heq
    cases hr.symm.trans hr'
    cases hperiodic.symm.trans hnot
  · have hr' : regs[v]? = some regs[v] := getElem?_eq_getElem hv
    cases hp : regs[v].isPeriodic with
    | true =>
      rw [eq_source_of_periodic W (hany hr' hp)]
      exact mem_append_right _ (.head _)
    | false =>
      exact mem_append_left _ (mem_map.mpr ⟨_, mem_tasksOf.mpr ⟨v, _, hr', hp, rfl⟩, rfl⟩)
  · show (if v < regs.length then _ else _) ≠ _
    rw [if_pos hv]
    nofun

variable {W : Wiring dag₀ regs} {ρ ρ' : DagRun} {s : Status} {p : Reactors.Phase}

section

variable (h : Order W ρ)

include h

theorem Order.spawnsSourceLast (hinv : Reactors.Inv W ρ.reactors) {rest : List Nat}
    (hspawn : ρ.toSpawn = v :: rest) (hlt : v < regs.length) :
    Reactors.SpawnsSourceLast ρ.reactors (.spawn v) := by
  intro hsource w hw hne
  rw [isSource_congr hinv.base.edges] at hsource
  obtain rfl := (W.isSource hlt).mp hsource
  have honly : ρ.toSpawn = [W.source] := by
    rcases h.order with hnil | ⟨l, hl, hnot⟩
    · rw [hspawn] at hnil
      cases hnil
    cases l with
    | nil => exact hl
    | cons x l =>
      rw [hspawn] at hl
      exact absurd (cons.inj hl).1 fun heq => hnot (heq ▸ .head _)
  by_contra hnot
  have hmem := h.unspawned (hinv.base.regs_eq ▸ hw) (Bool.eq_false_of_not_eq_true hnot)
  rw [honly] at hmem
  exact hne (mem_singleton.mp hmem)

theorem wakeTask_spec (hinv : Reactors.Inv W ρ.reactors)
    (hedf : ∀ r ∈ regs, r.schedType.isEdf = true) (hs : ρ.status v ≠ .waiting) {wakeTime : Nat}
    (hwake : ρ.wakeTask v wakeTime release = some ρ') :
    v < regs.length ∧ ∃ dag d, ρ.reactors.dag.getOrReleaseAbsoluteDeadline v release
        (releaseDeadline ρ.reactors.dag wakeTime) = some (dag, some d) ∧
      ρ' = { ρ with
        reactors := { ρ.reactors with dag := dag }
        last := update ρ.last v (some d)
        releases := if (ρ.reactors.dag.absoluteDeadlines.get
              (ρ.reactors.dag.numFinished v)).isNone &&
            (dag.absoluteDeadlines.get (ρ.reactors.dag.numFinished v)).isSome
          then ρ.releases ++ [⟨v, ρ.reactors.dag.numFinished v, d⟩]
          else ρ.releases } := by
  have hlt : v < regs.length := hinv.base.lt (alive_iff.mp (h.woken hs)).2
  have hedf' : (ρ.reactors.regs[v]?.any fun r => r.schedType.isEdf) = true := by
    rw [hinv.base.regs_eq, getElem?_eq_getElem hlt]
    exact hedf _ (getElem_mem hlt)
  unfold wakeTask at hwake
  rw [if_pos hedf'] at hwake
  obtain ⟨⟨dag, value⟩, hquery, hwake⟩ := bind_eq_some_iff.mp hwake
  obtain ⟨d, rfl, rfl⟩ := map_eq_some_iff.mp hwake
  exact ⟨hlt, dag, d, hquery, rfl⟩

/-- **The tasks of a DAG take the steps of its reactors**, and spawn the source last. -/
theorem reactors_step (hinv : Reactors.Inv W ρ.reactors)
    (hedf : ∀ r ∈ regs, r.schedType.isEdf = true) (hcase : StepCase ρ ρ') :
    ρ'.reactors = ρ.reactors ∨ ∃ b, (∀ v, b ≠ .terminate v) ∧
      Reactors.SpawnsSourceLast ρ.reactors b ∧ ρ.reactors.step b = some ρ'.reactors := by
  cases hcase with
  | subscribe _ hstep => exact .inr ⟨.subscribe _, nofun, trivial, hstep⟩
  | @spawn v rest reactors hspawn hstep =>
    have hlt : v < regs.length := hinv.base.lt fun hended => ?_
    · exact .inr ⟨.spawn v, nofun, h.spawnsSourceLast hinv hspawn hlt, hstep⟩
    dsimp only [Reactors.step] at hstep
    rw [hended] at hstep
    cases hstep
  | fire hstep => exact .inr ⟨.fire _, nofun, trivial, hstep⟩
  | status => exact .inl rfl
  | @wakeTask v wakeTime release s ρ₁ hs _ hwake =>
    obtain ⟨-, dag, d, hquery, rfl⟩ := wakeTask_spec h hinv hedf hs hwake
    refine .inr ⟨.wakeTask v release (releaseDeadline ρ.reactors.dag wakeTime), nofun, trivial, ?_⟩
    dsimp only [Reactors.step, setStatus]
    rw [if_pos (h.woken hs), call_of_query hquery]
    rfl
  | @poll v waker _ _ _ hadvance =>
    refine .inr ⟨.advance v waker, nofun, trivial, ?_⟩
    dsimp only [Reactors.step]
    rw [hadvance]
    rfl

theorem Order.woken_setStatus (hv : (ρ.reactors.phase v).alive = true)
    (hs : (ρ.setStatus v s).status w ≠ .waiting) :
    (ρ.reactors.phase w).alive = true := by
  by_cases heq : w = v
  · exact heq ▸ hv
  · exact h.woken fun hw => hs ((update_of_ne heq ..).trans hw)

/-- A task is woken only after its spawn. -/
theorem Order.step (hinv : Reactors.Inv W ρ.reactors)
    (hedf : ∀ r ∈ regs, r.schedType.isEdf = true) (hcase : StepCase ρ ρ') : Order W ρ' := by
  obtain ⟨hspawned, hlive⟩ : (∀ {v}, (ρ.reactors.phase v).spawned = true →
      (ρ'.reactors.phase v).spawned = true) ∧
      ∀ {v}, ρ.reactors.phase v ≠ .ended → ρ'.reactors.phase v ≠ .ended := by
    rcases reactors_step h hinv hedf hcase with hsame | ⟨b, hb, -, hstep⟩
    · rw [hsame]
      exact ⟨id, id⟩
    · have hreactors := Reactors.step_cases hinv.base.queues hstep
      exact ⟨hreactors.spawned, hreactors.not_ended hb⟩
  have halive : ∀ {v}, (ρ.reactors.phase v).alive = true → (ρ'.reactors.phase v).alive = true := by
    intro v hv
    obtain ⟨hs, he⟩ := alive_iff.mp hv
    exact alive_iff.mpr ⟨hspawned hs, hlive he⟩
  have hunspawned : ∀ {v}, v < regs.length → (ρ'.reactors.phase v).spawned = false →
      v ∈ ρ.toSpawn := by
    intro v hv hs
    refine h.unspawned hv (Bool.eq_false_of_not_eq_true fun hs' => ?_)
    cases hs.symm.trans (hspawned hs')
  have hlive' : ∀ v < regs.length, ρ'.reactors.phase v ≠ .ended := fun v hv => hlive (h.live v hv)
  cases hcase with
  | subscribe | fire => exact ⟨h.order, hunspawned, hlive', fun hs => halive (h.woken hs)⟩
  | spawn hspawn hstep =>
    refine ⟨?_, fun {w} hw hs => ?_, hlive', fun hs => halive (h.woken hs)⟩
    · rcases h.order with hnil | ⟨l, hl, hnot⟩
      · rw [hspawn] at hnil
        cases hnil
      rw [hspawn] at hl
      cases l with
      | nil => exact .inl (cons.inj hl).2
      | cons x l => exact .inr ⟨l, (cons.inj hl).2, fun hmem => hnot (.tail _ hmem)⟩
    · -- the task that was spawned is not missing any more
      have hmem := hunspawned hw hs
      rw [hspawn] at hmem
      refine (mem_cons.mp hmem).resolve_left ?_
      rintro rfl
      cases Reactors.step_cases hinv.base.queues hstep with
      | spawn hp =>
        rw [goto_phase, if_pos rfl] at hs
        cases hs.symm.trans (alive_iff.mp (alive_loopHead _ _)).1
      | turn ha _ => rcases ha with ha | ⟨_, ha⟩ <;> cases ha
  | status hv _ =>
    refine ⟨h.order, hunspawned, hlive', h.woken_setStatus ?_⟩
    exact hv.elim (fun hne => h.woken hne) id
  | wakeTask hs _ hwake =>
    obtain ⟨-, dag, d, -, rfl⟩ := wakeTask_spec h hinv hedf hs hwake
    exact ⟨h.order, hunspawned, hlive', h.woken_setStatus (h.woken hs)⟩
  | poll hs _ =>
    refine ⟨h.order, hunspawned, hlive', fun hs' => halive (h.woken_setStatus ?_ hs')⟩
    exact h.woken (by rw [hs]; nofun)

end

/-! ### The releases -/

/-- The jobs up to the one that the source processes next were released, one after the other;
those that some node has not finished are stored; and a node that is about to process a job was
woken for it. -/
structure Store (W : Wiring dag₀ regs) (ρ : DagRun) : Prop where
  jobs : ρ.releases.map Release.job = range ρ.releases.length
  bySource : ∀ e ∈ ρ.releases, e.node = W.source
  begun : ρ.reactors.dag.numFinished W.source + (ρ.reactors.phase W.source).begun ≤
    ρ.releases.length
  next : ρ.releases.length ≤ ρ.reactors.dag.numFinished W.source + 1
  stored : ∀ e ∈ ρ.releases, ∀ w < regs.length, ρ.reactors.dag.numFinished w ≤ e.job →
    ρ.reactors.dag.absoluteDeadlines.get e.job = some e.deadline
  entries : ∀ {k d}, ρ.reactors.dag.absoluteDeadlines.get k = some d →
    ∃ e ∈ ρ.releases, e.job = k ∧ e.deadline = d
  deadlineJob_le : ∀ {v j}, ρ.reactors.dag.deadlineJob v = some j → j ≤ ρ.reactors.dag.numFinished v
  last : ∀ {v}, ρ.reactors.dag.deadlineJob v = some (ρ.reactors.dag.numFinished v) →
    ∃ e ∈ ρ.releases, e.job = ρ.reactors.dag.numFinished v ∧ ρ.last v = some e.deadline
  due : ∀ {v}, (ρ.reactors.phase v).Due (ρ.status v) →
    ρ.reactors.dag.deadlineJob v = some (ρ.reactors.dag.numFinished v)
  timed : (ρ.reactors.phase W.source).Timed

section

variable (h : Store W ρ)

include h

theorem Store.exists_of_lt {j : Nat} (hj : j < ρ.releases.length) :
    ∃ e ∈ ρ.releases, e.job = j := by
  have hmem : j ∈ ρ.releases.map Release.job := by
    rw [h.jobs]
    exact mem_range.mpr hj
  exact mem_map.mp hmem

theorem Store.job_lt {e : Release} (he : e ∈ ρ.releases) : e.job < ρ.releases.length := by
  have hmem : e.job ∈ ρ.releases.map Release.job := mem_map_of_mem he
  rw [h.jobs] at hmem
  exact mem_range.mp hmem

/-- **A job that a node has begun is stored.** -/
theorem Store.stored_of_begun (hinv : Reactors.Inv W ρ.reactors)
    (hlive : ∀ v < regs.length, ρ.reactors.phase v ≠ .ended) (hv : v < regs.length)
    (hbegun : (ρ.reactors.phase v).begun = 1) :
    ∃ e ∈ ρ.releases, e.job = ρ.reactors.dag.numFinished v ∧
      ρ.reactors.dag.absoluteDeadlines.get (ρ.reactors.dag.numFinished v) =
        some e.deadline := by
  have hle := (hinv.begun_le hlive hv).trans h.begun
  rw [hbegun] at hle
  obtain ⟨e, he, hjob⟩ := h.exists_of_lt hle
  exact ⟨e, he, hjob, hjob ▸ h.stored e he v hv hjob.ge⟩

theorem Store.move (toSpawn : List Nat) {status : Nat → Status}
    (hdag : reactors.dag = ρ.reactors.dag)
    (hbegun : (reactors.phase W.source).begun ≤ (ρ.reactors.phase W.source).begun ∨
      ρ.reactors.dag.numFinished W.source < ρ.releases.length)
    (htimed : (reactors.phase W.source).Timed)
    (hdue : ∀ {v}, (reactors.phase v).Due (status v) →
      ρ.reactors.dag.deadlineJob v = some (ρ.reactors.dag.numFinished v)) :
    Store W { ρ with reactors := reactors, toSpawn := toSpawn, status := status } := by
  have hbegun' : ρ.reactors.dag.numFinished W.source + (reactors.phase W.source).begun ≤
      ρ.releases.length := by
    rcases hbegun with hle | hlt
    · exact (Nat.add_le_add_left hle _).trans h.begun
    · exact (Nat.add_le_add_left ((begun_le_received "" _).trans (received_le "" _)) _).trans hlt
  obtain ⟨regs', dag, phase, subscribers, inner⟩ := reactors
  obtain rfl : dag = ρ.reactors.dag := hdag
  exact ⟨h.jobs, h.bySource, hbegun', h.next, h.stored, h.entries, h.deadlineJob_le, h.last, hdue,
    htimed⟩

section

variable (hinv : Reactors.Inv W ρ.reactors)

include hinv

section

variable (hlive : ∀ v < regs.length, ρ.reactors.phase v ≠ .ended)

include hlive

/-- A node that must have been woken for its job finds the job, or releases it. -/
theorem Store.found (hv : v < regs.length) (hrelease : release = true ∨ (ρ.status v).current = true)
    (hdue : (ρ.reactors.phase v).Due s) :
    (release && ρ.reactors.dag.isSource v ||
      (ρ.reactors.dag.absoluteDeadlines.get (ρ.reactors.dag.numFinished v)).isSome) = true := by
  by_cases hold : (ρ.reactors.phase v).Due (ρ.status v)
  · -- the node was woken for the job before, and the job is stored
    obtain ⟨e, he, heq, -⟩ := h.last (h.due hold)
    rw [← heq, h.stored e he v hv heq.ge, isSome_some, Bool.or_true]
  obtain rfl := hrelease.resolve_right fun hs => hold (hdue.mono fun _ => hs)
  cases hp : ρ.reactors.phase v with
  | yielding yielded =>
    obtain ⟨e, -, -, hget⟩ := h.stored_of_begun hinv hlive hv (by rw [hp]; rfl)
    rw [hget, isSome_some, Bool.or_true]
  | ticking sleep =>
    -- a periodic reactor is the source, and is woken to release the job
    have hfits := hinv.topics.fits v
    rw [hp] at hfits
    have hsource : v = W.source := by
      by_contra hne
      exact subscribeTopics_ne_nil W hv hne hfits
    rw [isSource_congr hinv.base.edges, (W.isSource hv).mpr hsource]
    rfl
  | executing =>
    rw [hp] at hold
    exact absurd trivial hold
  | subscribing | receiving | checking | sending | sent | finishing | ended =>
    rw [hp] at hdue
    exact hdue.elim

/-- **A wake.** -/
theorem Store.wakeTask (hv : v < regs.length)
    (hrelease : release = true ∨ (ρ.status v).current = true)
    {releaseDeadline : Option Nat} {dag : Dag} {d : Nat}
    (hquery : ρ.reactors.dag.getOrReleaseAbsoluteDeadline v release releaseDeadline =
      some (dag, some d)) (s : Status) :
    Store W ({ ρ with
      reactors := { ρ.reactors with dag := dag }
      last := update ρ.last v (some d)
      releases := if (ρ.reactors.dag.absoluteDeadlines.get (ρ.reactors.dag.numFinished v)).isNone &&
          (dag.absoluteDeadlines.get (ρ.reactors.dag.numFinished v)).isSome
        then ρ.releases ++ [Release.mk v (ρ.reactors.dag.numFinished v) d]
        else ρ.releases }.setStatus v s) := by
  have hfinished : ∀ w, dag.numFinished w = ρ.reactors.dag.numFinished w :=
    numFinished_query (call_of_query hquery)
  obtain ⟨hjob, hstore⟩ := query_spec hquery
  have hle : ∀ {w j}, dag.deadlineJob w = some j → j ≤ dag.numFinished w := by
    intro w j hw
    rw [hfinished]
    rw [hjob] at hw
    split at hw
    · next heq =>
      subst heq
      split at hw
      · exact (some.inj hw).ge
      · cases hw
    · exact h.deadlineJob_le hw
  have hdue : ∀ {w}, (ρ.reactors.phase w).Due (update ρ.status v s w) →
      dag.deadlineJob w = some (dag.numFinished w) := by
    intro w hw
    rw [hjob, hfinished]
    split
    · next heq =>
      subst heq
      rw [if_pos (h.found hinv hlive hv hrelease hw)]
    · next hne =>
      rw [update_of_ne hne] at hw
      exact h.due hw
  -- the last wake of `v` is this one, and the others keep theirs
  have hlast : ∀ {R : List Release}, ρ.releases ⊆ R →
      (dag.deadlineJob v = some (dag.numFinished v) →
        ∃ e ∈ R, e.job = ρ.reactors.dag.numFinished v ∧ e.deadline = d) →
      ∀ {w}, dag.deadlineJob w = some (dag.numFinished w) →
        ∃ e ∈ R, e.job = dag.numFinished w ∧ update ρ.last v (some d) w = some e.deadline := by
    intro R hsub hv w hw
    by_cases heq : w = v
    · subst heq
      obtain ⟨e, he, hejob, hedeadline⟩ := hv hw
      exact ⟨e, he, hejob.trans (hfinished w).symm, by rw [update_self, hedeadline]⟩
    rw [hjob, if_neg heq, hfinished] at hw
    rw [update_of_ne heq, hfinished]
    obtain ⟨e, he, hlast⟩ := h.last hw
    exact ⟨e, hsub he, hlast⟩
  have hbegun : dag.numFinished W.source + (ρ.reactors.phase W.source).begun ≤
      ρ.releases.length := (hfinished W.source).symm ▸ h.begun
  have hnext : ρ.releases.length ≤ dag.numFinished W.source + 1 :=
    (hfinished W.source).symm ▸ h.next
  -- nothing is released
  have hkeep : dag.absoluteDeadlines = ρ.reactors.dag.absoluteDeadlines →
      (dag.deadlineJob v = some (dag.numFinished v) →
        ∃ e ∈ ρ.releases, e.job = ρ.reactors.dag.numFinished v ∧ e.deadline = d) →
      Store W ({ ρ with
        reactors := { ρ.reactors with dag := dag }, last := update ρ.last v (some d) }.setStatus
          v s) := by
    intro hsame hnew
    refine ⟨h.jobs, h.bySource, hbegun, hnext, fun e he w hw hle => ?_,
      fun {k d} hk => h.entries (hsame ▸ hk), hle, hlast (Subset.refl _) hnew, hdue, h.timed⟩
    show dag.absoluteDeadlines.get e.job = _
    rw [hsame]
    exact h.stored e he w hw ((hfinished w) ▸ hle)
  rcases hstore with ⟨hget, hsame⟩ | ⟨hget, hsame⟩
  · rw [hget, isNone_some, Bool.false_and, if_neg Bool.false_ne_true]
    exact hkeep hsame fun _ => h.entries hget
  by_cases hrel : (release && ρ.reactors.dag.isSource v) = true
  · -- the source releases its job
    rw [if_pos hrel] at hsame
    have hsource : v = W.source := by
      refine (W.isSource hv).mp ?_
      rw [← isSource_congr hinv.base.edges]
      exact (Bool.and_eq_true_iff.mp hrel).2
    subst hsource
    have hlen : ρ.releases.length = ρ.reactors.dag.numFinished W.source := by
      refine le_antisymm (not_lt.mp fun hlt => ?_) ((Nat.le_add_right _ _).trans h.begun)
      obtain ⟨e, he, hejob⟩ := h.exists_of_lt hlt
      have hstored := h.stored e he W.source W.source_lt hejob.ge
      rw [hejob, hget] at hstored
      cases hstored
    have hnew : dag.absoluteDeadlines.get (ρ.reactors.dag.numFinished W.source) = some d := by
      rw [hsame, SortedMap.get_insert_self]
    rw [hget, hnew, isNone_none, isSome_some, Bool.true_and, if_pos rfl]
    refine ⟨?_, fun e he => ?_, ?_, ?_, fun e he w hw hle => ?_, fun {k d'} hk => ?_, hle,
      hlast (subset_append_left ..) fun _ => ⟨_, mem_append_right _ (.head _), rfl, rfl⟩,
      hdue, h.timed⟩
    · show (ρ.releases ++ [_]).map Release.job = range (ρ.releases ++ [_]).length
      rw [map_append, length_append, length_singleton, range_succ, h.jobs, hlen]
      rfl
    · rcases mem_append.mp he with he | he
      · exact h.bySource e he
      · rw [mem_singleton.mp he]
    · show _ ≤ (ρ.releases ++ [_]).length
      rw [length_append]
      exact hbegun.trans (Nat.le_add_right _ _)
    · show (ρ.releases ++ [_]).length ≤ dag.numFinished W.source + 1
      rw [length_append, length_singleton, hlen, hfinished]
    · show dag.absoluteDeadlines.get e.job = _
      rcases mem_append.mp he with he | he
      · have hne : e.job ≠ ρ.reactors.dag.numFinished W.source := by
          have hlt := h.job_lt he
          rw [hlen] at hlt
          exact hlt.ne
        rw [hsame, SortedMap.get_insert_of_ne hne]
        exact h.stored e he w hw ((hfinished w) ▸ hle)
      · rw [mem_singleton.mp he]
        exact hnew
    · by_cases heq : k = ρ.reactors.dag.numFinished W.source
      · subst heq
        cases hnew.symm.trans hk
        exact ⟨_, mem_append_right _ (.head _), rfl, rfl⟩
      have hk' : dag.absoluteDeadlines.get k = some d' := hk
      rw [hsame, SortedMap.get_insert_of_ne heq] at hk'
      obtain ⟨e, he, hejob, hedeadline⟩ := h.entries hk'
      exact ⟨e, mem_append_left _ he, hejob, hedeadline⟩
  · rw [if_neg hrel] at hsame
    rw [hsame, hget, isSome_none, Bool.and_false, if_neg Bool.false_ne_true]
    refine hkeep hsame fun hw => ?_
    -- the wake was for no released job
    have hnone : dag.deadlineJob v = none := by
      rw [hjob, if_pos rfl, hget, isSome_none, Bool.or_false, if_neg hrel]
    cases hnone.symm.trans hw

/-- **A job is finished.** -/
theorem Store.finish (hhead : loopHead regs W.source = .ticking .ready) {waker : Waker}
    (hp : ρ.reactors.phase v = .finishing)
    (hstep : ρ.reactors.step (.advance v waker) = some reactors) (s : Status) :
    Store W ({ ρ with reactors := reactors }.setStatus v s) := by
  have hflow := hinv.flowing hp
  have hevicts : ∀ {k}, ρ.reactors.dag.Evicts k (.finish v) → ∀ w < regs.length,
      k < reactors.dag.numFinished w := by
    intro k hk w hw
    refine hinv.eviction hp hstep hk hw fun u hu => ?_
    have hu' : u < regs.length := by
      rcases Relation.ReflTransGen.cases_head hu with rfl | ⟨x, ⟨t, hedge⟩, -⟩
      · exact hw
      · exact W.length ▸ (Graph.lt_of_hasEdge hedge).1
    exact hflow.alive (hlive u hu')
  obtain ⟨dag, hfinish, rfl⟩ := finish_eq hp hstep
  have hfinished := numFinished_finish hfinish
  have hmono : ∀ w, ρ.reactors.dag.numFinished w ≤ dag.numFinished w := by
    intro w
    rw [hfinished]
    split
    · exact Nat.le_succ _
    · exact le_rfl
  have hphase : ∀ w, ({ ρ.reactors with dag := dag }.goto v (loopHead ρ.reactors.regs v)).phase w =
        if w = v then loopHead regs v else ρ.reactors.phase w := by
    intro w
    rw [goto_phase, hinv.base.regs_eq]
  have hjob := deadlineJob_finish hfinish
  refine ⟨h.jobs, h.bySource, ?_, h.next.trans (Nat.succ_le_succ (hmono _)),
    fun e he w hw hle => ?_, fun {k d} hk => h.entries (get_of_get_finish hfinish hk),
    fun {w j} hw => ?_, fun {w} hw => ?_, fun {w} hw => ?_, ?_⟩
  · -- the job of the source was begun, and is finished
    show dag.numFinished W.source + (({ ρ.reactors with dag := dag }.goto v
      (loopHead ρ.reactors.regs v)).phase W.source).begun ≤ ρ.releases.length
    have hbegun := h.begun
    rw [hphase, hfinished]
    split
    · next heq =>
      rw [begun_loopHead]
      rw [heq, hp] at hbegun
      rw [heq]
      exact hbegun
    · exact hbegun
  · show dag.absoluteDeadlines.get e.job = _
    have hlen : w < dag.graph.nodes.length := by
      rw [(call_frame (c := .finish v) hfinish).2, hinv.base.length, W.length]
      exact hw
    refine get_finish hfinish (h.stored e he w hw ((hmono w).trans hle)) (fun hk => ?_) hlen hle
    exact absurd (hevicts hk w hw) (not_lt.mpr hle)
  · exact (h.deadlineJob_le ((hjob w).symm.trans hw)).trans (hmono w)
  · -- no wake was for the job after this one
    have hw' : dag.deadlineJob w = some (dag.numFinished w) := hw
    rw [hjob] at hw'
    have hne : w ≠ v := by
      rintro rfl
      have hle := h.deadlineJob_le hw'
      rw [hfinished, if_pos rfl] at hle
      exact absurd hle (Nat.not_succ_le_self _)
    rw [hfinished, if_neg hne] at hw'
    show ∃ e ∈ ρ.releases, e.job = dag.numFinished w ∧ ρ.last w = some e.deadline
    rw [hfinished, if_neg hne]
    exact h.last hw'
  · have hdue : (({ ρ.reactors with dag := dag }.goto v
        (loopHead ρ.reactors.regs v)).phase w).Due (update ρ.status v s w) := hw
    rw [hphase] at hdue
    split at hdue
    · exact absurd hdue (not_due_loopHead _ _ _)
    rename_i hne
    rw [update_of_ne hne] at hdue
    show dag.deadlineJob w = some (dag.numFinished w)
    rw [hjob, hfinished, if_neg hne]
    exact h.due hdue
  · show (({ ρ.reactors with dag := dag }.goto v (loopHead ρ.reactors.regs v)).phase W.source).Timed
    rw [hphase]
    split
    · next heq =>
      rw [← heq, hhead]
      exact trivial
    · exact h.timed

end

end

theorem Store.moveAt (toSpawn : List Nat) (hdag : reactors.dag = ρ.reactors.dag)
    (hphase : reactors.phase = update ρ.reactors.phase v p)
    (hbegun : v = W.source → p.begun ≤ (ρ.reactors.phase v).begun ∨
      ρ.reactors.dag.numFinished v < ρ.releases.length)
    (htimed : v = W.source → p.Timed)
    (hdue : p.Due s → ρ.reactors.dag.deadlineJob v = some (ρ.reactors.dag.numFinished v)) :
    Store W ({ ρ with reactors := reactors, toSpawn := toSpawn }.setStatus v s) := by
  refine h.move toSpawn hdag ?_ ?_ fun {w} hw => ?_
  · rw [hphase, update_apply]
    split
    · next heq => exact heq ▸ hbegun heq.symm
    · exact .inl le_rfl
  · rw [hphase, update_apply]
    split
    · next heq => exact htimed heq.symm
    · exact h.timed
  · have hw' : (reactors.phase w).Due (update ρ.status v s w) := hw
    rw [hphase] at hw'
    by_cases heq : w = v
    · subst heq
      rw [update_self, update_self] at hw'
      exact hdue hw'
    · rw [update_of_ne heq, update_of_ne heq] at hw'
      exact h.due hw'

/-- A step of `spawn_dag`, or the timer: the task that moves is not to process a job. -/
theorem Store.moveIdle (toSpawn : List Nat) (hdag : reactors.dag = ρ.reactors.dag)
    (hphase : reactors.phase = update ρ.reactors.phase v p) (hbegun : p.begun = 0)
    (htimed : v = W.source → p.Timed)
    (hdue : p.Due (ρ.status v) → (ρ.reactors.phase v).Due (ρ.status v)) :
    Store W { ρ with reactors := reactors, toSpawn := toSpawn } := by
  have hmove := h.moveAt toSpawn hdag hphase (fun _ => .inl (hbegun ▸ Nat.zero_le _)) htimed
    fun hp => h.due (hdue hp)
  rwa [setStatus, update_eq_self] at hmove

end

/-- What holds in every run. -/
structure Inv (W : Wiring dag₀ regs) (ρ : DagRun) : Prop where
  reactors : Reactors.Inv W ρ.reactors
  order : Order W ρ
  store : Store W ρ

theorem Inv.start (hfresh : dag₀.Fresh) (hunfinished : ∀ v, dag₀.numFinished v = 0)
    (h : start dag₀ regs = some ρ) : Inv W ρ := by
  obtain ⟨horder, hperiodic⟩ := Order.start W h
  obtain ⟨task, htask, rfl⟩ := map_eq_some_iff.mp h
  have hjob : ∀ v, dag₀.deadlineJob v = none := by
    intro v
    unfold deadlineJob
    cases hinfo : dag₀.graph.nodeWeight v with
    | none => rfl
    | some info => exact hfresh.noQuery v info hinfo
  have hphase : (init dag₀ regs).phase W.source =
      .subscribing (subscribeTopics regs W.source) := if_pos W.source_lt
  refine ⟨.init W hfresh hunfinished, horder, ⟨rfl, nofun, ?_, Nat.zero_le _, nofun,
    fun {k d} hget => ?_, fun {v j} hv => ?_, fun {v} hv => ?_, fun {v} hv => ?_, ?_⟩⟩
  · show dag₀.numFinished W.source + ((init dag₀ regs).phase W.source).begun ≤ 0
    rw [hphase, hunfinished]
    exact le_rfl
  · have hmem := SortedMap.get_eq_some.mp hget
    rw [show (init dag₀ regs).dag.absoluteDeadlines.entries = [] from hfresh.noEntry] at hmem
    cases hmem
  · cases (hjob v).symm.trans hv
  · cases (hjob v).symm.trans hv
  · have hdue : (if v < regs.length then subscribing (subscribeTopics regs v)
        else .ended).Due .waiting := hv
    split at hdue <;> exact hdue.elim
  · show ((init dag₀ regs).phase W.source).Timed
    rw [hphase]
    exact trivial

/-- One case for each way in which the deadline store is used. -/
theorem Store.step (h : Inv W ρ) (hedf : ∀ r ∈ regs, r.schedType.isEdf = true)
    (hhead : loopHead regs W.source = .ticking .ready) (hcase : StepCase ρ ρ') :
    Store W ρ' := by
  have hqueues := h.reactors.base.queues
  cases hcase with
  | subscribe _ hstep =>
    cases Reactors.step_cases hqueues hstep with
    | subscribe hp =>
      exact h.store.moveIdle ρ.toSpawn rfl rfl rfl (fun _ => trivial) nofun
    | turn ha _ => rcases ha with ha | ⟨_, ha⟩ <;> cases ha
  | @spawn v rest _ _ hstep =>
    cases Reactors.step_cases hqueues hstep with
    | spawn hp =>
      rw [h.reactors.base.regs_eq]
      refine h.store.moveIdle rest rfl rfl (begun_loopHead _ _) (fun heq => ?_) fun hdue =>
        (not_due_loopHead _ _ _ hdue).elim
      rw [heq, hhead]
      exact trivial
    | turn ha _ => rcases ha with ha | ⟨_, ha⟩ <;> cases ha
  | fire hstep =>
    dsimp only [Reactors.step] at hstep
    split at hstep
    · next hp =>
      cases hstep
      refine h.store.moveIdle ρ.toSpawn rfl rfl rfl (fun _ => trivial) fun hdue => ?_
      rw [hp]
      exact hdue
    · cases hstep
  | @status v s _ hcurrent =>
    refine h.store.moveAt ρ.toSpawn (p := ρ.reactors.phase v) rfl
      (update_eq_self v ρ.reactors.phase).symm (fun _ => .inl le_rfl)
      (fun heq => heq ▸ h.store.timed) fun hdue => h.store.due (hdue.mono hcurrent)
  | @wakeTask v wakeTime release s ρ₁ hs hrelease hwake =>
    obtain ⟨hlt, dag, d, hquery, rfl⟩ := wakeTask_spec h.order h.reactors hedf hs hwake
    exact h.store.wakeTask h.reactors h.order.live hlt hrelease hquery s
  | @poll v waker reactors pending hs hadvance =>
    obtain ⟨⟨p', hphase, hmoves⟩, hdag | ⟨hp, -⟩⟩ := advance_moves hadvance
    · have hlt : v < regs.length := by
        have halive := h.order.woken (v := v) (by rw [hs]; nofun)
        exact h.reactors.base.lt (alive_iff.mp halive).2
      have htimed : v = W.source → (ρ.reactors.phase v).Timed := fun heq => heq ▸ h.store.timed
      refine h.store.moveAt ρ.toSpawn hdag hphase (fun heq => ?_) (fun heq => ?_) fun hdue => ?_
      · rcases hmoves.begun with hle | hp | hp
        · exact .inl hle
        · -- the source was woken for the tick
          right
          obtain ⟨e, he, hjob, -⟩ := h.store.last (h.store.due (v := v) (by rw [hp, hs]; rfl))
          rw [← hjob]
          exact h.store.job_lt he
        · have hnot := htimed heq
          rw [hp] at hnot
          exact hnot.elim
      · refine hmoves.timed (htimed heq) ?_
        rw [h.reactors.base.regs_eq, heq]
        exact hhead
      · rcases hmoves.due hdue with hold | ⟨hp, hstale⟩
        · exact h.store.due (hs.symm ▸ hold)
        -- the deadline is not stale, and the job is stored
        obtain ⟨e, -, -, hget⟩ := h.store.stored_of_begun h.reactors h.order.live hlt
          (by rw [hp]; rfl)
        obtain ⟨info, hinfo, heq⟩ := map_eq_some_iff.mp hstale
        rw [numFinished_eq hinfo] at hget ⊢
        rw [deadlineJob, hinfo]
        by_contra hne
        have hnot := of_decide_eq_false heq
        exact hnot ⟨hne, by rw [hget]; rfl⟩
    · have hstep : ρ.reactors.step (.advance v waker) = some reactors := by
        dsimp only [Reactors.step]
        rw [hadvance]
        rfl
      exact h.store.finish h.reactors h.order.live hhead hp hstep _

theorem Inv.step (h : Inv W ρ) (hedf : ∀ r ∈ regs, r.schedType.isEdf = true)
    (hhead : loopHead regs W.source = .ticking .ready) {a : Action}
    (hstep : ρ.step a = some ρ') : Inv W ρ' := by
  have hcase := step_cases hstep
  refine ⟨?_, h.order.step h.reactors hedf hcase, Store.step h hedf hhead hcase⟩
  rcases reactors_step h.order h.reactors hedf hcase with hsame | ⟨b, -, hok, hb⟩
  · exact hsame ▸ h.reactors
  · exact h.reactors.step hok hb

end

/-- **Jobs run under their released deadline.** In every run of a DAG that was accepted and
started, all of whose reactors are scheduled by EDF: the jobs are released by the source, one
after the other and each once; and a node that is about to call its function for a job was last
woken with the deadline released for this job. -/
theorem jobs_under_released_deadline {algo : GraphAlgo} (halgo : algo.Correct)
    {sys sys' : DagSystem} (hsys : Reaches DagSystem.step (fun _ _ => True) .init sys)
    {dags : List Dag} (hdags : ∀ dag ∈ dags, dag ∈ sys.arcs)
    (hok : DagSystem.validateAllRules algo sys dags = some (sys', [])) {dag : Dag}
    (hdag : dag ∈ dags) {regs : List Registration} (hnew : dag.Unstarted regs)
    (hedf : ∀ r ∈ regs, r.schedType.isEdf = true) {ρ₀ ρ : DagRun}
    (hstart : start dag regs = some ρ₀) (hreach : Reaches step (fun _ _ => True) ρ₀ ρ) :
    ρ.releases.map Release.job = range ρ.releases.length ∧
      (∀ e ∈ ρ.releases, dag.isSource e.node = true) ∧
      ∀ v, ρ.reactors.phase v = .executing → ∃ e ∈ ρ.releases,
        e.job = ρ.reactors.dag.numFinished v ∧ ρ.last v = some e.deadline := by
  have hvalid := (DagSystem.validateAllRules_sound halgo hsys hdags hok).1 dag hdag
  obtain ⟨tables, hbuilt⟩ := hnew.built
  have hreplayed := replay_replayed hbuilt
  obtain ⟨W⟩ := exists_wiring hvalid hreplayed
  have hhead : loopHead regs W.source = .ticking .ready :=
    if_pos (Order.start W hstart).2
  have hinv : Inv W ρ :=
    hreach.invariant (.start hnew.fresh hreplayed.numFinished hstart)
      fun _ _ _ hI _ hs => hI.step hedf hhead hs
  refine ⟨hinv.store.jobs, fun e he => ?_, fun v hv => ?_⟩
  · rw [hinv.store.bySource e he]
    exact (W.isSource W.source_lt).mpr rfl
  · exact hinv.store.last (hinv.store.due (by rw [hv]; exact trivial))

/-- The sink is woken before the source, and then by the yield, for the job that the source has
released. -/
def sinkYields : List Action :=
  [.subscribe, .spawn, .wake 1, .wakeTask 1 3, .spawn, .wake 0, .wakeTask 0 5, .dispatch 0,
    .poll 0 0, .park 0, .fire 0, .wake 0, .wakeTask 0 7, .dispatch 0, .poll 0 0, .poll 0 0,
    .poll 0 0, .poll 0 0, .dispatch 1, .poll 1 1, .poll 1 1, .poll 1 1, .poll 1 1, .park 1,
    .wake 1, .wakeTask 1 9, .dispatch 1, .poll 1 1]

theorem jobs_under_released_deadline_sinkYields : ∃ ρ₀ ρ,
    start pipeline periodicAndSink = some ρ₀ ∧ Reaches step (fun _ _ => True) ρ₀ ρ ∧
      ρ.reactors.phase 1 = .executing ∧
        ∃ e ∈ ρ.releases, e.job = 0 ∧ ρ.last 1 = some e.deadline := by
  obtain ⟨sys, sys', hsys, hdags, hok⟩ :=
    pipeline_accepted periodicAndSink ⟨_, _, rfl, rfl, rfl⟩
  obtain ⟨ρ₀, hstart⟩ : ∃ ρ₀, start pipeline periodicAndSink = some ρ₀ := ⟨_, rfl⟩
  have hany : ((start pipeline periodicAndSink).bind fun ρ₀ =>
      run (guarded step fun _ _ => True) ρ₀ sinkYields).any (fun ρ =>
        decide (ρ.reactors.phase 1 = .executing) &&
          decide (ρ.reactors.dag.numFinished 1 = 0)) = true := by decide
  rw [hstart, bind_some] at hany
  obtain ⟨ρ, hrun, hρ⟩ := (any_eq_true _ _).mp hany
  obtain ⟨hphase, hfinished⟩ := (Bool.and_eq_true _ _).mp hρ
  have hphase := of_decide_eq_true hphase
  have hreach := Reaches.of_run hrun
  refine ⟨ρ₀, ρ, hstart, hreach, hphase, ?_⟩
  have hjobs := jobs_under_released_deadline GraphAlgo.exact_correct hsys hdags hok
    (mem_singleton_self pipeline) ⟨⟨_, rfl⟩, pipeline_fresh⟩ (by decide) hstart hreach
  obtain ⟨e, he, hjob, hlast⟩ := hjobs.2.2 1 hphase
  exact ⟨e, he, hjob.trans (of_decide_eq_true hfinished), hlast⟩

end DagRun

end Awkernel
