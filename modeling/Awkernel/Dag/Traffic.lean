import Awkernel.Dag.Wiring

/-!
# The messages between the reactors of a DAG

Along an edge no message is lost and none is made up: the number of messages that the publisher
has delivered is the number that the subscriber has received, and those in its queue
(`Flowing.edges`). A reactor that has finished `f` jobs has delivered `f` messages on each of its
topics, or `f + 1`, and has received `f` or `f + 1` from each; so along an edge the two counts
of finished jobs are at most the size of the queue and one apart, and from the source to a node
at most that times the rank of the node (`Flowing.lag`).

This is true as long as both reactors are alive, and needs that the subscriber was there when
the first message was sent. Until the source is spawned nothing is sent (`Quiet`), and if it is
spawned last then the others have subscribed.
-/

namespace Awkernel

open TransitionSystem Dag List Function
open DagSystem (Registration)

/-! ### What the calls of the deadline store leave -/

namespace Dag

variable {dag dag' : Dag}

/-- `num_finished` of a node. -/
def numFinished (dag : Dag) (v : Nat) : Nat :=
  ((dag.graph.nodeWeight v).map NodeInfo.numFinished).getD 0

theorem call_frame {c : StoreCall} (h : dag.call c = some dag') :
    dag'.graph.edges = dag.graph.edges ∧ dag'.graph.nodes.length = dag.graph.nodes.length := by
  cases c with
  | query v release deadline =>
    obtain ⟨⟨mid, value⟩, hquery, rfl⟩ := Option.map_eq_some_iff.mp h
    obtain ⟨info, -, hgraph, -⟩ := query_cases hquery
    rw [hgraph]
    exact ⟨rfl, Graph.nodeCount_modifyNode ..⟩
  | finish v =>
    obtain ⟨retained, hretained, rfl⟩ := finishJob_spec h
    obtain ⟨oldest, -, hgraph, -⟩ := retainUnfinished_spec hretained
    show retained.graph.edges = _ ∧ retained.graph.nodes.length = _
    rw [hgraph]
    exact ⟨rfl, Graph.nodeCount_modifyNode ..⟩

theorem numFinished_query {v : Nat} {release : Bool} {deadline : Option Nat}
    (h : dag.call (.query v release deadline) = some dag') (w : Nat) :
    dag'.numFinished w = dag.numFinished w := by
  obtain ⟨⟨mid, value⟩, hquery, rfl⟩ := Option.map_eq_some_iff.mp h
  obtain ⟨info, -, hgraph, -⟩ := query_cases hquery
  unfold numFinished
  rw [hgraph, Graph.nodeWeight_modifyNode]
  split
  · cases dag.graph.nodeWeight w <;> rfl
  · rfl

theorem numFinished_finish {v : Nat} (h : dag.finishJob v = some dag') (w : Nat) :
    dag'.numFinished w = if w = v then dag.numFinished w + 1 else dag.numFinished w := by
  obtain ⟨retained, hretained, rfl⟩ := finishJob_spec h
  obtain ⟨info, hinfo, -⟩ := Option.bind_eq_some_iff.mp hretained
  obtain ⟨oldest, -, hgraph, -⟩ := retainUnfinished_spec hretained
  show ((retained.graph.nodeWeight w).map NodeInfo.numFinished).getD 0 = _
  unfold numFinished
  rw [hgraph, Graph.nodeWeight_modifyNode]
  by_cases hvw : v = w
  · subst hvw
    rw [if_pos rfl, if_pos rfl, hinfo]
    rfl
  · rw [if_neg hvw, if_neg (Ne.symm hvw)]

theorem isSource_congr (h : dag'.graph.edges = dag.graph.edges) (v : Nat) :
    dag'.isSource v = dag.isSource v := by
  unfold isSource Graph.neighborsDirected Graph.edgesDirected
  rw [h]

end Dag

variable {regs : List Registration}

/-- The nodes of a DAG that was only registered on have finished nothing. -/
theorem Replayed.numFinished {dag : Dag} {tables : DagSystem.Tables}
    (h : Replayed dag.id regs dag.graph tables) (v : Nat) : dag.numFinished v = 0 := by
  unfold Dag.numFinished
  cases hinfo : dag.graph.nodeWeight v with
  | none => rfl
  | some info =>
    obtain ⟨r, -, -, -, hfinished⟩ := h.nodeWeight hinfo
    exact hfinished

namespace Reactors

/-! ### Counting messages -/

variable {p : Phase} {t : String}

namespace Phase

/-- How many messages of topic `t` the current job has received. -/
def received (t : String) : Phase → Nat
  | .subscribing _ | .ticking _ | .ended => 0
  | .receiving rest => if t ∈ rest then 0 else 1
  | _ => 1

/-- How many messages of topic `t` the current job has delivered to `v`. -/
def delivered (v : Nat) (t : String) : Phase → Nat
  | .sending topic targets rest =>
    if t ∈ rest ∨ t = topic ∧ (targets.all fun ws => v ∈ ws) = true then 0 else 1
  | .sent rest _ => if t ∈ rest then 0 else 1
  | .finishing => 1
  | _ => 0

/-- The topics that a phase names are topics of node `v`. -/
def Fits (regs : List Registration) (v : Nat) : Phase → Prop
  | .subscribing rest | .receiving rest => rest <:+ subscribeTopics regs v
  | .ticking _ => subscribeTopics regs v = []
  | .sending topic targets rest =>
    topic :: rest <:+ publishTopics regs v ∧ ∀ ws, targets = some ws → ws.Nodup
  | .sent rest _ => rest <:+ publishTopics regs v
  | _ => True

/-- The node is registered as a subscriber of `t`, if it subscribes to it. -/
def Listed (t : String) : Phase → Prop
  | .subscribing rest => t ∉ rest
  | .ended => False
  | _ => True

theorem received_le (t : String) (p : Phase) : p.received t ≤ 1 := by
  cases p with
  | receiving rest =>
    dsimp only [received]
    split <;> decide
  | subscribing | ticking | ended => exact Nat.zero_le 1
  | checking | yielding | executing | sending | sent | finishing => exact le_rfl

theorem Listed.of_alive (h : p.alive = true) (t : String) : p.Listed t := by
  cases p with
  | subscribing | ended => cases h
  | ticking | receiving | checking | yielding | executing | sending | sent | finishing =>
    exact trivial

theorem fits_sendAll {v : Nat} {l : List String}
    (h : l <:+ publishTopics regs v) : (sendAll l).Fits regs v := by
  cases l with
  | nil => exact trivial
  | cons topic rest => exact ⟨h, nofun⟩

theorem delivered_sendAll (v : Nat) (t : String) (l : List String) :
    (sendAll l).delivered v t = if t ∈ l then 0 else 1 := by
  cases l with
  | nil => rfl
  | cons topic rest =>
    show (if t ∈ rest ∨ t = topic ∧ true = true then 0 else 1) = _
    refine if_congr ?_ rfl rfl
    rw [and_iff_left rfl, mem_cons]
    exact or_comm

theorem received_sendAll (t : String) (l : List String) : (sendAll l).received t = 1 := by
  cases l <;> rfl

theorem alive_sendAll (l : List String) : (sendAll l).alive = true := by
  cases l <;> rfl

end Phase

section

variable {σ : Reactors} {v : Nat} {p p' : Phase}

section

variable (h : Turn σ v p p')

include h

theorem Turn.alive : p.alive = true ∧ p'.alive = true := by
  cases h with
  | execute | sendYielded => exact ⟨rfl, Phase.alive_sendAll _⟩
  | poll | fire | tick | receivedAll | stale | current | yield | yielded | snapshot | visitedAll
  | sendYield => exact ⟨rfl, rfl⟩

theorem Turn.fits (hnodup : ∀ t, (σ.subscribers t).Nodup)
    (hp : p.Fits σ.regs v) : p'.Fits σ.regs v := by
  cases h with
  | poll | fire | sendYield => exact hp
  | tick | receivedAll | stale | current | yield | yielded => exact trivial
  | execute => exact Phase.fits_sendAll suffix_rfl
  | snapshot => exact ⟨hp.1, fun ws hws => Option.some.inj hws ▸ hnodup _⟩
  | visitedAll => exact (suffix_cons _ _).trans hp.1
  | sendYielded => exact Phase.fits_sendAll hp

theorem Turn.received (hp : p.Fits σ.regs v)
    (ht : t ∈ subscribeTopics σ.regs v) : p'.received t = p.received t := by
  cases h with
  | tick =>
    -- a periodic reactor has no such topic
    rw [show subscribeTopics σ.regs v = [] from hp] at ht
    cases ht
  | execute | sendYielded => exact Phase.received_sendAll t _
  | poll | fire | receivedAll | stale | current | yield | yielded | snapshot | visitedAll
  | sendYield => rfl

/-- A step that changes the phase only delivers nothing to a registered subscriber. -/
theorem Turn.delivered (ht : t ∈ publishTopics σ.regs v)
    {w : Nat} (hw : w ∈ σ.subscribers t) : p'.delivered w t = p.delivered w t := by
  cases h with
  | execute => exact (Phase.delivered_sendAll w t _).trans (if_pos ht)
  | snapshot =>
    refine if_congr (or_congr Iff.rfl (and_congr_right fun htopic => ?_)) rfl rfl
    subst htopic
    exact iff_of_true (decide_eq_true hw) rfl
  | visitedAll =>
    refine if_congr ⟨.inl, fun hor => hor.resolve_right fun hand => ?_⟩ rfl rfl
    have hmem : decide (w ∈ ([] : List Nat)) = true := hand.2
    cases of_decide_eq_true hmem
  | sendYielded => exact Phase.delivered_sendAll w t _
  | poll | fire | tick | receivedAll | stale | current | yield | yielded | sendYield => rfl

end

end

/-! ### The shape of a state -/

/-- What does not depend on the messages: the registrations and the edges stay, and nothing
happens outside the nodes. -/
structure Base (dag₀ : Dag) (regs : List Registration) (σ : Reactors) : Prop where
  regs_eq : σ.regs = regs
  edges : σ.dag.graph.edges = dag₀.graph.edges
  length : σ.dag.graph.nodes.length = dag₀.graph.nodes.length
  queues : σ.Queues
  outside : ∀ {v}, regs.length ≤ v → σ.phase v = .ended

/-- The subscribers of the topics: a reactor that is alive is registered, once, and open. -/
structure Topics (regs : List Registration) (σ : Reactors) : Prop where
  fits : ∀ v, (σ.phase v).Fits regs v
  registered : ∀ {v t}, t ∈ subscribeTopics regs v → (σ.phase v).Listed t →
    v ∈ σ.subscribers t ∧ (σ.inner v t).closed = false
  unlisted : ∀ {v t rest}, σ.phase v = .subscribing rest → t ∈ rest → v ∉ σ.subscribers t
  nodup : ∀ t, (σ.subscribers t).Nodup

variable {inner : InnerSubscriber Unit} {rest : List String}

section

variable {dag₀ : Dag} {regs : List Registration} {σ σ' : Reactors} {a : Action}

variable {v : Nat} {topic : String}

theorem Queues.setInner (h : σ.Queues)
    (hsize : inner.size = (σ.inner v topic).size) : (σ.setInner v topic inner).Queues := by
  intro w t
  rw [setInner_inner]
  split
  · exact hsize.trans (h v topic)
  · exact h w t

theorem StepCase.ended (h : StepCase σ a σ') (hv : σ.phase v = .ended) : σ'.phase v = .ended := by
  -- a step of another task leaves the phase
  have other : ∀ {w : Nat} {p : Phase} {τ : Reactors}, τ.phase = σ.phase → σ.phase w ≠ .ended →
      (τ.goto w p).phase v = .ended := by
    intro w p τ hτ hw
    have hne : v ≠ w := by
      rintro rfl
      exact hw hv
    rw [goto_phase, if_neg hne, hτ]
    exact hv
  cases h with
  | subscribe hp | spawn hp | received hp | skipped hp | pushed hp | finish hp =>
    exact other rfl (by rw [hp]; nofun)
  | turn _ hturn =>
    refine other rfl fun hended => ?_
    rw [hended] at hturn
    cases hturn.alive.1
  | terminate halive =>
    refine other rfl fun hended => ?_
    rw [hended] at halive
    cases halive
  | query | idle | waits | unsubscribe | close => exact hv

theorem Base.step (h : Base dag₀ regs σ) (hcase : StepCase σ a σ') : Base dag₀ regs σ' := by
  have houtside : ∀ {v}, regs.length ≤ v → σ'.phase v = .ended := fun hv =>
    hcase.ended (h.outside hv)
  cases hcase with
  | subscribe _ =>
    refine ⟨h.regs_eq, h.edges, h.length, fun w t => ?_, houtside⟩
    rw [goto_inner, setInner_inner]
    split
    · exact RingQ.queueSize_new _
    · exact h.queues w t
  | query _ hcall =>
    obtain ⟨hedges, hlength⟩ := call_frame hcall
    exact ⟨h.regs_eq, hedges.trans h.edges, hlength.trans h.length, h.queues, houtside⟩
  | finish _ hfinish =>
    obtain ⟨hedges, hlength⟩ := call_frame (c := .finish _) hfinish
    exact ⟨h.regs_eq, hedges.trans h.edges, hlength.trans h.length, h.queues, houtside⟩
  | received _ _ hsize | waits _ _ hsize | pushed _ _ hsize =>
    exact ⟨h.regs_eq, h.edges, h.length, h.queues.setInner hsize, houtside⟩
  | close _ => exact ⟨h.regs_eq, h.edges, h.length, h.queues.setInner rfl, houtside⟩
  | spawn | turn | idle | skipped | terminate | unsubscribe =>
    exact ⟨h.regs_eq, h.edges, h.length, h.queues, houtside⟩

/-- A task goes to a phase in which it is not registered for more than before. -/
theorem Topics.goto (h : Topics regs σ) (hfits : p.Fits regs v)
    (hlisted : ∀ t, p.Listed t → (σ.phase v).Listed t)
    (hsub : ∀ rest, p ≠ .subscribing rest) : Topics regs (σ.goto v p) := by
  refine ⟨fun w => ?_, fun {w t} ht hw => ?_, fun {w t rest} hw hmem => ?_, h.nodup⟩
  · rw [goto_phase]
    split
    · next heq => exact heq ▸ hfits
    · exact h.fits w
  · refine h.registered ht ?_
    rw [goto_phase] at hw
    split at hw
    · next heq => exact heq ▸ hlisted t hw
    · exact hw
  · rw [goto_phase] at hw
    split at hw
    · exact absurd hw (hsub rest)
    · exact h.unlisted hw hmem

theorem Topics.goto_alive (h : Topics regs σ) (hfits : p.Fits regs v)
    (halive : (σ.phase v).alive = true) (hp : ∀ rest, p ≠ .subscribing rest) :
    Topics regs (σ.goto v p) :=
  h.goto hfits (fun t _ => .of_alive halive t) hp

theorem Topics.setInner (h : Topics regs σ) (hclosed : inner.closed = (σ.inner v topic).closed) :
    Topics regs (σ.setInner v topic inner) := by
  refine ⟨h.fits, fun {w t} ht hw => ?_, h.unlisted, h.nodup⟩
  obtain ⟨hmem, hopen⟩ := h.registered ht hw
  refine ⟨hmem, ?_⟩
  rw [setInner_inner]
  split
  · next heq =>
    obtain ⟨rfl, rfl⟩ := heq
    exact hclosed.trans hopen
  · exact hopen

theorem fits_loopHead (v : Nat) : (loopHead regs v).Fits regs v := by
  unfold loopHead
  split
  · next hperiodic => exact subscribeTopics_of_periodic hperiodic
  · exact suffix_rfl

theorem loopHead_ne_subscribing (v : Nat) (rest : List String) :
    loopHead regs v ≠ .subscribing rest := by
  unfold loopHead
  split <;> nofun

theorem Topics.subscribe (h : Topics regs σ) (hdistinct : ∀ v, (subscribeTopics regs v).Nodup)
    (hp : σ.phase v = .subscribing (topic :: rest)) :
    Topics regs (({ σ with
      subscribers :=
        update σ.subscribers topic (σ.subscribers topic ++ [v]) }.setInner v topic
          (.new Attribute.default.queueSize)).goto v (.subscribing rest)) := by
  have hfits : topic :: rest <:+ subscribeTopics regs v := by
    have hv := h.fits v
    rw [hp] at hv
    exact hv
  have hrest : topic ∉ rest := (nodup_cons.mp ((hdistinct v).sublist hfits.sublist)).1
  have hnot : v ∉ σ.subscribers topic := h.unlisted hp (.head _)
  refine ⟨fun w => ?_, fun {w t} ht hw => ?_, fun {w t rest'} hw hmem => ?_, fun t => ?_⟩
  · rw [goto_phase]
    split
    · next heq => exact heq ▸ (suffix_cons _ _).trans hfits
    · exact h.fits w
  · -- the new subscriber, or one that was there before
    rw [goto_inner, setInner_inner]
    show w ∈ update σ.subscribers topic _ t ∧ _
    by_cases heq : w = v ∧ t = topic
    · obtain ⟨rfl, rfl⟩ := heq
      rw [update_self, if_pos ⟨rfl, rfl⟩]
      exact ⟨mem_append_right _ (.head _), rfl⟩
    have hlisted : (σ.phase w).Listed t := by
      rw [goto_phase] at hw
      split at hw
      · next hwv =>
        subst hwv
        rw [hp]
        exact fun hmem => (mem_cons.mp hmem).elim (fun htopic => heq ⟨rfl, htopic⟩) hw
      · exact hw
    obtain ⟨hmem, hopen⟩ := h.registered ht hlisted
    rw [if_neg heq]
    refine ⟨?_, hopen⟩
    by_cases htopic : t = topic
    · subst htopic
      rw [update_self]
      exact mem_append_left _ hmem
    · rw [update_of_ne htopic]
      exact hmem
  · show w ∉ update σ.subscribers topic _ t
    rw [goto_phase] at hw
    by_cases hwv : w = v
    · subst hwv
      rw [if_pos rfl] at hw
      cases hw
      have htopic : t ≠ topic := by
        rintro rfl
        exact hrest hmem
      rw [update_of_ne htopic]
      exact h.unlisted hp (mem_cons_of_mem _ hmem)
    · rw [if_neg hwv] at hw
      by_cases htopic : t = topic
      · subst htopic
        rw [update_self, mem_append, mem_singleton]
        exact fun hor => hor.elim (h.unlisted hw hmem) hwv
      · rw [update_of_ne htopic]
        exact h.unlisted hw hmem
  · refine (forall_update_iff σ.subscribers fun _ ws => ws.Nodup).mpr ⟨?_, fun t _ => h.nodup t⟩ t
    refine (h.nodup topic).append (nodup_singleton v) fun x hx hxv => ?_
    rw [mem_singleton.mp hxv] at hx
    exact hnot hx

/-- A reactor that is alive keeps its place in its topics. -/
theorem Topics.step (h : Topics regs σ) (hregs : σ.regs = regs)
    (hdistinct : ∀ v, (subscribeTopics regs v).Nodup) (hcase : StepCase σ a σ') :
    Topics regs σ' := by
  have hfits : ∀ {v : Nat} {p : Phase}, σ.phase v = p → p.Fits regs v := fun hp => hp ▸ h.fits _
  cases hcase with
  | subscribe hp => exact h.subscribe hdistinct hp
  | spawn hp =>
    rw [hregs]
    refine h.goto (fits_loopHead _) (fun t _ => ?_) (loopHead_ne_subscribing _)
    rw [hp]
    exact not_mem_nil
  | query | idle => exact ⟨h.fits, h.registered, h.unlisted, h.nodup⟩
  | @turn v _ p _ hturn =>
    have hp : p.Fits regs v := by
      have hv := h.fits v
      rw [← hregs] at hv ⊢
      exact hturn.fits h.nodup hv
    refine h.goto_alive hp hturn.alive.1 fun rest heq => ?_
    rw [heq] at hturn
    cases hturn.alive.2
  | received hp _ _ hclosed =>
    refine (h.setInner hclosed).goto_alive ((suffix_cons _ _).trans (hfits hp)) ?_ nofun
    rw [setInner_phase, hp]
    rfl
  | waits _ _ _ hclosed => exact h.setInner hclosed
  | skipped hp _ =>
    obtain ⟨hsuffix, hws⟩ := hfits hp
    refine h.goto_alive ⟨hsuffix, fun ws heq => ?_⟩ (by rw [hp]; rfl) nofun
    cases heq
    exact (hws _ rfl).of_cons
  | pushed hp _ _ hclosed =>
    obtain ⟨hsuffix, hws⟩ := hfits hp
    refine (h.setInner hclosed).goto_alive ⟨hsuffix, fun ws heq => ?_⟩ ?_ nofun
    · cases heq
      exact (hws _ rfl).of_cons
    · rw [setInner_phase, hp]
      rfl
  | @finish v _ dag hp _ =>
    have h' : Topics regs { σ with dag := dag } := ⟨h.fits, h.registered, h.unlisted, h.nodup⟩
    have hhead : (loopHead σ.regs v).Fits regs v := hregs ▸ fits_loopHead v
    refine h'.goto_alive hhead ?_ (loopHead_ne_subscribing v)
    show (σ.phase v).alive = true
    rw [hp]
    rfl
  | terminate halive => exact h.goto trivial nofun nofun
  | @unsubscribe v topic hp =>
    have hsub : ∀ t, update σ.subscribers topic ((σ.subscribers topic).erase v) t ⊆
        σ.subscribers t := (forall_update_iff σ.subscribers fun t ws => ws ⊆ σ.subscribers t).mpr
      ⟨erase_subset, fun t _ => Subset.refl _⟩
    refine ⟨h.fits, fun {w t} ht hw => ?_, fun {w t rest} hw hmem => ?_, fun t => ?_⟩
    · obtain ⟨hmem, hopen⟩ := h.registered ht hw
      refine ⟨?_, hopen⟩
      show w ∈ update σ.subscribers topic _ t
      have hne : w ≠ v := by
        rintro rfl
        rw [hp] at hw
        exact hw
      by_cases htopic : t = topic
      · subst htopic
        rw [update_self]
        exact (mem_erase_of_ne hne).mpr hmem
      · rw [update_of_ne htopic]
        exact hmem
    · exact fun hin => h.unlisted hw hmem (hsub t hin)
    · exact (forall_update_iff σ.subscribers fun _ ws => ws.Nodup).mpr
        ⟨(h.nodup topic).erase v, fun t _ => h.nodup t⟩ t
  | @close v topic hp =>
    refine ⟨h.fits, fun {w t} ht hw => ?_, h.unlisted, h.nodup⟩
    have hne : w ≠ v := by
      rintro rfl
      rw [setInner_phase, hp] at hw
      exact hw
    rw [setInner_inner, if_neg fun heq => hne heq.1]
    exact h.registered ht hw

end

/-! ### Before and after the source is spawned -/

/-- How many messages of topic `t` node `u` has delivered to `v`. -/
def numDelivered (σ : Reactors) (u v : Nat) (t : String) : Nat :=
  σ.dag.numFinished u + (σ.phase u).delivered v t

/-- How many messages of topic `t` node `v` has received. -/
def numReceived (σ : Reactors) (v : Nat) (t : String) : Nat :=
  σ.dag.numFinished v + (σ.phase v).received t

section

variable {dag₀ : Dag} {regs : List Registration}

/-- The source is not spawned: the others wait for their first message. -/
structure Quiet (W : Wiring dag₀ regs) (σ : Reactors) : Prop where
  source : ∃ rest, σ.phase W.source = .subscribing rest
  waiting : ∀ v, (∃ rest, σ.phase v = .subscribing rest) ∨
    σ.phase v = .receiving (subscribeTopics regs v) ∨ σ.phase v = .ended
  unfinished : ∀ v, σ.dag.numFinished v = 0
  empty : ∀ v t, (σ.inner v t).items = []

/-- **All are spawned**, and the messages delivered along an edge are those received and those
in the queue. -/
structure Flowing (regs : List Registration) (σ : Reactors) : Prop where
  spawned : ∀ v rest, σ.phase v ≠ .subscribing rest
  edges : ∀ {u v t}, t ∈ publishTopics regs u → t ∈ subscribeTopics regs v →
    (σ.phase u).alive = true → (σ.phase v).alive = true →
      σ.numDelivered u v t = σ.numReceived v t + (σ.inner v t).items.length

variable {W : Wiring dag₀ regs} {σ σ' : Reactors} {a : Action}

theorem delivered_loopHead (u v : Nat) (t : String) : (loopHead regs u).delivered v t = 0 := by
  unfold loopHead
  split <;> rfl

variable {v : Nat} {topic : String}

theorem received_loopHead (ht : t ∈ subscribeTopics regs v) : (loopHead regs v).received t = 0 := by
  unfold loopHead
  split
  · rfl
  · exact if_pos ht

theorem subscribeTopics_ne_nil (W : Wiring dag₀ regs) (hv : v < regs.length) (hne : v ≠ W.source) :
    subscribeTopics regs v ≠ [] := by
  obtain ⟨u, t, hedge⟩ := W.pred hv hne
  exact ne_nil_of_mem (W.edge.mp hedge).2

theorem Base.lt (h : Base dag₀ regs σ) (hv : σ.phase v ≠ .ended) : v < regs.length := by
  by_contra hle
  exact hv (h.outside (not_lt.mp hle))

/-- Nothing was sent yet, so the spawn of the source makes no message get lost. -/
theorem Quiet.spawn_source (h : Quiet W σ) (hb : Base dag₀ regs σ)
    (hlast : ∀ w < regs.length, w ≠ W.source → (σ.phase w).spawned = true) :
    Flowing regs (σ.goto W.source (loopHead regs W.source)) := by
  have hphase : ∀ v, (σ.goto W.source (loopHead regs W.source)).phase v = loopHead regs v ∨
      (σ.goto W.source (loopHead regs W.source)).phase v = .receiving (subscribeTopics regs v) ∨
      (σ.goto W.source (loopHead regs W.source)).phase v = .ended := by
    intro v
    rw [goto_phase]
    split
    · next heq => exact .inl (heq ▸ rfl)
    rename_i hne
    rcases h.waiting v with ⟨rest, hrest⟩ | hv
    · have hspawned := hlast v (hb.lt (by rw [hrest]; nofun)) hne
      rw [hrest] at hspawned
      cases hspawned
    · exact .inr hv
  refine ⟨fun v rest heq => ?_, fun {u v t} hu hv halive halive' => ?_⟩
  · rcases hphase v with hv | hv | hv
    · exact loopHead_ne_subscribing v rest (hv.symm.trans heq)
    · cases hv.symm.trans heq
    · cases hv.symm.trans heq
  -- all counts are zero
  unfold numDelivered numReceived
  rw [goto_dag, h.unfinished u, h.unfinished v, goto_inner, h.empty v t]
  have hdelivered : ((σ.goto W.source (loopHead regs W.source)).phase u).delivered v t = 0 := by
    rcases hphase u with hp | hp | hp
    · rw [hp]
      exact delivered_loopHead u v t
    · rw [hp]
      rfl
    · rw [hp]
      rfl
  have hreceived : ((σ.goto W.source (loopHead regs W.source)).phase v).received t = 0 := by
    rcases hphase v with hp | hp | hp
    · rw [hp]
      exact received_loopHead hv
    · rw [hp]
      exact if_pos hv
    · rw [hp]
      rfl
  rw [hdelivered, hreceived]
  rfl

/-- Before the source, nothing is received; its spawn starts the flow. -/
theorem Quiet.step (h : Quiet W σ) (hb : Base dag₀ regs σ) (hcase : StepCase σ a σ')
    (hok : SpawnsSourceLast σ a) : Quiet W σ' ∨ Flowing regs σ' := by
  obtain ⟨srest, hsource⟩ := h.source
  -- a task that does not wait for a message is not there
  have hnot : ∀ {v : Nat} {p : Phase}, σ.phase v = p → (∀ rest, p ≠ .subscribing rest) →
      (∀ rest, p ≠ .receiving rest) → p ≠ .ended → False := by
    intro v p hp hsub hrecv hended
    rcases h.waiting v with ⟨rest, hv⟩ | hv | hv
    · exact hsub rest (hp.symm.trans hv)
    · exact hrecv _ (hp.symm.trans hv)
    · exact hended (hp.symm.trans hv)
  cases hcase with
  | @subscribe v topic rest hp =>
    left
    refine ⟨?_, fun w => ?_, h.unfinished, fun w t => ?_⟩
    · rw [goto_phase]
      split
      · exact ⟨rest, rfl⟩
      · exact h.source
    · rw [goto_phase]
      split
      · exact .inl ⟨rest, rfl⟩
      · exact h.waiting w
    · rw [goto_inner, setInner_inner]
      split
      · exact RingQ.toList_new _
      · exact h.empty w t
  | @spawn v hp =>
    rw [hb.regs_eq]
    have hv : v < regs.length := hb.lt (by rw [hp]; nofun)
    by_cases heq : v = W.source
    · right
      subst heq
      refine h.spawn_source hb fun w hw hne => ?_
      refine hok ?_ w (hb.regs_eq.symm ▸ hw) hne
      rw [isSource_congr hb.edges]
      exact (W.isSource hv).mpr rfl
    · left
      have hhead : loopHead regs v = .receiving (subscribeTopics regs v) := by
        refine if_neg fun hperiodic => ?_
        exact subscribeTopics_ne_nil W hv heq (subscribeTopics_of_periodic hperiodic)
      refine ⟨?_, fun w => ?_, h.unfinished, h.empty⟩
      · rw [goto_phase, if_neg (Ne.symm heq)]
        exact h.source
      rw [goto_phase]
      split
      · next hwv => exact .inr (.inl (hwv ▸ hhead))
      · exact h.waiting w
  | query _ hcall =>
    exact .inl ⟨h.source, h.waiting,
      fun v => (numFinished_query hcall v).trans (h.unfinished v), h.empty⟩
  | @turn v _ p _ hturn =>
    exfalso
    rcases h.waiting v with ⟨rest, hv⟩ | hv | hv
    · rw [hv] at hturn
      cases hturn.alive.1
    · -- a reactor that has received all it waits for has nothing to wait for
      have hne : v ≠ W.source := by
        rintro rfl
        cases hsource.symm.trans hv
      have hlt : v < regs.length := hb.lt (by rw [hv]; nofun)
      have hnil := subscribeTopics_ne_nil W hlt hne
      rw [hv] at hturn
      generalize subscribeTopics regs v = topics at hturn hnil
      cases hturn with
      | receivedAll => exact hnil rfl
    · rw [hv] at hturn
      cases hturn.alive.1
  | idle hp | skipped hp | pushed hp | finish hp => exact (hnot hp nofun nofun nofun).elim
  | @received v _ topic rest inner d _ hitems _ _ =>
    rw [h.empty v topic] at hitems
    cases hitems
  | waits _ hitems _ _ =>
    refine .inl ⟨h.source, h.waiting, h.unfinished, fun w t => ?_⟩
    rw [setInner_inner]
    split
    · exact hitems.trans (h.empty _ _)
    · exact h.empty w t
  | @terminate v halive =>
    left
    have hne : W.source ≠ v := by
      rintro rfl
      rw [hsource] at halive
      cases halive
    refine ⟨?_, fun w => ?_, h.unfinished, h.empty⟩
    · rw [goto_phase, if_neg hne]
      exact h.source
    rw [goto_phase]
    split
    · exact .inr (.inr rfl)
    · exact h.waiting w
  | unsubscribe => exact .inl ⟨h.source, h.waiting, h.unfinished, h.empty⟩
  | close =>
    refine .inl ⟨h.source, h.waiting, h.unfinished, fun w t => ?_⟩
    rw [setInner_inner]
    split
    · next heq =>
      obtain ⟨rfl, rfl⟩ := heq
      exact h.empty w t
    · exact h.empty w t

/-! ### The messages along an edge -/

/-- A task goes to the phase `p`, and the messages along the edges are counted as before. -/
theorem Flowing.of_goto (h : Flowing regs σ) (hphase : σ'.phase = σ.phase)
    (hp : ∀ rest, p ≠ .subscribing rest) (halive : p.alive = true → (σ.phase v).alive = true)
    (hedges : ∀ {u w t}, t ∈ publishTopics regs u → t ∈ subscribeTopics regs w →
      (u = v → p.alive = true) → (w = v → p.alive = true) → (σ.phase w).alive = true →
      σ.numDelivered u w t = σ.numReceived w t + (σ.inner w t).items.length →
        σ'.dag.numFinished u + (if u = v then p else σ.phase u).delivered w t =
          σ'.dag.numFinished w + (if w = v then p else σ.phase w).received t +
            (σ'.inner w t).items.length) : Flowing regs (σ'.goto v p) := by
  have hbefore : ∀ {w}, ((σ'.goto v p).phase w).alive = true →
      (w = v → p.alive = true) ∧ (σ.phase w).alive = true := by
    intro w hw
    rw [goto_phase, hphase] at hw
    split at hw
    · next heq => exact ⟨fun _ => hw, heq ▸ halive hw⟩
    · next hne => exact ⟨fun heq => absurd heq hne, hw⟩
  refine ⟨fun w rest => ?_, fun {u w t} hu hw haliveU haliveW => ?_⟩
  · rw [goto_phase, hphase]
    split
    · exact hp rest
    · exact h.spawned w rest
  obtain ⟨hpU, haliveU⟩ := hbefore haliveU
  obtain ⟨hpW, haliveW⟩ := hbefore haliveW
  unfold numDelivered numReceived
  rw [goto_phase, goto_phase, hphase]
  exact hedges hu hw hpU hpW haliveW (h.edges hu hw haliveU haliveW)

theorem Flowing.goto (h : Flowing regs σ) (hp : ∀ rest, p ≠ .subscribing rest)
    (halive : p.alive = true → (σ.phase v).alive = true)
    (hdelivered : ∀ {w t}, p.alive = true → t ∈ publishTopics regs v →
      t ∈ subscribeTopics regs w → (σ.phase w).alive = true →
        p.delivered w t = (σ.phase v).delivered w t)
    (hreceived : ∀ {t}, p.alive = true → t ∈ subscribeTopics regs v →
      p.received t = (σ.phase v).received t) : Flowing regs (σ.goto v p) := by
  refine h.of_goto rfl hp halive fun {u w t} hu hw hpU hpW haliveW hedge => ?_
  have hsent : (if u = v then p else σ.phase u).delivered w t = (σ.phase u).delivered w t := by
    split
    · next heq =>
      subst heq
      exact hdelivered (hpU rfl) hu hw haliveW
    · rfl
  have hgot : (if w = v then p else σ.phase w).received t = (σ.phase w).received t := by
    split
    · next heq =>
      subst heq
      exact hreceived (hpW rfl) hw
    · rfl
  rw [hsent, hgot]
  exact hedge

theorem Flowing.received (h : Flowing regs σ) {d : Data Unit}
    (hp : σ.phase v = .receiving (topic :: rest)) (hnodup : (topic :: rest).Nodup)
    (hitems : (σ.inner v topic).items = d :: inner.items) :
    Flowing regs ((σ.setInner v topic inner).goto v (.receiving rest)) := by
  refine h.of_goto rfl nofun (fun _ => by rw [hp]; rfl) fun {u w t} _ _ _ _ _ hedge => ?_
  -- a task that receives has delivered nothing in this job, before and after
  have hsent : (if u = v then Phase.receiving rest else σ.phase u).delivered w t =
      (σ.phase u).delivered w t := by
    split
    · next heq =>
      rw [heq, hp]
      rfl
    · rfl
  unfold numDelivered numReceived at hedge
  rw [setInner_dag, hsent, hedge, setInner_inner, Nat.add_assoc, Nat.add_assoc]
  congr 1
  by_cases hwv : w = v
  · subst hwv
    rw [if_pos rfl, hp]
    dsimp only [Phase.received]
    by_cases ht : t = topic
    · -- the message leaves the queue and is received
      subst ht
      rw [if_pos mem_cons_self, if_neg (nodup_cons.mp hnodup).1, if_pos ⟨rfl, rfl⟩,
        hitems, length_cons]
      omega
    · have hother : ¬(w = w ∧ t = topic) := fun heq => ht heq.2
      rw [if_neg hother]
      exact congrArg (· + _) (if_congr (mem_cons.trans (or_iff_right ht)) rfl rfl)
  · rw [if_neg hwv, if_neg fun heq => hwv heq.1]

/-- A visit to the subscriber `w` delivers nothing to another, or on another topic. -/
theorem Phase.delivered_sending {x w : Nat} {t topic : String} (h : t = topic → x ≠ w)
    (ws : List Nat) (rest : List String) : (sending topic (some ws) rest).delivered x t =
      (sending topic (some (w :: ws)) rest).delivered x t := by
  refine if_congr (or_congr Iff.rfl (and_congr_right fun ht => ?_)) rfl rfl
  show decide (x ∈ ws) = true ↔ decide (x ∈ w :: ws) = true
  rw [decide_eq_true_iff, decide_eq_true_iff, mem_cons]
  exact (or_iff_right (h ht)).symm

section

variable (h : Flowing regs σ)

include h

/-- A push adds to the messages delivered along one edge. -/
theorem Flowing.pushed (W : Wiring dag₀ regs) {w : Nat} {ws : List Nat}
    (hp : σ.phase v = .sending topic (some (w :: ws)) rest)
    (hfits : (Phase.sending topic (some (w :: ws)) rest).Fits regs v)
    (hitems : inner.items = (σ.inner w topic).items ++ [⟨0, ()⟩]) :
    Flowing regs ((σ.setInner w topic inner).goto v (.sending topic (some ws) rest)) := by
  obtain ⟨hsuffix, hws⟩ := hfits
  have htopic : topic ∈ publishTopics regs v := hsuffix.subset (.head _)
  have hrest : topic ∉ rest :=
    (nodup_cons.mp ((W.nodup v).2.sublist hsuffix.sublist)).1
  have hw : w ∉ ws := (nodup_cons.mp (hws _ rfl)).1
  refine h.of_goto rfl nofun (fun _ => by rw [hp]; rfl) fun {u x t} hu hx _ _ _ hedge => ?_
  -- a task that sends has received all, before and after
  have hgot : (if x = v then Phase.sending topic (some ws) rest else σ.phase x).received t =
      (σ.phase x).received t := by
    split
    · next heq =>
      rw [heq, hp]
      rfl
    · rfl
  unfold numDelivered numReceived at hedge
  rw [setInner_dag, hgot, setInner_inner]
  by_cases hxt : x = w ∧ t = topic
  · -- the one publisher of the topic has delivered this message
    obtain ⟨rfl, rfl⟩ := hxt
    obtain rfl : u = v := W.publisher hu htopic hx
    rw [hp] at hedge
    have hbefore0 : (Phase.sending t (some (x :: ws)) rest).delivered x t = 0 :=
      if_pos (.inr ⟨rfl, decide_eq_true mem_cons_self⟩)
    have hafter : (Phase.sending t (some ws) rest).delivered x t = 1 := by
      refine if_neg fun hor => hor.elim hrest fun hand => hw ?_
      have hmem : decide (x ∈ ws) = true := hand.2
      exact of_decide_eq_true hmem
    rw [if_pos rfl, if_pos ⟨rfl, rfl⟩, hitems, length_append, length_singleton]
    omega
  · rw [if_neg hxt]
    have hsent : (if u = v then Phase.sending topic (some ws) rest else σ.phase u).delivered
        x t = (σ.phase u).delivered x t := by
      split
      · next heq =>
        rw [heq, hp]
        exact Phase.delivered_sending (fun ht hxw => hxt ⟨hxw, ht⟩) ws rest
      · rfl
    rw [hsent]
    exact hedge

theorem Flowing.finish {dag : Dag} (hp : σ.phase v = .finishing)
    (hfinish : σ.dag.finishJob v = some dag) :
    Flowing regs ({ σ with dag := dag }.goto v (loopHead regs v)) := by
  refine h.of_goto rfl (loopHead_ne_subscribing v) (fun _ => by rw [hp]; rfl)
    fun {u w t} _ hw _ _ _ hedge => ?_
  unfold numDelivered numReceived at hedge
  -- the messages of the job are counted with the jobs that are finished
  have hsent : dag.numFinished u + (if u = v then loopHead regs v else σ.phase u).delivered w t =
      σ.dag.numFinished u + (σ.phase u).delivered w t := by
    rw [numFinished_finish hfinish]
    split
    · next heq =>
      rw [delivered_loopHead, heq, hp]
      rfl
    · rfl
  have hgot : dag.numFinished w + (if w = v then loopHead regs v else σ.phase w).received t =
      σ.dag.numFinished w + (σ.phase w).received t := by
    rw [numFinished_finish hfinish]
    split
    · next heq =>
      rw [received_loopHead (heq ▸ hw), heq, hp]
      rfl
    · rfl
  rw [← hsent, ← hgot] at hedge
  exact hedge

/-- The queue of a subscriber is written, with the messages that are in it. -/
theorem Flowing.setInner
    (hitems : inner.items = (σ.inner v topic).items) : Flowing regs (σ.setInner v topic inner) := by
  refine ⟨h.spawned, fun {u x t} hu hx haliveU haliveX => ?_⟩
  have hsame : ((σ.setInner v topic inner).inner x t).items = (σ.inner x t).items := by
    rw [setInner_inner]
    split
    · next heq =>
      obtain ⟨rfl, rfl⟩ := heq
      exact hitems
    · rfl
  rw [hsame]
  exact h.edges hu hx haliveU haliveX

/-- **Along an edge no message is lost, and none is made up.** -/
theorem Flowing.step (W : Wiring dag₀ regs) (hb : Base dag₀ regs σ)
    (ht : Topics regs σ) (hcase : StepCase σ a σ') : Flowing regs σ' := by
  have hfits : ∀ {v : Nat} {p : Phase}, σ.phase v = p → p.Fits regs v := fun hp => hp ▸ ht.fits _
  cases hcase with
  | subscribe hp | spawn hp => exact absurd hp (h.spawned _ _)
  | query _ hcall =>
    refine ⟨h.spawned, fun {u v t} hu hv haliveU haliveV => ?_⟩
    unfold numDelivered numReceived
    rw [numFinished_query hcall, numFinished_query hcall]
    exact h.edges hu hv haliveU haliveV
  | @turn v _ p _ hturn =>
    refine h.goto (fun rest heq => ?_) (fun _ => hturn.alive.1)
      (fun {w t} _ hv hw halive => ?_) fun {t} _ hv => ?_
    · rw [heq] at hturn
      cases hturn.alive.2
    · have hmem := (ht.registered hw (.of_alive halive t)).1
      exact hturn.delivered (hb.regs_eq ▸ hv) hmem
    · exact hturn.received (hb.regs_eq ▸ ht.fits v) (hb.regs_eq ▸ hv)
  | idle => exact h
  | received hp hitems _ _ =>
    exact h.received hp ((W.nodup _).1.sublist (hfits hp).sublist) hitems
  | waits _ hitems => exact h.setInner hitems
  | @skipped v w _ topic ws rest hp hclosed =>
    refine h.goto nofun (fun _ => by rw [hp]; rfl) (fun {x t} _ hv hx halive => ?_)
      fun {t} _ _ => ?_
    · -- a subscriber that is closed has ended
      have hopen := (ht.registered hx (.of_alive halive t)).2
      rw [hp]
      refine Phase.delivered_sending (fun htopic => ?_) ws rest
      rintro rfl
      rw [htopic, hclosed] at hopen
      cases hopen
    · rw [hp]
      rfl
  | pushed hp hitems _ _ => exact h.pushed W hp (hfits hp) hitems
  | finish hp hfinish =>
    have hfinished := h.finish hp hfinish
    rw [← hb.regs_eq] at hfinished ⊢
    exact hfinished
  | terminate _ => exact h.goto nofun nofun nofun nofun
  | unsubscribe => exact ⟨h.spawned, h.edges⟩
  | close => exact h.setInner rfl

end

/-! ### The invariant -/

/-- What holds in every run that spawns the source last. -/
structure Inv (W : Wiring dag₀ regs) (σ : Reactors) : Prop where
  base : Base dag₀ regs σ
  topics : Topics regs σ
  flow : Quiet W σ ∨ Flowing regs σ
  /-- The jobs in the deadline store were released by the source. -/
  keys : ∀ {k d}, σ.dag.absoluteDeadlines.get k = some d → k ≤ σ.dag.numFinished W.source

theorem Inv.init (W : Wiring dag₀ regs) (hfresh : dag₀.Fresh)
    (hunfinished : ∀ v, dag₀.numFinished v = 0) : Inv W (.init dag₀ regs) := by
  have hphase : ∀ v, (Reactors.init dag₀ regs).phase v = .subscribing (subscribeTopics regs v) ∨
      (Reactors.init dag₀ regs).phase v = .ended := by
    intro v
    show (if v < regs.length then _ else _) = _ ∨ (if v < regs.length then _ else _) = _
    split
    · exact .inl rfl
    · exact .inr rfl
  refine ⟨⟨rfl, rfl, rfl, fun v t => RingQ.queueSize_new _, fun {v} hv => if_neg (not_lt.mpr hv)⟩,
    ⟨fun v => ?_, fun {v t} ht hv => ?_, fun _ _ => not_mem_nil, fun t => nodup_nil⟩,
    .inl ⟨⟨_, if_pos W.source_lt⟩, fun v => ?_, hunfinished, fun v t => RingQ.toList_new _⟩,
    fun {k d} hget => ?_⟩
  · rcases hphase v with hv | hv
    · rw [hv]
      exact suffix_rfl
    · rw [hv]
      exact trivial
  · rcases hphase v with hp | hp
    · rw [hp] at hv
      exact absurd ht hv
    · rw [hp] at hv
      exact hv.elim
  · rcases hphase v with hv | hv
    · exact .inl ⟨_, hv⟩
    · exact .inr (.inr hv)
  · have hmem := SortedMap.get_eq_some.mp hget
    rw [show (Reactors.init dag₀ regs).dag.absoluteDeadlines.entries = [] from hfresh.noEntry]
      at hmem
    cases hmem

/-- A call of the deadline store leaves only jobs that the source has reached. -/
theorem keys_call {dag dag' : Dag} {c : StoreCall} {s : Nat} (h : dag.call c = some dag')
    (hkeys : ∀ {k d}, dag.absoluteDeadlines.get k = some d → k ≤ dag.numFinished s)
    (hsource : ∀ {v info}, dag.graph.nodeWeight v = some info → dag.isSource v = true → v = s)
    {k d : Nat} (hget : dag'.absoluteDeadlines.get k = some d) : k ≤ dag'.numFinished s := by
  have hmono : dag.numFinished s ≤ dag'.numFinished s := by
    cases c with
    | query => exact (numFinished_query h s).ge
    | finish v =>
      rw [numFinished_finish h]
      split
      · exact Nat.le_succ _
      · exact le_rfl
  refine le_trans ?_ hmono
  cases hold : dag.absoluteDeadlines.get k with
  | some d' => exact hkeys hold
  | none =>
    obtain ⟨v, info, rfl, hv, hinfo, rfl⟩ := inserted_by_source h hold hget
    rw [← hsource hinfo hv]
    unfold numFinished
    rw [hinfo]
    exact le_rfl

theorem Inv.step (h : Inv W σ) (hok : SpawnsSourceLast σ a) (hstep : σ.step a = some σ') :
    Inv W σ' := by
  have hcase := step_cases h.base.queues hstep
  have hflow : Quiet W σ' ∨ Flowing regs σ' := by
    rcases h.flow with hquiet | hflowing
    · exact hquiet.step h.base hcase hok
    · exact .inr (hflowing.step W h.base h.topics hcase)
  refine ⟨h.base.step hcase, h.topics.step h.base.regs_eq (fun v => (W.nodup v).1) hcase, hflow,
    fun {k d} hget => ?_⟩
  have hsource : ∀ {v info}, σ.dag.graph.nodeWeight v = some info → σ.dag.isSource v = true →
      v = W.source := by
    intro v info hinfo hv
    have hlt : v < regs.length := by
      rw [← W.length, ← h.base.length]
      exact (List.getElem?_eq_some_iff.mp hinfo).1
    rw [isSource_congr h.base.edges] at hv
    exact (W.isSource hlt).mp hv
  cases hcase with
  | query _ hcall => exact keys_call hcall h.keys hsource hget
  | finish _ hfinish => exact keys_call (c := .finish _) hfinish h.keys hsource hget
  | subscribe | spawn | turn | idle | received | waits | skipped | pushed | terminate
  | unsubscribe | close => exact h.keys hget

theorem Inv.of_reaches (hfresh : dag₀.Fresh) (hunfinished : ∀ v, dag₀.numFinished v = 0)
    (h : Reaches Reactors.step SpawnsSourceLast (.init dag₀ regs) σ) : Inv W σ :=
  h.invariant (.init W hfresh hunfinished) fun _ _ _ hI hok hs => hI.step hok hs

/-! ### How far the nodes are apart -/

/-- The room between two jobs along an edge. -/
def edgeRoom : Nat := Attribute.default.queueSize + 1

theorem Flowing.lag_edge (h : Flowing regs σ) (hq : σ.Queues) {u : Nat}
    (hu : t ∈ publishTopics regs u) (hv : t ∈ subscribeTopics regs v)
    (haliveU : (σ.phase u).alive = true) (haliveV : (σ.phase v).alive = true) :
    σ.dag.numFinished u ≤ σ.dag.numFinished v + edgeRoom := by
  have hroom : (σ.inner v t).items.length ≤ Attribute.default.queueSize := by
    rw [← hq v t]
    exact (σ.inner v t).length_items_le
  have hreceived := (σ.phase v).received_le t
  calc σ.dag.numFinished u ≤ σ.numDelivered u v t := Nat.le_add_right _ _
    _ = σ.numReceived v t + (σ.inner v t).items.length := h.edges hu hv haliveU haliveV
    _ ≤ (σ.dag.numFinished v + 1) + Attribute.default.queueSize :=
        Nat.add_le_add (Nat.add_le_add_left hreceived _) hroom
    _ = σ.dag.numFinished v + edgeRoom := by
        unfold edgeRoom
        omega

/-- There is a path from `u` to `w`. -/
def Ancestor (graph : TopicGraph) (u w : Nat) : Prop :=
  Relation.ReflTransGen (fun u v => ∃ t, graph.HasEdge u v t) u w

/-- **The source is not far ahead** of a node that is alive and whose ancestors are. -/
theorem Flowing.lag (h : Flowing regs σ) (hq : σ.Queues) (W : Wiring dag₀ regs) {w : Nat}
    (hw : w < regs.length)
    (halive : ∀ u, Ancestor dag₀.graph u w → (σ.phase u).alive = true) :
    σ.dag.numFinished W.source ≤ σ.dag.numFinished w + W.rank w * edgeRoom := by
  -- by induction on the rank, from a predecessor
  induction hrank : W.rank w using Nat.strong_induction_on generalizing w with
  | _ r ih =>
    by_cases hsource : w = W.source
    · rw [hsource]
      exact Nat.le_add_right _ _
    obtain ⟨u, t, hedge⟩ := W.pred hw hsource
    obtain ⟨hu, hv⟩ := W.edge.mp hedge
    have hlt : W.rank u < r := hrank ▸ W.rank_lt_rank hedge
    have hulen : u < regs.length := W.length ▸ (Graph.lt_of_hasEdge hedge).1
    have hup := ih (W.rank u) hlt hulen (fun x hx => halive x (hx.tail ⟨t, hedge⟩)) rfl
    have hstep := h.lag_edge hq hu hv (halive u (.single ⟨t, hedge⟩)) (halive w .refl)
    calc σ.dag.numFinished W.source ≤ σ.dag.numFinished u + W.rank u * edgeRoom := hup
      _ ≤ σ.dag.numFinished w + edgeRoom + W.rank u * edgeRoom := Nat.add_le_add_right hstep _
      _ = σ.dag.numFinished w + (W.rank u + 1) * edgeRoom := by
          rw [Nat.succ_mul]
          omega
      _ ≤ σ.dag.numFinished w + r * edgeRoom :=
          Nat.add_le_add_left (Nat.mul_le_mul_right _ hlt) _

end

end Reactors

end Awkernel
