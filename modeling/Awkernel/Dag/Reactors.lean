import Awkernel.Dag.DeadlineStore
import Awkernel.Dag.Registry

/-!
# The reactors of a DAG

The tasks that `spawn_reactor`, `spawn_periodic_reactor` and `spawn_sink_reactor` spawn, with the
topics between them and the deadline store that they share. A reactor loops: it waits for a tick
or receives a message from each of its topics, yields if its deadline is that of another job,
calls the user's function, sends the results, and calls `finish_job`.

A step is a critical section: one poll of a `Sleep`, of `recv` or of a `Yield`, one round of the
loop of `Sender::poll`, one call of a function of the deadline store. `advance` also tells
whether the poll of the task ends with the step, with `Poll::Pending`; a step that does not end
it is followed by the next one of the same poll. The topics have the default attribute, so their
messages do not expire and the time stamps are not looked at. What a message carries is not looked
at either.

* `spawn_dag` creates the subscribers of a reactor before it spawns the task, one after the other.
  The tasks are spawned in any order here.
* `wakeTask` is the access of `wake_task` to the deadline store; when a task is woken is left open.
* A task ends if it panics. Its subscribers are then dropped at any time, each of them by two
  critical sections.
-/

namespace Awkernel

open TransitionSystem Attribute Option Function
open DagSystem (Registration)

/-- The topics that node `v` subscribes to. -/
def subscribeTopics (regs : List Registration) (v : Nat) : List String :=
  (regs[v]?.map Registration.subscribeTopicNames).getD []

/-- The topics that node `v` publishes. -/
def publishTopics (regs : List Registration) (v : Nat) : List String :=
  (regs[v]?.map Registration.publishTopicNames).getD []

/-- `sleep_task::State`; nothing is canceled here. -/
inductive SleepState
  | ready
  | wait
  | finished
  deriving DecidableEq

/-- Where a reactor is. -/
inductive Reactors.Phase
  /-- The task is not spawned, and these subscribers have still to be created. -/
  | subscribing (rest : List String)
  /-- `interval.tick().await`, in a periodic reactor. -/
  | ticking (sleep : SleepState)
  /-- `recv_all`, with the topics that no message was received from. -/
  | receiving (rest : List String)
  /-- Before `has_stale_deadline`. -/
  | checking
  /-- The yield after it. -/
  | yielding (yielded : Bool)
  /-- Before the call of the user's function. -/
  | executing
  /-- In `Sender::poll` for a topic: `none` before it has copied the map of subscribers, and then
  the subscribers that it has still to visit. `rest` are the topics that follow. -/
  | sending (topic : String) (targets : Option (List Nat)) (rest : List String)
  /-- The yield of `Publisher::send`. -/
  | sent (rest : List String) (yielded : Bool)
  /-- Before `finish_job`. -/
  | finishing
  | ended
  deriving DecidableEq

namespace Reactors.Phase

/-- The task is spawned and has not ended. -/
def alive : Phase → Bool
  | .subscribing _ | .ended => false
  | _ => true

def spawned : Phase → Bool
  | .subscribing _ => false
  | _ => true

/-- `send_all`. -/
def sendAll : List String → Phase
  | [] => .finishing
  | topic :: rest => .sending topic none rest

end Reactors.Phase

/-- The reactors of a DAG at run time. -/
structure Reactors where
  /-- How the nodes were registered. -/
  regs : List Registration
  dag : Dag
  phase : Nat → Reactors.Phase
  /-- The nodes that are registered as subscribers of a topic. -/
  subscribers : String → List Nat
  /-- What a node shares with the publishers of a topic it subscribes to. -/
  inner : Nat → String → InnerSubscriber Unit

inductive Reactors.Action
  | subscribe (v : Nat)
  | spawn (v : Nat)
  /-- `none` if the closure that computes the deadline panics. -/
  | wakeTask (v : Nat) (release : Bool) (deadline : Option Nat)
  | advance (v : Nat) (waker : Waker)
  /-- The timer of a `Sleep` expires. -/
  | fire (v : Nat)
  /-- The task panics. -/
  | terminate (v : Nat)
  /-- The two halves of `destroy_subscriber`. -/
  | unsubscribe (v : Nat) (topic : String)
  | close (v : Nat) (topic : String)

namespace Reactors

/-- The DAG before `spawn_dag`. -/
def init (dag : Dag) (regs : List Registration) : Reactors where
  regs := regs
  dag := dag
  phase v := if v < regs.length then .subscribing (subscribeTopics regs v) else .ended
  subscribers _ := []
  inner _ _ := .new default.queueSize

def goto (σ : Reactors) (v : Nat) (phase : Phase) : Reactors :=
  { σ with phase := update σ.phase v phase }

def setInner (σ : Reactors) (v : Nat) (topic : String) (inner : InnerSubscriber Unit) : Reactors :=
  { σ with inner := fun w t => if w = v ∧ t = topic then inner else σ.inner w t }

/-- The head of the loop of a reactor. -/
def loopHead (regs : List Registration) (v : Nat) : Phase :=
  if regs[v]?.any Registration.isPeriodic then .ticking .ready
  else .receiving (subscribeTopics regs v)

/-- One step of the task of node `v`, and whether its poll ends with it; `none` is a panic, or
there is no such task. -/
def advance (σ : Reactors) (v : Nat) (waker : Waker) : Option (Reactors × Bool) :=
  match σ.phase v with
  | .subscribing _ | .ended => none
  | .ticking .ready => some (σ.goto v (.ticking .wait), true)
  | .ticking .wait => some (σ, true)
  | .ticking .finished => some (σ.goto v .executing, false)
  | .receiving [] => some (σ.goto v .checking, false)
  | .receiving (topic :: rest) =>
    ((σ.inner v topic).recvOrRegisterWaker default.lifespan 0 waker).map
      fun (inner, _, result) => match result with
        | some _ => ((σ.setInner v topic inner).goto v (.receiving rest), false)
        | none => (σ.setInner v topic inner, true)
  | .checking =>
    (σ.dag.hasStaleDeadline v).map fun stale =>
      (σ.goto v (if stale then .yielding false else .executing), false)
  | .yielding false => some (σ.goto v (.yielding true), true)
  | .yielding true => some (σ.goto v .executing, false)
  | .executing => some (σ.goto v (.sendAll (publishTopics σ.regs v)), false)
  | .sending topic none rest =>
    some (σ.goto v (.sending topic (some (σ.subscribers topic)) rest), false)
  | .sending _ (some []) rest => some (σ.goto v (.sent rest false), false)
  | .sending topic (some (w :: ws)) rest =>
    ((σ.inner w topic).visit default 0 waker ⟨0, ()⟩).map fun (inner, _, visit) =>
      match visit with
      | .closed => (σ.goto v (.sending topic (some ws) rest), false)
      | .parked => (σ.setInner w topic inner, true)
      | .pushed => ((σ.setInner w topic inner).goto v (.sending topic (some ws) rest), false)
  | .sent rest false => some (σ.goto v (.sent rest true), true)
  | .sent rest true => some (σ.goto v (.sendAll rest), false)
  | .finishing =>
    (σ.dag.finishJob v).map fun dag => ({ σ with dag := dag }.goto v (loopHead σ.regs v), false)

/-- A step; `none` if it cannot be taken, or panics. -/
def step (σ : Reactors) : Action → Option Reactors
  | .subscribe v =>
    match σ.phase v with
    | .subscribing (topic :: rest) =>
      some (({ σ with
        subscribers :=
          update σ.subscribers topic (σ.subscribers topic ++ [v]) }.setInner v topic
            (.new default.queueSize)).goto v (.subscribing rest))
    | _ => none
  | .spawn v =>
    match σ.phase v with
    | .subscribing [] => some (σ.goto v (loopHead σ.regs v))
    | _ => none
  | .wakeTask v release deadline =>
    if (σ.phase v).alive then
      (σ.dag.call (.query v release deadline)).map fun dag => { σ with dag := dag }
    else none
  | .advance v waker => (σ.advance v waker).map Prod.fst
  | .fire v =>
    match σ.phase v with
    | .ticking .wait => some (σ.goto v (.ticking .finished))
    | _ => none
  | .terminate v => if (σ.phase v).alive then some (σ.goto v .ended) else none
  | .unsubscribe v topic =>
    if σ.phase v = .ended then
      some { σ with
        subscribers := update σ.subscribers topic ((σ.subscribers topic).erase v) }
    else none
  | .close v topic =>
    if σ.phase v = .ended then some (σ.setInner v topic (σ.inner v topic).close.1) else none

/-- **The condition.** A source node is spawned after all other nodes. -/
def SpawnsSourceLast (σ : Reactors) : Action → Prop
  | .spawn v => σ.dag.isSource v = true →
      ∀ w < σ.regs.length, w ≠ v → (σ.phase w).spawned = true
  | _ => True

instance (σ : Reactors) : DecidablePred σ.SpawnsSourceLast := fun a => by
  induction a using Action.casesOn <;> dsimp only [SpawnsSourceLast] <;> infer_instance

/-! ### Reading a state after a write -/

section

variable (σ : Reactors) (v w : Nat) (p : Phase) (t t' : String) (inner : InnerSubscriber Unit)

@[simp] theorem goto_dag : (σ.goto v p).dag = σ.dag := rfl
@[simp] theorem goto_inner : (σ.goto v p).inner = σ.inner := rfl
@[simp] theorem setInner_dag : (σ.setInner v t inner).dag = σ.dag := rfl
@[simp] theorem setInner_phase : (σ.setInner v t inner).phase = σ.phase := rfl

theorem goto_phase : (σ.goto v p).phase w = if w = v then p else σ.phase w :=
  update_apply ..

theorem setInner_inner :
    (σ.setInner v t inner).inner w t' = if w = v ∧ t' = t then inner else σ.inner w t' := rfl

end

/-! ### The steps -/

/-- The steps of a task that change its phase only. -/
inductive Turn (σ : Reactors) (v : Nat) : Phase → Phase → Prop
  | poll : Turn σ v (.ticking .ready) (.ticking .wait)
  | fire : Turn σ v (.ticking .wait) (.ticking .finished)
  | tick : Turn σ v (.ticking .finished) .executing
  | receivedAll : Turn σ v (.receiving []) .checking
  | stale : σ.dag.hasStaleDeadline v = some true → Turn σ v .checking (.yielding false)
  | current : σ.dag.hasStaleDeadline v = some false → Turn σ v .checking .executing
  | yield : Turn σ v (.yielding false) (.yielding true)
  | yielded : Turn σ v (.yielding true) .executing
  | execute : Turn σ v .executing (.sendAll (publishTopics σ.regs v))
  | snapshot {topic : String} {rest : List String} :
      Turn σ v (.sending topic none rest) (.sending topic (some (σ.subscribers topic)) rest)
  | visitedAll {topic : String} {rest : List String} :
      Turn σ v (.sending topic (some []) rest) (.sent rest false)
  | sendYield {rest : List String} : Turn σ v (.sent rest false) (.sent rest true)
  | sendYielded {rest : List String} : Turn σ v (.sent rest true) (.sendAll rest)

/-- What a step does, if the queues have room for a message. -/
inductive StepCase (σ : Reactors) : Action → Reactors → Prop
  | subscribe {v : Nat} {topic : String} {rest : List String} :
      σ.phase v = .subscribing (topic :: rest) →
      StepCase σ (.subscribe v) (({ σ with
        subscribers :=
          update σ.subscribers topic (σ.subscribers topic ++ [v]) }.setInner v topic
            (.new default.queueSize)).goto v (.subscribing rest))
  | spawn {v : Nat} :
      σ.phase v = .subscribing [] →
      StepCase σ (.spawn v) (σ.goto v (loopHead σ.regs v))
  | query {v : Nat} {release : Bool} {deadline : Option Nat} {dag : Dag} :
      (σ.phase v).alive = true →
      σ.dag.call (.query v release deadline) = some dag →
      StepCase σ (.wakeTask v release deadline) { σ with dag := dag }
  | turn {v : Nat} {a : Action} {p : Phase} :
      (a = .fire v ∨ ∃ waker, a = .advance v waker) →
      Turn σ v (σ.phase v) p →
      StepCase σ a (σ.goto v p)
  /-- The poll finds nothing to do. -/
  | idle {v : Nat} {waker : Waker} :
      σ.phase v = .ticking .wait →
      StepCase σ (.advance v waker) σ
  | received {v : Nat} {waker : Waker} {topic : String} {rest : List String}
      {inner : InnerSubscriber Unit} {d : Data Unit} :
      σ.phase v = .receiving (topic :: rest) →
      (σ.inner v topic).items = d :: inner.items →
      inner.size = (σ.inner v topic).size →
      inner.closed = (σ.inner v topic).closed →
      StepCase σ (.advance v waker) ((σ.setInner v topic inner).goto v (.receiving rest))
  /-- The task waits for a message, or for room in a queue. -/
  | waits {v w : Nat} {waker : Waker} {topic : String} {inner : InnerSubscriber Unit} :
      (σ.phase v).alive = true →
      inner.items = (σ.inner w topic).items →
      inner.size = (σ.inner w topic).size →
      inner.closed = (σ.inner w topic).closed →
      StepCase σ (.advance v waker) (σ.setInner w topic inner)
  | skipped {v w : Nat} {waker : Waker} {topic : String} {ws : List Nat} {rest : List String} :
      σ.phase v = .sending topic (some (w :: ws)) rest →
      (σ.inner w topic).closed = true →
      StepCase σ (.advance v waker) (σ.goto v (.sending topic (some ws) rest))
  | pushed {v w : Nat} {waker : Waker} {topic : String} {ws : List Nat} {rest : List String}
      {inner : InnerSubscriber Unit} :
      σ.phase v = .sending topic (some (w :: ws)) rest →
      inner.items = (σ.inner w topic).items ++ [⟨0, ()⟩] →
      inner.size = (σ.inner w topic).size →
      inner.closed = (σ.inner w topic).closed →
      StepCase σ (.advance v waker)
        ((σ.setInner w topic inner).goto v (.sending topic (some ws) rest))
  | finish {v : Nat} {waker : Waker} {dag : Dag} :
      σ.phase v = .finishing →
      σ.dag.finishJob v = some dag →
      StepCase σ (.advance v waker) ({ σ with dag := dag }.goto v (loopHead σ.regs v))
  | terminate {v : Nat} :
      (σ.phase v).alive = true →
      StepCase σ (.terminate v) (σ.goto v .ended)
  | unsubscribe {v : Nat} {topic : String} :
      σ.phase v = .ended →
      StepCase σ (.unsubscribe v topic) { σ with
        subscribers := update σ.subscribers topic ((σ.subscribers topic).erase v) }
  | close {v : Nat} {topic : String} :
      σ.phase v = .ended →
      StepCase σ (.close v topic) (σ.setInner v topic (σ.inner v topic).close.1)

/-- The queues have room for a message when they are empty. -/
def Queues (σ : Reactors) : Prop :=
  ∀ v t, (σ.inner v t).size = default.queueSize

theorem Queues.pos {σ : Reactors} (h : σ.Queues) (v : Nat) (t : String) :
    0 < (σ.inner v t).size := by
  rw [h v t]
  decide

theorem advance_cases {σ σ' : Reactors} {v : Nat} {waker : Waker} {pending : Bool}
    (hq : σ.Queues) (h : σ.advance v waker = some (σ', pending)) :
    StepCase σ (.advance v waker) σ' := by
  -- the steps that change the phase only
  have turn : ∀ {p p' : Phase} {b : Bool}, σ.phase v = p → Turn σ v p p' →
      some (σ.goto v p', b) = some (σ', pending) → StepCase σ (.advance v waker) σ' := by
    intro p p' b hp hturn heq
    obtain ⟨rfl, -⟩ := Prod.mk.inj (some.inj heq)
    exact .turn (.inr ⟨waker, rfl⟩) (hp ▸ hturn)
  unfold advance at h
  split at h
  · cases h
  · cases h
  · next hp => exact turn hp .poll h
  · next hp =>
    obtain ⟨rfl, -⟩ := Prod.mk.inj (some.inj h)
    exact .idle hp
  · next hp => exact turn hp .tick h
  · next hp => exact turn hp .receivedAll h
  · next topic rest hp =>
    obtain ⟨inner, woken, result, hrecv, hcase, hsize, hclosed⟩ :=
      InnerSubscriber.recv_cases (hq.pos v topic) default.lifespan 0 waker
    rw [hrecv] at h
    obtain ⟨rfl, -⟩ := Prod.mk.inj (some.inj h)
    cases hcase with
    | @ready d rest' hitems hrest _ _ =>
      refine .received (d := d) hp ?_ hsize hclosed
      rw [hrest]
      exact hitems
    | pending hitems hnil _ _ =>
      refine .waits ?_ (hnil.trans hitems.symm) hsize hclosed
      rw [hp]
      rfl
  · next hp =>
    obtain ⟨stale, hstale, heq⟩ := map_eq_some_iff.mp h
    cases stale with
    | true => exact turn hp (.stale hstale) (congrArg some heq)
    | false => exact turn hp (.current hstale) (congrArg some heq)
  · next hp => exact turn hp .yield h
  · next hp => exact turn hp .yielded h
  · next hp => exact turn hp .execute h
  · next hp => exact turn hp .snapshot h
  · next hp => exact turn hp .visitedAll h
  · next topic w ws rest hp =>
    obtain ⟨inner, woken, visit, hvisit, hcase, hsize, hclosed⟩ :=
      InnerSubscriber.visit_cases (hq.pos w topic) default 0 waker ⟨0, ()⟩
    rw [hvisit] at h
    obtain ⟨rfl, -⟩ := Prod.mk.inj (some.inj h)
    have halive : (σ.phase v).alive = true := by
      rw [hp]
      rfl
    cases hcase with
    | closed hclosed _ => exact .skipped hp hclosed
    | behind _ _ hsame => exact .waits halive (by rw [hsame]; rfl) hsize hclosed
    | full _ _ _ _ hitems _ _ => exact .waits halive hitems hsize hclosed
    | pushed _ _ _ hitems _ _ => exact .pushed hp hitems hsize hclosed
    | replaced _ _ hflow _ _ _ _ => cases hflow
  · next hp => exact turn hp .sendYield h
  · next hp => exact turn hp .sendYielded h
  · next hp =>
    obtain ⟨dag, hdag, heq⟩ := map_eq_some_iff.mp h
    obtain ⟨rfl, -⟩ := Prod.mk.inj heq
    exact .finish hp hdag

theorem step_cases {σ σ' : Reactors} {a : Action} (hq : σ.Queues) (h : σ.step a = some σ') :
    StepCase σ a σ' := by
  cases a with
  | subscribe v =>
    dsimp only [step] at h
    split at h
    · next hp =>
      cases h
      exact .subscribe hp
    · cases h
  | spawn v =>
    dsimp only [step] at h
    split at h
    · next hp =>
      cases h
      exact .spawn hp
    · cases h
  | wakeTask v release deadline =>
    obtain ⟨halive, h⟩ := ite_none_right_eq_some.mp h
    obtain ⟨dag, hdag, rfl⟩ := map_eq_some_iff.mp h
    exact .query halive hdag
  | advance v waker =>
    obtain ⟨⟨σ₁, pending⟩, hadvance, rfl⟩ := map_eq_some_iff.mp h
    exact advance_cases hq hadvance
  | fire v =>
    dsimp only [step] at h
    split at h
    · next hp =>
      cases h
      exact .turn (.inl rfl) (hp ▸ .fire)
    · cases h
  | terminate v =>
    obtain ⟨halive, ⟨⟩⟩ := ite_none_right_eq_some.mp h
    exact .terminate halive
  | unsubscribe v topic =>
    obtain ⟨hp, ⟨⟩⟩ := ite_none_right_eq_some.mp h
    exact .unsubscribe hp
  | close v topic =>
    obtain ⟨hp, ⟨⟩⟩ := ite_none_right_eq_some.mp h
    exact .close hp

end Reactors

end Awkernel
