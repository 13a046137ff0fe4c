import Awkernel.AnyDict
import Awkernel.Lib.TransitionSystem
import Awkernel.PubSub.Subscriber
import Mathlib.Data.List.Nodup
import Mathlib.Data.List.Perm.Basic

/-!
# The registry of publishers and subscribers

`PubSub` of `awkernel_async_lib/src/pubsub.rs` maps a name to the subscriber set that the
endpoints of the name share, and counts the publishers. Endpoints are created by
`create_publisher` and `create_subscriber` under a name, by `create_pubsub` without one, and by
`Subscriber::clone`; each calls `destroy_publisher` or `destroy_subscriber` when it is dropped.

`destroy_publisher` finds the entry by the name and the type alone, and the endpoints of
`create_pubsub` have the name `"anonymous"`. So the drop of an anonymous publisher takes one off
the count of an entry that somebody registered under that name (`anonymous_drop`). This is the
only way in which the registry goes wrong: a run keeps it consistent in all its states exactly if
no such drop is in it (`consistent_iff`).

The queues of the subscribers, the send buffer and the wakers are not part of this model.
-/

namespace Awkernel

open TransitionSystem List Function

namespace PubSub

/-- `Subscribers<T>`; the shared map `id_to_subscriber` is given by its number. -/
structure Subscribers where
  set : Nat
  name : String
  attr : Attribute
  deriving DecidableEq

/-- `InnerPubSub<T>`. -/
structure InnerPubSub where
  subscribers : Subscribers
  numPublisher : Nat

/-- `Publisher<T>`, with its type and whether it was created under a name. -/
structure Publisher (τ : Type) where
  ty : τ
  subscribers : Subscribers
  named : Bool

/-- `Subscriber<T>`, with its type and whether it, or what it is a clone of, was created under a
name. -/
structure Subscriber (τ : Type) where
  ty : τ
  /-- The identity of its queue. -/
  inner : Nat
  subscribers : Subscribers
  named : Bool

/-- The registry, the subscriber sets and the live endpoints. -/
structure State (τ : Type) where
  nameToInner : AnyDict τ InnerPubSub
  sets : Nat → List Nat
  numSets : Nat
  numInners : Nat
  publishers : List (Publisher τ)
  subscribers : List (Subscriber τ)
  /-- A `num_publisher` was zero when it was decremented. -/
  underflowed : Bool

inductive Action (τ : Type)
  | createPublisher (ty : τ) (name : String) (attr : Attribute)
  | createSubscriber (ty : τ) (name : String) (attr : Attribute)
  | createPubsub (ty : τ) (attr : Attribute)
  /-- `Subscriber::clone` of the `k`-th subscriber. -/
  | clone (k : Nat)
  | dropPublisher (k : Nat)
  | dropSubscriber (k : Nat)

namespace State

variable {τ : Type}

def init : State τ := ⟨.new, fun _ => [], 0, 0, [], [], false⟩

/-- A new queue in the subscriber set of `subscribers`, with its handle. -/
def addSubscriber (ty : τ) (subscribers : Subscribers) (named : Bool) (σ : State τ) : State τ :=
  { σ with
    numInners := σ.numInners + 1
    sets := update σ.sets subscribers.set (σ.sets subscribers.set ++ [σ.numInners])
    subscribers := σ.subscribers ++ [⟨ty, σ.numInners, subscribers, named⟩] }

/-- `create_pubsub`. -/
def createPubsub (ty : τ) (attr : Attribute) (σ : State τ) : State τ :=
  let subscribers := ⟨σ.numSets, "anonymous", attr⟩
  addSubscriber ty subscribers false { σ with
    numSets := σ.numSets + 1
    publishers := σ.publishers ++ [⟨ty, subscribers, false⟩] }

section

variable [DecidableEq τ]

/-- `PubSub::create_publisher`. -/
def createPublisher (ty : τ) (name : String) (attr : Attribute) (σ : State τ) :
    State τ × Except String (Publisher τ) :=
  match σ.nameToInner.get ty name with
  | .typeError => (σ, .error "create_publisher: typing error")
  | .none =>
    let publisher := ⟨ty, ⟨σ.numSets, name, attr⟩, true⟩
    ({ σ with
        numSets := σ.numSets + 1
        nameToInner := σ.nameToInner.insert name ty ⟨publisher.subscribers, 1⟩
        publishers := σ.publishers ++ [publisher] },
      .ok publisher)
  | .ok inner =>
    if inner.subscribers.attr = attr then
      let publisher := ⟨ty, inner.subscribers, true⟩
      ({ σ with
          nameToInner := σ.nameToInner.insert name ty
            { inner with numPublisher := inner.numPublisher + 1 }
          publishers := σ.publishers ++ [publisher] },
        .ok publisher)
    else (σ, .error "create_publisher: incompatible attribute")

/-- `PubSub::create_subscriber`. -/
def createSubscriber (ty : τ) (name : String) (attr : Attribute) (σ : State τ) :
    State τ × Except String (Subscriber τ) :=
  match σ.nameToInner.get ty name with
  | .typeError => (σ, .error "create_subscriber: typing error")
  | .none =>
    let subscribers := ⟨σ.numSets, name, attr⟩
    (addSubscriber ty subscribers true { σ with
        numSets := σ.numSets + 1
        nameToInner := σ.nameToInner.insert name ty ⟨subscribers, 0⟩ },
      .ok ⟨ty, σ.numInners, subscribers, true⟩)
  | .ok inner =>
    if inner.subscribers.attr = attr then
      (addSubscriber ty inner.subscribers true σ, .ok ⟨ty, σ.numInners, inner.subscribers, true⟩)
    else (σ, .error "create_subscriber: incompatible attribute")

/-- `PubSub::destroy_publisher`; the count is a `u64`. -/
def destroyPublisher (publisher : Publisher τ) (σ : State τ) : State τ :=
  match σ.nameToInner.get publisher.ty publisher.subscribers.name with
  | .none | .typeError => σ
  | .ok inner =>
    let num := if inner.numPublisher = 0 then 2 ^ 64 - 1 else inner.numPublisher - 1
    { σ with
      underflowed := σ.underflowed || inner.numPublisher == 0
      nameToInner :=
        if num = 0 ∧ σ.sets inner.subscribers.set = [] then
          σ.nameToInner.remove publisher.subscribers.name
        else
          σ.nameToInner.insert publisher.subscribers.name publisher.ty
            { inner with numPublisher := num } }

/-- `PubSub::destroy_subscriber`. -/
def destroySubscriber (subscriber : Subscriber τ) (σ : State τ) : State τ :=
  let sets := update σ.sets subscriber.subscribers.set
    ((σ.sets subscriber.subscribers.set).filter (· ≠ subscriber.inner))
  match σ.nameToInner.get subscriber.ty subscriber.subscribers.name with
  | .none | .typeError => { σ with sets := sets }
  | .ok inner =>
    if inner.numPublisher = 0 ∧ sets inner.subscribers.set = [] then
      { σ with sets := sets, nameToInner := σ.nameToInner.remove subscriber.subscribers.name }
    else { σ with sets := sets }

/-- A step; `none` if there is no such endpoint. -/
def step (σ : State τ) : Action τ → Option (State τ)
  | .createPublisher ty name attr => some (σ.createPublisher ty name attr).1
  | .createSubscriber ty name attr => some (σ.createSubscriber ty name attr).1
  | .createPubsub ty attr => some (σ.createPubsub ty attr)
  | .clone k => do
    let subscriber ← σ.subscribers[k]?
    some (σ.addSubscriber subscriber.ty subscriber.subscribers subscriber.named)
  | .dropPublisher k => do
    let publisher ← σ.publishers[k]?
    some ({ σ with publishers := σ.publishers.eraseIdx k }.destroyPublisher publisher)
  | .dropSubscriber k => do
    let subscriber ← σ.subscribers[k]?
    some ({ σ with subscribers := σ.subscribers.eraseIdx k }.destroySubscriber subscriber)

end

/-! ### What the registry is for -/

/-- There is a live endpoint of the type that was created under a name. -/
def Named (σ : State τ) (ty : τ) (subscribers : Subscribers) : Prop :=
  (∃ p ∈ σ.publishers, p.named = true ∧ p.ty = ty ∧ p.subscribers = subscribers) ∨
    ∃ s ∈ σ.subscribers, s.named = true ∧ s.ty = ty ∧ s.subscribers = subscribers

/-- The number of live publishers created under the name. -/
def numNamed (σ : State τ) (name : String) : Nat :=
  σ.publishers.countP fun p => p.named && p.subscribers.name == name

/-- The registry agrees with the live endpoints. -/
structure Consistent (σ : State τ) : Prop where
  count : ∀ {name ty inner}, σ.nameToInner.dict name = some (ty, inner) →
    inner.numPublisher = σ.numNamed name
  underflow : σ.underflowed = false
  entry : ∀ name, (∃ v, σ.nameToInner.dict name = some v) ↔
    ∃ ty subscribers, σ.Named ty subscribers ∧ subscribers.name = name
  share : ∀ {ty subscribers subscribers'}, σ.Named ty subscribers → σ.Named ty subscribers' →
    subscribers.name = subscribers'.name → subscribers.set = subscribers'.set

/-- A publisher made by `create_pubsub` is dropped only while there is no entry of its type under
its name. -/
def KeepsOthers (σ : State τ) : Action τ → Prop
  | .dropPublisher k => ∀ p ∈ σ.publishers[k]?, p.named = false →
      ∀ inner, σ.nameToInner.dict p.subscribers.name ≠ some (p.ty, inner)
  | _ => True

/-! ### The subscriber sets -/

/-- A subscriber set has the queues of its live subscribers. -/
structure Members (σ : State τ) : Prop where
  nodup : (σ.subscribers.map Subscriber.inner).Nodup
  innerLt : ∀ s ∈ σ.subscribers, s.inner < σ.numInners
  setLt : ∀ s ∈ σ.subscribers, s.subscribers.set < σ.numSets
  mem : ∀ {k id}, id ∈ σ.sets k ↔ ∃ s ∈ σ.subscribers, s.inner = id ∧ s.subscribers.set = k

theorem perm_eraseIdx {α : Type} {l : List α} {k : Nat} {x : α} (h : l[k]? = some x) :
    (x :: l.eraseIdx k).Perm l := by
  obtain ⟨hk, rfl⟩ := List.getElem?_eq_some_iff.mp h
  exact getElem_cons_eraseIdx_perm hk

namespace Members

variable {σ : State τ}

theorem eq_nil (h : σ.Members) {k : Nat} :
    σ.sets k = [] ↔ ∀ s ∈ σ.subscribers, s.subscribers.set ≠ k := by
  rw [eq_nil_iff_forall_not_mem]
  constructor
  · intro hnone s hs hset
    exact hnone s.inner (h.mem.mpr ⟨s, hs, rfl, hset⟩)
  intro hnone id hid
  obtain ⟨s, hs, -, hset⟩ := h.mem.mp hid
  exact hnone s hs hset

theorem addSubscriber (h : σ.Members) {ty : τ} {subscribers : Subscribers} {named : Bool}
    (hset : subscribers.set < σ.numSets) : (σ.addSubscriber ty subscribers named).Members := by
  have hfresh : ∀ s ∈ σ.subscribers, s.inner ≠ σ.numInners := fun s hs => (h.innerLt s hs).ne
  refine ⟨?_, fun s hs => ?_, fun s hs => ?_, ?_⟩
  · change ((σ.subscribers ++ [_]).map Subscriber.inner).Nodup
    rw [map_append, nodup_append]
    refine ⟨h.nodup, nodup_singleton _, fun id hid id' hid' => ?_⟩
    obtain ⟨s, hs, rfl⟩ := mem_map.mp hid
    rw [mem_singleton.mp hid']
    exact hfresh s hs
  · rcases mem_append.mp hs with hs | hs
    · exact (h.innerLt s hs).trans (Nat.lt_succ_self _)
    · rw [mem_singleton.mp hs]
      exact Nat.lt_succ_self _
  · rcases mem_append.mp hs with hs | hs
    · exact h.setLt s hs
    · rw [mem_singleton.mp hs]
      exact hset
  · intro k id
    change id ∈ update σ.sets subscribers.set _ k ↔ ∃ s ∈ σ.subscribers ++ [_], _
    have hor : (∃ s ∈ σ.subscribers ++ [⟨ty, σ.numInners, subscribers, named⟩],
        s.inner = id ∧ s.subscribers.set = k) ↔
        id ∈ σ.sets k ∨ σ.numInners = id ∧ subscribers.set = k := by
      rw [h.mem]
      constructor
      · rintro ⟨s, hs, hid⟩
        rcases mem_append.mp hs with hs | hs
        · exact .inl ⟨s, hs, hid⟩
        · rw [mem_singleton.mp hs] at hid
          exact .inr hid
      · rintro (⟨s, hs, hid⟩ | hid)
        · exact ⟨s, mem_append_left _ hs, hid⟩
        · exact ⟨_, mem_append_right _ (mem_singleton_self _), hid⟩
    rw [hor]
    by_cases hk : k = subscribers.set
    · subst hk
      rw [update_self, mem_append, mem_singleton, and_iff_left rfl, eq_comm]
    · rw [update_of_ne hk]
      exact (or_iff_left fun hnew => hk hnew.2.symm).symm

theorem eraseIdx (h : σ.Members) {k : Nat} {s : Subscriber τ} (hk : σ.subscribers[k]? = some s)
    {nameToInner : AnyDict τ InnerPubSub} :
    Members { σ with
      nameToInner := nameToInner
      sets := update σ.sets s.subscribers.set ((σ.sets s.subscribers.set).filter (· ≠ s.inner))
      subscribers := σ.subscribers.eraseIdx k } := by
  have hperm := perm_eraseIdx hk
  obtain ⟨hnew, hnodup⟩ := nodup_cons.mp ((hperm.map Subscriber.inner).nodup_iff.mpr h.nodup)
  have hold : ∀ s' ∈ σ.subscribers.eraseIdx k, s' ∈ σ.subscribers := fun s' hs' =>
    hperm.mem_iff.mp (mem_cons_of_mem _ hs')
  refine ⟨hnodup, fun s' hs' => h.innerLt s' (hold s' hs'),
    fun s' hs' => h.setLt s' (hold s' hs'), ?_⟩
  intro j id
  change id ∈ update σ.sets s.subscribers.set _ j ↔ ∃ s' ∈ σ.subscribers.eraseIdx k, _
  -- the others have other queues
  have hother : (∃ s' ∈ σ.subscribers.eraseIdx k, s'.inner = id ∧ s'.subscribers.set = j) ↔
      id ∈ σ.sets j ∧ ¬(id = s.inner ∧ j = s.subscribers.set) := by
    rw [h.mem]
    constructor
    · rintro ⟨s', hs', rfl, rfl⟩
      refine ⟨⟨s', hold s' hs', rfl, rfl⟩, fun hsame => ?_⟩
      exact hnew (hsame.1 ▸ mem_map_of_mem hs')
    rintro ⟨⟨s', hs', rfl, rfl⟩, hnot⟩
    rcases mem_cons.mp (hperm.mem_iff.mpr hs') with rfl | hs'
    · exact absurd ⟨rfl, rfl⟩ hnot
    · exact ⟨s', hs', rfl, rfl⟩
  rw [hother]
  by_cases hj : j = s.subscribers.set
  · subst hj
    rw [update_self, mem_filter, decide_eq_true_iff, and_iff_left rfl]
  · rw [update_of_ne hj]
    exact (and_iff_left fun hsame => hj hsame.2).symm

end Members

end State

end PubSub

end Awkernel
