import Awkernel.AnyDict
import Awkernel.Channel.Unbounded
import Mathlib.Data.List.Nodup
import Mathlib.Data.List.Perm.Basic

/-!
# Services

`awkernel_async_lib/src/accepter.rs` and `service.rs`: a server registers a name and gets an
`Accepter`, and a client connects to a name by sending the ends of its session through an
unbounded channel that `Services` keeps for the name. The first of them to come makes the entry;
if that is a client, the `Accepter` waits in the entry for the server.

Two things end the service of a name for good:

* `create_client` drops its clone of the sender when it returns. A drop of any sender closes an
  unbounded channel (see `Unbounded`), so every later client is refused although the `Accepter`
  lives.
* `Accepter` has a `drop_fn` that is never called, since it does not implement `Drop`. After an
  `Accepter` is dropped its entry is there without one, and no server can be created.

`rendezvous_iff` says that these are the only ways to go wrong: a run serves all clients and
servers as it should exactly if no client comes after another one has returned, and no server
after an `Accepter` was dropped.

`create_client` is split at its two waiting points: it gets the sender, it sends, and it returns
after a yield. A connection is the number of the send that made it.
-/

namespace Awkernel

open TransitionSystem Function

namespace Service

/-- `Accepter<P>`; the receiver is given by its channel. -/
structure Accepter (π : Type) where
  name : String
  proto : π
  chan : Nat

/-- `Inner<P>`; the sender is given by its channel. -/
structure Inner (π : Type) where
  accepter : Option (Accepter π)
  sender : Nat

/-- A call of `create_client` that has its sender; `proto` is the protocol of the server. -/
structure Client (π : Type) where
  name : String
  proto : π
  chan : Nat
  /-- The ends of the session are sent, and the call is at its yield. -/
  sent : Bool

/-- The services, their channels, and the accepters and clients that use them. -/
structure State (π : Type) where
  services : AnyDict π (Inner π)
  chans : Nat → Unbounded.Channel Nat
  numChans : Nat
  /-- The accepters that were handed out and not dropped. -/
  accepters : List (Accepter π)
  clients : List (Client π)
  numConns : Nat
  /-- The connections sent through each channel. -/
  sent : Nat → List Nat
  /-- The connections accepted from each channel. -/
  accepted : Nat → List Nat
  /-- A call of `create_client` for the name has dropped its sender. -/
  finished : String → Bool
  /-- An accepter of the name was dropped. -/
  dropped : String → Bool
  /-- A `create_client` has failed beside a live accepter of the dual protocol. -/
  refused : Bool
  /-- A `create_server` has failed without a live accepter of the name. -/
  blocked : Bool

inductive Action (π : Type)
  | createServer (proto : π) (name : String)
  /-- `create_client` up to its sender. -/
  | createClient (proto : π) (name : String)
  | send (k : Nat)
  /-- `create_client` returns. -/
  | finish (k : Nat)
  /-- A call of `create_client` is dropped at its yield, or before it has sent. -/
  | dropClient (k : Nat)
  | accept (k : Nat) (waker : Waker)
  | dropAccepter (k : Nat)

namespace State

variable {π : Type}

def init : State π where
  services := .new
  chans _ := .new
  numChans := 0
  accepters := []
  clients := []
  numConns := 0
  sent _ := []
  accepted _ := []
  finished _ := false
  dropped _ := false
  refused := false
  blocked := false

/-- There is an accepter of the name with such a protocol, handed out or waiting in the entry. -/
def alive (σ : State π) (name : String) (p : π → Bool) : Bool :=
  σ.accepters.any (fun a => a.name == name && p a.proto) ||
    (σ.services.dict name).any fun v => v.2.accepter.isSome && p v.1

/-- The sender of a call of `create_client` is dropped. -/
def dropSender (σ : State π) (c : Client π) : State π :=
  { σ with
    chans := update σ.chans c.chan (σ.chans c.chan).dropSender.1
    finished := update σ.finished c.name true }

section

variable [DecidableEq π]

/-- `Services::create_server`. -/
def createServer (proto : π) (name : String) (σ : State π) : State π × Except String (Accepter π) :=
  match σ.services.get proto name with
  | .none =>
    -- `Inner::new_and_accepter`
    let accepter := ⟨name, proto, σ.numChans⟩
    ({ σ with
        numChans := σ.numChans + 1
        services := σ.services.insert name proto ⟨none, σ.numChans⟩
        accepters := σ.accepters ++ [accepter] },
      .ok accepter)
  | .ok inner =>
    match inner.accepter with
    | some accepter =>
      ({ σ with
          services := σ.services.insert name proto { inner with accepter := none }
          accepters := σ.accepters ++ [accepter] },
        .ok accepter)
    | none => (σ, .error "create_server: a server has been already created")
  | .typeError => (σ, .error "create_server: typing error")

/-- `Inner::get_sender`. -/
def getSender (inner : Inner π) (σ : State π) : Except String Nat :=
  if (σ.chans inner.sender).terminated then .error "channel has been terminated"
  else .ok inner.sender

/-- `Services::create_client`; `proto` is the protocol of the server. -/
def createClient (proto : π) (name : String) (σ : State π) : State π × Except String Nat :=
  match σ.services.get proto name with
  | .none =>
    -- `Inner::new`
    let inner := ⟨some ⟨name, proto, σ.numChans⟩, σ.numChans⟩
    ({ σ with
        numChans := σ.numChans + 1
        services := σ.services.insert name proto inner },
      σ.getSender inner)
  | .ok inner => (σ, σ.getSender inner)
  | .typeError => (σ, .error "create_client: typing error")

/-- A step; `none` if there is nobody to take it. -/
def step (σ : State π) : Action π → Option (State π)
  | .createServer proto name =>
    match σ.createServer proto name with
    | (σ', .ok _) => some σ'
    | (σ', .error _) =>
      some { σ' with blocked := σ.blocked || !σ.alive name fun _ => true }
  | .createClient proto name =>
    match σ.createClient proto name with
    | (σ', .ok chan) => some { σ' with clients := σ.clients ++ [⟨name, proto, chan, false⟩] }
    | (σ', .error _) => some { σ' with refused := σ.refused || σ.alive name (· == proto) }
  | .send k => do
    let c ← σ.clients[k]?
    if c.sent then none
    else
      match (σ.chans c.chan).sendNoYield σ.numConns with
      | (chan, _, true) =>
        some { σ with
          chans := update σ.chans c.chan chan
          numConns := σ.numConns + 1
          sent := update σ.sent c.chan (σ.sent c.chan ++ [σ.numConns])
          clients := σ.clients.set k { c with sent := true } }
      | (_, _, false) =>
        some { { σ with clients := σ.clients.eraseIdx k }.dropSender c with
          refused := σ.refused || σ.alive c.name (· == c.proto) }
  | .finish k => do
    let c ← σ.clients[k]?
    if c.sent then some ({ σ with clients := σ.clients.eraseIdx k }.dropSender c) else none
  | .dropClient k => do
    let c ← σ.clients[k]?
    some ({ σ with clients := σ.clients.eraseIdx k }.dropSender c)
  | .accept k waker => do
    let a ← σ.accepters[k]?
    match (σ.chans a.chan).pollRecv waker with
    | (chan, .ready (.ok conn)) =>
      some { σ with
        chans := update σ.chans a.chan chan
        accepted := update σ.accepted a.chan (σ.accepted a.chan ++ [conn]) }
    | (chan, _) => some { σ with chans := update σ.chans a.chan chan }
  | .dropAccepter k => do
    -- `drop_fn` is not called, and the receiver is dropped
    let a ← σ.accepters[k]?
    some { σ with
      accepters := σ.accepters.eraseIdx k
      chans := update σ.chans a.chan (σ.chans a.chan).dropReceiver
      dropped := update σ.dropped a.name true }

end

/-! ### What the services are for -/

/-- What clients and servers rely on. -/
structure Rendezvous (σ : State π) : Prop where
  /-- No `create_client` has failed beside a live accepter of the dual protocol. -/
  clients : σ.refused = false
  /-- No `create_server` has failed without a live accepter of the name. -/
  servers : σ.blocked = false
  /-- The connections are accepted in the order in which they were made, each once. -/
  inOrder : ∀ a ∈ σ.accepters, σ.accepted a.chan ++ (σ.chans a.chan).queue = σ.sent a.chan ∧
    (σ.sent a.chan).Nodup
  /-- `accept` returns the first connection that was not accepted. -/
  next : ∀ a ∈ σ.accepters, ∀ {conn}, σ.accepted a.chan ++ [conn] <+: σ.sent a.chan →
    ∀ waker, ((σ.chans a.chan).pollRecv waker).2 = .ready (.ok conn)

/-- While an accepter lives, no client gets or uses a sender after another one of the name has
dropped its own; and no server comes after an accepter of the name was dropped. -/
def ServesAll [DecidableEq π] (σ : State π) : Action π → Prop
  | .createServer _ name => σ.alive name (fun _ => true) = true ∨ σ.dropped name = false
  | .createClient proto name => σ.alive name (· == proto) = true → σ.finished name = false
  | .send k => ∀ c ∈ σ.clients[k]?,
      σ.alive c.name (· == c.proto) = true → σ.finished c.name = false
  | _ => True

/-! ### Entries -/

/-- What an entry knows about the accepters and the clients of its name. -/
structure EntryOk (σ : State π) (name : String) (proto : π) (inner : Inner π) : Prop where
  lt : inner.sender < σ.numChans
  /-- An accepter that waits in the entry is the only one. -/
  waiting : ∀ a ∈ inner.accepter, a = ⟨name, proto, inner.sender⟩ ∧
    (∀ a' ∈ σ.accepters, a'.name ≠ name) ∧ σ.dropped name = false
  held : ∀ a ∈ σ.accepters, a.name = name → a = ⟨name, proto, inner.sender⟩ ∧ σ.dropped name = false
  left : inner.accepter.isSome = true ∨ (∃ a ∈ σ.accepters, a.name = name) ∨ σ.dropped name = true
  client : ∀ c ∈ σ.clients, c.name = name → c.chan = inner.sender ∧ c.proto = proto
  /-- The channel is closed by a client that has dropped its sender, or with the accepter. -/
  terminated : (σ.chans inner.sender).terminated = true ↔
    σ.finished name = true ∨ σ.dropped name = true

/-- The services and their users. -/
structure Good (σ : State π) : Prop where
  entry : ∀ {name proto inner}, σ.services.dict name = some (proto, inner) →
    σ.EntryOk name proto inner
  absent : ∀ {name}, σ.services.dict name = none → (∀ a ∈ σ.accepters, a.name ≠ name) ∧
    (∀ c ∈ σ.clients, c.name ≠ name) ∧ σ.finished name = false ∧ σ.dropped name = false
  distinct : ∀ {name name' v v'}, σ.services.dict name = some v →
    σ.services.dict name' = some v' → v.2.sender = v'.2.sender → name = name'
  nodup : (σ.accepters.map Accepter.name).Nodup
  fresh : ∀ {k}, σ.numChans ≤ k → (σ.chans k).terminated = false
  inOrder : ∀ k, σ.accepted k ++ (σ.chans k).queue = σ.sent k
  conns : ∀ k, (σ.sent k).Nodup ∧ ∀ conn ∈ σ.sent k, conn < σ.numConns

variable {σ : State π} {name : String}

/-- An entry whose accepter, clients and channel a step leaves as they are. -/
theorem EntryOk.frame {σ' : State π} {proto : π} {inner : Inner π} (h : σ.EntryOk name proto inner)
    (hlt : σ.numChans ≤ σ'.numChans)
    (hacc : ∀ a : Accepter π, a.name = name → (a ∈ σ'.accepters ↔ a ∈ σ.accepters))
    (hclient : ∀ c ∈ σ'.clients, c.name = name →
      ∃ c' ∈ σ.clients, c'.name = name ∧ c'.chan = c.chan ∧ c'.proto = c.proto)
    (hterm : (σ'.chans inner.sender).terminated = (σ.chans inner.sender).terminated)
    (hfinished : σ'.finished name = σ.finished name)
    (hdropped : σ'.dropped name = σ.dropped name) : σ'.EntryOk name proto inner := by
  refine ⟨h.lt.trans_le hlt, fun a ha => ?_, fun a ha hname => ?_, ?_, fun c hc hname => ?_, ?_⟩
  · obtain ⟨heq, hnone, hdrop⟩ := h.waiting a ha
    exact ⟨heq, fun a' ha' hname => hnone a' ((hacc a' hname).mp ha') hname, hdropped.trans hdrop⟩
  · rw [hdropped]
    exact h.held a ((hacc a hname).mp ha) hname
  · rw [hdropped]
    refine h.left.imp_right (Or.imp_left ?_)
    rintro ⟨a, ha, hname⟩
    exact ⟨a, (hacc a hname).mpr ha, hname⟩
  · obtain ⟨c', hc', hname', hchan, hproto⟩ := hclient c hc hname
    obtain ⟨heq, heq'⟩ := h.client c' hc' hname'
    exact ⟨hchan.symm.trans heq, hproto.symm.trans heq'⟩
  · rw [hterm, hfinished, hdropped]
    exact h.terminated

/-- **An accepter of a name lives exactly if it has an entry and none was dropped.** -/
theorem Good.alive_iff (h : σ.Good) {proto : π} {inner : Inner π}
    (hdict : σ.services.dict name = some (proto, inner)) (p : π → Bool) :
    σ.alive name p = true ↔ p proto = true ∧ σ.dropped name = false := by
  have hentry := h.entry hdict
  unfold alive
  rw [hdict, Bool.or_eq_true, List.any_eq_true, Option.any_some, Bool.and_eq_true]
  constructor
  · rintro (⟨a, ha, hp⟩ | ⟨hsome, hp⟩)
    · rw [Bool.and_eq_true, beq_iff_eq] at hp
      obtain ⟨heq, hdrop⟩ := hentry.held a ha hp.1
      refine ⟨?_, hdrop⟩
      rw [heq] at hp
      exact hp.2
    · obtain ⟨a, ha⟩ := Option.isSome_iff_exists.mp hsome
      exact ⟨hp, (hentry.waiting a ha).2.2⟩
  · rintro ⟨hp, hdrop⟩
    rcases hentry.left with hsome | ⟨a, ha, hname⟩ | hdropped
    · exact .inr ⟨hsome, hp⟩
    · refine .inl ⟨a, ha, ?_⟩
      rw [Bool.and_eq_true, beq_iff_eq, (hentry.held a ha hname).1]
      exact ⟨rfl, hp⟩
    · cases hdrop.symm.trans hdropped

theorem Good.not_alive (h : σ.Good) (hdict : σ.services.dict name = none) (p : π → Bool) :
    σ.alive name p = false := by
  unfold alive
  rw [hdict, Option.any_none, Bool.or_false, List.any_eq_false]
  intro a ha hp
  rw [Bool.and_eq_true, beq_iff_eq] at hp
  exact (h.absent hdict).1 a ha hp.1

end State

end Service

end Awkernel
