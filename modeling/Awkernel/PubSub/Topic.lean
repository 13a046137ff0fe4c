import Awkernel.Lib.TransitionSystem
import Awkernel.PubSub.Subscriber

/-!
# A topic, its publishers and its subscribers

`awkernel_async_lib/src/pubsub.rs`: the publishers of a topic send to the subscribers
that are registered in `id_to_subscriber`. `Sender::poll` copies that map, then hands the
message to one subscriber after the other, and may be parked in the middle and polled
again later. Everything happens in critical sections (the reader-writer lock of the map,
the mutex of the send buffer, the mutex of a subscriber), and the steps of this model are
these sections, so a run is an interleaving of any number of send futures and receivers.

* `Action.poll f w` starts a poll of the send future `f` with the waker `w`, at any time it
  is not being polled, woken or not; `Action.send f` runs the next section of that poll.
  `Action.dropSend f` drops the future.
* `Action.recv s w` is a poll of `Receiver`, `Action.tryRecv s` a call to `try_recv`.
* `Action.createSubscriber` copies the send buffer and `Action.insertSubscriber` registers
  the new subscriber; both run under the lock of `PUBLISH_SUBSCRIBE`, as does
  `destroy_subscriber` (`Action.removeSubscriber`, `Action.closeSubscriber`).
  `Action.cloneSubscriber` is `Subscriber::clone`.

The keys of `id_to_subscriber` are addresses, so the place of a new subscriber among the
others is an input. The subscribers themselves are numbered in the order of their
creation. A send future holds the read lock from its copy of the map to its write to
the send buffer, which is what `readers` counts.

`woken` records, for a send future or a receiver, that the waker of its last poll has been
woken since that poll returned `Poll::Pending`. `log` lists what has happened; no step
reads it.
-/

namespace Awkernel

open TransitionSystem Option Function

/-- A subscriber, numbered in the order of creation. -/
abbrev SubId := Nat

/-- A send future, numbered in the order of creation. -/
abbrev SendId := Nat

/-- `SenderState`. -/
inductive SenderState
  | start
  | wait
  | finished
  deriving DecidableEq

/-- Where the poll of a send future is. -/
inductive PollPc
  | idle
  /-- At the head of the loop of `Sender::poll`. -/
  | polling (waker : Waker)
  /-- In the state `Start`, about to store the message in the send buffer. -/
  | storing (waker : Waker)
  deriving DecidableEq

/-- `Sender<T>`, with the waker of its last poll. -/
structure Sender (T : Type) where
  publisher : Nat
  data : T
  subscribers : List SubId
  state : SenderState
  timestamp : Nat
  pc : PollPc
  waker : Option Waker
  woken : Bool

/-- `Receiver<T>`: `waker` is the waker of the last poll if that returned `Poll::Pending`. -/
structure Receiver where
  waker : Option Waker
  woken : Bool

/-- The life of a `Subscriber<T>`. -/
inductive HandleState
  | creating
  | live
  | dropping
  | dropped
  deriving DecidableEq

/-- What has happened. -/
inductive Event (T : Type)
  | registered (s : SubId)
  /-- A send has taken its list of subscribers. -/
  | started (data : T)
  | pushed (s : SubId) (data : T)
  | received (s : SubId) (data : T)
  | completed (data : T)

/-- `Subscribers<T>`, with the subscribers and the send futures. -/
structure Topic (T : Type) where
  attr : Attribute
  now : Nat
  idToSubscriber : List SubId
  senderBuf : Option (RingQ (Data T))
  readers : Nat
  /-- The subscriber for which `PUBLISH_SUBSCRIBE` is locked. -/
  publishSubscribe : Option SubId
  numSubscribers : Nat
  inner : SubId → InnerSubscriber T
  receiver : SubId → Receiver
  handle : SubId → HandleState
  numSends : Nat
  send : SendId → Option (Sender T)
  log : List (Event T)

inductive TopicAction (T : Type)
  | advance (nanos : Nat)
  | newSend (publisher : Nat) (data : T)
  | poll (f : SendId) (waker : Waker)
  | send (f : SendId)
  | dropSend (f : SendId)
  | recv (s : SubId) (waker : Waker)
  | tryRecv (s : SubId)
  | createSubscriber
  | insertSubscriber (pos : Nat)
  | cloneSubscriber (pos : Nat)
  | removeSubscriber (s : SubId)
  | closeSubscriber (s : SubId)

variable {T : Type}

/-- `waker.wake()` for each of `woken`, as a send future notices it. -/
def Sender.notify (woken : List Waker) (x : Sender T) : Sender T :=
  { x with woken := x.woken || x.waker.any (· ∈ woken) }

/-- As a receiver notices it. -/
def Receiver.notify (woken : List Waker) (r : Receiver) : Receiver :=
  { r with woken := r.woken || r.waker.any (· ∈ woken) }

/-- A `push` that removes the oldest element when there is no room. -/
def RingQ.forcePush {α : Type} (queue : RingQ α) (data : α) : RingQ α :=
  match queue.push data with
  | .ok queue' => queue'
  | .error data =>
    match queue.pop.2.push data with
    | .ok queue' => queue'
    | .error _ => queue.pop.2

/-- The loop of `create_subscriber` over the send buffer; the result of `push` is ignored. -/
def RingQ.copyFrom {α : Type} (queue : RingQ α) (data : List α) : RingQ α :=
  data.foldl (fun queue d => match queue.push d with
    | .ok queue' => queue'
    | .error _ => queue) queue

namespace Topic

/-- `Subscribers::new`, before any subscriber is registered. -/
def init (attr : Attribute) : Topic T where
  attr := attr
  now := 0
  idToSubscriber := []
  senderBuf := if attr.transientLocal then some (.new attr.queueSize) else none
  readers := 0
  publishSubscribe := none
  numSubscribers := 0
  inner _ := .new attr.queueSize
  receiver _ := ⟨none, false⟩
  handle _ := .dropped
  numSends := 0
  send _ := none
  log := []

def setSend (σ : Topic T) (f : SendId) (x : Sender T) : Topic T :=
  { σ with send := update σ.send f (some x) }

def setInner (σ : Topic T) (s : SubId) (inner : InnerSubscriber T) : Topic T :=
  { σ with inner := update σ.inner s inner }

def setReceiver (σ : Topic T) (s : SubId) (receiver : Receiver) : Topic T :=
  { σ with receiver := update σ.receiver s receiver }

def setHandle (σ : Topic T) (s : SubId) (h : HandleState) : Topic T :=
  { σ with handle := update σ.handle s h }

def record (σ : Topic T) (e : Event T) : Topic T := { σ with log := σ.log ++ [e] }

/-- The wakers `woken` are called. -/
def wake (σ : Topic T) (woken : List Waker) : Topic T :=
  { σ with
    send := fun f => (σ.send f).map (Sender.notify woken)
    receiver := fun s => (σ.receiver s).notify woken }

/-- `SenderState::Start`, under the read lock: copy the map. The lock is kept if the message
goes to the send buffer. -/
def snapshot (σ : Topic T) (f : SendId) (x : Sender T) (waker : Waker) : Topic T :=
  let x := { x with subscribers := x.subscribers ++ σ.idToSubscriber }
  let σ := σ.record (.started x.data)
  if σ.attr.transientLocal && σ.senderBuf.isSome then
    { σ with readers := σ.readers + 1 }.setSend f { x with pc := .storing waker }
  else σ.setSend f { x with state := .wait }

/-- `SenderState::Start`, under the lock of the send buffer. -/
def store (σ : Topic T) (f : SendId) (x : Sender T) (waker : Waker) : Option (Topic T) :=
  σ.senderBuf.map fun buf =>
    { σ with
      senderBuf := some (buf.forcePush ⟨σ.now, x.data⟩)
      readers := σ.readers - 1 }.setSend f { x with state := .wait, pc := .polling waker }

/-- `SenderState::Wait`: the next subscriber, or the end. -/
def deliver (σ : Topic T) (f : SendId) (x : Sender T) (waker : Waker) : Option (Topic T) :=
  match x.subscribers with
  | [] => some ((σ.setSend f { x with state := .finished, pc := .idle }).record (.completed x.data))
  | s :: rest =>
    ((σ.inner s).visit σ.attr σ.now waker ⟨x.timestamp, x.data⟩).map fun (inner, woken, v) =>
      match v with
      | .closed => σ.setSend f { x with subscribers := rest }
      | .parked => (σ.setInner s inner).setSend f { x with pc := .idle, woken := false }
      | .pushed =>
        (((σ.setInner s inner).setSend f { x with subscribers := rest }).record
          (.pushed s x.data)).wake woken

/-- The next critical section of the poll of `f`. -/
def sendStep (σ : Topic T) (f : SendId) (x : Sender T) : Option (Topic T) :=
  match x.pc with
  | .idle => none
  | .storing waker => σ.store f x waker
  | .polling waker =>
    match x.state with
    | .start => some (σ.snapshot f x waker)
    | .wait => σ.deliver f x waker
    | .finished => some (σ.setSend f { x with pc := .idle })

/-- What is left of a receive: the receiver's task goes on with `result`. -/
def afterRecv (σ : Topic T) (s : SubId) (inner : InnerSubscriber T) (woken : List Waker)
    (result : Option (Data T)) : Topic T :=
  let σ := σ.setInner s inner
  let σ := match result with
    | some d => σ.record (.received s d.data)
    | none => σ
  σ.wake woken

/-- The state of the receiver after `recv_or_register_waker`. -/
def receiverAfter (waker : Waker) : Option (Data T) → Receiver
  | some _ => ⟨none, false⟩
  | none => ⟨some waker, false⟩

/-- A new `InnerSubscriber` with the messages of the send buffer. -/
def newInner (σ : Topic T) : Option (InnerSubscriber T) :=
  match σ.attr.transientLocal, σ.senderBuf with
  | true, some buf => buf.iter.map fun data =>
      { (.new σ.attr.queueSize : InnerSubscriber T) with
        queue := (RingQ.new σ.attr.queueSize).copyFrom data }
  | _, _ => some (.new σ.attr.queueSize)

def step (σ : Topic T) : TopicAction T → Option (Topic T)
  | .advance nanos => some { σ with now := σ.now + nanos }
  | .newSend publisher data =>
    some ({ σ with numSends := σ.numSends + 1 }.setSend σ.numSends
      { publisher := publisher, data := data, subscribers := [], state := .start,
        timestamp := σ.now, pc := .idle, waker := none, woken := false })
  | .poll f waker => (σ.send f).bind fun x =>
      if x.pc = .idle then
        some (σ.setSend f { x with pc := .polling waker, waker := some waker })
      else none
  | .send f => (σ.send f).bind (σ.sendStep f)
  | .dropSend f => (σ.send f).bind fun x =>
      if x.pc = .idle then some { σ with send := update σ.send f none } else none
  | .recv s waker =>
    if σ.handle s = .live then
      ((σ.inner s).recvOrRegisterWaker σ.attr.lifespan σ.now waker).map fun (inner, woken, r) =>
        (σ.setReceiver s (receiverAfter waker r)).afterRecv s inner woken r
    else none
  | .tryRecv s =>
    if σ.handle s = .live then
      ((σ.inner s).tryRecv σ.attr.lifespan σ.now).map fun (inner, woken, r) =>
        σ.afterRecv s inner woken r
    else none
  | .createSubscriber =>
    if σ.publishSubscribe = none then
      σ.newInner.map fun inner =>
        ({ σ with
            numSubscribers := σ.numSubscribers + 1
            publishSubscribe := some σ.numSubscribers }.setInner σ.numSubscribers inner).setHandle
          σ.numSubscribers .creating
    else none
  | .insertSubscriber pos => σ.publishSubscribe.bind fun s =>
      if σ.handle s = .creating ∧ σ.readers = 0 then
        some (({ σ with
          idToSubscriber := σ.idToSubscriber.insertIdx (min pos σ.idToSubscriber.length) s
          publishSubscribe := none }.setHandle s .live).record (.registered s))
      else none
  | .cloneSubscriber pos =>
    if σ.readers = 0 then
      some ((({ σ with
        numSubscribers := σ.numSubscribers + 1
        idToSubscriber :=
          σ.idToSubscriber.insertIdx (min pos σ.idToSubscriber.length) σ.numSubscribers }.setInner
            σ.numSubscribers (.new σ.attr.queueSize)).setHandle σ.numSubscribers .live).record
              (.registered σ.numSubscribers))
    else none
  | .removeSubscriber s =>
    if σ.handle s = .live ∧ σ.publishSubscribe = none ∧ σ.readers = 0 then
      some ({ σ with
        idToSubscriber := σ.idToSubscriber.erase s
        publishSubscribe := some s }.setHandle s .dropping)
    else none
  | .closeSubscriber s =>
    if σ.handle s = .dropping then
      let (inner, woken) := (σ.inner s).close
      some (({ σ with publishSubscribe := none }.setInner s inner).setHandle s .dropped
        |>.wake woken)
    else none

/-- The steps of a topic. -/
inductive Case (σ : Topic T) : TopicAction T → Topic T → Prop
  | advance (nanos : Nat) : Case σ (.advance nanos) { σ with now := σ.now + nanos }
  | newSend (publisher : Nat) (data : T) : Case σ (.newSend publisher data)
      ({ σ with numSends := σ.numSends + 1 }.setSend σ.numSends
        { publisher := publisher, data := data, subscribers := [], state := .start,
          timestamp := σ.now, pc := .idle, waker := none, woken := false })
  | poll {f : SendId} {x : Sender T} (waker : Waker) (hx : σ.send f = some x)
      (hpc : x.pc = .idle) : Case σ (.poll f waker)
        (σ.setSend f { x with pc := .polling waker, waker := some waker })
  | snapshot {f : SendId} {x : Sender T} {waker : Waker} (hx : σ.send f = some x)
      (hpc : x.pc = .polling waker) (hstate : x.state = .start) :
      Case σ (.send f) (σ.snapshot f x waker)
  | store {f : SendId} {x : Sender T} {waker : Waker} {buf : RingQ (Data T)}
      (hx : σ.send f = some x) (hpc : x.pc = .storing waker) (hbuf : σ.senderBuf = some buf) :
      Case σ (.send f) ({ σ with
        senderBuf := some (buf.forcePush ⟨σ.now, x.data⟩)
        readers := σ.readers - 1 }.setSend f { x with state := .wait, pc := .polling waker })
  | complete {f : SendId} {x : Sender T} {waker : Waker} (hx : σ.send f = some x)
      (hpc : x.pc = .polling waker) (hstate : x.state = .wait) (hsubs : x.subscribers = []) :
      Case σ (.send f)
        ((σ.setSend f { x with state := .finished, pc := .idle }).record (.completed x.data))
  | skip {f : SendId} {x : Sender T} {waker : Waker} {s : SubId} {rest : List SubId}
      {inner : InnerSubscriber T} {woken : List Waker}
      (hx : σ.send f = some x) (hpc : x.pc = .polling waker) (hstate : x.state = .wait)
      (hsubs : x.subscribers = s :: rest)
      (hvisit : (σ.inner s).visit σ.attr σ.now waker ⟨x.timestamp, x.data⟩ =
        some (inner, woken, .closed)) :
      Case σ (.send f) (σ.setSend f { x with subscribers := rest })
  | park {f : SendId} {x : Sender T} {waker : Waker} {s : SubId} {rest : List SubId}
      {inner : InnerSubscriber T} {woken : List Waker}
      (hx : σ.send f = some x) (hpc : x.pc = .polling waker) (hstate : x.state = .wait)
      (hsubs : x.subscribers = s :: rest)
      (hvisit : (σ.inner s).visit σ.attr σ.now waker ⟨x.timestamp, x.data⟩ =
        some (inner, woken, .parked)) :
      Case σ (.send f) ((σ.setInner s inner).setSend f { x with pc := .idle, woken := false })
  | push {f : SendId} {x : Sender T} {waker : Waker} {s : SubId} {rest : List SubId}
      {inner : InnerSubscriber T} {woken : List Waker}
      (hx : σ.send f = some x) (hpc : x.pc = .polling waker) (hstate : x.state = .wait)
      (hsubs : x.subscribers = s :: rest)
      (hvisit : (σ.inner s).visit σ.attr σ.now waker ⟨x.timestamp, x.data⟩ =
        some (inner, woken, .pushed)) :
      Case σ (.send f) ((((σ.setInner s inner).setSend f { x with subscribers := rest }).record
        (.pushed s x.data)).wake woken)
  /-- A poll of a future that has finished. -/
  | again {f : SendId} {x : Sender T} {waker : Waker} (hx : σ.send f = some x)
      (hpc : x.pc = .polling waker) (hstate : x.state = .finished) :
      Case σ (.send f) (σ.setSend f { x with pc := .idle })
  | dropSend {f : SendId} {x : Sender T} (hx : σ.send f = some x) (hpc : x.pc = .idle) :
      Case σ (.dropSend f) { σ with send := update σ.send f none }
  | recv {s : SubId} {waker : Waker} {inner : InnerSubscriber T} {woken : List Waker}
      {result : Option (Data T)} (hlive : σ.handle s = .live)
      (hrecv : (σ.inner s).recvOrRegisterWaker σ.attr.lifespan σ.now waker =
        some (inner, woken, result)) :
      Case σ (.recv s waker)
        ((σ.setReceiver s (receiverAfter waker result)).afterRecv s inner woken result)
  | tryRecv {s : SubId} {inner : InnerSubscriber T} {woken : List Waker}
      {result : Option (Data T)} (hlive : σ.handle s = .live)
      (hrecv : (σ.inner s).tryRecv σ.attr.lifespan σ.now = some (inner, woken, result)) :
      Case σ (.tryRecv s) (σ.afterRecv s inner woken result)
  | createSubscriber {inner : InnerSubscriber T} (hlock : σ.publishSubscribe = none)
      (hinner : σ.newInner = some inner) : Case σ .createSubscriber (({ σ with
            numSubscribers := σ.numSubscribers + 1
            publishSubscribe := some σ.numSubscribers }.setInner σ.numSubscribers inner).setHandle
          σ.numSubscribers .creating)
  | insertSubscriber {s : SubId} (pos : Nat) (hlock : σ.publishSubscribe = some s)
      (hhandle : σ.handle s = .creating) (hreaders : σ.readers = 0) :
      Case σ (.insertSubscriber pos) (({ σ with
          idToSubscriber := σ.idToSubscriber.insertIdx (min pos σ.idToSubscriber.length) s
          publishSubscribe := none }.setHandle s .live).record (.registered s))
  | cloneSubscriber (pos : Nat) (hreaders : σ.readers = 0) : Case σ (.cloneSubscriber pos)
      ((({ σ with
        numSubscribers := σ.numSubscribers + 1
        idToSubscriber :=
          σ.idToSubscriber.insertIdx (min pos σ.idToSubscriber.length) σ.numSubscribers }.setInner
            σ.numSubscribers (.new σ.attr.queueSize)).setHandle σ.numSubscribers .live).record
              (.registered σ.numSubscribers))
  | removeSubscriber {s : SubId} (hlive : σ.handle s = .live)
      (hlock : σ.publishSubscribe = none) (hreaders : σ.readers = 0) :
      Case σ (.removeSubscriber s) ({ σ with
        idToSubscriber := σ.idToSubscriber.erase s
        publishSubscribe := some s }.setHandle s .dropping)
  | closeSubscriber {s : SubId} (hhandle : σ.handle s = .dropping) :
      Case σ (.closeSubscriber s)
        ((({ σ with publishSubscribe := none }.setInner s (σ.inner s).close.1).setHandle s
          .dropped).wake (σ.inner s).close.2)

theorem sendStep_cases {σ σ' : Topic T} {f : SendId} {x : Sender T} (hx : σ.send f = some x)
    (h : σ.sendStep f x = some σ') : Case σ (.send f) σ' := by
  unfold sendStep at h
  split at h
  · cases h
  · next waker hpc =>
    obtain ⟨buf, hbuf, rfl⟩ := map_eq_some_iff.mp h
    exact .store hx hpc hbuf
  rename_i waker hpc
  split at h
  · next hstate =>
    cases h
    exact .snapshot hx hpc hstate
  · next hstate =>
    unfold deliver at h
    split at h
    · next hsubs =>
      cases h
      exact .complete hx hpc hstate hsubs
    rename_i s rest hsubs
    obtain ⟨⟨inner, woken, v⟩, hvisit, rfl⟩ := map_eq_some_iff.mp h
    cases v with
    | closed => exact .skip hx hpc hstate hsubs hvisit
    | parked => exact .park hx hpc hstate hsubs hvisit
    | pushed => exact .push hx hpc hstate hsubs hvisit
  · next hstate =>
    cases h
    exact .again hx hpc hstate

/-- **Inversion of a step.** -/
theorem step_cases {σ σ' : Topic T} {a : TopicAction T} (h : σ.step a = some σ') : Case σ a σ' := by
  cases a with
  | advance nanos => cases h; exact .advance nanos
  | newSend publisher data => cases h; exact .newSend publisher data
  | poll f waker =>
    obtain ⟨x, hx, h⟩ := bind_eq_some_iff.mp h
    split at h
    · next hpc => cases h; exact .poll waker hx hpc
    · cases h
  | send f =>
    obtain ⟨x, hx, h⟩ := bind_eq_some_iff.mp h
    exact sendStep_cases hx h
  | dropSend f =>
    obtain ⟨x, hx, h⟩ := bind_eq_some_iff.mp h
    split at h
    · next hpc => cases h; exact .dropSend hx hpc
    · cases h
  | recv s waker =>
    simp only [step] at h
    split at h
    · next hlive =>
      obtain ⟨⟨inner, woken, r⟩, hrecv, rfl⟩ := map_eq_some_iff.mp h
      exact .recv hlive hrecv
    · cases h
  | tryRecv s =>
    simp only [step] at h
    split at h
    · next hlive =>
      obtain ⟨⟨inner, woken, r⟩, hrecv, rfl⟩ := map_eq_some_iff.mp h
      exact .tryRecv hlive hrecv
    · cases h
  | createSubscriber =>
    simp only [step] at h
    split at h
    · next hlock =>
      obtain ⟨inner, hinner, rfl⟩ := map_eq_some_iff.mp h
      exact .createSubscriber hlock hinner
    · cases h
  | insertSubscriber pos =>
    obtain ⟨s, hlock, h⟩ := bind_eq_some_iff.mp h
    obtain ⟨hcond, ⟨⟩⟩ := ite_none_right_eq_some.mp h
    exact .insertSubscriber pos hlock hcond.1 hcond.2
  | cloneSubscriber pos =>
    simp only [step] at h
    split at h
    · next hreaders => cases h; exact .cloneSubscriber pos hreaders
    · cases h
  | removeSubscriber s =>
    obtain ⟨hcond, ⟨⟩⟩ := ite_none_right_eq_some.mp h
    exact .removeSubscriber hcond.1 hcond.2.1 hcond.2.2
  | closeSubscriber s =>
    simp only [step] at h
    split at h
    · next hhandle => cases h; exact .closeSubscriber hhandle
    · cases h

/-- The states reached from a new topic by steps that all satisfy `ok`. -/
abbrev Reachable (attr : Attribute) (ok : Topic T → TopicAction T → Prop) : Topic T → Prop :=
  Reaches step ok (init attr)

end Topic

end Awkernel
