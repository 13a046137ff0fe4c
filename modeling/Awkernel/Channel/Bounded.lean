import Awkernel.Lib.TransitionSystem
import Awkernel.PubSub.Subscriber

/-!
# The bounded channel

`awkernel_async_lib/src/channel/bounded.rs`: one sender and one receiver share a `Channel`
behind a mutex. Every operation is one critical section of that mutex:

* `trySend`, `pollSend` — `Sender::try_send` and `AsyncSender::poll`;
* `tryRecv`, `pollRecv` — `Receiver::try_recv` and `AsyncReceiver::poll`;
* `dropSender`, `dropReceiver`.

A section returns the new channel, the wakers it called `wake` on and its result; `none` is a
panic (an assertion after `push`, or the index in `RingQ::head`). `uptime()` is read once per
section, in microseconds; the time stamp of a message is read before the section in which the
message is handed over.

`State` adds the two ends and the send futures. `send(&self)` may be called again before an
earlier call has returned, so that there are any number of send futures; they borrow the
sender, which is dropped after them. A receive future has no state of its own. What has been
accepted, returned and received is recorded from the results of the sections, and no step reads
the records.
-/

namespace Awkernel

open TransitionSystem RingQ Function
open Option hiding length_toList

namespace Bounded

/-- `bounded::Attribute`. -/
structure Attribute where
  queueSize : Nat
  flowControl : Bool
  lifespan : Lifespan
  deriving DecidableEq

/-- `ChannelData<T>`; the time stamp is in microseconds. -/
structure ChannelData (T : Type) where
  timeStamp : Nat
  data : T
  deriving DecidableEq

/-- The test of `garbage_collect`, for a span in nanoseconds. -/
def ChannelData.expired {T : Type} (span now : Nat) (d : ChannelData T) : Bool :=
  d.timeStamp ≤ now && span / 1000 % 2 ^ 64 ≤ now - d.timeStamp

/-- `Channel<T>`. -/
structure Channel (T : Type) where
  queue : RingQ (ChannelData T)
  wakerReceiver : Option Waker
  wakerSender : Option Waker
  terminated : Bool
  attr : Attribute

inductive SendErr
  | channelClosed
  | full
  deriving DecidableEq

inductive RecvErr
  | channelClosed
  | noData
  deriving DecidableEq

namespace Channel

variable {T : Type}

/-- `bounded::new`. -/
def new (attr : Attribute) : Channel T where
  queue := .new attr.queueSize
  wakerReceiver := none
  wakerSender := none
  terminated := false
  attr := attr

/-- `Channel::garbage_collect`. -/
def garbageCollect (now : Nat) (chan : Channel T) : Option (Channel T) :=
  match chan.attr.lifespan with
  | .permanent => some chan
  | .span span =>
    (chan.queue.popWhile (·.expired span now) (chan.queue.len + 1)).map fun queue =>
      { chan with queue := queue }

/-- `assert!(matches!(chan.queue.push(data), Ok(())))`. -/
def pushAssert (chan : Channel T) (data : ChannelData T) : Option (Channel T) :=
  match chan.queue.push data with
  | .ok queue => some { chan with queue := queue }
  | .error _ => none

/-- `Sender::try_send`. -/
def trySend (now : Nat) (data : ChannelData T) (chan : Channel T) :
    Option (Channel T × List Waker × Except SendErr Unit) :=
  if chan.terminated then some (chan, [], .error .channelClosed)
  else do
    let chan ← chan.garbageCollect now
    if chan.queue.isFull && chan.attr.flowControl then some (chan, [], .error .full)
    else
      let chan := if chan.queue.isFull then { chan with queue := chan.queue.pop.2 } else chan
      let chan ← chan.pushAssert data
      some ({ chan with wakerReceiver := none }, chan.wakerReceiver.toList, .ok ())

/-- `AsyncSender::poll`; the value is `need_yield`. -/
def pollSend (now : Nat) (waker : Waker) (data : ChannelData T) (chan : Channel T) :
    Option (Channel T × List Waker × Poll (Except SendErr Bool)) :=
  if chan.terminated then some (chan, [], .ready (.error .channelClosed))
  else do
    let chan ← chan.garbageCollect now
    if chan.queue.isFull && chan.attr.flowControl then
      some ({ chan with wakerSender := some waker }, [], .pending)
    else
      let chan := if chan.queue.isFull then { chan with queue := chan.queue.pop.2 } else chan
      let woken := chan.wakerReceiver.toList
      let chan ← { chan with wakerReceiver := none }.pushAssert data
      some (chan, woken, .ready (.ok (chan.queue.queueSize >>> 2 < chan.queue.len)))

/-- `Receiver::try_recv`. -/
def tryRecv (now : Nat) (chan : Channel T) :
    Option (Channel T × List Waker × Except RecvErr T) := do
  let chan ← chan.garbageCollect now
  match chan.queue.pop with
  | (some data, queue) => some ({ chan with queue := queue }, [], .ok data.data)
  | (none, queue) =>
    some ({ chan with queue := queue }, [],
      .error (if chan.terminated then .channelClosed else .noData))

/-- `AsyncReceiver::poll`. -/
def pollRecv (now : Nat) (waker : Waker) (chan : Channel T) :
    Option (Channel T × List Waker × Poll (Except RecvErr T)) := do
  let chan ← chan.garbageCollect now
  match chan.queue.pop with
  | (some data, queue) =>
    some ({ chan with queue := queue, wakerSender := none }, chan.wakerSender.toList,
      .ready (.ok data.data))
  | (none, queue) =>
    if chan.terminated then
      some ({ chan with queue := queue }, [], .ready (.error .channelClosed))
    else some ({ chan with queue := queue, wakerReceiver := some waker }, [], .pending)

/-- `Sender::drop`. -/
def dropSender (chan : Channel T) : Channel T × List Waker :=
  ({ chan with terminated := true, wakerSender := none, wakerReceiver := none },
    chan.wakerReceiver.toList)

/-- `Receiver::drop`. -/
def dropReceiver (chan : Channel T) : Channel T × List Waker :=
  ({ chan with terminated := true, wakerReceiver := none, wakerSender := none },
    chan.wakerSender.toList)

/-! ### What the sections do -/

/-- The messages in the queue, oldest first. -/
def items (chan : Channel T) : List (ChannelData T) := chan.queue.toList

/-- The capacity of the queue. -/
def size (chan : Channel T) : Nat := chan.queue.queueSize

/-- The messages that a garbage collection leaves. -/
def unexpired (now : Nat) (chan : Channel T) : List (ChannelData T) :=
  match chan.attr.lifespan with
  | .permanent => chan.items
  | .span span => chan.items.dropWhile fun d => d.expired span now

theorem length_items_le (chan : Channel T) : chan.items.length ≤ chan.size := by
  unfold items
  rw [length_toList]
  exact chan.queue.len_le

theorem unexpired_suffix (now : Nat) (chan : Channel T) : chan.unexpired now <:+ chan.items := by
  unfold unexpired
  split
  · exact List.suffix_rfl
  · exact List.dropWhile_suffix _

variable {chan : Channel T}

theorem unexpired_of_permanent (h : chan.attr.lifespan = .permanent) (now : Nat) :
    chan.unexpired now = chan.items := by
  unfold unexpired
  rw [h]

/-- `garbage_collect` leaves the unexpired messages, and touches nothing else. -/
theorem garbageCollect_spec (hsize : 0 < chan.size) (now : Nat) :
    ∃ queue, chan.garbageCollect now = some { chan with queue := queue } ∧
      queue.toList = chan.unexpired now ∧ queue.queueSize = chan.size := by
  unfold garbageCollect unexpired
  split
  · exact ⟨chan.queue, rfl, rfl, rfl⟩
  rename_i span _
  obtain ⟨queue, hloop, hitems, hsame⟩ :=
    popWhile_spec (·.expired span now) hsize (Nat.lt_add_one chan.queue.len)
  exact ⟨queue, by rw [hloop]; rfl, hitems, hsame⟩

/-- What no section but a drop changes. -/
structure Frame (chan chan' : Channel T) : Prop where
  size : chan'.size = chan.size
  attr : chan'.attr = chan.attr
  terminated : chan'.terminated = chan.terminated

/-- A message is handed over. -/
structure Pushed (now : Nat) (data : ChannelData T) (chan chan' : Channel T)
    (woken : List Waker) : Prop where
  running : chan.terminated = false
  room : (chan.unexpired now).length < chan.size
  items : chan'.items = chan.unexpired now ++ [data]
  wakerReceiver : chan'.wakerReceiver = none
  woken : woken = chan.wakerReceiver.toList
  wakerSender : chan'.wakerSender = chan.wakerSender

/-- The queue is full also after the garbage collection. -/
structure Full (now : Nat) (chan chan' : Channel T) : Prop where
  running : chan.terminated = false
  full : (chan.unexpired now).length = chan.size
  items : chan'.items = chan.unexpired now
  wakerReceiver : chan'.wakerReceiver = chan.wakerReceiver

theorem isFull_iff {queue : RingQ (ChannelData T)} :
    queue.isFull = true ↔ queue.toList.length = queue.queueSize := by
  unfold isFull
  rw [decide_eq_true_iff, length_toList]
  exact ⟨fun h => Nat.le_antisymm queue.len_le h, fun h => h.ge⟩

theorem push_of_not_full {queue : RingQ (ChannelData T)} (h : queue.isFull = false)
    (data : ChannelData T) : ∃ queue', queue.push data = .ok queue' ∧
      queue.toList.length < queue.queueSize ∧ queue'.toList = queue.toList ++ [data] ∧
      queue'.queueSize = queue.queueSize := by
  have hroom : queue.len < queue.queueSize := by
    refine lt_of_le_of_ne queue.len_le fun heq => Bool.false_ne_true ?_
    exact h.symm.trans (isFull_iff.mpr (queue.length_toList.trans heq))
  obtain ⟨queue', hpush⟩ := exists_push_eq_ok hroom data
  obtain ⟨-, hitems, hsize⟩ := push_eq_ok hpush
  exact ⟨queue', hpush, by rw [queue.length_toList]; exact hroom, hitems, hsize⟩

/-- The outcomes of `AsyncSender::poll` with flow control. -/
inductive PollSendCase (now : Nat) (waker : Waker) (data : ChannelData T)
    (chan chan' : Channel T) : List Waker → Poll (Except SendErr Bool) → Prop
  | closed :
      chan.terminated = true →
      chan' = chan →
      PollSendCase now waker data chan chan' [] (.ready (.error .channelClosed))
  | parked :
      Full now chan chan' →
      chan'.wakerSender = some waker →
      PollSendCase now waker data chan chan' [] .pending
  | pushed {woken : List Waker} {needYield : Bool} :
      Pushed now data chan chan' woken →
      PollSendCase now waker data chan chan' woken (.ready (.ok needYield))

/-- **`AsyncSender::poll`** does not panic, and has one of three outcomes. -/
theorem pollSend_cases (hsize : 0 < chan.size) (hflow : chan.attr.flowControl = true) (now : Nat)
    (waker : Waker) (data : ChannelData T) :
    ∃ chan' woken result, chan.pollSend now waker data = some (chan', woken, result) ∧
      PollSendCase now waker data chan chan' woken result ∧ chan.Frame chan' := by
  obtain ⟨queue, hgc, hitems, hsame⟩ := garbageCollect_spec hsize now
  unfold pollSend
  cases hterm : chan.terminated with
  | true => exact ⟨chan, _, _, rfl, .closed hterm rfl, rfl, rfl, rfl⟩
  | false =>
    rw [if_neg Bool.false_ne_true, hgc, bind_eq_bind, bind_some]
    cases hfull : queue.isFull with
    | true =>
      have hlen := isFull_iff.mp hfull
      rw [hitems, hsame] at hlen
      rw [hflow, if_pos rfl]
      exact ⟨_, _, _, rfl, .parked ⟨hterm, hlen, hitems, rfl⟩ rfl, hsame, rfl, rfl⟩
    | false =>
      obtain ⟨queue', hpush, hroom, hitems', hsize'⟩ := push_of_not_full hfull data
      rw [hitems] at hroom hitems'
      rw [hsame] at hroom
      rw [Bool.false_and, if_neg Bool.false_ne_true, if_neg Bool.false_ne_true]
      unfold pushAssert
      dsimp only
      rw [hpush]
      exact ⟨_, _, _, rfl, .pushed ⟨hterm, hroom, hitems', rfl, rfl, rfl⟩, hsize'.trans hsame, rfl,
        rfl⟩

/-- The outcomes of `try_send` with flow control. -/
inductive TrySendCase (now : Nat) (data : ChannelData T) (chan chan' : Channel T) :
    List Waker → Except SendErr Unit → Prop
  | closed :
      chan.terminated = true →
      chan' = chan →
      TrySendCase now data chan chan' [] (.error .channelClosed)
  | full :
      Full now chan chan' →
      chan'.wakerSender = chan.wakerSender →
      TrySendCase now data chan chan' [] (.error .full)
  | pushed {woken : List Waker} :
      Pushed now data chan chan' woken →
      TrySendCase now data chan chan' woken (.ok ())

/-- **`try_send`** does not panic, and has one of three outcomes. -/
theorem trySend_cases (hsize : 0 < chan.size) (hflow : chan.attr.flowControl = true) (now : Nat)
    (data : ChannelData T) :
    ∃ chan' woken result, chan.trySend now data = some (chan', woken, result) ∧
      TrySendCase now data chan chan' woken result ∧ chan.Frame chan' := by
  obtain ⟨queue, hgc, hitems, hsame⟩ := garbageCollect_spec hsize now
  unfold trySend
  cases hterm : chan.terminated with
  | true => exact ⟨chan, _, _, rfl, .closed hterm rfl, rfl, rfl, rfl⟩
  | false =>
    rw [if_neg Bool.false_ne_true, hgc, bind_eq_bind, bind_some]
    cases hfull : queue.isFull with
    | true =>
      have hlen := isFull_iff.mp hfull
      rw [hitems, hsame] at hlen
      rw [hflow, if_pos rfl]
      exact ⟨_, _, _, rfl, .full ⟨hterm, hlen, hitems, rfl⟩ rfl, hsame, rfl, rfl⟩
    | false =>
      obtain ⟨queue', hpush, hroom, hitems', hsize'⟩ := push_of_not_full hfull data
      rw [hitems] at hroom hitems'
      rw [hsame] at hroom
      rw [Bool.false_and, if_neg Bool.false_ne_true, if_neg Bool.false_ne_true]
      unfold pushAssert
      dsimp only
      rw [hpush]
      exact ⟨_, _, _, rfl, .pushed ⟨hterm, hroom, hitems', rfl, rfl, rfl⟩, hsize'.trans hsame, rfl,
        rfl⟩

/-- The outcomes of `AsyncReceiver::poll`. -/
inductive PollRecvCase (now : Nat) (waker : Waker) (chan chan' : Channel T) :
    List Waker → Poll (Except RecvErr T) → Prop
  | received {d : ChannelData T} :
      chan.unexpired now = d :: chan'.items →
      chan'.wakerReceiver = chan.wakerReceiver →
      chan'.wakerSender = none →
      PollRecvCase now waker chan chan' chan.wakerSender.toList (.ready (.ok d.data))
  | closed :
      chan.unexpired now = [] →
      chan'.items = [] →
      chan.terminated = true →
      chan'.wakerReceiver = chan.wakerReceiver →
      chan'.wakerSender = chan.wakerSender →
      PollRecvCase now waker chan chan' [] (.ready (.error .channelClosed))
  | parked :
      chan.unexpired now = [] →
      chan'.items = [] →
      chan.terminated = false →
      chan'.wakerReceiver = some waker →
      chan'.wakerSender = chan.wakerSender →
      PollRecvCase now waker chan chan' [] .pending

/-- **`AsyncReceiver::poll`** does not panic, and has one of three outcomes. -/
theorem pollRecv_cases (hsize : 0 < chan.size) (now : Nat) (waker : Waker) :
    ∃ chan' woken result, chan.pollRecv now waker = some (chan', woken, result) ∧
      PollRecvCase now waker chan chan' woken result ∧ chan.Frame chan' := by
  obtain ⟨queue, hgc, hitems, hsame⟩ := garbageCollect_spec hsize now
  unfold pollRecv
  rw [hgc, bind_eq_bind, bind_some]
  cases hl : queue.toList with
  | nil =>
    have hnil : chan.unexpired now = [] := hitems.symm.trans hl
    rw [pop_of_nil hl]
    dsimp only
    cases hterm : chan.terminated with
    | true =>
      exact ⟨_, _, _, rfl, .closed hnil hl hterm rfl rfl, hsame, rfl, hterm.symm⟩
    | false =>
      exact ⟨_, _, _, rfl, .parked hnil hl hterm rfl rfl, hsame, rfl, hterm.symm⟩
  | cons d rest =>
    obtain ⟨hfirst, htail, hsize'⟩ := pop_of_cons hl
    have hpop : queue.pop = (some d, queue.pop.2) := Prod.ext hfirst rfl
    rw [hpop]
    refine ⟨_, _, _, rfl, .received ?_ rfl rfl, hsize'.trans hsame, rfl, rfl⟩
    rw [← hitems, hl]
    exact congrArg (d :: ·) htail.symm

/-- The outcomes of `try_recv`; no waker is taken. -/
inductive TryRecvCase (now : Nat) (chan chan' : Channel T) : Except RecvErr T → Prop
  | received {d : ChannelData T} :
      chan.unexpired now = d :: chan'.items →
      TryRecvCase now chan chan' (.ok d.data)
  | closed :
      chan.unexpired now = [] →
      chan'.items = [] →
      chan.terminated = true →
      TryRecvCase now chan chan' (.error .channelClosed)
  | noData :
      chan.unexpired now = [] →
      chan'.items = [] →
      chan.terminated = false →
      TryRecvCase now chan chan' (.error .noData)

/-- **`try_recv`** does not panic, and has one of three outcomes. -/
theorem tryRecv_cases (hsize : 0 < chan.size) (now : Nat) :
    ∃ chan' result, chan.tryRecv now = some (chan', [], result) ∧
      TryRecvCase now chan chan' result ∧ chan.Frame chan' ∧
      chan'.wakerReceiver = chan.wakerReceiver ∧ chan'.wakerSender = chan.wakerSender := by
  obtain ⟨queue, hgc, hitems, hsame⟩ := garbageCollect_spec hsize now
  unfold tryRecv
  rw [hgc, bind_eq_bind, bind_some]
  cases hl : queue.toList with
  | nil =>
    have hnil : chan.unexpired now = [] := hitems.symm.trans hl
    rw [pop_of_nil hl]
    cases hterm : chan.terminated with
    | true =>
      exact ⟨_, _, rfl, .closed hnil hl hterm, ⟨hsame, rfl, hterm.symm⟩, rfl, rfl⟩
    | false =>
      exact ⟨_, _, rfl, .noData hnil hl hterm, ⟨hsame, rfl, hterm.symm⟩, rfl, rfl⟩
  | cons d rest =>
    obtain ⟨hfirst, htail, hsize'⟩ := pop_of_cons hl
    have hpop : queue.pop = (some d, queue.pop.2) := Prod.ext hfirst rfl
    rw [hpop]
    refine ⟨_, _, rfl, .received ?_, ⟨hsize'.trans hsame, rfl, rfl⟩, rfl, rfl⟩
    rw [← hitems, hl]
    exact congrArg (d :: ·) htail.symm

end Channel

/-! ### The two ends -/

/-- Where a call of `send` is. -/
inductive SendPhase
  | sending
  /-- The message is handed over, and the call is at its `yield`. -/
  | yielding
  deriving DecidableEq

/-- The future of a call of `send`. -/
structure SendFuture (T : Type) where
  data : ChannelData T
  phase : SendPhase

/-- A channel with its two ends. -/
structure State (T : Type) where
  chan : Channel T
  now : Nat
  /-- The sender has not been dropped. -/
  sender : Bool
  /-- The receiver has not been dropped. -/
  receiver : Bool
  numSends : Nat
  send : Nat → Option (SendFuture T)
  /-- The wakers that the last step has called `wake` on. -/
  woken : List Waker
  /-- The values that `try_send` or a poll of a send future has accepted. -/
  accepted : List (Nat × T)
  /-- The calls of `send` and `try_send` that have returned `Ok`. -/
  returned : List Nat
  received : List T
  /-- A receive has reported `ChannelClosed`. -/
  sawClosed : Bool

inductive Action (T : Type)
  | advance (micros : Nat)
  /-- A call of `send` makes its message. -/
  | newSend (data : T)
  | pollSend (f : Nat) (waker : Waker)
  | dropSend (f : Nat)
  | trySend (timeStamp : Nat) (data : T)
  | pollRecv (waker : Waker)
  | tryRecv
  | dropSender
  | dropReceiver

namespace State

variable {T : Type}

/-- `bounded::new`. -/
def init (attr : Attribute) : State T where
  chan := .new attr
  now := 0
  sender := true
  receiver := true
  numSends := 0
  send _ := none
  woken := []
  accepted := []
  returned := []
  received := []
  sawClosed := false

/-- What a poll of a send future leaves of the future and of the records. -/
def afterPollSend (σ : State T) (f : Nat) (x : SendFuture T) : Poll (Except SendErr Bool) → State T
  | .pending => σ
  | .ready (.error _) => { σ with send := update σ.send f none }
  | .ready (.ok true) =>
    { σ with
      send := update σ.send f (some { x with phase := .yielding })
      accepted := σ.accepted ++ [(f, x.data.data)] }
  | .ready (.ok false) =>
    { σ with
      send := update σ.send f none
      accepted := σ.accepted ++ [(f, x.data.data)]
      returned := σ.returned ++ [f] }

def afterTrySend (σ : State T) (data : T) : Except SendErr Unit → State T
  | .error _ => { σ with numSends := σ.numSends + 1 }
  | .ok _ =>
    { σ with
      numSends := σ.numSends + 1
      accepted := σ.accepted ++ [(σ.numSends, data)]
      returned := σ.returned ++ [σ.numSends] }

def afterRecv (σ : State T) : Except RecvErr T → State T
  | .ok data => { σ with received := σ.received ++ [data] }
  | .error .channelClosed => { σ with sawClosed := true }
  | .error .noData => σ

/-- A step; `none` if it cannot be taken or panics. -/
def step (σ : State T) : Action T → Option (State T)
  | .advance micros => some { σ with now := σ.now + micros, woken := [] }
  | .newSend data =>
    if σ.sender then
      some { σ with
        numSends := σ.numSends + 1
        send := update σ.send σ.numSends (some ⟨⟨σ.now, data⟩, .sending⟩)
        woken := [] }
    else none
  | .pollSend f waker => do
    let x ← σ.send f
    match x.phase with
    | .sending =>
      let (chan, woken, result) ← σ.chan.pollSend σ.now waker x.data
      some ({ σ with chan := chan, woken := woken }.afterPollSend f x result)
    | .yielding =>
      some { σ with
        send := update σ.send f none, returned := σ.returned ++ [f], woken := [] }
  | .dropSend f =>
    match σ.send f with
    | some _ => some { σ with send := update σ.send f none, woken := [] }
    | none => none
  | .trySend timeStamp data =>
    if σ.sender && decide (timeStamp ≤ σ.now) then do
      let (chan, woken, result) ← σ.chan.trySend σ.now ⟨timeStamp, data⟩
      some ({ σ with chan := chan, woken := woken }.afterTrySend data result)
    else none
  | .pollRecv waker =>
    if σ.receiver then do
      let (chan, woken, result) ← σ.chan.pollRecv σ.now waker
      match result with
      | .pending => some { σ with chan := chan, woken := woken }
      | .ready result => some ({ σ with chan := chan, woken := woken }.afterRecv result)
    else none
  | .tryRecv =>
    if σ.receiver then do
      let (chan, woken, result) ← σ.chan.tryRecv σ.now
      some ({ σ with chan := chan, woken := woken }.afterRecv result)
    else none
  | .dropSender =>
    -- the send futures borrow the sender
    if σ.sender && (List.range σ.numSends).all fun f => (σ.send f).isNone then
      let (chan, woken) := σ.chan.dropSender
      some { σ with chan := chan, woken := woken, sender := false }
    else none
  | .dropReceiver =>
    if σ.receiver then
      let (chan, woken) := σ.chan.dropReceiver
      some { σ with chan := chan, woken := woken, receiver := false }
    else none

@[simp] theorem afterPollSend_chan (σ : State T) (f : Nat) (x : SendFuture T)
    (result : Poll (Except SendErr Bool)) : (σ.afterPollSend f x result).chan = σ.chan := by
  rcases result with _ | _ | (_ | _) <;> rfl

@[simp] theorem afterTrySend_chan (σ : State T) (data : T) (result : Except SendErr Unit) :
    (σ.afterTrySend data result).chan = σ.chan := by
  cases result <;> rfl

@[simp] theorem afterRecv_chan (σ : State T) (result : Except RecvErr T) :
    (σ.afterRecv result).chan = σ.chan := by
  rcases result with (_ | _) | _ <;> rfl

/-- What a step does, on a channel with flow control. -/
inductive StepCase (σ σ' : State T) : Action T → Prop
  | advance {micros : Nat} :
      σ' = { σ with now := σ.now + micros, woken := [] } →
      StepCase σ σ' (.advance micros)
  | newSend {data : T} :
      σ.sender = true →
      σ' = { σ with
        numSends := σ.numSends + 1
        send := update σ.send σ.numSends (some ⟨⟨σ.now, data⟩, .sending⟩)
        woken := [] } →
      StepCase σ σ' (.newSend data)
  | pollSend {f : Nat} {waker : Waker} {x : SendFuture T} {chan : Channel T} {woken : List Waker}
      {result : Poll (Except SendErr Bool)} :
      σ.send f = some x →
      x.phase = .sending →
      Channel.PollSendCase σ.now waker x.data σ.chan chan woken result →
      σ.chan.Frame chan →
      σ' = { σ with chan := chan, woken := woken }.afterPollSend f x result →
      StepCase σ σ' (.pollSend f waker)
  | yielded {f : Nat} {waker : Waker} {x : SendFuture T} :
      σ.send f = some x →
      x.phase = .yielding →
      σ' = { σ with
        send := update σ.send f none, returned := σ.returned ++ [f], woken := [] } →
      StepCase σ σ' (.pollSend f waker)
  | dropSend {f : Nat} {x : SendFuture T} :
      σ.send f = some x →
      σ' = { σ with send := update σ.send f none, woken := [] } →
      StepCase σ σ' (.dropSend f)
  | trySend {timeStamp : Nat} {data : T} {chan : Channel T} {woken : List Waker}
      {result : Except SendErr Unit} :
      σ.sender = true →
      Channel.TrySendCase σ.now ⟨timeStamp, data⟩ σ.chan chan woken result →
      σ.chan.Frame chan →
      σ' = { σ with chan := chan, woken := woken }.afterTrySend data result →
      StepCase σ σ' (.trySend timeStamp data)
  | recvPending {waker : Waker} {chan : Channel T} {woken : List Waker} :
      σ.receiver = true →
      Channel.PollRecvCase σ.now waker σ.chan chan woken .pending →
      σ.chan.Frame chan →
      σ' = { σ with chan := chan, woken := woken } →
      StepCase σ σ' (.pollRecv waker)
  | recvReady {waker : Waker} {chan : Channel T} {woken : List Waker} {result : Except RecvErr T} :
      σ.receiver = true →
      Channel.PollRecvCase σ.now waker σ.chan chan woken (.ready result) →
      σ.chan.Frame chan →
      σ' = { σ with chan := chan, woken := woken }.afterRecv result →
      StepCase σ σ' (.pollRecv waker)
  | tryRecv {chan : Channel T} {result : Except RecvErr T} :
      σ.receiver = true →
      Channel.TryRecvCase σ.now σ.chan chan result →
      σ.chan.Frame chan →
      chan.wakerReceiver = σ.chan.wakerReceiver →
      chan.wakerSender = σ.chan.wakerSender →
      σ' = { σ with chan := chan, woken := [] }.afterRecv result →
      StepCase σ σ' .tryRecv
  | dropSender :
      σ.sender = true →
      (∀ f < σ.numSends, σ.send f = none) →
      σ' = { σ with
        chan := σ.chan.dropSender.1, woken := σ.chan.dropSender.2, sender := false } →
      StepCase σ σ' .dropSender
  | dropReceiver :
      σ.receiver = true →
      σ' = { σ with
        chan := σ.chan.dropReceiver.1, woken := σ.chan.dropReceiver.2, receiver := false } →
      StepCase σ σ' .dropReceiver

/-- **What a step does.** -/
theorem step_cases {σ σ' : State T} {a : Action T} (hsize : 0 < σ.chan.size)
    (hflow : σ.chan.attr.flowControl = true) (h : σ.step a = some σ') : StepCase σ σ' a := by
  cases a with
  | advance micros => exact .advance (some.inj h).symm
  | newSend data =>
    obtain ⟨hsender, h⟩ := ite_none_right_eq_some.mp h
    exact .newSend hsender (some.inj h).symm
  | pollSend f waker =>
    obtain ⟨x, hx, h⟩ := bind_eq_some_iff.mp h
    split at h
    · next hphase =>
      obtain ⟨chan, woken, result, hpoll, hcase, hframe⟩ :=
        Channel.pollSend_cases hsize hflow σ.now waker x.data
      rw [hpoll] at h
      exact .pollSend hx hphase hcase hframe (some.inj h).symm
    · next hphase => exact .yielded hx hphase (some.inj h).symm
  | dropSend f =>
    dsimp only [step] at h
    split at h
    · next x hx => exact .dropSend hx (some.inj h).symm
    · cases h
  | trySend timeStamp data =>
    obtain ⟨hguard, h⟩ := ite_none_right_eq_some.mp h
    obtain ⟨chan, woken, result, htry, hcase, hframe⟩ :=
      Channel.trySend_cases hsize hflow σ.now ⟨timeStamp, data⟩
    rw [htry] at h
    exact .trySend ((Bool.and_eq_true _ _).mp hguard).1 hcase hframe (some.inj h).symm
  | pollRecv waker =>
    obtain ⟨hreceiver, h⟩ := ite_none_right_eq_some.mp h
    obtain ⟨chan, woken, result, hpoll, hcase, hframe⟩ :=
      Channel.pollRecv_cases hsize σ.now waker
    rw [hpoll] at h
    cases result with
    | pending => exact .recvPending hreceiver hcase hframe (some.inj h).symm
    | ready result => exact .recvReady hreceiver hcase hframe (some.inj h).symm
  | tryRecv =>
    obtain ⟨hreceiver, h⟩ := ite_none_right_eq_some.mp h
    obtain ⟨chan, result, htry, hcase, hframe, hwr, hws⟩ := Channel.tryRecv_cases hsize σ.now
    rw [htry] at h
    exact .tryRecv hreceiver hcase hframe hwr hws (some.inj h).symm
  | dropSender =>
    obtain ⟨hguard, h⟩ := ite_none_right_eq_some.mp h
    obtain ⟨hsender, hnone⟩ := (Bool.and_eq_true _ _).mp hguard
    refine .dropSender hsender (fun f hf => ?_) (some.inj h).symm
    exact isNone_iff_eq_none.mp (List.all_eq_true.mp hnone f (List.mem_range.mpr hf))
  | dropReceiver =>
    obtain ⟨hreceiver, h⟩ := ite_none_right_eq_some.mp h
    exact .dropReceiver hreceiver (some.inj h).symm

theorem step_attr {σ σ' : State T} {a : Action T} (hsize : 0 < σ.chan.size)
    (hflow : σ.chan.attr.flowControl = true) (h : σ.step a = some σ') :
    σ'.chan.size = σ.chan.size ∧ σ'.chan.attr = σ.chan.attr := by
  cases step_cases hsize hflow h with
  | advance hσ' | newSend _ hσ' | yielded _ _ hσ' | dropSend _ hσ' | dropSender _ _ hσ'
  | dropReceiver _ hσ' =>
    rw [hσ']
    exact ⟨rfl, rfl⟩
  | pollSend _ _ _ hframe hσ' =>
    rw [hσ', afterPollSend_chan]
    exact ⟨hframe.size, hframe.attr⟩
  | trySend _ _ hframe hσ' =>
    rw [hσ', afterTrySend_chan]
    exact ⟨hframe.size, hframe.attr⟩
  | recvPending _ _ hframe hσ' =>
    rw [hσ']
    exact ⟨hframe.size, hframe.attr⟩
  | recvReady _ _ hframe hσ' | tryRecv _ _ hframe _ _ hσ' =>
    rw [hσ', afterRecv_chan]
    exact ⟨hframe.size, hframe.attr⟩

end State

end Bounded

end Awkernel
