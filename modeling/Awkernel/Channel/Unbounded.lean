import Awkernel.Lib.Fifo
import Awkernel.Lib.TransitionSystem
import Awkernel.PubSub.Subscriber

/-!
# The unbounded channel

`awkernel_async_lib/src/channel/unbounded.rs`: any number of clones of a sender and one receiver
share a `Channel` behind a mutex. Each operation is one critical section of that mutex. A
`send` is a `send_no_yield` followed by a yield that does not touch the channel.

The channel is closed by one flag, which the drop of the receiver sets, and also the drop of
any sender: the clones are not counted. So a clone that is dropped closes the channel for the
others (`closed_beside_clone`). If a sender is dropped only as the last one, or after the
receiver, the channel behaves as it should, and only then (`unbounded_iff`).

In every case the channel refines `Fifo`: what was received followed by what is in the queue is
what the sends that returned `Ok` have sent (`refines_fifo`).
-/

namespace Awkernel

open TransitionSystem

namespace Unbounded

/-- `Channel<T>`. -/
structure Channel (T : Type) where
  queue : List T
  wakerReceiver : Option Waker
  terminated : Bool

inductive RecvErr
  | channelClosed
  | noData
  deriving DecidableEq

namespace Channel

variable {T : Type}

/-- `unbounded::new`. -/
def new : Channel T := ⟨[], none, false⟩

/-- `Sender::send_no_yield`; `false` is `Err`. -/
def sendNoYield (data : T) (chan : Channel T) : Channel T × List Waker × Bool :=
  if chan.terminated then (chan, [], false)
  else
    ({ chan with queue := chan.queue ++ [data], wakerReceiver := none },
      chan.wakerReceiver.toList, true)

/-- `Sender::drop`. -/
def dropSender (chan : Channel T) : Channel T × List Waker :=
  ({ chan with terminated := true, wakerReceiver := none }, chan.wakerReceiver.toList)

/-- `Receiver::try_recv`. -/
def tryRecv (chan : Channel T) : Channel T × Except RecvErr T :=
  match chan.queue with
  | data :: queue => ({ chan with queue := queue }, .ok data)
  | [] => (chan, .error (if chan.terminated then .channelClosed else .noData))

/-- `AsyncReceiver::poll`. -/
def pollRecv (waker : Waker) (chan : Channel T) : Channel T × Poll (Except RecvErr T) :=
  match chan.queue with
  | data :: queue => ({ chan with queue := queue }, .ready (.ok data))
  | [] =>
    if chan.terminated then (chan, .ready (.error .channelClosed))
    else ({ chan with wakerReceiver := some waker }, .pending)

/-- `Receiver::drop`. -/
def dropReceiver (chan : Channel T) : Channel T := { chan with terminated := true }

end Channel

/-- A channel with its ends. -/
structure State (T : Type) where
  chan : Channel T
  /-- The number of senders that have not been dropped. -/
  senders : Nat
  /-- The receiver has not been dropped. -/
  receiver : Bool
  /-- The values whose send has returned `Ok`. -/
  sent : List T
  received : List T

inductive Action (T : Type)
  | clone
  | send (data : T)
  | dropSender
  | pollRecv (waker : Waker)
  | tryRecv
  | dropReceiver

namespace State

variable {T : Type}

/-- `unbounded::new`. -/
def init : State T := ⟨.new, 1, true, [], []⟩

def afterRecv (σ : State T) (chan : Channel T) : Except RecvErr T → State T
  | .ok data => { σ with chan := chan, received := σ.received ++ [data] }
  | .error _ => { σ with chan := chan }

/-- A step; `none` if there is no end to take it. -/
def step (σ : State T) : Action T → Option (State T)
  | .clone => if σ.senders = 0 then none else some { σ with senders := σ.senders + 1 }
  | .send data =>
    if σ.senders = 0 then none
    else
      match σ.chan.sendNoYield data with
      | (chan, _, true) => some { σ with chan := chan, sent := σ.sent ++ [data] }
      | (chan, _, false) => some { σ with chan := chan }
  | .dropSender =>
    if σ.senders = 0 then none
    else some { σ with chan := σ.chan.dropSender.1, senders := σ.senders - 1 }
  | .pollRecv waker =>
    if σ.receiver then
      match σ.chan.pollRecv waker with
      | (chan, .pending) => some { σ with chan := chan }
      | (chan, .ready result) => some (σ.afterRecv chan result)
    else none
  | .tryRecv =>
    if σ.receiver then some (σ.afterRecv σ.chan.tryRecv.1 σ.chan.tryRecv.2) else none
  | .dropReceiver =>
    if σ.receiver then some { σ with chan := σ.chan.dropReceiver, receiver := false } else none

/-! ### The queue -/

/-- The queue of the channel and the records, as an abstract queue. -/
structure Refines (σ : State T) (q : Fifo T) : Prop where
  accepted : q.accepted = σ.sent
  received : q.received = σ.received
  pending : q.pending = σ.chan.queue

/-- What a step does. -/
inductive StepCase (σ : State T) : Action T → State T → Prop
  | clone : 0 < σ.senders → StepCase σ .clone { σ with senders := σ.senders + 1 }
  | refused {data : T} :
      0 < σ.senders →
      σ.chan.terminated = true →
      StepCase σ (.send data) σ
  | sent {data : T} {chan : Channel T} :
      0 < σ.senders →
      σ.chan.terminated = false →
      chan.queue = σ.chan.queue ++ [data] →
      chan.terminated = false →
      StepCase σ (.send data) { σ with chan := chan, sent := σ.sent ++ [data] }
  | dropSender :
      0 < σ.senders →
      StepCase σ .dropSender { σ with chan := σ.chan.dropSender.1, senders := σ.senders - 1 }
  | received {a : Action T} {data : T} {chan : Channel T} :
      (a = .tryRecv ∨ ∃ waker, a = .pollRecv waker) →
      σ.chan.queue = data :: chan.queue →
      chan.terminated = σ.chan.terminated →
      StepCase σ a { σ with chan := chan, received := σ.received ++ [data] }
  | nothing {a : Action T} {chan : Channel T} :
      (a = .tryRecv ∨ ∃ waker, a = .pollRecv waker) →
      chan.queue = σ.chan.queue →
      chan.terminated = σ.chan.terminated →
      StepCase σ a { σ with chan := chan }
  | dropReceiver :
      StepCase σ .dropReceiver { σ with chan := σ.chan.dropReceiver, receiver := false }

variable {σ σ' : State T} {a : Action T}

theorem step_cases (h : σ.step a = some σ') : StepCase σ a σ' := by
  cases a with
  | clone =>
    obtain ⟨hpos, ⟨⟩⟩ := Option.ite_none_left_eq_some.mp h
    exact .clone (Nat.pos_of_ne_zero hpos)
  | send data =>
    obtain ⟨hpos, h⟩ := Option.ite_none_left_eq_some.mp h
    cases hterm : σ.chan.terminated with
    | true =>
      rw [show σ.chan.sendNoYield data = (σ.chan, [], false) from if_pos hterm] at h
      cases h
      exact .refused (Nat.pos_of_ne_zero hpos) hterm
    | false =>
      rw [Channel.sendNoYield, if_neg (by rw [hterm]; exact Bool.false_ne_true)] at h
      cases h
      exact .sent (Nat.pos_of_ne_zero hpos) hterm rfl hterm
  | dropSender =>
    obtain ⟨hpos, ⟨⟩⟩ := Option.ite_none_left_eq_some.mp h
    exact .dropSender (Nat.pos_of_ne_zero hpos)
  | pollRecv waker =>
    dsimp only [step, Channel.pollRecv] at h
    obtain ⟨-, h⟩ := Option.ite_none_right_eq_some.mp h
    cases hqueue : σ.chan.queue with
    | cons data queue =>
      rw [hqueue] at h
      cases h
      exact .received (.inr ⟨waker, rfl⟩) hqueue rfl
    | nil =>
      cases hterm : σ.chan.terminated with
      | true =>
        rw [hqueue, hterm] at h
        cases h
        exact .nothing (.inr ⟨waker, rfl⟩) rfl rfl
      | false =>
        rw [hqueue, hterm] at h
        cases h
        exact .nothing (.inr ⟨waker, rfl⟩) hqueue.symm hterm.symm
  | tryRecv =>
    dsimp only [step, Channel.tryRecv] at h
    split at h
    · cases h
      cases hqueue : σ.chan.queue with
      | cons data queue => exact .received (.inl rfl) hqueue rfl
      | nil => exact .nothing (.inl rfl) rfl rfl
    · cases h
  | dropReceiver =>
    obtain ⟨-, ⟨⟩⟩ := Option.ite_none_right_eq_some.mp h
    exact .dropReceiver

theorem refines_step {q : Fifo T} (hq : σ.Refines q) (h : σ.step a = some σ') :
    ∃ q' : Fifo T, q.Step q' ∧ σ'.Refines q' := by
  obtain ⟨haccepted, hreceived, hpending⟩ := hq
  cases step_cases h with
  | clone _ | refused _ _ | dropSender _ | dropReceiver =>
    exact ⟨q, .stay, haccepted, hreceived, hpending⟩
  | @sent data chan _ _ hqueue _ =>
    refine ⟨q.push data, .push data, ?_, hreceived, ?_⟩
    · exact congrArg (· ++ [data]) haccepted
    · exact (congrArg (· ++ [data]) hpending).trans hqueue.symm
  | @received _ data chan _ hqueue _ =>
    have hcons : q.pending = data :: chan.queue := hpending.trans hqueue
    refine ⟨q.pop hcons, .pop hcons, haccepted, ?_, rfl⟩
    exact congrArg (· ++ [data]) hreceived
  | nothing _ hqueue _ => exact ⟨q, .stay, haccepted, hreceived, hpending.trans hqueue.symm⟩

/-- **The channel refines a first-in-first-out queue**, whatever is dropped when. -/
theorem refines_fifo (h : Reaches step (fun _ _ => True) init σ) :
    ∃ q, Relation.ReflTransGen Fifo.Step .empty q ∧ σ.Refines q := by
  induction h with
  | refl => exact ⟨_, .refl, rfl, rfl, rfl⟩
  | tail _ _ hs ih =>
    obtain ⟨q, hsteps, hq⟩ := ih
    obtain ⟨q', hstep, hq'⟩ := refines_step hq hs
    exact ⟨q', hsteps.tail hstep, hq'⟩

/-- Two senders, of which one is dropped: the channel is closed, and the receiver takes what was
sent before. -/
theorem refines_fifo_closed : ∃ σ : State Nat, Reaches step (fun _ _ => True) init σ ∧
    (σ.chan.terminated = true ∧ σ.sent = [1, 2, 3] ∧ σ.received = [1, 2] ∧ σ.chan.queue = [3]) ∧
      ∃ q, Relation.ReflTransGen Fifo.Step .empty q ∧ σ.Refines q := by
  refine Reaches.exists_of_run_imp [.pollRecv 0, .send 1, .clone, .send 2, .pollRecv 0, .send 3,
    .dropSender, .send 4, .tryRecv] (fun σ => σ.chan.terminated = true ∧ σ.sent = [1, 2, 3] ∧
      σ.received = [1, 2] ∧ σ.chan.queue = [3]) (by decide) fun σ hreach hσ => ⟨hσ, ?_⟩
  exact refines_fifo hreach

/-! ### The end of the channel -/

/-- What the users of a channel rely on. -/
structure Faithful (σ : State T) : Prop where
  /-- A send fails only if the receiver was dropped. -/
  send : 0 < σ.senders → ∀ data, (σ.chan.sendNoYield data).2.2 = false → σ.receiver = false
  /-- A receive reports `ChannelClosed` only if all senders were dropped and all that was sent
  was received. -/
  closed : σ.receiver = true → (σ.chan.tryRecv.2 = .error .channelClosed ∨
      ∃ waker, (σ.chan.pollRecv waker).2 = .ready (.error .channelClosed)) →
    σ.senders = 0 ∧ σ.received = σ.sent
  /-- What was received, followed by the queue, is what was sent. -/
  exact : σ.received ++ σ.chan.queue = σ.sent
  /-- A receive returns the first value sent that was not received. -/
  next : ∀ {data : T}, σ.received ++ [data] <+: σ.sent →
    σ.chan.tryRecv.2 = .ok data ∧ ∀ waker, (σ.chan.pollRecv waker).2 = .ready (.ok data)

/-- A sender is dropped only as the last one, or after the receiver. -/
def DropsLast (σ : State T) : Action T → Prop
  | .dropSender => σ.senders = 1 ∨ σ.receiver = false
  | _ => True

theorem closed_iff (chan : Channel T) : (chan.tryRecv.2 = .error .channelClosed ∨
      ∃ waker, (chan.pollRecv waker).2 = .ready (.error .channelClosed)) ↔
    chan.queue = [] ∧ chan.terminated = true := by
  unfold Channel.tryRecv Channel.pollRecv
  cases hqueue : chan.queue with
  | cons data queue =>
    refine iff_of_false ?_ (fun h => absurd h.1 nofun)
    rintro (h | ⟨_, h⟩)
    · cases h
    · cases h
  | nil =>
    cases hterm : chan.terminated with
    | true => exact iff_of_true (.inl rfl) ⟨rfl, rfl⟩
    | false =>
      refine iff_of_false ?_ (fun h => absurd h.2 nofun)
      rintro (h | ⟨_, h⟩)
      · cases h
      · cases h

/-- In the terms of the state: the flag is set only if one of the two sides is gone. -/
theorem faithful_iff (σ : State T) :
    σ.Faithful ↔ (σ.chan.terminated = true → σ.receiver = false ∨ σ.senders = 0) ∧
      σ.received ++ σ.chan.queue = σ.sent := by
  constructor
  · intro h
    refine ⟨fun hterm => ?_, h.exact⟩
    rcases Nat.eq_zero_or_pos σ.senders with hzero | hpos
    · exact .inr hzero
    cases hrecv : σ.receiver with
    | false => exact .inl rfl
    | true =>
      -- with an empty queue a receive reports the end; otherwise there is a value to send
      cases hqueue : σ.chan.queue with
      | nil => exact .inr (h.closed hrecv ((closed_iff _).mpr ⟨hqueue, hterm⟩)).1
      | cons data _ =>
        have hfail : (σ.chan.sendNoYield data).2.2 = false := by
          rw [Channel.sendNoYield, if_pos hterm]
        cases (h.send hpos data hfail).symm.trans hrecv
  · rintro ⟨hflag, hexact⟩
    refine ⟨fun hpos data hfail => ?_, fun hrecv hclosed => ?_, hexact, ?_⟩
    · cases hterm : σ.chan.terminated with
      | true => exact (hflag hterm).resolve_right hpos.ne'
      | false =>
        rw [Channel.sendNoYield, if_neg (by rw [hterm]; exact Bool.false_ne_true)] at hfail
        cases hfail
    · obtain ⟨hnil, hterm⟩ := (closed_iff _).mp hclosed
      refine ⟨(hflag hterm).resolve_left fun hgone => ?_, ?_⟩
      · cases hrecv.symm.trans hgone
      · rw [← hexact, hnil, List.append_nil]
    · intro data hprefix
      rw [← hexact, List.prefix_append_right_inj] at hprefix
      obtain ⟨queue, hqueue⟩ := hprefix
      unfold Channel.tryRecv Channel.pollRecv
      rw [← hqueue]
      exact ⟨rfl, fun _ => rfl⟩

/-- **A step keeps the channel faithful exactly if it does not drop one sender among several
while the receiver is there.** -/
theorem faithful_step (hP : σ.Faithful) (h : σ.step a = some σ') : σ'.Faithful ↔ σ.DropsLast a := by
  obtain ⟨hflag, hexact⟩ := (faithful_iff σ).mp hP
  rw [faithful_iff]
  have hrecv : ∀ {a : Action T}, (a = .tryRecv ∨ ∃ waker, a = .pollRecv waker) → σ.DropsLast a := by
    rintro a (rfl | ⟨waker, rfl⟩)
    · trivial
    · trivial
  cases step_cases h with
  | clone hpos =>
    refine iff_of_true ⟨fun hterm => ?_, hexact⟩ trivial
    exact .inl ((hflag hterm).resolve_right hpos.ne')
  | refused => exact iff_of_true ⟨hflag, hexact⟩ trivial
  | sent _ _ hqueue hterm =>
    refine iff_of_true ⟨fun hset => absurd (hterm.symm.trans hset) nofun, ?_⟩ trivial
    rw [hqueue, ← List.append_assoc, hexact]
  | dropSender hpos =>
    constructor
    · rintro ⟨hset, -⟩
      rcases hset rfl with hgone | hzero
      · exact .inr hgone
      · change σ.senders - 1 = 0 at hzero
        exact .inl (by omega)
    · intro hlast
      refine ⟨fun _ => ?_, hexact⟩
      rcases hlast with hone | hgone
      · exact .inr (congrArg (· - 1) hone)
      · exact .inl hgone
  | received ha hqueue hterm =>
    refine iff_of_true ⟨fun hset => hflag (hterm.symm.trans hset), ?_⟩ (hrecv ha)
    rw [List.append_assoc, List.singleton_append, ← hqueue, hexact]
  | nothing ha hqueue hterm =>
    refine iff_of_true ⟨fun hset => hflag (hterm.symm.trans hset), ?_⟩ (hrecv ha)
    rw [hqueue, hexact]
  | dropReceiver => exact iff_of_true ⟨fun _ => .inl rfl, hexact⟩ trivial

/-- **The unbounded channel with cloned senders, and when it is faithful.** In every run: a send
fails only if the receiver was dropped, a receive reports `ChannelClosed` only if all senders
were dropped and everything sent was received, and each value sent is received once and in
order, in all states of the run, exactly if no sender is dropped while another one and the
receiver are there. -/
theorem unbounded_iff (as : List (Action T)) (σ : State T) (hrun : run step init as = some σ) :
    Always step Faithful init as ↔ Meets step DropsLast init as := by
  have hinit : (init : State T).Faithful := by
    rw [faithful_iff]
    exact ⟨nofun, rfl⟩
  exact always_iff_meets (I := fun _ => True) (fun _ hP h => ⟨trivial, faithful_step hP h⟩)
    trivial hinit hrun

/-- Two senders, and the receiver takes both values before the second is dropped. -/
theorem unbounded_iff_clone : ∃ σ : State Nat,
    run step init [.clone, .send 1, .send 2, .tryRecv, .pollRecv 0, .dropReceiver, .dropSender]
        = some σ ∧ σ.received = [1, 2] ∧
      Always step Faithful init
        [.clone, .send 1, .send 2, .tryRecv, .pollRecv 0, .dropReceiver, .dropSender] := by
  refine ⟨_, rfl, rfl, (unbounded_iff _ _ rfl).mpr ?_⟩
  refine ⟨trivial, fun _ h₁ => ⟨trivial, fun _ h₂ => ⟨trivial, fun _ h₃ => ⟨trivial, fun _ h₄ =>
    ⟨trivial, fun _ h₅ => ⟨trivial, fun _ h₆ => ?_⟩⟩⟩⟩⟩⟩
  cases h₁
  cases h₂
  cases h₃
  cases h₄
  cases h₅
  cases h₆
  exact ⟨.inr rfl, fun _ _ => trivial⟩

/-- A clone is dropped while the other sender and the receiver are there: the next send fails,
and the receiver is told that the channel is closed. -/
theorem closed_beside_clone : ∃ σ : State Nat, run step init [.clone, .dropSender] = some σ ∧
    σ.senders = 1 ∧ σ.receiver = true ∧ (σ.chan.sendNoYield 1).2.2 = false ∧
      σ.chan.tryRecv.2 = .error .channelClosed ∧
      (σ.chan.pollRecv 0).2 = .ready (.error .channelClosed) :=
  ⟨_, rfl, rfl, rfl, rfl, rfl, rfl⟩

end State

end Unbounded

end Awkernel
