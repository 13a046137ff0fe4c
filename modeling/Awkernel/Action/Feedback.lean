import Awkernel.Channel.Bounded
import Awkernel.Channel.Unbounded

/-!
# The feedback of an action

`awkernel_async_lib/src/action.rs`, from the moment a goal is accepted: the server has the session
channel, on which it will send the result, and the sender `tx` of a bounded channel for feedback
values. The client has the future that receives from the session channel, and the future that
receives from the feedback channel and owns its receiver `rx`. `ClientRecvFeedback::recv` selects
between the two, the session channel first.

A step is one critical section of a channel. A poll of `recv` is the poll of the session channel
and, if that is pending, the poll of the feedback channel; the server may go on in between. The
server drops `tx` after it has written a result or an abort, but before it writes a cancel.

The future for the feedback is used up by the first value, and its receiver is dropped with it, so
that the client sees at most one feedback value (`seen_length_le_one`) and the server panics at
its next one. A result overtakes a feedback value that the client has not polled yet. And a poll
of the feedback channel after `tx` was dropped makes the client panic, also if there was no
feedback at all (`feedback_lost_or_panic`).

`InTime` says, of the calls alone, when none of this happens: there is at most one feedback value,
the client polls the feedback channel between the send of the value and its first poll for a result
that was written, and if there is no value it does not poll that channel after `tx` was dropped.
`feedback_iff` says that such a run is right in all its states, and that a run in which the client
gets the result is right only if it is such. In between stands a condition on the single step
(`Takes`, `right_step`), and what the calls so far say about the state (`History`).
-/

namespace Awkernel

open TransitionSystem List Bool

namespace Feedback

/-- `ResultStatus<R>`. -/
inductive ResultStatus (R : Type)
  | succeeded (r : R)
  | canceled
  | aborted
  deriving DecidableEq

/-- Where the server is. -/
inductive Server (F : Type)
  /-- It has a `ServerSendFeedback`. -/
  | ready
  /-- In `send_feedback`, at the send of the value. -/
  | sending (data : Bounded.ChannelData F)
  /-- In `send_feedback`, at the yield of the send. -/
  | yielding
  /-- In `send_feedback`, which has seen the cancel; `tx` is still there. -/
  | leaving
  /-- It has a `ServerSendCancel`; `tx` was dropped. -/
  | canceling
  /-- In `send_result` or `send_abort`, after the write; `tx` is still there. -/
  | written
  | done
  | panicked
  deriving DecidableEq

/-- The value that the server has still to hand over. -/
def Server.carried {F : Type} : Server F → List F
  | .sending d => [d.data]
  | _ => []

/-- The server has dropped `tx`. -/
def Server.Dropped {F : Type} : Server F → Prop
  | .canceling | .done => True
  | _ => False

/-- Where the client is. -/
inductive Client
  /-- Before a poll of `recv`. -/
  | waiting
  /-- In a poll of `recv`, after the session channel was pending. -/
  | polled
  /-- In a poll of `recv`, with a feedback value; the receiver is still there. -/
  | received
  /-- At the end of `recv`, with the result; the receiver may still be there. -/
  | returning
  | done
  | panicked
  deriving DecidableEq

/-- The client drops the receiver next, if it is there. -/
def Client.Leaving : Client → Prop
  | .received | .returning => True
  | _ => False

/-- A goal that was accepted. -/
structure State (F R : Type) where
  /-- The session channel from the server to the client. -/
  chan : Unbounded.Channel (ResultStatus R)
  feedback : Bounded.Channel F
  now : Nat
  cancel : Bool
  server : Server F
  client : Client
  /-- The future for the feedback has not returned, so that the receiver is there. -/
  rx : Bool
  /-- The feedback values of the server. -/
  fed : List F
  status : Option (ResultStatus R)
  /-- The feedback values that the client has seen. -/
  seen : List F
  result : Option (ResultStatus R)

inductive Action (F R : Type)
  | advance (micros : Nat)
  /-- Somebody cancels the action. -/
  | cancel
  | sendFeedback (feedback : F)
  | pollSend (waker : Waker)
  | resume
  | sendResult (result : R)
  | sendAbort
  | sendCancel
  | dropTx
  | pollChan (waker : Waker)
  | pollRx (waker : Waker)
  | dropRx

namespace State

variable {F R : Type}

/-- The goal is accepted with this attribute of the feedback channel. -/
def init (attr : Bounded.Attribute) : State F R where
  chan := .new
  feedback := .new attr
  now := 0
  cancel := false
  server := .ready
  client := .waiting
  rx := true
  fed := []
  status := none
  seen := []
  result := none

/-- The server writes the result, and goes on as `server`. -/
def write (σ : State F R) (status : ResultStatus R) (server : Server F) : State F R :=
  match σ.chan.sendNoYield status with
  | (chan, _, true) => { σ with chan := chan, server := server, status := some status }
  | (chan, _, false) => { σ with chan := chan, server := .panicked }

/-- A step; `none` if it cannot be taken or an assertion of the channel fails. -/
def step (σ : State F R) : Action F R → Option (State F R)
  | .advance micros => some { σ with now := σ.now + micros }
  | .cancel => some { σ with cancel := true }
  | .sendFeedback feedback =>
    match σ.server with
    | .ready =>
      if σ.cancel then some { σ with server := .leaving }
      else some { σ with server := .sending ⟨σ.now, feedback⟩, fed := σ.fed ++ [feedback] }
    | _ => none
  | .pollSend waker =>
    match σ.server with
    | .sending data =>
      (σ.feedback.pollSend σ.now waker data).map fun
        | (chan, _, .pending) => { σ with feedback := chan }
        | (chan, _, .ready (.ok true)) => { σ with feedback := chan, server := .yielding }
        | (chan, _, .ready (.ok false)) => { σ with feedback := chan, server := .ready }
        | (chan, _, .ready (.error _)) => { σ with feedback := chan, server := .panicked }
    | _ => none
  | .resume =>
    match σ.server with
    | .yielding => some { σ with server := .ready }
    | _ => none
  | .sendResult result =>
    match σ.server with
    | .ready => some (σ.write (.succeeded result) .written)
    | _ => none
  | .sendAbort =>
    match σ.server with
    | .ready => some (σ.write .aborted .written)
    | _ => none
  | .sendCancel =>
    match σ.server with
    | .canceling => some (σ.write .canceled .done)
    | _ => none
  | .dropTx =>
    match σ.server with
    | .leaving => some { σ with feedback := σ.feedback.dropSender.1, server := .canceling }
    | .written => some { σ with feedback := σ.feedback.dropSender.1, server := .done }
    | _ => none
  | .pollChan waker =>
    match σ.client with
    | .waiting =>
      match σ.chan.pollRecv waker with
      | (chan, .pending) => some { σ with chan := chan, client := .polled }
      | (chan, .ready (.ok status)) =>
        some { σ with chan := chan, client := .returning, result := some status }
      | (chan, .ready (.error _)) => some { σ with chan := chan, client := .panicked }
    | _ => none
  | .pollRx waker =>
    match σ.client with
    | .polled =>
      if σ.rx then
        (σ.feedback.pollRecv σ.now waker).map fun
          | (chan, _, .pending) => { σ with feedback := chan, client := .waiting }
          | (chan, _, .ready (.ok feedback)) =>
            { σ with feedback := chan, client := .received, seen := σ.seen ++ [feedback] }
          | (chan, _, .ready (.error _)) => { σ with feedback := chan, client := .panicked }
      else some { σ with client := .waiting }
    | _ => none
  | .dropRx =>
    match σ.client with
    | .received =>
      some { σ with feedback := σ.feedback.dropReceiver.1, client := .waiting, rx := false }
    | .returning =>
      if σ.rx then
        some { σ with feedback := σ.feedback.dropReceiver.1, client := .done, rx := false }
      else some { σ with client := .done }
    | _ => none

/-- Nobody has panicked, the client has seen the feedback values of the server in order, and all
of them and the status of the server when it has a result. -/
structure Right (σ : State F R) : Prop where
  server : σ.server ≠ .panicked
  client : σ.client ≠ .panicked
  ordered : σ.seen <+: σ.fed
  complete : ∀ {status}, σ.result = some status → σ.seen = σ.fed ∧ σ.status = some status

/-! ### The condition on the calls -/

/-- The calls by which the server writes the status. -/
def Action.Writes : Action F R → Prop
  | .sendResult _ | .sendAbort | .sendCancel => True
  | _ => False

/-- The feedback values of the calls of `send_feedback`; after a cancel it sends nothing. -/
def feedbacks : List (Action F R) → List F
  | [] => []
  | .cancel :: _ => []
  | .sendFeedback feedback :: calls => feedback :: feedbacks calls
  | _ :: calls => feedbacks calls

/-- The client polls the feedback channel after the server has polled the send of a value. -/
def PolledAfterSend (calls : List (Action F R)) : Prop :=
  ∃ waker waker', [.pollSend waker, .pollRx waker'] <+ calls

/-- A poll comes in time after the calls `before`. -/
def Prompt (before : List (Action F R)) : Action F R → Prop
  | .pollChan _ =>
    (∃ a ∈ before, Action.Writes a) → feedbacks before ≠ [] → PolledAfterSend before
  | .pollRx _ => .dropTx ∈ before → feedbacks before ≠ []
  | _ => True

/-- **The condition**, on the calls and their order. -/
structure InTime (calls : List (Action F R)) : Prop where
  one : (feedbacks calls).length ≤ 1
  prompt : ∀ i (h : i < calls.length), Prompt (calls.take i) calls[i]

/-- The steps at which nothing goes wrong: a feedback value is sent while the client has not
dropped its receiver, which it does after the first value; the session channel is polled with a
result in it only when all feedback values were received; and the feedback channel is not polled
when it is empty and its sender was dropped. -/
def Takes (σ : State F R) : Action F R → Prop
  | .pollSend _ => σ.rx = true
  | .pollChan _ => σ.chan.queue ≠ [] → σ.seen = σ.fed
  | .pollRx _ => σ.rx = true → σ.feedback.items = [] → σ.feedback.terminated = false
  | _ => True

/-! ### The steps -/

/-- What no step changes in the channels. -/
structure Sane (σ : State F R) : Prop where
  size : 0 < σ.feedback.size
  flow : σ.feedback.attr.flowControl = true
  permanent : σ.feedback.attr.lifespan = .permanent
  running : σ.chan.terminated = false

/-- What a step does. -/
inductive StepCase (σ : State F R) : Action F R → State F R → Prop
  | advance {micros : Nat} : StepCase σ (.advance micros) { σ with now := σ.now + micros }
  | cancel : StepCase σ .cancel { σ with cancel := true }
  | leave {feedback : F} :
      σ.server = .ready →
      σ.cancel = true →
      StepCase σ (.sendFeedback feedback) { σ with server := .leaving }
  | feed {feedback : F} :
      σ.server = .ready →
      σ.cancel = false →
      StepCase σ (.sendFeedback feedback)
        { σ with server := .sending ⟨σ.now, feedback⟩, fed := σ.fed ++ [feedback] }
  | sent {waker : Waker} {data : Bounded.ChannelData F} {chan : Bounded.Channel F}
      {server : Server F} :
      σ.server = .sending data →
      σ.feedback.terminated = false →
      chan.items = σ.feedback.items ++ [data] →
      σ.feedback.Frame chan →
      server = .yielding ∨ server = .ready →
      StepCase σ (.pollSend waker) { σ with feedback := chan, server := server }
  | full {waker : Waker} {data : Bounded.ChannelData F} {chan : Bounded.Channel F} :
      σ.server = .sending data →
      σ.feedback.terminated = false →
      σ.feedback.items ≠ [] →
      chan.items = σ.feedback.items →
      σ.feedback.Frame chan →
      StepCase σ (.pollSend waker) { σ with feedback := chan }
  | refused {waker : Waker} {data : Bounded.ChannelData F} :
      σ.server = .sending data →
      σ.feedback.terminated = true →
      StepCase σ (.pollSend waker) { σ with server := .panicked }
  | resume : σ.server = .yielding → StepCase σ .resume { σ with server := .ready }
  | write {a : Action F R} {chan : Unbounded.Channel (ResultStatus R)} {status : ResultStatus R}
      {server : Server F} :
      (a = .sendCancel ∨ a = .sendAbort ∨ ∃ r, a = .sendResult r) →
      (σ.server = .ready ∧ server = .written) ∨ (σ.server = .canceling ∧ server = .done) →
      chan.queue = σ.chan.queue ++ [status] →
      chan.terminated = false →
      StepCase σ a { σ with chan := chan, server := server, status := some status }
  | dropTx {server : Server F} :
      (σ.server = .leaving ∧ server = .canceling) ∨ (σ.server = .written ∧ server = .done) →
      StepCase σ .dropTx { σ with feedback := σ.feedback.dropSender.1, server := server }
  | pending {waker : Waker} {chan : Unbounded.Channel (ResultStatus R)} :
      σ.client = .waiting →
      σ.chan.queue = [] →
      chan.queue = [] →
      chan.terminated = false →
      StepCase σ (.pollChan waker) { σ with chan := chan, client := .polled }
  | result {waker : Waker} {chan : Unbounded.Channel (ResultStatus R)} {status : ResultStatus R} :
      σ.client = .waiting →
      σ.chan.queue = status :: chan.queue →
      chan.terminated = false →
      StepCase σ (.pollChan waker)
        { σ with chan := chan, client := .returning, result := some status }
  | skip {waker : Waker} :
      σ.client = .polled →
      σ.rx = false →
      StepCase σ (.pollRx waker) { σ with client := .waiting }
  | received {waker : Waker} {chan : Bounded.Channel F} {d : Bounded.ChannelData F} :
      σ.client = .polled →
      σ.rx = true →
      σ.feedback.items = d :: chan.items →
      σ.feedback.Frame chan →
      StepCase σ (.pollRx waker)
        { σ with feedback := chan, client := .received, seen := σ.seen ++ [d.data] }
  | nothing {waker : Waker} {chan : Bounded.Channel F} :
      σ.client = .polled →
      σ.rx = true →
      σ.feedback.items = [] →
      chan.items = σ.feedback.items →
      σ.feedback.Frame chan →
      σ.feedback.terminated = false →
      StepCase σ (.pollRx waker) { σ with feedback := chan, client := .waiting }
  | closed {waker : Waker} {chan : Bounded.Channel F} :
      σ.client = .polled →
      σ.rx = true →
      σ.feedback.items = [] →
      chan.items = σ.feedback.items →
      σ.feedback.Frame chan →
      σ.feedback.terminated = true →
      StepCase σ (.pollRx waker) { σ with feedback := chan, client := .panicked }
  | dropRx {client : Client} :
      (σ.client = .received ∧ client = .waiting) ∨ (σ.client = .returning ∧ client = .done) →
      StepCase σ .dropRx
        { σ with feedback := σ.feedback.dropReceiver.1, client := client, rx := false }
  | gone :
      σ.client = .returning →
      σ.rx = false →
      StepCase σ .dropRx { σ with client := .done }

variable {σ σ' : State F R} {a : Action F R} {attr : Bounded.Attribute}

theorem Sane.write_eq (h : σ.Sane) (status : ResultStatus R) (server : Server F) :
    ∃ chan : Unbounded.Channel (ResultStatus R),
      σ.write status server = { σ with chan := chan, server := server, status := some status } ∧
        chan.queue = σ.chan.queue ++ [status] ∧ chan.terminated = false := by
  unfold State.write Unbounded.Channel.sendNoYield
  rw [h.running]
  exact ⟨_, rfl, rfl, rfl⟩

/-- The steps of the two parties, by where they are. -/
theorem step_cases (hsane : σ.Sane) (h : σ.step a = some σ') : StepCase σ a σ' := by
  cases a with
  | advance micros =>
    cases h
    exact .advance
  | cancel =>
    cases h
    exact .cancel
  | sendFeedback feedback =>
    dsimp only [step] at h
    split at h
    · next hserver =>
      split at h
      · next hcancel =>
        cases h
        exact .leave hserver hcancel
      · next hcancel =>
        cases h
        exact .feed hserver (eq_false_of_not_eq_true hcancel)
    · cases h
  | pollSend waker =>
    dsimp only [step] at h
    split at h
    · next data hserver =>
      obtain ⟨chan, woken, result, hpoll, hcase, hframe⟩ :=
        Bounded.Channel.pollSend_cases hsane.size hsane.flow σ.now waker data
      rw [hpoll] at h
      cases h
      have hunexpired := Bounded.Channel.unexpired_of_permanent hsane.permanent σ.now
      cases hcase with
      | closed hterm hsame =>
        subst hsame
        exact .refused hserver hterm
      | parked hfull _ =>
        have hne : σ.feedback.items ≠ [] := by
          rw [← hunexpired, ← length_pos_iff, hfull.full]
          exact hsane.size
        exact .full hserver hfull.running hne (hfull.items.trans hunexpired) hframe
      | @pushed _ needYield hpushed =>
        have hitems : chan.items = σ.feedback.items ++ [data] := hunexpired ▸ hpushed.items
        cases needYield with
        | true => exact .sent hserver hpushed.running hitems hframe (.inl rfl)
        | false => exact .sent hserver hpushed.running hitems hframe (.inr rfl)
    · cases h
  | resume =>
    dsimp only [step] at h
    split at h
    · next hserver =>
      cases h
      exact .resume hserver
    · cases h
  | sendResult result =>
    dsimp only [step] at h
    split at h
    · next hserver =>
      obtain ⟨chan, hwrite, hqueue, hrunning⟩ := hsane.write_eq (.succeeded result) .written
      rw [hwrite] at h
      cases h
      exact .write (.inr (.inr ⟨result, rfl⟩)) (.inl ⟨hserver, rfl⟩) hqueue hrunning
    · cases h
  | sendAbort =>
    dsimp only [step] at h
    split at h
    · next hserver =>
      obtain ⟨chan, hwrite, hqueue, hrunning⟩ := hsane.write_eq .aborted .written
      rw [hwrite] at h
      cases h
      exact .write (.inr (.inl rfl)) (.inl ⟨hserver, rfl⟩) hqueue hrunning
    · cases h
  | sendCancel =>
    dsimp only [step] at h
    split at h
    · next hserver =>
      obtain ⟨chan, hwrite, hqueue, hrunning⟩ := hsane.write_eq .canceled .done
      rw [hwrite] at h
      cases h
      exact .write (.inl rfl) (.inr ⟨hserver, rfl⟩) hqueue hrunning
    · cases h
  | dropTx =>
    dsimp only [step] at h
    split at h
    · next hserver =>
      cases h
      exact .dropTx (.inl ⟨hserver, rfl⟩)
    · next hserver =>
      cases h
      exact .dropTx (.inr ⟨hserver, rfl⟩)
    · cases h
  | pollChan waker =>
    dsimp only [step, Unbounded.Channel.pollRecv] at h
    split at h
    · next hclient =>
      cases hqueue : σ.chan.queue with
      | nil =>
        rw [hqueue] at h
        rw [hsane.running] at h
        cases h
        exact .pending hclient hqueue rfl rfl
      | cons status queue =>
        rw [hqueue] at h
        cases h
        exact .result hclient hqueue hsane.running
    · cases h
  | pollRx waker =>
    dsimp only [step] at h
    split at h
    · next hclient =>
      split at h
      · next hrx =>
        obtain ⟨chan, woken, result, hpoll, hcase, hframe⟩ :=
          Bounded.Channel.pollRecv_cases hsane.size σ.now waker
        rw [hpoll] at h
        cases h
        have hunexpired := Bounded.Channel.unexpired_of_permanent hsane.permanent σ.now
        cases hcase with
        | received hitems _ _ => exact .received hclient hrx (hunexpired ▸ hitems) hframe
        | closed hnil hitems hterm _ _ =>
          have hempty := hunexpired.symm.trans hnil
          exact .closed hclient hrx hempty (hitems.trans hempty.symm) hframe hterm
        | parked hnil hitems hterm _ _ =>
          have hempty := hunexpired.symm.trans hnil
          exact .nothing hclient hrx hempty (hitems.trans hempty.symm) hframe hterm
      · next hrx =>
        cases h
        exact .skip hclient (eq_false_of_not_eq_true hrx)
    · cases h
  | dropRx =>
    dsimp only [step] at h
    split at h
    · next hclient =>
      cases h
      exact .dropRx (.inl ⟨hclient, rfl⟩)
    · next hclient =>
      split at h
      · cases h
        exact .dropRx (.inr ⟨hclient, rfl⟩)
      rename_i hrx
      cases h
      exact .gone hclient (eq_false_of_not_eq_true hrx)
    · cases h

/-! ### The invariant -/

/-- What holds in every run, right or not. -/
structure Inv (σ : State F R) : Prop extends Sane σ where
  /-- The feedback channel is a queue; a server that has panicked has lost the value that it was
  sending. -/
  fifo : ∃ rest, σ.fed = σ.seen ++ (σ.feedback.items.map (·.data) ++ rest) ∧
    (σ.server ≠ .panicked → rest = σ.server.carried)
  terminated : σ.feedback.terminated = true ↔ σ.rx = false ∨ σ.server.Dropped
  status : σ.status ≠ none → σ.server = .written ∨ σ.server = .done
  queue : σ.result = none → σ.chan.queue = σ.status.toList
  result : ∀ {status}, σ.result = some status →
    σ.status = some status ∧ (σ.client = .returning ∨ σ.client = .done)
  /-- The client has seen nothing as long as the future for the feedback has not returned. -/
  fresh : σ.rx = true → σ.client ≠ .received → σ.seen = []
  /-- The receiver is dropped after the first value, or at the end. -/
  gone : σ.rx = false ∨ σ.client.Leaving → σ.result = none → σ.seen ≠ []
  seen_le : σ.seen.length ≤ 1

namespace Inv

theorem result_none_of_client (h : σ.Inv) {client : Client} (hclient : σ.client = client)
    (hne : client ≠ .returning ∧ client ≠ .done) : σ.result = none := by
  subst hclient
  cases hresult : σ.result with
  | none => rfl
  | some status => exact absurd (h.result hresult).2 (not_or_intro hne.1 hne.2)

theorem result_none_of_status (h : σ.Inv) (hstatus : σ.status = none) : σ.result = none := by
  cases hresult : σ.result with
  | none => rfl
  | some status => cases hstatus.symm.trans (h.result hresult).1

theorem ordered (h : σ.Inv) : σ.seen <+: σ.fed := by
  obtain ⟨rest, hfed, -⟩ := h.fifo
  rw [hfed]
  exact prefix_append _ _

theorem rx_of_running (h : σ.Inv) (hterm : σ.feedback.terminated = false) : σ.rx = true := by
  rw [← not_eq_false]
  exact fun hrx => false_ne_true (hterm.symm.trans (h.terminated.mpr (.inl hrx)))

variable {old new : Server F}

section

variable (h : σ.Inv)

include h

theorem status_none (hserver : σ.server = old) (hne : old ≠ .written ∧ old ≠ .done) :
    σ.status = none := by
  subst hserver
  by_contra hstatus
  exact (h.status hstatus).elim hne.1 hne.2

theorem rx_of_refused {data : Bounded.ChannelData F} (hserver : σ.server = .sending data)
    (hterm : σ.feedback.terminated = true) : σ.rx = false := by
  refine (h.terminated.mp hterm).resolve_right fun hdropped => ?_
  rw [hserver] at hdropped
  exact hdropped

/-- A send is refused only after the client has seen a value. -/
theorem seen_ne_nil_of_refused {data : Bounded.ChannelData F} (hserver : σ.server = .sending data)
    (hterm : σ.feedback.terminated = true) : σ.seen ≠ [] :=
  h.gone (.inl (h.rx_of_refused hserver hterm))
    (h.result_none_of_status (h.status_none hserver ⟨nofun, nofun⟩))

theorem fifo_of_eq (hserver : σ.server = old) (hne : old ≠ .panicked) :
    σ.fed = σ.seen ++ (σ.feedback.items.map (·.data) ++ old.carried) := by
  subst hserver
  obtain ⟨rest, hfed, hrest⟩ := h.fifo
  rw [← hrest hne]
  exact hfed

theorem fifo_of_dropped (hdropped : σ.server.Dropped) :
    σ.fed = σ.seen ++ σ.feedback.items.map (·.data) := by
  obtain ⟨rest, hfed, hrest⟩ := h.fifo
  rw [hfed, hrest fun hs => by rw [hs] at hdropped; exact hdropped]
  cases hs : σ.server with
  | canceling | done => exact congrArg _ (append_nil _)
  | _ => rw [hs] at hdropped; cases hdropped

theorem setServer (hserver : σ.server = old) (hne : old ≠ .panicked)
    (hcarried : new.carried = old.carried) (hdropped : new.Dropped ↔ old.Dropped)
    (hold : old ≠ .written ∧ old ≠ .done) : { σ with server := new }.Inv :=
  { h with
    fifo := ⟨_, h.fifo_of_eq hserver hne, fun _ => hcarried.symm⟩
    terminated := h.terminated.trans (or_congr_right (hserver ▸ hdropped.symm))
    status := fun hsome => absurd (h.status_none hserver hold) hsome }

theorem setClient {client : Client} (hresult : σ.result = none)
    (hne : σ.client ≠ .received ∧ ¬ client.Leaving) : { σ with client := client }.Inv :=
  { h with
    result := fun hsome => absurd (hresult.symm.trans hsome) nofun
    fresh := fun hrx _ => h.fresh hrx hne.1
    gone := fun hgone => h.gone (.inl (hgone.resolve_right hne.2)) }

theorem setFeedback {chan : Bounded.Channel F} (hitems : chan.items = σ.feedback.items)
    (hframe : σ.feedback.Frame chan) : { σ with feedback := chan }.Inv :=
  { h with
    size := hframe.size ▸ h.size
    flow := hframe.attr ▸ h.flow
    permanent := hframe.attr ▸ h.permanent
    fifo := by
      obtain ⟨rest, hfed, hrest⟩ := h.fifo
      rw [← hitems] at hfed
      exact ⟨rest, hfed, hrest⟩
    terminated := hframe.terminated ▸ h.terminated }

/-- Each part of the invariant, for each kind of step. -/
theorem step (hs : σ.step a = some σ') : σ'.Inv := by
  cases step_cases h.toSane hs with
  | advance | cancel => exact { h with }
  | leave hserver | resume hserver => exact h.setServer hserver nofun rfl Iff.rfl ⟨nofun, nofun⟩
  | feed hserver =>
    refine { h with
      fifo := ⟨_, ?_, fun _ => rfl⟩
      terminated := h.terminated.trans (or_congr_right (by rw [hserver]; exact Iff.rfl))
      status := fun hsome => absurd (h.status_none hserver ⟨nofun, nofun⟩) hsome }
    rw [h.fifo_of_eq hserver nofun]
    simp only [Server.carried, append_nil, append_assoc]
  | @sent _ data chan server hserver hterm hitems hframe hnext =>
    have hcarried : server.carried = [] := by
      rcases hnext with rfl | rfl <;> rfl
    have hdropped : server.Dropped ↔ σ.server.Dropped := by
      rw [hserver]
      rcases hnext with rfl | rfl <;> exact Iff.rfl
    refine { h with
      size := hframe.size ▸ h.size
      flow := hframe.attr ▸ h.flow
      permanent := hframe.attr ▸ h.permanent
      fifo := ⟨_, ?_, fun _ => rfl⟩
      terminated := hframe.terminated ▸ h.terminated.trans (or_congr_right hdropped.symm)
      status := fun hsome => absurd (h.status_none hserver ⟨nofun, nofun⟩) hsome }
    rw [h.fifo_of_eq hserver nofun, hitems, hcarried, map_append, append_nil]
    rfl
  | full _ _ _ hitems hframe => exact h.setFeedback hitems hframe
  | refused hserver _ =>
    obtain ⟨rest, hfed, -⟩ := h.fifo
    exact { h with
      fifo := ⟨rest, hfed, fun hne => absurd rfl hne⟩
      terminated := h.terminated.trans (or_congr_right (by rw [hserver]; exact Iff.rfl))
      status := fun hsome => absurd (h.status_none hserver ⟨nofun, nofun⟩) hsome }
  | @write _ chan status server _ hserver hqueue hrunning =>
    have hstatus : σ.status = none := by
      rcases hserver with ⟨hs', -⟩ | ⟨hs', -⟩ <;> exact h.status_none hs' ⟨nofun, nofun⟩
    have hset : { σ with server := server }.Inv := by
      rcases hserver with ⟨hs', rfl⟩ | ⟨hs', rfl⟩ <;>
        exact h.setServer hs' nofun rfl Iff.rfl ⟨nofun, nofun⟩
    exact { hset with
      running := hrunning
      status := fun _ => hserver.imp And.right And.right
      queue := fun hnone => by rw [hqueue, h.queue hnone, hstatus]; rfl
      result := fun hsome => absurd ((h.result_none_of_status hstatus).symm.trans hsome) nofun }
  | @dropTx server hserver =>
    have hfifo : σ.fed = σ.seen ++ (σ.feedback.items.map (·.data) ++ server.carried) := by
      rcases hserver with ⟨hs', rfl⟩ | ⟨hs', rfl⟩ <;> exact (h.fifo_of_eq hs' nofun :)
    have hdropped : server.Dropped := by
      rcases hserver with ⟨-, rfl⟩ | ⟨-, rfl⟩ <;> exact trivial
    refine { h with
      fifo := ⟨_, hfifo, fun _ => rfl⟩
      terminated := iff_of_true rfl (.inr hdropped)
      status := fun hsome => ?_ }
    rcases hserver with ⟨hs', -⟩ | ⟨-, hd⟩
    · exact absurd (h.status_none hs' ⟨nofun, nofun⟩) hsome
    · exact .inr hd
  | pending hclient hnil hnil' hrunning =>
    have hresult := h.result_none_of_client hclient ⟨nofun, nofun⟩
    have hne : σ.client ≠ .received ∧ ¬ Client.polled.Leaving := by
      rw [hclient]
      exact ⟨nofun, id⟩
    exact { h.setClient hresult hne with
      running := hrunning
      queue := fun hnone => hnil'.trans (hnil.symm.trans (h.queue hnone)) }
  | @result _ chan status hclient hqueue hrunning =>
    have hresult := h.result_none_of_client hclient ⟨nofun, nofun⟩
    have hstatus : σ.status = some status := by
      have hlist := (h.queue hresult).symm.trans hqueue
      cases hst : σ.status with
      | none => rw [hst] at hlist; cases hlist
      | some st => rw [hst] at hlist; exact congrArg some (cons.inj hlist).1
    refine { h with
      running := hrunning
      queue := fun hnone => absurd hnone nofun
      result := fun hsome => ⟨hstatus.trans hsome, .inl rfl⟩
      fresh := fun hrx _ => h.fresh hrx ?_
      gone := fun _ hnone => absurd hnone nofun }
    rw [hclient]
    exact nofun
  | skip hclient _ =>
    refine h.setClient (h.result_none_of_client hclient ⟨nofun, nofun⟩) ?_
    rw [hclient]
    exact ⟨nofun, id⟩
  | received hclient hrx hitems hframe =>
    have hseen : σ.seen = [] := h.fresh hrx (by rw [hclient]; exact nofun)
    have hresult := h.result_none_of_client hclient ⟨nofun, nofun⟩
    obtain ⟨rest, hfed, hrest⟩ := h.fifo
    refine { h with
      size := hframe.size ▸ h.size
      flow := hframe.attr ▸ h.flow
      permanent := hframe.attr ▸ h.permanent
      fifo := ⟨rest, ?_, hrest⟩
      terminated := hframe.terminated ▸ h.terminated
      result := fun hsome => absurd (hresult.symm.trans hsome) nofun
      fresh := fun _ hne => absurd rfl hne
      gone := fun _ _ => append_ne_nil_of_right_ne_nil _ (cons_ne_nil _ _)
      seen_le := ?_ }
    · rw [hitems, map_cons] at hfed
      rw [hfed, append_assoc]
      rfl
    · rw [hseen]
      exact le_rfl
  | nothing hclient _ _ hitems hframe | closed hclient _ _ hitems hframe =>
    have hresult := h.result_none_of_client hclient ⟨nofun, nofun⟩
    refine (h.setFeedback hitems hframe).setClient hresult ⟨?_, id⟩
    change σ.client ≠ .received
    rw [hclient]
    exact nofun
  | dropRx hclient =>
    refine { h with
      terminated := iff_of_true rfl (.inl rfl)
      result := fun hsome => ?_
      fresh := nofun
      gone := fun _ hnone => ?_ }
    · obtain ⟨hstatus, hend⟩ := h.result hsome
      rcases hclient with ⟨hc, -⟩ | ⟨-, hc⟩
      · rw [hc] at hend
        exact absurd hend (by decide)
      · exact ⟨hstatus, .inr hc⟩
    · refine h.gone (.inr ?_) hnone
      rcases hclient with ⟨hc, -⟩ | ⟨hc, -⟩ <;> rw [hc] <;> exact trivial
  | gone hclient hrx =>
    exact { h with
      result := fun hsome => ⟨(h.result hsome).1, .inr rfl⟩
      fresh := fun hrx' _ => absurd (hrx.symm.trans hrx') nofun
      gone := fun _ => h.gone (.inl hrx) }

end

theorem init (hsize : 0 < attr.queueSize)
    (hflow : attr.flowControl = true) (hperm : attr.lifespan = .permanent) :
    (State.init attr : State F R).Inv where
  size := hsize.trans_eq (RingQ.queueSize_new _).symm
  flow := hflow
  permanent := hperm
  running := rfl
  fifo := ⟨[], rfl, fun _ => rfl⟩
  terminated := iff_of_false nofun (not_or_intro nofun id)
  status := fun hne => absurd rfl hne
  queue := fun _ => rfl
  result := nofun
  fresh := fun _ _ => rfl
  gone := fun h => absurd h (not_or_intro nofun id)
  seen_le := Nat.zero_le 1

end Inv

/-! ### When a run is right -/

theorem Right.seen_eq (h : σ.Right) (hsome : σ.result ≠ none) : σ.seen = σ.fed := by
  obtain ⟨status, hstatus⟩ := Option.ne_none_iff_exists'.mp hsome
  exact (h.complete hstatus).1

/-- **A step goes right exactly if it is not one of the three.** -/
theorem right_step (h : σ.Inv) (hright : σ.Right) (hs : σ.step a = some σ') :
    σ'.Right ↔ σ.Takes a := by
  have hinv := h.step hs
  -- the order and the status are right in any case
  have hiff : σ'.Right ↔ σ'.server ≠ .panicked ∧ σ'.client ≠ .panicked ∧
      (σ'.result ≠ none → σ'.seen = σ'.fed) := by
    constructor
    · exact fun hr => ⟨hr.server, hr.client, hr.seen_eq⟩
    rintro ⟨hserver, hclient, hseen⟩
    refine ⟨hserver, hclient, hinv.ordered, fun hsome => ⟨hseen ?_, (hinv.result hsome).1⟩⟩
    rw [hsome]
    exact nofun
  have hseen := hright.seen_eq
  rw [hiff]
  cases step_cases h.toSane hs with
  | advance | cancel => exact iff_of_true ⟨hright.server, hright.client, hseen⟩ trivial
  | leave | resume => exact iff_of_true ⟨nofun, hright.client, hseen⟩ trivial
  | feed hserver =>
    refine iff_of_true ⟨nofun, hright.client, fun hsome => absurd ?_ hsome⟩ trivial
    exact h.result_none_of_status (h.status_none hserver ⟨nofun, nofun⟩)
  | sent hserver hterm _ _ hnext =>
    refine iff_of_true ⟨?_, hright.client, hseen⟩ (h.rx_of_running hterm)
    rcases hnext with rfl | rfl <;> exact nofun
  | full hserver hterm _ _ _ =>
    exact iff_of_true ⟨hright.server, hright.client, hseen⟩ (h.rx_of_running hterm)
  | refused hserver hterm =>
    refine iff_of_false (fun hr => hr.1 rfl) fun hrx => ?_
    exact false_ne_true ((h.rx_of_refused hserver hterm).symm.trans hrx)
  | write ha hserver _ _ =>
    refine iff_of_true ⟨?_, hright.client, hseen⟩ ?_
    · rcases hserver with ⟨-, rfl⟩ | ⟨-, rfl⟩ <;> exact nofun
    · rcases ha with rfl | rfl | ⟨r, rfl⟩ <;> exact trivial
  | dropTx hserver =>
    refine iff_of_true ⟨?_, hright.client, hseen⟩ trivial
    rcases hserver with ⟨-, rfl⟩ | ⟨-, rfl⟩ <;> exact nofun
  | pending _ hnil _ _ =>
    exact iff_of_true ⟨hright.server, nofun, hseen⟩ fun hne => absurd hnil hne
  | result _ hqueue _ =>
    have hne : σ.chan.queue ≠ [] := by
      rw [hqueue]
      exact cons_ne_nil _ _
    exact ⟨fun hr _ => hr.2.2 nofun, fun htakes => ⟨hright.server, nofun, fun _ => htakes hne⟩⟩
  | skip _ hrx =>
    exact iff_of_true ⟨hright.server, nofun, hseen⟩ fun hrx' => absurd (hrx.symm.trans hrx') nofun
  | received hclient _ hitems _ =>
    have hresult := h.result_none_of_client hclient ⟨nofun, nofun⟩
    refine iff_of_true ⟨hright.server, nofun, fun hsome => absurd hresult hsome⟩ fun _ hnil => ?_
    exact absurd (hitems.symm.trans hnil) (cons_ne_nil _ _)
  | nothing _ _ _ _ _ hterm => exact iff_of_true ⟨hright.server, nofun, hseen⟩ fun _ _ => hterm
  | closed _ hrx hnil _ _ hterm =>
    refine iff_of_false (fun hr => hr.2.1 rfl) fun htakes => ?_
    exact false_ne_true ((htakes hrx hnil).symm.trans hterm)
  | dropRx hclient =>
    refine iff_of_true ⟨hright.server, ?_, hseen⟩ trivial
    rcases hclient with ⟨-, rfl⟩ | ⟨-, rfl⟩ <;> exact nofun
  | gone _ _ => exact iff_of_true ⟨hright.server, nofun, hseen⟩ trivial

/-! ### What the calls say about the state -/

theorem fed_run (h : σ.Inv) {calls : List (Action F R)} (hrun : run State.step σ calls = some σ') :
    σ'.fed = σ.fed ++ if σ.cancel then [] else feedbacks calls := by
  induction calls generalizing σ with
  | nil =>
    cases hrun
    simp [feedbacks]
  | cons a calls ih =>
    obtain ⟨σ₁, hs, hrest⟩ := Option.bind_eq_some_iff.mp hrun
    have hfed := ih (h.step hs) hrest
    cases step_cases h.toSane hs with
    | cancel => simpa [feedbacks] using hfed
    | leave _ hcancel | feed _ hcancel => simpa [hcancel, feedbacks] using hfed
    | write ha _ _ _ => rcases ha with rfl | rfl | ⟨r, rfl⟩ <;> exact hfed
    | _ => exact hfed

/-- The calls `before` lead to the state `σ`. -/
structure History (before : List (Action F R)) (σ : State F R) : Prop where
  written : (∃ a ∈ before, Action.Writes a) ↔ σ.status ≠ none
  dropped : .dropTx ∈ before ↔ σ.server.Dropped
  sent : (∃ waker, .pollSend waker ∈ before) ↔ σ.feedback.items ≠ [] ∨ σ.seen ≠ []
  polled : PolledAfterSend before ↔ σ.seen ≠ []

theorem polledAfterSend_concat {before : List (Action F R)} :
    PolledAfterSend (before ++ [a]) ↔ PolledAfterSend before ∨
      (∃ waker, a = .pollRx waker) ∧ ∃ waker, .pollSend waker ∈ before := by
  constructor
  · rintro ⟨waker, waker', h⟩
    obtain ⟨l₁, l₂, hl, h₁, h₂⟩ := sublist_append_iff.mp h
    rcases sublist_singleton.mp h₂ with rfl | rfl
    · rw [append_nil] at hl
      exact .inl ⟨waker, waker', hl ▸ h₁⟩
    · obtain ⟨rfl, ha⟩ : [.pollSend waker] = l₁ ∧ [.pollRx waker'] = [a] := append_inj' hl rfl
      exact .inr ⟨⟨waker', (cons.inj ha).1.symm⟩, waker, singleton_sublist.mp h₁⟩
  · rintro (⟨waker, waker', h⟩ | ⟨⟨waker', rfl⟩, waker, h⟩)
    · exact ⟨waker, waker', h.trans (sublist_append_left _ _)⟩
    · exact ⟨waker, waker', (singleton_sublist.mpr h).append (.refl _)⟩

namespace History

variable {before : List (Action F R)} (h : History before σ)

include h

theorem concat (hstatus : σ'.status ≠ none ↔ σ.status ≠ none ∨ Action.Writes a)
    (hdropped : σ'.server.Dropped ↔ σ.server.Dropped ∨ a = .dropTx)
    (hsent : σ'.feedback.items ≠ [] ∨ σ'.seen ≠ [] ↔
      (σ.feedback.items ≠ [] ∨ σ.seen ≠ []) ∨ ∃ waker, a = .pollSend waker)
    (hseen : σ'.seen ≠ [] ↔ σ.seen ≠ [] ∨
      (∃ waker, a = .pollRx waker) ∧ (σ.feedback.items ≠ [] ∨ σ.seen ≠ [])) :
    History (before ++ [a]) σ' where
  written := by simp only [mem_append, mem_singleton, or_and_right, exists_or, exists_eq_left,
    h.written, hstatus]
  dropped := by rw [hdropped, ← h.dropped, mem_append, mem_singleton, eq_comm (a := a)]
  sent := by simp only [hsent, ← h.sent, mem_append, mem_singleton, exists_or, eq_comm (a := a)]
  polled := by rw [hseen, polledAfterSend_concat, h.polled, h.sent]

/-- A step that is no poll of the feedback channel, no write and no drop of `tx`. -/
theorem frame (hstatus : σ'.status = σ.status) (hdropped : σ'.server.Dropped ↔ σ.server.Dropped)
    (hitems : σ'.feedback.items = σ.feedback.items) (hseen : σ'.seen = σ.seen)
    (ha : ¬ Action.Writes a ∧ a ≠ .dropTx ∧ (∀ waker, a ≠ .pollSend waker) ∧
      ∀ waker, a ≠ .pollRx waker) : History (before ++ [a]) σ' := by
  obtain ⟨hwrites, hdrop, hsend, hpoll⟩ := ha
  refine h.concat ?_ ?_ ?_ ?_ <;> simp [*]

/-- **The calls so far** after a step. -/
theorem step (hinv : σ.Inv) (hs : σ.step a = some σ') : History (before ++ [a]) σ' := by
  cases step_cases hinv.toSane hs with
  | advance | cancel | pending | result | dropRx | gone =>
    exact h.frame rfl Iff.rfl rfl rfl ⟨id, nofun, nofun, nofun⟩
  | leave hserver | feed hserver | resume hserver =>
    exact h.frame rfl (by rw [hserver]; exact Iff.rfl) rfl rfl ⟨id, nofun, nofun, nofun⟩
  | sent hserver _ hitems _ hnext =>
    refine h.concat ?_ ?_ ?_ ?_
    · simp [Action.Writes]
    · rcases hnext with rfl | rfl <;> simp [hserver, Server.Dropped]
    · simp [hitems]
    · simp
  | full hserver _ hne hitems _ =>
    refine h.concat ?_ ?_ ?_ ?_ <;> simp [Action.Writes, hitems, hne]
  | refused hserver hterm =>
    have hseen := hinv.seen_ne_nil_of_refused hserver hterm
    refine h.concat ?_ ?_ ?_ ?_ <;> simp [Action.Writes, hserver, Server.Dropped, hseen]
  | write ha hserver _ _ =>
    have hdropped : ∀ server : Server F, (σ.server = .ready ∧ server = .written) ∨
        (σ.server = .canceling ∧ server = .done) → (server.Dropped ↔ σ.server.Dropped) := by
      rintro server (⟨hs', rfl⟩ | ⟨hs', rfl⟩) <;> rw [hs'] <;> exact Iff.rfl
    rcases ha with rfl | rfl | ⟨r, rfl⟩ <;> refine h.concat ?_ ?_ ?_ ?_ <;>
      simp [Action.Writes, hdropped _ hserver]
  | dropTx hserver =>
    refine h.concat ?_ ?_ ?_ ?_
    · simp [Action.Writes]
    · rcases hserver with ⟨-, rfl⟩ | ⟨-, rfl⟩ <;> simp [Server.Dropped]
    · exact (or_iff_left nofun).symm
    · simp
  | skip hclient hrx =>
    have hseen := hinv.gone (.inl hrx) (hinv.result_none_of_client hclient ⟨nofun, nofun⟩)
    refine h.concat ?_ ?_ ?_ ?_ <;> simp [Action.Writes, hseen]
  | received _ _ hitems _ =>
    refine h.concat ?_ ?_ ?_ ?_ <;> simp [Action.Writes, hitems]
  | nothing hclient hrx hnil hitems _ _ | closed hclient hrx hnil hitems _ _ =>
    have hseen : σ.seen = [] := hinv.fresh hrx (by rw [hclient]; exact nofun)
    refine h.concat ?_ ?_ ?_ ?_ <;> simp [Action.Writes, hitems, hnil, hseen]

end History

theorem history_of_run (hinit : (init attr : State F R).Inv) {calls : List (Action F R)}
    (hrun : run step (init attr) calls = some σ) : σ.Inv ∧ History calls σ := by
  induction calls using List.reverseRecOn generalizing σ with
  | nil =>
    cases hrun
    refine ⟨hinit, iff_of_false (fun ⟨_, ha, _⟩ => nomatch ha) (absurd rfl), iff_of_false nofun id,
      iff_of_false (fun ⟨_, ha⟩ => nomatch ha) (not_or_intro (absurd rfl) (absurd rfl)),
      iff_of_false (fun ⟨_, _, hsub⟩ => nomatch hsub) (absurd rfl)⟩
  | append_singleton calls a ih =>
    rw [run_append] at hrun
    obtain ⟨σ₁, hrun₁, hs⟩ := Option.bind_eq_some_iff.mp hrun
    obtain ⟨hinv, hhist⟩ := ih hrun₁
    obtain ⟨σ₂, hs, hnil⟩ := Option.bind_eq_some_iff.mp hs
    cases hnil
    exact ⟨hinv.step hs, hhist.step hinv hs⟩

section

variable {before : List (Action F R)} (hinv : σ.Inv) (hhist : History before σ)
  (hfed : σ.fed = feedbacks before) (hs : σ.step a = some σ')

include hinv hhist hfed hs

theorem Takes.prompt (h : σ.Takes a) : Prompt before a := by
  cases step_cases hinv.toSane hs with
  | pending hclient hnil _ _ =>
    intro hwritten
    rw [hinv.queue (hinv.result_none_of_client hclient ⟨nofun, nofun⟩), Option.toList_eq_nil_iff]
      at hnil
    exact absurd hnil (hhist.written.mp hwritten)
  | result _ hqueue _ =>
    intro _ hne
    rw [hhist.polled, h (by rw [hqueue]; exact cons_ne_nil _ _), hfed]
    exact hne
  | skip hclient hrx =>
    have hseen := hinv.gone (.inl hrx) (hinv.result_none_of_client hclient ⟨nofun, nofun⟩)
    intro _ hnil
    exact hseen (prefix_nil.mp (hnil ▸ hfed ▸ hinv.ordered))
  | received _ _ hitems _ =>
    obtain ⟨rest, hfifo, -⟩ := hinv.fifo
    intro _
    rw [← hfed, hfifo, hitems]
    simp
  | nothing _ _ _ _ _ hterm =>
    intro hdrop
    have hterm' := hinv.terminated.mpr (.inr (hhist.dropped.mp hdrop))
    exact absurd (hterm.symm.trans hterm') nofun
  | closed _ hrx hnil _ _ hterm => exact absurd ((h hrx hnil).symm.trans hterm) nofun
  | write ha _ _ _ => rcases ha with rfl | rfl | ⟨r, rfl⟩ <;> exact trivial
  | _ => exact trivial

theorem Prompt.takes (hone : σ.fed.length ≤ 1) (h : Prompt before a) : σ.Takes a := by
  cases step_cases hinv.toSane hs with
  | sent _ hterm _ _ _ | full _ hterm _ _ _ => exact hinv.rx_of_running hterm
  | refused hserver hterm =>
    -- the value that is refused is the second
    have hpos := length_pos_iff.mpr (hinv.seen_ne_nil_of_refused hserver hterm)
    rw [hinv.fifo_of_eq hserver nofun, length_append, length_append] at hone
    simp only [Server.carried, length_singleton] at hone
    omega
  | pending _ hnil _ _ => exact absurd hnil
  | result hclient hqueue _ =>
    intro hne
    have hwritten : σ.status ≠ none := by
      rw [hinv.queue (hinv.result_none_of_client hclient ⟨nofun, nofun⟩)] at hne
      exact fun hnone => hne (by rw [hnone]; rfl)
    refine hinv.ordered.eq_of_length_le ?_
    by_cases hnil : σ.fed = []
    · rw [hnil]
      exact Nat.zero_le _
    · have hseen := hhist.polled.mp (h (hhist.written.mpr hwritten) (hfed ▸ hnil))
      exact hone.trans (length_pos_iff.mpr hseen)
  | skip _ hrx => exact fun hrx' => absurd (hrx.symm.trans hrx') nofun
  | received _ _ hitems _ => exact fun _ hnil => absurd (hitems.symm.trans hnil) (cons_ne_nil _ _)
  | nothing _ _ _ _ _ hterm => exact fun _ _ => hterm
  | closed hclient hrx hnil _ _ hterm =>
    -- the sender was dropped and no value was sent
    have hdropped : σ.server.Dropped := by
      refine (hinv.terminated.mp hterm).resolve_left fun hrx' => ?_
      exact false_ne_true (hrx'.symm.trans hrx)
    have hseen : σ.seen = [] := hinv.fresh hrx (by rw [hclient]; exact nofun)
    refine absurd ?_ (h (hhist.dropped.mpr hdropped))
    rw [← hfed, hinv.fifo_of_dropped hdropped, hseen, hnil]
    rfl
  | write ha _ _ _ => rcases ha with rfl | rfl | ⟨r, rfl⟩ <;> exact trivial
  | _ => exact trivial

end

theorem feedbacks_append (calls calls' : List (Action F R)) :
    feedbacks calls <+: feedbacks (calls ++ calls') := by
  induction calls with
  | nil => exact nil_prefix
  | cons a calls ih =>
    cases a with
    | cancel => exact prefix_rfl
    | sendFeedback => exact (prefix_cons_inj _).mpr ih
    | _ => exact ih

theorem forall_prompt_concat {calls : List (Action F R)} : (∀ i (h : i < (calls ++ [a]).length),
      Prompt ((calls ++ [a]).take i) (calls ++ [a])[i]) ↔
    (∀ i (h : i < calls.length), Prompt (calls.take i) calls[i]) ∧ Prompt calls a := by
  have hlength : (calls ++ [a]).length = calls.length + 1 := length_append
  constructor
  · refine fun h => ⟨fun i hi => ?_, ?_⟩
    · have hprompt := h i (by omega)
      rwa [take_append_of_le_length hi.le, getElem_append_left hi] at hprompt
    · have hprompt := h calls.length (by omega)
      rwa [take_left, getElem_concat_length rfl] at hprompt
  · rintro ⟨h, ha⟩ i hi
    rcases Nat.lt_succ_iff_lt_or_eq.mp (hlength ▸ hi) with hi | rfl
    · rw [take_append_of_le_length hi.le, getElem_append_left hi]
      exact h i hi
    · rw [take_left, getElem_concat_length rfl]
      exact ha

/-- The steps of a run are in time exactly if its calls are, as far as there is one value. -/
theorem meets_takes (hinit : (init attr : State F R).Inv) {calls : List (Action F R)}
    (hrun : run step (init attr) calls = some σ) :
    (Meets step Takes (init attr) calls →
      ∀ i (h : i < calls.length), Prompt (calls.take i) calls[i]) ∧
    (InTime calls → Meets step Takes (init attr) calls) := by
  induction calls using List.reverseRecOn generalizing σ with
  | nil => exact ⟨fun _ => nofun, fun _ => trivial⟩
  | append_singleton calls a ih =>
    rw [run_append] at hrun
    obtain ⟨σ₁, hrun₁, hs⟩ := Option.bind_eq_some_iff.mp hrun
    obtain ⟨σ₂, hs, -⟩ := Option.bind_eq_some_iff.mp hs
    obtain ⟨hinv, hhist⟩ := history_of_run hinit hrun₁
    have hfed : σ₁.fed = feedbacks calls := fed_run hinit hrun₁
    obtain ⟨hprompt, hmeets⟩ := ih hrun₁
    rw [meets_concat hrun₁, forall_prompt_concat]
    refine ⟨fun h => ⟨hprompt h.1, h.2.prompt hinv hhist hfed hs⟩, fun h => ?_⟩
    obtain ⟨hone, hall⟩ := h
    have hone' := (feedbacks_append calls [a]).length_le.trans hone
    obtain ⟨hall, ha⟩ := forall_prompt_concat.mp hall
    exact ⟨hmeets ⟨hone', hall⟩, ha.takes hinv hhist hfed hs (hfed ▸ hone')⟩

/-- **Action feedback, and when it is right.** For every attribute with flow control, no expiry and
room for a message, and every run: if its calls are in time, then nobody panics, and the client sees
the feedback values of the server in order, and all of them before the result, in all states of the
run. A run in which the client gets the result is right only if its calls are in time. -/
theorem feedback_iff {attr : Bounded.Attribute} (hsize : 0 < attr.queueSize)
    (hflow : attr.flowControl = true) (hperm : attr.lifespan = .permanent)
    (calls : List (Action F R)) (σ : State F R) (hrun : run step (init attr) calls = some σ) :
    (InTime calls → Always step Right (init attr) calls) ∧
      (σ.result ≠ none → Always step Right (init attr) calls → InTime calls) := by
  have hinit : (init attr : State F R).Inv := .init hsize hflow hperm
  have hiff : Always step Right (init attr) calls ↔ Meets step Takes (init attr) calls :=
    always_iff_meets (I := Inv) (fun hI hP hs => ⟨hI.step hs, right_step hI hP hs⟩) hinit
      ⟨nofun, nofun, prefix_rfl, nofun⟩ hrun
  obtain ⟨hprompt, hmeets⟩ := meets_takes hinit hrun
  refine ⟨fun h => hiff.mpr (hmeets h), fun hresult h => ⟨?_, hprompt (hiff.mp h)⟩⟩
  -- the client has seen all values, and it sees at most one
  obtain ⟨hinv, -⟩ := history_of_run hinit hrun
  have hfed : σ.fed = feedbacks calls := fed_run hinit hrun
  rw [← hfed, ← (h.last hrun).seen_eq hresult]
  exact hinv.seen_le

/-- One feedback value, for which the client polls before it polls for the result. -/
def oneFeedback : List (Action Nat Nat) :=
  [.sendFeedback 1, .pollSend 0, .pollChan 0, .pollRx 0, .dropRx, .sendResult 5, .pollChan 0,
    .dropTx, .dropRx]

/-- With one feedback value the run can be right in all its states. -/
theorem feedback_iff_one : ∃ σ : State Nat Nat,
    run step (init ⟨10, true, .permanent⟩) oneFeedback = some σ ∧ σ.seen = [1] ∧
      σ.result = some (.succeeded 5) ∧ InTime oneFeedback ∧
      Always step Right (init ⟨10, true, .permanent⟩) oneFeedback := by
  obtain ⟨σ, hrun, hσ⟩ := exists_of_run_any step
    (init ⟨10, true, .permanent⟩ : State Nat Nat) oneFeedback
    (fun σ => decide (σ.seen = [1]) && decide (σ.result = some (.succeeded 5))) (by decide)
  rw [and_eq_true, decide_eq_true_iff, decide_eq_true_iff] at hσ
  have htime : InTime oneFeedback := by
    refine ⟨by decide, fun i hi => ?_⟩
    match i, hi with
    | 2, _ => simp [oneFeedback, Prompt, Action.Writes]
    | 3, _ => exact fun _ => cons_ne_nil _ _
    | 6, _ => exact fun _ _ => ⟨0, 0, by simp [oneFeedback]⟩
    | 0, _ | 1, _ | 4, _ | 5, _ | 7, _ | 8, _ => exact trivial
  exact ⟨σ, hrun, hσ.1, hσ.2, htime,
    (feedback_iff (by decide) rfl rfl oneFeedback σ hrun).1 htime⟩

/-- The second feedback value makes the server panic. A result overtakes the feedback value before
it. Without any feedback the client panics when `tx` is dropped between its two polls, and also
when a canceled server has dropped `tx` and has not written its status yet. -/
theorem feedback_lost_or_panic : (∃ σ : State Nat Nat, run step (init ⟨10, true, .permanent⟩)
        [.sendFeedback 1, .pollSend 0, .pollChan 0, .pollRx 0, .dropRx, .sendFeedback 2,
          .pollSend 0] = some σ ∧ σ.server = .panicked) ∧
    (∃ σ : State Nat Nat, run step (init ⟨10, true, .permanent⟩)
        [.sendFeedback 1, .pollSend 0, .sendResult 5, .pollChan 0] = some σ ∧
      σ.result = some (.succeeded 5) ∧ σ.fed = [1] ∧ σ.seen = []) ∧
    (∃ σ : State Nat Nat, run step (init ⟨10, true, .permanent⟩)
        [.pollChan 0, .sendResult 5, .dropTx, .pollRx 0] = some σ ∧ σ.client = .panicked) ∧
    ∃ σ : State Nat Nat, run step (init ⟨10, true, .permanent⟩)
        [.cancel, .sendFeedback 1, .dropTx, .pollChan 0, .pollRx 0] = some σ ∧
      σ.client = .panicked :=
  ⟨⟨_, rfl, rfl⟩, ⟨_, rfl, rfl, rfl, rfl⟩, ⟨_, rfl, rfl⟩, ⟨_, rfl, rfl⟩⟩

/-- **The client sees at most one value.** -/
theorem seen_length_le_one (hsize : 0 < attr.queueSize)
    (hflow : attr.flowControl = true) (hperm : attr.lifespan = .permanent) {σ : State F R}
    (h : Reaches State.step (fun _ _ => True) (State.init attr) σ) : σ.seen.length ≤ 1 :=
  (h.invariant (I := Inv) (Inv.init hsize hflow hperm) fun _ _ _ hI _ hs => hI.step hs).seen_le

theorem seen_length_le_one_received : ∃ σ : State Nat Nat,
    Reaches step (fun _ _ => True) (init ⟨10, true, .permanent⟩) σ ∧
      σ.seen = [1] ∧ σ.seen.length ≤ 1 :=
  Reaches.exists_of_run_imp [.sendFeedback 1, .pollSend 0, .pollChan 0, .pollRx 0]
    (·.seen = [1]) (by decide) fun _ h hseen => ⟨hseen, seen_length_le_one (by decide) rfl rfl h⟩

end State

end Feedback

end Awkernel
