import Awkernel.Lib.TransitionSystem
import Awkernel.PubSub.Subscriber

/-!
# Futures that wait for the timer

`awkernel_async_lib/src/{sleep_task, sleep_until_task, timeout_call}.rs`: the first poll of a
`Sleep` or a `SleepUntil` registers a handler with the timer. The handler holds the state of the
future and the waker of that poll, and the state decides whether it wakes. A `Timeout` polls its
own future and, once, a `Sleep`.

The timer may run a registered handler at any time (`Action.fire`): nothing below depends on the
time a handler was registered for. A poll, a handler, a cancellation and a drop each hold the
mutex of the state, so that each is one step.

A later poll leaves the handler as it is, and with it the waker of the first poll. So a future that
has moved to another task wakes the task that it came from (`first_poller_woken`). A run in which
the timer always wakes the last poller is one in which no poll that waits brings a new waker, and
no `Timeout` waits again after it was ready (`wakes_last_poller_iff`).
-/

namespace Awkernel

open TransitionSystem List Option

variable {s : State}

namespace TimerFuture

/-- `sleep_task::State`, and the same type in `sleep_until_task.rs`. -/
inductive State
  | ready
  | wait
  | canceled
  | finished
  deriving DecidableEq

/-- What a handler is registered for. The times are in nanoseconds. -/
inductive Request
  | sleepTask (dur : Nat)
  | sleepUntilTask (next : Nat)
  deriving DecidableEq

/-- A handler that the timer has not run: the closure of a poll, with the waker it holds. -/
structure Handler where
  request : Request
  waker : Waker
  deriving DecidableEq

/-- The closure: the new state, and the waker that it calls. -/
def Handler.run (h : Handler) : State → State × Option Waker
  | .wait => (.finished, some h.waker)
  | s => (s, none)

namespace State

/-- `poll`, with the handler that it registers. -/
def poll (request : Request) (waker : Waker) : State → State × Option Handler × Poll State
  | .wait => (.wait, none, .pending)
  | .canceled => (.canceled, none, .ready .canceled)
  | .finished => (.finished, none, .ready .finished)
  | .ready => (.wait, some ⟨request, waker⟩, .pending)

/-- `cancel_unpin`. -/
def cancelUnpin : State → State
  | .ready | .wait => .canceled
  | s => s

/-- `is_terminated`. -/
def isTerminated : State → Bool
  | .finished | .canceled => true
  | _ => false

/-- `drop`. -/
def drop : State → State
  | .wait => .canceled
  | s => s

theorem cancelUnpin_ne_wait (s : State) : s.cancelUnpin ≠ .wait := by
  cases s <;> exact nofun

theorem drop_eq_ready : s.drop = .ready ↔ s = .ready := by
  cases s <;> decide

theorem run_fst_eq_ready {h : Handler} : (h.run s).1 = .ready ↔ s = .ready := by
  cases s with
  | ready => exact iff_of_true rfl rfl
  | wait | canceled | finished => exact iff_of_false nofun nofun

theorem run_snd_eq_none {h : Handler} : (h.run s).2 = none ↔ s ≠ .wait := by
  cases s with
  | wait => exact iff_of_false nofun fun hne => hne rfl
  | ready | canceled | finished => exact iff_of_true rfl nofun

end State

/-- `Sleep`. -/
structure Sleep where
  state : State
  dur : Nat
  deriving DecidableEq

def Sleep.new (dur : Nat) : Sleep := ⟨.ready, dur⟩

def Sleep.poll (waker : Waker) (s : Sleep) : Sleep × Option Handler × Poll State :=
  let (state, handler, result) := s.state.poll (.sleepTask s.dur) waker
  ({ s with state := state }, handler, result)

/-- `SleepUntil`. -/
structure SleepUntil where
  state : State
  next : Nat
  deriving DecidableEq

def SleepUntil.new (next : Nat) : SleepUntil := ⟨.ready, next⟩

def SleepUntil.poll (waker : Waker) (s : SleepUntil) : SleepUntil × Option Handler × Poll State :=
  let (state, handler, result) := s.state.poll (.sleepUntilTask s.next) waker
  ({ s with state := state }, handler, result)

/-- `timeout_call::State`. -/
inductive TimeoutState
  | start
  | await
  | finished
  deriving DecidableEq

/-- `Timeout`, apart from the future that it was given. -/
structure Timeout where
  sleep : Sleep
  state : TimeoutState
  deriving DecidableEq

namespace Timeout

variable {T : Type}

def new (duration : Nat) : Timeout := ⟨.new duration, .start⟩

/-- `poll`, where the given future returns `inner`. `none` is the `unreachable!()`. -/
def poll (inner : Poll T) (waker : Waker) (t : Timeout) :
    Option (Timeout × Option Handler × Poll (Option T)) :=
  match t.state with
  | .start =>
    match inner with
    | .ready result => some (t, none, .ready (some result))
    | .pending =>
      let (sleep, handler, _) := t.sleep.poll waker
      some ({ sleep := sleep, state := .await }, handler, .pending)
  | .await =>
    match inner with
    | .ready result =>
      let sleep := { t.sleep with state := t.sleep.state.cancelUnpin }
      some ({ sleep := sleep, state := .finished }, none, .ready (some result))
    | .pending =>
      if t.sleep.state.isTerminated then
        some ({ t with state := .finished }, none, .ready none)
      else some (t, none, .pending)
  | .finished => none

end Timeout

end TimerFuture

/-- The futures of the three files. -/
inductive TimerFuture
  | sleep (s : TimerFuture.Sleep)
  | sleepUntil (s : TimerFuture.SleepUntil)
  | timeout (t : TimerFuture.Timeout)
  deriving DecidableEq

namespace TimerFuture

variable {T : Type} {h : Option Handler} {waker : Waker} {f f' : TimerFuture}

/-- The state that the handler holds. -/
def state : TimerFuture → State
  | .sleep s => s.state
  | .sleepUntil s => s.state
  | .timeout t => t.sleep.state

def setState (state : State) : TimerFuture → TimerFuture
  | .sleep s => .sleep { s with state := state }
  | .sleepUntil s => .sleepUntil { s with state := state }
  | .timeout t => .timeout { t with sleep := { t.sleep with state := state } }

/-- What a future returns. -/
inductive Output (T : Type)
  | slept (state : State)
  | called (result : Option T)

/-- `poll`; `inner` is what the future of a `Timeout` returns to it. -/
def poll (inner : Poll T) (waker : Waker) :
    TimerFuture → Option (TimerFuture × Option Handler × Poll (Output T))
  | .sleep s =>
    match s.poll waker with
    | (s, handler, .pending) => some (.sleep s, handler, .pending)
    | (s, handler, .ready state) => some (.sleep s, handler, .ready (.slept state))
  | .sleepUntil s =>
    match s.poll waker with
    | (s, handler, .pending) => some (.sleepUntil s, handler, .pending)
    | (s, handler, .ready state) => some (.sleepUntil s, handler, .ready (.slept state))
  | .timeout t =>
    match t.poll inner waker with
    | some (t, handler, .pending) => some (.timeout t, handler, .pending)
    | some (t, handler, .ready result) => some (.timeout t, handler, .ready (.called result))
    | none => none

/-- A poll returns `Pending`. -/
def waits (inner : Poll T) (waker : Waker) (f : TimerFuture) : Bool :=
  match f.poll inner waker with
  | some (_, _, .pending) => true
  | _ => false

/-- `cancel_unpin`; a `Timeout` has none. -/
def cancelUnpin : TimerFuture → Option TimerFuture
  | .timeout _ => none
  | f => some (f.setState f.state.cancelUnpin)

/-- `drop`: that of a `Timeout` drops its `Sleep`. -/
def drop (f : TimerFuture) : TimerFuture := f.setState f.state.drop

@[simp] theorem state_setState (f : TimerFuture) (s : State) : (f.setState s).state = s := by
  cases f <;> rfl

/-- The calls that make the futures. -/
inductive Call
  | sleep (dur : Nat)
  | sleepUntil (next : Nat)
  | timeout (duration : Nat)

def Call.new : Call → TimerFuture
  | .sleep dur => .sleep (.new dur)
  | .sleepUntil next => .sleepUntil (.new next)
  | .timeout duration => .timeout (.new duration)

/-- A `Timeout` has polled its `Sleep` exactly if it has left its first state. -/
def Started : TimerFuture → Prop
  | .timeout t =>
    (t.state = .start → t.sleep.state = .ready) ∧ (t.state = .await → t.sleep.state ≠ .ready)
  | _ => True

/-- A future that is started stays so when its state changes from one that is not `Ready` to
another. -/
theorem Started.setState (hf : f.Started)
    (hs : s = .ready ↔ f.state = .ready) : (f.setState s).Started := by
  cases f with
  | sleep | sleepUntil => trivial
  | timeout t => exact ⟨fun h => hs.mpr (hf.1 h), fun h hready => hf.2 h (hs.mp hready)⟩

theorem cancelUnpin_eq_some (h : f.cancelUnpin = some f') :
    f'.Started ∧ f'.state = f.state.cancelUnpin := by
  cases f with
  | sleep | sleepUntil =>
    cases h
    exact ⟨trivial, rfl⟩
  | timeout => cases h

/-- What a poll does. -/
inductive PollCase (waker : Waker) (f : TimerFuture) :
    TimerFuture → Option Handler → Poll (Output T) → Prop
  /-- The first poll that waits registers the handler. -/
  | register {f' : TimerFuture} (request : Request) :
      f.state = .ready → f'.state = .wait → PollCase waker f f' (some ⟨request, waker⟩) .pending
  /-- A later one changes nothing. -/
  | wait : f.state = .wait → PollCase waker f f none .pending
  | done {f' : TimerFuture} {result : Output T} :
      f'.state ≠ .wait → (f'.state = .ready → f.state = .ready) →
      PollCase waker f f' none (.ready result)

theorem poll_cases {inner : Poll T}
    {p : Poll (Output T)} (hf : f.Started) (hpoll : f.poll inner waker = some (f', h, p)) :
    PollCase waker f f' h p ∧ f'.Started := by
  cases f with
  | sleep s =>
    obtain ⟨state, dur⟩ := s
    cases state <;> obtain ⟨rfl, rfl, rfl⟩ := hpoll
    · exact ⟨.register _ rfl rfl, trivial⟩
    · exact ⟨.wait rfl, trivial⟩
    · exact ⟨.done nofun nofun, trivial⟩
    · exact ⟨.done nofun nofun, trivial⟩
  | sleepUntil s =>
    obtain ⟨state, next⟩ := s
    cases state <;> obtain ⟨rfl, rfl, rfl⟩ := hpoll
    · exact ⟨.register _ rfl rfl, trivial⟩
    · exact ⟨.wait rfl, trivial⟩
    · exact ⟨.done nofun nofun, trivial⟩
    · exact ⟨.done nofun nofun, trivial⟩
  | timeout t =>
    obtain ⟨⟨state, dur⟩, phase⟩ := t
    cases phase with
    | start =>
      obtain rfl : state = .ready := hf.1 rfl
      cases inner <;> obtain ⟨rfl, rfl, rfl⟩ := hpoll
      · exact ⟨.register _ rfl rfl, nofun, fun _ => nofun⟩
      · exact ⟨.done nofun fun _ => rfl, hf⟩
    | await =>
      have hne : state ≠ .ready := hf.2 rfl
      cases inner with
      | ready result =>
        obtain ⟨rfl, rfl, rfl⟩ := hpoll
        refine ⟨.done state.cancelUnpin_ne_wait ?_, nofun, nofun⟩
        intro hready
        cases state <;> cases hready
      | pending =>
        cases state with
        | ready => exact absurd rfl hne
        | wait =>
          obtain ⟨rfl, rfl, rfl⟩ := hpoll
          exact ⟨.wait rfl, hf⟩
        | canceled | finished =>
          obtain ⟨rfl, rfl, rfl⟩ := hpoll
          exact ⟨.done nofun nofun, nofun, nofun⟩
    | finished => cases hpoll

/-! ### Runs -/

/-- A future with the timer and the record of a run. -/
structure Sys where
  future : TimerFuture
  /-- The handlers of the future that the timer has not run. -/
  handlers : List Handler
  dropped : Bool
  /-- The waker of the last poll that returned `Pending`. -/
  last : Option Waker
  /-- A poll has returned `Ready`. -/
  returned : Bool
  canceled : Bool
  /-- The timer has run a handler. -/
  fired : Bool

inductive Action (T : Type)
  | poll (inner : Poll T) (waker : Waker)
  | cancel
  | drop
  /-- The timer runs the `i`-th handler. -/
  | fire (i : Nat)

namespace Sys

def init (call : Call) : Sys := ⟨call.new, [], false, none, false, false, false⟩

/-- The records after a poll. -/
def afterPoll (σ : Sys) (f : TimerFuture) (h : Option Handler) (waker : Waker) :
    Poll (Output T) → Sys
  | .pending => { σ with future := f, handlers := σ.handlers ++ h.toList, last := some waker }
  | .ready _ => { σ with future := f, handlers := σ.handlers ++ h.toList, returned := true }

/-- A step; `none` if the future is gone, if it cannot be canceled, if a poll panics or if there is
no such handler. -/
def step (σ : Sys) : Action T → Option Sys
  | .poll inner waker =>
    if σ.dropped then none
    else (σ.future.poll inner waker).map fun r => σ.afterPoll r.1 r.2.1 waker r.2.2
  | .cancel =>
    if σ.dropped then none
    else σ.future.cancelUnpin.map fun f => { σ with future := f, canceled := true }
  | .drop =>
    if σ.dropped then none else some { σ with future := σ.future.drop, dropped := true }
  | .fire i =>
    σ.handlers[i]?.map fun h => { σ with
      future := σ.future.setState (h.run σ.future.state).1
      handlers := σ.handlers.eraseIdx i
      fired := true }

/-- Who is woken when the timer fires. -/
structure WakesLastPoller (σ : Sys) : Prop where
  /-- A pending future has one handler, which wakes the task of the last poll. -/
  pending : ∀ {w : Waker}, σ.last = some w → σ.returned = false → σ.dropped = false →
    σ.canceled = false → σ.fired = false →
    ∃ h, σ.handlers = [h] ∧ (h.run σ.future.state).2 = some w
  /-- No handler of a future that was ready, or was dropped, wakes anybody. -/
  settled : σ.returned = true ∨ σ.dropped = true → ∀ h ∈ σ.handlers, (h.run σ.future.state).2 = none

/-- A poll that waits brings the waker of the last such poll, and no poll waits after one that was
ready. -/
def PollsAlike (σ : Sys) : Action T → Prop
  | .poll inner waker => σ.future.waits inner waker = true →
    σ.returned = false ∧ (σ.last = none ∨ σ.last = some waker)
  | _ => True

instance (σ : Sys) : DecidablePred (σ.PollsAlike (T := T)) := fun a => by
  induction a using Action.casesOn <;> dsimp only [PollsAlike] <;> infer_instance

/-- What a step does. -/
inductive StepCase (σ : Sys) : Action T → Sys → Prop
  | poll {inner : Poll T} {waker : Waker} {f : TimerFuture} {h : Option Handler}
      {p : Poll (Output T)} :
      σ.dropped = false →
      σ.future.poll inner waker = some (f, h, p) →
      StepCase σ (.poll inner waker) (σ.afterPoll f h waker p)
  | cancel {f : TimerFuture} :
      σ.future.cancelUnpin = some f →
      StepCase σ .cancel { σ with future := f, canceled := true }
  | drop : StepCase σ .drop { σ with future := σ.future.drop, dropped := true }
  | fire {i : Nat} {h : Handler} :
      σ.handlers[i]? = some h →
      StepCase σ (.fire i) { σ with
        future := σ.future.setState (h.run σ.future.state).1
        handlers := σ.handlers.eraseIdx i
        fired := true }

variable {σ : Sys}

theorem step_cases {σ' : Sys} {a : Action T} (hstep : σ.step a = some σ') : StepCase σ a σ' := by
  cases a with
  | poll inner waker =>
    obtain ⟨hd, hstep⟩ := ite_none_left_eq_some.mp hstep
    obtain ⟨⟨f, h, p⟩, hpoll, rfl⟩ := map_eq_some_iff.mp hstep
    exact .poll (Bool.eq_false_iff.mpr hd) hpoll
  | cancel =>
    obtain ⟨-, hstep⟩ := ite_none_left_eq_some.mp hstep
    obtain ⟨f, hf, rfl⟩ := map_eq_some_iff.mp hstep
    exact .cancel hf
  | drop =>
    obtain ⟨-, ⟨⟩⟩ := ite_none_left_eq_some.mp hstep
    exact .drop
  | fire i =>
    obtain ⟨h, hi, rfl⟩ := map_eq_some_iff.mp hstep
    exact .fire hi

/-- What the records say about the state of the future. -/
structure Inv (σ : Sys) : Prop where
  started : σ.future.Started
  ready : σ.future.state = .ready →
    σ.handlers = [] ∧ σ.last = none ∧ σ.canceled = false ∧ σ.fired = false
  wait : σ.future.state = .wait → (∃ h, σ.handlers = [h]) ∧ σ.last.isSome = true ∧
    σ.dropped = false ∧ σ.canceled = false ∧ σ.fired = false
  /-- Otherwise somebody has ended it. -/
  ended : σ.future.state ≠ .ready → σ.future.state ≠ .wait → σ.handlers.length ≤ 1 ∧
      (σ.returned = true ∨ σ.dropped = true ∨ σ.canceled = true ∨ σ.fired = true)

/-- In the terms of the state: a future that waits has not been ready, and its handler holds the
waker of the last poll. -/
theorem Inv.wakes_iff (hinv : Inv σ) : σ.WakesLastPoller ↔ (σ.future.state = .wait →
      σ.returned = false ∧ ∀ h ∈ σ.handlers, σ.last = some h.waker) := by
  constructor
  · intro hP hwait
    obtain ⟨⟨h, hh⟩, hlast, hd, hc, hf⟩ := hinv.wait hwait
    have hreturned : σ.returned = false := by
      refine Bool.eq_false_iff.mpr fun hr => ?_
      refine State.run_snd_eq_none.mp (hP.settled (.inl hr) h ?_) hwait
      rw [hh]
      exact mem_singleton_self h
    refine ⟨hreturned, ?_⟩
    obtain ⟨w, hw⟩ := isSome_iff_exists.mp hlast
    obtain ⟨h', hh', hrun⟩ := hP.pending hw hreturned hd hc hf
    rw [hwait] at hrun
    intro h₀ hmem
    rw [hh', mem_singleton] at hmem
    rw [hw, hmem]
    exact congrArg some (some.inj hrun).symm
  · intro hwait
    refine ⟨fun {w} hw hr hd hc hf => ?_, fun hover h hmem => ?_⟩
    · have hstate : σ.future.state = .wait := by
        by_contra hne
        have hne' : σ.future.state ≠ .ready := fun hready =>
          absurd (hw.symm.trans (hinv.ready hready).2.1) nofun
        rcases (hinv.ended hne' hne).2 with h | h | h | h
        · cases h.symm.trans hr
        · cases h.symm.trans hd
        · cases h.symm.trans hc
        · cases h.symm.trans hf
      obtain ⟨h, hh⟩ := (hinv.wait hstate).1
      refine ⟨h, hh, ?_⟩
      have hlast := (hwait hstate).2 h (by rw [hh]; exact mem_singleton_self h)
      rw [hstate]
      exact hlast.symm.trans hw
    · refine State.run_snd_eq_none.mpr fun hstate => ?_
      rcases hover with hr | hd
      · cases hr.symm.trans (hwait hstate).1
      · cases hd.symm.trans (hinv.wait hstate).2.2.1

theorem Inv.length_le (hinv : Inv σ) : σ.handlers.length ≤ 1 := by
  by_cases hready : σ.future.state = .ready
  · rw [(hinv.ready hready).1]
    exact Nat.zero_le 1
  by_cases hwait : σ.future.state = .wait
  · obtain ⟨h, hh⟩ := (hinv.wait hwait).1
    rw [hh]
    exact le_rfl
  exact (hinv.ended hready hwait).1

theorem Inv.wakes_of_ne_wait (hinv : Inv σ) (hne : σ.future.state ≠ .wait) : σ.WakesLastPoller :=
  hinv.wakes_iff.mpr fun h => absurd h hne

/-- After a poll that waits there is one handler, which has to hold the waker of that poll. -/
theorem Inv.pending {h₀ : Handler} (hstarted : f.Started) (hwait : f.state = .wait)
    (hhandlers : σ.handlers ++ h.toList = [h₀])
    (hlive : σ.dropped = false ∧ σ.canceled = false ∧ σ.fired = false) :
    Inv (σ.afterPoll f h waker (.pending : Poll (Output T))) ∧
      ((σ.afterPoll f h waker (.pending : Poll (Output T))).WakesLastPoller ↔
        σ.returned = false ∧ waker = h₀.waker) := by
  have hinv : Inv (σ.afterPoll f h waker (.pending : Poll (Output T))) :=
    { started := hstarted
      ready := fun h => absurd (hwait.symm.trans h) nofun
      wait := fun _ => ⟨⟨h₀, hhandlers⟩, rfl, hlive⟩
      ended := fun _ h => absurd hwait h }
  refine ⟨hinv, hinv.wakes_iff.trans ?_⟩
  change (f.state = .wait → σ.returned = false ∧
    ∀ h' ∈ σ.handlers ++ h.toList, some waker = some h'.waker) ↔ _
  rw [hhandlers, forall_mem_singleton, some_inj]
  exact ⟨fun h => h hwait, fun h _ => h⟩

/-- **A poll** breaks the promise only if it waits. -/
theorem Inv.poll_step {inner : Poll T} {p : Poll (Output T)} (hinv : Inv σ) (hP : σ.WakesLastPoller)
    (hd : σ.dropped = false) (hpoll : σ.future.poll inner waker = some (f, h, p)) :
    Inv (σ.afterPoll f h waker p) ∧
      ((σ.afterPoll f h waker p).WakesLastPoller ↔ σ.PollsAlike (.poll inner waker)) := by
  obtain ⟨hcase, hstarted⟩ := poll_cases hinv.started hpoll
  -- a poll that waits polls alike exactly if these two facts about the records hold
  have hok : p = .pending → (σ.PollsAlike (.poll inner waker) ↔
      σ.returned = false ∧ (σ.last = none ∨ σ.last = some waker)) := by
    rintro rfl
    have hwaits : σ.future.waits inner waker = true := by rw [waits, hpoll]
    exact ⟨fun h => h hwaits, fun h _ => h⟩
  cases hcase with
  | register request hready hwait =>
    obtain ⟨hnil, hnone, hc, hf⟩ := hinv.ready hready
    have hhandlers : σ.handlers ++ (some ⟨request, waker⟩ : Option Handler).toList =
        [⟨request, waker⟩] := by
      rw [hnil]
      rfl
    obtain ⟨hinv', hiff⟩ := Inv.pending hstarted hwait hhandlers ⟨hd, hc, hf⟩
    refine ⟨hinv', hiff.trans (Iff.trans ?_ (hok rfl).symm)⟩
    exact and_congr_right fun _ => iff_of_true rfl (.inl hnone)
  | wait hwait =>
    obtain ⟨-, hlast⟩ := hinv.wakes_iff.mp hP hwait
    obtain ⟨⟨h, hh⟩, -, hlive⟩ := hinv.wait hwait
    have hhandlers : σ.handlers ++ (none : Option Handler).toList = [h] := by
      rw [toList_none, append_nil, hh]
    -- the handler still holds the waker of the poll before
    have hw : σ.last = some h.waker := hlast h (by rw [hh]; exact mem_singleton_self h)
    obtain ⟨hinv', hiff⟩ := Inv.pending hstarted hwait hhandlers hlive
    refine ⟨hinv', hiff.trans (Iff.trans ?_ (hok rfl).symm)⟩
    rw [hw, some_inj]
    exact and_congr_right fun _ => ⟨fun h => .inr h.symm, fun h => (h.resolve_left nofun).symm⟩
  | @done _ result hne hready =>
    have hhandlers : σ.handlers ++ [] = σ.handlers := append_nil _
    have hinv' : Inv (σ.afterPoll f none waker (.ready result)) :=
      { started := hstarted
        ready := fun h => by
          obtain ⟨hnil, hrest⟩ := hinv.ready (hready h)
          exact ⟨hhandlers.trans hnil, hrest⟩
        wait := fun h => absurd h hne
        ended := fun _ _ => ⟨(congrArg length hhandlers).trans_le hinv.length_le, .inl rfl⟩ }
    refine ⟨hinv', iff_of_true (hinv'.wakes_of_ne_wait hne) ?_⟩
    have hwaits : σ.future.waits inner waker = false := by rw [waits, hpoll]
    exact fun h => absurd (hwaits.symm.trans h) nofun

/-- **A step keeps the invariant, and it keeps the promise to the last poller exactly if it polls
alike.** Only a poll that waits can break the promise: every other step leaves the future in a
state in which its handler wakes nobody, or leaves it as it is. -/
theorem wakes_step {σ' : Sys} {a : Action T} (hinv : Inv σ) (hP : σ.WakesLastPoller)
    (hstep : σ.step a = some σ') : Inv σ' ∧ (σ'.WakesLastPoller ↔ σ.PollsAlike a) := by
  cases step_cases hstep with
  | poll hd hpoll => exact hinv.poll_step hP hd hpoll
  | @cancel f hcancel =>
    obtain ⟨hstarted, hstate⟩ := cancelUnpin_eq_some hcancel
    have hne : f.state ≠ .wait := hstate.trans_ne (State.cancelUnpin_ne_wait _)
    have hinv' : Inv { σ with future := f, canceled := true } :=
      { started := hstarted
        ready := fun h => absurd (hstate.symm.trans h) (by cases σ.future.state <;> exact nofun)
        wait := fun h => absurd h hne
        ended := fun _ _ => ⟨hinv.length_le, .inr (.inr (.inl rfl))⟩ }
    exact ⟨hinv', iff_of_true (hinv'.wakes_of_ne_wait hne) trivial⟩
  | drop =>
    have hstate : σ.future.drop.state = σ.future.state.drop := state_setState _ _
    have hne : σ.future.drop.state ≠ .wait := hstate.trans_ne (by cases σ.future.state <;> nofun)
    have hinv' : Inv { σ with future := σ.future.drop, dropped := true } :=
      { started := hinv.started.setState State.drop_eq_ready
        ready := fun h => hinv.ready (State.drop_eq_ready.mp (hstate.symm.trans h))
        wait := fun h => absurd h hne
        ended := fun _ _ => ⟨hinv.length_le, .inr (.inl rfl)⟩ }
    exact ⟨hinv', iff_of_true (hinv'.wakes_of_ne_wait hne) trivial⟩
  | @fire i h hi =>
    have hmem : σ.handlers ≠ [] := by
      intro hnil
      rw [hnil] at hi
      cases hi
    -- a future that has a handler has been polled, and it does not wait after the handler
    have hstate := state_setState σ.future (h.run σ.future.state).1
    have hne : (σ.future.setState (h.run σ.future.state).1).state ≠ .wait :=
      hstate.trans_ne (by cases σ.future.state <;> nofun)
    have hnotReady : σ.future.state ≠ .ready := fun hr => hmem (hinv.ready hr).1
    have hinv' : Inv { σ with
        future := σ.future.setState (h.run σ.future.state).1
        handlers := σ.handlers.eraseIdx i
        fired := true } :=
      { started := hinv.started.setState State.run_fst_eq_ready
        ready := fun hr => absurd (State.run_fst_eq_ready.mp (hstate.symm.trans hr)) hnotReady
        wait := fun hw => absurd hw hne
        ended := fun _ _ =>
          ⟨(length_eraseIdx_le _ _).trans hinv.length_le, .inr (.inr (.inr rfl))⟩ }
    exact ⟨hinv', iff_of_true (hinv'.wakes_of_ne_wait hne) trivial⟩

/-- **Whom the timer wakes.** In every run of a `Sleep`, a `SleepUntil` or a `Timeout`: in all its
states, a future that is pending has a handler that wakes the task of the last poll, and a future
that was ready or dropped has none that wakes anybody, exactly if no poll that waits brings another
waker than the one before and none waits after a poll that was ready. -/
theorem wakes_last_poller_iff (call : Call) (as : List (Action T)) (σ : Sys)
    (hrun : run step (init call) as = some σ) :
    Always step WakesLastPoller (init call) as ↔ Meets step PollsAlike (init call) as := by
  have hstate : (init call).future.state = .ready := by cases call <;> rfl
  have hinv : Inv (init call) :=
    { started := by
        cases call with
        | sleep | sleepUntil => trivial
        | timeout => exact ⟨fun _ => rfl, nofun⟩
      ready := fun _ => ⟨rfl, rfl, rfl, rfl⟩
      wait := fun h => absurd (hstate.symm.trans h) nofun
      ended := fun h => absurd hstate h }
  refine always_iff_meets (I := Inv) wakes_step hinv ?_ hrun
  exact hinv.wakes_iff.mpr fun h => absurd (hstate.symm.trans h) nofun

/-- A `Timeout` is polled twice by one task before the timer fires, and once more by another. -/
theorem wakes_last_poller_iff_timeout : ∃ σ : Sys, run step (init (.timeout 5))
        [.poll (.pending : Poll Nat) 3, .poll .pending 3, .fire 0, .poll .pending 4] = some σ ∧
      σ.returned = true ∧
      Always step WakesLastPoller (init (.timeout 5))
        [.poll (.pending : Poll Nat) 3, .poll .pending 3, .fire 0, .poll .pending 4] := by
  refine ⟨_, rfl, rfl, (wakes_last_poller_iff _ _ _ rfl).mpr ?_⟩
  exact (Meets.of_run rfl).1

/-- A `Sleep` is polled by task 0 and then by task 1. When the timer fires, it wakes task 0. -/
theorem first_poller_woken : ∃ σ : Sys,
    run step (init (.sleep 5)) [.poll (.pending : Poll Nat) 0, .poll .pending 1] = some σ ∧
      σ.last = some 1 ∧ σ.returned = false ∧ σ.dropped = false ∧ σ.canceled = false ∧
      σ.fired = false ∧ σ.handlers.map (fun h => (h.run σ.future.state).2) = [some 0] ∧
      ¬ σ.WakesLastPoller := by
  refine ⟨_, rfl, rfl, rfl, rfl, rfl, rfl, rfl, fun h => ?_⟩
  obtain ⟨h, hh, hrun⟩ := h.pending rfl rfl rfl rfl rfl
  obtain rfl : (⟨.sleepTask 5, 0⟩ : Handler) = h := singleton_inj.mp hh
  cases hrun

end Sys

end TimerFuture

end Awkernel
