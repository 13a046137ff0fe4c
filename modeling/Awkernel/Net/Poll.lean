import Awkernel.Lib.Census
import Awkernel.Lib.TransitionSystem
import Mathlib.Data.Fintype.Basic

/-!
# Who polls an interface

`IfNet::poll_tx_only` and `IfNet::poll_rx_tx` of `awkernel_lib/src/net/if_net.rs`, called by any
number of threads. A thread announces its poll in the counter `will_poll`, takes the locks of its
queues and of the interface, and takes the announcement back right before `interface.poll`. A
`poll_tx_only` that finds an announcement returns: the thread that has announced polls later.

`poll_tx_only` goes round again while its transmit queue is full. It evaluates
`result || { .. }`, and the block takes the announcement back: once a round has returned `true`,
the next one announces a poll, and neither polls nor takes it back. From then on every
`poll_tx_only` returns at once (`announcement_left`). If no round announces after one that has
returned `true`, then the counter is the number of threads that are about to poll, and only then
(`will_poll_iff`).
-/

namespace Awkernel

open TransitionSystem Function

namespace IfNet

/-- The queues of an interface. -/
structure Config where
  /-- The sizes of the queues in `tx_only_ringq`. -/
  txSize : List Nat
  /-- The field `rx_que_id` of a driver. -/
  rxQueId : Nat → Nat

inductive Call
  | pollTxOnly
  | pollRxTx (driver : Nat)
  deriving DecidableEq

/-- The transmit queue of a call: the argument of `poll_tx_only`, or the one of the driver. -/
def Call.queId (cfg : Config) (queId : Nat) : Call → Nat
  | .pollTxOnly => queId
  | .pollRxTx driver => cfg.rxQueId driver

/-- Where a thread is, with the index of its transmit queue and its variable `result`. -/
inductive Pc
  | idle
  /-- Before the counter is incremented. -/
  | announce (call : Call) (queId : Nat) (result : Bool)
  /-- Before `rx_ringq.lock`. -/
  | lockRx (driver queId : Nat)
  /-- Before `tx_ringq.lock`. -/
  | lockTx (call : Call) (queId : Nat) (result : Bool)
  /-- Before `result || { .. }`; `poll_rx_tx` evaluates the block always. -/
  | lockInner (call : Call) (queId : Nat) (result : Bool)
  /-- Before the counter is decremented. -/
  | takeUp (call : Call) (queId : Nat)
  /-- In `interface.poll`. -/
  | polling (call : Call) (queId : Nat)
  /-- Before the packets of the queue are sent. -/
  | sending (call : Call) (queId : Nat) (result isFull : Bool)
  deriving DecidableEq

/-- The interface, with `numThreads` threads. -/
structure State (numThreads : Nat) where
  /-- The counter: a number of threads. -/
  willPoll : Nat
  /-- It has been decremented at zero. -/
  underflow : Bool
  /-- The packets in each transmit queue. -/
  txLen : Nat → Nat
  rxLock : Nat → Option (Fin numThreads)
  txLock : Nat → Option (Fin numThreads)
  inner : Option (Fin numThreads)
  pc : Fin numThreads → Pc

inductive Action (numThreads : Nat)
  | call (t : Fin numThreads) (call : Call) (queId : Nat)
  /-- The next step of a thread; `interface.poll` returns `result` and puts packets in the queue. -/
  | run (t : Fin numThreads) (result : Bool) (packets : Nat)

namespace State

variable {N : Nat}

def init : State N where
  willPoll := 0
  underflow := false
  txLen := fun _ => 0
  rxLock := fun _ => none
  txLock := fun _ => none
  inner := none
  pc := fun _ => .idle

def setPc (σ : State N) (t : Fin N) (p : Pc) : State N :=
  { σ with pc := update σ.pc t p }

/-- `will_poll.fetch_sub(1)`. -/
def fetchSub (σ : State N) : State N :=
  if σ.willPoll = 0 then { σ with willPoll := 2 ^ 64 - 1, underflow := true }
  else { σ with willPoll := σ.willPoll - 1 }

/-- `tx_ringq.is_full()`. -/
def isFull (σ : State N) (cfg : Config) (queId : Nat) : Bool :=
  σ.txLen queId == cfg.txSize.getD queId 0

/-- The next step of thread `t`; `none` if it waits for a lock. -/
def runStep (cfg : Config) (σ : State N) (t : Fin N) (result : Bool) (packets : Nat) :
    Pc → Option (State N)
  | .idle => none
  | .announce .pollTxOnly queId r =>
    if 0 < σ.willPoll then some (σ.setPc t .idle)
    else some ({ σ with willPoll := σ.willPoll + 1 }.setPc t (.lockTx .pollTxOnly queId r))
  | .announce (.pollRxTx driver) queId _ =>
    some ({ σ with willPoll := σ.willPoll + 1 }.setPc t (.lockRx driver queId))
  | .lockRx driver queId =>
    if σ.rxLock driver = none then
      some ({ σ with rxLock := update σ.rxLock driver (some t) }.setPc t
        (.lockTx (.pollRxTx driver) queId false))
    else none
  | .lockTx call queId r =>
    if σ.txLock queId = none then
      some ({ σ with txLock := update σ.txLock queId (some t) }.setPc t (.lockInner call queId r))
    else none
  | .lockInner call queId true => some (σ.setPc t (.sending call queId true (σ.isFull cfg queId)))
  | .lockInner call queId false =>
    if σ.inner = none then some ({ σ with inner := some t }.setPc t (.takeUp call queId)) else none
  | .takeUp call queId => some (σ.fetchSub.setPc t (.polling call queId))
  | .polling call queId =>
    let len := min (σ.txLen queId + packets) (cfg.txSize.getD queId 0)
    let σ := { σ with inner := none, txLen := update σ.txLen queId len }
    some (σ.setPc t (.sending call queId result (σ.isFull cfg queId)))
  | .sending call queId r full =>
    let σ := { σ with
      txLen := update σ.txLen queId 0
      txLock := update σ.txLock queId none }
    match call with
    | .pollTxOnly => some (σ.setPc t (if full then .announce .pollTxOnly queId r else .idle))
    | .pollRxTx driver =>
      some ({ σ with rxLock := update σ.rxLock driver none }.setPc t .idle)

/-- A step. A call for a queue that is not there returns at once. -/
def step (cfg : Config) (σ : State N) : Action N → Option (State N)
  | .call t call queId =>
    if σ.pc t = .idle then
      let queId := call.queId cfg queId
      some (if queId < cfg.txSize.length then σ.setPc t (.announce call queId false) else σ)
    else none
  | .run t result packets => runStep cfg σ t result packets (σ.pc t)

end State

/-! ### The announcements -/

/-- The thread has announced a poll and has not taken the announcement back. -/
def Pc.announced : Pc → Bool
  | .lockRx _ _ | .lockTx _ _ _ | .lockInner _ _ _ | .takeUp _ _ => true
  | _ => false

/-- Before a further round, after one that has returned `true`. -/
def Pc.again : Pc → Bool
  | .announce .pollTxOnly _ result => result
  | _ => false

/-- The block that polls will be evaluated. -/
def Pc.resolved : Pc → Bool
  | .lockTx _ _ result | .lockInner _ _ result => !result
  | _ => true

/-- The point after one at which a poll is announced. -/
def Pc.after : Pc → Pc
  | .lockRx driver queId => .lockTx (.pollRxTx driver) queId false
  | .lockTx call queId result => .lockInner call queId result
  | .lockInner call queId _ => .takeUp call queId
  | .takeUp call queId => .polling call queId
  | p => p

namespace State

variable {N : Nat} {cfg : Config} {σ σ' : State N}

/-- The number of threads that have announced a poll and have not taken it up. -/
def numAnnounced (σ : State N) : Nat := Census.count Finset.univ Pc.announced σ.pc

/-- A step takes a thread from `p` to `p'`, whatever the others do. -/
def Moves (N : Nat) (cfg : Config) (p p' : Pc) : Prop :=
  ∃ (σ σ' : State N) (t : Fin N) (result : Bool) (packets : Nat),
    σ.pc t = p ∧ step cfg σ (.run t result packets) = some σ' ∧ σ'.pc t = p'

/-- A thread that goes on comes to a call of `interface.poll`. -/
inductive Polls (N : Nat) (cfg : Config) : Pc → Prop
  | polling (call : Call) (queId : Nat) : Polls N cfg (.polling call queId)
  | next {p : Pc} : (∃ p', Moves N cfg p p') → (∀ p', Moves N cfg p p' → Polls N cfg p') →
      Polls N cfg p

/-- What the threads rely on. -/
structure Balanced (cfg : Config) (σ : State N) : Prop where
  noUnderflow : σ.underflow = false
  /-- The counter is the number of threads that have announced a poll and not taken it up. -/
  count : σ.willPoll = σ.numAnnounced
  idle : (∀ t, σ.pc t = .idle) → σ.willPoll = 0
  /-- A thread that has announced a poll comes to it. -/
  polls : ∀ t, (σ.pc t).announced = true → Polls N cfg (σ.pc t)
  /-- A `poll_tx_only` returns early only if another thread is about to poll. -/
  early : ∀ t queId result, σ.pc t = .announce .pollTxOnly queId result → 0 < σ.willPoll →
    ∃ t', t' ≠ t ∧ (σ.pc t').announced = true ∧ Polls N cfg (σ.pc t')

/-- No round of `poll_tx_only` announces a poll after one that has returned `true`. -/
def AnnouncesOnce (σ : State N) : Action N → Prop
  | .run t _ _ => (σ.pc t).again = true → 0 < σ.willPoll
  | .call _ _ _ => True

instance (σ : State N) : DecidablePred σ.AnnouncesOnce := fun a => by
  induction a using Action.casesOn <;> dsimp only [AnnouncesOnce] <;> infer_instance

/-- What a step does to the counter. -/
inductive StepCase (σ σ' : State N) (a : Action N) : Prop
  /-- Nothing. -/
  | move {t : Fin N} {p : Pc} :
      σ'.willPoll = σ.willPoll → σ'.underflow = σ.underflow →
      σ'.pc = update σ.pc t p → p.announced = (σ.pc t).announced →
      ((σ.pc t).resolved = true → p.resolved = true) → σ.AnnouncesOnce a → StepCase σ σ' a
  /-- A thread announces a poll. -/
  | announce {t : Fin N} {p : Pc} :
      (σ.pc t).announced = false →
      σ'.willPoll = σ.willPoll + 1 → σ'.underflow = σ.underflow →
      σ'.pc = update σ.pc t p → p.announced = true →
      (p.resolved = true ↔ σ.AnnouncesOnce a) → StepCase σ σ' a
  /-- It takes the announcement up. -/
  | takeUp {t : Fin N} {p : Pc} :
      (σ.pc t).announced = true → σ'.willPoll = σ.fetchSub.willPoll →
      σ'.underflow = σ.fetchSub.underflow → σ'.pc = update σ.pc t p →
      p.announced = false → p.resolved = true → σ.AnnouncesOnce a → StepCase σ σ' a
  /-- It forgets it. -/
  | skip {t : Fin N} : (σ.pc t).resolved = false → StepCase σ σ' a

/-- What an access does to the counter and to its own poll. -/
theorem step_cases {a : Action N} (hstep : step cfg σ a = some σ') : StepCase σ σ' a := by
  cases a with
  | call t call queId =>
    obtain ⟨hidle, ⟨⟩⟩ := Option.ite_none_right_eq_some.mp hstep
    split
    · refine .move (t := t) (p := .announce call _ false) rfl rfl rfl ?_ (fun _ => rfl) trivial
      rw [hidle]
      rfl
    · refine .move (t := t) (p := σ.pc t) rfl rfl ?_ rfl id trivial
      rw [update_eq_self]
  | run t result packets =>
    have honce : (σ.pc t).again = false → σ.AnnouncesOnce (.run t result packets) := fun h h' =>
      absurd (h.symm.trans h') nofun
    dsimp only [step] at hstep
    cases hpc : σ.pc t with
    | idle =>
      rw [hpc] at hstep
      cases hstep
    | announce call queId r =>
      rw [hpc] at hstep
      cases call with
      | pollTxOnly =>
        dsimp only [runStep] at hstep
        split at hstep
        · next hpos =>
          cases hstep
          exact .move (t := t) (p := .idle) rfl rfl rfl (by rw [hpc]; rfl) (fun _ => rfl)
            fun _ => hpos
        rename_i hzero
        cases hstep
        refine .announce (t := t) (p := .lockTx .pollTxOnly queId r) (by rw [hpc]; rfl) rfl rfl
          rfl rfl ?_
        -- with the counter at zero, the condition is that `r` is false
        change (!r) = true ↔ ((σ.pc t).again = true → 0 < σ.willPoll)
        rw [hpc]
        cases r with
        | true => exact iff_of_false nofun fun h => hzero (h rfl)
        | false => exact iff_of_true rfl nofun
      | pollRxTx driver =>
        cases hstep
        exact .announce (t := t) (p := .lockRx driver queId) (by rw [hpc]; rfl) rfl rfl rfl rfl
          (iff_of_true rfl (honce (by rw [hpc]; rfl)))
    | lockRx driver queId =>
      have honce := honce (by rw [hpc]; rfl)
      rw [hpc] at hstep
      obtain ⟨-, ⟨⟩⟩ := Option.ite_none_right_eq_some.mp hstep
      exact .move (t := t) (p := .lockTx (.pollRxTx driver) queId false) rfl rfl rfl
        (by rw [hpc]; rfl) (fun _ => rfl) honce
    | lockTx call queId r =>
      have honce := honce (by rw [hpc]; rfl)
      rw [hpc] at hstep
      obtain ⟨-, ⟨⟩⟩ := Option.ite_none_right_eq_some.mp hstep
      exact .move (t := t) (p := .lockInner call queId r) rfl rfl rfl (by rw [hpc]; rfl)
        (fun h => by rw [hpc] at h; exact h) honce
    | lockInner call queId r =>
      have honce := honce (by rw [hpc]; rfl)
      cases r with
      | true => exact .skip (t := t) (by rw [hpc]; rfl)
      | false =>
        rw [hpc] at hstep
        obtain ⟨-, ⟨⟩⟩ := Option.ite_none_right_eq_some.mp hstep
        exact .move (t := t) (p := .takeUp call queId) rfl rfl rfl (by rw [hpc]; rfl)
          (fun _ => rfl) honce
    | takeUp call queId =>
      have honce := honce (by rw [hpc]; rfl)
      rw [hpc] at hstep
      cases hstep
      refine .takeUp (t := t) (p := .polling call queId) (by rw [hpc]; rfl) rfl rfl ?_ rfl rfl honce
      unfold fetchSub
      split <;> rfl
    | polling call queId =>
      have honce := honce (by rw [hpc]; rfl)
      rw [hpc] at hstep
      cases hstep
      exact .move (t := t) (p := .sending call queId result _) rfl rfl rfl (by rw [hpc]; rfl)
        (fun _ => rfl) honce
    | sending call queId r full =>
      have honce := honce (by rw [hpc]; rfl)
      rw [hpc] at hstep
      cases call with
      | pollTxOnly =>
        cases hstep
        cases full with
        | true =>
          exact .move (t := t) (p := .announce .pollTxOnly queId r) rfl rfl rfl (by rw [hpc]; rfl)
            (fun _ => rfl) honce
        | false =>
          exact .move (t := t) (p := .idle) rfl rfl rfl (by rw [hpc]; rfl) (fun _ => rfl) honce
      | pollRxTx driver =>
        cases hstep
        exact .move (t := t) (p := .idle) rfl rfl rfl (by rw [hpc]; rfl) (fun _ => rfl) honce

/-! ### Who comes to a poll -/

variable {p : Pc}

theorem moves_after (t : Fin N) (ha : p.announced = true) (hr : p.resolved = true) :
    Moves N cfg p p.after := by
  -- nobody holds a lock
  have hmove : ∀ σ', runStep cfg { (init : State N) with pc := fun _ => p } t false 0 p = some σ' →
      σ'.pc t = p.after → Moves N cfg p p.after := fun σ' hstep hpc =>
    ⟨{ init with pc := fun _ => p }, σ', t, false, 0, rfl, hstep, hpc⟩
  cases p with
  | lockRx | lockTx | takeUp => exact hmove _ rfl (update_self ..)
  | lockInner call queId result =>
    cases result with
    | true => cases hr
    | false => exact hmove _ rfl (update_self ..)
  | idle | announce | polling | sending => cases ha

theorem eq_after_of_moves {q : Pc} (ha : p.announced = true) (hr : p.resolved = true)
    (hmoves : Moves N cfg p q) : q = p.after := by
  obtain ⟨σ, σ', t, result, packets, rfl, hstep, rfl⟩ := hmoves
  dsimp only [step] at hstep
  cases hpc : σ.pc t with
  | lockRx | lockTx =>
    rw [hpc] at hstep
    obtain ⟨-, ⟨⟩⟩ := Option.ite_none_right_eq_some.mp hstep
    exact update_self ..
  | lockInner call queId result =>
    cases result with
    | true =>
      rw [hpc] at hr
      cases hr
    | false =>
      rw [hpc] at hstep
      obtain ⟨-, ⟨⟩⟩ := Option.ite_none_right_eq_some.mp hstep
      exact update_self ..
  | takeUp =>
    rw [hpc] at hstep
    cases hstep
    exact update_self ..
  | idle | announce | polling | sending =>
    rw [hpc] at ha
    cases ha

/-- A thread that has announced a poll, and whose block will be evaluated, comes to it. -/
theorem polls_of_announced (t : Fin N) (ha : p.announced = true) (hr : p.resolved = true) :
    Polls N cfg p := by
  have hnext : ∀ {p : Pc}, p.announced = true → p.resolved = true → Polls N cfg p.after →
      Polls N cfg p := fun ha hr h =>
    .next ⟨_, moves_after t ha hr⟩ fun q hq => eq_after_of_moves ha hr hq ▸ h
  have htakeUp : ∀ call queId, Polls N cfg (.takeUp call queId) := fun call queId =>
    hnext rfl rfl (.polling call queId)
  have hinner : ∀ call queId, Polls N cfg (.lockInner call queId false) := fun call queId =>
    hnext rfl rfl (htakeUp call queId)
  have htx : ∀ call queId, Polls N cfg (.lockTx call queId false) := fun call queId =>
    hnext rfl rfl (hinner call queId)
  cases p with
  | lockRx driver queId => exact hnext rfl rfl (htx (.pollRxTx driver) queId)
  | lockTx call queId result =>
    cases result with
    | true => cases hr
    | false => exact htx call queId
  | lockInner call queId result =>
    cases result with
    | true => cases hr
    | false => exact hinner call queId
  | takeUp call queId => exact htakeUp call queId
  | idle | announce | polling | sending => cases ha

theorem resolved_of_polls (t : Fin N) (h : Polls N cfg p) : p.resolved = true := by
  have hall : ∀ {p p' : Pc}, (∀ call queId, p ≠ .polling call queId) → Polls N cfg p →
      Moves N cfg p p' → Polls N cfg p' := by
    intro p p' hp h hmoves
    cases h with
    | polling call queId => exact absurd rfl (hp call queId)
    | next _ h => exact h p' hmoves
  have hidle : ¬ Polls N cfg .idle := by
    rintro (_ | ⟨⟨p', σ, σ', t, result, packets, hpc, hstep, -⟩, -⟩)
    dsimp only [step] at hstep
    rw [hpc] at hstep
    cases hstep
  have hmove : ∀ (σ σ' : State N) {p p' : Pc}, σ.pc t = p →
      runStep cfg σ t false 0 p = some σ' → σ'.pc t = p' → Moves N cfg p p' := by
    rintro σ σ' p p' rfl hstep hpc
    exact ⟨σ, σ', t, false, 0, rfl, hstep, hpc⟩
  have hsending : ∀ call queId, ¬ Polls N cfg (.sending call queId true false) := by
    intro call queId h
    refine hidle (hall (by intros; exact nofun) h ?_)
    let σ : State N := { init with pc := fun _ => .sending call queId true false }
    cases call with
    | pollTxOnly | pollRxTx => exact hmove σ _ rfl rfl (update_self ..)
  have hinner : ∀ call queId, ¬ Polls N cfg (.lockInner call queId true) := by
    intro call queId h
    refine hsending call queId (hall (by intros; exact nofun) h ?_)
    -- with a queue that is not full
    let σ : State N := { init with
      pc := fun _ => .lockInner call queId true
      txLen := fun _ => cfg.txSize.getD queId 0 + 1 }
    have hfull : σ.isFull cfg queId = false := beq_false_of_ne (Nat.succ_ne_self _)
    refine hmove σ _ rfl rfl ?_
    rw [← hfull]
    exact update_self ..
  have htx : ∀ call queId, ¬ Polls N cfg (.lockTx call queId true) := by
    intro call queId h
    refine hinner call queId (hall (by intros; exact nofun) h ?_)
    let σ : State N := { init with pc := fun _ => .lockTx call queId true }
    exact hmove σ _ rfl rfl (update_self ..)
  cases p with
  | lockTx call queId result =>
    cases result with
    | true => exact absurd h (htx call queId)
    | false => rfl
  | lockInner call queId result =>
    cases result with
    | true => exact absurd h (hinner call queId)
    | false => rfl
  | idle | announce | lockRx | takeUp | polling | sending => rfl

/-! ### The balance -/

theorem balanced_iff (σ : State N) : σ.Balanced cfg ↔
    σ.underflow = false ∧ σ.willPoll = σ.numAnnounced ∧ ∀ t, (σ.pc t).resolved = true := by
  constructor
  · intro h
    refine ⟨h.noUnderflow, h.count, fun t => ?_⟩
    cases ha : (σ.pc t).announced with
    | true => exact resolved_of_polls t (h.polls t ha)
    | false =>
      cases hpc : σ.pc t with
      | lockTx | lockInner =>
        rw [hpc] at ha
        cases ha
      | idle | announce | lockRx | takeUp | polling | sending => rfl
  · rintro ⟨hflow, hcount, hresolved⟩
    have hpolls : ∀ t, (σ.pc t).announced = true → Polls N cfg (σ.pc t) := fun t ha =>
      polls_of_announced t ha (hresolved t)
    refine ⟨hflow, hcount, fun hidle => ?_, hpolls, fun t queId result hpc hpos => ?_⟩
    · rw [hcount]
      refine Census.count_eq_zero.mpr fun t _ => ?_
      rw [hidle t]
      rfl
    rw [hcount] at hpos
    obtain ⟨t', -, ht'⟩ := Census.count_pos.mp hpos
    refine ⟨t', ?_, ht', hpolls t' ht'⟩
    rintro rfl
    rw [hpc] at ht'
    cases ht'

/-- **A step keeps the balance exactly if it announces no second poll.** -/
theorem balanced_step {a : Action N} (hP : σ.Balanced cfg) (hstep : step cfg σ a = some σ') :
    σ'.Balanced cfg ↔ σ.AnnouncesOnce a := by
  obtain ⟨hflow, hcount, hresolved⟩ := (balanced_iff σ).mp hP
  rw [balanced_iff]
  have hupdate : ∀ {t : Fin N} {p : Pc}, σ'.pc = update σ.pc t p →
      σ'.numAnnounced + (σ.pc t).announced.toNat = σ.numAnnounced + p.announced.toNat := by
    intro t p hpc
    unfold numAnnounced
    rw [hpc]
    exact Census.count_update Pc.announced σ.pc (Finset.mem_univ t) p
  have hresolved' : ∀ {t : Fin N} {p : Pc}, σ'.pc = update σ.pc t p →
      ((∀ x, (σ'.pc x).resolved = true) ↔ p.resolved = true) := by
    intro t p hpc
    rw [hpc, forall_update_iff σ.pc (p := fun _ q => q.resolved = true)]
    exact ⟨fun h => h.1, fun h => ⟨h, fun x _ => hresolved x⟩⟩
  cases step_cases hstep with
  | @move t p hwill hunder hpc hann hres honce =>
    refine iff_of_true ⟨hunder.trans hflow, ?_, (hresolved' hpc).mpr (hres (hresolved t))⟩ honce
    have := hupdate hpc
    rw [hann] at this
    omega
  | announce hnot hwill hunder hpc hann honce =>
    have := hupdate hpc
    rw [hnot, hann] at this
    change σ'.numAnnounced + 0 = σ.numAnnounced + 1 at this
    rw [hresolved' hpc, honce]
    exact ⟨fun h => h.2.2, fun h => ⟨hunder.trans hflow, by omega, h⟩⟩
  | takeUp hann hwill hunder hpc hnot hres honce =>
    have := hupdate hpc
    rw [hnot, hann] at this
    change σ'.numAnnounced + 1 = σ.numAnnounced + 0 at this
    -- the thread itself is counted
    have hne : σ.willPoll ≠ 0 := by omega
    unfold fetchSub at hwill hunder
    rw [if_neg hne] at hwill hunder
    refine iff_of_true ⟨hunder.trans hflow, ?_, (hresolved' hpc).mpr hres⟩ honce
    change σ'.willPoll = σ.willPoll - 1 at hwill
    omega
  | @skip t hskip => cases (hresolved t).symm.trans hskip

/-- **The counter of announced polls.** In every run of any number of threads: the counter does not
underflow and is the number of threads that have announced a poll and have not taken it up, it is
zero when no call is in progress, and a `poll_tx_only` returns early only if another thread that has
not begun to poll comes to it, in all states of the run, exactly if no round of `poll_tx_only`
announces a poll after one that has returned `true`. -/
theorem will_poll_iff (cfg : Config) (as : List (Action N)) (σ : State N)
    (hrun : run (step cfg) init as = some σ) :
    Always (step cfg) (Balanced cfg) init as ↔ Meets (step cfg) AnnouncesOnce init as := by
  refine always_iff_meets (I := fun _ => True) (fun _ hP h => ⟨trivial, balanced_step hP h⟩)
    trivial ?_ hrun
  rw [balanced_iff]
  refine ⟨rfl, ?_, fun _ => rfl⟩
  exact (Census.count_eq_zero.mpr fun _ _ => rfl).symm

/-- A `poll_tx_only` whose queue is full after a poll that has done nothing, and then a
`poll_rx_tx`. -/
def twoRounds : List (Action 2) :=
  [.call 0 .pollTxOnly 0, .run 0 false 0, .run 0 false 0, .run 0 false 0, .run 0 false 0,
    .run 0 false 1, .run 0 false 0, .run 0 false 0, .call 1 (.pollRxTx 0) 0, .run 1 false 0,
    .run 1 false 0]

/-- One queue, of size one. -/
def oneQueue : Config := ⟨[1], fun _ => 0⟩

theorem will_poll_iff_twoRounds : ∃ σ : State 2,
    run (step oneQueue) init twoRounds = some σ ∧ σ.willPoll = 2 ∧
      Always (step oneQueue) (Balanced oneQueue) init twoRounds := by
  refine ⟨_, rfl, rfl, (will_poll_iff oneQueue twoRounds _ rfl).mpr ?_⟩
  exact (Meets.of_run rfl).1

/-- A poll returns `true` and fills the queue. The next round of `poll_tx_only` announces a poll and
does not take it up, the call returns, and the counter stays at one. Then every `poll_tx_only`
returns without a poll. -/
theorem announcement_left : ∃ σ : State 1,
    run (step oneQueue) init [.call 0 .pollTxOnly 0, .run 0 false 0, .run 0 false 0,
        .run 0 false 0, .run 0 false 0, .run 0 true 1, .run 0 false 0, .run 0 false 0,
        .run 0 false 0, .run 0 false 0, .run 0 false 0] = some σ ∧
      (∀ t, σ.pc t = .idle) ∧ σ.willPoll = 1 ∧ ¬ σ.Balanced oneQueue := by
  refine ⟨_, rfl, by decide, rfl, fun h => ?_⟩
  cases h.idle (by decide)

end State

end IfNet

end Awkernel
