import Awkernel.Sync.AsyncLock

/-!
# The barrier

`awkernel_async_lib/src/sync/barrier.rs`: `Barrier::new(n)` makes a topic with `n - 1` subscribers
and a queue of one message. In `wait` the first `n - 1` tasks take a number each and wait for a
message at the subscriber with that number; the last one is the leader, starts the count again and
sends a message to all subscribers.

`Barrier::new(1)` panics, because it asks for `n - 2` clones. For two or more tasks the barrier is
right as long as a task takes a number only when nobody waits at that subscriber any more
(`TakesFreeIndex`, `barrier_rounds`). Otherwise a fast task of the next round takes the message of
a slow one of this round, and passes the barrier alone (`early_return`).

The tasks are numbered. A step is one critical section: a poll of the lock, the part of `wait`
under the lock, a poll of `recv`, and one round of the loop of `Sender::poll`. Any task that is
not at such a step may be polled at any time, woken or not. The messages do not expire, so their
time stamps are not looked at, and are zero here. The order in which the leader visits the
subscribers is that of their addresses, an input.
-/

namespace Awkernel

open TransitionSystem Function

namespace Barrier

/-- The attribute of the topic of `Barrier::new`. -/
def attr : Attribute := { Attribute.default with queueSize := 1 }

/-- Where a task is in `wait`. -/
inductive Pc
  /-- Between two calls of `wait`. -/
  | idle
  | locking
  /-- It has the guard. -/
  | locked
  | receiving (i : Nat)
  /-- The leader in `send`: `none` before it has copied the map of subscribers, and then the
  subscribers that it has still to visit. -/
  | sending (subscribers : Option (List Nat))
  /-- The leader at the yield of `send`. -/
  | yielding
  deriving DecidableEq

/-- A barrier with its tasks. -/
structure State where
  lock : AsyncLockInner
  count : Nat
  numThreads : Nat
  /-- The subscribers `rxs`, by their number. -/
  inner : Nat → InnerSubscriber Unit
  /-- The numbers of the subscribers in the order of their addresses. -/
  order : List Nat
  pc : Nat → Pc
  /-- How often a task has called `wait`. -/
  calls : Nat → Nat
  /-- How often a task has returned from `wait`. -/
  returns : Nat → Nat
  /-- The tasks whose `r`-th wait has returned the leader result. -/
  led : Nat → List Nat
  /-- How many leaders have come. -/
  rounds : Nat

inductive Action
  | call (t : Nat)
  | lock (t : Nat) (waker : Waker)
  /-- The part of `wait` under the lock. -/
  | pass (t : Nat)
  | recv (t : Nat) (waker : Waker)
  | send (t : Nat) (waker : Waker)
  | finish (t : Nat)

/-- The task that takes the step. -/
def Action.task : Action → Nat
  | .call t | .lock t _ | .pass t | .recv t _ | .send t _ | .finish t => t

namespace State

/-- `Barrier::new`; `none` is the panic at `n - 2`. -/
def new (n : Nat) (order : List Nat) : Option State :=
  if n < 2 then none
  else some {
    lock := .new
    count := 0
    numThreads := n
    inner := fun _ => .new attr.queueSize
    order := order
    pc := fun _ => .idle
    calls := fun _ => 0
    returns := fun _ => 0
    led := fun _ => []
    rounds := 0 }

/-- A task returns from `wait`. -/
def ret (σ : State) (t : Nat) : State :=
  { σ with
    pc := update σ.pc t .idle
    returns := update σ.returns t (σ.returns t + 1) }

/-- A step of task `t`; `none` if it is not there. -/
def stepOf (σ : State) (t : Nat) : Action → Option State
  | .call _ =>
    if σ.pc t = .idle then
      some { σ with
        pc := update σ.pc t .locking
        calls := update σ.calls t (σ.calls t + 1) }
    else none
  | .lock _ waker =>
    if σ.pc t = .locking then
      match σ.lock.poll waker with
      | (lock, .ready _) => some { σ with lock := lock, pc := update σ.pc t .locked }
      | (lock, .pending) => some { σ with lock := lock }
    else none
  | .pass _ =>
    if σ.pc t = .locked then
      if σ.count < σ.numThreads - 1 then
        some { σ with
          count := σ.count + 1
          lock := σ.lock.unlock.1
          pc := update σ.pc t (.receiving σ.count) }
      else
        some { σ with
          count := 0
          lock := σ.lock.unlock.1
          rounds := σ.rounds + 1
          pc := update σ.pc t (.sending none) }
    else none
  | .recv _ waker =>
    match σ.pc t with
    | .receiving i =>
      ((σ.inner i).recvOrRegisterWaker attr.lifespan 0 waker).map fun (inner, _, result) =>
        match result with
        | some _ => { σ with inner := update σ.inner i inner }.ret t
        | none => { σ with inner := update σ.inner i inner }
    | _ => none
  | .send _ waker =>
    match σ.pc t with
    | .sending none => some { σ with pc := update σ.pc t (.sending (some σ.order)) }
    | .sending (some []) => some { σ with pc := update σ.pc t .yielding }
    | .sending (some (i :: rest)) =>
      ((σ.inner i).visit attr 0 waker ⟨0, ()⟩).map fun (inner, _, v) =>
        match v with
        | .closed => { σ with pc := update σ.pc t (.sending (some rest)) }
        | .parked => { σ with inner := update σ.inner i inner }
        | .pushed =>
          { σ with
            inner := update σ.inner i inner
            pc := update σ.pc t (.sending (some rest)) }
    | _ => none
  | .finish _ =>
    if σ.pc t = .yielding then
      some { σ.ret t with
        led := update σ.led (σ.returns t + 1) (σ.led (σ.returns t + 1) ++ [t]) }
    else none

/-- A step; `none` if it cannot be taken or panics. -/
def step (σ : State) (a : Action) : Option State :=
  if a.task < σ.numThreads then σ.stepOf a.task a else none

/-- No task returns from its `r`-th wait before all tasks have called theirs, no round has two
leaders, and a round from which all have returned has one. -/
structure Rounds (σ : State) : Prop where
  called : ∀ t < σ.numThreads, ∀ t' < σ.numThreads, σ.returns t ≤ σ.calls t'
  atMostOne : ∀ r, (σ.led r).length ≤ 1
  exactlyOne : ∀ r, 0 < r → (∀ t < σ.numThreads, r ≤ σ.returns t) → (σ.led r).length = 1

/-- A task takes a number only when no task waits at the subscriber with that number. -/
def TakesFreeIndex (σ : State) : Action → Prop
  | .pass _ => σ.count < σ.numThreads - 1 →
      ∀ t < σ.numThreads, σ.pc t ≠ .receiving σ.count
  | _ => True

/-! ### The steps -/

/-- What a step does, if the subscribers have queues of one message and nobody is parked at
them. -/
inductive StepCase (σ : State) (t : Nat) : Action → State → Prop
  | call :
      σ.pc t = .idle →
      StepCase σ t (.call t) { σ with
        pc := update σ.pc t .locking
        calls := update σ.calls t (σ.calls t + 1) }
  | lock {waker : Waker} {lock : AsyncLockInner} :
      σ.pc t = .locking →
      StepCase σ t (.lock t waker)
        { σ with lock := lock, pc := update σ.pc t .locked }
  | park {waker : Waker} {lock : AsyncLockInner} :
      σ.pc t = .locking →
      StepCase σ t (.lock t waker) { σ with lock := lock }
  | join {lock : AsyncLockInner} :
      σ.pc t = .locked →
      σ.count < σ.numThreads - 1 →
      StepCase σ t (.pass t) { σ with
        count := σ.count + 1
        lock := lock
        pc := update σ.pc t (.receiving σ.count) }
  | lead {lock : AsyncLockInner} :
      σ.pc t = .locked →
      ¬σ.count < σ.numThreads - 1 →
      StepCase σ t (.pass t) { σ with
        count := 0
        lock := lock
        rounds := σ.rounds + 1
        pc := update σ.pc t (.sending none) }
  | received {waker : Waker} {i : Nat} {inner : InnerSubscriber Unit} {d : Data Unit} :
      σ.pc t = .receiving i →
      (σ.inner i).items = d :: inner.items →
      inner.wakerPublishers = [] →
      inner.size = 1 →
      inner.closed = false →
      StepCase σ t (.recv t waker) ({ σ with inner := update σ.inner i inner }.ret t)
  | nothing {waker : Waker} {i : Nat} {inner : InnerSubscriber Unit} :
      σ.pc t = .receiving i →
      inner.items = (σ.inner i).items →
      inner.wakerPublishers = [] →
      inner.size = 1 →
      inner.closed = false →
      StepCase σ t (.recv t waker) { σ with inner := update σ.inner i inner }
  | snapshot {waker : Waker} :
      σ.pc t = .sending none →
      StepCase σ t (.send t waker)
        { σ with pc := update σ.pc t (.sending (some σ.order)) }
  | pushed {waker : Waker} {i : Nat} {rest : List Nat} {inner : InnerSubscriber Unit} :
      σ.pc t = .sending (some (i :: rest)) →
      (σ.inner i).items = [] →
      inner.items = [⟨0, ()⟩] →
      inner.wakerPublishers = [] →
      inner.size = 1 →
      inner.closed = false →
      StepCase σ t (.send t waker) { σ with
        inner := update σ.inner i inner
        pc := update σ.pc t (.sending (some rest)) }
  | full {waker : Waker} {i : Nat} {rest : List Nat} {inner : InnerSubscriber Unit} :
      σ.pc t = .sending (some (i :: rest)) →
      (σ.inner i).items ≠ [] →
      StepCase σ t (.send t waker) { σ with inner := update σ.inner i inner }
  | sent {waker : Waker} :
      σ.pc t = .sending (some []) →
      StepCase σ t (.send t waker) { σ with pc := update σ.pc t .yielding }
  | finish :
      σ.pc t = .yielding →
      StepCase σ t (.finish t) { σ.ret t with
        led := update σ.led (σ.returns t + 1) (σ.led (σ.returns t + 1) ++ [t]) }

/-- The subscribers are open and have room for one message, and nobody is parked at them. -/
def Queues (σ : State) : Prop :=
  ∀ i, (σ.inner i).size = 1 ∧ (σ.inner i).closed = false ∧ (σ.inner i).wakerPublishers = []

theorem step_cases {σ σ' : State} {a : Action} (hq : σ.Queues) (h : σ.step a = some σ') :
    a.task < σ.numThreads ∧ StepCase σ a.task a σ' := by
  obtain ⟨hlt, h⟩ := Option.ite_none_right_eq_some.mp h
  refine ⟨hlt, ?_⟩
  cases a with
  | call t =>
    obtain ⟨hpc, ⟨⟩⟩ := Option.ite_none_right_eq_some.mp h
    exact .call hpc
  | lock t waker =>
    obtain ⟨hpc, h⟩ := Option.ite_none_right_eq_some.mp h
    split at h
    · cases h
      exact .lock hpc
    · cases h
      exact .park hpc
  | pass t =>
    obtain ⟨hpc, h⟩ := Option.ite_none_right_eq_some.mp h
    split at h
    · next hcount =>
      cases h
      exact .join hpc hcount
    · next hcount =>
      cases h
      exact .lead hpc hcount
  | recv t waker =>
    dsimp only [stepOf, Action.task] at h
    split at h
    · next i hpc =>
      obtain ⟨hsize, hclosed, hpubs⟩ := hq i
      have hpos : 0 < (σ.inner i).size := hsize ▸ Nat.one_pos
      obtain ⟨inner, woken, result, hrecv, hcase, hsize', hclosed'⟩ :=
        InnerSubscriber.recv_cases hpos attr.lifespan 0 waker
      rw [hrecv] at h
      cases h
      cases hcase with
      | @ready d rest hitems hrest hkept _ =>
        refine .received (d := d) hpc ?_ ?_ (hsize'.trans hsize) (hclosed'.trans hclosed)
        · rw [hrest]
          exact hitems
        · rw [hkept, InnerSubscriber.keptFor, hpubs, List.drop_nil]
      | pending hitems hnil hkept _ =>
        refine .nothing hpc ?_ (hkept.trans hpubs) (hsize'.trans hsize) (hclosed'.trans hclosed)
        exact hnil.trans hitems.symm
    · cases h
  | send t waker =>
    dsimp only [stepOf, Action.task] at h
    split at h
    · next hpc =>
      cases h
      exact .snapshot hpc
    · next hpc =>
      cases h
      exact .sent hpc
    · next i rest hpc =>
      obtain ⟨hsize, hclosed, hpubs⟩ := hq i
      have hpos : 0 < (σ.inner i).size := hsize ▸ Nat.one_pos
      obtain ⟨inner, woken, v, hvisit, hcase, hsize', hclosed'⟩ :=
        InnerSubscriber.visit_cases hpos attr 0 waker ⟨0, ()⟩
      rw [hvisit] at h
      cases h
      cases hcase with
      | closed hc _ => cases hclosed.symm.trans hc
      | behind _ hne _ => exact absurd hpubs hne
      | replaced _ _ hflow _ _ _ _ => cases hflow
      | full _ _ _ hlen _ _ _ =>
        refine .full hpc fun hnil => ?_
        change (σ.inner i).items.length = _ at hlen
        rw [hnil, hsize] at hlen
        cases hlen
      | pushed _ _ hroom hitems hpubs' _ =>
        have hnil : (σ.inner i).items = [] := by
          refine List.eq_nil_of_length_eq_zero (Nat.lt_one_iff.mp ?_)
          rw [← hsize]
          exact hroom
        refine .pushed hpc hnil ?_ hpubs' (hsize'.trans hsize) (hclosed'.trans hclosed)
        change inner.items = (σ.inner i).items ++ _ at hitems
        rw [hitems, hnil]
        rfl
    · cases h
  | finish t =>
    obtain ⟨hpc, ⟨⟩⟩ := Option.ite_none_right_eq_some.mp h
    exact .finish hpc

end State

end Barrier

end Awkernel
