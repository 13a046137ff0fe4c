import Awkernel.RingQ
import Mathlib.Data.List.TakeWhile

/-!
# The subscriber's side of a topic

`awkernel_async_lib/src/pubsub.rs`: the state that one subscriber shares with the
publishers of its topic (`InnerSubscriber`), and the critical sections on it. Each of
them runs with the mutex of the subscriber held:

* `recvOrRegisterWaker`, `tryRecv` — the two ways to receive;
* `visit` — one round of the loop of `Sender::poll` over its list of subscribers;
* `close` — the second half of `destroy_subscriber`.

A critical section returns the new state and the wakers it called `wake` on; `none` is a
panic (the index in `RingQ::head`, for a queue of size zero). The clock is read once per
critical section: `garbage_collect` reads it for every message, but on a clock that does
not run backwards the messages it removes are those expired at its last reading that
found an expired message.

`items` lists the stored messages and `unexpired` those that survive a garbage
collection. `recv_cases`, `tryRecv_cases` and `visit_cases` say what each section does
in these terms.
-/

namespace Awkernel

open List Option

/-- A `Waker`, told apart by the task it wakes. -/
abbrev Waker := Nat

/-- `core::task::Poll`. -/
inductive Poll (α : Type)
  | pending
  | ready (a : α)

/-- `Data<T>`; the time stamp is an `Instant`, in nanoseconds. -/
structure Data (T : Type) where
  timestamp : Nat
  data : T
  deriving DecidableEq

/-- `Lifespan`; the `Duration` is in nanoseconds. -/
inductive Lifespan
  | permanent
  | span (lifespan : Nat)
  deriving DecidableEq

/-- `Attribute`. -/
structure Attribute where
  queueSize : Nat
  flowControl : Bool
  transientLocal : Bool
  lifespan : Lifespan
  deriving DecidableEq

/-- `Attribute::default`. -/
def Attribute.default : Attribute where
  queueSize := 10
  flowControl := true
  transientLocal := false
  lifespan := .permanent

/-- `Instant::elapsed`, in nanoseconds; the difference is cast to a `u64`. -/
def elapsed (now timestamp : Nat) : Nat :=
  if now > timestamp then (now - timestamp) % 2 ^ 64 else 0

/-- The test of `garbage_collect`, in whole microseconds. -/
def Data.expired {T : Type} (span now : Nat) (d : Data T) : Bool :=
  elapsed now d.timestamp / 1000 > span / 1000

/-- `InnerSubscriber<T>`. -/
structure InnerSubscriber (T : Type) where
  queue : RingQ (Data T)
  wakerPublishers : List Waker
  wakerSubscriber : Option Waker
  closed : Bool

namespace InnerSubscriber

variable {T : Type}

/-- `InnerSubscriber::new`. -/
def new (queueSize : Nat) : InnerSubscriber T where
  queue := .new queueSize
  wakerPublishers := []
  wakerSubscriber := none
  closed := false

/-- The loop of `garbage_collect`; the first argument bounds its rounds. -/
def collect (span now : Nat) : Nat → RingQ (Data T) → Option (RingQ (Data T))
  | 0, queue => some queue
  | rounds + 1, queue =>
    match queue.front with
    | none => none
    | some none => some queue
    | some (some head) =>
      if head.expired span now then collect span now rounds queue.pop.2 else some queue

/-- `InnerSubscriber::garbage_collect`. -/
def garbageCollect (lifespan : Lifespan) (now : Nat) (inner : InnerSubscriber T) :
    Option (InnerSubscriber T) :=
  match lifespan with
  | .permanent => some inner
  | .span span =>
    (collect span now (inner.queue.len + 1) inner.queue).map fun queue =>
      { inner with queue := queue }

/-- The loop that wakes as many publishers as there are free slots. -/
def wakePublishers (inner : InnerSubscriber T) : InnerSubscriber T × List Waker :=
  let room := inner.queue.queueSize - inner.queue.len
  ({ inner with wakerPublishers := inner.wakerPublishers.drop room },
    inner.wakerPublishers.take room)

/-- `Subscriber::recv_or_register_waker`, polled with `waker`. `Poll::Pending` is `none`. -/
def recvOrRegisterWaker (lifespan : Lifespan) (now : Nat) (waker : Waker)
    (inner : InnerSubscriber T) :
    Option (InnerSubscriber T × List Waker × Option (Data T)) := do
  let inner ← inner.garbageCollect lifespan now
  match inner.queue.pop with
  | (some data, queue) =>
    let (inner, woken) := { inner with queue := queue }.wakePublishers
    some (inner, woken, some data)
  | (none, queue) =>
    some ({ inner with queue := queue, wakerSubscriber := some waker }, [], none)

/-- `Subscriber::try_recv`. -/
def tryRecv (lifespan : Lifespan) (now : Nat) (inner : InnerSubscriber T) :
    Option (InnerSubscriber T × List Waker × Option (Data T)) := do
  let inner ← inner.garbageCollect lifespan now
  let (result, queue) := inner.queue.pop
  let (inner, woken) := { inner with queue := queue }.wakePublishers
  some (inner, woken, result)

/-- What a sender did at one subscriber. -/
inductive Visit
  /-- The subscriber is closed and is skipped. -/
  | closed
  /-- The waker of the sender is registered, and its poll returns `Poll::Pending`. -/
  | parked
  /-- The message is in the queue. -/
  | pushed
  deriving DecidableEq

/-- One round of the loop of `Sender::poll` in the state `Wait`: the subscriber taken from
the front of the sender's list is locked and the message `data` handed to it. -/
def visit (attr : Attribute) (now : Nat) (waker : Waker) (data : Data T)
    (inner : InnerSubscriber T) : Option (InnerSubscriber T × List Waker × Visit) :=
  if inner.closed then some (inner, [], .closed)
  else if inner.wakerPublishers ≠ [] then
    -- other publishers are waiting
    some ({ inner with wakerPublishers := inner.wakerPublishers ++ [waker] }, [], .parked)
  else do
    let inner ← inner.garbageCollect attr.lifespan now
    match inner.queue.push data with
    | .ok queue =>
      some ({ inner with queue := queue, wakerSubscriber := none }, inner.wakerSubscriber.toList,
        .pushed)
    | .error data =>
      if attr.flowControl then
        some ({ inner with wakerPublishers := inner.wakerPublishers ++ [waker] }, [], .parked)
      else
        -- the oldest message makes way, and the result of the second `push` is ignored
        let queue := inner.queue.pop.2
        let queue := match queue.push data with
          | .ok queue => queue
          | .error _ => queue
        some ({ inner with queue := queue }, [], .pushed)

/-- The critical section of `destroy_subscriber`: close, and wake all publishers up. -/
def close (inner : InnerSubscriber T) : InnerSubscriber T × List Waker :=
  ({ inner with closed := true, wakerPublishers := [] }, inner.wakerPublishers)

/-! ### The messages -/

/-- The messages in the queue, oldest first. -/
def items (inner : InnerSubscriber T) : List (Data T) := inner.queue.toList

/-- The capacity of the queue. -/
def size (inner : InnerSubscriber T) : Nat := inner.queue.queueSize

/-- The messages that a garbage collection leaves. -/
def unexpired (lifespan : Lifespan) (now : Nat) (inner : InnerSubscriber T) : List (Data T) :=
  match lifespan with
  | .permanent => inner.items
  | .span span => inner.items.dropWhile fun d => d.expired span now

theorem length_items (inner : InnerSubscriber T) : inner.items.length = inner.queue.len :=
  inner.queue.length_toList

theorem length_items_le (inner : InnerSubscriber T) : inner.items.length ≤ inner.size := by
  rw [length_items]
  exact inner.queue.len_le

@[simp] theorem unexpired_permanent (now : Nat) (inner : InnerSubscriber T) :
    inner.unexpired .permanent now = inner.items := rfl

theorem unexpired_suffix (lifespan : Lifespan) (now : Nat) (inner : InnerSubscriber T) :
    inner.unexpired lifespan now <:+ inner.items := by
  cases lifespan with
  | permanent => exact suffix_rfl
  | span span => exact dropWhile_suffix _

theorem length_unexpired_le (lifespan : Lifespan) (now : Nat) (inner : InnerSubscriber T) :
    (inner.unexpired lifespan now).length ≤ inner.size :=
  (inner.unexpired_suffix lifespan now).length_le.trans inner.length_items_le

/-- The loop of `garbage_collect` ends with the first message that is not expired. -/
theorem collect_spec (span now : Nat) :
    ∀ {rounds : Nat} {queue : RingQ (Data T)}, 0 < queue.queueSize → queue.len < rounds →
      ∃ queue', collect span now rounds queue = some queue' ∧
        queue'.toList = queue.toList.dropWhile (fun d => d.expired span now) ∧
        queue'.queueSize = queue.queueSize := by
  intro rounds
  induction rounds with
  | zero => intro queue _ hlen; exact absurd hlen (Nat.not_lt_zero _)
  | succ rounds ih =>
    intro queue hsize hlen
    unfold collect
    rw [RingQ.front_eq hsize]
    cases hl : queue.toList with
    | nil => exact ⟨queue, rfl, hl, rfl⟩
    | cons head rest =>
      dsimp only [head?_cons]
      by_cases hexp : head.expired span now = true
      · obtain ⟨-, htail, hsize'⟩ := RingQ.pop_of_cons hl
        have hlen' : queue.pop.2.len < rounds := by
          have h₁ := queue.length_toList
          have h₂ := queue.pop.2.length_toList
          rw [hl, length_cons] at h₁
          rw [htail] at h₂
          omega
        obtain ⟨queue', hcollect, hitems, hsame⟩ := ih (by rw [hsize']; exact hsize) hlen'
        rw [if_pos hexp, dropWhile_cons_of_pos hexp]
        exact ⟨queue', hcollect, by rw [hitems, htail], by rw [hsame, hsize']⟩
      · rw [if_neg hexp, dropWhile_cons_of_neg hexp]
        exact ⟨queue, rfl, hl, rfl⟩

variable {inner inner' : InnerSubscriber T} {woken : List Waker} {now : Nat} {lifespan : Lifespan}

/-- **`garbage_collect` leaves the unexpired messages**, and touches nothing else. -/
theorem garbageCollect_spec (hsize : 0 < inner.size) (lifespan : Lifespan) (now : Nat) :
    ∃ queue, inner.garbageCollect lifespan now = some { inner with queue := queue } ∧
      queue.toList = inner.unexpired lifespan now ∧ queue.queueSize = inner.size := by
  cases lifespan with
  | permanent => exact ⟨inner.queue, rfl, rfl, rfl⟩
  | span span =>
    obtain ⟨queue, hcollect, hitems, hsame⟩ :=
      collect_spec span now hsize (Nat.lt_add_one inner.queue.len)
    refine ⟨queue, ?_, hitems, hsame⟩
    show (collect span now (inner.queue.len + 1) inner.queue).map _ = _
    rw [hcollect]
    rfl

/-! ### What the critical sections do -/

/-- The wakers that are woken when `n` messages are left. -/
def wokenFor (inner : InnerSubscriber T) (n : Nat) : List Waker :=
  inner.wakerPublishers.take (inner.size - n)

/-- The wakers that stay registered. -/
def keptFor (inner : InnerSubscriber T) (n : Nat) : List Waker :=
  inner.wakerPublishers.drop (inner.size - n)

/-- The outcomes of `recv_or_register_waker`. -/
inductive RecvCase (lifespan : Lifespan) (now : Nat) (waker : Waker)
    (inner inner' : InnerSubscriber T) : List Waker → Option (Data T) → Prop
  /-- `Poll::Ready`. -/
  | ready {d : Data T} {rest : List (Data T)} :
      inner.unexpired lifespan now = d :: rest →
      inner'.items = rest →
      inner'.wakerPublishers = inner.keptFor rest.length →
      inner'.wakerSubscriber = inner.wakerSubscriber →
      RecvCase lifespan now waker inner inner' (inner.wokenFor rest.length) (some d)
  /-- `Poll::Pending`: no publisher is woken, also if the queue was not empty before. -/
  | pending :
      inner.unexpired lifespan now = [] →
      inner'.items = [] →
      inner'.wakerPublishers = inner.wakerPublishers →
      inner'.wakerSubscriber = some waker →
      RecvCase lifespan now waker inner inner' [] none

section

variable (hsize : 0 < inner.size)

include hsize

/-- **`recv_or_register_waker`** does not panic, and does one of two things. -/
theorem recv_cases (lifespan : Lifespan) (now : Nat) (waker : Waker) : ∃ inner' woken result,
      inner.recvOrRegisterWaker lifespan now waker = some (inner', woken, result) ∧
      RecvCase lifespan now waker inner inner' woken result ∧
      inner'.size = inner.size ∧ inner'.closed = inner.closed := by
  obtain ⟨queue, hgc, hitems, hsame⟩ := garbageCollect_spec hsize lifespan now
  unfold recvOrRegisterWaker
  rw [hgc]
  cases hl : queue.toList with
  | nil =>
    rw [bind_eq_bind, bind_some, RingQ.pop_of_nil hl]
    exact ⟨_, _, _, rfl, .pending (by rw [← hitems, hl]) hl rfl rfl, hsame, rfl⟩
  | cons d rest =>
    obtain ⟨hfirst, htail, hsize'⟩ := RingQ.pop_of_cons hl
    have hpop : queue.pop = (some d, queue.pop.2) := Prod.ext hfirst rfl
    have hroom : queue.pop.2.queueSize - queue.pop.2.len = inner.size - rest.length := by
      rw [hsize', hsame, ← queue.pop.2.length_toList, htail]
    rw [bind_eq_bind, bind_some]
    rw [hpop]
    refine ⟨_, _, _, rfl, ?_, hsize'.trans hsame, rfl⟩
    rw [hroom]
    exact .ready (by rw [← hitems, hl]) htail rfl rfl

theorem recv_spec {waker : Waker} {result : Option (Data T)}
    (h : inner.recvOrRegisterWaker lifespan now waker = some (inner', woken, result)) :
    RecvCase lifespan now waker inner inner' woken result ∧
      inner'.size = inner.size ∧ inner'.closed = inner.closed := by
  obtain ⟨_, _, _, heq, hcase⟩ := recv_cases hsize lifespan now waker
  rw [h] at heq
  cases heq
  exact hcase

/-- **`try_recv`**: as many publishers are woken as there are free slots, in every case. -/
theorem tryRecv_cases (lifespan : Lifespan) (now : Nat) :
    ∃ inner' woken result, inner.tryRecv lifespan now = some (inner', woken, result) ∧
      result = (inner.unexpired lifespan now).head? ∧
      inner'.items = (inner.unexpired lifespan now).tail ∧
      woken = inner.wokenFor (inner.unexpired lifespan now).tail.length ∧
      inner'.wakerPublishers = inner.keptFor (inner.unexpired lifespan now).tail.length ∧
      inner'.wakerSubscriber = inner.wakerSubscriber ∧
      inner'.size = inner.size ∧ inner'.closed = inner.closed := by
  obtain ⟨queue, hgc, hitems, hsame⟩ := garbageCollect_spec hsize lifespan now
  obtain ⟨hfirst, htail⟩ := queue.toList_pop
  have hsize' : queue.pop.2.queueSize = inner.size := queue.queueSize_pop.trans hsame
  have hroom : queue.pop.2.queueSize - queue.pop.2.len =
      inner.size - (inner.unexpired lifespan now).tail.length := by
    rw [hsize', ← queue.pop.2.length_toList, htail, hitems]
  unfold tryRecv
  rw [hgc, bind_eq_bind]
  refine ⟨({ inner with queue := queue.pop.2 } : InnerSubscriber T).wakePublishers.1,
    ({ inner with queue := queue.pop.2 } : InnerSubscriber T).wakePublishers.2, queue.pop.1,
    rfl, ?_, ?_, ?_, ?_, rfl, hsize', rfl⟩
  · rw [← hitems]
    exact hfirst
  · rw [← hitems]
    exact htail
  · dsimp only [wakePublishers]
    rw [hroom]
    rfl
  · dsimp only [wakePublishers]
    rw [hroom]
    rfl

theorem tryRecv_spec {result : Option (Data T)}
    (h : inner.tryRecv lifespan now = some (inner', woken, result)) :
    result = (inner.unexpired lifespan now).head? ∧
      inner'.items = (inner.unexpired lifespan now).tail ∧
      woken = inner.wokenFor (inner.unexpired lifespan now).tail.length ∧
      inner'.wakerPublishers = inner.keptFor (inner.unexpired lifespan now).tail.length ∧
      inner'.wakerSubscriber = inner.wakerSubscriber ∧
      inner'.size = inner.size ∧ inner'.closed = inner.closed := by
  obtain ⟨_, _, _, heq, hcase⟩ := tryRecv_cases hsize lifespan now
  rw [h] at heq
  cases heq
  exact hcase

end

/-- The outcomes of a sender's visit. -/
inductive VisitCase (attr : Attribute) (now : Nat) (waker : Waker) (data : Data T)
    (inner inner' : InnerSubscriber T) : List Waker → Visit → Prop
  | closed :
      inner.closed = true →
      inner' = inner →
      VisitCase attr now waker data inner inner' [] .closed
  /-- Parked behind other publishers; the queue is not looked at. -/
  | behind :
      inner.closed = false →
      inner.wakerPublishers ≠ [] →
      inner' = { inner with wakerPublishers := inner.wakerPublishers ++ [waker] } →
      VisitCase attr now waker data inner inner' [] .parked
  /-- Parked at a queue that is full also after the garbage collection. -/
  | full :
      inner.closed = false →
      inner.wakerPublishers = [] →
      attr.flowControl = true →
      (inner.unexpired attr.lifespan now).length = inner.size →
      inner'.items = inner.unexpired attr.lifespan now →
      inner'.wakerPublishers = [waker] →
      inner'.wakerSubscriber = inner.wakerSubscriber →
      VisitCase attr now waker data inner inner' [] .parked
  | pushed :
      inner.closed = false →
      inner.wakerPublishers = [] →
      (inner.unexpired attr.lifespan now).length < inner.size →
      inner'.items = inner.unexpired attr.lifespan now ++ [data] →
      inner'.wakerPublishers = [] →
      inner'.wakerSubscriber = none →
      VisitCase attr now waker data inner inner' inner.wakerSubscriber.toList .pushed
  /-- Without flow control, the oldest message makes way. -/
  | replaced :
      inner.closed = false →
      inner.wakerPublishers = [] →
      attr.flowControl = false →
      (inner.unexpired attr.lifespan now).length = inner.size →
      inner'.items = (inner.unexpired attr.lifespan now).tail ++ [data] →
      inner'.wakerPublishers = [] →
      inner'.wakerSubscriber = inner.wakerSubscriber →
      VisitCase attr now waker data inner inner' [] .pushed

/-- **A sender's visit** does not panic, and has one of five outcomes. -/
theorem visit_cases (hsize : 0 < inner.size) (attr : Attribute) (now : Nat) (waker : Waker)
    (data : Data T) :
    ∃ inner' woken v, inner.visit attr now waker data = some (inner', woken, v) ∧
      VisitCase attr now waker data inner inner' woken v ∧
      inner'.size = inner.size ∧ inner'.closed = inner.closed := by
  obtain ⟨queue, hgc, hitems, hsame⟩ := garbageCollect_spec hsize attr.lifespan now
  unfold visit
  by_cases hclosed : inner.closed = true
  · rw [if_pos hclosed]
    exact ⟨_, _, _, rfl, .closed hclosed rfl, rfl, rfl⟩
  rw [if_neg hclosed]
  replace hclosed := Bool.eq_false_of_not_eq_true hclosed
  by_cases hpubs : inner.wakerPublishers = []
  · rw [if_neg (not_not.mpr hpubs), hgc, bind_eq_bind, bind_some]
    cases hpush : queue.push data with
    | ok queue' =>
      obtain ⟨hroom, hitems', hsize'⟩ := RingQ.push_eq_ok hpush
      refine ⟨_, _, _, rfl, .pushed hclosed hpubs ?_ ?_ hpubs rfl, hsize'.trans hsame, rfl⟩
      · rw [← hitems, queue.length_toList, ← hsame]
        exact hroom
      · rw [← hitems]
        exact hitems'
    | error data' =>
      obtain ⟨hfull, hdata⟩ := RingQ.push_eq_error hpush
      subst hdata
      have hlen : (inner.unexpired attr.lifespan now).length = inner.size := by
        rw [← hitems, queue.length_toList, ← hsame]
        exact hfull
      dsimp only
      by_cases hflow : attr.flowControl = true
      · rw [if_pos hflow]
        exact ⟨_, _, _, rfl, .full hclosed hpubs hflow hlen hitems (by simp [hpubs]) rfl,
          hsame, rfl⟩
      rw [if_neg hflow]
      replace hflow := Bool.eq_false_of_not_eq_true hflow
      obtain ⟨-, htail⟩ := queue.toList_pop
      -- the first `pop` has made room for the second `push`
      have hroom : queue.pop.2.len < queue.pop.2.queueSize := by
        rw [← queue.pop.2.length_toList, htail, queue.queueSize_pop, length_tail,
          queue.length_toList, hfull, hsame]
        exact Nat.sub_lt hsize Nat.one_pos
      obtain ⟨queue', hpush'⟩ := RingQ.exists_push_eq_ok hroom data'
      obtain ⟨-, hitems', hsize'⟩ := RingQ.push_eq_ok hpush'
      rw [hpush']
      refine ⟨_, _, _, rfl, .replaced hclosed hpubs hflow hlen ?_ hpubs rfl, ?_, rfl⟩
      · rw [← hitems, ← htail]
        exact hitems'
      · exact hsize'.trans (queue.queueSize_pop.trans hsame)
  · rw [if_pos hpubs]
    exact ⟨_, _, _, rfl, .behind hclosed hpubs rfl, rfl, rfl⟩

theorem visit_spec {attr : Attribute} {waker : Waker} {data : Data T} {v : Visit}
    (hsize : 0 < inner.size)
    (h : inner.visit attr now waker data = some (inner', woken, v)) :
    VisitCase attr now waker data inner inner' woken v ∧
      inner'.size = inner.size ∧ inner'.closed = inner.closed := by
  obtain ⟨_, _, _, heq, hcase⟩ := visit_cases hsize attr now waker data
  rw [h] at heq
  cases heq
  exact hcase

end InnerSubscriber

end Awkernel
