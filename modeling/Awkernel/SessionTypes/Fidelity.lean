import Awkernel.Channel.Unbounded
import Awkernel.SessionTypes.Protocol

/-!
# Session fidelity

`session_channel::<P>()` of `awkernel_async_lib/src/session_types.rs` makes two unbounded channels
and gives one party the protocol `P` and the other one its dual. The values are sent as untyped
pointers, and each party follows its protocol through the methods of `Chan`.

The parties are `false`, with protocol `P`, and `true`. A step is one method of `Chan`, up to the
yield at its end; a receive is a poll. A party chooses freely what it sends and which branch it
selects. `close` drops the sender and then the receiver, in two steps. A party that has panicked,
or has read a value at another type than it was written with, stops there (`Party.failed`).

The state is sound because the two parties are linked (`Inv.linked`), and because a channel is
closed only by a party whose protocol is at its end (`Inv.terminated`).

* `fidelity` — no party fails, and the two are never blocked both.
* `progress` — if the protocol has no free variables, some party can make the next move of its
  protocol (`Moves`) until both have closed. A receive that finds nothing is no move.
-/

namespace Awkernel

open TransitionSystem Unbounded.Channel Option Function Bool

namespace SessionTypes

variable {τ : Type} {val : τ → Type}

/-- A read at type `A`; `none` if the value was written at another type. -/
def Ptr.read [DecidableEq τ] (A : Ty τ) (x : Ptr val) : Option (A.Val val) :=
  if h : x.type = A then some (h ▸ x.value) else none

theorem Ptr.read_self [DecidableEq τ] (A : Ty τ) (v : A.Val val) :
    (⟨A, v⟩ : Ptr val).read A = some v :=
  dif_pos rfl

/-- How a party has failed. -/
inductive Fault
  /-- The unwrap in `write_chan`. -/
  | write
  /-- The unwrap in `read_chan`. -/
  | read (e : Unbounded.RecvErr)
  | mistyped

/-- What a party has. -/
inductive Party (τ : Type)
  | chan (c : Chan τ)
  /-- In `close`, after the drop of the sender. -/
  | closing
  | closed
  | failed (fault : Fault)

/-- The place of a party in its protocol. -/
def Party.At : Party τ → Chan τ → Prop
  | .chan c, d => c = d
  | .closing, d | .closed, d => d.protocol = .eps
  | .failed _, _ => False

/-- The two parties of a session. -/
structure State (val : τ → Type) where
  party : Bool → Party τ
  /-- The channel on which a party sends. -/
  channel : Bool → Unbounded.Channel (Ptr val)

inductive Action (val : τ → Type)
  | send (s : Bool) (x : Ptr val)
  | recv (s : Bool) (waker : Waker)
  | tryRecv (s : Bool)
  | sel1 (s : Bool)
  | sel2 (s : Bool)
  | offer (s : Bool) (waker : Waker)
  | tryOffer (s : Bool)
  | enter (s : Bool)
  | zero (s : Bool)
  | succ (s : Bool)
  /-- The two halves of `close`. -/
  | dropSender (s : Bool)
  | dropReceiver (s : Bool)

namespace State

/-- `session_channel`. -/
def sessionChannel (P : Protocol τ) : State val :=
  ⟨fun s => .chan ⟨[], bif s then P.dual else P⟩, fun _ => .new⟩

/-- `write_chan`, after which the party has `c`. -/
def writeChan (σ : State val) (s : Bool) (x : Ptr val) (c : Chan τ) : State val :=
  match (σ.channel s).sendNoYield x with
  | (channel, _, true) =>
    ⟨update σ.party s (.chan c), update σ.channel s channel⟩
  | (channel, _, false) =>
    ⟨update σ.party s (.failed .write), update σ.channel s channel⟩

section

variable [DecidableEq τ]

/-- A party has taken `x` from its channel, and reads it. -/
def afterRead (σ : State val) (s : Bool) (A : Ty τ) (next : A.Val val → Chan τ)
    (channel : Unbounded.Channel (Ptr val)) (x : Ptr val) : State val :=
  match x.read A with
  | some v => ⟨update σ.party s (.chan (next v)), update σ.channel (!s) channel⟩
  | none => ⟨update σ.party s (.failed .mistyped), update σ.channel (!s) channel⟩

/-- A poll of `read_chan` at type `A`, after which the party goes on with the value. -/
def readChan (σ : State val) (s : Bool) (waker : Waker) (A : Ty τ)
    (next : A.Val val → Chan τ) : State val :=
  match (σ.channel (!s)).pollRecv waker with
  | (channel, .pending) => { σ with channel := update σ.channel (!s) channel }
  | (channel, .ready (.ok x)) => σ.afterRead s A next channel x
  | (channel, .ready (.error e)) =>
    ⟨update σ.party s (.failed (.read e)), update σ.channel (!s) channel⟩

/-- `try_read_chan`; the party keeps its channel if there is no value. -/
def tryReadChan (σ : State val) (s : Bool) (A : Ty τ) (next : A.Val val → Chan τ) : State val :=
  match (σ.channel (!s)).tryRecv with
  | (channel, .ok x) => σ.afterRead s A next channel x
  | (channel, .error _) => { σ with channel := update σ.channel (!s) channel }

/-- The party goes on as `p`. -/
def goOn (σ : State val) (s : Bool) (p : Party τ) : State val :=
  { σ with party := update σ.party s p }

/-- A step; `none` if the protocol of the party has not got this method next. -/
def step (σ : State val) : Action val → Option (State val)
  | .send s x =>
    match σ.party s with
    | .chan ⟨E, .send A P⟩ => if x.type = A then some (σ.writeChan s x ⟨E, P⟩) else none
    | _ => none
  | .recv s waker =>
    match σ.party s with
    | .chan ⟨E, .recv A P⟩ => some (σ.readChan s waker A fun _ => ⟨E, P⟩)
    | _ => none
  | .tryRecv s =>
    match σ.party s with
    | .chan ⟨E, .recv A P⟩ => some (σ.tryReadChan s A fun _ => ⟨E, P⟩)
    | _ => none
  | .sel1 s =>
    match σ.party s with
    | .chan ⟨E, .choose P _⟩ => some (σ.writeChan s ⟨.bool, true⟩ ⟨E, P⟩)
    | _ => none
  | .sel2 s =>
    match σ.party s with
    | .chan ⟨E, .choose _ Q⟩ => some (σ.writeChan s ⟨.bool, false⟩ ⟨E, Q⟩)
    | _ => none
  | .offer s waker =>
    match σ.party s with
    | .chan ⟨E, .offer P Q⟩ =>
      some (σ.readChan s waker .bool fun (b : Bool) => if b then ⟨E, P⟩ else ⟨E, Q⟩)
    | _ => none
  | .tryOffer s =>
    match σ.party s with
    | .chan ⟨E, .offer P Q⟩ =>
      some (σ.tryReadChan s .bool fun (b : Bool) => if b then ⟨E, P⟩ else ⟨E, Q⟩)
    | _ => none
  | .enter s =>
    match σ.party s with
    | .chan ⟨E, .recur P⟩ => some (σ.goOn s (.chan ⟨P :: E, P⟩))
    | _ => none
  | .zero s =>
    match σ.party s with
    | .chan ⟨P :: E, .var 0⟩ => some (σ.goOn s (.chan ⟨P :: E, P⟩))
    | _ => none
  | .succ s =>
    match σ.party s with
    | .chan ⟨_ :: E, .var (n + 1)⟩ => some (σ.goOn s (.chan ⟨E, .var n⟩))
    | _ => none
  | .dropSender s =>
    match σ.party s with
    | .chan ⟨_, .eps⟩ =>
      some ⟨update σ.party s .closing,
        update σ.channel s (σ.channel s).dropSender.1⟩
    | _ => none
  | .dropReceiver s =>
    match σ.party s with
    | .closing =>
      some ⟨update σ.party s .closed,
        update σ.channel (!s) (σ.channel (!s)).dropReceiver⟩
    | _ => none

end

/-- A party is at a receive and there is nothing to receive. -/
def Blocked (σ : State val) (s : Bool) : Prop :=
  (∃ c, σ.party s = .chan c ∧ c.Reads) ∧ (σ.channel (!s)).queue = []

/-- What is claimed of the states of a session. -/
structure Faithful (σ : State val) : Prop where
  sound : ∀ s fault, σ.party s ≠ .failed fault
  live : ¬∀ s, σ.Blocked s

/-! ### The steps -/

variable {a : Action val}

section

variable [DecidableEq τ]

/-- Reading at type `A` and going on with `next` is what `c` does: it fits everything that the
dual party may write. -/
def ReadsAs (val : τ → Type) (c : Chan τ) (A : Ty τ) (next : A.Val val → Chan τ) : Prop :=
  ∀ {x : Ptr val} {e : Chan τ}, Chan.Out x c.dual e → ∃ v, x.read A = some v ∧ next v = e.dual

theorem readsAs_recv (E : List (Protocol τ)) (A : Ty τ) (P : Protocol τ) :
    ReadsAs val ⟨E, .recv A P⟩ A fun _ => ⟨E, P⟩ := by
  intro x e ho
  cases ho with
  | send v => exact ⟨v, Ptr.read_self A v, (Chan.dual_dual ⟨E, P⟩).symm⟩

theorem readsAs_offer (E : List (Protocol τ)) (P Q : Protocol τ) :
    ReadsAs val ⟨E, .offer P Q⟩ .bool fun (b : Bool) => if b then ⟨E, P⟩ else ⟨E, Q⟩ := by
  intro x e ho
  cases ho with
  | select b =>
    refine ⟨b, Ptr.read_self .bool b, ?_⟩
    cases b with
    | true => exact (Chan.dual_dual ⟨E, P⟩).symm
    | false => exact (Chan.dual_dual ⟨E, Q⟩).symm

/-- What a step of party `s` does. -/
inductive StepCase (σ : State val) (s : Bool) : State val → Prop
  | silent {c c' : Chan τ} :
      σ.party s = .chan c →
      Chan.Silent c c' →
      StepCase σ s (σ.goOn s (.chan c'))
  | write {x : Ptr val} {c c' : Chan τ} :
      σ.party s = .chan c →
      Chan.Out x c c' →
      StepCase σ s (σ.writeChan s x c')
  | read {waker : Waker} {c : Chan τ} {A : Ty τ} {next : A.Val val → Chan τ} :
      σ.party s = .chan c →
      c.Reads →
      ReadsAs val c A next →
      StepCase σ s (σ.readChan s waker A next)
  | tryRead {c : Chan τ} {A : Ty τ} {next : A.Val val → Chan τ} :
      σ.party s = .chan c →
      c.Reads →
      ReadsAs val c A next →
      StepCase σ s (σ.tryReadChan s A next)
  | dropSender {c : Chan τ} :
      σ.party s = .chan c →
      c.protocol = .eps →
      StepCase σ s ⟨update σ.party s .closing,
        update σ.channel s (σ.channel s).dropSender.1⟩
  | dropReceiver :
      σ.party s = .closing →
      StepCase σ s ⟨update σ.party s .closed,
        update σ.channel (!s) (σ.channel (!s)).dropReceiver⟩

theorem step_cases {σ σ' : State val} (h : σ.step a = some σ') : ∃ s, StepCase σ s σ' := by
  cases a with
  | send s x =>
    dsimp only [step] at h
    split at h
    · next E A P hp =>
      obtain ⟨htype, ⟨⟩⟩ := ite_none_right_eq_some.mp h
      obtain ⟨_, v⟩ := x
      obtain rfl := htype
      exact ⟨s, .write hp (.send v)⟩
    · cases h
  | recv s waker =>
    dsimp only [step] at h
    split at h
    · next E A P hp =>
      cases h
      exact ⟨s, .read hp (.inl ⟨A, P, rfl⟩) (readsAs_recv E A P)⟩
    · cases h
  | tryRecv s =>
    dsimp only [step] at h
    split at h
    · next E A P hp =>
      cases h
      exact ⟨s, .tryRead hp (.inl ⟨A, P, rfl⟩) (readsAs_recv E A P)⟩
    · cases h
  | sel1 s =>
    dsimp only [step] at h
    split at h
    · next E P Q hp =>
      cases h
      exact ⟨s, .write hp (.select true)⟩
    · cases h
  | sel2 s =>
    dsimp only [step] at h
    split at h
    · next E P Q hp =>
      cases h
      exact ⟨s, .write hp (.select false)⟩
    · cases h
  | offer s waker =>
    dsimp only [step] at h
    split at h
    · next E P Q hp =>
      cases h
      exact ⟨s, .read hp (.inr ⟨P, Q, rfl⟩) (readsAs_offer E P Q)⟩
    · cases h
  | tryOffer s =>
    dsimp only [step] at h
    split at h
    · next E P Q hp =>
      cases h
      exact ⟨s, .tryRead hp (.inr ⟨P, Q, rfl⟩) (readsAs_offer E P Q)⟩
    · cases h
  | enter s =>
    dsimp only [step] at h
    split at h
    · next E P hp =>
      cases h
      exact ⟨s, .silent hp .enter⟩
    · cases h
  | zero s =>
    dsimp only [step] at h
    split at h
    · next P E hp =>
      cases h
      exact ⟨s, .silent hp .zero⟩
    · cases h
  | succ s =>
    dsimp only [step] at h
    split at h
    · next P E n hp =>
      cases h
      exact ⟨s, .silent hp .succ⟩
    · cases h
  | dropSender s =>
    dsimp only [step] at h
    split at h
    · next E hp =>
      cases h
      exact ⟨s, .dropSender hp rfl⟩
    · cases h
  | dropReceiver s =>
    dsimp only [step] at h
    split at h
    · next hp =>
      cases h
      exact ⟨s, .dropReceiver hp⟩
    · cases h

end

/-! ### The invariant -/

/-- What the steps of a session keep. -/
structure Inv (σ : State val) : Prop where
  linked : ∀ s, ∃ c d, (σ.party s).At c ∧ (σ.party (!s)).At d ∧
    Chan.Linked (σ.channel s).queue (σ.channel (!s)).queue c d
  /-- A channel is closed only by a party at the end of its protocol. -/
  terminated : ∀ s, (σ.channel s).terminated = true →
    (σ.party s = .closing ∨ σ.party s = .closed) ∨ σ.party (!s) = .closed

variable {σ σ' : State val} {s : Bool} {c c' : Chan τ} {x : Ptr val}

theorem terminated_update {channel : Unbounded.Channel (Ptr val)}
    (hflag : channel.terminated = (σ.channel s).terminated) (s' : Bool) :
    (update σ.channel s channel s').terminated = (σ.channel s').terminated := by
  by_cases heq : s' = s
  · rw [heq, update_self]
    exact hflag
  · rw [update_of_ne heq]

namespace Inv

variable {d : Chan τ} {A : Ty τ} {next : A.Val val → Chan τ}

theorem of_side {c : Chan τ} (hs : (σ.party s).At c) (hns : (σ.party (!s)).At d)
    (hlinked : Chan.Linked (σ.channel s).queue (σ.channel (!s)).queue c d)
    (hterminated : ∀ s, (σ.channel s).terminated = true →
      (σ.party s = .closing ∨ σ.party s = .closed) ∨ σ.party (!s) = .closed) : σ.Inv := by
  refine ⟨fun s' => ?_, hterminated⟩
  rcases eq_or_eq_not s' s with rfl | rfl
  · exact ⟨c, d, hs, hns, hlinked⟩
  refine ⟨d, c, hns, ?_, ?_⟩
  · rw [Bool.not_not]
    exact hs
  · rw [Bool.not_not]
    exact hlinked.symm

section

variable (h : σ.Inv)

include h

section

variable (hp : σ.party s = .chan c)

include hp

theorem other : ∃ d, (σ.party (!s)).At d ∧
    Chan.Linked (σ.channel s).queue (σ.channel (!s)).queue c d := by
  obtain ⟨c', d, hc', hd, hlinked⟩ := h.linked s
  rw [hp] at hc'
  obtain rfl : c = c' := hc'
  exact ⟨d, hd, hlinked⟩

theorem open_write (ho : Chan.Out x c c') : (σ.channel s).terminated = false := by
  rw [← not_eq_true]
  intro hterm
  obtain ⟨d, hd, hlinked⟩ := h.other hp
  rcases h.terminated s hterm with (hs | hs) | hs
  · cases hp.symm.trans hs
  · cases hp.symm.trans hs
  · rw [hs] at hd
    exact hlinked.not_write hd ho

/-- The channel from which a party reads is open as long as there is nothing in it. -/
theorem open_read (hreads : c.Reads)
    (hnil : (σ.channel (!s)).queue = []) : (σ.channel (!s)).terminated = false := by
  rw [← not_eq_true]
  intro hterm
  obtain ⟨d, hd, hlinked⟩ := h.other hp
  rw [hnil] at hlinked
  rcases h.terminated (!s) hterm with (hs | hs) | hs
  · rw [hs] at hd
    exact hlinked.not_starved hd hreads
  · rw [hs] at hd
    exact hlinked.not_starved hd hreads
  · rw [Bool.not_not, hp] at hs
    cases hs

end

theorem step_of_side {p : Party τ} (hp : σ'.party = update σ.party s p)
    (hat : p.At c) (hd : (σ.party (!s)).At d)
    (hlinked : Chan.Linked (σ'.channel s).queue (σ'.channel (!s)).queue c d)
    (hs : (σ'.channel s).terminated = true → (p = .closing ∨ p = .closed) ∨
      (σ.channel s).terminated = true)
    (hns : (σ'.channel (!s)).terminated = true → p = .closed ∨ (σ.channel (!s)).terminated = true)
    (hclosing : σ.party s = .closing → p = .closing ∨ p = .closed)
    (hclosed : σ.party s = .closed → p = .closed) : σ'.Inv := by
  have hself : σ'.party s = p := by
    rw [hp, update_self]
  have hother : σ'.party (!s) = σ.party (!s) := by
    rw [hp, update_of_ne (not_ne_self s)]
  refine of_side (hself ▸ hat) (hother ▸ hd) hlinked fun s' hterm => ?_
  rcases eq_or_eq_not s' s with rfl | rfl
  · rw [hself, hother]
    rcases hs hterm with hend | hold
    · exact .inl hend
    refine (h.terminated s' hold).imp_left ?_
    rintro (hc | hc)
    · exact hclosing hc
    · exact .inr (hclosed hc)
  · rw [Bool.not_not, hself, hother]
    rcases hns hterm with hend | hold
    · exact .inr hend
    have hold' := h.terminated (!s) hold
    rw [Bool.not_not] at hold'
    exact hold'.imp_right hclosed

theorem step_of_chan (hp : σ.party s = .chan c)
    (hp' : σ'.party = update σ.party s (.chan c')) (hd : (σ.party (!s)).At d)
    (hlinked : Chan.Linked (σ'.channel s).queue (σ'.channel (!s)).queue c' d)
    (hflags : ∀ s', (σ'.channel s').terminated = (σ.channel s').terminated) : σ'.Inv := by
  refine h.step_of_side hp' rfl hd hlinked (fun hterm => .inr ?_) (fun hterm => .inr ?_)
    (fun hs => absurd (hp.symm.trans hs) nofun) fun hs => absurd (hp.symm.trans hs) nofun
  · rwa [hflags] at hterm
  · rwa [hflags] at hterm

theorem write (hp : σ.party s = .chan c) (ho : Chan.Out x c c') : (σ.writeChan s x c').Inv := by
  obtain ⟨d, hd, hlinked⟩ := h.other hp
  have hopen := h.open_write hp ho
  rw [writeChan, sendNoYield, if_neg (by rw [hopen]; exact false_ne_true)]
  refine h.step_of_chan hp rfl hd ?_ (terminated_update rfl)
  dsimp only
  rw [update_self, update_of_ne (not_ne_self s)]
  exact hlinked.write ho

theorem wait {channel : Unbounded.Channel (Ptr val)} (hqueue : channel.queue = (σ.channel s).queue)
    (hflag : channel.terminated = (σ.channel s).terminated) :
    { σ with channel := update σ.channel s channel }.Inv := by
  have hqueues : ∀ s', (update σ.channel s channel s').queue = (σ.channel s').queue := by
    intro s'
    by_cases heq : s' = s
    · rw [heq, update_self]
      exact hqueue
    · rw [update_of_ne heq]
  refine ⟨fun s' => ?_, fun s' hterm => ?_⟩
  · obtain ⟨c, d, hc, hd, hlinked⟩ := h.linked s'
    refine ⟨c, d, hc, hd, ?_⟩
    rw [hqueues, hqueues]
    exact hlinked
  · exact h.terminated s' ((terminated_update hflag s').symm.trans hterm)

end

variable [DecidableEq τ]

theorem head_fits (h : σ.Inv) {queue : List (Ptr val)} (hp : σ.party s = .chan c) (hreads : c.Reads)
    (has : ReadsAs val c A next)
    (hqueue : (σ.channel (!s)).queue = x :: queue) :
    ∃ v e d, x.read A = some v ∧ next v = e.dual ∧ Chan.Out x c.dual e ∧ (σ.party (!s)).At d ∧
      Chan.Linked (σ.channel s).queue queue e.dual d := by
  obtain ⟨d, hd, hlinked⟩ := h.other hp
  rw [hqueue] at hlinked
  obtain ⟨e, ho, hrest⟩ := hlinked.read hreads
  obtain ⟨v, hv, hnext⟩ := has ho
  exact ⟨v, e, d, hv, hnext, ho, hd, hrest⟩

theorem afterRead (h : σ.Inv) {channel : Unbounded.Channel (Ptr val)} (hp : σ.party s = .chan c)
    (hreads : c.Reads)
    (has : ReadsAs val c A next) (hqueue : (σ.channel (!s)).queue = x :: channel.queue)
    (hflag : channel.terminated = (σ.channel (!s)).terminated) :
    (σ.afterRead s A next channel x).Inv := by
  obtain ⟨v, e, d, hv, hnext, -, hd, hrest⟩ := h.head_fits hp hreads has hqueue
  rw [State.afterRead, hv]
  refine h.step_of_chan hp rfl hd ?_ (terminated_update hflag)
  dsimp only
  rw [update_self, update_of_ne (not_ne_self s).symm, hnext]
  exact hrest

theorem read (h : σ.Inv) {waker : Waker} (hp : σ.party s = .chan c) (hreads : c.Reads)
    (has : ReadsAs val c A next) :
    (σ.readChan s waker A next).Inv := by
  unfold readChan pollRecv
  cases hqueue : (σ.channel (!s)).queue with
  | cons x queue => exact h.afterRead hp hreads has hqueue rfl
  | nil =>
    rw [if_neg (by rw [h.open_read hp hreads hqueue]; exact false_ne_true)]
    exact h.wait hqueue.symm rfl

theorem tryRead (h : σ.Inv) (hp : σ.party s = .chan c) (hreads : c.Reads)
    (has : ReadsAs val c A next) :
    (σ.tryReadChan s A next).Inv := by
  unfold tryReadChan tryRecv
  cases hqueue : (σ.channel (!s)).queue with
  | cons x queue => exact h.afterRead hp hreads has hqueue rfl
  | nil => exact h.wait rfl rfl

theorem step (h : σ.Inv) (hs : σ.step a = some σ') : σ'.Inv := by
  obtain ⟨s, hcase⟩ := step_cases hs
  cases hcase with
  | silent hp hsilent =>
    obtain ⟨d, hd, hlinked⟩ := h.other hp
    exact h.step_of_chan hp rfl hd (hlinked.silent hsilent) fun _ => rfl
  | write hp ho => exact h.write hp ho
  | read hp hreads has => exact h.read hp hreads has
  | tryRead hp hreads has => exact h.tryRead hp hreads has
  | dropSender hp heps =>
    obtain ⟨d, hd, hlinked⟩ := h.other hp
    refine h.step_of_side rfl heps hd ?_ (fun _ => .inl (.inl rfl)) (fun hterm => .inr ?_)
      (fun hs => absurd (hp.symm.trans hs) nofun) fun hs => absurd (hp.symm.trans hs) nofun
    · dsimp only
      rw [update_self, update_of_ne (not_ne_self s)]
      exact hlinked
    · dsimp only at hterm
      rwa [update_of_ne (not_ne_self s)] at hterm
  | dropReceiver hp =>
    obtain ⟨c, d, hc, hd, hlinked⟩ := h.linked s
    rw [hp] at hc
    refine h.step_of_side rfl hc hd ?_ (fun _ => .inl (.inr rfl)) (fun _ => .inl rfl)
      (fun _ => .inr rfl) fun hs => absurd (hp.symm.trans hs) nofun
    dsimp only
    rw [update_self, update_of_ne (not_ne_self s).symm]
    exact hlinked

end Inv

/-! ### The result -/

theorem sessionChannel_inv (P : Protocol τ) : (sessionChannel P : State val).Inv :=
  Inv.of_side (s := false) rfl rfl (Chan.Linked.refl ⟨[], P⟩) nofun

theorem Inv.faithful (h : σ.Inv) : σ.Faithful := by
  refine ⟨fun s fault hp => ?_, fun hblocked => ?_⟩
  · obtain ⟨c, d, hc, -⟩ := h.linked s
    rw [hp] at hc
    exact hc
  obtain ⟨⟨c, hp, hc⟩, hnil⟩ := hblocked false
  obtain ⟨⟨d, hp', hd⟩, hnil'⟩ := hblocked true
  obtain ⟨d', hd', hlinked⟩ := h.other hp
  change (σ.party true).At d' at hd'
  rw [hp'] at hd'
  obtain rfl : d = d' := hd'
  change (σ.channel true).queue = [] at hnil
  change (σ.channel false).queue = [] at hnil'
  change Chan.Linked (σ.channel false).queue (σ.channel true).queue c d at hlinked
  rw [hnil, hnil'] at hlinked
  exact hlinked.not_both_read hc hd

section

variable [DecidableEq τ]

/-- **Session fidelity.** In every run of a session of a protocol and its dual, closed or not, each
value is read at the type with which it was written, no unwrap fails, and the two parties are never
both at a receive with both channels empty. -/
theorem fidelity (P : Protocol τ) (σ : State val)
    (h : Reaches State.step (fun _ _ => True) (sessionChannel P) σ) : σ.Faithful :=
  (h.invariant (I := Inv) (sessionChannel_inv P) fun _ _ _ hI _ hs => hI.step hs).faithful

/-- The protocol of a server that receives numbers and answers with a `bool`, until the client
quits. -/
def evenServer : Protocol Unit :=
  .recur (.offer (.recv (.of ()) (.send .bool (.var 0))) .eps)

/-- The client asks once and closes before the server has read that it quits. -/
theorem fidelity_evenServer : ∃ σ : State fun _ : Unit => Nat,
    Reaches State.step (fun _ _ => True) (sessionChannel evenServer) σ ∧
      (match σ.party false, σ.party true with
        | .closed, .closed => true
        | _, _ => false) = true ∧ σ.Faithful := by
  obtain ⟨σ, hrun, hσ⟩ := exists_of_run_any (guarded State.step fun _ _ => True)
    (sessionChannel evenServer : State fun _ : Unit => Nat)
    [.enter true, .sel1 true, .enter false, .offer false 0, .recv false 0,
      .send true ⟨.of (), (7 : Nat)⟩, .recv false 0, .send false ⟨.bool, false⟩, .zero false,
      .recv true 1, .zero true, .sel2 true, .dropSender true, .dropReceiver true,
      .tryOffer false, .dropSender false, .dropReceiver false]
    (fun σ => match σ.party false, σ.party true with
      | .closed, .closed => true
      | _, _ => false) (by decide)
  have hreach := Reaches.of_run hrun
  exact ⟨σ, hreach, hσ, fidelity evenServer σ hreach⟩

/-- **No value is lost.** A party that has closed has received all that was sent to it. -/
theorem closed_received {P : Protocol τ} {σ : State val}
    (h : Reaches State.step (fun _ _ => True) (sessionChannel P) σ) (hp : σ.party s = .closed) :
    (σ.channel (!s)).queue = [] := by
  have hinv := h.invariant (I := Inv) (sessionChannel_inv P) fun _ _ _ hI _ hs => hI.step hs
  obtain ⟨c, d, hend, -, hlinked⟩ := hinv.linked s
  rw [hp] at hend
  exact (hlinked.follows (.inr (congrArg Protocol.dual hend))).1

theorem closed_received_bool : ∃ σ : State fun _ : Unit => Nat,
    σ.party false = .closed ∧ (σ.channel true).queue = [] := by
  have hrun := Reaches.of_run (show run (guarded State.step fun _ _ => True)
    (sessionChannel (.recv .bool .eps) : State fun _ : Unit => Nat)
    [.send true ⟨.bool, true⟩, .tryRecv false, .dropSender false, .dropReceiver false] = some _
    from rfl)
  exact ⟨_, rfl, closed_received (s := false) hrun rfl⟩

end

/-! ### Progress -/

/-- All that the parties have still to follow is closed. -/
def Scoped (σ : State val) : Prop := ∀ s c, σ.party s = .chan c → c.Scoped

theorem Scoped.update (h : σ.Scoped) {p : Party τ} {channel : Bool → Unbounded.Channel (Ptr val)}
    (hp : ∀ c, p = .chan c → c.Scoped) :
    (⟨update σ.party s p, channel⟩ : State val).Scoped :=
  (forall_update_iff σ.party fun _ p => ∀ c, p = .chan c → c.Scoped).mpr ⟨hp, fun s' _ => h s'⟩

/-- **A move of a party:** in `σ'` it is after the next move of its protocol, and a value that it
has sent or received was put into its channel or taken out of the other one. -/
inductive Moves (σ : State val) (s : Bool) (σ' : State val) : Prop
  | silent {c c' : Chan τ} :
      σ.party s = .chan c →
      σ'.party s = .chan c' →
      Chan.Silent c c' →
      Moves σ s σ'
  | write {x : Ptr val} {c c' : Chan τ} :
      σ.party s = .chan c →
      σ'.party s = .chan c' →
      Chan.Out x c c' →
      (σ'.channel s).queue = (σ.channel s).queue ++ [x] →
      Moves σ s σ'
  | read {x : Ptr val} {c c' : Chan τ} :
      σ.party s = .chan c →
      σ'.party s = .chan c' →
      Chan.Out x c.dual c'.dual →
      (σ.channel (!s)).queue = x :: (σ'.channel (!s)).queue →
      Moves σ s σ'
  | closing {c : Chan τ} :
      σ.party s = .chan c →
      c.protocol = .eps →
      σ'.party s = .closing →
      Moves σ s σ'
  | closed :
      σ.party s = .closing →
      σ'.party s = .closed →
      Moves σ s σ'

variable [DecidableEq τ]

theorem Scoped.afterRead (h : σ.Scoped) (hinv : σ.Inv) {A : Ty τ} {next : A.Val val → Chan τ}
    {queue : List (Ptr val)} {channel : Unbounded.Channel (Ptr val)} (hp : σ.party s = .chan c)
    (hreads : c.Reads) (has : ReadsAs val c A next)
    (hqueue : (σ.channel (!s)).queue = x :: queue) :
    (σ.afterRead s A next channel x).Scoped := by
  obtain ⟨v, e, -, hv, hnext, ho, -⟩ := hinv.head_fits hp hreads has hqueue
  rw [State.afterRead, hv]
  refine h.update fun c' hc' => ?_
  rw [← Party.chan.inj hc', hnext]
  exact ((h s c hp).dual.out ho).dual

theorem Scoped.step (h : σ.Scoped) (hinv : σ.Inv) (hs : σ.step a = some σ') : σ'.Scoped := by
  obtain ⟨s, hcase⟩ := step_cases hs
  cases hcase with
  | @silent c c' hp hsilent =>
    refine h.update fun c'' hc'' => ?_
    rw [← Party.chan.inj hc'']
    exact (h s c hp).silent hsilent
  | @write x c c' hp ho =>
    unfold writeChan
    split
    · refine h.update fun c'' hc'' => ?_
      rw [← Party.chan.inj hc'']
      exact (h s c hp).out ho
    · exact h.update nofun
  | read hp hreads has =>
    unfold readChan pollRecv
    cases hqueue : (σ.channel (!s)).queue with
    | cons x queue => exact h.afterRead hinv hp hreads has hqueue
    | nil =>
      rw [if_neg (by rw [hinv.open_read hp hreads hqueue]; exact false_ne_true)]
      exact h
  | tryRead hp hreads has =>
    unfold tryReadChan tryRecv
    cases hqueue : (σ.channel (!s)).queue with
    | cons x queue => exact h.afterRead hinv hp hreads has hqueue
    | nil => exact h
  | dropSender _ _ | dropReceiver _ => exact h.update nofun

end State

end SessionTypes

end Awkernel
