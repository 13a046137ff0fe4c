import Awkernel.Channel.Bounded

/-!
# Parked senders of a bounded channel

With flow control a send that finds the queue full leaves its waker in `waker_sender` and is
parked. `ParkedFull` says that a waker is there only while the queue is full, so that nobody is
parked beside a free slot.

`recv` takes the waker when it takes a message. The other ways to make room do not: `try_recv`
takes a message without a look at `waker_sender`; a `recv` that finds all messages expired
removes them and returns nothing; and a send that finds two expired messages fills one of the
two slots. A step keeps `ParkedFull` exactly if it is none of these (`MakesNoRoom`), so a run
has it in all its states exactly if all its steps are so (`parkedFull_iff`).
-/

namespace Awkernel

open TransitionSystem List

namespace Bounded.State

variable {T : Type}

/-- A waker of a send is there only while the queue is full. -/
def ParkedFull (σ : State T) : Prop :=
  σ.chan.wakerSender.isSome = true → σ.chan.items.length = σ.chan.size

/-- While the waker of a send is there, `try_recv` is not called, a `recv` finds a message that
has not expired, and a send finds at most one that has. -/
def MakesNoRoom (σ : State T) : Action T → Prop
  | .tryRecv => σ.chan.wakerSender = none
  | .pollRecv _ => σ.chan.wakerSender = none ∨ σ.chan.unexpired σ.now ≠ []
  | .trySend _ _ => σ.chan.wakerSender = none ∨ σ.chan.terminated = true ∨
      σ.chan.items.length ≤ (σ.chan.unexpired σ.now).length + 1
  | .pollSend f _ => ∀ x ∈ σ.send f, x.phase = .sending →
      σ.chan.wakerSender = none ∨ σ.chan.terminated = true ∨
        σ.chan.items.length ≤ (σ.chan.unexpired σ.now).length + 1
  | _ => True

variable {σ σ' : State T}

/-- A message that is handed over fills the queue again exactly if at most one had expired. -/
theorem parkedFull_of_pushed {data : ChannelData T} {woken : List Waker} (hP : σ.ParkedFull)
    (h : Channel.Pushed σ.now data σ.chan σ'.chan woken)
    (hframe : σ.chan.Frame σ'.chan) :
    σ'.ParkedFull ↔ σ.chan.wakerSender = none ∨ σ.chan.terminated = true ∨
      σ.chan.items.length ≤ (σ.chan.unexpired σ.now).length + 1 := by
  have hlen : σ'.chan.items.length = (σ.chan.unexpired σ.now).length + 1 := by
    rw [h.items, length_append, length_singleton]
  have hroom := h.room
  unfold ParkedFull
  rw [h.wakerSender, hframe.size, hlen]
  cases hws : σ.chan.wakerSender with
  | none => exact iff_of_true (fun hsome => absurd hsome nofun) (.inl rfl)
  | some w =>
    have hfull : σ.chan.items.length = σ.chan.size := hP (by rw [hws]; rfl)
    rw [hfull]
    constructor
    · intro heq
      exact .inr (.inr (heq rfl).ge)
    rintro (hnone | hterm | hle) _
    · cases hnone
    · cases h.running.symm.trans hterm
    · omega

theorem parkedFull_of_full (h : Channel.Full σ.now σ.chan σ'.chan) (hframe : σ.chan.Frame σ'.chan) :
    σ'.ParkedFull ↔ σ.chan.wakerSender = none ∨ σ.chan.terminated = true ∨
      σ.chan.items.length ≤ (σ.chan.unexpired σ.now).length + 1 := by
  have hfull := h.full
  have hle := σ.chan.length_items_le
  refine iff_of_true (fun _ => ?_) (.inr (.inr (by omega)))
  rw [h.items, hframe.size, hfull]

/-- **A step keeps the property exactly if it makes no room.** -/
theorem parkedFull_step {a : Action T} (hsize : 0 < σ.chan.size)
    (hflow : σ.chan.attr.flowControl = true) (hP : σ.ParkedFull) (h : σ.step a = some σ') :
    σ'.ParkedFull ↔ σ.MakesNoRoom a := by
  -- a section that removes something, and leaves the waker, empties a slot
  have hshort : ∀ {chan : Channel T}, chan.wakerSender = σ.chan.wakerSender →
      chan.items.length < σ.chan.size → chan.size = σ.chan.size →
      ((chan.wakerSender.isSome = true → chan.items.length = chan.size) ↔
        σ.chan.wakerSender = none) := by
    intro chan hws hlt heq
    rw [hws, heq]
    cases σ.chan.wakerSender with
    | none => exact iff_of_true (fun hsome => absurd hsome nofun) rfl
    | some w => exact iff_of_false (fun hfull => hlt.ne (hfull rfl)) nofun
  cases step_cases hsize hflow h with
  | advance hσ' | newSend _ hσ' | dropSend _ hσ' =>
    rw [hσ']
    exact iff_of_true hP trivial
  | dropSender _ _ hσ' | dropReceiver _ hσ' =>
    rw [hσ']
    exact iff_of_true (fun hsome => absurd hsome nofun) trivial
  | @pollSend f waker x chan woken result hx hphase hcase hframe hσ' =>
    have hchan : σ'.chan = chan := by rw [hσ', afterPollSend_chan]
    subst hchan
    have honly : σ.MakesNoRoom (.pollSend f waker) ↔ σ.chan.wakerSender = none ∨
        σ.chan.terminated = true ∨ σ.chan.items.length ≤ (σ.chan.unexpired σ.now).length + 1 := by
      constructor
      · exact fun hok => hok x hx hphase
      · intro hor y hy _
        exact hor
    rw [honly]
    cases hcase with
    | closed hterm heq =>
      refine iff_of_true ?_ (.inr (.inl hterm))
      unfold ParkedFull
      rw [heq]
      exact hP
    | parked hfull _ => exact parkedFull_of_full hfull hframe
    | pushed hpushed => exact parkedFull_of_pushed hP hpushed hframe
  | yielded hx hphase hσ' =>
    rw [hσ']
    refine iff_of_true hP fun y hy hsending => ?_
    rw [Option.some.inj (hx.symm.trans hy)] at hphase
    cases hphase.symm.trans hsending
  | @trySend timeStamp data chan woken result _ hcase hframe hσ' =>
    have hchan : σ'.chan = chan := by rw [hσ', afterTrySend_chan]
    subst hchan
    cases hcase with
    | closed hterm heq =>
      refine iff_of_true ?_ (.inr (.inl hterm))
      unfold ParkedFull
      rw [heq]
      exact hP
    | full hfull _ => exact parkedFull_of_full hfull hframe
    | pushed hpushed => exact parkedFull_of_pushed hP hpushed hframe
  | recvPending _ hcase hframe hσ' =>
    rw [hσ']
    cases hcase with
    | parked hnil hitems _ _ hws =>
      refine (hshort hws (by rw [hitems]; exact hsize) hframe.size).trans ?_
      exact ⟨.inl, fun hor => hor.resolve_right fun hne => hne hnil⟩
  | @recvReady waker chan woken result _ hcase hframe hσ' =>
    have hchan : σ'.chan = chan := by rw [hσ', afterRecv_chan]
    subst hchan
    cases hcase with
    | received hcons _ hws =>
      refine iff_of_true ?_ (.inr ?_)
      · unfold ParkedFull
        rw [hws]
        exact fun hsome => absurd hsome nofun
      · rw [hcons]
        exact cons_ne_nil _ _
    | closed hnil hitems _ _ hws =>
      refine (hshort hws (by rw [hitems]; exact hsize) hframe.size).trans ?_
      exact ⟨.inl, fun hor => hor.resolve_right fun hne => hne hnil⟩
  | @tryRecv chan result _ hcase hframe _ hws hσ' =>
    have hchan : σ'.chan = chan := by rw [hσ', afterRecv_chan]
    subst hchan
    have hlt : σ'.chan.items.length < σ.chan.size := by
      cases hcase with
      | received hcons =>
        have hle := (σ.chan.unexpired_suffix σ.now).length_le.trans σ.chan.length_items_le
        rw [hcons] at hle
        exact hle
      | closed _ hitems | noData _ hitems =>
        rw [hitems]
        exact hsize
    exact hshort hws hlt hframe.size

/-- A step that makes no room beside a waker, but shortens the queue, takes the waker and calls
it. -/
theorem waker_taken {a : Action T} (hsize : 0 < σ.chan.size)
    (hflow : σ.chan.attr.flowControl = true) (hok : σ.MakesNoRoom a) (h : σ.step a = some σ')
    (hshort : σ'.chan.items.length < σ.chan.items.length) {w : Waker}
    (hw : σ.chan.wakerSender = some w) : σ'.chan.wakerSender = none ∧ w ∈ σ'.woken := by
  have hnone : σ.chan.wakerSender ≠ none := by
    rw [hw]
    nofun
  -- a message that is handed over takes the place of the one that has expired
  have hpushed : ∀ {data : ChannelData T} {chan : Channel T} {woken : List Waker},
      Channel.Pushed σ.now data σ.chan chan woken →
      (σ.chan.wakerSender = none ∨ σ.chan.terminated = true ∨
        σ.chan.items.length ≤ (σ.chan.unexpired σ.now).length + 1) →
      σ.chan.items.length ≤ chan.items.length := by
    rintro data chan woken hpushed (hno | hterm | hle)
    · exact absurd hno hnone
    · cases hpushed.running.symm.trans hterm
    · rw [hpushed.items, length_append]
      exact hle
  have hfull : ∀ {chan : Channel T}, Channel.Full σ.now σ.chan chan →
      σ.chan.items.length ≤ chan.items.length := by
    intro chan hfull
    rw [hfull.items, hfull.full]
    exact σ.chan.length_items_le
  cases step_cases hsize hflow h with
  | advance hσ' | newSend _ hσ' | dropSend _ hσ' | yielded _ _ hσ' | dropSender _ _ hσ'
  | dropReceiver _ hσ' =>
    rw [hσ'] at hshort
    exact absurd hshort (lt_irrefl _)
  | @pollSend f waker x chan woken result hx hphase hcase hframe hσ' =>
    rw [hσ', afterPollSend_chan] at hshort
    cases hcase with
    | closed hterm heq => exact absurd hshort (by rw [heq]; exact lt_irrefl _)
    | parked hpark _ => exact absurd (hfull hpark) hshort.not_ge
    | pushed hpush => exact absurd (hpushed hpush (hok x hx hphase)) hshort.not_ge
  | trySend _ hcase hframe hσ' =>
    rw [hσ'] at hshort
    cases hcase with
    | closed hterm heq => exact absurd hshort (by rw [heq]; exact lt_irrefl _)
    | full hpark _ => exact absurd (hfull hpark) hshort.not_ge
    | pushed hpush => exact absurd (hpushed hpush hok) hshort.not_ge
  | recvPending _ hcase _ _ =>
    cases hcase with
    | parked hnil => exact absurd hnil (hok.resolve_left hnone)
  | recvReady _ hcase _ hσ' =>
    cases hcase with
    | received _ _ hws =>
      rw [hσ']
      refine ⟨hws, ?_⟩
      rw [hw]
      exact mem_singleton_self w
    | closed hnil => exact absurd hnil (hok.resolve_left hnone)
  | tryRecv => exact absurd hok hnone

/-- **No lost wake-up of a sender, and when.** In every run on a channel with flow control and
a queue of at least one slot: a waker of a send is there only while the queue is full, in all
states of the run, exactly if no step of the run makes room beside a waker. If no step does,
then every step that shortens the queue while a waker is there takes it and calls it. -/
theorem parkedFull_iff {attr : Attribute} (hsize : 0 < attr.queueSize)
    (hflow : attr.flowControl = true) :
    (∀ (as : List (Action T)) (σ : State T), run step (init attr) as = some σ →
      (Always step ParkedFull (init attr) as ↔ Meets step MakesNoRoom (init attr) as)) ∧
    ∀ (σ σ' : State T) (a : Action T), Reaches step MakesNoRoom (init attr) σ →
      σ.MakesNoRoom a → σ.step a = some σ' → σ'.chan.items.length < σ.chan.items.length →
      ∀ w, σ.chan.wakerSender = some w → σ'.chan.wakerSender = none ∧ w ∈ σ'.woken := by
  have hinit : 0 < (init attr : State T).chan.size ∧
      (init attr : State T).chan.attr.flowControl = true := by
    refine ⟨?_, hflow⟩
    change 0 < (RingQ.new attr.queueSize).queueSize
    rw [RingQ.queueSize_new]
    exact hsize
  have hattr : ∀ {σ σ' : State T} {a : Action T},
      0 < σ.chan.size ∧ σ.chan.attr.flowControl = true → σ.step a = some σ' →
        0 < σ'.chan.size ∧ σ'.chan.attr.flowControl = true := by
    rintro σ σ' a ⟨hsize, hflow⟩ h
    obtain ⟨hsame, hattr⟩ := step_attr hsize hflow h
    rw [hsame, hattr]
    exact ⟨hsize, hflow⟩
  constructor
  · intro as σ hrun
    refine always_iff_meets (I := fun σ => 0 < σ.chan.size ∧ σ.chan.attr.flowControl = true)
      (fun hI hP h => ?_) hinit (fun hsome => absurd hsome nofun) hrun
    exact ⟨hattr hI h, parkedFull_step hI.1 hI.2 hP h⟩
  · intro σ σ' a hreach hok h hshort w hw
    have hI := hreach.invariant (I := fun σ => 0 < σ.chan.size ∧
      σ.chan.attr.flowControl = true) hinit fun _ _ _ hI _ h => hattr hI h
    exact waker_taken hI.1 hI.2 hok h hshort hw

/-- A queue of one slot. -/
def oneSlot : Attribute := ⟨1, true, .permanent⟩

/-- The first message fills the queue, and the second send is parked. -/
def parkSecond : List (Action Nat) := [.newSend 10, .pollSend 0 0, .newSend 11, .pollSend 1 7]

/-- `recv` takes the waker of the second send. -/
theorem parkedFull_iff_recv : ∃ σ : State Nat,
    run step (init oneSlot) (parkSecond ++ [.pollRecv 9]) = some σ ∧ σ.woken = [7] ∧
      Always step ParkedFull (init oneSlot) (parkSecond ++ [.pollRecv 9]) := by
  refine ⟨_, rfl, rfl, (((parkedFull_iff (by decide) rfl).1 _ _ rfl).mpr ?_)⟩
  refine ⟨trivial, fun σ₁ h₁ => ?_⟩
  cases h₁
  refine ⟨fun _ _ _ => .inl rfl, fun σ₂ h₂ => ?_⟩
  cases h₂
  refine ⟨trivial, fun σ₃ h₃ => ?_⟩
  cases h₃
  refine ⟨fun _ _ _ => .inl rfl, fun σ₄ h₄ => ?_⟩
  cases h₄
  exact ⟨.inr (by decide), fun _ _ => trivial⟩

/-- A second send is parked, and the channel makes room without taking its waker: by `try_recv`,
and by a `recv` that finds the message expired. -/
theorem room_beside_parked :
    (∃ σ : State Nat, run step (init oneSlot) (parkSecond ++ [.tryRecv]) = some σ ∧
      σ.chan.wakerSender = some 7 ∧ σ.chan.items = [] ∧ σ.chan.size = 1 ∧ σ.woken = []) ∧
    ∃ σ : State Nat, run step (init { oneSlot with lifespan := .span 2000 })
        (parkSecond ++ [.advance 5, .pollRecv 9]) = some σ ∧
      σ.chan.wakerSender = some 7 ∧ σ.chan.items = [] ∧ σ.chan.size = 1 ∧ σ.woken = [] :=
  ⟨⟨_, rfl, rfl, rfl, rfl, rfl⟩, ⟨_, rfl, rfl, rfl, rfl, rfl⟩⟩

end Bounded.State

end Awkernel
