import Awkernel.Lib.LapRing
import Awkernel.Virtio.Slots
import Mathlib.Algebra.BigOperators.Group.List.Basic
import Mathlib.Tactic.NormNum

/-!
# The rings of a virtqueue

The available and the used ring of a virtqueue (`awkernel_drivers/src/pcie/virtio/virtio_net.rs`)
are addressed by free-running 16-bit indices. The driver computes with them by `+` and `-`, which
trap in a build with overflow checks; a trap is `none` here.

The first index to overflow is that of `virtio_stop_vq_intr`, after half of a lap of the indices,
and then those of `virtio_enqueue_commit` and `virtio_dequeue` at its end (`indices_trap`). Until
then the rings are queues, and nothing traps but the assertion of `virtio_postpone_intr` that the
device has not used every slot (`rings_until_overflow`).

The operations on the slots of `Awkernel.Virtio.Slots` are runs of these rings (`slots_follow`).
-/

namespace Awkernel.Virtio

open TransitionSystem LapRing List Option

/-- `a - b` of the type `u16`; `none` is the trap of an underflow. -/
def subU16 (a b : Nat) : Option Nat := if b ≤ a then some (a - b) else none

/-- The rings of a `Virtq` of `2 ^ order` slots, and what has gone through them. -/
structure Rings where
  order : Nat
  vqNum_le : 2 ^ order ≤ maxVqSize
  isEventIdx : Bool
  vqAvailIdx : Nat
  vqUsedIdx : Nat
  availRing : Nat → Nat
  availIdx : Nat
  availUsedEvent : Nat
  /-- `VRING_AVAIL_F_NO_INTERRUPT`. -/
  noInterrupt : Bool
  usedRing : Nat → Nat × Nat
  usedIdx : Nat
  /-- The slots committed by the driver, and how many of them the device has been told of. -/
  committed : List Nat
  published : Nat
  /-- The entries of the device, and those the driver has dequeued. -/
  used : List (Nat × Nat)
  returned : List (Nat × Nat)

namespace Rings

def new (order : Nat) (hle : 2 ^ order ≤ maxVqSize) (isEventIdx : Bool) : Rings :=
  ⟨order, hle, isEventIdx, 0, 0, fun _ => 0, 0, 0, false, fun _ => (0, 0), 0, [], 0, [], []⟩

def vqNum (r : Rings) : Nat := 2 ^ r.order

def vqMask (r : Rings) : Nat := r.vqNum - 1

def virtioEnqueueCommit (r : Rings) (slot : Nat) : Option Rings := do
  let availRing := Function.update r.availRing (r.vqAvailIdx &&& r.vqMask) slot
  let vqAvailIdx ← addU16 r.vqAvailIdx 1
  some { r with availRing, vqAvailIdx, committed := r.committed ++ [slot] }

def virtioDequeue (r : Rings) : Option (Rings × Option (Nat × Nat)) :=
  if r.vqUsedIdx = r.usedIdx then some (r, none)
  else do
    let entry := r.usedRing (r.vqUsedIdx &&& r.vqMask)
    let vqUsedIdx ← addU16 r.vqUsedIdx 1
    some ({ r with vqUsedIdx, returned := r.returned ++ [entry] }, some entry)

def virtioPostponeIntr (r : Rings) (nslots : Nat) : Option (Rings × Bool) := do
  let availUsedEvent ← addU16 r.vqUsedIdx nslots
  let nused ← subU16 r.usedIdx r.vqUsedIdx
  -- the assertion that follows is compiled into a build with overflow checks
  if nused < r.vqNum then some ({ r with availUsedEvent }, nslots < nused) else none

def virtioPostponeIntrSmart (r : Rings) : Option (Rings × Bool) := do
  let n ← subU16 r.availIdx r.vqUsedIdx
  if n * 3 < 65536 then r.virtioPostponeIntr (n * 3 / 4) else none

def virtioPostponeIntrFar (r : Rings) : Option (Rings × Bool) := do
  let nslots ← subU16 r.availIdx r.vqUsedIdx
  r.virtioPostponeIntr nslots

def virtioStopVqIntr (r : Rings) : Option Rings :=
  if r.isEventIdx then
    (addU16 r.vqUsedIdx 0x8000).map fun availUsedEvent => { r with availUsedEvent }
  else some { r with noInterrupt := true }

def virtioStartVqIntr (r : Rings) : Rings × Bool :=
  (if r.isEventIdx then { r with availUsedEvent := r.vqUsedIdx }
    else { r with noInterrupt := false }, r.vqUsedIdx ≠ r.usedIdx)

def publishAvailIdx (r : Rings) : Rings :=
  { r with availIdx := r.vqAvailIdx, published := r.committed.length }

/-- The device puts an entry into the used ring, with indices modulo `2 ^ 16`. -/
def use (r : Rings) (entry : Nat × Nat) : Rings :=
  { r with
    usedRing := Function.update r.usedRing (r.usedIdx % r.vqNum) entry
    usedIdx := (r.usedIdx + 1) % 65536
    used := r.used ++ [entry] }

end Rings

inductive RingAction
  | commit (slot : Nat)
  | publish
  | dequeue
  | postponeSmart
  | postponeFar
  | stop
  | start
  | use (entry : Nat × Nat)

namespace Rings

def step (r : Rings) : RingAction → Option Rings
  | .commit slot => r.virtioEnqueueCommit slot
  | .publish => some r.publishAvailIdx
  | .dequeue => r.virtioDequeue.map (·.1)
  | .postponeSmart => r.virtioPostponeIntrSmart.map (·.1)
  | .postponeFar => r.virtioPostponeIntrFar.map (·.1)
  | .stop => r.virtioStopVqIntr
  | .start => some r.virtioStartVqIntr.1
  | .use entry => some (r.use entry)

/-- The driver commits a slot only if there is a free one, and the device uses only what has been
published. -/
def Conforming (r : Rings) : RingAction → Prop
  | .commit _ => r.committed.length < r.returned.length + r.vqNum
  | .use _ => r.used.length < r.published
  | _ => True

/-- The index of the step is below `2 ^ 16`, and the device has not used all slots of the queue when
interrupts are postponed. -/
def InRange (r : Rings) : RingAction → Prop
  | .commit _ => r.committed.length + 1 < 65536
  | .postponeSmart | .postponeFar => r.used.length < r.returned.length + r.vqNum
  | .stop => r.isEventIdx = true → r.returned.length < 0x8000
  | _ => True

instance (r : Rings) : DecidablePred r.Conforming := fun a => by
  cases a <;> dsimp only [Conforming] <;> infer_instance

instance (r : Rings) : DecidablePred r.InRange := fun a => by
  cases a <;> dsimp only [InRange] <;> infer_instance

/-- The indices have not wrapped around. -/
structure Inv (r : Rings) : Prop where
  avail : r.vqAvailIdx = r.committed.length
  usedIdx : r.usedIdx = r.used.length
  dequeued : r.vqUsedIdx = r.returned.length
  published : r.availIdx = r.published
  life : r.committed.length < 65536
  returned_le : r.returned.length ≤ r.used.length
  used_le : r.used.length ≤ r.published
  published_le : r.published ≤ r.committed.length
  room : r.committed.length ≤ r.returned.length + r.vqNum
  availRing : Stores r.vqNum r.availRing r.committed
  usedRing : Stores r.vqNum r.usedRing r.used
  order : r.returned = r.used.take r.returned.length

variable {r r' : Rings}

theorem and_vqMask (r : Rings) (idx : Nat) : idx &&& r.vqMask = idx % r.vqNum :=
  Nat.and_two_pow_sub_one_eq_mod idx r.order

theorem Inv.new {order : Nat} (hle : 2 ^ order ≤ maxVqSize) (isEventIdx : Bool) :
    Inv (.new order hle isEventIdx) where
  avail := rfl
  usedIdx := rfl
  dequeued := rfl
  published := rfl
  life := Nat.zero_lt_succ _
  returned_le := Nat.le_refl 0
  used_le := Nat.le_refl 0
  published_le := Nat.le_refl 0
  room := Nat.zero_le _
  availRing := nofun
  usedRing := nofun
  order := rfl

section

variable (h : r.Inv)

include h

theorem Inv.virtioEnqueueCommit (slot : Nat)
    (hroom : r.committed.length < r.returned.length + r.vqNum)
    (hlife : r.committed.length + 1 < 65536) :
    ∃ r', r.virtioEnqueueCommit slot = some r' ∧ r'.Inv ∧ r' = { r with
      availRing := r'.availRing
      vqAvailIdx := r.vqAvailIdx + 1
      committed := r.committed ++ [slot] } := by
  have hadd : addU16 r.vqAvailIdx 1 = some (r.vqAvailIdx + 1) := if_pos (by rw [h.avail]; omega)
  have hlen : (r.committed ++ [slot]).length = r.committed.length + 1 := length_append
  rw [Rings.virtioEnqueueCommit, hadd, and_vqMask]
  refine ⟨_, rfl, ⟨?_, h.usedIdx, h.dequeued, h.published, ?_, h.returned_le, h.used_le, ?_, ?_, ?_,
    h.usedRing, h.order⟩, rfl⟩
  · exact (congrArg (· + 1) h.avail).trans hlen.symm
  · exact hlen.trans_lt hlife
  · exact Nat.le_trans h.published_le (by rw [hlen]; exact Nat.le_succ _)
  · exact hlen.trans_le hroom
  · rw [h.avail]
    exact h.availRing.push

/-- **The driver dequeues the next used entry**, if there is one. -/
theorem Inv.virtioDequeue :
    ∃ r', r.virtioDequeue = some (r', r.used[r.returned.length]?) ∧ r'.Inv ∧
      ∀ entry ∈ r.used[r.returned.length]?, r' = { r with
        vqUsedIdx := r.vqUsedIdx + 1
        returned := r.returned ++ [entry] } := by
  have hle := h.returned_le
  unfold Rings.virtioDequeue
  split
  · next heq =>
    rw [h.dequeued, h.usedIdx] at heq
    have hnone : r.used[r.returned.length]? = none := getElem?_eq_none heq.ge
    rw [hnone]
    exact ⟨r, rfl, h, nofun⟩
  rename_i hne
  rw [h.dequeued, h.usedIdx] at hne
  have hused := h.used_le
  have hpublished := h.published_le
  have hroom := h.room
  have hlife := h.life
  have hlt : r.returned.length < r.used.length := by omega
  have hadd : addU16 r.vqUsedIdx 1 = some (r.vqUsedIdx + 1) :=
    if_pos (by rw [h.dequeued]; omega)
  have hentry : r.usedRing (r.vqUsedIdx &&& r.vqMask) = r.used[r.returned.length] := by
    rw [and_vqMask, h.dequeued, h.usedRing _ hlt (by omega)]
  have hlen : (r.returned ++ [r.used[r.returned.length]]).length = r.returned.length + 1 :=
    length_append
  rw [hadd, hentry, getElem?_eq_getElem hlt]
  refine ⟨_, rfl, ⟨h.avail, h.usedIdx, ?_, h.published, h.life, ?_, h.used_le, h.published_le, ?_,
    h.availRing, h.usedRing, ?_⟩, fun entry hentry => by cases hentry; rfl⟩
  · exact (congrArg (· + 1) h.dequeued).trans hlen.symm
  · exact hlen.trans_le hlt
  · rw [hlen]
    exact Nat.le_trans hroom (Nat.add_le_add_right (Nat.le_succ _) _)
  · rw [hlen, take_succ_eq_append_getElem hlt, ← h.order]

theorem Inv.event (availUsedEvent : Nat) (noInterrupt : Bool) :
    Inv { r with availUsedEvent, noInterrupt } := { h with }

/-- **Interrupts are postponed** unless more entries than that are waiting already. -/
theorem Inv.virtioPostponeIntr {nslots : Nat} (hslots : r.returned.length + nslots < 65536) :
    r.virtioPostponeIntr nslots =
      if r.used.length - r.returned.length < r.vqNum then
        some ({ r with availUsedEvent := r.returned.length + nslots },
          decide (nslots < r.used.length - r.returned.length))
      else none := by
  have hadd : addU16 r.returned.length nslots = some (r.returned.length + nslots) := if_pos hslots
  have hsub : subU16 r.used.length r.returned.length = some (r.used.length - r.returned.length) :=
    if_pos h.returned_le
  simp only [Rings.virtioPostponeIntr, h.dequeued, hadd, h.usedIdx, hsub, bind_eq_bind, bind_some]

theorem Inv.pending : subU16 r.availIdx r.vqUsedIdx = some (r.published - r.returned.length) ∧
      r.published - r.returned.length ≤ 256 ∧ r.returned.length ≤ r.published ∧
      r.published < 65536 := by
  have hreturned := h.returned_le
  have hused := h.used_le
  have hpublished := h.published_le
  have hroom := h.room
  have hlife := h.life
  have hsize : r.vqNum ≤ 256 := r.vqNum_le
  refine ⟨?_, by omega, by omega, by omega⟩
  rw [subU16, h.published, h.dequeued, if_pos (by omega)]

/-- **Interrupts are postponed** exactly if the device has not used all slots. -/
theorem Inv.postpone {nslots : Nat} (hslots : r.returned.length + nslots < 65536) :
    ((r.virtioPostponeIntr nslots).map (·.1) ≠ none ↔
        r.used.length < r.returned.length + r.vqNum) ∧
      ∀ r', (r.virtioPostponeIntr nslots).map (·.1) = some r' → r'.Inv := by
  have hle := h.returned_le
  rw [h.virtioPostponeIntr hslots]
  split
  · refine ⟨iff_of_true nofun (by omega), fun r' hr' => ?_⟩
    cases hr'
    exact h.event _ r.noInterrupt
  · exact ⟨iff_of_false (fun hne => hne rfl) (by omega), nofun⟩

/-- **A step of a conforming run** traps exactly if its index is out of range, and keeps the
rings. -/
theorem Inv.step {a : RingAction} (hok : r.Conforming a) :
    (r.step a ≠ none ↔ r.InRange a) ∧ ∀ r', r.step a = some r' → r'.Inv := by
  obtain ⟨hpending, hsize, hle, hlife⟩ := h.pending
  -- a step that always succeeds
  have hsome : ∀ {r₁ : Rings}, r.step a = some r₁ → r₁.Inv → r.InRange a →
      (r.step a ≠ none ↔ r.InRange a) ∧ ∀ r', r.step a = some r' → r'.Inv := by
    intro r₁ heq hinv hrange
    refine ⟨iff_of_true (heq ▸ nofun) hrange, fun r' hr' => ?_⟩
    cases heq.symm.trans hr'
    exact hinv
  have hnone : r.step a = none → ¬ r.InRange a →
      (r.step a ≠ none ↔ r.InRange a) ∧ ∀ r', r.step a = some r' → r'.Inv := by
    intro heq hrange
    refine ⟨iff_of_false (fun hne => hne heq) hrange, fun r' hr' => ?_⟩
    cases heq.symm.trans hr'
  cases a with
  | commit slot =>
    by_cases hrange : r.committed.length + 1 < 65536
    · obtain ⟨r', hr', hinv, -⟩ := h.virtioEnqueueCommit slot hok hrange
      exact hsome hr' hinv hrange
    · have hadd : addU16 r.vqAvailIdx 1 = none := if_neg (by rwa [h.avail])
      exact hnone (by rw [Rings.step, Rings.virtioEnqueueCommit, hadd]; rfl) hrange
  | publish =>
    refine hsome rfl { h with published := h.avail, used_le := ?_, published_le := ?_ } trivial
    · exact Nat.le_trans h.used_le h.published_le
    · exact Nat.le_refl _
  | dequeue =>
    obtain ⟨r', hr', hinv, -⟩ := h.virtioDequeue
    exact hsome (by rw [Rings.step, hr']; rfl) hinv trivial
  | postponeSmart =>
    have hmul : (r.published - r.returned.length) * 3 < 65536 := by omega
    simp only [Rings.step, virtioPostponeIntrSmart, hpending, bind_eq_bind, bind_some, if_pos hmul]
    exact h.postpone (by omega)
  | postponeFar =>
    simp only [Rings.step, virtioPostponeIntrFar, hpending, bind_eq_bind, bind_some]
    exact h.postpone (by omega)
  | stop =>
    rcases Bool.eq_false_or_eq_true r.isEventIdx with hevent | hevent
    · by_cases hrange : r.returned.length < 0x8000
      · have hadd : addU16 r.vqUsedIdx 0x8000 = some (r.vqUsedIdx + 0x8000) :=
          if_pos (by rw [h.dequeued]; omega)
        refine hsome ?_ (h.event (r.vqUsedIdx + 0x8000) r.noInterrupt) fun _ => hrange
        rw [Rings.step, virtioStopVqIntr, if_pos hevent, hadd]
        rfl
      · have hadd : addU16 r.vqUsedIdx 0x8000 = none := if_neg (by rw [h.dequeued]; omega)
        refine hnone ?_ fun himp => hrange (himp hevent)
        rw [Rings.step, virtioStopVqIntr, if_pos hevent, hadd]
        rfl
    · refine hsome ?_ (h.event r.availUsedEvent true) fun htrue => ?_
      · rw [Rings.step, virtioStopVqIntr, if_neg (by rw [hevent]; decide)]
      · cases hevent.symm.trans htrue
  | start =>
    refine hsome rfl ?_ trivial
    dsimp only [virtioStartVqIntr]
    split
    · exact h.event r.vqUsedIdx r.noInterrupt
    · exact h.event r.availUsedEvent false
  | use entry =>
    have hlt : r.used.length < r.published := hok
    have hlen : (r.used ++ [entry]).length = r.used.length + 1 := length_append
    refine hsome rfl ⟨h.avail, ?_, h.dequeued, h.published, h.life, ?_, ?_, h.published_le, h.room,
      h.availRing, ?_, ?_⟩ trivial
    · simp only [Rings.use, h.usedIdx, hlen]
      exact Nat.mod_eq_of_lt (by omega)
    · exact Nat.le_trans h.returned_le (by simp only [Rings.use, hlen]; exact Nat.le_succ _)
    · exact hlen.trans_le hlt
    · simp only [Rings.use, h.usedIdx]
      exact h.usedRing.push
    · simp only [Rings.use]
      rw [take_append_of_le_length h.returned_le, ← h.order]

end

end Rings

/-- **Until an index overflows, the rings are queues.** In every run that has come so far, a step
traps exactly if its index is out of range or interrupts are postponed when all slots are used. The
slots are committed to consecutive positions, the used entries are dequeued once and in order, and
the number of slots by which interrupts are postponed is compared with the number of entries that
wait. -/
theorem rings_until_overflow {order : Nat} {hle : 2 ^ order ≤ maxVqSize} {isEventIdx : Bool}
    {r : Rings} (h : Reaches Rings.step Rings.Conforming (.new order hle isEventIdx) r) :
    (∀ a, r.Conforming a → (r.step a ≠ none ↔ r.InRange a)) ∧
    (∀ q (hq : q < r.committed.length), r.committed.length ≤ q + r.vqNum →
      r.availRing (q % r.vqNum) = r.committed[q]) ∧
    r.returned = r.used.take r.returned.length ∧
    (∃ r', r.virtioDequeue = some (r', r.used[r.returned.length]?)) ∧
    ∀ nslots r' again, r.virtioPostponeIntr nslots = some (r', again) →
      again = decide (nslots < r.used.length - r.returned.length) := by
  have hinv : r.Inv :=
    h.invariant (.new hle isEventIdx) fun r a r' hr hok hs => (hr.step hok).2 r' hs
  refine ⟨fun a ha => (hinv.step ha).1, hinv.availRing, hinv.order, ?_,
    fun nslots r' again heq => ?_⟩
  · obtain ⟨r', hr', -⟩ := hinv.virtioDequeue
    exact ⟨r', hr'⟩
  by_cases hslots : r.returned.length + nslots < 65536
  · rw [hinv.virtioPostponeIntr hslots] at heq
    obtain ⟨-, heq⟩ := ite_none_right_eq_some.mp heq
    cases heq
    rfl
  · rw [Rings.virtioPostponeIntr, hinv.dequeued, addU16, if_neg hslots] at heq
    cases heq

/-- A queue of two slots: the device has used both, and the driver has dequeued one of them and
commits the slot again. Interrupts may be postponed now. -/
def oneDequeued : List RingAction :=
  [.commit 0, .commit 1, .publish, .use (1, 60), .use (0, 1514), .dequeue, .commit 1]

theorem rings_until_overflow_oneDequeued :
    ∃ r, Reaches Rings.step Rings.Conforming (.new 1 (by decide) true) r ∧
      r.returned = [(1, 60)] ∧ r.step .postponeFar ≠ none ∧
      ∃ r', r.virtioDequeue = some (r', some (0, 1514)) := by
  refine Reaches.exists_of_run_imp oneDequeued (fun r => r.returned = [(1, 60)] ∧
    r.used = [(1, 60), (0, 1514)] ∧ r.InRange .postponeFar) (by decide) ?_
  rintro r h ⟨hreturned, hused, hrange⟩
  obtain ⟨htraps, -, -, ⟨r', hdequeue⟩, -⟩ := rings_until_overflow h
  rw [hreturned, hused] at hdequeue
  exact ⟨hreturned, (htraps .postponeFar trivial).mpr hrange, r', hdequeue⟩

namespace Rings

/-- `n` slots have gone through the rings, and none is in them. -/
structure Idle (n : Nat) (r : Rings) : Prop where
  avail : r.vqAvailIdx = n
  dequeued : r.vqUsedIdx = n
  usedIdx : r.usedIdx = n
  event : r.isEventIdx = true
  empty : r.returned.length = r.committed.length
  used : r.used.length = r.committed.length

theorem Idle.round {n : Nat} {r : Rings} (h : Idle n r) (hn : n + 1 < 65536) :
    ∃ r', Reaches step Conforming r r' ∧ Idle (n + 1) r' := by
  have hadd : addU16 n 1 = some (n + 1) := if_pos hn
  have hlen (x : Nat) (l : List Nat) : (l ++ [x]).length = l.length + 1 := length_append
  obtain ⟨r₁, h₁, hr₁⟩ : ∃ r₁, r.step (.commit 0) = some r₁ ∧ r₁ = { r with
      availRing := Function.update r.availRing (n &&& r.vqMask) 0
      vqAvailIdx := n + 1, committed := r.committed ++ [0] } :=
    ⟨_, by rw [step, virtioEnqueueCommit, h.avail, hadd]; rfl, rfl⟩
  have hroom : r.Conforming (.commit 0) := by
    have hpos : 0 < r.vqNum := Nat.two_pow_pos r.order
    dsimp only [Conforming]
    rw [h.empty]
    omega
  have huse : r₁.publishAvailIdx.Conforming (.use (0, 0)) := by
    dsimp only [Conforming, publishAvailIdx]
    rw [hr₁, hlen, h.used]
    exact Nat.lt_succ_self _
  obtain ⟨r₂, hr₂⟩ : ∃ r₂, r₂ = r₁.publishAvailIdx.use (0, 0) := ⟨_, rfl⟩
  obtain ⟨r₃, h₃, hr₃⟩ : ∃ r₃, r₂.step .dequeue = some r₃ ∧ r₃ = { r₂ with
      vqUsedIdx := n + 1, returned := r.returned ++ [r₂.usedRing (n &&& r₂.vqMask)] } := by
    refine ⟨_, ?_, rfl⟩
    have hne : ¬n = (n + 1) % 65536 := by omega
    simp [step, virtioDequeue, publishAvailIdx, use, hr₂, hr₁, h.dequeued, h.usedIdx, hne, hadd]
  have hreach₂ : Reaches step Conforming r r₂ :=
    .tail (.tail (a := .publish) (.tail .refl hroom h₁) trivial rfl) huse (congrArg some hr₂.symm)
  refine ⟨r₃, .tail (a := .dequeue) hreach₂ trivial h₃, ?_⟩
  subst hr₃ hr₂ hr₁
  exact ⟨rfl, rfl, by simp [use, publishAvailIdx, h.usedIdx, Nat.mod_eq_of_lt hn], h.event,
    by simp [use, publishAvailIdx, h.empty], by simp [use, publishAvailIdx, h.used]⟩

theorem exists_idle {n : Nat} (hn : n < 65536) :
    ∃ r, Reaches step Conforming (.new 0 (by decide) true) r ∧ Idle n r := by
  induction n with
  | zero => exact ⟨_, .refl, ⟨rfl, rfl, rfl, rfl, rfl, rfl⟩⟩
  | succ n ih =>
    obtain ⟨r, hr, hidle⟩ := ih (by omega)
    obtain ⟨r', hr', hidle'⟩ := hidle.round hn
    exact ⟨r', hr.trans hr', hidle'⟩

end Rings

/-- **The indices trap** when they should wrap around. -/
theorem indices_trap :
    (∃ r, Reaches Rings.step Rings.Conforming (.new 0 (by decide) true) r ∧ r.step .stop = none) ∧
    ∃ r, Reaches Rings.step Rings.Conforming (.new 0 (by decide) true) r ∧
      r.Conforming (.commit 0) ∧ r.step (.commit 0) = none := by
  constructor
  · obtain ⟨r, hr, hidle⟩ := Rings.exists_idle (show 0x8000 < 65536 by decide)
    exact ⟨r, hr, by rw [Rings.step, Rings.virtioStopVqIntr, hidle.event, hidle.dequeued]; rfl⟩
  obtain ⟨r, hr, hidle⟩ := Rings.exists_idle (show 65535 < 65536 by decide)
  refine ⟨r, hr, ?_, by rw [Rings.step, Rings.virtioEnqueueCommit, hidle.avail]; rfl⟩
  rw [Rings.Conforming, hidle.empty]
  exact Nat.lt_add_of_pos_right (Nat.two_pow_pos r.order)

/-! ### The operations on the slots -/

/-- An entry of the used ring, as the driver reads it. -/
def Completion.entry (completion : Completion) : Nat × Nat := (completion.slot, completion.len)

namespace State

/-- The rings are where the operations on the slots have brought them. -/
structure Follows (σ : State) (r : Rings) : Prop where
  inv : r.Inv
  num : r.vqNum = σ.vq.vqNum
  avail : r.vqAvailIdx = σ.vq.vqAvailIdx
  dequeued : r.vqUsedIdx = σ.vq.vqUsedIdx
  used : r.used = r.returned ++ σ.used.map Completion.entry
  inflight : r.committed.length = r.returned.length + σ.inflight.length

variable {σ σ' : State} {r : Rings}

theorem Follows.congr (h : σ.Follows r) (hview : σ'.ringView = σ.ringView) : σ'.Follows r := by
  have hindices : σ'.vq.indices = σ.vq.indices := congrArg (·.1) hview
  have hinflight : σ'.inflight = σ.inflight := congrArg (·.2.1) hview
  have hused : σ'.used = σ.used := congrArg (·.2.2) hview
  refine ⟨h.inv, h.num.trans ?_, h.avail.trans ?_, h.dequeued.trans ?_, hused ▸ h.used,
    hinflight ▸ h.inflight⟩
  · exact (congrArg (·.1) hindices).symm
  · exact (congrArg (·.2.1) hindices).symm
  · exact (congrArg (·.2.2) hindices).symm

/-- Every chain has a slot, so there is room for one more in the available ring. -/
theorem Good.inflight_lt (h : σ.Good) {chain : List Nat} (hchain : chain ∈ σ.reserved) :
    σ.inflight.length < σ.vq.vqNum := by
  have hne : ∀ c ∈ σ.reserved ++ σ.inflight, 1 ≤ c.length := fun c hc => by
    cases c with
    | nil => exact (h.chains [] hc).elim
    | cons => exact Nat.le_add_left ..
  have hreserved : 1 ≤ σ.reserved.flatten.length :=
    (hne chain (mem_append_left _ hchain)).trans (sublist_flatten_of_mem hchain).length_le
  have hinflight : σ.inflight.length ≤ σ.inflight.flatten.length := by
    rw [length_flatten]
    refine (length_map length).symm.trans_le (length_le_sum_of_one_le _ fun n hn => ?_)
    obtain ⟨c, hc, rfl⟩ := mem_map.mp hn
    exact hne c (mem_append_right _ hc)
  have hlength := h.length_eq
  simp only [slots, length_append] at hlength
  omega

/-- **A commit** is one of the rings. -/
theorem Follows.commit (h : σ.Follows r) (hgood : σ.Good) {chain : List Nat}
    (hchain : chain ∈ σ.reserved) (hidx : σ.vq.vqAvailIdx < 65535) :
    ∃ r', Reaches Rings.step Rings.Conforming r r' ∧ (σ.commit chain).Follows r' := by
  obtain ⟨-, hvq, hinflight, hused⟩ := hgood.commit hchain hidx
  have hroom : r.committed.length < r.returned.length + r.vqNum := by
    rw [h.inflight, h.num]
    exact Nat.add_lt_add_left (hgood.inflight_lt hchain) _
  have hlife : r.committed.length + 1 < 65536 := by
    rw [← h.inv.avail, h.avail]
    omega
  obtain ⟨r', hcommit, hinv, hr'⟩ := h.inv.virtioEnqueueCommit (chain.headD 0) hroom hlife
  refine ⟨r', .tail (a := .commit (chain.headD 0)) .refl hroom hcommit, hinv, ?_, ?_, ?_, ?_, ?_⟩
  all_goals rw [hr']
  · rw [hvq]
    exact h.num
  · rw [hvq]
    exact congrArg (· + 1) h.avail
  · rw [hvq]
    exact h.dequeued
  · rw [hused]
    exact h.used
  · rw [hinflight, length_append, length_cons]
    exact congrArg (· + 1) h.inflight

/-- **`vio_populate_rx_mbufs`** commits one slot after the other. -/
theorem Follows.populateRxMbufs (h : σ.Follows r) (hgood : σ.Good) {n : Nat}
    (hfits : σ.vq.vqFreelist.length ≤ 65535 - σ.vq.vqAvailIdx) :
    ∃ r', Reaches Rings.step Rings.Conforming r r' ∧ (σ.populateRxMbufs n).Follows r' := by
  induction n generalizing σ r with
  | zero => exact ⟨r, .refl, h⟩
  | succ n ih =>
    cases hfree : σ.vq.vqFreelist with
    | nil =>
      rw [populateRxMbufs_nil (n + 1) hfree]
      exact ⟨r, .refl, h⟩
    | cons slot free =>
      obtain ⟨σ₁, hgood₁, hchain, hfree₁, hview, heq⟩ := hgood.populateRxMbufs_cons hfree n
      have havail : σ₁.vq.vqAvailIdx = σ.vq.vqAvailIdx := congrArg (·.1.2.1) hview
      rw [hfree, length_cons] at hfits
      have hidx : σ₁.vq.vqAvailIdx < 65535 := by omega
      obtain ⟨hgood₂, hvq, -, -⟩ := hgood₁.commit hchain hidx
      obtain ⟨r₁, hreach₁, h₁⟩ := (h.congr hview).commit hgood₁ hchain hidx
      have hfits₁ : (σ₁.commit [slot]).vq.vqFreelist.length ≤
          65535 - (σ₁.commit [slot]).vq.vqAvailIdx := by
        rw [hvq]
        change σ₁.vq.vqFreelist.length ≤ 65535 - (σ₁.vq.vqAvailIdx + 1)
        rw [hfree₁]
        omega
      obtain ⟨r₂, hreach₂, h₂⟩ := ih h₁ hgood₂ hfits₁
      rw [heq, if_neg (by rw [hgood₂.ended]; decide)]
      exact ⟨r₂, hreach₁.trans hreach₂, h₂⟩

/-- **The loops over the used ring** dequeue one entry after the other, as long as they accept
them. -/
theorem Follows.dequeueAll (accepts : Completion → Bool) (h : σ.Follows r) (hgood : σ.Good)
    (haccepts : ∀ completion ∈ σ.used, accepts completion = true)
    (hfits : σ.used.length ≤ 65535 - σ.vq.vqUsedIdx) :
    ∃ r', Reaches Rings.step Rings.Conforming r r' ∧
      (dequeueAll accepts σ.used σ).Follows r' := by
  induction hused : σ.used generalizing σ r with
  | nil =>
    have hsame : State.dequeueAll accepts [] σ = σ := by
      rw [State.dequeueAll, ← hused]
    rw [hsame]
    exact ⟨r, .refl, h⟩
  | cons completion used ih =>
    rw [hused, length_cons] at hfits
    rw [hused, forall_mem_cons] at haccepts
    have hadd : addU16 σ.vq.vqUsedIdx 1 = some (σ.vq.vqUsedIdx + 1) := if_pos (by omega)
    rw [State.dequeueAll, hadd]
    dsimp only
    rw [if_pos haccepts.1]
    -- the entry that the ring holds is the completion
    obtain ⟨r₁, hdequeue, hinv, hr₁⟩ := h.inv.virtioDequeue
    have hentry : r.used[r.returned.length]? = some completion.entry := by
      rw [h.used, hused, getElem?_append_right (Nat.le_refl _), Nat.sub_self]
      rfl
    have hstep : r.step .dequeue = some r₁ := by
      rw [Rings.step, hdequeue]
      rfl
    have hsame := Virtq.indices_freeChain { σ.vq with vqUsedIdx := σ.vq.vqUsedIdx + 1 }
      completion.slot
    have hgood₁ := (hgood.setIdx σ.vq.vqAvailIdx (σ.vq.vqUsedIdx + 1)).dequeueCommit hused
    obtain ⟨chain, -, hperm⟩ := hgood.exists_dequeued hused
    have herase := hperm.length_eq
    rw [length_cons] at herase
    refine (ih ⟨hinv, ?_, ?_, ?_, ?_, ?_⟩ hgood₁ haccepts.2 ?_ rfl).imp fun r' hr' =>
      ⟨(Reaches.tail .refl trivial hstep).trans hr'.1, hr'.2⟩
    all_goals first | rw [hr₁ _ hentry] | skip
    · exact h.num.trans (congrArg (·.1) hsame).symm
    · exact h.avail.trans (congrArg (·.2.1) hsame).symm
    · exact (congrArg (· + 1) h.dequeued).trans (congrArg (·.2.2) hsame).symm
    · rw [append_assoc]
      change r.used = _
      rw [h.used, hused]
      rfl
    · rw [length_append]
      change r.committed.length = r.returned.length + 1 +
        (σ.inflight.eraseP fun chain => chain.head? == some completion.slot).length
      rw [h.inflight]
      omega
    · change used.length ≤ 65535 - Virtq.vqUsedIdx _
      rw [show Virtq.vqUsedIdx _ = σ.vq.vqUsedIdx + 1 from congrArg (·.2.2) hsame]
      omega

/-- The chains that the device has returned are different chains in flight. -/
theorem Good.used_length_le (h : σ.Good) : σ.used.length ≤ σ.inflight.length := by
  have hsubset : σ.used.map Completion.slot ⊆ σ.inflight.filterMap head? := by
    intro slot hslot
    obtain ⟨completion, hmem, rfl⟩ := mem_map.mp hslot
    exact mem_filterMap.mpr (h.usedMem completion hmem)
  calc
    σ.used.length = (σ.used.map Completion.slot).length := length_map _ |>.symm
    _ ≤ (σ.inflight.filterMap head?).length := (subperm_of_subset h.usedNodup hsubset).length_le
    _ ≤ σ.inflight.length := length_filterMap_le ..

/-- **The device returns a chain**, which is published by then. -/
theorem Follows.complete (h : σ.Follows r) {completion : Completion}
    (hgood : Good { σ with used := σ.used ++ [completion] }) :
    ∃ r', Reaches Rings.step Rings.Conforming r r' ∧
      Follows { σ with used := σ.used ++ [completion] } r' := by
  have hle : (σ.used ++ [completion]).length ≤ σ.inflight.length := hgood.used_length_le
  have hlt : r.used.length < r.committed.length := by
    rw [h.used, h.inflight, length_append, length_map]
    rw [length_append, length_singleton] at hle
    omega
  have hpublished := (h.inv.step (a := .publish) trivial).2 _ rfl
  have hinv := (hpublished.step (a := .use completion.entry) hlt).2 _ rfl
  refine ⟨_, .tail (a := .use completion.entry) (.tail (a := .publish) .refl trivial rfl) hlt rfl,
    hinv, h.num, h.avail, h.dequeued, ?_, h.inflight⟩
  change r.used ++ [completion.entry] = r.returned ++ map Completion.entry (σ.used ++ [completion])
  rw [h.used, map_append, append_assoc]
  rfl

/-- **Every operation on the slots** that fits is a run of the rings. -/
theorem Follows.step (h : σ.Follows r) (hgood : σ.Good) {a : Action} (hfits : σ.Fits a)
    (hstep : σ.step a = some σ') :
    ∃ r', Reaches Rings.step Rings.Conforming r r' ∧ σ'.Follows r' := by
  have hgood' : σ'.Good := (hgood.step hstep).1 ((hgood.step hstep).2.mpr hfits)
  -- most operations do not touch the rings
  have hsame : σ'.ringView = σ.ringView →
      ∃ r', Reaches Rings.step Rings.Conforming r r' ∧ σ'.Follows r' :=
    fun hview => ⟨r, .refl, h.congr hview⟩
  have hindices : ∀ {vq : Virtq} {prepared : List Nat} {reserved : List (List Nat)},
      vq.indices = σ.vq.indices → ringView { σ with vq, prepared, reserved } = σ.ringView :=
    fun heq => congrArg (·, σ.inflight, σ.used) heq
  cases a with
  | populateRxMbufs =>
    cases hstep
    exact h.populateRxMbufs hgood hfits
  | rxeof =>
    cases hstep
    exact h.dequeueAll _ hgood hfits.1 hfits.2
  | txDequeue =>
    cases hstep
    exact h.dequeueAll _ hgood (fun _ _ => rfl) hfits
  | enqueuePrep =>
    obtain ⟨⟨slot, σ₁⟩, hprep, rfl⟩ := map_eq_some_iff.mp hstep
    obtain ⟨⟨slot', vq⟩, hvq, heq⟩ := map_eq_some_iff.mp hprep
    cases heq
    refine hsame (hindices ?_)
    unfold Virtq.enqueuePrep at hvq
    split at hvq <;> cases hvq
    rfl
  | enqueueReserve slot nsegs =>
    obtain ⟨-, heq⟩ := ite_none_right_eq_some.mp hstep
    cases heq
    refine hsame ?_
    have hreserve := σ.vq.indices_enqueueReserve slot nsegs
    unfold State.reserve
    split
    all_goals
      next heq => rw [heq] at hreserve; exact hindices hreserve
  | enqueue slot phyAddr len write =>
    obtain ⟨chain, hchain, rfl⟩ := map_eq_some_iff.mp hstep
    obtain ⟨hmem, hhead⟩ := chainAt_eq_some hchain
    exact hsame (hgood.enqueue hmem hhead ..).2.2
  | enqueueCommit slot =>
    obtain ⟨chain, hchain, rfl⟩ := map_eq_some_iff.mp hstep
    exact h.commit hgood (chainAt_eq_some hchain).1 hfits
  | enqueueAbort slot =>
    change (if slot ∈ σ.prepared then some (σ.abortPrepared slot)
      else (chainAt σ.reserved slot).map (σ.abortReserved slot)) = some σ' at hstep
    split at hstep
    · cases hstep
      exact hsame (hindices (σ.vq.indices_enqueueAbort slot))
    · obtain ⟨chain, -, rfl⟩ := map_eq_some_iff.mp hstep
      exact hsame (hindices (σ.vq.indices_enqueueAbort slot))
  | complete completion =>
    obtain ⟨-, heq⟩ := ite_none_right_eq_some.mp hstep
    cases heq
    exact h.complete hgood'

/-- **The operations on the slots refine the rings**: a run in which every operation fits is a
conforming run of the rings, with the same indices, the same entries that wait, and the same
overflow of the next commit. -/
theorem slots_follow {order : Nat} (hle : 2 ^ order ≤ maxVqSize) (isEventIdx : Bool) (dataBuf : Nat)
    (h : Reaches State.step Fits (init (2 ^ order) (Nat.two_pow_pos order) hle dataBuf) σ) :
    ∃ r, Reaches Rings.step Rings.Conforming (.new order hle isEventIdx) r ∧ σ.Follows r ∧
      ∀ chain, (σ.commit chain).vq.failed = true ↔
        r.virtioEnqueueCommit (chain.headD 0) = none := by
  have hrun : σ.Good ∧ ∃ r, Reaches Rings.step Rings.Conforming (.new order hle isEventIdx) r ∧
      σ.Follows r := by
    refine h.invariant (I := fun σ => σ.Good ∧ ∃ r, Reaches Rings.step Rings.Conforming
      (.new order hle isEventIdx) r ∧ σ.Follows r) ⟨good_init .., _, .refl, ?_⟩ ?_
    · exact ⟨.new hle isEventIdx, rfl, rfl, rfl, rfl, rfl⟩
    · rintro σ a σ' ⟨hgood, r, hreach, hfollows⟩ hfits hstep
      obtain ⟨r', hreach', hfollows'⟩ := hfollows.step hgood hfits hstep
      exact ⟨(hgood.step hstep).1 ((hgood.step hstep).2.mpr hfits), r', hreach.trans hreach',
        hfollows'⟩
  obtain ⟨hgood, r, hreach, hfollows⟩ := hrun
  refine ⟨r, hreach, hfollows, fun chain => ?_⟩
  rw [commit, Rings.virtioEnqueueCommit, hfollows.avail]
  cases addU16 σ.vq.vqAvailIdx 1 with
  | none => exact iff_of_true rfl rfl
  | some idx => exact iff_of_false (by rw [hgood.ended]; decide) (some_ne_none _)

end State

end Awkernel.Virtio
