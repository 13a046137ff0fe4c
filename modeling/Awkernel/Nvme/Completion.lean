import Awkernel.Lib.LapRing
import Awkernel.Lib.TransitionSystem
import Mathlib.Order.Basic

/-!
# The completion queue of an NVMe controller

`Queue::complete` of `awkernel_drivers/src/pcie/nvme.rs`. The controller posts entries into a ring
and flips their phase bit at each wrap-around; the driver walks the ring from `_head` while the
bit is the one in `_phase`, calls the callback of each entry and hands the slots back through the
head doorbell.

The walk keeps its position in a local variable and stores it at the end only, but flips `_phase`
on the way. An entry with an unknown command id, or whose command block has no callback, makes the
call return at once: the entries it has handled before are handled again by the next call
(`handled_twice`). As long as a call that has handled an entry meets none that it rejects, every
entry is handled once and in order, and between two calls `_head` and `_phase` are those of the
first entry that is not handled (`handled_in_order`).
-/

namespace Awkernel.Nvme

open LapRing TransitionSystem List

/-- `ComQueueEntry`, as far as the driver reads it. -/
structure ComQueueEntry where
  cid : UInt16
  flags : BitVec 16
  deriving DecidableEq

/-- `ComQueueEntry::default`. -/
def ComQueueEntry.default : ComQueueEntry := ⟨0, 0⟩

/-- The bit `NVME_CQE_PHASE` of the flags. -/
def ComQueueEntry.phase (cqe : ComQueueEntry) : Bool := cqe.flags.getLsbD 0

inductive NvmeDriverErr
  | noBar0 | dmaPool | commandFailed | noCcb | noCallback | invalidCcbId
  deriving DecidableEq

/-- A `Queue` with the controller at its other side. -/
structure Queue where
  entries : Nat
  comRing : Nat → ComQueueEntry
  head : Nat
  phase : Bool
  /-- What was last written to the head doorbell `_cqhdbl`. -/
  cqhdbl : Nat
  /-- The call that holds the lock, by its variables `head` and `rv`. -/
  call : Option (Nat × Bool)
  /-- What the call before has returned. -/
  returned : Option (Except NvmeDriverErr Bool)
  /-- The entries that the controller has posted. -/
  posted : List ComQueueEntry
  /-- The entries that a callback was called with. -/
  handled : List ComQueueEntry

/-- A queue as `allocate_queue` makes it. -/
def Queue.new (entries : Nat) : Queue where
  entries
  comRing _ := .default
  head := 0
  phase := true
  cqhdbl := 0
  call := none
  returned := none
  posted := []
  handled := []

inductive Action
  /-- The controller posts an entry. -/
  | post (cqe : ComQueueEntry)
  /-- `complete` is called. -/
  | complete
  /-- One iteration of the loop. The slice `ccbs` says which command blocks have a callback, and
  `bar0` whether `write_reg` finds the registers. -/
  | iterate (ccbs : List Bool) (bar0 : Bool)

namespace Queue

/-- The end of a call. -/
def leave (q : Queue) (result : Except NvmeDriverErr Bool) : Queue :=
  { q with call := none, returned := some result }

/-- One iteration of the loop of `complete`. -/
def iterate (q : Queue) (head : Nat) (rv : Bool) (ccbs : List Bool) (bar0 : Bool) : Queue :=
  let cqe := q.comRing head
  if cqe.phase ≠ q.phase then
    -- `break`: the position is stored now
    if rv then
      if bar0 then { q with head, cqhdbl := head }.leave (.ok true)
      else { q with head }.leave (.error .noBar0)
    else q.leave (.ok false)
  else
    match ccbs[cqe.cid.toNat]? with
    | none => q.leave (.error .invalidCcbId)
    | some false => q.leave (.error .noCallback)
    | some true =>
      let q := { q with handled := q.handled ++ [cqe] }
      if q.entries ≤ head + 1 then { q with phase := !q.phase, call := some (0, true) }
      else { q with call := some (head + 1, true) }

/-- The controller sets the bit of its lap and leaves one slot free before the head doorbell. -/
def step (q : Queue) : Action → Option Queue
  | .post cqe =>
    if cqe.phase = lapBit q.entries q.posted.length ∧
        (q.posted.length + 1) % q.entries ≠ q.cqhdbl then
      some { q with
        comRing := Function.update q.comRing (q.posted.length % q.entries) cqe
        posted := q.posted ++ [cqe] }
    else none
  | .complete =>
    match q.call with
    | none => some { q with call := some (q.head, false) }
    -- `try_lock` fails and the call returns `Ok(false)`
    | some _ => some q
  | .iterate ccbs bar0 => q.call.map fun (head, rv) => q.iterate head rv ccbs bar0

/-- A call that has handled an entry does not reject the next one. -/
def Accepts (q : Queue) : Action → Prop
  | .iterate ccbs _ =>
    match q.call with
    | some (head, true) =>
      (q.comRing head).phase = q.phase → ccbs[(q.comRing head).cid.toNat]? = some true
    | _ => True
  | _ => True

instance (q : Queue) : ∀ a, Decidable (q.Accepts a)
  | .post _ | .complete => .isTrue trivial
  | .iterate ccbs bar0 => by unfold Accepts; dsimp only; split <;> infer_instance

/-- The position of the walk: the one of the call in progress, or the stored one. -/
def walk (q : Queue) : Nat := (q.call.map Prod.fst).getD q.head

/-- The walk is at the first entry that is not handled. `acked` is the position that the
controller knows from the doorbell. -/
structure Inv (n : Nat) (q : Queue) : Prop where
  entries : q.entries = n
  holds : Holds n ComQueueEntry.phase (fun _ => False) q.comRing q.posted
  order : q.handled = q.posted.take q.handled.length
  walk : At n q.handled.length q.walk q.phase
  /-- Until it has handled an entry, a call is where the position is stored. -/
  stored : ∀ head, q.call = some (head, false) → head = q.head
  acked : ∃ a ≤ q.handled.length, q.cqhdbl = a % n ∧ q.posted.length < a + n

variable {n : Nat} {q q' : Queue}

theorem Inv.new (hn : 0 < n) : Inv n (Queue.new n) where
  entries := rfl
  holds := .nil fun _ _ _ => show ComQueueEntry.default.phase = false by decide
  order := rfl
  walk := .zero
  stored := nofun
  acked := ⟨0, Nat.le_refl _, (Nat.zero_mod n).symm, by simpa [Queue.new] using hn⟩

section

variable (h : Inv n q)

include h

theorem Inv.length_le : q.handled.length ≤ q.posted.length := by
  have := congrArg length h.order
  rw [length_take] at this
  omega

theorem Inv.post {cqe : ComQueueEntry} (hbit : cqe.phase = lapBit q.entries q.posted.length)
    (hroom : (q.posted.length + 1) % q.entries ≠ q.cqhdbl) :
    Inv n { q with
      comRing := Function.update q.comRing (q.posted.length % q.entries) cqe
      posted := q.posted ++ [cqe] } := by
  obtain ⟨a, ha, hdoor, hlen⟩ := h.acked
  rw [h.entries] at hbit hroom
  refine { h with holds := ?_, order := ?_, acked := ⟨a, ha, hdoor, ?_⟩ }
  · rw [h.entries]
    exact h.holds.push hbit
  · rw [take_append_of_le_length h.length_le]
    exact h.order
  · -- the slot after the new entry is not the one of the doorbell
    rw [length_append, length_singleton]
    refine Nat.lt_of_le_of_ne hlen fun heq => hroom ?_
    rw [hdoor, heq, Nat.add_mod_right]

/-- Leaving the walk where it is: the call ends with its position stored. -/
theorem Inv.leave {head cqhdbl : Nat} (hhead : head = q.walk)
    (hdoor : cqhdbl = q.cqhdbl ∨ cqhdbl = head) (result : Except NvmeDriverErr Bool) :
    Inv n ({ q with head, cqhdbl }.leave result) := by
  obtain ⟨a, ha, hold, hlen⟩ := h.acked
  refine { h with walk := ⟨hhead.trans h.walk.idx, h.walk.bit⟩, stored := nofun, acked := ?_ }
  rcases hdoor with rfl | rfl
  · exact ⟨a, ha, hold, hlen⟩
  · exact ⟨q.handled.length, Nat.le_refl _, hhead.trans h.walk.idx,
      by change q.posted.length < _; omega⟩

/-- The entry under the walk is handled, and the walk goes on to the next position. -/
theorem Inv.handle (hn : 0 < n) {head head' : Nat} {rv phase' : Bool}
    (hcall : q.call = some (head, rv)) (hphase : (q.comRing head).phase = q.phase)
    (hnext : At n (q.handled.length + 1) head' phase') :
    Inv n { q with
      handled := q.handled ++ [q.comRing head], phase := phase', call := some (head', true) } := by
  obtain ⟨a, ha, hdoor, hlen⟩ := h.acked
  obtain rfl : q.walk = head := by rw [Queue.walk, hcall]; rfl
  have hlt : q.handled.length < q.posted.length :=
    (h.holds.bit_eq_iff h.walk hn h.length_le (by omega) fun _ => id).mp hphase
  refine { h with order := ?_, walk := ?_, stored := nofun, acked := ⟨a, ?_, hdoor, hlen⟩ }
    <;> dsimp only <;> rw [length_append, length_singleton]
  · rw [h.holds.take_succ h.walk hlt (by omega), ← h.order]
  · exact hnext
  · omega

/-- One iteration of a call that rejects no entry after it has handled one. -/
theorem Inv.iterate (hn : 0 < n) {head : Nat} {rv : Bool} {ccbs : List Bool}
    {bar0 : Bool} (hcall : q.call = some (head, rv)) (hok : q.Accepts (.iterate ccbs bar0)) :
    Inv n (q.iterate head rv ccbs bar0) := by
  have hwalk : q.walk = head := by rw [Queue.walk, hcall]; rfl
  -- a call that has handled nothing leaves what is stored
  have hfirst (hrv : rv = false) (result : Except NvmeDriverErr Bool) : Inv n (q.leave result) :=
    h.leave ((h.stored head (hrv ▸ hcall)).symm.trans hwalk.symm) (.inl rfl) result
  unfold Queue.iterate
  dsimp only
  split
  · cases rv with
    | false => exact hfirst rfl _
    | true =>
      cases bar0 with
      | false => exact h.leave hwalk.symm (.inl rfl) _
      | true => exact h.leave hwalk.symm (.inr rfl) _
  · next hphase =>
    have hphase := not_not.mp hphase
    have hrv (hne : ccbs[(q.comRing head).cid.toNat]? ≠ some true) : rv = false := by
      cases rv with
      | false => rfl
      | true =>
        rw [Queue.Accepts, hcall] at hok
        exact absurd (hok hphase) hne
    split
    · next hnone => exact hfirst (hrv (by rw [hnone]; nofun)) _
    · next hnone => exact hfirst (hrv (by rw [hnone]; nofun)) _
    have hat : At n q.handled.length head q.phase := hwalk ▸ h.walk
    split
    · next hlast => exact h.handle hn hcall hphase (hat.wrap hn (h.entries ▸ hlast))
    · next hlast => exact h.handle hn hcall hphase (hat.succ hn (h.entries ▸ hlast))

theorem Inv.step (hn : 0 < n) {a : Action} (hok : q.Accepts a)
    (hstep : q.step a = some q') : Inv n q' := by
  cases a with
  | post cqe =>
    obtain ⟨hc, hstep⟩ := Option.ite_none_right_eq_some.mp hstep
    cases hstep; exact h.post hc.1 hc.2
  | complete =>
    dsimp only [Queue.step] at hstep
    split at hstep
    · next hcall =>
      cases hstep
      have hwalk : q.walk = q.head := by rw [Queue.walk, hcall]; rfl
      exact { h with walk := hwalk ▸ h.walk, stored := fun head heq => by cases heq; rfl }
    · cases hstep; exact h
  | iterate ccbs bar0 =>
    obtain ⟨⟨head, rv⟩, hcall, rfl⟩ := Option.map_eq_some_iff.mp hstep
    exact h.iterate hn hcall hok

end

end Queue

open Queue

/-- **The entries are handled once and in order.** -/
theorem handled_in_order {n : Nat} (hn : 0 < n) {q : Queue}
    (h : Reaches Queue.step Accepts (Queue.new n) q) :
    q.handled = q.posted.take q.handled.length ∧ (q.call = none →
        q.head = q.handled.length % n ∧ q.phase = lapBit n q.handled.length) := by
  have hinv : Inv n q := h.invariant (Inv.new hn) fun _ _ _ h hok hs => h.step hn hok hs
  refine ⟨hinv.order, fun hcall => ?_⟩
  have hwalk : q.walk = q.head := by rw [Queue.walk, hcall]; rfl
  exact ⟨hwalk ▸ hinv.walk.idx, hinv.walk.bit⟩

/-- A ring of two entries, walked over its end; the third entry has an unknown command id. -/
theorem handled_in_order_two : ∃ q : Queue, Reaches Queue.step Accepts (Queue.new 2) q ∧
    q.handled.length = 2 ∧ q.returned = some (.error .invalidCcbId) ∧ q.head = 0 ∧
      q.phase = false := by
  obtain ⟨q, hreach, hlen, hcall, hret⟩ : ∃ q : Queue,
      Reaches Queue.step Accepts (Queue.new 2) q ∧ q.handled.length = 2 ∧ q.call = none ∧
        q.returned = some (.error .invalidCcbId) :=
    Reaches.exists_of_run
      [.post ⟨0, 1⟩, .complete, .iterate [true] true, .iterate [true] true, .post ⟨0, 1⟩, .complete,
        .iterate [true] true, .iterate [true] true, .post ⟨7, 0⟩, .complete, .iterate [true] true]
      (by decide)
  obtain ⟨hhead, hphase⟩ := (handled_in_order (by decide) hreach).2 hcall
  rw [hlen] at hhead hphase
  exact ⟨q, hreach, hlen, hret, hhead, hphase⟩

/-- **An entry is handled twice.** The call that has handled the first entry meets one with an
unknown command id and returns; the next call starts at the first entry again. -/
theorem handled_twice : ∃ q : Queue, Reaches Queue.step (fun _ _ => True) (Queue.new 4) q ∧
    q.posted = [⟨0, 1⟩, ⟨7, 1⟩] ∧ q.handled = [⟨0, 1⟩, ⟨0, 1⟩] ∧
      q.returned = some (.error .invalidCcbId) :=
  Reaches.exists_of_run [.post ⟨0, 1⟩, .post ⟨7, 1⟩, .complete, .iterate [true] true,
    .iterate [true] true, .complete, .iterate [true] true] (by decide)

end Awkernel.Nvme
