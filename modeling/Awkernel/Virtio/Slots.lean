import Awkernel.Lib.LinkedChain
import Awkernel.Lib.TransitionSystem
import Mathlib.Data.List.Perm.Basic
import Mathlib.Data.List.Range

/-!
# Slots of a virtqueue

The slots of a queue of the virtio network driver
(`awkernel_drivers/src/pcie/virtio/virtio_net.rs`). A request takes slots from `vq_freelist` and
links their descriptors by `flags` and `next`, which keep what an earlier request has left there;
the walk of `virtio_dequeue_commit` or `virtio_enqueue_abort` along the links gives them back.

The device returns each chain that was committed once, in any order and with any contents, which is
the list `used`. Chains that are prepared or reserved and not committed yet are in the hands of the
driver.

`vio_rxeof` takes a chain from the used ring and, if the packet has more than one buffer, breaks out
of its loop before it has given the slots back; a length that does not fit the buffer panics at the
same place (`slot_lost`). An index of a ring that reaches `2 ^ 16` traps with the slots in the hands
of the operation. Apart from that no slot is lost or freed twice: a run conserves the slots exactly
if `vio_rxeof` finds no such packet and no operation panics (`slots_conserved_iff`). The contents of
the rings are in `Awkernel.Virtio.Rings`, which these operations are shown to follow.
-/

namespace Awkernel

open TransitionSystem LinkedChain List Option Function

namespace Virtio

/-- `MAX_VQ_SIZE`. -/
def maxVqSize : Nat := 256

/-- `MCLBYTES`. -/
def mclBytes : Nat := 1 <<< 11

/-- The size of `VirtioNetHdr`. -/
def headerLen : Nat := 12

/-- `VIRTQ_DESC_F_NEXT`. -/
def descFNext : BitVec 16 := 1

/-- `VIRTQ_DESC_F_WRITE`. -/
def descFWrite : BitVec 16 := 2

/-- `x as i16`, for a `u16`. -/
def asI16 (x : Nat) : Int := (BitVec.ofNat 16 x).toInt

/-- `a + b` of the type `u16`; `none` is the trap of an overflow. -/
def addU16 (a b : Nat) : Option Nat := if a + b < 65536 then some (a + b) else none

/-- `VirtqDesc`. -/
structure VirtqDesc where
  addr : Nat
  len : Nat
  flags : BitVec 16
  next : Nat

def VirtqDesc.hasNext (desc : VirtqDesc) : Bool := desc.flags &&& descFNext != 0

/-- `Virtq`, without the contents of the rings. -/
structure Virtq where
  vqNum : Nat
  vqNum_pos : 0 < vqNum
  vqNum_le : vqNum ≤ maxVqSize
  vqFreelist : List Nat
  /-- `vq_entries[slot].next`. -/
  entryNext : Nat → Int
  desc : Nat → VirtqDesc
  vqAvailIdx : Nat
  vqUsedIdx : Nat
  /-- The physical address of `data_buf`. -/
  dataBuf : Nat
  /-- An operation has panicked, or a loop along the links did not end. -/
  failed : Bool

namespace Virtq

/-- `Virtq::init`, with the descriptors of a new queue. -/
def init (vqNum : Nat) (hpos : 0 < vqNum) (hle : vqNum ≤ maxVqSize) (dataBuf : Nat) : Virtq where
  vqNum := vqNum
  vqNum_pos := hpos
  vqNum_le := hle
  vqFreelist := range vqNum
  entryNext := fun _ => -1
  desc := fun _ => ⟨0, 0, 0, 0⟩
  vqAvailIdx := 0
  vqUsedIdx := 0
  dataBuf := dataBuf
  failed := false

def fail (vq : Virtq) : Virtq := { vq with failed := true }

/-- The size of the rings and the driver's indices into them. -/
def indices (vq : Virtq) : Nat × Nat × Nat := (vq.vqNum, vq.vqAvailIdx, vq.vqUsedIdx)

/-- The descriptor that follows. -/
def succ (vq : Virtq) (slot : Nat) : Option Nat :=
  if (vq.desc slot).hasNext then some (vq.desc slot).next else none

def setDesc (vq : Virtq) (slot : Nat) (desc : VirtqDesc) : Virtq :=
  { vq with desc := update vq.desc slot desc }

def setEntryNext (vq : Virtq) (slot : Nat) (next : Int) : Virtq :=
  { vq with entryNext := update vq.entryNext slot next }

/-- `virtio_enqueue_prep`. -/
def enqueuePrep (vq : Virtq) : Option (Nat × Virtq) :=
  match vq.vqFreelist with
  | [] => none
  | slot :: free => some (slot, { vq with vqFreelist := free }.setEntryNext slot (-1))

/-- The loops of `virtio_dequeue_commit` and `virtio_enqueue_abort`. -/
def freeChain (vq : Virtq) (slot : Nat) : Virtq :=
  match collect vq.succ vq.vqNum slot vq.vqFreelist with
  | some free => { vq with vqFreelist := free }
  | none => vq.fail

/-- `virtio_enqueue_abort`. -/
def enqueueAbort (vq : Virtq) (slot : Nat) : Virtq :=
  if vq.entryNext slot < 0 then { vq with vqFreelist := slot :: vq.vqFreelist }
  else vq.freeChain slot

/-- The loop of `virtio_enqueue_reserve` from descriptor `s`, for `n` more slots; `false` if there
is no slot. -/
def reserveFrom : (vq : Virtq) → (s n : Nat) → Virtq × Bool
  | vq, s, 0 => (vq.setDesc s { vq.desc s with flags := 0 }, true)
  | vq, s, n + 1 =>
    match vq.vqFreelist with
    | [] => (vq.setDesc s { vq.desc s with flags := 0 }, false)
    | nextSlot :: free =>
      reserveFrom ({ vq with vqFreelist := free }.setDesc s
        { vq.desc s with flags := descFNext, next := nextSlot }) nextSlot n

/-- `virtio_enqueue_reserve` behind its assertions; the `index` of an entry is its number. -/
def reserveSlots (vq : Virtq) (slot nsegs : Nat) : Virtq × Bool :=
  match (vq.setEntryNext slot (asI16 slot)).reserveFrom slot (nsegs - 1) with
  | (vq, true) => (vq, true)
  | (vq, false) => (vq.enqueueAbort slot, false)

/-- `virtio_enqueue_reserve`. -/
def enqueueReserve (vq : Virtq) (slot nsegs : Nat) : Virtq × Bool :=
  if vq.entryNext slot = -1 ∧ 1 ≤ nsegs ∧ nsegs ≤ maxVqSize then vq.reserveSlots slot nsegs
  else (vq.fail, false)

/-- `virtio_enqueue` and `virtio_enqueue_p` behind their assertion. -/
def fillDesc (vq : Virtq) (slot phyAddr len : Nat) (write : Bool) : Virtq :=
  let s := (vq.entryNext slot).toNat
  let desc := vq.desc s
  (vq.setDesc s { desc with
    addr := phyAddr
    len := len
    flags := if write then desc.flags else desc.flags ||| descFWrite }).setEntryNext slot
      (asI16 desc.next)

/-- `virtio_enqueue` and `virtio_enqueue_p`. -/
def enqueue (vq : Virtq) (slot phyAddr len : Nat) (write : Bool) : Virtq :=
  if 0 ≤ vq.entryNext slot then vq.fillDesc slot phyAddr len write else vq.fail

end Virtq

/-! ### The queue with its requests -/

/-- An element of the used ring, with the `num_buffers` of the header of the packet. -/
structure Completion where
  slot : Nat
  len : Nat
  numBuffers : Nat
  deriving DecidableEq

/-- `vio_rxeof` gets to `virtio_dequeue_commit`: the packet has one buffer, and the slice of its
data is within the buffer. -/
def Completion.fits (completion : Completion) : Bool :=
  completion.numBuffers ≤ 1 && (headerLen ≤ completion.len && completion.len ≤ mclBytes)

structure State where
  vq : Virtq
  /-- The slots that `virtio_enqueue_prep` has returned. -/
  prepared : List Nat
  /-- The chains that `virtio_enqueue_reserve` has built, head first. -/
  reserved : List (List Nat)
  /-- The chains that are committed, until the driver takes them from the used ring. -/
  inflight : List (List Nat)
  /-- The used ring, from where the driver goes on. -/
  used : List Completion

namespace State

def init (vqNum : Nat) (hpos : 0 < vqNum) (hle : vqNum ≤ maxVqSize) (dataBuf : Nat) : State :=
  ⟨Virtq.init vqNum hpos hle dataBuf, [], [], [], []⟩

def prep (σ : State) : Option (Nat × State) :=
  σ.vq.enqueuePrep.map fun (slot, vq) =>
    (slot, { σ with vq := vq, prepared := slot :: σ.prepared })

def reserve (σ : State) (slot nsegs : Nat) : State × Bool :=
  match σ.vq.enqueueReserve slot nsegs with
  | (vq, true) =>
    ({ σ with
        vq := vq
        prepared := σ.prepared.erase slot
        reserved := (slot :: σ.vq.vqFreelist.take (nsegs - 1)) :: σ.reserved }, true)
  | (vq, false) => ({ σ with vq := vq, prepared := σ.prepared.erase slot }, false)

def enqueue (σ : State) (slot phyAddr len : Nat) (write : Bool) : State :=
  { σ with vq := σ.vq.enqueue slot phyAddr len write }

/-- `virtio_enqueue_commit`. A chain whose index overflows is not in the available ring, and nobody
holds it any more. -/
def commit (σ : State) (chain : List Nat) : State :=
  match addU16 σ.vq.vqAvailIdx 1 with
  | some idx =>
    { σ with
      vq := { σ.vq with vqAvailIdx := idx }
      reserved := σ.reserved.erase chain
      inflight := chain :: σ.inflight }
  | none => { σ with vq := σ.vq.fail, reserved := σ.reserved.erase chain }

/-- The driver gives up a slot that it has prepared. -/
def abortPrepared (σ : State) (slot : Nat) : State :=
  { σ with vq := σ.vq.enqueueAbort slot, prepared := σ.prepared.erase slot }

/-- The driver gives up a chain that it has reserved. -/
def abortReserved (σ : State) (slot : Nat) (chain : List Nat) : State :=
  { σ with vq := σ.vq.enqueueAbort slot, reserved := σ.reserved.erase chain }

/-- `vio_populate_rx_mbufs`, with its loop. -/
def populateRxMbufs : (n : Nat) → State → State
  | 0, σ => σ
  | n + 1, σ =>
    match σ.prep with
    | none => σ
    | some (slot, σ) =>
      match σ.reserve slot 1 with
      | (σ, false) => σ
      | (σ, true) =>
        let σ := (σ.enqueue slot (σ.vq.dataBuf + slot * mclBytes) mclBytes false).commit [slot]
        if σ.vq.failed then σ else populateRxMbufs n σ

/-- The loops of `vio_rxeof` and `vio_tx_dequeue`: a chain that is taken from the used ring is given
back if it is accepted, and ends the loop otherwise. -/
def dequeueAll (accepts : Completion → Bool) : (used : List Completion) → State → State
  | [], σ => { σ with used := [] }
  | completion :: used, σ =>
    match addU16 σ.vq.vqUsedIdx 1 with
    | none => { σ with vq := σ.vq.fail }
    | some idx =>
      let σ := { σ with
        vq := { σ.vq with vqUsedIdx := idx }
        used := used
        inflight := σ.inflight.eraseP fun chain => chain.head? == some completion.slot }
      if accepts completion then
        dequeueAll accepts used { σ with vq := σ.vq.freeChain completion.slot }
      else σ

/-- `vio_rxeof`. -/
def rxeof (σ : State) : State := dequeueAll Completion.fits σ.used σ

/-- `vio_tx_dequeue`. -/
def txDequeue (σ : State) : State := dequeueAll (fun _ => true) σ.used σ

end State

inductive Action
  | populateRxMbufs
  | rxeof
  | txDequeue
  | enqueuePrep
  | enqueueReserve (slot nsegs : Nat)
  | enqueue (slot phyAddr len : Nat) (write : Bool)
  | enqueueCommit (slot : Nat)
  | enqueueAbort (slot : Nat)
  /-- The device returns a chain. -/
  | complete (completion : Completion)

namespace State

/-- The chain of a list with a given head. -/
def chainAt (chains : List (List Nat)) (slot : Nat) : Option (List Nat) :=
  chains.find? fun chain => chain.head? == some slot

/-- One operation; `none` if there is no such request. -/
def step (σ : State) : Action → Option State
  | .populateRxMbufs => some (σ.populateRxMbufs σ.vq.vqNum)
  | .rxeof => some σ.rxeof
  | .txDequeue => some σ.txDequeue
  | .enqueuePrep => σ.prep.map Prod.snd
  | .enqueueReserve slot nsegs =>
    if slot ∈ σ.prepared then some (σ.reserve slot nsegs).1 else none
  | .enqueue slot phyAddr len write =>
    (chainAt σ.reserved slot).map fun _ => σ.enqueue slot phyAddr len write
  | .enqueueCommit slot => (chainAt σ.reserved slot).map σ.commit
  | .enqueueAbort slot =>
    if slot ∈ σ.prepared then some (σ.abortPrepared slot)
    else (chainAt σ.reserved slot).map (σ.abortReserved slot)
  | .complete completion =>
    if (chainAt σ.inflight completion.slot).isSome ∧
        completion.slot ∉ σ.used.map Completion.slot then
      some { σ with used := σ.used ++ [completion] }
    else none

/-- All slots, by where they are. -/
def slots (σ : State) : List Nat :=
  σ.vq.vqFreelist ++ (σ.prepared ++ (σ.reserved.flatten ++ σ.inflight.flatten))

/-- What the rings have to do with. -/
def ringView (σ : State) : (Nat × Nat × Nat) × List (List Nat) × List Completion :=
  (σ.vq.indices, σ.inflight, σ.used)

/-- Every slot of the queue is free or in one request, once, and every operation has ended. -/
structure SlotsConserved (σ : State) : Prop where
  perm : σ.slots.Perm (range σ.vq.vqNum)
  ended : σ.vq.failed = false

/-- `vio_rxeof` finds only packets whose slots it gives back, the indices do not leave the 16 bits,
and the number of segments is that of a request. -/
def Fits (σ : State) : Action → Prop
  | .populateRxMbufs => σ.vq.vqFreelist.length ≤ 65535 - σ.vq.vqAvailIdx
  | .rxeof => (∀ completion ∈ σ.used, completion.fits = true) ∧
      σ.used.length ≤ 65535 - σ.vq.vqUsedIdx
  | .txDequeue => σ.used.length ≤ 65535 - σ.vq.vqUsedIdx
  | .enqueueReserve _ nsegs => 1 ≤ nsegs ∧ nsegs ≤ maxVqSize
  | .enqueueCommit _ => σ.vq.vqAvailIdx < 65535
  | _ => True

end State

/-! ### The operations on the descriptors -/

theorem asI16_nonneg {x : Nat} (hx : x < maxVqSize) : 0 ≤ asI16 x := by
  have hmod : x % 2 ^ 16 = x := Nat.mod_eq_of_lt (hx.trans (by decide))
  rw [asI16, BitVec.toInt_eq_toNat_of_lt, BitVec.toNat_ofNat]
  · exact Int.natCast_nonneg _
  · rw [BitVec.toNat_ofNat, hmod]
    exact Nat.lt_trans (Nat.mul_lt_mul_of_pos_left hx (by decide)) (by decide)

namespace VirtqDesc

theorem hasNext_flagNext (desc : VirtqDesc) (next : Nat) :
    hasNext { desc with flags := descFNext, next := next } = true := by
  change (descFNext &&& descFNext != 0) = true
  decide

theorem hasNext_flagNone (desc : VirtqDesc) : hasNext { desc with flags := 0 } = false := by
  change ((0 : BitVec 16) &&& descFNext != 0) = false
  decide

/-- The flag for the direction does not touch the one for the link. -/
theorem hasNext_or_write (flags : BitVec 16) :
    ((flags ||| descFWrite) &&& descFNext != 0) = (flags &&& descFNext != 0) := by
  have hmask : (flags ||| descFWrite) &&& descFNext = flags &&& descFNext := by
    rw [BitVec.and_or_distrib_right]
    exact BitVec.or_zero
  rw [hmask]

end VirtqDesc

namespace Virtq

variable {vq : Virtq} {s slot : Nat}

variable {desc : VirtqDesc}

theorem desc_setDesc_self : (vq.setDesc s desc).desc s = desc :=
  update_self ..

theorem desc_setDesc_of_ne {x : Nat} (hne : x ≠ s) : (vq.setDesc s desc).desc x = vq.desc x :=
  update_of_ne hne ..

theorem succ_setDesc_self :
    (vq.setDesc s desc).succ s = if desc.hasNext then some desc.next else none := by
  rw [succ, desc_setDesc_self]

theorem succ_setDesc_of_ne {x : Nat} (hne : x ≠ s) : (vq.setDesc s desc).succ x = vq.succ x := by
  rw [succ, desc_setDesc_of_ne hne]
  rfl

theorem freeChain_eq {chain : List Nat} (hchain : IsChain vq.succ (slot :: chain))
    (hlength : chain.length < vq.vqNum) :
    vq.freeChain slot = { vq with vqFreelist := (slot :: chain).reverse ++ vq.vqFreelist } := by
  rw [freeChain, collect_eq hchain hlength]

theorem indices_freeChain (vq : Virtq) (slot : Nat) :
    (vq.freeChain slot).indices = vq.indices := by
  unfold freeChain
  split <;> rfl

theorem indices_enqueueAbort (vq : Virtq) (slot : Nat) :
    (vq.enqueueAbort slot).indices = vq.indices := by
  unfold enqueueAbort
  split
  · rfl
  · exact vq.indices_freeChain slot

theorem indices_reserveFrom (vq : Virtq) (s n : Nat) :
    (vq.reserveFrom s n).1.indices = vq.indices := by
  induction n generalizing vq s with
  | zero => rfl
  | succ n ih =>
    rw [reserveFrom]
    split
    · rfl
    · exact ih ..

theorem indices_enqueueReserve (vq : Virtq) (slot nsegs : Nat) :
    (vq.enqueueReserve slot nsegs).1.indices = vq.indices := by
  have hloop := indices_reserveFrom (vq.setEntryNext slot (asI16 slot)) slot (nsegs - 1)
  unfold enqueueReserve reserveSlots
  split
  · split
    · next heq => exact (congrArg (·.1.indices) heq).symm.trans hloop
    · next heq =>
      exact (indices_enqueueAbort ..).trans ((congrArg (·.1.indices) heq).symm.trans hloop)
  · rfl

/-- **The loop of `virtio_enqueue_reserve`**, whether it finds all slots or not: the slots that it
takes are linked to a chain, and the other links stay. -/
structure Reserves (vq vq' : Virtq) (s : Nat) (taken : List Nat) : Prop where
  free : vq.vqFreelist = taken ++ vq'.vqFreelist
  chain : IsChain vq'.succ (s :: taken)
  others : ∀ x, x ∉ s :: taken → vq'.succ x = vq.succ x
  next : ∀ x, (vq'.desc x).next = (vq.desc x).next ∨ (vq'.desc x).next ∈ taken
  entry : vq'.entryNext = vq.entryNext
  num : vq'.vqNum = vq.vqNum
  failed : vq'.failed = vq.failed

theorem Reserves.last (vq : Virtq) (s : Nat) :
    Reserves vq (vq.setDesc s { vq.desc s with flags := 0 }) s [] where
  free := rfl
  chain := by
    change succ _ s = none
    rw [succ_setDesc_self, VirtqDesc.hasNext_flagNone]
    rfl
  others x hx := succ_setDesc_of_ne (ne_of_not_mem_cons hx)
  next x := by
    refine .inl ?_
    rcases eq_or_ne x s with rfl | hne
    · rw [desc_setDesc_self]
    · rw [desc_setDesc_of_ne hne]
  entry := rfl
  num := rfl
  failed := rfl

/-- The loop links the slots that it takes. -/
theorem reserveFrom_spec (n : Nat) (hnodup : (s :: vq.vqFreelist).Nodup) :
    Reserves vq (vq.reserveFrom s n).1 s (vq.vqFreelist.take n) := by
  induction n generalizing vq s with
  | zero => exact Reserves.last vq s
  | succ n ih =>
    rw [reserveFrom]
    cases hfree : vq.vqFreelist with
    | nil => exact Reserves.last vq s
    | cons t free =>
      rw [hfree] at hnodup
      obtain ⟨hs, hnodup'⟩ := nodup_cons.mp hnodup
      -- the descriptor `s` is linked to `t`, where the loop goes on
      let vq₁ : Virtq := { vq with vqFreelist := free }.setDesc s
        { vq.desc s with flags := descFNext, next := t }
      have hspec : Reserves vq₁ (vq₁.reserveFrom t n).1 t (free.take n) := ih hnodup'
      obtain ⟨hfree₁, hchain, hothers, hnext, hentry, hnum, hfailed⟩ := hspec
      have hlink : vq₁.succ s = some t := by
        rw [succ_setDesc_self, VirtqDesc.hasNext_flagNext]
        rfl
      have hs' : s ∉ t :: free.take n := fun hmem =>
        hs ((take_subset (n + 1) (t :: free)) hmem)
      refine ⟨?_, ⟨(hothers s hs').trans hlink, hchain⟩, fun x hx => ?_, fun x => ?_, hentry, hnum,
        hfailed⟩
      · exact hfree.trans (congrArg (t :: ·) hfree₁)
      · rw [mem_cons, not_or] at hx
        obtain ⟨hne, hx⟩ := hx
        exact (hothers x hx).trans (succ_setDesc_of_ne hne)
      rcases hnext x with hsame | hmem
      · rcases eq_or_ne x s with rfl | hne
        · refine .inr (hsame.trans ?_ ▸ mem_cons_self)
          exact congrArg VirtqDesc.next desc_setDesc_self
        · exact .inl (hsame.trans (congrArg VirtqDesc.next (desc_setDesc_of_ne hne)))
      · exact .inr (mem_cons_of_mem _ hmem)

theorem fillDesc_desc (vq : Virtq) (slot phyAddr len : Nat) (write : Bool) (x : Nat) :
    ((vq.fillDesc slot phyAddr len write).desc x).next = (vq.desc x).next ∧
      ((vq.fillDesc slot phyAddr len write).desc x).hasNext = (vq.desc x).hasNext := by
  unfold fillDesc
  change ((setDesc vq _ _).desc x).next = _ ∧ ((setDesc vq _ _).desc x).hasNext = _
  rcases eq_or_ne x (vq.entryNext slot).toNat with rfl | hne
  · rw [desc_setDesc_self]
    refine ⟨rfl, ?_⟩
    cases write with
    | true => rfl
    | false => exact VirtqDesc.hasNext_or_write _
  · rw [desc_setDesc_of_ne hne]
    exact ⟨rfl, rfl⟩

theorem succ_fillDesc (vq : Virtq) (slot phyAddr len : Nat) (write : Bool) :
    (vq.fillDesc slot phyAddr len write).succ = vq.succ := by
  funext x
  obtain ⟨hnext, hhasNext⟩ := vq.fillDesc_desc slot phyAddr len write x
  rw [succ, succ, hnext, hhasNext]

end Virtq

/-! ### The invariant -/

namespace State

structure Good (σ : State) : Prop extends σ.SlotsConserved where
  chains : ∀ chain ∈ σ.reserved ++ σ.inflight, IsChain σ.vq.succ chain
  preparedNext : ∀ slot ∈ σ.prepared, σ.vq.entryNext slot = -1
  reservedNext : ∀ chain ∈ σ.reserved, ∀ slot ∈ chain.head?, 0 ≤ σ.vq.entryNext slot
  nextLt : ∀ slot, (σ.vq.desc slot).next < σ.vq.vqNum
  usedNodup : (σ.used.map Completion.slot).Nodup
  usedMem : ∀ completion ∈ σ.used, ∃ chain ∈ σ.inflight, chain.head? = some completion.slot

variable {σ σ' : State} {slot : Nat} {chain : List Nat}

theorem populateRxMbufs_nil (n : Nat) (hfree : σ.vq.vqFreelist = []) :
    σ.populateRxMbufs n = σ := by
  cases n with
  | zero => rfl
  | succ n =>
    have hprep : σ.prep = none := by
      rw [prep, Virtq.enqueuePrep, hfree]
      rfl
    rw [populateRxMbufs, hprep]

theorem mem_flatten_of_mem (hchain : chain ∈ σ.reserved ++ σ.inflight) (hslot : slot ∈ chain) :
    slot ∈ σ.reserved.flatten ++ σ.inflight.flatten := by
  rw [← flatten_append]
  exact List.mem_flatten_of_mem hchain hslot

namespace SlotsConserved

section

variable (h : σ.SlotsConserved)

include h

theorem nodup : σ.slots.Nodup :=
  h.perm.nodup_iff.mpr nodup_range

theorem lt (hslot : slot ∈ σ.slots) : slot < σ.vq.vqNum :=
  mem_range.mp (h.perm.mem_iff.mp hslot)

theorem length_eq : σ.slots.length = σ.vq.vqNum :=
  h.perm.length_eq.trans length_range

theorem free_notMem (hfree : slot ∈ σ.vq.vqFreelist) :
    slot ∉ σ.prepared ∧ ∀ chain ∈ σ.reserved ++ σ.inflight, slot ∉ chain := by
  obtain ⟨-, -, hdisjoint⟩ := nodup_append.mp h.nodup
  refine ⟨fun hmem => ?_, fun chain hchain hmem => ?_⟩
  · exact hdisjoint slot hfree slot (mem_append_left _ hmem) rfl
  · exact hdisjoint slot hfree slot (mem_append_right _ (mem_flatten_of_mem hchain hmem)) rfl

theorem prepared_notMem (hprepared : slot ∈ σ.prepared)
    (hchain : chain ∈ σ.reserved ++ σ.inflight) : slot ∉ chain := by
  obtain ⟨-, hrest, -⟩ := nodup_append.mp h.nodup
  obtain ⟨-, -, hdisjoint⟩ := nodup_append.mp hrest
  exact fun hmem => hdisjoint slot hprepared slot (mem_flatten_of_mem hchain hmem) rfl

end

end SlotsConserved

namespace Good

theorem prep (h : σ.Good) (hprep : σ.prep = some (slot, σ')) : σ'.Good ∧ slot ∈ σ'.prepared := by
  obtain ⟨⟨slot', vq⟩, hvq, heq⟩ := map_eq_some_iff.mp hprep
  cases heq
  unfold Virtq.enqueuePrep at hvq
  split at hvq
  · cases hvq
  rename_i slot₀ free hfree
  obtain ⟨hslot, rfl⟩ := Prod.mk.inj (some.inj hvq)
  subst hslot
  have hmem : slot₀ ∈ σ.vq.vqFreelist := hfree ▸ mem_cons_self
  obtain ⟨hprepared, hchains⟩ := h.free_notMem hmem
  refine ⟨⟨⟨?_, h.ended⟩, h.chains, fun slot hslot => ?_, fun chain hchain slot hhead => ?_,
    h.nextLt, h.usedNodup, h.usedMem⟩, mem_cons_self⟩
  · have hperm := h.perm
    rw [slots, hfree] at hperm
    exact perm_middle.trans hperm
  · change update σ.vq.entryNext slot₀ (-1) slot = -1
    rcases mem_cons.mp hslot with rfl | hslot
    · rw [update_self]
    have hne : slot ≠ slot₀ := fun heq => hprepared (heq ▸ hslot)
    rw [update_of_ne hne]
    exact h.preparedNext slot hslot
  · change 0 ≤ update σ.vq.entryNext slot₀ (-1) slot
    -- the head of another request is another slot
    have hne : slot ≠ slot₀ := by
      rintro rfl
      exact hchains chain (mem_append_left _ hchain) (mem_of_mem_head? hhead)
    rw [update_of_ne hne]
    exact h.reservedNext chain hchain slot hhead

theorem length_le (h : σ.SlotsConserved) (hchain : chain ∈ σ.reserved ++ σ.inflight) :
    chain.length ≤ σ.vq.vqNum := by
  rw [← h.length_eq, slots, ← flatten_append]
  have hle := (sublist_flatten_of_mem hchain).length_le
  simp only [length_append]
  omega

/-- The indices do not tell where the slots are. -/
theorem setIdx (h : σ.Good) (avail used : Nat) :
    Good { σ with vq := { σ.vq with vqAvailIdx := avail, vqUsedIdx := used } } := { h with }

/-- **`virtio_enqueue_commit`** moves a chain to the device, unless the index overflows. -/
theorem commit (h : σ.Good) (hchain : chain ∈ σ.reserved) (hidx : σ.vq.vqAvailIdx < 65535) :
    (σ.commit chain).Good ∧
      (σ.commit chain).vq = { σ.vq with vqAvailIdx := σ.vq.vqAvailIdx + 1 } ∧
      (σ.commit chain).inflight = chain :: σ.inflight ∧ (σ.commit chain).used = σ.used := by
  have hadd : addU16 σ.vq.vqAvailIdx 1 = some (σ.vq.vqAvailIdx + 1) := if_pos (by omega)
  have hsub : σ.reserved.erase chain ⊆ σ.reserved := erase_subset
  rw [State.commit, hadd]
  refine ⟨⟨⟨?_, h.ended⟩, fun chain' hmem => ?_, h.preparedNext,
    fun chain' hmem => h.reservedNext chain' (hsub hmem), h.nextLt, h.usedNodup, ?_⟩, rfl, rfl, rfl⟩
  · refine List.Perm.trans ?_ h.perm
    refine (List.Perm.append_left _ (List.Perm.append_left _ ?_))
    have hperm := (perm_cons_erase hchain).flatten
    refine List.Perm.trans ?_ (hperm.symm.append_right _)
    exact (perm_append_comm_assoc ..).trans (append_assoc .. ▸ List.Perm.refl _)
  · refine h.chains chain' ?_
    rcases mem_append.mp hmem with hmem | hmem
    · exact mem_append_left _ (hsub hmem)
    rcases mem_cons.mp hmem with rfl | hmem
    · exact mem_append_left _ hchain
    · exact mem_append_right _ hmem
  · intro completion hmem
    obtain ⟨chain', hmem', hhead⟩ := h.usedMem completion hmem
    exact ⟨chain', mem_cons_of_mem _ hmem', hhead⟩

theorem commit_failed (σ : State) (chain : List Nat) (hidx : ¬ σ.vq.vqAvailIdx < 65535) :
    (σ.commit chain).vq.failed = true := by
  have hadd : addU16 σ.vq.vqAvailIdx 1 = none := if_neg (by omega)
  rw [State.commit, hadd]
  rfl

theorem enqueue (h : σ.Good) (hchain : chain ∈ σ.reserved) (hhead : chain.head? = some slot)
    (phyAddr len : Nat) (write : Bool) : (σ.enqueue slot phyAddr len write).Good ∧
      (σ.enqueue slot phyAddr len write).vq.vqFreelist = σ.vq.vqFreelist ∧
      (σ.enqueue slot phyAddr len write).ringView = σ.ringView := by
  have hslot : slot ∈ chain := mem_of_mem_head? hhead
  have hfill : σ.vq.enqueue slot phyAddr len write = σ.vq.fillDesc slot phyAddr len write :=
    if_pos (h.reservedNext chain hchain slot hhead)
  have hentry : 0 ≤ asI16 (σ.vq.desc (σ.vq.entryNext slot).toNat).next :=
    asI16_nonneg (Nat.lt_of_lt_of_le (h.nextLt _) σ.vq.vqNum_le)
  rw [State.enqueue, hfill]
  refine ⟨⟨⟨h.perm, h.ended⟩, fun chain' hmem => ?_, fun slot' hslot' => ?_,
    fun chain' hmem slot' hhead' => ?_, fun slot' => ?_, h.usedNodup, h.usedMem⟩, rfl, rfl⟩
  · exact (h.chains chain' hmem).congr fun x _ => congrFun (σ.vq.succ_fillDesc ..) x
  · change update σ.vq.entryNext slot _ slot' = -1
    have hne : slot' ≠ slot := by
      rintro rfl
      exact h.prepared_notMem hslot' (mem_append_left _ hchain) hslot
    rw [update_of_ne hne]
    exact h.preparedNext slot' hslot'
  · change 0 ≤ update σ.vq.entryNext slot _ slot'
    rcases eq_or_ne slot' slot with rfl | hne
    · rw [update_self]
      exact hentry
    · rw [update_of_ne hne]
      exact h.reservedNext chain' hmem slot' hhead'
  · exact (σ.vq.fillDesc_desc slot phyAddr len write slot').1 ▸ h.nextLt slot'

theorem freeChain_eq (h : σ.Good) (hchain : chain ∈ σ.reserved ++ σ.inflight)
    (hhead : chain.head? = some slot) :
    σ.vq.freeChain slot = { σ.vq with vqFreelist := chain.reverse ++ σ.vq.vqFreelist } := by
  obtain ⟨rest, rfl⟩ := head?_eq_some_iff.mp hhead
  have hlength := length_le h.toSlotsConserved hchain
  exact Virtq.freeChain_eq (h.chains _ hchain) hlength

theorem perm_freed {free prepared rest : List Nat} :
    ((chain.reverse ++ free) ++ (prepared ++ rest)).Perm
      (free ++ (prepared ++ (chain ++ rest))) := by
  rw [perm_iff_count]
  intro a
  simp only [count_append, count_reverse]
  omega

theorem abortPrepared (h : σ.Good) (hslot : slot ∈ σ.prepared) : (σ.abortPrepared slot).Good := by
  have hsub : σ.prepared.erase slot ⊆ σ.prepared := erase_subset
  have habort : σ.vq.enqueueAbort slot = { σ.vq with vqFreelist := slot :: σ.vq.vqFreelist } :=
    if_pos (by rw [h.preparedNext slot hslot]; decide)
  unfold State.abortPrepared
  rw [habort]
  refine ⟨⟨?_, h.ended⟩, h.chains, fun slot' hslot' => h.preparedNext slot' (hsub hslot'),
    h.reservedNext, h.nextLt, h.usedNodup, h.usedMem⟩
  refine List.Perm.trans ?_ h.perm
  have hperm := (perm_cons_erase hslot).append_right (σ.reserved.flatten ++ σ.inflight.flatten)
  exact perm_middle.symm.trans (hperm.symm.append_left σ.vq.vqFreelist)

theorem abortReserved (h : σ.Good) (hchain : chain ∈ σ.reserved) (hhead : chain.head? = some slot) :
    (σ.abortReserved slot chain).Good := by
  have hsub : σ.reserved.erase chain ⊆ σ.reserved := erase_subset
  have habort : σ.vq.enqueueAbort slot =
      { σ.vq with vqFreelist := chain.reverse ++ σ.vq.vqFreelist } := by
    rw [Virtq.enqueueAbort, if_neg (Int.not_lt.mpr (h.reservedNext chain hchain slot hhead))]
    exact h.freeChain_eq (mem_append_left _ hchain) hhead
  unfold State.abortReserved
  rw [habort]
  refine ⟨⟨?_, h.ended⟩, fun chain' hmem => h.chains chain' ?_, h.preparedNext,
    fun chain' hmem => h.reservedNext chain' (hsub hmem), h.nextLt, h.usedNodup, h.usedMem⟩
  · refine perm_freed.trans (List.Perm.trans ?_ h.perm)
    have hperm := (perm_cons_erase hchain).flatten.append_right σ.inflight.flatten
    rw [flatten_cons, append_assoc] at hperm
    exact (hperm.symm.append_left _).append_left _
  · rcases mem_append.mp hmem with hmem | hmem
    · exact mem_append_left _ (hsub hmem)
    · exact mem_append_right _ hmem

/-- A chain that was linked from a prepared slot and free ones, all there are if there are not
enough of them. -/
theorem reserves (h : σ.Good) (hslot : slot ∈ σ.prepared) {vq : Virtq} {taken : List Nat}
    (hspec : Virtq.Reserves (σ.vq.setEntryNext slot (asI16 slot)) vq slot taken) :
    Good { σ with
      vq := vq
      prepared := σ.prepared.erase slot
      reserved := (slot :: taken) :: σ.reserved } := by
  obtain ⟨hfree, hchain, hothers, hnext, hentry, hnum, hfailed⟩ := hspec
  have hfree : σ.vq.vqFreelist = taken ++ vq.vqFreelist := hfree
  have hnum : vq.vqNum = σ.vq.vqNum := hnum
  have hentry : vq.entryNext = update σ.vq.entryNext slot (asI16 slot) := hentry
  have htaken : ∀ x ∈ taken, x ∈ σ.vq.vqFreelist := fun x hx => by
    rw [hfree]
    exact mem_append_left _ hx
  have hslotLt : slot < σ.vq.vqNum :=
    h.lt (mem_append_right _ (mem_append_left _ hslot))
  refine ⟨⟨?_, hfailed.trans h.ended⟩, fun chain' hmem => ?_, fun slot' hslot' => ?_,
    fun chain' hmem slot' hhead => ?_, fun x => ?_, h.usedNodup, h.usedMem⟩
  · rw [hnum]
    refine List.Perm.trans (perm_iff_count.mpr fun a => ?_) h.perm
    have hcount := (perm_cons_erase hslot).count_eq a
    simp only [slots, hfree, flatten_cons, count_append, count_cons] at hcount ⊢
    omega
  · rcases mem_cons.mp hmem with rfl | hmem
    · exact hchain
    refine (h.chains chain' hmem).congr fun x hx => hothers x fun hx' => ?_
    -- a cell of another chain is neither the prepared slot nor free
    rcases mem_cons.mp hx' with rfl | hx'
    · exact h.prepared_notMem hslot hmem hx
    · exact (h.free_notMem (htaken x hx')).2 chain' hmem hx
  · have hnodup : σ.prepared.Nodup :=
      (nodup_append.mp (nodup_append.mp h.nodup).2.1).1
    obtain ⟨hne, hslot'⟩ := hnodup.mem_erase_iff.mp hslot'
    rw [hentry, update_of_ne hne]
    exact h.preparedNext slot' hslot'
  · rw [hentry]
    rcases eq_or_ne slot' slot with rfl | hne
    · rw [update_self]
      exact asI16_nonneg (Nat.lt_of_lt_of_le hslotLt σ.vq.vqNum_le)
    rw [update_of_ne hne]
    rcases mem_cons.mp hmem with rfl | hmem
    · exact absurd (some.inj hhead).symm hne
    · exact h.reservedNext chain' hmem slot' hhead
  · rw [hnum]
    rcases hnext x with hsame | hmem
    · exact hsame ▸ h.nextLt x
    · exact h.lt (mem_append_left _ (htaken _ hmem))

/-- **`virtio_enqueue_reserve`**, with its failure. -/
theorem reserve (h : σ.Good) (hslot : slot ∈ σ.prepared) {nsegs : Nat}
    (hnsegs : 1 ≤ nsegs ∧ nsegs ≤ maxVqSize) : (σ.reserve slot nsegs).1.Good := by
  have hnodup : (slot :: σ.vq.vqFreelist).Nodup := by
    refine nodup_cons.mpr ⟨fun hmem => (h.free_notMem hmem).1 hslot, ?_⟩
    exact (nodup_append.mp h.nodup).1
  let vq₁ : Virtq := σ.vq.setEntryNext slot (asI16 slot)
  have hspec : Virtq.Reserves vq₁ (vq₁.reserveFrom slot (nsegs - 1)).1 slot
      (σ.vq.vqFreelist.take (nsegs - 1)) := Virtq.reserveFrom_spec (nsegs - 1) hnodup
  have hgood := h.reserves hslot hspec
  have hreserve : σ.vq.enqueueReserve slot nsegs = σ.vq.reserveSlots slot nsegs :=
    if_pos ⟨h.preparedNext slot hslot, hnsegs⟩
  rw [State.reserve, hreserve]
  change Good (match (match vq₁.reserveFrom slot (nsegs - 1) with
    | (vq, true) => (vq, true)
    | (vq, false) => (vq.enqueueAbort slot, false) : Virtq × Bool) with
    | (vq, true) => _
    | (vq, false) => _ : State × Bool).1
  rcases hresult : vq₁.reserveFrom slot (nsegs - 1) with ⟨vq, ok⟩
  rw [hresult] at hgood
  cases ok with
  | true => exact hgood
  | false =>
    -- the slots that were taken are a chain like any other that is given up
    have habort := hgood.abortReserved mem_cons_self rfl
    rwa [State.abortReserved, erase_cons_head] at habort

/-- A failed assertion. -/
theorem reserve_failed (σ : State) (slot : Nat) {nsegs : Nat}
    (hnsegs : ¬(1 ≤ nsegs ∧ nsegs ≤ maxVqSize)) : (σ.reserve slot nsegs).1.vq.failed = true := by
  have hreserve : σ.vq.enqueueReserve slot nsegs = (σ.vq.fail, false) :=
    if_neg fun hok => hnsegs hok.2
  rw [State.reserve, hreserve]
  rfl

variable {completion : Completion} {used : List Completion}

theorem exists_dequeued (h : σ.Good) (hused : σ.used = completion :: used) :
    ∃ chain, chain.head? = some completion.slot ∧ σ.inflight.Perm
      (chain :: σ.inflight.eraseP fun chain => chain.head? == some completion.slot) := by
  obtain ⟨chain, hmem, hhead⟩ := h.usedMem completion (hused ▸ mem_cons_self)
  obtain ⟨chain', front, back, -, hhead', hsplit, herase⟩ :=
    exists_of_eraseP (p := fun chain => chain.head? == some completion.slot) hmem
      (beq_iff_eq.mpr hhead)
  refine ⟨chain', beq_iff_eq.mp hhead', ?_⟩
  rw [herase, hsplit]
  exact perm_middle

theorem dequeueCommit (h : σ.Good) (hused : σ.used = completion :: used) : Good { σ with
      used := used
      inflight := σ.inflight.eraseP fun chain => chain.head? == some completion.slot
      vq := σ.vq.freeChain completion.slot } := by
  obtain ⟨chain, hhead, hperm⟩ := h.exists_dequeued hused
  have hchain : chain ∈ σ.inflight := hperm.mem_iff.mpr mem_cons_self
  have hsub : ∀ {chain'}, (chain' ∈ σ.inflight.eraseP fun chain =>
      chain.head? == some completion.slot) → chain' ∈ σ.inflight := mem_of_mem_eraseP
  rw [h.freeChain_eq (mem_append_right _ hchain) hhead]
  have hnodup := h.usedNodup
  rw [hused, map_cons, nodup_cons] at hnodup
  refine ⟨⟨?_, h.ended⟩, fun chain' hmem => h.chains chain' ?_, h.preparedNext, h.reservedNext,
    h.nextLt, hnodup.2, fun completion' hmem => ?_⟩
  · refine perm_freed.trans (List.Perm.trans ?_ h.perm)
    have hflatten := hperm.flatten
    refine List.Perm.append_left _ (List.Perm.append_left _ ?_)
    exact (perm_append_comm_assoc ..).trans (hflatten.symm.append_left _)
  · exact (mem_append.mp hmem).elim (mem_append_left _) fun hmem =>
      mem_append_right _ (hsub hmem)
  · -- the chains of the other completions have other heads
    obtain ⟨chain', hmem', hhead'⟩ := h.usedMem completion' (hused ▸ mem_cons_of_mem _ hmem)
    refine ⟨chain', ?_, hhead'⟩
    rcases mem_cons.mp (hperm.mem_iff.mp hmem') with rfl | hmem''
    · have hslot := some.inj (hhead.symm.trans hhead')
      exact absurd (hslot ▸ mem_map_of_mem hmem) hnodup.1
    · exact hmem''

/-- **A chain that is taken and not given back** is lost. -/
theorem not_conserved_dequeued (h : σ.Good) (hused : σ.used = completion :: used) :
    ¬SlotsConserved { σ with
      used := used
      inflight := σ.inflight.eraseP fun chain => chain.head? == some completion.slot } := by
  obtain ⟨chain, hhead, hperm⟩ := h.exists_dequeued hused
  intro hconserved
  have hbefore := h.length_eq
  have hafter := hconserved.length_eq
  have hflatten := hperm.flatten.length_eq
  obtain ⟨rest, rfl⟩ := head?_eq_some_iff.mp hhead
  simp only [slots, flatten_cons, length_append, length_cons] at *
  omega

/-- **The loops over the used ring** conserve the slots exactly if they accept every chain and the
index does not overflow on the way. -/
theorem dequeueAll_iff (accepts : Completion → Bool) (h : σ.Good) :
    ((dequeueAll accepts σ.used σ).SlotsConserved → (dequeueAll accepts σ.used σ).Good) ∧
      ((dequeueAll accepts σ.used σ).SlotsConserved ↔
        (∀ completion ∈ σ.used, accepts completion = true) ∧
          σ.used.length ≤ 65535 - σ.vq.vqUsedIdx) := by
  induction hused : σ.used generalizing σ with
  | nil =>
    have hsame : dequeueAll accepts [] σ = σ := by
      rw [dequeueAll, ← hused]
    rw [hsame]
    exact ⟨fun _ => h, iff_of_true h.toSlotsConserved ⟨nofun, Nat.zero_le _⟩⟩
  | cons completion used ih =>
    rw [dequeueAll, length_cons]
    by_cases hidx : σ.vq.vqUsedIdx + 1 < 65536
    · have hadd : addU16 σ.vq.vqUsedIdx 1 = some (σ.vq.vqUsedIdx + 1) := if_pos hidx
      have h₁ := h.setIdx σ.vq.vqAvailIdx (σ.vq.vqUsedIdx + 1)
      rw [hadd]
      dsimp only
      split
      · next haccepts =>
        have hih := ih (h₁.dequeueCommit hused) rfl
        have hsame := congrArg (·.2.2) (Virtq.indices_freeChain
          { σ.vq with vqUsedIdx := σ.vq.vqUsedIdx + 1 } completion.slot)
        change Virtq.vqUsedIdx _ = σ.vq.vqUsedIdx + 1 at hsame
        rw [forall_mem_cons, and_iff_right haccepts]
        refine ⟨hih.1, hih.2.trans (and_congr_right' ?_)⟩
        rw [hsame]
        omega
      rename_i hrefuses
      have hnot := h₁.not_conserved_dequeued hused
      refine ⟨fun hconserved => absurd hconserved hnot, iff_of_false hnot fun hall => ?_⟩
      exact hrefuses (hall.1 completion mem_cons_self)
    · -- the trap
      have hadd : addU16 σ.vq.vqUsedIdx 1 = none := if_neg hidx
      rw [hadd]
      have hnot : ¬ SlotsConserved { σ with vq := σ.vq.fail } := fun hconserved =>
        Bool.noConfusion hconserved.ended
      exact ⟨fun hconserved => absurd hconserved hnot, iff_of_false hnot fun hall => by omega⟩

/-- **A round of `vio_populate_rx_mbufs`** makes a chain of one slot and commits it. -/
theorem populateRxMbufs_cons (h : σ.Good) {free : List Nat} (hfree : σ.vq.vqFreelist = slot :: free)
    (n : Nat) : ∃ σ₁ : State, σ₁.Good ∧ [slot] ∈ σ₁.reserved ∧ σ₁.vq.vqFreelist = free ∧
      σ₁.ringView = σ.ringView ∧ σ.populateRxMbufs (n + 1) =
        if (σ₁.commit [slot]).vq.failed then σ₁.commit [slot]
        else (σ₁.commit [slot]).populateRxMbufs n := by
  obtain ⟨σ₁, hprep, hfree₁, hview₁⟩ : ∃ σ₁, σ.prep = some (slot, σ₁) ∧
      σ₁.vq.vqFreelist = free ∧ σ₁.ringView = σ.ringView := by
    rw [State.prep, Virtq.enqueuePrep, hfree]
    exact ⟨_, rfl, rfl, rfl⟩
  obtain ⟨h₁, hslot⟩ := h.prep hprep
  have h₂ := h₁.reserve hslot (show 1 ≤ 1 ∧ 1 ≤ maxVqSize by decide)
  -- one slot is always there: it is the one that was prepared
  have heq : σ₁.vq.enqueueReserve slot 1 = σ₁.vq.reserveSlots slot 1 :=
    if_pos ⟨h₁.preparedNext slot hslot, by decide⟩
  obtain ⟨σ₂, hreserve, hchain, hfree₂, hview₂⟩ : ∃ σ₂, σ₁.reserve slot 1 = (σ₂, true) ∧
      [slot] ∈ σ₂.reserved ∧ σ₂.vq.vqFreelist = free ∧ σ₂.ringView = σ.ringView := by
    rw [State.reserve, heq]
    exact ⟨_, rfl, mem_cons_self, hfree₁, hview₁⟩
  rw [hreserve] at h₂
  obtain ⟨h₃, hfree₃, hview₃⟩ := h₂.enqueue hchain rfl
    (σ₂.vq.dataBuf + slot * mclBytes) mclBytes false
  refine ⟨_, h₃, hchain, hfree₃.trans hfree₂, hview₃.trans hview₂, ?_⟩
  rw [State.populateRxMbufs, hprep]
  dsimp only
  rw [hreserve]

/-- **`vio_populate_rx_mbufs`**: every free slot becomes a chain of its own, unless the index
overflows on the way. -/
theorem populateRxMbufs (h : σ.Good) {n : Nat} (hn : σ.vq.vqFreelist.length ≤ n) :
    (σ.vq.vqFreelist.length ≤ 65535 - σ.vq.vqAvailIdx → (σ.populateRxMbufs n).Good) ∧
      (¬ σ.vq.vqFreelist.length ≤ 65535 - σ.vq.vqAvailIdx →
        (σ.populateRxMbufs n).vq.failed = true) := by
  induction n generalizing σ with
  | zero => exact ⟨fun _ => h, fun hnot => absurd (hn.trans (Nat.zero_le _)) hnot⟩
  | succ n ih =>
    cases hfree : σ.vq.vqFreelist with
    | nil =>
      rw [populateRxMbufs_nil (n + 1) hfree]
      exact ⟨fun _ => h, fun hnot => absurd (Nat.zero_le _) hnot⟩
    | cons slot free =>
      obtain ⟨σ₁, h₁, hchain, hfree₁, hview, heq⟩ := h.populateRxMbufs_cons hfree n
      have havail : σ₁.vq.vqAvailIdx = σ.vq.vqAvailIdx := congrArg (·.1.2.1) hview
      rw [heq]
      rw [hfree, length_cons] at hn
      rw [length_cons]
      by_cases hidx : σ.vq.vqAvailIdx < 65535
      · obtain ⟨h₂, hvq, -, -⟩ := h₁.commit hchain (havail ▸ hidx)
        rw [if_neg (by rw [h₂.ended]; decide)]
        have hih := ih h₂ (by rw [hvq]; exact hfree₁ ▸ Nat.le_of_succ_le_succ hn)
        have hidx₂ : (σ₁.commit [slot]).vq.vqAvailIdx = σ.vq.vqAvailIdx + 1 := by
          rw [hvq, ← havail]
        have hfree₂ : (σ₁.commit [slot]).vq.vqFreelist = free := by rw [hvq, ← hfree₁]
        rw [hidx₂, hfree₂] at hih
        exact ⟨fun hle => hih.1 (by omega), fun hnot => hih.2 (by omega)⟩
      · have hfailed := commit_failed σ₁ [slot] (havail ▸ hidx)
        rw [if_pos hfailed]
        exact ⟨fun hle => by omega, fun _ => hfailed⟩

theorem complete (h : σ.Good) (hchain : chain ∈ σ.inflight)
    (hhead : chain.head? = some completion.slot)
    (hnew : completion.slot ∉ σ.used.map Completion.slot) :
    Good { σ with used := σ.used ++ [completion] } := by
  refine ⟨⟨h.perm, h.ended⟩, h.chains, h.preparedNext, h.reservedNext, h.nextLt, ?_, ?_⟩
  · rw [map_append, map_singleton, nodup_append]
    refine ⟨h.usedNodup, pairwise_singleton _ _, fun slot hslot slot' hslot' heq => hnew ?_⟩
    rw [← mem_singleton.mp hslot', ← heq]
    exact hslot
  · intro completion' hmem
    rcases mem_append.mp hmem with hmem | hmem
    · exact h.usedMem completion' hmem
    · obtain rfl := mem_singleton.mp hmem
      exact ⟨chain, hchain, hhead⟩

end Good

theorem chainAt_eq_some {chains : List (List Nat)} (h : chainAt chains slot = some chain) :
    chain ∈ chains ∧ chain.head? = some slot := by
  have hhead : (chain.head? == some slot) = true :=
    find?_some (p := fun chain : List Nat => chain.head? == some slot) h
  exact ⟨mem_of_find?_eq_some h, beq_iff_eq.mp hhead⟩

theorem good_init (vqNum : Nat) (hpos : 0 < vqNum) (hle : vqNum ≤ maxVqSize) (dataBuf : Nat) :
    (init vqNum hpos hle dataBuf).Good where
  perm := by
    change (range vqNum ++ []).Perm (range vqNum)
    rw [append_nil]
  ended := rfl
  chains := nofun
  preparedNext := nofun
  reservedNext := nofun
  nextLt := fun _ => hpos
  usedNodup := nodup_nil
  usedMem := nofun

/-- **Every operation conserves the slots** exactly if it meets the condition. -/
theorem Good.step (h : σ.Good) {a : Action} (hstep : σ.step a = some σ') :
    (σ'.SlotsConserved → σ'.Good) ∧ (σ'.SlotsConserved ↔ σ.Fits a) := by
  have hgood : ∀ {σ' : State} {p : Prop}, σ'.Good → p →
      (σ'.SlotsConserved → σ'.Good) ∧ (σ'.SlotsConserved ↔ p) :=
    fun h' hp => ⟨fun _ => h', iff_of_true h'.toSlotsConserved hp⟩
  have hbad : ∀ {σ' : State} {p : Prop}, σ'.vq.failed = true → ¬ p →
      (σ'.SlotsConserved → σ'.Good) ∧ (σ'.SlotsConserved ↔ p) := fun hfailed hp => by
    refine ⟨fun hconserved => ?_, iff_of_false (fun hconserved => ?_) hp⟩
    all_goals cases hfailed.symm.trans hconserved.ended
  cases a with
  | populateRxMbufs =>
    cases hstep
    have hlength : σ.vq.vqFreelist.length ≤ σ.vq.vqNum := by
      rw [← h.length_eq, slots, length_append]
      exact Nat.le_add_right ..
    obtain ⟨hfits, hoverflows⟩ := h.populateRxMbufs hlength
    by_cases hidx : σ.vq.vqFreelist.length ≤ 65535 - σ.vq.vqAvailIdx
    · exact hgood (hfits hidx) hidx
    · exact hbad (hoverflows hidx) hidx
  | rxeof =>
    cases hstep
    exact h.dequeueAll_iff _
  | txDequeue =>
    cases hstep
    obtain ⟨hkeeps, hiff⟩ := h.dequeueAll_iff fun _ => true
    exact ⟨hkeeps, hiff.trans (and_iff_right fun _ _ => rfl)⟩
  | enqueuePrep =>
    obtain ⟨⟨slot, σ₁⟩, hprep, rfl⟩ := map_eq_some_iff.mp hstep
    exact hgood (h.prep hprep).1 trivial
  | enqueueReserve slot nsegs =>
    obtain ⟨hslot, heq⟩ := ite_none_right_eq_some.mp hstep
    cases heq
    by_cases hnsegs : 1 ≤ nsegs ∧ nsegs ≤ maxVqSize
    · exact hgood (h.reserve hslot hnsegs) hnsegs
    · exact hbad (Good.reserve_failed σ slot hnsegs) hnsegs
  | enqueue slot phyAddr len write =>
    obtain ⟨chain, hchain, rfl⟩ := map_eq_some_iff.mp hstep
    obtain ⟨hmem, hhead⟩ := chainAt_eq_some hchain
    exact hgood (h.enqueue hmem hhead ..).1 trivial
  | enqueueCommit slot =>
    obtain ⟨chain, hchain, rfl⟩ := map_eq_some_iff.mp hstep
    by_cases hidx : σ.vq.vqAvailIdx < 65535
    · obtain ⟨hcommit, -⟩ := h.commit (chainAt_eq_some hchain).1 hidx
      exact hgood hcommit hidx
    · exact hbad (Good.commit_failed σ chain hidx) hidx
  | enqueueAbort slot =>
    change (if slot ∈ σ.prepared then some (σ.abortPrepared slot)
      else (chainAt σ.reserved slot).map (σ.abortReserved slot)) = some σ' at hstep
    split at hstep
    · next hslot =>
      cases hstep
      exact hgood (h.abortPrepared hslot) trivial
    · obtain ⟨chain, hchain, rfl⟩ := map_eq_some_iff.mp hstep
      obtain ⟨hmem, hhead⟩ := chainAt_eq_some hchain
      exact hgood (h.abortReserved hmem hhead) trivial
  | complete completion =>
    obtain ⟨⟨hsome, hnew⟩, heq⟩ := ite_none_right_eq_some.mp hstep
    cases heq
    obtain ⟨chain, hchain⟩ := isSome_iff_exists.mp hsome
    obtain ⟨hmem, hhead⟩ := chainAt_eq_some hchain
    exact hgood (h.complete hmem hhead hnew) trivial

/-- **Conservation of the slots**: in every run of a queue of any size, all slots are free or in one
request in every state and every operation returns, exactly if `vio_rxeof` finds only packets that
it can take and no index overflows. -/
theorem slots_conserved_iff (vqNum : Nat) (hpos : 0 < vqNum) (hle : vqNum ≤ maxVqSize)
    (dataBuf : Nat) {as : List Action}
    (hrun : run State.step (init vqNum hpos hle dataBuf) as = some σ) :
    Always State.step SlotsConserved (init vqNum hpos hle dataBuf) as ↔
      Meets State.step Fits (init vqNum hpos hle dataBuf) as := by
  have hinit := good_init vqNum hpos hle dataBuf
  refine always_iff_meets (I := fun σ => σ.SlotsConserved → σ.Good) ?_ (fun _ => hinit)
    hinit.toSlotsConserved hrun
  exact fun hgood hconserved hstep => (hgood hconserved).step hstep

instance (σ : State) : DecidablePred σ.Fits := fun a => by
  induction a using Action.casesOn <;> dsimp only [Fits] <;> infer_instance

/-- A queue with four slots: a transmission with three segments, a reservation that fails, a refill,
and the completions of both chains. -/
def transmitReceive : List Action :=
  [.enqueuePrep, .enqueueReserve 0 3, .enqueue 0 0x1000 12 true, .enqueue 0 0x2000 1514 true,
    .enqueueCommit 0, .enqueuePrep, .enqueueReserve 3 2, .populateRxMbufs, .complete ⟨0, 0, 0⟩,
    .txDequeue, .complete ⟨3, 60, 1⟩, .rxeof]

theorem slots_conserved_iff_transmitReceive :
    ∃ σ, run State.step (init 4 (by decide) (by decide) 0) transmitReceive = some σ ∧
      Always State.step SlotsConserved (init 4 (by decide) (by decide) 0) transmitReceive := by
  have hrun : (run (guarded State.step Fits) (init 4 (by decide) (by decide) 0)
      transmitReceive).isSome = true := by decide
  obtain ⟨σ, hσ⟩ := isSome_iff_exists.mp hrun
  obtain ⟨hmeets, hrun⟩ := Meets.of_run hσ
  exact ⟨σ, hrun, (slots_conserved_iff 4 (by decide) (by decide) 0 hrun).mpr hmeets⟩

/-- A queue with two slots whose buffers are refilled. The device returns slot 0 with a packet of
two buffers, and `vio_rxeof` loses it. -/
theorem slot_lost : ∃ σ, run State.step (init 2 (by decide) (by decide) 0)
        [.populateRxMbufs, .complete ⟨0, 1526, 2⟩, .rxeof] = some σ ∧
      σ.vq.vqFreelist = [] ∧ σ.inflight = [[1]] ∧ ¬σ.SlotsConserved := by
  refine ⟨_, rfl, rfl, rfl, fun hconserved => ?_⟩
  cases hconserved.length_eq

end State

end Virtio

end Awkernel
