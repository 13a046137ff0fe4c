import Awkernel.Lib.LapRing
import Awkernel.Lib.TransitionSystem
import Mathlib.Tactic.NormNum

/-!
# The rings of the xHCI driver

`awkernel_drivers/src/pcie/usb/xhci/ring.rs`. The driver writes commands and transfers into a
`ProducerRing`, whose last slot is a Link TRB back to the first one, and the controller posts events
into the `EventRing`. Which TRBs are new is told by their cycle bit alone, which flips at each
wrap-around.

The Link TRB is a TRB like the others for the controller: it is handed over with the cycle bit of
its lap. Counting it, as long as no more TRBs are outstanding than the ring has slots, both rings
are queues (`rings_are_fifos`).
-/

namespace Awkernel.Xhci

open LapRing TransitionSystem List Function

/-- `RING_SIZE` and `LINK_IDX`. -/
def ringSize : Nat := 256
def linkIdx : Nat := ringSize - 1

/-- `TRB_BYTES`. -/
def trbBytes : Nat := 16

/-- `trb_type::LINK`, shifted down. -/
def linkType : Nat := 6

/-- A transfer request block, with `ctrl` taken apart. -/
structure Trb where
  param : Nat
  status : Nat
  trbType : Nat
  /-- The bit `LINK_TC`. -/
  linkTc : Bool
  /-- The rest of `ctrl`. -/
  flags : Nat
  cycle : Bool
  deriving DecidableEq

/-- `Trb::default`. -/
def Trb.default : Trb := ⟨0, 0, 0, false, 0, false⟩

structure ProducerRing where
  /-- The physical address of the memory. -/
  physBase : Nat
  mem : Nat → Trb
  enqueueIdx : Nat
  cycleBit : Bool

namespace ProducerRing

/-- A ring after `reset`. -/
def new (physBase : Nat) : ProducerRing where
  physBase
  mem i := if i = linkIdx then ⟨physBase, 0, linkType, true, 0, true⟩ else .default
  enqueueIdx := 0
  cycleBit := true

/-- `ProducerRing::enqueue`: the address of the TRB, unless it overflows. -/
def enqueue (r : ProducerRing) (trb : Trb) : Option (Nat × ProducerRing) :=
  let idx := r.enqueueIdx
  let trbPhys := r.physBase + idx * trbBytes
  if trbPhys < 2 ^ 64 then
    let mem := update r.mem idx { trb with cycle := r.cycleBit }
    if idx + 1 = linkIdx then
      some (trbPhys, { r with
        mem := update mem linkIdx { mem linkIdx with cycle := r.cycleBit }
        enqueueIdx := 0
        cycleBit := !r.cycleBit })
    else some (trbPhys, { r with mem, enqueueIdx := idx + 1 })
  else none

/-- What a call of `enqueue` writes. -/
def writes (r : ProducerRing) (trb : Trb) : List Trb :=
  { trb with cycle := r.cycleBit } ::
    if r.enqueueIdx + 1 = linkIdx then [{ r.mem linkIdx with cycle := r.cycleBit }] else []

end ProducerRing

/-- A producer ring and the controller that reads it. -/
structure Producer where
  ring : ProducerRing
  /-- The dequeue index and the consumer cycle state of the controller. -/
  dequeueIdx : Nat
  ccs : Bool
  /-- The TRBs that have been handed over, Link TRBs included. -/
  wire : List Trb
  /-- How many of them the controller has been at. -/
  seen : Nat
  /-- The TRBs that the controller has read. -/
  read : List Trb

inductive ProducerAction
  | enqueue (trb : Trb)
  /-- The controller looks at its dequeue position. -/
  | consume

namespace Producer

def new (physBase : Nat) : Producer := ⟨.new physBase, 0, true, [], 0, []⟩

/-- The controller follows a Link TRB, toggling its cycle state if the TRB says so. -/
def step (p : Producer) : ProducerAction → Option Producer
  | .enqueue trb => (p.ring.enqueue trb).map fun (_, ring) =>
      { p with ring, wire := p.wire ++ p.ring.writes trb }
  | .consume =>
    let trb := p.ring.mem p.dequeueIdx
    if trb.cycle ≠ p.ccs then none
    else if trb.trbType = linkType then
      some { p with
        dequeueIdx := (trb.param - p.ring.physBase) / trbBytes
        ccs := p.ccs ^^ trb.linkTc
        seen := p.seen + 1 }
    else some { p with
      dequeueIdx := p.dequeueIdx + 1, seen := p.seen + 1, read := p.read ++ [trb] }

/-- The TRBs of the driver are no Link TRBs, and the ring has room. -/
def HasRoom (p : Producer) : ProducerAction → Prop
  | .enqueue trb => trb.trbType ≠ linkType ∧
      (p.wire ++ p.ring.writes trb).length ≤ p.seen + ringSize
  | .consume => True

/-- The TRBs that have been enqueued, as they were written. -/
def enqueued (p : Producer) : List Trb := p.wire.filter (·.trbType ≠ linkType)

/-- The last slot has the Link TRB to the first one, and no other slot has one. -/
def KindAt (physBase i : Nat) (trb : Trb) : Prop :=
  if i = linkIdx then trb.trbType = linkType ∧ trb.linkTc = true ∧ trb.param = physBase
  else trb.trbType ≠ linkType

structure Inv (p : Producer) : Prop where
  holds : Holds ringSize Trb.cycle (· = linkIdx) p.ring.mem p.wire
  producer : At ringSize p.wire.length p.ring.enqueueIdx p.ring.cycleBit
  data : p.ring.enqueueIdx < linkIdx
  consumer : At ringSize p.seen p.dequeueIdx p.ccs
  seen : p.seen ≤ p.wire.length
  room : p.wire.length ≤ p.seen + ringSize
  kind : ∀ i, KindAt p.ring.physBase i (p.ring.mem i)
  read : p.read = (p.wire.take p.seen).filter (·.trbType ≠ linkType)

variable {p p' : Producer}

theorem Inv.new (physBase : Nat) : Inv (new physBase) where
  holds := .nil fun q _ hq => by simp [Producer.new, ProducerRing.new, hq, Trb.default]
  producer := .zero
  data := Nat.zero_lt_succ _
  consumer := .zero
  seen := Nat.le_refl _
  room := Nat.zero_le _
  kind i := by
    unfold KindAt
    split <;> simp [Producer.new, ProducerRing.new, *, Trb.default, linkType]
  read := rfl

theorem kindAt_update {physBase k : Nat} {mem : Nat → Trb} {e : Trb}
    (h : ∀ i, KindAt physBase i (mem i)) (he : KindAt physBase k e) (i : Nat) :
    KindAt physBase i (update mem k e i) := by
  by_cases heq : i = k
  · rw [heq, update_self]; exact he
  · rw [update_of_ne heq]; exact h i

/-- A call of `enqueue` writes one TRB, or two with the Link TRB. -/
theorem Inv.enqueue (h : Inv p) {trb : Trb} (hok : p.HasRoom (.enqueue trb))
    (hstep : p.step (.enqueue trb) = some p') : Inv p' := by
  obtain ⟨⟨addr, ring⟩, hring, rfl⟩ := Option.map_eq_some_iff.mp hstep
  obtain ⟨hdata, hroom⟩ := hok
  have hread (l : List Trb) :
      p.read = ((p.wire ++ l).take p.seen).filter (·.trbType ≠ linkType) := by
    rw [take_append_of_le_length h.seen, h.read]
  have hseen (l : List Trb) : p.seen ≤ (p.wire ++ l).length := by
    rw [length_append]; exact Nat.le_add_right_of_le h.seen
  have hne : linkIdx ≠ p.ring.enqueueIdx := Nat.ne_of_gt h.data
  have hsize : 0 < ringSize := by decide
  have hat := h.producer.succ hsize (by have := h.data; unfold linkIdx at this; omega)
  have hpush := h.holds.push (e := { trb with cycle := p.ring.cycleBit }) h.producer.bit
  rw [← h.producer.idx] at hpush
  have hkind := kindAt_update h.kind
    (e := { trb with cycle := p.ring.cycleBit }) ((if_neg hne.symm).mpr hdata)
  unfold ProducerRing.enqueue at hring
  unfold ProducerRing.writes at hroom ⊢
  obtain ⟨-, hring⟩ := Option.ite_none_right_eq_some.mp hring
  split at hring <;> cases hring
  · next hlast =>
    -- the Link TRB comes right after, in the last slot
    rw [hlast] at hat
    have hlink := h.kind linkIdx
    have hpush' := hpush.push (e := { p.ring.mem linkIdx with cycle := p.ring.cycleBit })
      (by simpa using hat.bit)
    have hkind' := kindAt_update hkind (k := linkIdx)
      (e := { p.ring.mem linkIdx with cycle := p.ring.cycleBit })
      (by simpa [KindAt] using hlink)
    rw [length_append, length_singleton, ← hat.idx, append_assoc] at hpush'
    simp only [hlast, if_true, update_of_ne hne] at hroom ⊢
    exact { h with
      holds := hpush', producer := by simpa using hat.wrap hsize (by decide)
      data := Nat.zero_lt_succ _, seen := hseen _, room := hroom, kind := hkind'
      read := hread _ }
  · next hlast =>
    simp only [hlast, if_false] at hroom ⊢
    exact { h with
      holds := hpush, producer := by simpa using hat, data := by have := h.data; dsimp only; omega
      seen := hseen _, room := hroom, kind := hkind, read := hread _ }

/-- The controller recognises the TRBs that are outstanding. -/
theorem Inv.pending (h : Inv p) :
    (p.ring.mem p.dequeueIdx).cycle = p.ccs ↔ p.seen < p.wire.length := by
  refine h.holds.bit_eq_iff h.consumer (by decide) h.seen h.room fun heq hlast => ?_
  -- the driver is never at the last slot
  have hdata := h.data
  rw [h.producer.idx, ← heq, hlast] at hdata
  exact absurd hdata (by decide)

theorem Inv.consume (h : Inv p) (hstep : p.step .consume = some p') : Inv p' := by
  have hsize : 0 < ringSize := by decide
  have hpos := h.consumer.idx
  obtain ⟨hcycle, hstep⟩ := Option.ite_none_left_eq_some.mp hstep
  have hlt := h.pending.mp (not_not.mp hcycle)
  have htake := h.holds.take_succ h.consumer hlt h.room
  have hkind := h.kind p.dequeueIdx
  unfold KindAt at hkind
  split at hstep <;> cases hstep
  · next hlink =>
    have hlast : p.dequeueIdx = linkIdx := by
      by_contra hne
      exact (if_neg hne ▸ hkind) hlink
    rw [if_pos hlast] at hkind
    refine { h with
      consumer := ?_, seen := hlt
      room := Nat.le_trans h.room (by dsimp only; omega), read := ?_ }
    · rw [hkind.2.1, hkind.2.2, Nat.sub_self, Bool.xor_true]
      exact h.consumer.wrap hsize (by rw [hlast]; decide)
    · rw [htake, h.read]
      simp [hlink]
  · next hdata =>
    have hlast : p.dequeueIdx ≠ linkIdx := fun heq => hdata (if_pos heq ▸ hkind).1
    refine { h with
      consumer := h.consumer.succ hsize ?_, seen := hlt
      room := Nat.le_trans h.room (by dsimp only; omega), read := ?_ }
    · have := Nat.mod_lt p.seen hsize
      unfold linkIdx at hlast
      omega
    · rw [htake, h.read]
      simp [hdata]

end Producer

/-! ### The event ring -/

structure EventRing where
  segMem : Nat → Trb
  dequeueIdx : Nat
  cycleBit : Bool

/-- `EventRing::dequeue`. -/
def EventRing.dequeue (r : EventRing) : Option Trb × EventRing :=
  let trb := r.segMem r.dequeueIdx
  if trb.cycle ≠ r.cycleBit then (none, r)
  else if ringSize ≤ r.dequeueIdx + 1 then
    (some trb, { r with dequeueIdx := 0, cycleBit := !r.cycleBit })
  else (some trb, { r with dequeueIdx := r.dequeueIdx + 1 })

/-- The event ring and the controller that posts events. -/
structure Consumer where
  ring : EventRing
  posted : List Trb
  returned : List Trb

inductive ConsumerAction
  | post (trb : Trb)
  | dequeue

namespace Consumer

def new : Consumer := ⟨⟨fun _ => .default, 0, true⟩, [], []⟩

def step (c : Consumer) : ConsumerAction → Option Consumer
  | .post trb => some { c with
      ring.segMem := update c.ring.segMem (c.posted.length % ringSize) trb
      posted := c.posted ++ [trb] }
  | .dequeue => some { c with
      ring := c.ring.dequeue.2, returned := c.returned ++ c.ring.dequeue.1.toList }

/-- The controller stamps the bit of its lap and does not overrun the dequeue position. -/
def Conforms (c : Consumer) : ConsumerAction → Prop
  | .post trb => trb.cycle = lapBit ringSize c.posted.length ∧
      c.posted.length < c.returned.length + ringSize
  | .dequeue => True

structure Inv (c : Consumer) : Prop where
  holds : Holds ringSize Trb.cycle (fun _ => False) c.ring.segMem c.posted
  at_ : At ringSize c.returned.length c.ring.dequeueIdx c.ring.cycleBit
  order : c.returned = c.posted.take c.returned.length
  room : c.posted.length ≤ c.returned.length + ringSize

variable {c c' : Consumer}

theorem Inv.length_le (h : Inv c) : c.returned.length ≤ c.posted.length := by
  have := congrArg length h.order
  rw [length_take] at this
  omega

theorem Inv.dequeue_eq_none_iff (h : Inv c) :
    c.ring.dequeue.1 = none ↔ c.returned.length = c.posted.length := by
  have hiff := h.holds.bit_eq_iff h.at_ (by decide) h.length_le h.room fun _ => id
  have hle := h.length_le
  unfold EventRing.dequeue
  dsimp only
  split
  · next hne => exact iff_of_true rfl (by have := mt hiff.mpr hne; omega)
  rename_i heq
  have := hiff.mp (not_not.mp heq)
  split <;> exact iff_of_false nofun (by omega)

theorem Inv.step (h : Inv c) {a : ConsumerAction} (hok : c.Conforms a)
    (hstep : c.step a = some c') : Inv c' := by
  cases a with
  | post trb =>
    cases hstep
    refine { h with holds := h.holds.push hok.1, order := ?_, room := ?_ } <;> dsimp only
    · rw [take_append_of_le_length h.length_le]
      exact h.order
    · rw [length_append]
      exact hok.2
  | dequeue =>
    cases hstep
    have hiff := h.holds.bit_eq_iff h.at_ (by decide) h.length_le h.room fun _ => id
    unfold EventRing.dequeue
    dsimp only
    split
    · simpa using h
    rename_i heq
    have hlt := hiff.mp (not_not.mp heq)
    have hnext {i : Nat} {b : Bool} (hat : At ringSize (c.returned.length + 1) i b) : Inv { c with
          ring := { c.ring with dequeueIdx := i, cycleBit := b }
          returned := c.returned ++ [c.ring.segMem c.ring.dequeueIdx] } := by
      have hroom := h.room
      refine ⟨h.holds, ?_, ?_, ?_⟩ <;>
        simp only [length_append, length_singleton]
      · exact hat
      · rw [h.holds.take_succ h.at_ hlt h.room, ← h.order]
      · omega
    split
    · next hlast => exact hnext (h.at_.wrap (by decide) hlast)
    · next hlast => exact hnext (h.at_.succ (by decide) hlast)

end Consumer

/-- **Both rings are queues.** The controller reads the enqueued TRBs, each once and in order, and
finds the next one as long as there is one; the driver is given the posted events, each once and in
order, and nothing exactly if there is no event. -/
theorem rings_are_fifos : (∀ physBase p, Reaches Producer.step Producer.HasRoom (.new physBase) p →
      p.read = p.enqueued.take p.read.length ∧
        (p.read.length < p.enqueued.length → (p.step .consume).isSome)) ∧
    ∀ c, Reaches Consumer.step Consumer.Conforms .new c →
      c.returned = c.posted.take c.returned.length ∧
        (c.ring.dequeue.1 = none ↔ c.returned.length = c.posted.length) := by
  refine ⟨fun physBase p h => ?_, fun c h => ?_⟩
  · have hinv : p.Inv := h.invariant (Producer.Inv.new physBase) fun _ a _ h hok hs => by
      cases a with
      | enqueue trb => exact h.enqueue hok hs
      | consume => exact h.consume hs
    have hwire := take_prefix p.seen p.wire
    have hpre : p.read <+: p.enqueued := by
      rw [hinv.read]
      exact hwire.filter _
    refine ⟨prefix_iff_eq_take.mp hpre, fun hlt => ?_⟩
    have hseen : p.seen < p.wire.length := by
      refine Nat.lt_of_le_of_ne hinv.seen fun heq => ?_
      rw [hinv.read, heq, take_length] at hlt
      exact Nat.lt_irrefl _ hlt
    unfold Producer.step
    dsimp only
    rw [if_neg (not_not.mpr (hinv.pending.mpr hseen))]
    split <;> rfl
  · have hinv : c.Inv := h.invariant
      ⟨.nil fun _ _ _ => rfl, .zero, rfl, Nat.zero_le _⟩ fun _ _ _ h hok hs => h.step hok hs
    exact ⟨hinv.order, hinv.dequeue_eq_none_iff⟩

instance (p : Producer) : DecidablePred p.HasRoom := fun a => by
  induction a using ProducerAction.casesOn <;> dsimp only [Producer.HasRoom] <;> infer_instance

instance (c : Consumer) : DecidablePred c.Conforms := fun a => by
  induction a using ConsumerAction.casesOn <;> dsimp only [Consumer.Conforms] <;> infer_instance

/-- The driver enqueues a TRB and the controller looks at its position, 260 times. -/
def producerLap : List ProducerAction :=
  (range 260).flatMap fun i => [.enqueue ⟨i, 0, 1, false, 0, false⟩, .consume]

/-- The controller posts an event and the driver takes it, 260 times; then it posts one more. -/
def consumerLap : List ConsumerAction :=
  ((range 260).flatMap fun i => [.post ⟨i, 0, 32, false, 0, lapBit ringSize i⟩, .dequeue]) ++
    [.post ⟨260, 0, 32, false, 0, lapBit ringSize 260⟩]

/-- Both rings have gone round once. The controller has followed the Link TRB and is one TRB
behind, and the driver one event. -/
theorem rings_are_fifos_wrapped :
    (∃ p, Reaches Producer.step Producer.HasRoom (.new 0x1000) p ∧
      (p.ccs = false ∧ p.enqueued.length = 260 ∧ p.read.length = 259) ∧
      p.read = p.enqueued.take 259 ∧ (p.step .consume).isSome) ∧
    ∃ c, Reaches Consumer.step Consumer.Conforms .new c ∧
      (c.ring.cycleBit = false ∧ c.posted.length = 261 ∧ c.returned.length = 260) ∧
      c.returned = c.posted.take 260 ∧ c.ring.dequeue.1 ≠ none := by
  constructor
  · refine Reaches.exists_of_run_imp producerLap (fun p => p.ccs = false ∧
      p.enqueued.length = 260 ∧ p.read.length = 259) (by decide +kernel) ?_
    rintro p hreach ⟨hccs, henqueued, hread⟩
    obtain ⟨horder, hnext⟩ := rings_are_fifos.1 _ p hreach
    refine ⟨⟨hccs, henqueued, hread⟩, hread ▸ horder, hnext ?_⟩
    omega
  · refine Reaches.exists_of_run_imp consumerLap (fun c => c.ring.cycleBit = false ∧
      c.posted.length = 261 ∧ c.returned.length = 260) (by decide +kernel) ?_
    rintro c hreach ⟨hbit, hposted, hreturned⟩
    obtain ⟨horder, hnone⟩ := rings_are_fifos.2 c hreach
    refine ⟨⟨hbit, hposted, hreturned⟩, hreturned ▸ horder, mt hnone.mp ?_⟩
    omega

end Awkernel.Xhci
