import Mathlib.Data.Int.ModEq
import Mathlib.Data.List.Basic

/-!
# The ring queue

`awkernel_lib_verified/src/ringq.rs`: a vector of optional slots with the positions of
the oldest element (`head`) and of the first free slot (`tail`), and the number of
elements stored. The pub/sub topics and the bounded channels keep their messages in it.

The slots between `head` and `tail`, and only those, are occupied. This is a field of
the structure: it is what makes `pop` return an element whenever `len` is positive and
`iter` never meet its `unreachable!()` (`iter_eq`).

The elements in the order in which they leave are `toList`, and the queue is specified
by its effect on that list:

* `push_eq_ok`, `push_eq_error` — `push` appends, or gives the argument back when the
  queue is full;
* `pop_of_cons`, `pop_of_nil` — `pop` takes the first element;
* `front_eq` — `head()` reads the first element;
* `refines_boundedList` — every sequence of calls is answered as by a list of bounded length.
-/

namespace Awkernel

open List Option

/-- `pos += 1; if pos == queue.len() { pos = 0 }`. -/
def ringNext (size pos : Nat) : Nat := if pos + 1 = size then 0 else pos + 1

variable {size pos : Nat}

theorem ringNext_eq (h : pos < size) : ringNext size pos = (pos + 1) % size := by
  unfold ringNext
  split
  · next heq => rw [heq, Nat.mod_self]
  · next hne => rw [Nat.mod_eq_of_lt (by omega)]

theorem ringNext_lt (h : pos < size) : ringNext size pos < size := by
  rw [ringNext_eq h]
  exact Nat.mod_lt _ (by omega)

theorem ringNext_add_mod (h : pos < size) (i : Nat) :
    (ringNext size pos + i) % size = (pos + (i + 1)) % size := by
  rw [ringNext_eq h, Nat.mod_add_mod]
  congr 1
  omega

theorem ring_offset_inj {i j : Nat} (hi : i < size) (hj : j < size)
    (h : (pos + i) % size = (pos + j) % size) : i = j :=
  Nat.ModEq.eq_of_lt_of_lt (Nat.ModEq.add_left_cancel' pos h) hi hj

/-- The content of slot `i`. -/
def slotAt {α : Type*} (queue : List (Option α)) (i : Nat) : Option α := (queue[i]?).join

theorem slotAt_set_self {α : Type*} {queue : List (Option α)} {i : Nat} (h : i < queue.length)
    (v : Option α) : slotAt (queue.set i v) i = v := by
  unfold slotAt
  rw [getElem?_set_self h, join_some]

theorem slotAt_set_of_ne {α : Type*} {queue : List (Option α)} {i j : Nat} (h : i ≠ j)
    (v : Option α) : slotAt (queue.set i v) j = slotAt queue j := by
  unfold slotAt
  rw [getElem?_set_ne h]

/-- Exactly the `len` slots from `head` on are occupied, and `tail` is the slot after them. -/
structure RingQ.WellFormed {α : Type*} (queue : List (Option α)) (len head tail : Nat) :
    Prop where
  len_le : len ≤ queue.length
  head_lt : head < queue.length ∨ queue.length = 0 ∧ head = 0
  tail_eq : tail = (head + len) % queue.length
  occupied : ∀ i < queue.length,
    (slotAt queue ((head + i) % queue.length)).isSome = decide (i < len)

/-- `RingQ<T>`. -/
structure RingQ (α : Type*) where
  queue : List (Option α)
  len : Nat
  head : Nat
  tail : Nat
  wf : RingQ.WellFormed queue len head tail

namespace RingQ

variable {α : Type*}

/-- `RingQ::new`. -/
def new (queueLen : Nat) : RingQ α where
  queue := replicate queueLen none
  len := 0
  head := 0
  tail := 0
  wf :=
    { len_le := Nat.zero_le _
      head_lt := by rw [length_replicate]; omega
      tail_eq := by simp
      occupied := by
        intro i hi
        rw [length_replicate] at hi
        have hlt : i % queueLen < queueLen := Nat.mod_lt _ (by omega)
        simp [slotAt, hlt] }

/-- `RingQ::queue_size`. -/
def queueSize (q : RingQ α) : Nat := q.queue.length

/-- `RingQ::is_full`. -/
def isFull (q : RingQ α) : Bool := q.len ≥ q.queue.length

variable {queue : List (Option α)} {q : RingQ α} {len head tail : Nat}

theorem WellFormed.push (h : WellFormed queue len head tail)
    (hroom : len < queue.length) (data : α) :
    WellFormed (queue.set tail (some data)) (len + 1) head (ringNext queue.length tail) := by
  have hlen : (queue.set tail (some data)).length = queue.length := length_set
  have htail : tail < queue.length := by
    rw [h.tail_eq]
    exact Nat.mod_lt _ (by omega)
  refine ⟨by omega, by rw [hlen]; exact h.head_lt, ?_, ?_⟩
  · rw [hlen, ringNext_eq htail, h.tail_eq, Nat.mod_add_mod, Nat.add_assoc]
  intro i hi
  rw [hlen] at hi ⊢
  by_cases hil : i = len
  · subst hil
    rw [← h.tail_eq, slotAt_set_self htail]
    simp
  have hne : tail ≠ (head + i) % queue.length := by
    rw [h.tail_eq]
    exact fun heq => hil (ring_offset_inj hi hroom heq.symm)
  rw [slotAt_set_of_ne hne, h.occupied i hi]
  have : i < len ↔ i < len + 1 := by omega
  simp only [this]

theorem WellFormed.pop (h : WellFormed queue len head tail) (hne : len ≠ 0) :
    WellFormed (queue.set head none) (len - 1) (ringNext queue.length head) tail := by
  have hlen : (queue.set head (none : Option α)).length = queue.length := length_set
  have hle := h.len_le
  have hhead : head < queue.length := by
    have := h.head_lt
    omega
  refine ⟨by omega, .inl (by rw [hlen]; exact ringNext_lt hhead), ?_, ?_⟩
  · rw [hlen, ringNext_add_mod hhead, h.tail_eq]
    congr 2
    omega
  intro i hi
  rw [hlen] at hi ⊢
  rw [ringNext_add_mod hhead]
  by_cases hlast : i + 1 = queue.length
  · -- all the way round, back at the slot that was emptied
    rw [hlast, Nat.add_mod_right, Nat.mod_eq_of_lt hhead, slotAt_set_self hhead]
    have : ¬ i < len - 1 := by omega
    simp [this]
  have hi' : i + 1 < queue.length := by omega
  have hslot : head ≠ (head + (i + 1)) % queue.length := by
    intro heq
    have h0 : (head + 0) % queue.length = (head + (i + 1)) % queue.length := by
      rw [Nat.add_zero, Nat.mod_eq_of_lt hhead]
      exact heq
    have := ring_offset_inj (by omega) hi' h0
    omega
  rw [slotAt_set_of_ne hslot, h.occupied _ hi']
  have : i + 1 < len ↔ i < len - 1 := by omega
  simp only [this]

/-- `RingQ::push`; `Err` gives the argument back. -/
def push (q : RingQ α) (data : α) : Except α (RingQ α) :=
  if h : q.queue.length = q.len then .error data
  else
    .ok
      { queue := q.queue.set q.tail (some data)
        len := q.len + 1
        head := q.head
        tail := ringNext q.queue.length q.tail
        wf := q.wf.push (by have := q.wf.len_le; omega) data }

/-- `RingQ::pop`. -/
def pop (q : RingQ α) : Option α × RingQ α :=
  if h : q.len = 0 then (none, q)
  else
    (slotAt q.queue q.head,
      { queue := q.queue.set q.head none
        len := q.len - 1
        head := ringNext q.queue.length q.head
        tail := q.tail
        wf := q.wf.pop h })

/-- `RingQ::head`: the slot at the head. `none` is the panic of the index, which is out of
range in a queue of size zero. -/
def front (q : RingQ α) : Option (Option α) := q.queue[q.head]?

/-- `IterRingQ::next`, from position `pos` with `len` elements to go. `none` is the
`unreachable!()` at an empty slot. -/
def iterFrom (queue : List (Option α)) : Nat → Nat → Option (List α)
  | 0, _ => some []
  | len + 1, pos =>
    match slotAt queue pos with
    | some result => (iterFrom queue len (ringNext queue.length pos)).map (result :: ·)
    | none => none

/-- `RingQ::iter`. -/
def iter (q : RingQ α) : Option (List α) := iterFrom q.queue q.len q.head

/-! ### The elements stored -/

/-- The elements of `len` slots from `pos` on. -/
def contents (queue : List (Option α)) : Nat → Nat → List α
  | 0, _ => []
  | len + 1, pos => (slotAt queue pos).toList ++ contents queue len (ringNext queue.length pos)

/-- The elements, oldest first. -/
def toList (q : RingQ α) : List α := contents q.queue q.len q.head

theorem contents_set {j : Nat} {v : Option α} :
    ∀ {len pos : Nat}, pos < queue.length → (∀ i < len, j ≠ (pos + i) % queue.length) →
      contents (queue.set j v) len pos = contents queue len pos := by
  intro len
  induction len with
  | zero => intro pos _ _; rfl
  | succ len ih =>
    intro pos hpos hne
    have hfirst : j ≠ pos := by
      have := hne 0 (Nat.succ_pos _)
      rwa [Nat.add_zero, Nat.mod_eq_of_lt hpos] at this
    have hrest : ∀ i < len, j ≠ (ringNext queue.length pos + i) % queue.length := by
      intro i hi
      rw [ringNext_add_mod hpos]
      exact hne (i + 1) (by omega)
    unfold contents
    rw [length_set, slotAt_set_of_ne hfirst, ih (ringNext_lt hpos) hrest]

theorem contents_succ :
    ∀ {len pos : Nat}, pos < queue.length →
      contents queue (len + 1) pos =
        contents queue len pos ++ (slotAt queue ((pos + len) % queue.length)).toList := by
  intro len
  induction len with
  | zero =>
    intro pos hpos
    simp [contents, Nat.mod_eq_of_lt hpos]
  | succ len ih =>
    intro pos hpos
    rw [contents, ih (ringNext_lt hpos), ringNext_add_mod hpos, ← append_assoc]
    rfl

/-- All the slots of the range are occupied, so the iterator walks through them. -/
theorem iterFrom_eq : ∀ (len pos : Nat), (len = 0 ∨ pos < queue.length) →
      (∀ i < len, (slotAt queue ((pos + i) % queue.length)).isSome) →
      iterFrom queue len pos = some (contents queue len pos) ∧
        (contents queue len pos).length = len := by
  intro len
  induction len with
  | zero => intro pos _ _; exact ⟨rfl, rfl⟩
  | succ len ih =>
    intro pos hpos hocc
    have hpos : pos < queue.length := by omega
    have hfirst := hocc 0 (Nat.succ_pos _)
    rw [Nat.add_zero, Nat.mod_eq_of_lt hpos] at hfirst
    obtain ⟨x, hx⟩ := isSome_iff_exists.mp hfirst
    obtain ⟨hiter, hlen⟩ := ih (ringNext queue.length pos) (.inr (ringNext_lt hpos)) (by
      intro i hi
      rw [ringNext_add_mod hpos]
      exact hocc (i + 1) (by omega))
    constructor
    · simp [iterFrom, contents, hx, hiter]
    · simp [contents, hx, hlen]

section

variable (q : RingQ α)

theorem iter_spec : q.iter = some q.toList ∧ q.toList.length = q.len := by
  have hle := q.wf.len_le
  refine iterFrom_eq q.len q.head ?_ fun i hi => ?_
  · have := q.wf.head_lt
    omega
  · rw [q.wf.occupied i (by omega)]
    simpa using hi

/-- **`iter` yields the elements** and never reaches its `unreachable!()`. -/
theorem iter_eq : q.iter = some q.toList := q.iter_spec.1

@[simp] theorem length_toList : q.toList.length = q.len := q.iter_spec.2

theorem len_le : q.len ≤ q.queueSize := q.wf.len_le

end

@[simp] theorem toList_new (n : Nat) : (new n : RingQ α).toList = [] := rfl

@[simp] theorem queueSize_new (n : Nat) : (new n : RingQ α).queueSize = n :=
  length_replicate

/-- **A `push` that succeeds** appends. -/
theorem push_eq_ok {q' : RingQ α} {data : α} (h : q.push data = .ok q') :
    q.len < q.queueSize ∧ q'.toList = q.toList ++ [data] ∧ q'.queueSize = q.queueSize := by
  unfold push at h
  split at h
  · cases h
  have hle := q.wf.len_le
  have hhead := q.wf.head_lt
  have hroom : q.len < q.queue.length := by omega
  have hpos : q.head < q.queue.length := by omega
  cases h
  refine ⟨hroom, ?_, length_set⟩
  show contents (q.queue.set q.tail (some data)) (q.len + 1) q.head = _
  have hother : ∀ i < q.len, q.tail ≠ (q.head + i) % q.queue.length := by
    intro i hi heq
    rw [q.wf.tail_eq] at heq
    have := ring_offset_inj hroom (by omega) heq
    omega
  have htail : q.tail < q.queue.length := by
    rw [q.wf.tail_eq]
    exact Nat.mod_lt _ (by omega)
  rw [contents_succ (by rw [length_set]; exact hpos), length_set, ← q.wf.tail_eq,
    slotAt_set_self htail, contents_set hpos hother]
  rfl

/-- A `push` fails exactly when the queue is full, and gives the argument back. -/
theorem push_eq_error {data x : α} (h : q.push data = .error x) :
    q.len = q.queueSize ∧ x = data := by
  unfold push at h
  split at h
  · next heq => exact ⟨heq.symm, (Except.error.inj h).symm⟩
  · cases h

theorem exists_push_eq_ok (h : q.len < q.queueSize) (data : α) :
    ∃ q', q.push data = .ok q' := by
  have hne : q.queue.length ≠ q.len := Nat.ne_of_gt h
  unfold push
  rw [dif_neg hne]
  exact ⟨_, rfl⟩

theorem pop_of_nil (h : q.toList = []) : q.pop = (none, q) := by
  have hlen : q.len = 0 := by
    rw [← q.length_toList, h]
    rfl
  unfold pop
  rw [dif_pos hlen]

/-- **`pop` takes the first element.** -/
theorem pop_of_cons {x : α} {xs : List α} (h : q.toList = x :: xs) :
    q.pop.1 = some x ∧ q.pop.2.toList = xs ∧ q.pop.2.queueSize = q.queueSize := by
  have hlen : q.len = xs.length + 1 := by
    rw [← q.length_toList, h]
    rfl
  have hle := q.wf.len_le
  have hhead := q.wf.head_lt
  have hpos : q.head < q.queue.length := by omega
  have hfirst : (slotAt q.queue q.head).isSome := by
    have := q.wf.occupied 0 (by omega)
    rw [Nat.add_zero, Nat.mod_eq_of_lt hpos] at this
    rw [this]
    simp [hlen]
  obtain ⟨y, hy⟩ := isSome_iff_exists.mp hfirst
  -- the list starts with the slot at the head
  have hsplit : y :: contents q.queue xs.length (ringNext q.queue.length q.head) = x :: xs := by
    rw [← h, toList, hlen, contents, hy]
    rfl
  obtain ⟨rfl, hrest⟩ := cons.inj hsplit
  have hother : ∀ i < xs.length,
      q.head ≠ (ringNext q.queue.length q.head + i) % q.queue.length := by
    intro i hi heq
    rw [ringNext_add_mod hpos] at heq
    have h0 : (q.head + 0) % q.queue.length = (q.head + (i + 1)) % q.queue.length := by
      rw [Nat.add_zero, Nat.mod_eq_of_lt hpos]
      exact heq
    have := ring_offset_inj (by omega) (by omega) h0
    omega
  unfold pop
  rw [dif_neg (by omega)]
  refine ⟨hy, ?_, length_set⟩
  show contents (q.queue.set q.head none) (q.len - 1) (ringNext q.queue.length q.head) = xs
  rw [hlen, Nat.add_sub_cancel, contents_set (ringNext_lt hpos) hother]
  exact hrest

theorem queueSize_pop (q : RingQ α) : q.pop.2.queueSize = q.queueSize := by
  cases h : q.toList with
  | nil => rw [pop_of_nil h]
  | cons x xs => exact (pop_of_cons h).2.2

theorem toList_pop (q : RingQ α) : q.pop.1 = q.toList.head? ∧ q.pop.2.toList = q.toList.tail := by
  cases h : q.toList with
  | nil => rw [pop_of_nil h]; exact ⟨rfl, h⟩
  | cons x xs => exact ⟨(pop_of_cons h).1, (pop_of_cons h).2.1⟩

theorem front_eq (h : 0 < q.queueSize) : q.front = some q.toList.head? := by
  have hhead := q.wf.head_lt
  have hsize : 0 < q.queue.length := h
  have hpos : q.head < q.queue.length := by omega
  have hocc := q.wf.occupied 0 hsize
  rw [Nat.add_zero, Nat.mod_eq_of_lt hpos] at hocc
  have hslot : slotAt q.queue q.head = q.toList.head? := by
    cases hl : q.len with
    | zero =>
      rw [hl] at hocc
      have : slotAt q.queue q.head = none := by simpa using hocc
      rw [this, toList, hl]
      rfl
    | succ len =>
      rw [hl] at hocc
      obtain ⟨y, hy⟩ := isSome_iff_exists.mp (by simpa using hocc)
      rw [toList, hl, contents, hy]
      rfl
  unfold front
  rw [← hslot, slotAt, getElem?_eq_getElem hpos, join_some]

/-- Remove elements from the front while `p` holds; the first argument bounds the rounds.
`none` is the panic of `head()`. -/
def popWhile (p : α → Bool) : Nat → RingQ α → Option (RingQ α)
  | 0, q => some q
  | rounds + 1, q =>
    match q.front with
    | none => none
    | some none => some q
    | some (some head) => if p head then popWhile p rounds q.pop.2 else some q

/-- The loop ends with the first element for which `p` does not hold. -/
theorem popWhile_spec (p : α → Bool) :
    ∀ {rounds : Nat} {q : RingQ α}, 0 < q.queueSize → q.len < rounds →
      ∃ q', popWhile p rounds q = some q' ∧ q'.toList = q.toList.dropWhile p ∧
        q'.queueSize = q.queueSize := by
  intro rounds
  induction rounds with
  | zero => exact fun _ hlen => absurd hlen (Nat.not_lt_zero _)
  | succ rounds ih =>
    intro q hsize hlen
    unfold popWhile
    rw [front_eq hsize]
    cases hl : q.toList with
    | nil => exact ⟨q, rfl, hl, rfl⟩
    | cons head rest =>
      dsimp only [head?_cons]
      by_cases hp : p head = true
      · obtain ⟨-, htail, hsize'⟩ := pop_of_cons hl
        have hlen' : q.pop.2.len < rounds := by
          have h₁ := q.length_toList
          have h₂ := q.pop.2.length_toList
          rw [hl, length_cons] at h₁
          rw [htail] at h₂
          omega
        obtain ⟨q', hloop, hitems, hsame⟩ := ih (by rw [hsize']; exact hsize) hlen'
        rw [if_pos hp, dropWhile_cons_of_pos hp]
        exact ⟨q', hloop, by rw [hitems, htail], hsame.trans hsize'⟩
      · rw [if_neg hp, dropWhile_cons_of_neg hp]
        exact ⟨q, rfl, hl, rfl⟩

/-! ### The bounded FIFO -/

/-- `RingQ::is_empty`. -/
def isEmpty (q : RingQ α) : Bool := q.len == 0

inductive Call (α : Type*)
  | push (data : α)
  | pop
  | iter

/-- What a call returns. -/
inductive Reply (α : Type*)
  | pushed (result : Except α Unit)
  | popped (result : Option α)
  | items (items : Option (List α))

def call (q : RingQ α) : Call α → Reply α × RingQ α
  | .push data =>
    match q.push data with
    | .ok q' => (.pushed (.ok ()), q')
    | .error data => (.pushed (.error data), q)
  | .pop => (.popped q.pop.1, q.pop.2)
  | .iter => (.items q.iter, q)

/-- The same call on a list with room for `n` elements. -/
def listCall (n : Nat) (xs : List α) : Call α → Reply α × List α
  | .push data =>
    if xs.length < n then (.pushed (.ok ()), xs ++ [data]) else (.pushed (.error data), xs)
  | .pop => (.popped xs.head?, xs.tail)
  | .iter => (.items (some xs), xs)

/-- The replies to a list of calls, and the state after them. -/
def replies {S A R : Type*} (call : S → A → R × S) : S → List A → List R × S
  | s, [] => ([], s)
  | s, a :: as =>
    let (r, s) := call s a
    let (rs, s) := replies call s as
    (r :: rs, s)

/-- One call on the queue is the call on its list. -/
theorem call_spec (q : RingQ α) (c : Call α) : (q.call c).1 = (listCall q.queueSize q.toList c).1 ∧
      (q.call c).2.toList = (listCall q.queueSize q.toList c).2 ∧
      (q.call c).2.queueSize = q.queueSize := by
  cases c with
  | pop => exact ⟨congrArg _ q.toList_pop.1, q.toList_pop.2, q.queueSize_pop⟩
  | iter => exact ⟨congrArg _ q.iter_eq, rfl, rfl⟩
  | push data =>
    unfold call listCall
    dsimp only
    rw [length_toList]
    cases hpush : q.push data with
    | ok q' =>
      obtain ⟨hroom, hitems, hsize⟩ := push_eq_ok hpush
      rw [if_pos hroom]
      exact ⟨rfl, hitems, hsize⟩
    | error x =>
      obtain ⟨hfull, rfl⟩ := push_eq_error hpush
      rw [if_neg hfull.not_lt]
      exact ⟨rfl, rfl, rfl⟩

theorem replies_spec (calls : List (Call α)) (q : RingQ α) :
    (replies call q calls).1 = (replies (listCall q.queueSize) q.toList calls).1 ∧
      (replies call q calls).2.toList = (replies (listCall q.queueSize) q.toList calls).2 ∧
      (replies call q calls).2.queueSize = q.queueSize := by
  induction calls generalizing q with
  | nil => exact ⟨rfl, rfl, rfl⟩
  | cons c calls ih =>
    obtain ⟨hreply, hitems, hsize⟩ := q.call_spec c
    obtain ⟨hreplies, hlast, hsame⟩ := ih (q.call c).2
    rw [hsize, hitems] at hreplies hlast
    exact ⟨congrArg₂ cons hreply hreplies, hlast, hsame.trans hsize⟩

/-- **The ring queue refines a list with room for `n` elements**: every sequence of calls is
answered as by the list, the sizes agree, and the slots that `push` and `pop` index exist. An
index of `iter` that is out of range, or its `unreachable!()`, would be the reply `items none`,
which the list never gives. -/
theorem refines_boundedList (n : Nat) (calls : List (Call α)) :
    let q := (replies call (new n : RingQ α) calls).2
    let xs := (replies (listCall n) [] calls).2
    (replies call (new n) calls).1 = (replies (listCall n) [] calls).1 ∧ q.toList = xs ∧
      q.len = xs.length ∧ (q.isEmpty = true ↔ xs = []) ∧ q.isFull = decide (n ≤ xs.length) ∧
      (q.queue.length ≠ q.len → q.tail < q.queue.length) ∧
      (q.len ≠ 0 → q.head < q.queue.length) := by
  intro q xs
  obtain ⟨hreplies, hitems, hsize⟩ := replies_spec calls (new n : RingQ α)
  rw [queueSize_new] at hreplies hitems
  rw [queueSize_new] at hsize
  have hlen : q.len = xs.length := q.length_toList.symm.trans (congrArg length hitems)
  have hsize' : q.queue.length = n := hsize
  have hle := q.wf.len_le
  have hhead := q.wf.head_lt
  refine ⟨hreplies, hitems, hlen, ?_, ?_, fun hne => ?_, fun hne => by omega⟩
  · rw [isEmpty, hlen, beq_iff_eq, length_eq_zero_iff]
  · rw [isFull, hlen, hsize']
  · rw [q.wf.tail_eq]
    exact Nat.mod_lt _ (by omega)

end RingQ

end Awkernel
