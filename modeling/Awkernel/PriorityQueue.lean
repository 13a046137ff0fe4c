import Mathlib.Data.List.FinRange
import Mathlib.Tactic.NormNum

/-!
# The multilevel run queue

`awkernel_lib/src/priority_queue.rs`: 32 FIFO lists and a bit mask `has_entry` that
says which of them are non-empty. `pop` finds the level to serve by counting the
leading zeros of the mask.

The mask and the lists agree in every queue the code can build, so the agreement is
a field of the structure and `push` and `pop` carry it. It is what makes the
assertion in `pop` unreachable: `pop_eq_none_iff` says that `pop` fails to return an
element exactly when nothing is stored.

`entries` lists the elements in the order in which `pop` serves them, and the queue
is specified by its effect on that list (`pop_entries`, `entries_push_perm`).
-/

namespace Awkernel

open List Function

/-- `HIGHEST_PRIORITY`. -/
def highestPriority : Nat := 31

/-- `u32::leading_zeros`. -/
def leadingZeros (x : Nat) : Nat := if x = 0 then 32 else 31 - x.log2

/-- `PriorityQueue<T>`. -/
structure PriorityQueue (α : Type) where
  queue : Fin 32 → List α
  hasEntry : Nat
  hasEntry_lt : hasEntry < 2 ^ 32
  /-- Bit `i` of the mask is set exactly when level `i` is non-empty. -/
  testBit_hasEntry : ∀ i : Fin 32, hasEntry.testBit i = !(queue i).isEmpty

namespace PriorityQueue

variable {α : Type}

/-- `PriorityQueue::new`. -/
def new : PriorityQueue α where
  queue _ := []
  hasEntry := 0
  hasEntry_lt := by decide
  testBit_hasEntry i := by simp

/-- The level `push` stores a value at: `priority.min(HIGHEST_PRIORITY)`. -/
def level (priority : UInt8) : Fin 32 :=
  ⟨min priority.toNat highestPriority, by unfold highestPriority; omega⟩

theorem val_level (priority : UInt8) :
    (level priority : Nat) = min priority.toNat highestPriority := rfl

/-- `PriorityQueue::push`. -/
def push (q : PriorityQueue α) (priority : UInt8) (val : α) : PriorityQueue α where
  queue := update q.queue (level priority) (q.queue (level priority) ++ [val])
  hasEntry := q.hasEntry ||| 1 <<< (level priority : Nat)
  hasEntry_lt := by
    refine Nat.or_lt_two_pow q.hasEntry_lt ?_
    rw [Nat.one_shiftLeft]
    exact Nat.pow_lt_pow_right (by decide) (level priority).isLt
  testBit_hasEntry i := by
    rw [Nat.testBit_or, q.testBit_hasEntry, Nat.one_shiftLeft]
    by_cases h : i = level priority
    · subst h; simp
    · have hne : ¬ (level priority : Nat) = (i : Nat) := fun hv => h (Fin.ext hv.symm)
      simp [update_of_ne h, hne]

theorem log2_lt_of_ne_zero {x : Nat} (h0 : x ≠ 0) (hlt : x < 2 ^ 32) : x.log2 < 32 :=
  (Nat.log2_lt h0).mpr hlt

/-- The level `pop` serves: `(u32::BITS - 1) - has_entry.leading_zeros()`. -/
def nextPriority (q : PriorityQueue α) : Fin 32 :=
  ⟨31 - leadingZeros q.hasEntry, by omega⟩

theorem nextPriority_val (q : PriorityQueue α) (h0 : q.hasEntry ≠ 0) :
    (q.nextPriority : Nat) = q.hasEntry.log2 := by
  have hlt := log2_lt_of_ne_zero h0 q.hasEntry_lt
  simp only [nextPriority, leadingZeros, if_neg h0]
  omega

/-- Taking the head of level `p` keeps the mask and the lists in agreement. -/
theorem testBit_take (q : PriorityQueue α) (p : Fin 32) (v : α) (rest : List α)
    (hq : q.queue p = v :: rest) (i : Fin 32) :
    (if rest.isEmpty then q.hasEntry &&& ((2 ^ 32 - 1) ^^^ (1 <<< (p : Nat)))
      else q.hasEntry).testBit i = !(update q.queue p rest i).isEmpty := by
  have hmask : ((2 ^ 32 - 1) ^^^ (1 <<< (p : Nat))).testBit i = !decide (i = p) := by
    rw [Nat.testBit_xor, Nat.one_shiftLeft, Nat.testBit_two_pow, Nat.testBit_two_pow_sub_one]
    simp [Fin.ext_iff, eq_comm]
  by_cases h : i = p
  · subst h
    cases hr : rest.isEmpty
    · simp [q.testBit_hasEntry, hq, hr]
    · rw [if_pos rfl, Nat.testBit_and, hmask]
      simp [hr]
  · rw [update_of_ne h, ← q.testBit_hasEntry]
    split
    · rw [Nat.testBit_and, hmask]
      simp [h]
    · rfl

/-- `PriorityQueue::pop`. -/
def pop (q : PriorityQueue α) : Option (α × PriorityQueue α) :=
  if q.hasEntry = 0 then none
  else
    match hq : q.queue q.nextPriority with
    | [] => none -- `assert!(next.is_some())`
    | v :: rest =>
      some (v,
        { queue := update q.queue q.nextPriority rest
          hasEntry :=
            if rest.isEmpty then
              q.hasEntry &&& ((2 ^ 32 - 1) ^^^ (1 <<< (q.nextPriority : Nat)))
            else q.hasEntry
          hasEntry_lt := by
            split
            · exact lt_of_le_of_lt Nat.and_le_left q.hasEntry_lt
            · exact q.hasEntry_lt
          testBit_hasEntry := q.testBit_take _ v rest hq })

/-! ### The order of service -/

/-- The stored elements in the order in which `pop` serves them. -/
def entries (q : PriorityQueue α) : List α :=
  (finRange 32).reverse.flatMap q.queue

/-- The levels split around `p` into the higher ones and the lower ones. -/
theorem levels_split (p : Fin 32) : ∃ hi lo : List (Fin 32), (finRange 32).reverse = hi ++ p :: lo ∧
      (∀ i ∈ hi, p < i) ∧ (∀ i ∈ lo, i < p) := by
  have hmem : p ∈ (finRange 32).reverse := by simp
  obtain ⟨hi, lo, hsplit⟩ := append_of_mem hmem
  have hsorted : (finRange 32).reverse.Pairwise (· > ·) :=
    pairwise_reverse.mpr (pairwise_lt_finRange 32)
  rw [hsplit, pairwise_append] at hsorted
  refine ⟨hi, lo, hsplit, fun i hi' => ?_, fun i hlo => ?_⟩
  · exact hsorted.2.2 i hi' p mem_cons_self
  · exact (pairwise_cons.mp hsorted.2.1).1 i hlo

theorem flatMap_update_of_notMem {f : Fin 32 → List α} {p : Fin 32} {v : List α}
    {l : List (Fin 32)} (h : p ∉ l) : l.flatMap (update f p v) = l.flatMap f := by
  simp only [flatMap]
  congr 1
  refine map_congr_left fun i hi => update_of_ne ?_ _ _
  rintro rfl
  exact h hi

section

variable (q : PriorityQueue α)

theorem hasEntry_eq_zero_iff : q.hasEntry = 0 ↔ q.entries = [] := by
  constructor
  · intro h0
    have hnil : ∀ i, q.queue i = [] := fun i => by
      have hb := q.testBit_hasEntry i
      rw [h0] at hb
      simpa using hb.symm
    simp [entries, hnil]
  · intro hnil
    by_contra h0
    have hlt := log2_lt_of_ne_zero h0 q.hasEntry_lt
    have hb := q.testBit_hasEntry ⟨q.hasEntry.log2, hlt⟩
    rw [Nat.testBit_log2 h0] at hb
    have hq : q.queue ⟨q.hasEntry.log2, hlt⟩ = [] :=
      flatMap_eq_nil_iff.mp hnil _ (by simp)
    simp [hq] at hb

theorem queue_eq_nil_of_nextPriority_lt (h0 : q.hasEntry ≠ 0)
    {i : Fin 32} (hi : q.nextPriority < i) : q.queue i = [] := by
  have hlt : q.hasEntry < 2 ^ (i : Nat) := by
    refine (Nat.log2_lt h0).mp ?_
    rw [← q.nextPriority_val h0]
    exact hi
  have hb := q.testBit_hasEntry i
  rw [Nat.testBit_lt_two_pow hlt] at hb
  simpa using hb.symm

theorem queue_nextPriority_ne_nil (h0 : q.hasEntry ≠ 0) :
    q.queue q.nextPriority ≠ [] := by
  intro hnil
  have hb := q.testBit_hasEntry q.nextPriority
  rw [q.nextPriority_val h0, Nat.testBit_log2 h0, hnil] at hb
  simp at hb

theorem pop_eq_none_iff : q.pop = none ↔ q.entries = [] := by
  rw [← hasEntry_eq_zero_iff]
  unfold pop
  split
  · next h0 => simp [h0]
  rename_i h0
  split
  · next hq => exact absurd hq (q.queue_nextPriority_ne_nil h0)
  · simp [h0]

end

theorem pop_entries {q q' : PriorityQueue α} {v : α} (h : q.pop = some (v, q')) :
    q.entries = v :: q'.entries := by
  unfold pop at h
  split at h
  · cases h
  rename_i h0
  split at h
  · cases h
  rename_i rest hq
  obtain ⟨rfl, rfl⟩ := h
  obtain ⟨hi, lo, hsplit, hhi, hlo⟩ := levels_split q.nextPriority
  have hempty : hi.flatMap q.queue = [] :=
    flatMap_eq_nil_iff.mpr fun i him =>
      q.queue_eq_nil_of_nextPriority_lt h0 (hhi i him)
  have hhi' : q.nextPriority ∉ hi := fun hm => lt_irrefl _ (hhi _ hm)
  have hlo' : q.nextPriority ∉ lo := fun hm => lt_irrefl _ (hlo _ hm)
  simp only [entries, hsplit, flatMap_append, flatMap_cons, hempty, hq,
    flatMap_update_of_notMem hhi', flatMap_update_of_notMem hlo', update_self,
    nil_append, cons_append]

theorem entries_push_perm (q : PriorityQueue α) (priority : UInt8) (val : α) :
    (q.push priority val).entries.Perm (val :: q.entries) := by
  obtain ⟨hi, lo, hsplit, hhi, hlo⟩ := levels_split (level priority)
  have hhi' : level priority ∉ hi := fun hm => lt_irrefl _ (hhi _ hm)
  have hlo' : level priority ∉ lo := fun hm => lt_irrefl _ (hlo _ hm)
  simp only [entries, push, hsplit, flatMap_append, flatMap_cons,
    flatMap_update_of_notMem hhi', flatMap_update_of_notMem hlo', update_self]
  rw [append_assoc, singleton_append, ← append_assoc, ← append_assoc]
  exact perm_middle

/-! ### Histories -/

/-- A call, with the priority and the value of a `push`. -/
inductive Call (α : Type)
  | push (priority : UInt8) (val : α)
  | pop

/-- No stored entry has a higher level. -/
def isNext (stored : List (UInt8 × α)) (x : UInt8 × α) : Bool :=
  stored.all fun y => level y.1 ≤ level x.1

/-- A call, on the queue and on the list of the stored entries in the order of their `push`. -/
def step : PriorityQueue α × List (UInt8 × α) → Call α → PriorityQueue α × List (UInt8 × α)
  | (q, stored), .push priority val => (q.push priority val, stored ++ [(priority, val)])
  | (q, stored), .pop => ((q.pop.map Prod.snd).getD q, stored.eraseP (isNext stored))

/-- The levels are the stored entries, by level. -/
def Holds (q : PriorityQueue α) (stored : List (UInt8 × α)) : Prop :=
  ∀ i, q.queue i = (stored.filter (level ·.1 = i)).map Prod.snd

variable {q q' : PriorityQueue α} {stored : List (UInt8 × α)}

theorem Holds.mem_queue (h : q.Holds stored) {x : UInt8 × α} (hx : x ∈ stored) :
    x.2 ∈ q.queue (level x.1) := by
  rw [h]
  exact mem_map_of_mem (mem_filter.mpr ⟨hx, decide_eq_true rfl⟩)

theorem Holds.pop_eq_none_iff (h : q.Holds stored) : q.pop = none ↔ stored = [] := by
  rw [PriorityQueue.pop_eq_none_iff, entries, flatMap_eq_nil_iff]
  constructor
  · refine fun hnil => eq_nil_iff_forall_not_mem.mpr fun x hx => ?_
    have hmem := h.mem_queue hx
    rw [hnil _ (by simp)] at hmem
    cases hmem
  · rintro rfl i -
    rw [h]
    rfl

/-- `pop` takes the first entry of the highest level. -/
theorem Holds.pop {v : α} (h : q.Holds stored) (hpop : q.pop = some (v, q')) :
    ∃ x, stored.find? (isNext stored) = some x ∧ x.2 = v ∧
      q'.Holds (stored.eraseP (isNext stored)) := by
  unfold PriorityQueue.pop at hpop
  obtain ⟨h0, hpop⟩ := Option.ite_none_left_eq_some.mp hpop
  split at hpop
  · cases hpop
  rename_i rest hq
  obtain ⟨rfl, rfl⟩ := hpop
  have hle : ∀ y ∈ stored, level y.1 ≤ q.nextPriority := fun y hy => by
    by_contra hlt
    have hmem := h.mem_queue hy
    rw [q.queue_eq_nil_of_nextPriority_lt h0 (lt_of_not_ge hlt)] at hmem
    cases hmem
  rw [h, map_eq_cons_iff] at hq
  obtain ⟨x, l, hfilter, rfl, rfl⟩ := hq
  obtain ⟨as, bs, rfl, has, hx, rfl⟩ := filter_eq_cons_iff.mp hfilter
  have hx : level x.1 = q.nextPriority := of_decide_eq_true hx
  have hnext : isNext (as ++ x :: bs) x = true :=
    all_eq_true.mpr fun y hy => decide_eq_true (hx ▸ hle y hy)
  have hnot : ∀ y ∈ as, ¬ isNext (as ++ x :: bs) y = true := fun y hy hall => by
    have hge := of_decide_eq_true (all_eq_true.mp hall x (by simp))
    refine has y hy (decide_eq_true (le_antisymm (hle y (mem_append_left _ hy)) (hx ▸ hge)))
  refine ⟨x, find?_eq_some_iff_append.mpr ⟨hnext, as, bs, rfl, by simpa using hnot⟩, rfl, ?_⟩
  rw [eraseP_append_right _ hnot, eraseP_cons_of_pos hnext]
  intro i
  by_cases hi : i = q.nextPriority
  · subst hi
    rw [filter_append, filter_eq_nil_iff.mpr has]
    exact update_self ..
  · have hne : level x.1 ≠ i := fun heq => hi (heq.symm.trans hx)
    refine (update_of_ne hi ..).trans ((h i).trans ?_)
    simp [hne]

theorem Holds.step {σ : PriorityQueue α × List (UInt8 × α)} (h : σ.1.Holds σ.2) (c : Call α) :
    (step σ c).1.Holds (step σ c).2 := by
  obtain ⟨q, stored⟩ := σ
  cases c with
  | push priority val =>
    intro i
    change update q.queue _ _ i = map _ (filter _ (stored ++ [(priority, val)]))
    rw [filter_append, map_append, ← h i]
    by_cases hi : i = level priority
    · subst hi
      simp
    · simp [hi, Ne.symm hi]
  | pop =>
    change Holds ((q.pop.map Prod.snd).getD q) (stored.eraseP (isNext stored))
    cases hpop : q.pop with
    | none =>
      have hnil : stored = [] := h.pop_eq_none_iff.mp hpop
      subst hnil
      exact h
    | some r =>
      obtain ⟨x, -, -, hq⟩ := h.pop hpop
      exact hq

/-- **The run queue.** After every sequence of calls: bit `i` of the mask is set exactly if level
`i` is not empty, the assertion of `pop` holds, and `pop` returns the entry that was pushed first
among those with the highest level, and none exactly if nothing is stored. -/
theorem pop_first_of_highest (calls : List (Call α)) :
    let (q, stored) := calls.foldl step (new, [])
    (∀ i : Fin 32, q.hasEntry.testBit i = true ↔ q.queue i ≠ []) ∧
    (q.hasEntry ≠ 0 → q.queue q.nextPriority ≠ []) ∧
    q.pop.map Prod.fst = (stored.find? (isNext stored)).map Prod.snd ∧
    (q.pop = none ↔ stored = []) := by
  have hrun : ∀ σ : PriorityQueue α × List (UInt8 × α), σ.1.Holds σ.2 →
      (calls.foldl step σ).1.Holds (calls.foldl step σ).2 := by
    induction calls with
    | nil => exact fun _ h => h
    | cons c calls ih => exact fun σ h => ih _ (h.step c)
  have h := hrun (new, []) fun _ => rfl
  generalize calls.foldl step (new, []) = σ at h
  refine ⟨fun i => ?_, σ.1.queue_nextPriority_ne_nil, ?_, h.pop_eq_none_iff⟩
  · rw [σ.1.testBit_hasEntry]
    simp
  · cases hpop : σ.1.pop with
    | none =>
      rw [h.pop_eq_none_iff.mp hpop]
      rfl
    | some r =>
      obtain ⟨x, hfind, hx, -⟩ := h.pop hpop
      rw [hfind]
      exact congrArg some hx.symm

end PriorityQueue

end Awkernel
