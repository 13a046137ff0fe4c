import Mathlib.Data.Finset.Card

/-!
# Reference counts

A map from keys to positive numbers, where a key without references has no entry (`Counts`), and
the two ways to change it: `retain` adds a reference and `release` takes one away.

What is counted is a finite set with a key for each element: `fiber f s k` is the number of elements
of `s` whose key is `k`. An element that comes or goes changes the count of its key by one.
-/

namespace RefCounts

open Finset Function

variable {κ α : Type*} [DecidableEq κ]

/-- The entry of a key with `n` references. -/
def entry (n : Nat) : Option Nat := if n = 0 then none else some n

/-- The map holds the numbers `n`. -/
def Counts (c : κ → Option Nat) (n : κ → Nat) : Prop := ∀ k, c k = entry (n k)

def retain (c : κ → Option Nat) (k : κ) : κ → Option Nat :=
  update c k (some ((c k).getD 0 + 1))

def release (c : κ → Option Nat) (k : κ) : κ → Option Nat :=
  update c k (entry ((c k).getD 0 - 1))

theorem getD_entry (n : Nat) : (entry n).getD 0 = n := by
  unfold entry
  split
  · next h => exact h.symm
  · rfl

theorem entry_succ (n : Nat) : entry (n + 1) = some (n + 1) := if_neg n.succ_ne_zero

theorem entry_eq_none {n : Nat} : entry n = none ↔ n = 0 := by
  unfold entry
  split
  · next h => exact iff_of_true rfl h
  · next h => exact iff_of_false nofun h

theorem entry_eq_some {n m : Nat} : entry n = some m ↔ n = m ∧ 0 < m := by
  unfold entry
  split
  · next h => exact iff_of_false nofun fun h' => by omega
  rw [Option.some_inj]
  exact ⟨fun h' => ⟨h', by omega⟩, fun h' => h'.1⟩

namespace Counts

variable {c : κ → Option Nat} {n : κ → Nat} (h : Counts c n)
include h

theorem retain (k : κ) : Counts (retain c k) (update n k (n k + 1)) := by
  intro x
  rcases eq_or_ne x k with rfl | hx
  · rw [RefCounts.retain, update_self, update_self, entry_succ, h x, getD_entry]
  · rw [RefCounts.retain, update_of_ne hx, update_of_ne hx]
    exact h x

theorem release (k : κ) : Counts (release c k) (update n k (n k - 1)) := by
  intro x
  rcases eq_or_ne x k with rfl | hx
  · rw [RefCounts.release, update_self, update_self, h x, getD_entry]
  · rw [RefCounts.release, update_of_ne hx, update_of_ne hx]
    exact h x

theorem release_retain (k : κ) : RefCounts.release (RefCounts.retain c k) k = c := by
  unfold RefCounts.release RefCounts.retain
  rw [update_idem, update_self, Option.getD_some, Nat.add_sub_cancel, h k,
    getD_entry, ← h k, update_eq_self]

omit [DecidableEq κ] in
theorem eq_none_iff {k : κ} : c k = none ↔ n k = 0 := by
  rw [h k, entry_eq_none]

omit [DecidableEq κ] in
theorem eq_some_iff {k : κ} {m : Nat} : c k = some m ↔ n k = m ∧ 0 < m := by
  rw [h k, entry_eq_some]

end Counts

/-! ### What is counted -/

/-- The number of elements with key `k`. -/
def fiber (f : α → κ) (s : Finset α) (k : κ) : Nat := (s.filter fun a => f a = k).card

variable {f : α → κ} {s : Finset α} {a : α}

theorem fiber_pos {k : κ} : 0 < fiber f s k ↔ ∃ a ∈ s, f a = k := by
  unfold fiber
  rw [card_pos]
  exact ⟨fun ⟨a, ha⟩ => ⟨a, (mem_filter.mp ha)⟩, fun ⟨a, ha, hk⟩ => ⟨a, mem_filter.mpr ⟨ha, hk⟩⟩⟩

variable [DecidableEq α]

theorem fiber_insert (h : a ∉ s) :
    fiber f (insert a s) = update (fiber f s) (f a) (fiber f s (f a) + 1) := by
  funext k
  unfold fiber
  rw [filter_insert]
  rcases eq_or_ne k (f a) with rfl | hk
  · rw [if_pos rfl, update_self, card_insert_of_notMem]
    exact fun hmem => h (mem_filter.mp hmem).1
  · rw [if_neg hk.symm, update_of_ne hk]

theorem fiber_erase (h : a ∈ s) :
    fiber f (s.erase a) = update (fiber f s) (f a) (fiber f s (f a) - 1) := by
  have hback := fiber_insert (f := f) (notMem_erase a s)
  rw [insert_erase h] at hback
  rw [hback, update_idem, update_self, Nat.add_sub_cancel, update_eq_self]

end RefCounts
