import Mathlib.Algebra.BigOperators.Group.Finset.Piecewise

/-!
# How many agents are in a state

Finitely many agents, each in a state `f i`, and a test on states. `count` is the number of agents
whose state passes the test. When one agent changes its state, the count changes by what the test
says of its old and its new state (`count_update`); an agent that fails the test can come and go.
-/

namespace Census

open Function Finset

variable {ι α : Type*} {s : Finset ι} {p : α → Bool} {f : ι → α} {i : ι}

/-- The number of agents in `s` whose state passes the test. -/
def count (s : Finset ι) (p : α → Bool) (f : ι → α) : Nat := (s.filter fun i => p (f i) = true).card

theorem count_eq_sum (s : Finset ι) (p : α → Bool) (f : ι → α) :
    count s p f = ∑ i ∈ s, (p (f i)).toNat := by
  unfold count
  rw [card_filter]
  refine sum_congr rfl fun i _ => ?_
  cases p (f i) <;> rfl

theorem count_pos : 0 < count s p f ↔ ∃ i ∈ s, p (f i) = true := by
  unfold count
  rw [card_pos]
  exact ⟨fun ⟨i, hi⟩ => ⟨i, mem_filter.mp hi⟩, fun ⟨i, hs, hi⟩ => ⟨i, mem_filter.mpr ⟨hs, hi⟩⟩⟩

theorem count_eq_zero : count s p f = 0 ↔ ∀ i ∈ s, p (f i) = false := by
  rw [← Nat.le_zero, ← Nat.not_lt, count_pos]
  push Not
  exact forall₂_congr fun i _ => Bool.not_eq_true _ ▸ Iff.rfl

variable [DecidableEq ι]

theorem count_update (p : α → Bool) (f : ι → α) (hi : i ∈ s) (b : α) :
    count s p (update f i b) + (p (f i)).toNat = count s p f + (p b).toNat := by
  have hrest : ∑ j ∈ s.erase i, (p (update f i b j)).toNat = ∑ j ∈ s.erase i, (p (f j)).toNat := by
    refine sum_congr rfl fun j hj => ?_
    rw [update_of_ne (ne_of_mem_erase hj)]
  rw [count_eq_sum, count_eq_sum, ← add_sum_erase _ _ hi,
    ← add_sum_erase _ (fun j => (p (f j)).toNat) hi, hrest, update_self]
  omega

theorem count_update_of_notMem (p : α → Bool) (f : ι → α) (hi : i ∉ s) (b : α) :
    count s p (update f i b) = count s p f := by
  unfold count
  congr 1
  refine filter_congr fun j hj => ?_
  rw [update_of_ne]
  rintro rfl
  exact hi hj

theorem count_insert_of_false (h : p (f i) = false) : count (insert i s) p f = count s p f := by
  unfold count
  rw [filter_insert, if_neg (by rw [h]; exact Bool.false_ne_true)]

theorem count_erase_of_false (h : p (f i) = false) : count (s.erase i) p f = count s p f := by
  unfold count
  rw [filter_erase, erase_eq_of_notMem]
  intro hmem
  cases h.symm.trans (mem_filter.mp hmem).2

end Census
