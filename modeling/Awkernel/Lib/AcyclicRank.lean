import Mathlib.Data.Fintype.Card

/-!
# The rank of an element of a finite relation without cycles

`rank r v` counts the elements from which `v` is reached. Along an edge it grows, because the
source of the edge is not reached from itself, and it is less than the number of elements. So a
quantity that changes by at most `c` along each edge changes by at most `c` times the number of
elements along a path, whatever the path is.
-/

open Relation Finset

namespace AcyclicRank

variable {α : Type*} [Fintype α] {r : α → α → Prop}

open Classical in
/-- The number of elements from which `v` is reached. -/
noncomputable def rank (r : α → α → Prop) (v : α) : ℕ :=
  (univ.filter fun u => TransGen r u v).card

/-- **The rank grows along an edge.** -/
theorem rank_lt_rank (hacyclic : ∀ a, ¬ TransGen r a a) {u v : α} (huv : r u v) :
    rank r u < rank r v := by
  classical
  refine Finset.card_lt_card (Finset.ssubset_iff_subset_ne.mpr ⟨fun w hw => ?_, fun heq => ?_⟩)
  · have hwu : TransGen r w u := (Finset.mem_filter.mp hw).2
    exact mem_filter.mpr ⟨mem_univ w, hwu.tail huv⟩
  -- `u` is counted for `v` and not for itself
  have hu : u ∈ univ.filter fun w => TransGen r w v :=
    mem_filter.mpr ⟨mem_univ u, .single huv⟩
  rw [← heq] at hu
  exact hacyclic u (mem_filter.mp hu).2

theorem rank_lt_card (hacyclic : ∀ a, ¬ TransGen r a a) (v : α) : rank r v < Fintype.card α := by
  classical
  refine card_lt_univ_of_notMem (x := v) fun hv => ?_
  exact hacyclic v (mem_filter.mp hv).2

end AcyclicRank
