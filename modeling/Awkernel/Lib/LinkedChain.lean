import Mathlib.Data.List.Basic

/-!
# Chains of linked cells

Cells that name a successor or none, as the links of a table do. A chain is the list of the cells
from its head to one without a successor.

* `IsChain.congr` — a chain stays one as long as the links of its own cells do.
* `collect` — the walk along a chain, with a bound on its length, that pushes the cells onto a list;
  `collect_eq` says that it ends and what it has pushed.
-/

namespace LinkedChain

variable {α : Type*} {succ succ' : α → Option α} {s t : α} {c : List α}

/-- The cells of a chain. -/
def IsChain (succ : α → Option α) : List α → Prop
  | [] => False
  | [s] => succ s = none
  | s :: t :: c => succ s = some t ∧ IsChain succ (t :: c)

theorem IsChain.congr (h : IsChain succ c) (hlinks : ∀ s ∈ c, succ' s = succ s) :
    IsChain succ' c := by
  induction c with
  | nil => exact h
  | cons s c ih =>
    cases c with
    | nil => exact (hlinks s List.mem_cons_self).trans h
    | cons t c =>
      refine ⟨(hlinks s List.mem_cons_self).trans h.1, ih h.2 fun s' hmem => ?_⟩
      exact hlinks s' (List.mem_cons_of_mem _ hmem)

/-- Walk along the links from `s`, for at most `fuel` cells, and push every cell. -/
def collect (succ : α → Option α) : (fuel : Nat) → (s : α) → (acc : List α) → Option (List α)
  | 0, _, _ => none
  | fuel + 1, s, acc =>
    match succ s with
    | some t => collect succ fuel t (s :: acc)
    | none => some (s :: acc)

/-- **The walk ends**, and has pushed the cells of the chain. -/
theorem collect_eq {fuel : Nat} {acc : List α} (h : IsChain succ (s :: c))
    (hlength : c.length < fuel) :
    collect succ fuel s acc = some ((s :: c).reverse ++ acc) := by
  induction c generalizing s fuel acc with
  | nil =>
    obtain ⟨fuel, rfl⟩ := Nat.exists_eq_add_one.mpr hlength
    rw [collect, h]
    rfl
  | cons t c ih =>
    obtain ⟨fuel, rfl⟩ := Nat.exists_eq_add_one.mpr (Nat.zero_lt_of_lt hlength)
    rw [collect, h.1]
    dsimp only
    rw [ih h.2 (Nat.lt_of_succ_lt_succ hlength), List.reverse_cons (a := s), List.append_assoc]
    rfl

end LinkedChain
