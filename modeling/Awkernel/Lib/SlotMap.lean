import Mathlib.Data.List.Perm.Basic

/-!
# Maps with slots

A map whose keys it chooses itself: the key of an entry is the number of its slot, a new entry goes
to the first vacant slot, and a slot is vacant again after its entry was removed.

`Owned p m l` says who answers for the entries: those of kind `p` are the ones in the list `l`, and
each is there once. Every operation has a rule for it, so that a program that passes keys around is
followed by what it does to the list, up to the order.
-/

/-- Slots, each with its entry if it has one. -/
abbrev SlotMap (α : Type*) := List (Option α)

namespace SlotMap

open List

variable {α : Type*} {m : SlotMap α} {x y : α} {h k : ℕ}

/-- The entry of a slot. -/
def get (m : SlotMap α) (h : ℕ) : Option α := m[h]?.join

/-- A new entry, in the first vacant slot. -/
def add (x : α) : SlotMap α → ℕ × SlotMap α
  | [] => (0, [some x])
  | none :: m => (0, some x :: m)
  | some y :: m => ((add x m).1 + 1, some y :: (add x m).2)

def replace (m : SlotMap α) (h : ℕ) (x : α) : SlotMap α := m.set h (some x)

def remove (m : SlotMap α) (h : ℕ) : SlotMap α := m.set h none

theorem get_add_fst (x : α) (m : SlotMap α) : get m (add x m).1 = none := by
  induction m with
  | nil => rfl
  | cons s m ih =>
    cases s with
    | none => rfl
    | some y => exact ih

theorem get_add_self (x : α) (m : SlotMap α) : get (add x m).2 (add x m).1 = some x := by
  induction m with
  | nil => rfl
  | cons s m ih =>
    cases s with
    | none => rfl
    | some y => exact ih

theorem get_add_of_ne (hne : h ≠ (add x m).1) : get (add x m).2 h = get m h := by
  induction m generalizing h with
  | nil =>
    cases h with
    | zero => exact absurd rfl hne
    | succ h => rfl
  | cons s m ih =>
    cases s with
    | none =>
      cases h with
      | zero => exact absurd rfl hne
      | succ h => rfl
    | some y =>
      cases h with
      | zero => rfl
      | succ h => exact ih fun heq => hne (congrArg (· + 1) heq)

theorem lt_length (hget : get m h = some x) : h < m.length := by
  by_contra hge
  rw [get, getElem?_eq_none (by omega)] at hget
  cases hget

theorem get_replace_self (hget : get m h = some y) : get (m.replace h x) h = some x := by
  rw [get, replace, getElem?_set_self (lt_length hget)]
  rfl

theorem get_replace_of_ne (hne : k ≠ h) : get (m.replace h x) k = get m k := by
  rw [get, replace, getElem?_set_ne hne.symm]
  rfl

theorem get_remove_self : get (m.remove h) h = none := by
  rw [get, remove, getElem?_set_self']
  cases m[h]? <;> rfl

theorem get_remove_of_ne (hne : k ≠ h) : get (m.remove h) k = get m k := by
  rw [get, remove, getElem?_set_ne hne.symm]
  rfl

/-! ### Who answers for the entries -/

/-- The entries of kind `p` are those in `l`, each once. -/
structure Owned (p : α → Prop) (m : SlotMap α) (l : List ℕ) : Prop where
  nodup : l.Nodup
  mem_iff : ∀ h, h ∈ l ↔ ∃ x, get m h = some x ∧ p x

namespace Owned

variable {p : α → Prop} {l l' : List ℕ}

section

variable (ho : Owned p m l)

include ho

theorem perm (hperm : l.Perm l') : Owned p m l' :=
  ⟨hperm.nodup_iff.mp ho.nodup, fun h => hperm.mem_iff.symm.trans (ho.mem_iff h)⟩

theorem add_notMem (x : α) : (add x m).1 ∉ l := by
  intro hmem
  obtain ⟨y, hy, -⟩ := (ho.mem_iff _).mp hmem
  rw [get_add_fst] at hy
  cases hy

theorem add (hp : p x) : Owned p (add x m).2 ((add x m).1 :: l) := by
  refine ⟨nodup_cons.mpr ⟨ho.add_notMem x, ho.nodup⟩, fun h => ?_⟩
  rw [mem_cons]
  rcases eq_or_ne h (SlotMap.add x m).1 with rfl | hne
  · exact iff_of_true (.inl rfl) ⟨x, get_add_self x m, hp⟩
  · rw [get_add_of_ne hne, or_iff_right hne, ho.mem_iff]

theorem add_other (hp : ¬p x) : Owned p (SlotMap.add x m).2 l := by
  refine ⟨ho.nodup, fun h => ?_⟩
  rcases eq_or_ne h (SlotMap.add x m).1 with rfl | hne
  · refine iff_of_false (ho.add_notMem x) ?_
    rintro ⟨y, hy, hpy⟩
    rw [get_add_self] at hy
    exact hp (Option.some.inj hy ▸ hpy)
  · rw [get_add_of_ne hne, ho.mem_iff]

theorem replace (hget : get m h = some y) (hpy : p y) (hp : p x) : Owned p (m.replace h x) l := by
  refine ⟨ho.nodup, fun k => ?_⟩
  rcases eq_or_ne k h with rfl | hne
  · exact iff_of_true ((ho.mem_iff k).mpr ⟨y, hget, hpy⟩) ⟨x, get_replace_self hget, hp⟩
  · rw [get_replace_of_ne hne, ho.mem_iff]

end

theorem remove (ho : Owned p m (h :: l)) : Owned p (m.remove h) l := by
  obtain ⟨hnew, hnodup⟩ := nodup_cons.mp ho.nodup
  refine ⟨hnodup, fun k => ?_⟩
  rcases eq_or_ne k h with rfl | hne
  · rw [get_remove_self]
    exact iff_of_false hnew (by rintro ⟨x, hx, -⟩; exact absurd hx nofun)
  · rw [get_remove_of_ne hne, ← ho.mem_iff, mem_cons, or_iff_right hne]

theorem remove_other (ho : Owned p m l) (hget : get m h = some y) (hpy : ¬p y) :
    Owned p (m.remove h) l := by
  refine ⟨ho.nodup, fun k => ?_⟩
  rcases eq_or_ne k h with rfl | hne
  · refine iff_of_false ?_ ?_
    · intro hmem
      obtain ⟨x, hx, hpx⟩ := (ho.mem_iff k).mp hmem
      exact hpy (Option.some.inj (hget.symm.trans hx) ▸ hpx)
    · rw [get_remove_self]
      rintro ⟨x, hx, -⟩
      cases hx
  · rw [get_remove_of_ne hne, ho.mem_iff]

/-- An owner that is forgotten with entries in its hands leaves them behind. -/
theorem eq_nil_of_forget {gone : List ℕ} (ho : Owned p m (gone ++ l)) (ho' : Owned p m l) :
    gone = [] := by
  refine eq_nil_iff_forall_not_mem.mpr fun h hgone => ?_
  have hmem : h ∈ l :=
    (ho'.mem_iff h).mpr ((ho.mem_iff h).mp (mem_append_left _ hgone))
  obtain ⟨-, -, hdisjoint⟩ := nodup_append.mp ho.nodup
  exact hdisjoint h hgone h hmem rfl

end Owned

end SlotMap
