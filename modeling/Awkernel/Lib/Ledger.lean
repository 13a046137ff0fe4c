import Mathlib.Algebra.BigOperators.Fin
import Mathlib.Algebra.Order.BigOperators.Group.Multiset

/-!
# Ledgers

Who holds what in a system of several parties: a ledger is the multiset of the pairs of a
place and a thing that is there. A thing that is nowhere has no entry, one that is in two places
has two.

* `Ledger.holders`: how many entries a thing has.
* `Ledger.placesOf`: the places of those entries.
* `Ledger.total`: the sum of a weight over all entries.
* `Ledger.Carries`: where the things of one ledger are in another.
* `exists_rest`: a sum over all parties splits into the part of one of them and a rest that
  does not change when that party moves.
-/

/-- A multiset of places with what is there. -/
abbrev Ledger (P T : Type*) := Multiset (P × T)

namespace Ledger

open List

variable {P T : Type*} {t : T} {l : List T} {p : P}

/-- The entries for a list of things in one place. -/
def placed (p : P) (l : List T) : Ledger P T := ↑(l.map fun t => (p, t))

@[simp] theorem placed_nil (p : P) : placed p ([] : List T) = 0 := rfl

@[simp] theorem placed_cons (p : P) (t : T) (l : List T) :
    placed p (t :: l) = (p, t) ::ₘ placed p l := rfl

theorem placed_perm (p : P) {l l' : List T} (h : l.Perm l') : placed p l = placed p l' :=
  Multiset.coe_eq_coe.mpr (h.map _)

@[simp] theorem mem_placed {p q : P} : (q, t) ∈ placed p l ↔ q = p ∧ t ∈ l := by
  simp only [placed, Multiset.mem_coe, mem_map, Prod.mk.injEq]
  constructor
  · rintro ⟨t', ht', rfl, rfl⟩
    exact ⟨rfl, ht'⟩
  · rintro ⟨rfl, ht⟩
    exact ⟨t, ht, rfl, rfl⟩

theorem add_entry (L : Ledger P T) (x : P × T) : L + {x} = x ::ₘ L := by
  rw [add_comm, Multiset.singleton_add]

/-- Every thing of `L` is in `L'`, in a place that `r` relates to the one it was in. -/
def Carries (r : T → P → P → Prop) (L L' : Ledger P T) : Prop :=
  ∀ p t, (p, t) ∈ L → ∃ q, r t p q ∧ (q, t) ∈ L'

namespace Carries

variable {r : T → P → P → Prop} {L L' : Ledger P T} {p q : P} {t : T}

theorem of_le (hrefl : ∀ t p, r t p p) (h : L ≤ L') : Carries r L L' :=
  fun p t hmem => ⟨p, hrefl t p, Multiset.mem_of_le h hmem⟩

theorem cons (ht : r t p q) (h : Carries r L L') : Carries r ((p, t) ::ₘ L) ((q, t) ::ₘ L') := by
  intro p' u hmem
  rcases Multiset.mem_cons.mp hmem with heq | hmem
  · cases heq
    exact ⟨q, ht, Multiset.mem_cons_self ..⟩
  · obtain ⟨q', hq', hmem'⟩ := h p' u hmem
    exact ⟨q', hq', Multiset.mem_cons_of_mem hmem'⟩

theorem placed (hl : ∀ t, r t p q) (h : Carries r L L') :
    Carries r (L + placed p l) (L' + placed q l) := by
  intro p' u hmem
  rcases Multiset.mem_add.mp hmem with hmem | hmem
  · obtain ⟨q', hq', hmem'⟩ := h p' u hmem
    exact ⟨q', hq', Multiset.mem_add.mpr (.inl hmem')⟩
  · obtain ⟨rfl, hu⟩ := mem_placed.mp hmem
    exact ⟨q, hl u, Multiset.mem_add.mpr (.inr (mem_placed.mpr ⟨rfl, hu⟩))⟩

end Carries

section Holders

variable [DecidableEq T]

/-- The number of entries of a thing. -/
def holders (t : T) (L : Ledger P T) : ℕ := L.countP fun x => x.2 = t

@[simp] theorem holders_add (t : T) (L L' : Ledger P T) :
    holders t (L + L') = holders t L + holders t L' := Multiset.countP_add ..

@[simp] theorem holders_cons (t : T) (p : P) (x : T) (L : Ledger P T) :
    holders t ((p, x) ::ₘ L) = holders t L + if x = t then 1 else 0 := by
  by_cases h : x = t
  · rw [if_pos h]; exact Multiset.countP_cons_of_pos L h
  · rw [if_neg h]; exact Multiset.countP_cons_of_neg L h

variable {L : Ledger P T}

theorem holders_pos (h : (p, t) ∈ L) : 0 < holders t L :=
  Multiset.countP_pos.mpr ⟨_, h, rfl⟩

theorem two_le_holders {p p' : P} {L' : Ledger P T} (h : (p, t) ∈ L) (h' : (p', t) ∈ L') :
    2 ≤ holders t (L + L') := by
  rw [holders_add]
  exact Nat.add_le_add (holders_pos h) (holders_pos h')

theorem holders_le_add (t : T) (L L' : Ledger P T) : holders t L ≤ holders t (L + L') := by
  rw [holders_add]
  exact Nat.le_add_right ..

theorem eq_of_holders_le_one {p q : P} (h : holders t L ≤ 1) (hp : (p, t) ∈ L)
    (hq : (q, t) ∈ L) : p = q := by
  obtain ⟨R, rfl⟩ := Multiset.exists_cons_of_mem hp
  rcases Multiset.mem_cons.mp hq with heq | hq
  · exact (Prod.mk.inj heq).1.symm
  have hpos := holders_pos hq
  rw [holders_cons, if_pos rfl] at h
  omega

/-- Things with one entry each are no more than there are names for them. -/
theorem card_le_card_names {N : Type*} [DecidableEq N] (name : T → N) (names : Finset N)
    (hone : ∀ t, holders t L ≤ 1) (hmem : ∀ p t, (p, t) ∈ L → name t ∈ names)
    (hinj : ∀ p t p' t', (p, t) ∈ L → (p', t') ∈ L → name t = name t' → t = t') :
    L.card ≤ names.card := by
  have hnodup : L.Nodup := by
    refine Multiset.nodup_iff_ne_cons_cons.mpr fun x R hL => ?_
    have htwo := hone x.2
    rw [hL, holders_cons, holders_cons, if_pos rfl] at htwo
    omega
  have hnames : (L.map fun x => name x.2).Nodup := by
    refine hnodup.map_on fun x hx y hy hname => ?_
    have hthing : x.2 = y.2 := hinj x.1 x.2 y.1 y.2 hx hy hname
    have hplace : x.1 = y.1 := by
      refine eq_of_holders_le_one (hone x.2) hx ?_
      rw [hthing]
      exact hy
    exact Prod.ext hplace hthing
  rw [← Multiset.card_map fun x => name x.2, ← Multiset.toFinset_card_of_nodup hnames]
  refine Finset.card_le_card fun id hid => ?_
  obtain ⟨x, hx, rfl⟩ := Multiset.mem_map.mp (Multiset.mem_toFinset.mp hid)
  exact hmem x.1 x.2 hx

theorem holders_placed (t : T) (p : P) (l : List T) : holders t (placed p l) = l.count t := by
  induction l with
  | nil => rfl
  | cons x l ih => rw [placed_cons, holders_cons, count_cons, ih]; simp

/-- The places a thing is in. -/
def placesOf (t : T) (L : Ledger P T) : Multiset P := (L.filter fun x => x.2 = t).map Prod.fst

theorem mem_placesOf : p ∈ placesOf t L ↔ (p, t) ∈ L := by
  simp only [placesOf, Multiset.mem_map, Multiset.mem_filter]
  constructor
  · rintro ⟨⟨p', t'⟩, ⟨hmem, rfl⟩, rfl⟩
    exact hmem
  · intro hmem
    exact ⟨(p, t), ⟨hmem, rfl⟩, rfl⟩

theorem card_placesOf (t : T) (L : Ledger P T) : (placesOf t L).card = holders t L := by
  rw [placesOf, Multiset.card_map, holders, Multiset.countP_eq_card_filter]

end Holders

section Total

/-- The sum of the weights of the entries. -/
def total (w : P → T → ℕ) (L : Ledger P T) : ℕ := (L.map fun x => w x.1 x.2).sum

variable (w : P → T → ℕ)

@[simp] theorem total_add (L L' : Ledger P T) : total w (L + L') = total w L + total w L' := by
  rw [total, Multiset.map_add, Multiset.sum_add]
  rfl

@[simp] theorem total_cons (p : P) (t : T) (L : Ledger P T) :
    total w ((p, t) ::ₘ L) = w p t + total w L := by
  rw [total, Multiset.map_cons, Multiset.sum_cons]
  rfl

theorem total_placed (p : P) (l : List T) : total w (placed p l) = (l.map (w p)).sum := by
  induction l with
  | nil => rfl
  | cons t l ih => rw [placed_cons, total_cons, map_cons, sum_cons, ih]

theorem total_sum {ι : Type*} (s : Finset ι) (f : ι → Ledger P T) :
    total w (∑ i ∈ s, f i) = ∑ i ∈ s, total w (f i) := by
  classical
  induction s using Finset.induction_on with
  | empty => rfl
  | insert i s hi ih => rw [Finset.sum_insert hi, Finset.sum_insert hi, total_add, ih]

variable {w}

variable {L : Ledger P T}

theorem total_congr {w' : P → T → ℕ} (h : ∀ p t, (p, t) ∈ L → w p t = w' p t) :
    total w L = total w' L :=
  congrArg Multiset.sum (Multiset.map_congr rfl fun x hx => h x.1 x.2 hx)

theorem le_total (h : (p, t) ∈ L) : w p t ≤ total w L := by
  obtain ⟨R, rfl⟩ := Multiset.exists_cons_of_mem h
  rw [total_cons]
  exact Nat.le_add_right ..

theorem total_eq_zero (h : ∀ p t, (p, t) ∈ L → w p t = 0) : total w L = 0 := by
  refine Multiset.sum_eq_zero fun x hx => ?_
  obtain ⟨y, hy, rfl⟩ := Multiset.mem_map.mp hx
  exact h y.1 y.2 hy

theorem total_placed_eq_countP {P' : T → Bool}
    (h : ∀ t ∈ l, w p t = if P' t then 1 else 0) : total w (placed p l) = l.countP P' := by
  induction l with
  | nil => rfl
  | cons t l ih =>
    rw [placed_cons, total_cons, countP_cons, ih fun u hu => h u (mem_cons_of_mem t hu),
      h t mem_cons_self, add_comm]

/-- Weights of at most one add up to at most the number of entries. -/
theorem total_le_card (hw : ∀ p t, w p t ≤ 1) (L : Ledger P T) : total w L ≤ L.card := by
  induction L using Multiset.induction_on with
  | empty => exact le_rfl
  | cons x L ih =>
    rw [total_cons, Multiset.card_cons]
    have hx := hw x.1 x.2
    omega

end Total

end Ledger

/-! ### Sums over parties -/

section Rest

variable {ι α M : Type*} [Fintype ι] [DecidableEq ι] [AddCommMonoid M]

/-- The part of party `i` in a sum over all parties, apart from a rest that stays the same
whatever that party changes to. -/
theorem exists_rest (g : ι → α → M) (f : ι → α) (i : ι) : ∃ R, ∑ j, g j (f j) = R + g i (f i) ∧
      ∀ a, ∑ j, g j (Function.update f i a j) = R + g i a := by
  refine ⟨∑ j ∈ Finset.univ.erase i, g j (f j), ?_, fun a => ?_⟩
  · exact (Finset.sum_erase_add _ _ (Finset.mem_univ i)).symm
  rw [← Finset.sum_erase_add _ _ (Finset.mem_univ i), Function.update_self]
  congr 1
  refine Finset.sum_congr rfl fun j hj => ?_
  rw [Function.update_of_ne (Finset.ne_of_mem_erase hj)]

end Rest
