import Mathlib.Data.List.Basic

/-!
# Rings with a lap bit

A producer writes its entries into the slots of a ring one after another and starts again at
the first slot when it has used the last one. Nothing but a bit of the entry tells the consumer
whether a slot holds an entry of this lap or of the one before: the bit is set on the first lap
and flips at each wrap-around. Positions count the entries ever written, so the entry at
position `q` is in slot `q % size`.

`At` relates a position to the slot and the bit by which a party keeps it. `Holds` says that the
memory of a ring is the end of a log of entries. A consumer that the producer has not lapped
recognises the entries it has not read yet by their bit (`Holds.bit_eq_iff`), and finds in the slot
the next entry of the log (`Holds.take_succ`).
-/

namespace LapRing

open List

variable {ρ : Type*} {size k idx : Nat} {b : Bool} {bit : ρ → Bool} {preset : Nat → Prop}
  {ring : Nat → ρ} {log : List ρ} {e : ρ}

/-- The bit of the entries of the lap that position `q` belongs to. -/
def lapBit (size q : Nat) : Bool := q / size % 2 == 0

theorem lapBit_eq_not {d d' q q' : Nat} (hq : q / size = d) (hq' : q' / size = d')
    (h : d' = d + 1) : lapBit size q' = !lapBit size q := by
  unfold lapBit
  rw [hq, hq', h]
  rcases Nat.mod_two_eq_zero_or_one d with h | h <;> simp [Nat.add_mod, h]

theorem lapBit_add_size (hsize : 0 < size) (q : Nat) : lapBit size (q + size) = !lapBit size q :=
  lapBit_eq_not rfl rfl (Nat.add_div_right q hsize)

/-- A party at position `k` of the ring, by the slot it is at and the bit of its lap. -/
structure At (size k idx : Nat) (b : Bool) : Prop where
  idx : idx = k % size
  bit : b = lapBit size k

theorem At.zero : At size 0 0 true := ⟨(Nat.zero_mod size).symm, by simp [lapBit]⟩

/-- After the last slot comes the first one, with the bit flipped. -/
theorem At.wrap (h : At size k idx b) (hsize : 0 < size) (hlast : size ≤ idx + 1) :
    At size (k + 1) 0 (!b) := by
  obtain ⟨rfl, rfl⟩ := h
  have hlt := Nat.mod_lt k hsize
  have hk := Nat.mod_add_div k size
  obtain ⟨hdiv, hmod⟩ := (Nat.div_mod_unique (a := k + 1) (d := k / size + 1) (c := 0) hsize).mpr
    ⟨by rw [Nat.mul_add]; omega, hsize⟩
  exact ⟨hmod.symm, (lapBit_eq_not rfl hdiv rfl).symm⟩

theorem At.succ (h : At size k idx b) (hsize : 0 < size) (hlast : ¬ size ≤ idx + 1) :
    At size (k + 1) (idx + 1) b := by
  obtain ⟨rfl, rfl⟩ := h
  have hk := Nat.mod_add_div k size
  obtain ⟨hdiv, hmod⟩ :=
    (Nat.div_mod_unique (a := k + 1) (d := k / size) (c := k % size + 1) hsize).mpr
      ⟨by omega, by omega⟩
  exact ⟨hmod.symm, by rw [lapBit, lapBit, hdiv]⟩

/-- The last `size` entries of the log are in the ring. -/
def Stores (size : Nat) (ring : Nat → ρ) (log : List ρ) : Prop :=
  ∀ q (h : q < log.length), log.length ≤ q + size → ring (q % size) = log[q]

theorem Stores.push (h : Stores size ring log) :
    Stores size (Function.update ring (log.length % size) e) (log ++ [e]) := by
  intro q hq hlap
  rw [length_append, length_singleton] at hlap
  rcases Nat.lt_or_ge q log.length with hlt | hge
  · -- an older entry still in the ring is in another slot than the new one
    have hne : q % size ≠ log.length % size := by
      intro heq
      have hdvd := Nat.dvd_of_mod_eq_zero (Nat.sub_mod_eq_zero_of_mod_eq heq.symm)
      have := Nat.le_of_dvd (by omega) hdvd
      omega
    rw [Function.update_of_ne hne, getElem_append_left hlt]
    exact h q hlt (by omega)
  · obtain rfl : q = log.length := by simp at hq; omega
    simp

/-- What a consumer at position `k` finds there is the next entry of the log. -/
theorem Stores.take_succ (h : Stores size ring log) (hlt : k < log.length)
    (hlap : log.length ≤ k + size) : log.take (k + 1) = log.take k ++ [ring (k % size)] := by
  rw [h k hlt hlap, take_succ_eq_append_getElem hlt]

/-- The ring holds the log. A slot that has not been written yet has its bit clear, except where
the ring was set up with an entry in place. -/
structure Holds (size : Nat) (bit : ρ → Bool) (preset : Nat → Prop) (ring : Nat → ρ)
    (log : List ρ) : Prop where
  lap : ∀ q (h : q < log.length), bit log[q] = lapBit size q
  slot : Stores size ring log
  fresh : ∀ q < size, log.length ≤ q → ¬ preset q → bit (ring q) = false

theorem Holds.nil (h : ∀ q < size, ¬ preset q → bit (ring q) = false) :
    Holds size bit preset ring [] where
  lap := nofun
  slot := nofun
  fresh q hq _ := h q hq

section

variable (h : Holds size bit preset ring log)

include h

/-- Writing the next entry with the bit of its lap. -/
theorem Holds.push (he : bit e = lapBit size log.length) :
    Holds size bit preset (Function.update ring (log.length % size) e) (log ++ [e]) where
  lap q hq := by
    rcases Nat.lt_or_ge q log.length with hlt | hge
    · rw [getElem_append_left hlt]
      exact h.lap q hlt
    · obtain rfl : q = log.length := by simp at hq; omega
      simpa using he
  slot := h.slot.push
  fresh q hq hlen hpre := by
    rw [length_append, length_singleton] at hlen
    have hne : q ≠ log.length % size := by
      rw [Nat.mod_eq_of_lt (by omega)]
      omega
    rw [Function.update_of_ne hne]
    exact h.fresh q hq (by omega) hpre

/-- **The bit tells the entries of this lap.** The consumer is at position `k`. -/
theorem Holds.bit_eq_iff (hat : At size k idx b)
    (hsize : 0 < size) (hk : k ≤ log.length) (hlap : log.length ≤ k + size)
    (hpre : k = log.length → ¬ preset k) : bit (ring idx) = b ↔ k < log.length := by
  obtain ⟨rfl, rfl⟩ := hat
  constructor
  · intro hbit
    by_contra hge
    obtain rfl : k = log.length := by omega
    rcases Nat.lt_or_ge log.length size with hlt | hge
    · -- the first lap: the slot has never been written
      rw [Nat.mod_eq_of_lt hlt, h.fresh _ hlt (Nat.le_refl _) (hpre rfl)] at hbit
      simp [lapBit, Nat.div_eq_of_lt hlt] at hbit
    -- later laps: the slot holds the entry one lap before
    obtain ⟨q, hq⟩ := Nat.exists_eq_add_of_le' hge
    have hlt : q < log.length := by omega
    have hslot := h.slot q hlt (by omega)
    rw [hq, Nat.add_mod_right, hslot, h.lap q hlt, lapBit_add_size hsize] at hbit
    simp at hbit
  · intro hlt
    rw [h.slot k hlt hlap]
    exact h.lap k hlt

theorem Holds.take_succ (hat : At size k idx b)
    (hlt : k < log.length) (hlap : log.length ≤ k + size) :
    log.take (k + 1) = log.take k ++ [ring idx] :=
  hat.idx ▸ h.slot.take_succ hlt hlap

end

end LapRing
