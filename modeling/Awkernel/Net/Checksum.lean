import Mathlib.Data.Nat.ModEq
import Mathlib.Tactic.NormNum

/-!
# The checksum of the pseudo header

`in_pseudo` of `awkernel_lib/src/net/in_cksum.rs` adds three words in 64 bits, folds the sum twice,
and subtracts at most once. In ones' complement a sum stands for one word of 16 bits, and zero for
itself only (`reduce`). No fold changes that word (`reduce_fold_add`).
-/

namespace Awkernel.Checksum

/-- The parts of 16 bits of a word, as the unions `QUtil` and `LUtil` read them. -/
def part (x i : Nat) : Nat := x >>> (16 * i) % 65536

/-- An addition that traps if the sum does not fit. -/
def add (bits x y : Nat) : Option Nat := if x + y < 2 ^ bits then some (x + y) else none

/-- `in_pseudo`. -/
def inPseudo (a b c : UInt32) : Option UInt16 := do
  let sum64 ← add 64 (← add 64 a.toNat b.toNat) c.toNat
  let l ← add 32 (← add 32 (← add 32 (part sum64 0) (part sum64 1)) (part sum64 2)) (part sum64 3)
  let sum ← add 32 (part l 0) (part l 1)
  some (UInt16.ofNat (if sum > 65535 then sum - 65535 else sum))

/-- The carry is added to the part of 16 bits. -/
def fold (x : Nat) : Nat := x % 65536 + x / 65536

/-- The sum of words of 16 bits, with an end-around carry. -/
def onesComplementSum (words : List Nat) : Nat := words.foldr (fun w sum => fold (w + sum)) 0

def halves (words : List UInt32) : List Nat :=
  words.flatMap fun w => [part w.toNat 0, part w.toNat 1]

/-- The word that a sum stands for. -/
def reduce (x : Nat) : Nat := if x = 0 then 0 else (x - 1) % 65535 + 1

theorem reduce_of_lt {x : Nat} (h : x < 65536) : reduce x = x := by
  unfold reduce
  split <;> omega

theorem reduce_fold_add (x y : Nat) : reduce (fold x + y) = reduce (x + y) := by
  unfold reduce fold
  split <;> split <;> omega

theorem reduce_fold (x : Nat) : reduce (fold x) = reduce x := reduce_fold_add x 0

theorem reduce_add_reduce (x y : Nat) : reduce (x + reduce y) = reduce (x + y) := by
  unfold reduce
  split <;> split <;> split <;> omega

theorem reduce_spec (x : Nat) :
    reduce x < 65536 ∧ reduce x ≡ x [MOD 65535] ∧ (reduce x = 0 → x = 0) := by
  unfold reduce Nat.ModEq
  split <;> omega

theorem onesComplementSum_eq {words : List Nat} (h : ∀ w ∈ words, w < 65536) :
    onesComplementSum words = reduce words.sum := by
  induction words with
  | nil => rfl
  | cons w words ih =>
    have ih := ih fun v hv => h v (List.mem_cons_of_mem _ hv)
    have hw := h w List.mem_cons_self
    have hlt : fold (w + reduce words.sum) < 65536 := by
      unfold fold reduce
      split <;> omega
    change fold (w + onesComplementSum words) = _
    rw [ih, ← reduce_of_lt hlt, reduce_fold, reduce_add_reduce, List.sum_cons]

theorem add_bind {bits x y : Nat} {α : Type} {f : Nat → Option α} (h : x + y < 2 ^ bits) :
    (add bits x y).bind f = f (x + y) := by
  rw [add, if_pos h, Option.bind_some]

/-- The additions do not overflow, and the subtraction suffices. -/
theorem inPseudo_eq (a b c : UInt32) :
    inPseudo a b c = some (UInt16.ofNat (reduce (a.toNat + b.toNat + c.toNat))) := by
  have ha := a.toNat_lt
  have hb := b.toNat_lt
  have hc := c.toNat_lt
  unfold inPseudo
  rw [Option.bind_eq_bind, add_bind (by omega), add_bind (by omega)]
  generalize hs : a.toNat + b.toNat + c.toNat = s
  have h0 : part s 0 = s % 65536 := rfl
  have h1 : part s 1 = s >>> 16 % 65536 := rfl
  have h2 : part s 2 = s >>> 32 % 65536 := rfl
  have h3 : part s 3 = s >>> 48 % 65536 := rfl
  rw [add_bind (by omega), add_bind (by omega), add_bind (by omega)]
  have hl : part s 0 + part s 1 + part s 2 + part s 3 = fold (s / 65536) + s % 65536 := by
    unfold fold
    omega
  have hfold : reduce (fold (s / 65536) + s % 65536) = reduce s := by
    rw [reduce_fold_add, Nat.add_comm]
    exact reduce_fold s
  have hlt : part s 0 + part s 1 + part s 2 + part s 3 < 2 ^ 18 := by omega
  rw [← hl] at hfold
  generalize part s 0 + part s 1 + part s 2 + part s 3 = l at *
  have hl0 : part l 0 = l % 65536 := rfl
  have hl1 : part l 1 = l >>> 16 % 65536 := rfl
  rw [add_bind (by omega), ← hfold, ← reduce_fold]
  have hsum : part l 0 + part l 1 = fold l := by
    unfold fold
    omega
  rw [hsum]
  congr 2
  unfold reduce
  split <;> split <;> omega

theorem reduce_sum_halves (words : List UInt32) :
    reduce (halves words).sum = reduce (words.map UInt32.toNat).sum := by
  induction words with
  | nil => rfl
  | cons w words ih =>
    have hw := w.toNat_lt
    have hfold : (halves (w :: words)).sum = fold w.toNat + (halves words).sum := by
      change w.toNat % 65536 + (w.toNat >>> 16 % 65536 + (halves words).sum) = _
      unfold fold
      omega
    rw [hfold, reduce_fold_add, ← reduce_add_reduce, ih, reduce_add_reduce]
    rfl

/-- **`in_pseudo`** does not overflow, and is the ones' complement sum of the six halves. -/
theorem inPseudo_eq_onesComplementSum (a b c : UInt32) :
    ∃ r, inPseudo a b c = some r ∧ r.toNat ≡ (halves [a, b, c]).sum [MOD 65535] ∧
      (r = 0 → a = 0 ∧ b = 0 ∧ c = 0) ∧ r.toNat = onesComplementSum (halves [a, b, c]) := by
  have hsum := reduce_sum_halves [a, b, c]
  have hwords : ∀ w ∈ halves [a, b, c], w < 65536 := by
    simp [halves, part, Nat.mod_lt]
  have htoNat := UInt16.toNat_ofNat_of_lt' (reduce_spec (halves [a, b, c]).sum).1
  refine ⟨_, ?_, ?_, fun hzero => ?_, htoNat.trans (onesComplementSum_eq hwords).symm⟩
  · rw [inPseudo_eq, hsum, Nat.add_assoc]
    rfl
  · rw [htoNat]
    exact (reduce_spec _).2.1
  · rw [← UInt16.toNat_inj, htoNat, hsum] at hzero
    have hnone : a.toNat + (b.toNat + (c.toNat + 0)) = 0 := (reduce_spec _).2.2 hzero
    simp only [← UInt32.toNat_inj, UInt32.toNat_zero]
    exact ⟨by omega, by omega, by omega⟩

end Awkernel.Checksum
