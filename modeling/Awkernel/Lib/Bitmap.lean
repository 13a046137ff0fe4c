import Mathlib.Tactic.Common

/-!
# Bits of a family of words

Flags that are packed into words and changed by `fetch_or` and `fetch_and` with a mask. `test` reads
a flag the way a program does, by masking its word; the rules say what the two operations with the
mask of one flag do to every flag.
-/

namespace Bitmap

open Function

variable {ι : Type*} {w : ℕ}

/-- The place of a flag: its word, and its bit there. -/
@[ext] structure Pos (ι : Type*) (w : ℕ) where
  index : ι
  bit : Fin w
  deriving DecidableEq

/-- The word with only this bit. -/
def Pos.mask (p : Pos ι w) : BitVec w := 1#w <<< p.bit.val

def test (words : ι → BitVec w) (p : Pos ι w) : Bool := words p.index &&& p.mask != 0#w

theorem mask_and (words : ι → BitVec w) (p : Pos ι w) :
    p.mask &&& words p.index = if (words p.index).getLsbD p.bit then p.mask else 0#w := by
  exact BitVec.twoPow_and ..

theorem Pos.mask_ne_zero (p : Pos ι w) : p.mask ≠ 0#w := by
  intro hzero
  have hbit := congrArg (fun x : BitVec w => x.getLsbD p.bit) hzero
  simp [Pos.mask, ← BitVec.twoPow_eq] at hbit

theorem test_eq_getLsbD (words : ι → BitVec w) (p : Pos ι w) :
    test words p = (words p.index).getLsbD p.bit := by
  rw [test, BitVec.and_comm, mask_and]
  cases (words p.index).getLsbD p.bit with
  | true => exact bne_iff_ne.mpr p.mask_ne_zero
  | false => rfl

/-- What masking a word leaves: the mask if the flag is set, and nothing otherwise. -/
theorem mask_and_eq (words : ι → BitVec w) (p : Pos ι w) :
    p.mask &&& words p.index = if test words p then p.mask else 0#w := by
  rw [mask_and, test_eq_getLsbD]

variable [DecidableEq ι]

def fetchOr (words : ι → BitVec w) (i : ι) (m : BitVec w) : ι → BitVec w :=
  update words i (words i ||| m)

def fetchAnd (words : ι → BitVec w) (i : ι) (m : BitVec w) : ι → BitVec w :=
  update words i (words i &&& m)

theorem fetchOr_zero (words : ι → BitVec w) (i : ι) : fetchOr words i 0#w = words := by
  rw [fetchOr, BitVec.or_zero, update_eq_self]

/-- Two flags of the same word are the same if they have the same bit. -/
theorem getLsbD_mask {p q : Pos ι w} (hindex : q.index = p.index) :
    p.mask.getLsbD q.bit = decide (q = p) := by
  rw [Pos.mask, ← BitVec.twoPow_eq, BitVec.getLsbD_twoPow, decide_eq_true p.bit.isLt]
  refine decide_eq_decide.mpr ⟨fun hbit => Pos.ext hindex (Fin.ext hbit.symm), ?_⟩
  rintro rfl
  rfl

/-- **A flag is set**, and no other changes. -/
theorem test_fetchOr (words : ι → BitVec w) (p q : Pos ι w) :
    test (fetchOr words p.index p.mask) q = (test words q || decide (q = p)) := by
  rw [test_eq_getLsbD, test_eq_getLsbD]
  rcases eq_or_ne q.index p.index with hindex | hne
  · rw [fetchOr, hindex, update_self, BitVec.getLsbD_or, getLsbD_mask hindex]
  · rw [fetchOr, update_of_ne hne, decide_eq_false fun heq => hne (congrArg _ heq), Bool.or_false]

/-- **A flag is cleared**, and no other changes. -/
theorem test_fetchAnd (words : ι → BitVec w) (p q : Pos ι w) :
    test (fetchAnd words p.index (~~~p.mask)) q = (test words q && !decide (q = p)) := by
  rw [test_eq_getLsbD, test_eq_getLsbD]
  rcases eq_or_ne q.index p.index with hindex | hne
  · rw [fetchAnd, hindex, update_self, BitVec.getLsbD_and, BitVec.getLsbD_not,
      getLsbD_mask hindex, decide_eq_true q.bit.isLt, Bool.true_and]
  · rw [fetchAnd, update_of_ne hne, decide_eq_false fun heq => hne (congrArg _ heq),
      Bool.not_false, Bool.and_true]

end Bitmap
