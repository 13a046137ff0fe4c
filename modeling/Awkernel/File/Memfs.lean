import Awkernel.Lib.TransitionSystem
import Awkernel.Priority

/-!
# The in-memory disk

`InMemoryDisk` of `awkernel_lib/src/file/memfs.rs` is a cursor over a byte array of fixed length,
in every sequence of `seek`, `read` and `write` (`disk_is_cursor`). The target of a relative
`seek` is an `i64` sum: where it does not fit, the call traps and does not return `OutOfBounds`
(`seek_traps`).
-/

namespace Awkernel

open TransitionSystem Option

/-- `SeekFrom`. -/
inductive SeekFrom
  | start (offset : UInt64)
  | current (offset : Int64)
  | fromEnd (offset : Int64)

inductive InMemoryDiskError
  | outOfBounds

structure InMemoryDisk where
  data : List UInt8
  position : Nat

/-- `x as i64` of a `u64`. -/
def asI64 (x : Nat) : Int := if x < 2 ^ 63 then x else x - 2 ^ 64

/-- An `i64` sum that traps on overflow. -/
def checkedAddI64 (a b : Int) : Option Int :=
  if -2 ^ 63 ≤ a + b ∧ a + b < 2 ^ 63 then some (a + b) else none

namespace InMemoryDisk

/-- `bytes_to_read` and `bytes_to_write`, for a buffer of `n` bytes. -/
def bytesTo (d : InMemoryDisk) (n : Nat) : Option Nat :=
  (checkedSub d.data.length d.position).map (min n)

/-- `read` into a buffer of `n` bytes, with what is copied into it. -/
def read (d : InMemoryDisk) (n : Nat) : Option (List UInt8 × InMemoryDisk) := do
  let bytesToRead ← d.bytesTo n
  if bytesToRead = 0 then return ([], d)
  let position ← checkedAdd d.position bytesToRead
  return ((d.data.drop d.position).take bytesToRead, { d with position := position })

/-- `write`, with the number of bytes that are copied from the buffer. -/
def write (d : InMemoryDisk) (buf : List UInt8) : Option (Nat × InMemoryDisk) := do
  let bytesToWrite ← d.bytesTo buf.length
  if bytesToWrite = 0 then return (0, d)
  let position ← checkedAdd d.position bytesToWrite
  return (bytesToWrite,
    ⟨d.data.take d.position ++ buf.take bytesToWrite ++ d.data.drop position, position⟩)

/-- `new_position` of `seek`. -/
def newPosition (d : InMemoryDisk) : SeekFrom → Option Int
  | .start offset => some (asI64 offset.toNat)
  | .current offset => checkedAddI64 (asI64 d.position) offset.toInt
  | .fromEnd offset => checkedAddI64 (asI64 d.data.length) offset.toInt

def seek (d : InMemoryDisk) (pos : SeekFrom) :
    Option (Except InMemoryDiskError Nat × InMemoryDisk) :=
  (d.newPosition pos).map fun p =>
    if p < 0 ∨ p > asI64 d.data.length then (.error .outOfBounds, d)
    else (.ok p.toNat, { d with position := p.toNat })

inductive Call
  | seek (pos : SeekFrom)
  | read (n : Nat)
  | write (buf : List UInt8)

def step (d : InMemoryDisk) : Call → Option InMemoryDisk
  | .seek pos => (d.seek pos).map Prod.snd
  | .read n => (d.read n).map Prod.snd
  | .write buf => (d.write buf).map Prod.snd

/-- The position that a `seek` is for. -/
def target (d : InMemoryDisk) : SeekFrom → Int
  | .start offset => offset.toNat
  | .current offset => d.position + offset.toInt
  | .fromEnd offset => d.data.length + offset.toInt

/-- The target of a relative `seek` is an `i64`. -/
def Fits (d : InMemoryDisk) : Call → Prop
  | .seek (.current offset) => d.target (.current offset) < 2 ^ 63
  | .seek (.fromEnd offset) => d.target (.fromEnd offset) < 2 ^ 63
  | _ => True

/-- How many of `n` bytes fit between the position and the end. -/
def count (d : InMemoryDisk) (n : Nat) : Nat := min n (d.data.length - d.position)

/-- **A cursor over a byte array.** `seek` moves to its target, or fails and does not move; `read`
returns the bytes behind the position; `write` changes these bytes to those of the buffer. -/
structure IsCursor (d : InMemoryDisk) : Prop where
  position_le : d.position ≤ d.data.length
  seek {pos : SeekFrom} : d.Fits (.seek pos) →
    d.seek pos = some (if 0 ≤ d.target pos ∧ d.target pos ≤ d.data.length
      then (.ok (d.target pos).toNat, { d with position := (d.target pos).toNat })
      else (.error .outOfBounds, d))
  read (n : Nat) : d.read n = some ((d.data.drop d.position).take (d.count n),
    { d with position := d.position + d.count n })
  write (buf : List UInt8) : ∃ data,
    d.write buf = some (d.count buf.length, ⟨data, d.position + d.count buf.length⟩) ∧
      data.length = d.data.length ∧ ∀ i : Nat, data[i]? =
        if d.position ≤ i ∧ i < d.position + d.count buf.length then buf[i - d.position]?
        else d.data[i]?

theorem IsCursor.of_le {d : InMemoryDisk} (hlen : d.data.length < 2 ^ 63)
    (hpos : d.position ≤ d.data.length) : d.IsCursor := by
  have hbytes : ∀ n, d.bytesTo n = some (d.count n) := fun n => by
    rw [bytesTo, checkedSub, if_pos hpos]
    rfl
  have hadd : ∀ n, checkedAdd d.position (d.count n) = some (d.position + d.count n) := fun n =>
    if_pos (by unfold count; omega)
  refine ⟨hpos, fun {pos} hfits => ?_, fun n => ?_, fun buf => ?_⟩
  · have hsum : ∀ {x : Nat} {o : Int64}, x < 2 ^ 63 → (x : Int) + o.toInt < 2 ^ 63 →
        checkedAddI64 (asI64 x) o.toInt = some (x + o.toInt) := fun {x o} hx hlt => by
      have := o.le_toInt
      rw [asI64, if_pos hx]
      exact if_pos ⟨by omega, hlt⟩
    -- the new position is the target, or both are out of bounds
    obtain ⟨p, hp, hcase⟩ : ∃ p, d.newPosition pos = some p ∧
        (p = d.target pos ∨ p < 0 ∧ d.data.length < d.target pos) := by
      cases pos with
      | start offset =>
        refine ⟨_, rfl, ?_⟩
        have := offset.toNat_lt
        change asI64 offset.toNat = offset.toNat ∨ asI64 _ < 0 ∧ (_ : Int) < offset.toNat
        unfold asI64
        split <;> omega
      | current offset => exact ⟨_, hsum (by omega) hfits, .inl rfl⟩
      | fromEnd offset => exact ⟨_, hsum hlen hfits, .inl rfl⟩
    rw [InMemoryDisk.seek, hp, map_some, asI64, if_pos hlen]
    rcases hcase with rfl | ⟨hneg, hlt⟩
    · split
      · rw [if_neg (by omega)]
      · rw [if_pos (by omega)]
    · rw [if_pos (.inl hneg), if_neg (by omega)]
  · rw [InMemoryDisk.read, hbytes, bind_eq_bind, bind_some]
    split
    · next hzero =>
      rw [hzero]
      rfl
    · rw [hadd]
      rfl
  · rw [InMemoryDisk.write, hbytes, bind_eq_bind, bind_some]
    split
    · next hzero =>
      rw [hzero]
      exact ⟨d.data, rfl, rfl, fun i => (if_neg (by omega)).symm⟩
    · rw [hadd]
      refine ⟨_, rfl, ?_, fun i => ?_⟩
      · grind [count]
      · grind [count]

/-- **The in-memory disk is a cursor over a byte array of fixed length**, after every sequence of
calls from position 0 in which the targets of relative seeks are `i64`s. -/
theorem disk_is_cursor {data : List UInt8} (hlen : data.length < 2 ^ 63) {d : InMemoryDisk}
    (h : Reaches step Fits ⟨data, 0⟩ d) : d.data.length = data.length ∧ d.IsCursor := by
  refine h.invariant (I := fun d => d.data.length = data.length ∧ d.IsCursor)
    ⟨rfl, .of_le hlen (Nat.zero_le _)⟩ fun d c d' ⟨hd, hcursor⟩ hfits hs => ?_
  have hpos := hcursor.position_le
  cases c with
  | seek pos =>
    rw [step, hcursor.seek hfits] at hs
    cases hs
    split
    · exact ⟨hd, .of_le (hd ▸ hlen) (by dsimp only; omega)⟩
    · exact ⟨hd, hcursor⟩
  | read n =>
    rw [step, hcursor.read] at hs
    cases hs
    exact ⟨hd, .of_le (hd ▸ hlen) (by dsimp only [count]; omega)⟩
  | write buf =>
    obtain ⟨data', hwrite, hdata, -⟩ := hcursor.write buf
    rw [step, hwrite] at hs
    cases hs
    have hsame := hdata.trans hd
    exact ⟨hsame, .of_le (hsame ▸ hlen) (by dsimp only [count]; omega)⟩

/-- A write that reaches the end is cut, and a seek from the end goes back to what it wrote. -/
theorem disk_is_cursor_afterWrite : ∃ d : InMemoryDisk,
    run step ⟨[1, 2, 3], 0⟩ [.seek (.start 1), .write [9, 8, 7]] = some d ∧ d = ⟨[1, 9, 8], 3⟩ ∧
      d.seek (.fromEnd (-2)) = some (.ok 1, ⟨[1, 9, 8], 1⟩) ∧
      d.seek (.current 1) = some (.error .outOfBounds, d) ∧ d.read 4 = some ([], d) := by
  have hreach : Reaches step Fits ⟨[1, 2, 3], 0⟩ ⟨[1, 9, 8], 3⟩ :=
    .tail (a := .write [9, 8, 7]) (.tail (a := .seek (.start 1)) .refl trivial rfl) trivial rfl
  have hcursor := (disk_is_cursor (by decide) hreach).2
  exact ⟨_, rfl, rfl, hcursor.seek (show (3 : Int) + -2 < 2 ^ 63 by decide),
    hcursor.seek (show (3 : Int) + 1 < 2 ^ 63 by decide), hcursor.read 4⟩

/-- **A `seek` far behind the end traps.** -/
theorem seek_traps : (InMemoryDisk.mk [0] 0).seek (.fromEnd Int64.maxValue) = none := rfl

end InMemoryDisk

end Awkernel
