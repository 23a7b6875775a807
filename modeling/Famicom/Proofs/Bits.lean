/-
# Rows of pixels

A byte of a pattern is a row of eight pixels, the leftmost in its top bit.  `leftBit` counts the
bits that way, and beyond the eighth there are none: **a byte is a row with nothing after it**.
Drawing shifts a byte to the left, and **the row moves up by one**.

`rowBit` is the same in plain numbers, and of a pair of rows, one above the other in a pattern, each
column makes a pixel of two bits.
-/
import Famicom.Word
import Mathlib.Tactic.IntervalCases

namespace Famicom

/-- The bits of a byte from left to right; there are eight. -/
def leftBit (b : UInt8) (i : Nat) : Bool := decide (i < 8) && b.toNat.testBit (7 - i)

theorem leftBit_of_le (b : UInt8) {i : Nat} (hi : 8 ≤ i) : leftBit b i = false := by
  rw [leftBit, decide_eq_false (by omega), Bool.false_and]

theorem leftBit_of_lt (b : UInt8) {i : Nat} (hi : i < 8) :
    leftBit b i = b.toNat.testBit (7 - i) := by
  rw [leftBit, decide_eq_true hi, Bool.true_and]

/-- A mask of one bit leaves something exactly if the bit is set. -/
theorem and_two_pow_eq_zero_iff (n k : Nat) : n &&& 2 ^ k = 0 ↔ n.testBit k = false := by
  constructor
  · intro h
    have hk : (n &&& 2 ^ k).testBit k = false := by rw [h, Nat.zero_testBit]
    rwa [Nat.testBit_and, Nat.testBit_two_pow_self, Bool.and_true] at hk
  · intro h
    apply Nat.eq_of_testBit_eq
    intro i
    rw [Nat.testBit_and, Nat.testBit_two_pow, Nat.zero_testBit]
    by_cases hi : k = i
    · rw [← hi, h, Bool.false_and]
    · rw [decide_eq_false hi, Bool.and_false]

/-! ## 1. Bytes -/

theorem leftBit_zero (i : Nat) : leftBit 0 i = false := by
  rw [leftBit, UInt8.toNat_zero, Nat.zero_testBit, Bool.and_false]

/-- A shift moves the row up by one. -/
theorem leftBit_shiftLeft (b : UInt8) (i : Nat) : leftBit (b <<< 1) i = leftBit b (i + 1) := by
  have hb : (b <<< 1).toNat = b.toNat <<< 1 % 2 ^ 8 := by
    rw [UInt8.toNat_shiftLeft]
    rfl
  by_cases h : i + 1 < 8
  · have hs : 7 - i - 1 = 7 - (i + 1) := by omega
    rw [leftBit_of_lt _ (by omega), leftBit_of_lt _ h, hb, Nat.testBit_mod_two_pow,
      Nat.testBit_shiftLeft, hs, decide_eq_true (by omega : 7 - i < 8),
      decide_eq_true (by omega : 7 - i ≥ 1)]
    rfl
  · rw [leftBit_of_le b (by omega)]
    by_cases h7 : i = 7
    · rw [h7, leftBit_of_lt _ (by decide), hb, Nat.testBit_mod_two_pow, Nat.testBit_shiftLeft]
      rfl
    · exact leftBit_of_le _ (by omega)

/-- The top bit alone. -/
theorem shiftRight_seven (b : UInt8) : b >>> 7 = bitOf (leftBit b 0) := by
  have hb : (b >>> 7).toNat = b.toNat / 128 := by
    rw [UInt8.toNat_shiftRight, Nat.shiftRight_eq_div_pow]
    rfl
  have hlt := b.toNat_lt
  apply UInt8.toNat_inj.mp
  rw [hb, leftBit_of_lt _ (by decide), Nat.testBit_eq_decide_div_mod_eq]
  by_cases h : b.toNat / 2 ^ (7 - 0) % 2 = 1
  · rw [decide_eq_true h]
    change b.toNat / 128 = 1
    omega
  · rw [decide_eq_false h]
    change b.toNat / 128 = 0
    omega

/-- Reversing the bits reverses the row. -/
theorem leftBit_reverseBits (b : UInt8) {i : Nat} (hi : i < 8) :
    leftBit (reverseBits b) i = leftBit b (7 - i) := by
  rw [leftBit_of_lt _ hi, leftBit_of_lt _ (by omega)]
  simp only [reverseBits, UInt8.toNat_or, UInt8.toNat_shiftLeft, UInt8.toNat_shiftRight,
    UInt8.toNat_and, Nat.testBit_or, Nat.testBit_mod_two_pow, Nat.testBit_shiftLeft,
    Nat.testBit_shiftRight, Nat.testBit_and]
  interval_cases i <;> simp [Nat.testBit]

/-! ## 2. Rows in numbers -/

/-- One pixel of a row, as the number of its bit. -/
def rowBit (row : UInt8) (column : Nat) : Nat := row.toNat / 2 ^ (7 - column) % 2

theorem rowBit_eq (row : UInt8) {column : Nat} (hc : column < 8) :
    rowBit row column = (bitOf (leftBit row column)).toNat := by
  rw [leftBit_of_lt _ hc, Nat.testBit_eq_decide_div_mod_eq, rowBit]
  by_cases h : row.toNat / 2 ^ (7 - column) % 2 = 1
  · rw [decide_eq_true h, h]
    rfl
  · rw [decide_eq_false h]
    change _ = 0
    omega

theorem toNat_two_planes (high low : Bool) :
    (bitOf high * 2 + bitOf low).toNat = (bitOf high).toNat * 2 + (bitOf low).toNat := by
  cases high <;> cases low <;> rfl

theorem two_planes_lt (high low : Bool) : (bitOf high * 2 + bitOf low).toNat < 4 := by
  cases high <;> cases low <;> decide

end Famicom
