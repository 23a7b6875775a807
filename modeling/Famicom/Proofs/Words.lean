/-
# Words that overflow

A machine's sums and differences are bytes and words, and its tables have ends.  Where a program is
meant never to leave them, `add8`, `add16`, `sub8` and `sub16` give no result outside the word, and
`put?` none outside the table, so **that a calculation has a result says that it stayed inside**.
Of numbers that are small enough they are the plain operations, which is how their results are
found.

A word is often a few fields side by side.  A mask picks a field out (`and_shifted_mask`), and
**the operations on bits act on each field by itself** (`and_fields`, `or_fields`, `xor_fields`).
-/
import Famicom.Memory
import Mathlib.Data.Nat.Bitwise

namespace Famicom

/-! ## 1. Sums and differences -/

/-- The sum of two bytes, where it is a byte. -/
def add8 (a b : UInt8) : Option UInt8 := if a.toNat + b.toNat < 256 then some (a + b) else none

/-- The sum of two words, where it is a word. -/
def add16 (a b : UInt16) : Option UInt16 :=
  if a.toNat + b.toNat < 65536 then some (a + b) else none

/-- What is left of a byte, where it is enough. -/
def sub8 (a b : UInt8) : Option UInt8 := if b.toNat ≤ a.toNat then some (a - b) else none

/-- What is left of a word, where it is enough. -/
def sub16 (a b : UInt16) : Option UInt16 := if b.toNat ≤ a.toNat then some (a - b) else none

theorem add8_ofNat {m n : Nat} (h : m + n < 256) :
    add8 (.ofNat m) (.ofNat n) = some (.ofNat (m + n)) := by
  have hm := UInt8.toNat_ofNat_of_lt' (show m < 2 ^ 8 by omega)
  have hn := UInt8.toNat_ofNat_of_lt' (show n < 2 ^ 8 by omega)
  rw [add8, hm, hn, if_pos h, UInt8.ofNat_add]

theorem add16_ofNat {m n : Nat} (h : m + n < 65536) :
    add16 (.ofNat m) (.ofNat n) = some (.ofNat (m + n)) := by
  have hm := UInt16.toNat_ofNat_of_lt' (show m < 2 ^ 16 by omega)
  have hn := UInt16.toNat_ofNat_of_lt' (show n < 2 ^ 16 by omega)
  rw [add16, hm, hn, if_pos h, UInt16.ofNat_add]

theorem sub16_ofNat {m n : Nat} (hm : m < 65536) (hn : n ≤ m) :
    sub16 (.ofNat m) (.ofNat n) = some (.ofNat (m - n)) := by
  have htm := UInt16.toNat_ofNat_of_lt' (show m < 2 ^ 16 from hm)
  have htn := UInt16.toNat_ofNat_of_lt' (show n < 2 ^ 16 by omega)
  rw [sub16, htm, htn, if_pos hn, UInt16.ofNat_sub hn]

/-! ## 2. Tables -/

section Tables

variable {α : Type} {n : Nat}

/-- A table with one cell changed, where it has that cell. -/
def put? (m : Vector α n) (i : Nat) (b : α) : Option (Vector α n) :=
  if h : i < n then some (m.set i b h) else none

theorem put?_of_lt (m : Vector α n) {i : Nat} (h : i < n) (b : α) :
    put? m i b = some (m.set i b h) := dif_pos h

theorem getElem?_eq_read [Size n] (m : Memory n) {i : Nat} (h : i < n) :
    m[i]? = some (m.read i) := by
  rw [Vector.getElem?_eq_getElem h]
  simp only [Memory.read, Nat.mod_eq_of_lt h]

theorem put?_eq_write [Size n] (m : Memory n) {i : Nat} (h : i < n) (b : UInt8) :
    put? m i b = some (m.write i b) := by
  rw [put?_of_lt m h]
  simp only [Memory.write, Nat.mod_eq_of_lt h]

end Tables

/-! ## 3. Fields -/

section Fields

variable {a b c d : Nat} (k : Nat) (hb : b < 2 ^ k)

include hb

theorem testBit_fields (i : Nat) :
    (a * 2 ^ k + b).testBit i = if i < k then b.testBit i else a.testBit (i - k) := by
  rw [Nat.mul_comm]
  exact Nat.testBit_two_pow_mul_add a hb i

variable (hd : d < 2 ^ k)

include hd

theorem and_fields :
    (a * 2 ^ k + b) &&& (c * 2 ^ k + d) = (a &&& c) * 2 ^ k + (b &&& d) := by
  apply Nat.eq_of_testBit_eq
  intro i
  rw [Nat.testBit_and, testBit_fields k hb, testBit_fields k hd,
    testBit_fields k (Nat.and_lt_two_pow b hd), Nat.testBit_and, Nat.testBit_and]
  split <;> rfl

theorem or_fields :
    (a * 2 ^ k + b) ||| (c * 2 ^ k + d) = (a ||| c) * 2 ^ k + (b ||| d) := by
  apply Nat.eq_of_testBit_eq
  intro i
  rw [Nat.testBit_or, testBit_fields k hb, testBit_fields k hd,
    testBit_fields k (Nat.or_lt_two_pow hb hd), Nat.testBit_or, Nat.testBit_or]
  split <;> rfl

theorem xor_fields :
    (a * 2 ^ k + b) ^^^ (c * 2 ^ k + d) = (a ^^^ c) * 2 ^ k + (b ^^^ d) := by
  apply Nat.eq_of_testBit_eq
  intro i
  rw [Nat.testBit_xor, testBit_fields k hb, testBit_fields k hd,
    testBit_fields k (Nat.xor_lt_two_pow hb hd), Nat.testBit_xor, Nat.testBit_xor]
  split <;> rfl

end Fields

/-- What is above a number's low bits, and what is below, do not meet. -/
theorem or_low {b : Nat} (a k : Nat) (hb : b < 2 ^ k) : a * 2 ^ k ||| b = a * 2 ^ k + b := by
  have h := or_fields (a := a) (c := 0) k (Nat.two_pow_pos k) hb
  rwa [Nat.add_zero, Nat.zero_mul, Nat.zero_add, Nat.or_zero, Nat.zero_or] at h

/-- A mask of `k` bits at bit `s` picks that field. -/
theorem and_shifted_mask (n k s : Nat) : n &&& (2 ^ k - 1) * 2 ^ s = n / 2 ^ s % 2 ^ k * 2 ^ s := by
  have h := and_fields (a := n / 2 ^ s) (c := 2 ^ k - 1) s
    (Nat.mod_lt n (Nat.two_pow_pos s)) (Nat.two_pow_pos s)
  rwa [Nat.div_add_mod', Nat.add_zero, Nat.and_zero, Nat.add_zero,
    Nat.and_two_pow_sub_one_eq_mod] at h

/-! ## 4. Shifts -/

theorem toNat_shiftLeft_word (w : UInt16) {s : UInt16} (hs : s.toNat < 16)
    (h : w.toNat * 2 ^ s.toNat < 65536) : (w <<< s).toNat = w.toNat * 2 ^ s.toNat := by
  rw [UInt16.toNat_shiftLeft, Nat.mod_eq_of_lt hs, Nat.shiftLeft_eq, Nat.mod_eq_of_lt h]

theorem shiftLeft_ofNat {n : Nat} {s : UInt16} (hs : s.toNat < 16) (h : n * 2 ^ s.toNat < 65536) :
    UInt16.ofNat n <<< s = .ofNat (n * 2 ^ s.toNat) := by
  have hn : (UInt16.ofNat n).toNat = n :=
    UInt16.toNat_ofNat_of_lt' ((Nat.le_mul_of_pos_right n (Nat.two_pow_pos _)).trans_lt h)
  rw [← UInt16.toNat_inj, toNat_shiftLeft_word _ hs (by rwa [hn]), hn, UInt16.toNat_ofNat_of_lt' h]

/-- A byte that is widened keeps its number. -/
theorem toUInt16_eq_ofNat (b : UInt8) : b.toUInt16 = .ofNat b.toNat := by
  rw [← UInt8.toNat_toUInt16, UInt16.ofNat_toNat]

theorem toNat_shiftRight_word (w : UInt16) {s : UInt16} (hs : s.toNat < 16) :
    (w >>> s).toNat = w.toNat / 2 ^ s.toNat := by
  rw [UInt16.toNat_shiftRight, Nat.mod_eq_of_lt hs, Nat.shiftRight_eq_div_pow]

end Famicom
