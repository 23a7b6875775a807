/-
# Bytes and words

The machine moves bytes over an eight-bit data bus and names them by sixteen-bit addresses.  An
address is therefore made of two bytes, and nearly every rule of the processor is about one of
them: a pointer wraps in its low byte, an indexed address crosses a page when its high byte
changes, a stack address has a fixed high byte.

This file names the two halves.  `word` joins them and `lowByte`, `highByte` take them apart; the
three lemmas say that nothing is lost either way, so a proof can reason about the halves alone.
-/

namespace Famicom

/-- What holds of each of the 256 bytes holds of any. -/
@[elab_as_elim] theorem forall_byte {motive : UInt8 → Prop} (b : UInt8)
    (h : ∀ n : Fin 256, motive (.ofNat n.val)) : motive b := by
  have hb := h ⟨b.toNat, b.toNat_lt⟩
  rwa [UInt8.ofNat_toNat] at hb

/-- The address whose low byte is `low` and whose high byte is `high`. -/
@[inline] def word (low high : UInt8) : UInt16 :=
  (high.toUInt16 <<< 8) ||| low.toUInt16

/-- The offset of an address within its page. -/
@[inline] def lowByte (w : UInt16) : UInt8 := w.toUInt8

/-- The page of an address. -/
@[inline] def highByte (w : UInt16) : UInt8 := (w >>> 8).toUInt8

/-- Two addresses lie in one page when their high bytes agree. -/
@[inline] def samePage (v w : UInt16) : Bool := highByte v == highByte w

/-- A byte read as a signed displacement, so that `0xFF` steps one back. -/
@[inline] def displacement (b : UInt8) : UInt16 :=
  if b &&& 0x80 == 0 then b.toUInt16 else b.toUInt16 ||| 0xFF00

/-- The byte with its eight bits in the opposite order. -/
def reverseBits (b : UInt8) : UInt8 :=
  ((b &&& 0x01) <<< 7) ||| ((b &&& 0x02) <<< 5) ||| ((b &&& 0x04) <<< 3) |||
  ((b &&& 0x08) <<< 1) ||| ((b &&& 0x10) >>> 1) ||| ((b &&& 0x20) >>> 3) |||
  ((b &&& 0x40) >>> 5) ||| ((b &&& 0x80) >>> 7)

/-- A flag as the byte `0` or `1`. -/
@[inline] def bitOf (b : Bool) : UInt8 := if b then 1 else 0

theorem toNat_bitOf (b : Bool) : (bitOf b).toNat = b.toNat := by
  cases b <;> rfl

/-! ## The halves determine the word

In numbers a word is its high byte times 256 plus its low byte, which is what the three laws rest
on. -/

theorem toNat_word (low high : UInt8) : (word low high).toNat = high.toNat * 256 + low.toNat := by
  have hl := low.toNat_lt
  have hh := high.toNat_lt
  have hs : high.toNat <<< 8 < 2 ^ 16 := by rw [Nat.shiftLeft_eq]; omega
  have hor := Nat.shiftLeft_add_eq_or_of_lt (i := 8) (b := low.toNat) hl high.toNat
  have h8 : (8 : UInt16).toNat % 16 = 8 := by decide
  simp only [word, UInt16.toNat_or, UInt16.toNat_shiftLeft, UInt8.toNat_toUInt16]
  rw [h8, Nat.mod_eq_of_lt hs, ← hor, Nat.shiftLeft_eq]

theorem toNat_lowByte (w : UInt16) : (lowByte w).toNat = w.toNat % 256 := by
  simp [lowByte]

theorem toNat_highByte (w : UInt16) : (highByte w).toNat = w.toNat / 256 := by
  have h := w.toNat_lt
  simp only [highByte, UInt16.toNat_toUInt8, UInt16.toNat_shiftRight]
  simp [Nat.shiftRight_eq_div_pow]
  omega

theorem highByte_word (low high : UInt8) : highByte (word low high) = high := by
  have h := low.toNat_lt
  apply UInt8.toNat_inj.mp
  rw [toNat_highByte, toNat_word]
  omega

/-- A word is its two bytes. -/
theorem word_lowByte_highByte (w : UInt16) : word (lowByte w) (highByte w) = w := by
  apply UInt16.toNat_inj.mp
  rw [toNat_word, toNat_lowByte, toNat_highByte]
  omega

/-! ## Sizes

Memories and positions are counted modulo a size.  The sizes that occur are listed here, each with
its proof that it is not zero. -/

/-- A size to count modulo.  The zero is written out: it is the same one whatever is imported. -/
abbrev Size (n : Nat) : Prop := @NeZero Nat Zero.ofOfNat0 n

instance size4 : Size 4 := ⟨by decide⟩

instance size8 : Size 8 := ⟨by decide⟩

instance size20 : Size 20 := ⟨by decide⟩

instance size32 : Size 32 := ⟨by decide⟩

instance size64 : Size 64 := ⟨by decide⟩

instance size256 : Size 256 := ⟨by decide⟩

instance size2048 : Size 2048 := ⟨by decide⟩

instance size4096 : Size 4096 := ⟨by decide⟩

instance size8192 : Size 8192 := ⟨by decide⟩

instance size61440 : Size 61440 := ⟨by decide⟩

instance size65536 : Size 65536 := ⟨by decide⟩

end Famicom
