/-
# Exchanging the windows of an MMC3

Two bits of the register that says which bank register is next say where the windows are as well.
**Such a bit moves windows and does nothing else.**  A program that writes the register as it is, but
for one of them, finds every byte where the exchange puts it:

* bit 6 exchanges the first window of the program with the third (`cpuRead_turn_program`);
* bit 7 exchanges the halves of the pattern space (`ppuRead_turn_pattern`).

Some of what is in the windows no register can change.  The last bank of the program is in the fourth
window, and the bank before it in the first or the third, as bit 6 says; and of the patterns, two
banks that go together stay together.

All this is so after any history, with any number of banks.  The number need not be a power of two,
and **what wraps is the bank and never the pair**: of an odd number the last goes with the first.
-/
import Famicom.Proofs.Board.PowerOn

namespace Famicom

/-! ## 1. Turning a bit over -/

namespace Mmc3

/-- The bit that exchanges windows of the program. -/
def programBit : UInt8 := 0x40

/-- The bit that exchanges the halves of the pattern space. -/
def patternBit : UInt8 := 0x80

/-- The chip with a bit of its first register turned over. -/
def turn (r : Mmc3) (bit : UInt8) : Mmc3 := { r with select := r.select ^^^ bit }

theorem turn_banks (r : Mmc3) (bit : UInt8) : (r.turn bit).banks = r.banks := rfl

theorem bits_turn_program (s : UInt8) :
    ((s ^^^ programBit) &&& 0x40 != 0) = !(s &&& 0x40 != 0) ∧
      ((s ^^^ programBit) &&& 0x80 != 0) = (s &&& 0x80 != 0) :=
  forall_byte s (by decide +kernel)

theorem bits_turn_pattern (s : UInt8) :
    ((s ^^^ patternBit) &&& 0x40 != 0) = (s &&& 0x40 != 0) ∧
      ((s ^^^ patternBit) &&& 0x80 != 0) = !(s &&& 0x80 != 0) :=
  forall_byte s (by decide +kernel)

section Turn

variable (r : Mmc3)

theorem prgExchanged_turn_program : (r.turn programBit).prgExchanged = !r.prgExchanged :=
  (bits_turn_program r.select).1

theorem chrExchanged_turn_program : (r.turn programBit).chrExchanged = r.chrExchanged :=
  (bits_turn_program r.select).2

theorem prgExchanged_turn_pattern : (r.turn patternBit).prgExchanged = r.prgExchanged :=
  (bits_turn_pattern r.select).1

theorem chrExchanged_turn_pattern : (r.turn patternBit).chrExchanged = !r.chrExchanged :=
  (bits_turn_pattern r.select).2

/-! ## 2. What moves -/

/-- The window that bit 6 puts in the place of another. -/
def opposite (window : Nat) : Nat := if window % 2 = 0 then 2 - window else window

theorem opposite_lt {window : Nat} (h : window < 4) : opposite window < 4 := by
  unfold opposite
  split <;> omega

/-- **Bit 6 exchanges the banks of the first window and the third.** -/
theorem windowBank_turn_program (count : Nat) {window : Nat} (h : window < 4) :
    (r.turn programBit).windowBank count window = r.windowBank count (opposite window) := by
  unfold windowBank
  rw [prgExchanged_turn_program]
  interval_cases window
  · cases r.prgExchanged <;> rfl
  · rfl
  · cases r.prgExchanged <;> rfl
  · rfl

theorem windowBank_turn_pattern (count window : Nat) :
    (r.turn patternBit).windowBank count window = r.windowBank count window := by
  unfold windowBank
  rw [prgExchanged_turn_pattern, turn_banks]

/-- An address in the other half of the pattern space. -/
theorem otherHalf (a : UInt16) :
    (a ^^^ 0x1000).toNat / 0x400 % 8 = (a.toNat / 0x400 % 8 + 4) % 8 ∧
      (a ^^^ 0x1000).toNat % 0x400 = a.toNat % 0x400 := by
  have hxor : (a ^^^ 0x1000).toNat = a.toNat ^^^ 2 ^ 12 := UInt16.toNat_xor a 0x1000
  have hbit : ∀ slot < 8, slot ^^^ 4 = (slot + 4) % 8 := by decide
  have hslot := hbit (a.toNat / 2 ^ 10 % 2 ^ 3) (Nat.mod_lt _ (by decide))
  rw [hxor]
  constructor
  · change (a.toNat ^^^ 2 ^ 12) / 2 ^ 10 % 2 ^ 3 = (a.toNat / 2 ^ 10 % 2 ^ 3 + 4) % 8
    rw [Nat.xor_div_two_pow, Nat.xor_mod_two_pow, ← hslot]
    rfl
  · change (a.toNat ^^^ 2 ^ 12) % 2 ^ 10 = a.toNat % 2 ^ 10
    rw [Nat.xor_mod_two_pow]
    exact Nat.xor_zero _

/-- **Bit 7 exchanges the halves of the pattern space**, at whatever address. -/
theorem chrOffset_turn_pattern (size : Nat) (a : UInt16) :
    (r.turn patternBit).chrOffset size a = r.chrOffset size (a ^^^ 0x1000) := by
  obtain ⟨hslot, hplace⟩ := otherHalf a
  have hsame : (r.turn patternBit).place a = r.place (a ^^^ 0x1000) := by
    rw [place, place, chrExchanged_turn_pattern, hslot]
    cases r.chrExchanged with
    | false => rfl
    | true =>
      change a.toNat / 0x400 % 8 = ((a.toNat / 0x400 % 8 + 4) % 8 + 4) % 8
      omega
  rw [chrOffset, chrOffset, chrBank_eq, chrBank_eq, hsame, turn_banks,
    Board.bankedOffset_congr _ _ hplace]

theorem chrOffset_turn_program (size : Nat) (a : UInt16) :
    (r.turn programBit).chrOffset size a = r.chrOffset size a := by
  rw [chrOffset, chrOffset, chrBank_eq, chrBank_eq, place, place, chrExchanged_turn_program,
    turn_banks]

end Turn

end Mmc3

namespace Board

open Mmc3

section Chip

variable (chips : Chips) (r : Mmc3)

/-- **Bit 6 exchanges what is read in the first window and in the third**, and what is read in the
others it leaves. -/
theorem cpuRead_turn_program {window : Nat} (h : window < 4) (i : Nat) :
    (⟨chips, .mmc3 (r.turn programBit)⟩ : Board).cpuRead (windowAddress window i) =
      (⟨chips, .mmc3 r⟩ : Board).cpuRead (windowAddress (opposite window) i) := by
  rw [cpuRead_window _ _ h, cpuRead_window _ _ (opposite_lt h), windowBank_turn_program r _ h]

theorem ppuRead_turn_program (a : UInt16) :
    (⟨chips, .mmc3 (r.turn programBit)⟩ : Board).ppuRead a =
      (⟨chips, .mmc3 r⟩ : Board).ppuRead a :=
  congrArg chips.chr.read (r.chrOffset_turn_program _ a)

/-- **Bit 7 exchanges what is read in the halves of the pattern space.** -/
theorem ppuRead_turn_pattern (a : UInt16) :
    (⟨chips, .mmc3 (r.turn patternBit)⟩ : Board).ppuRead a =
      (⟨chips, .mmc3 r⟩ : Board).ppuRead (a ^^^ 0x1000) :=
  congrArg chips.chr.read (r.chrOffset_turn_pattern _ a)

theorem cpuRead_turn_pattern {window : Nat} (h : window < 4) (i : Nat) :
    (⟨chips, .mmc3 (r.turn patternBit)⟩ : Board).cpuRead (windowAddress window i) =
      (⟨chips, .mmc3 r⟩ : Board).cpuRead (windowAddress window i) := by
  rw [cpuRead_window _ _ h, cpuRead_window _ _ h, windowBank_turn_pattern]

/-- Where a program names the next bank register. -/
def NamesRegister (a : UInt16) : Prop := 0x8000 ≤ a.toNat ∧ a.toNat < 0xA000 ∧ a.toNat % 2 = 0

/-- Writing there with one bit turned over turns the bit over. -/
theorem cpuWrite_turn {a : UInt16} (h : NamesRegister a) (bit : UInt8) :
    (⟨chips, .mmc3 r⟩ : Board).cpuWrite a (r.select ^^^ bit) = ⟨chips, .mmc3 (r.turn bit)⟩ := by
  obtain ⟨hlow, hhigh, heven⟩ := h
  have h6 : ¬a < 0x6000 := by
    rw [UInt16.lt_iff_toNat_lt]
    exact (by omega : ¬a.toNat < 0x6000)
  have h8 : ¬a < 0x8000 := by
    rw [UInt16.lt_iff_toNat_lt]
    exact (by omega : ¬a.toNat < 0x8000)
  have hregister : a.toNat / 0x2000 % 4 = 0 := by omega
  have hwrite : r.write a (r.select ^^^ bit) = r.turn bit := by
    rw [Mmc3.write, hregister, heven]
    rfl
  rw [cpuWrite, if_neg h6, if_neg h8]
  exact congrArg (fun r => (⟨chips, .mmc3 r⟩ : Board)) hwrite

/-! ## 3. What stays -/

section Program

variable {n : Nat} (hn : 2 ≤ n) (hsize : chips.prg.size = n * 0x2000)

include hn hsize

/-- **The last bank is in the fourth window.** -/
theorem cpuRead_last (i : Nat) :
    (⟨chips, .mmc3 r⟩ : Board).cpuRead (windowAddress 3 i) =
      chips.prg.read ((n - 1) * 0x2000 + i % 0x2000) := by
  have hcount : max (chips.prg.size / 0x2000) 2 = n := by omega
  rw [cpuRead_window _ _ (by decide), hcount,
    bankedOffset_of_lt (by decide) hsize (by change n - 1 < n; omega)]
  rfl

/-- **The bank before it is in the first or the third**, and bit 6 says in which. -/
theorem cpuRead_fixed (i : Nat) :
    (⟨chips, .mmc3 r⟩ : Board).cpuRead (windowAddress (if r.prgExchanged then 0 else 2) i) =
      chips.prg.read ((n - 2) * 0x2000 + i % 0x2000) := by
  have hcount : max (chips.prg.size / 0x2000) 2 = n := by omega
  have hbank : r.windowBank n (if r.prgExchanged then 0 else 2) = n - 2 := by
    cases h : r.prgExchanged <;> simp [windowBank, h]
  rw [cpuRead_window _ _ (by split <;> decide), hcount, hbank,
    bankedOffset_of_lt (by decide) hsize (by omega)]

end Program

/-- In the lower half of the places there are two registers, each with two banks that go together. -/
theorem bankAt_pair (banks : Memory 8) {pair : Nat} (h : pair < 2) :
    (bankAt banks (2 * pair)).toNat = 2 * ((banks.read pair).toNat / 2) ∧
      (bankAt banks (2 * pair + 1)).toNat = 2 * ((banks.read pair).toNat / 2) + 1 := by
  have hbyte (v : UInt8) :
      (v &&& 0xFE).toNat = 2 * (v.toNat / 2) ∧ (v ||| 0x01).toNat = 2 * (v.toNat / 2) + 1 :=
    forall_byte v (by decide +kernel)
  interval_cases pair
  · exact hbyte _
  · exact hbyte _

/-- **Two banks that go together are side by side**, in the half of the pattern space that bit 7
says. -/
theorem ppuRead_pair (pair : Nat) (h : pair < 2) : ∃ j, ∀ i < 0x400,
    let start := (if r.select &&& 0x80 != 0 then 0x1000 else 0) + pair * 0x800
    let banks := max (chips.chr.size / 0x400) 1
    (⟨chips, .mmc3 r⟩ : Board).ppuRead (.ofNat (start + i)) =
        chips.chr.read (2 * j % banks * 0x400 + i) ∧
      (⟨chips, .mmc3 r⟩ : Board).ppuRead (.ofNat (start + 0x400 + i)) =
        chips.chr.read ((2 * j + 1) % banks * 0x400 + i) := by
  obtain ⟨hlow, hhigh⟩ := bankAt_pair r.banks h
  refine ⟨(r.banks.read pair).toNat / 2, fun i hi => ?_⟩
  have haddress {place : Nat} (h : place < 4) : r.placeAddress place i =
      .ofNat ((if r.select &&& 0x80 != 0 then 0x1000 else 0) + place * 0x400 + i) := by
    rw [placeAddress, Nat.mod_eq_of_lt hi, chrExchanged]
    refine congrArg UInt16.ofNat ?_
    split <;> omega
  have hfirst := ppuRead_place chips r (by omega : 2 * pair < 8) i
  have hsecond := ppuRead_place chips r (by omega : 2 * pair + 1 < 8) i
  rw [haddress (by omega), hlow, bankedOffset, Nat.mod_eq_of_lt hi,
    (by omega : 2 * pair * 0x400 = pair * 0x800)] at hfirst
  rw [haddress (by omega), hhigh, bankedOffset, Nat.mod_eq_of_lt hi,
    (by omega : (2 * pair + 1) * 0x400 = pair * 0x800 + 0x400), ← Nat.add_assoc] at hsecond
  exact ⟨hfirst, hsecond⟩

end Chip

/-! ## 4. After any history -/

/-- What the windows of a board show, whose chip is `r` and whose program has `n` banks. -/
structure Windows (prg : Chip) (n : Nat) (r : Mmc3) (b : Board) : Prop where
  /-- Bit 6 exchanges the first window of the program and the third, -/
  program : ∀ s, NamesRegister s → ∀ i,
    (b.cpuWrite s (r.select ^^^ 0x40)).cpuRead (windowAddress 0 i) =
        b.cpuRead (windowAddress 2 i) ∧
      (b.cpuWrite s (r.select ^^^ 0x40)).cpuRead (windowAddress 2 i) =
        b.cpuRead (windowAddress 0 i)
  /-- and leaves the others, and the patterns. -/
  others : ∀ s, NamesRegister s →
    (∀ i, (b.cpuWrite s (r.select ^^^ 0x40)).cpuRead (windowAddress 1 i) =
        b.cpuRead (windowAddress 1 i) ∧
      (b.cpuWrite s (r.select ^^^ 0x40)).cpuRead (windowAddress 3 i) =
        b.cpuRead (windowAddress 3 i)) ∧
    ∀ a, (b.cpuWrite s (r.select ^^^ 0x40)).ppuRead a = b.ppuRead a
  /-- Bit 7 exchanges the halves of the pattern space, and leaves the program. -/
  patterns : ∀ s, NamesRegister s →
    (∀ a, (b.cpuWrite s (r.select ^^^ 0x80)).ppuRead a = b.ppuRead (a ^^^ 0x1000)) ∧
    ∀ window < 4, ∀ i, (b.cpuWrite s (r.select ^^^ 0x80)).cpuRead (windowAddress window i) =
      b.cpuRead (windowAddress window i)
  /-- The last bank is in the fourth window, -/
  last : ∀ i, b.cpuRead (windowAddress 3 i) = prg.read ((n - 1) * 0x2000 + i % 0x2000)
  /-- and the bank before it in the first or the third. -/
  fixed : ∀ i, b.cpuRead (windowAddress (if r.select &&& 0x40 != 0 then 0 else 2) i) =
    prg.read ((n - 2) * 0x2000 + i % 0x2000)
  /-- In either of the windows of 2 KiB are two banks of patterns that go together. -/
  pairs : ∀ pair < 2, ∃ j, ∀ i < 0x400,
    let start := (if r.select &&& 0x80 != 0 then 0x1000 else 0) + pair * 0x800
    let banks := max (b.chips.chr.size / 0x400) 1
    b.ppuRead (.ofNat (start + i)) = b.chips.chr.read (2 * j % banks * 0x400 + i) ∧
      b.ppuRead (.ofNat (start + 0x400 + i)) =
        b.chips.chr.read ((2 * j + 1) % banks * 0x400 + i)

theorem windows_mmc3 (chips : Chips) (r : Mmc3) {n : Nat} (hn : 2 ≤ n)
    (hsize : chips.prg.size = n * 0x2000) : Windows chips.prg n r ⟨chips, .mmc3 r⟩ where
  program s hs i := by
    rw [cpuWrite_turn chips r hs]
    exact ⟨cpuRead_turn_program chips r (by decide : 0 < 4) i,
      cpuRead_turn_program chips r (by decide : 2 < 4) i⟩
  others s hs := by
    rw [cpuWrite_turn chips r hs]
    refine ⟨fun i => ⟨?_, ?_⟩, ppuRead_turn_program chips r⟩
    · exact cpuRead_turn_program chips r (by decide : 1 < 4) i
    · exact cpuRead_turn_program chips r (by decide : 3 < 4) i
  patterns s hs := by
    rw [cpuWrite_turn chips r hs]
    exact ⟨ppuRead_turn_pattern chips r, fun window h => cpuRead_turn_pattern chips r h⟩
  last := cpuRead_last chips r hn hsize
  fixed := cpuRead_fixed chips r hn hsize
  pairs := ppuRead_pair chips r

/-- **Whatever was done to a board with an MMC3, the two bits move windows and nothing else**, and
some of what is in the windows no register can change. -/
theorem bits_move_windows (chips : Chips) (wired : Mirroring) {n : Nat} (hn : 2 ≤ n)
    (hsize : chips.prg.size = n * 0x2000) (history : List Operation) :
    ∃ r, ((mmc3 chips wired).run history).mapper = .mmc3 r ∧
      Windows chips.prg n r ((mmc3 chips wired).run history) := by
  have hprg := (mmc3 chips wired).prg_run history
  obtain ⟨hlogic, -⟩ := (isOf_powerOn .mmc3 chips wired).run history
  change Soldered wired .mmc3 ((mmc3 chips wired).run history).mapper at hlogic
  generalize (mmc3 chips wired).run history = b at hprg hlogic ⊢
  obtain ⟨chips', m⟩ := b
  change chips'.prg = chips.prg at hprg
  cases hlogic with
  | mmc3 r hr =>
    refine ⟨r, rfl, ?_⟩
    rw [← hprg] at hsize ⊢
    exact windows_mmc3 chips' r hn hsize

/-- Three banks of program, each full of its number, and three of patterns that can be written. -/
def threeBanks : Chips where
  prg := (Array.replicate 0x2000 0 ++ Array.replicate 0x2000 1) ++ Array.replicate 0x2000 2
  chr := Chip.blank 0xC00
  chrWritable := true

/-- R6 names a fifth bank, R0 the third and a fourth of patterns, and both exchanges are on. -/
theorem bits_move_windows_threeBanks :
    let history : List Operation :=
      [.cpuWrite 0x8000 0x06, .cpuWrite 0x8001 4, .cpuWrite 0x8000 0xC0, .cpuWrite 0x8001 3,
        .ppuWrite 0x1000 7, .observe 0x1000]
    2 ≤ 3 ∧ threeBanks.prg.size = 3 * 0x2000 ∧
      ∃ r, ((mmc3 threeBanks .vertical).run history).mapper = .mmc3 r ∧
        Windows threeBanks.prg 3 r ((mmc3 threeBanks .vertical).run history) := by
  intro history
  have hsize : threeBanks.prg.size = 3 * 0x2000 := by
    simp only [threeBanks, Array.size_append, Array.size_replicate]
  exact ⟨by decide, hsize, bits_move_windows threeBanks .vertical (by decide) hsize history⟩

end Board
end Famicom
