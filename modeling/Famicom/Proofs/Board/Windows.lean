/-
# What is in the windows of an MMC3

An MMC3 shows its program through four windows of 8 KiB, from `$8000` on, and its patterns through
eight of 1 KiB.  Which bank is in a window the registers say, and two bits besides, which exchange
windows.

`windowBank` is the bank in a window of the program.  For the patterns the exchange is taken out
first: `place` is where an address would lie without it, and `bankAt` the bank that belongs there.
**What is read in a window is the byte of its bank** (`cpuRead_window`, `ppuRead_place`), whatever
the size of the memory.
-/
import Famicom.Board

namespace Famicom

/-! ## 1. Whole banks -/

namespace Board

/-- In a memory of whole banks a bank that is there is shown as it is. -/
theorem bankedOffset_of_lt {size bankSize bank count : Nat} (hb : 0 < bankSize)
    (hsize : size = count * bankSize) (hbank : bank < count) (offset : Nat) :
    bankedOffset size bank bankSize offset = bank * bankSize + offset % bankSize := by
  have hcount : size / bankSize = count := by
    rw [hsize, Nat.mul_div_cancel _ hb]
  rw [bankedOffset, hcount, Nat.max_eq_left (by omega), Nat.mod_eq_of_lt hbank]

/-- The last whole bank shows the end of a memory, where the bank size divides the memory's. -/
theorem bankedOffset_last {size bankSize bank offset : Nat} (hb : 0 < bankSize) {banks : Nat}
    (hbank : bank = banks) (hsize : size = (banks + 1) * bankSize) :
    bankedOffset size bank bankSize offset = size - bankSize + offset % bankSize := by
  have hstart : size - bankSize = banks * bankSize := by
    rw [hsize, Nat.succ_mul, Nat.add_sub_cancel]
  rw [hbank, bankedOffset_of_lt hb hsize (Nat.lt_succ_self banks), hstart]

/-- Only the place in the bank counts. -/
theorem bankedOffset_congr {offset offset' bankSize : Nat} (size bank : Nat)
    (h : offset % bankSize = offset' % bankSize) :
    bankedOffset size bank bankSize offset = bankedOffset size bank bankSize offset' := by
  rw [bankedOffset, bankedOffset, h]

end Board

/-! ## 2. Program -/

namespace Mmc3

/-- The bank in a window of the program, where there are `count` of them. -/
def windowBank (r : Mmc3) (count : Nat) : Nat → Nat
  | 0 => if r.prgExchanged then count - 2 else (r.banks.read 6 &&& 0x3F).toNat
  | 1 => (r.banks.read 7 &&& 0x3F).toNat
  | 2 => if r.prgExchanged then (r.banks.read 6 &&& 0x3F).toNat else count - 2
  | _ => count - 1

theorem prgBank_eq (r : Mmc3) (size : Nat) (a : UInt16) :
    r.prgBank size a = r.windowBank (max (size / 0x2000) 2) (a.toNat / 0x2000 % 4) := by
  unfold prgBank windowBank
  match a.toNat / 0x2000 % 4 with
  | 0 | 1 | 2 | _ + 3 => rfl

end Mmc3

namespace Board

/-- An address in a window of the program. -/
def windowAddress (window i : Nat) : UInt16 := .ofNat (0x8000 + window * 0x2000 + i % 0x2000)

theorem toNat_windowAddress {window : Nat} (h : window < 4) (i : Nat) :
    (windowAddress window i).toNat = 0x8000 + window * 0x2000 + i % 0x2000 :=
  UInt16.toNat_ofNat_of_lt' (by change _ < 65536; omega)

/-- **What the processor reads in a window.** -/
theorem cpuRead_window (chips : Chips) (r : Mmc3) {window : Nat} (h : window < 4) (i : Nat) :
    (⟨chips, .mmc3 r⟩ : Board).cpuRead (windowAddress window i) =
      chips.prg.read (bankedOffset chips.prg.size
        (r.windowBank (max (chips.prg.size / 0x2000) 2) window) 0x2000 i) := by
  have ha := toNat_windowAddress h i
  have h6 : ¬windowAddress window i < 0x6000 := by
    rw [UInt16.lt_iff_toNat_lt, ha]
    exact (by omega : ¬0x8000 + window * 0x2000 + i % 0x2000 < 0x6000)
  have h8 : ¬windowAddress window i < 0x8000 := by
    rw [UInt16.lt_iff_toNat_lt, ha]
    exact (by omega : ¬0x8000 + window * 0x2000 + i % 0x2000 < 0x8000)
  have hwindow : (0x8000 + window * 0x2000 + i % 0x2000) / 0x2000 % 4 = window := by omega
  have hplace : (0x8000 + window * 0x2000 + i % 0x2000) % 0x2000 = i % 0x2000 := by omega
  rw [cpuRead, if_neg h6, if_neg h8]
  change chips.prg.read (r.prgOffset chips.prg.size (windowAddress window i)) = _
  rw [Mmc3.prgOffset, Mmc3.prgBank_eq, ha, hwindow, bankedOffset_congr _ _ hplace]

end Board

/-! ## 3. Patterns -/

namespace Mmc3

/-- The place of an address in the pattern space, as if its halves were not exchanged. -/
def place (r : Mmc3) (a : UInt16) : Nat :=
  if r.chrExchanged then (a.toNat / 0x400 % 8 + 4) % 8 else a.toNat / 0x400 % 8

theorem place_lt (r : Mmc3) (a : UInt16) : r.place a < 8 := by
  unfold place
  split <;> omega

/-- The bank at a place, with these values in the registers. -/
def bankAt (banks : Memory 8) (place : Nat) : UInt8 :=
  match place with
  | 0 => banks.read 0 &&& 0xFE
  | 1 => banks.read 0 ||| 0x01
  | 2 => banks.read 1 &&& 0xFE
  | 3 => banks.read 1 ||| 0x01
  | s => banks.read (s - 2)

theorem chrBank_eq (r : Mmc3) (a : UInt16) : r.chrBank a = (bankAt r.banks (r.place a)).toNat := by
  unfold chrBank bankAt
  dsimp only
  rw [← place]
  match r.place a with
  | 0 | 1 | 2 | 3 | _ + 4 => rfl

/-- An address at a place. -/
def placeAddress (r : Mmc3) (place i : Nat) : UInt16 :=
  .ofNat ((if r.chrExchanged then (place + 4) % 8 else place) * 0x400 + i % 0x400)

theorem toNat_placeAddress (r : Mmc3) {place : Nat} (h : place < 8) (i : Nat) :
    (r.placeAddress place i).toNat =
      (if r.chrExchanged then (place + 4) % 8 else place) * 0x400 + i % 0x400 := by
  refine UInt16.toNat_ofNat_of_lt' ?_
  change _ < 65536
  split <;> omega

theorem place_placeAddress (r : Mmc3) {place : Nat} (h : place < 8) (i : Nat) :
    r.place (r.placeAddress place i) = place := by
  rw [Mmc3.place, r.toNat_placeAddress h]
  split <;> omega

/-- What belongs to a place is at its addresses. -/
theorem chrOffset_placeAddress (r : Mmc3) {place : Nat} (h : place < 8) (size i : Nat) :
    r.chrOffset size (r.placeAddress place i) =
      bankedOffset size (bankAt r.banks place).toNat 0x400 i := by
  have hplace : (r.placeAddress place i).toNat % 0x400 = i % 0x400 := by
    rw [r.toNat_placeAddress h]
    omega
  rw [chrOffset, chrBank_eq, r.place_placeAddress h, Board.bankedOffset_congr _ _ hplace]

end Mmc3

/-- **What the picture unit reads at a place.** -/
theorem Board.ppuRead_place (chips : Chips) (r : Mmc3) {place : Nat} (h : place < 8) (i : Nat) :
    (⟨chips, .mmc3 r⟩ : Board).ppuRead (r.placeAddress place i) =
      chips.chr.read (bankedOffset chips.chr.size (Mmc3.bankAt r.banks place).toNat 0x400 i) :=
  congrArg chips.chr.read (r.chrOffset_placeAddress h chips.chr.size i)

end Famicom
