/-
# The MMC1

This chip has four registers of five bits and a single data line to fill them through.  A value
arrives one bit per write, the low bit first; the fifth bit completes it and the address of that
fifth write says which register it is for.  A write with the top bit set abandons what has arrived
and returns the program banks to their first arrangement.

`pending` is the list of the bits that have arrived, the first one first.  **It never holds five**:
the fifth empties it.
-/
import Famicom.Board.Chips
import Famicom.Mirroring
import Famicom.Word

namespace Famicom

/-- The registers of an MMC1.  The defaults are their values after power-on. -/
structure Mmc1 where
  /-- Mirroring in bits 0 and 1, program mode in bits 2 and 3, pattern mode in bit 4. -/
  control : UInt8 := 0x0C
  chr0 : UInt8 := 0
  chr1 : UInt8 := 0
  /-- Program bank in bits 0 to 3; bit 4 disables work memory. -/
  prg : UInt8 := 0
  /-- Bits of the value under way, the first to arrive first. -/
  pending : List Bool := []
  deriving DecidableEq, Repr, Inhabited

namespace Mmc1

/-! ## 1. The serial line -/

/-- The number whose bits these are, the lowest first. -/
def ofBits : List Bool → UInt8
  | [] => 0
  | b :: rest => bitOf b + 2 * ofBits rest

/-- Stores a complete value in the register its address selects. -/
def commit (r : Mmc1) (a : UInt16) (v : UInt8) : Mmc1 :=
  match a.toNat / 0x2000 % 4 with
  | 0 => { r with control := v }
  | 1 => { r with chr0 := v }
  | 2 => { r with chr1 := v }
  | _ => { r with prg := v }

/-- A write to the chip. -/
def write (r : Mmc1) (a : UInt16) (v : UInt8) : Mmc1 :=
  if v &&& 0x80 != 0 then { r with pending := [], control := r.control ||| 0x0C }
  else
    let bits := r.pending ++ [v &&& 1 != 0]
    if bits.length = 5 then { r with pending := [] }.commit a (ofBits bits)
    else { r with pending := bits }

/-- Fewer than five bits are ever waiting. -/
theorem pending_write (r : Mmc1) (a : UInt16) (v : UInt8) (h : r.pending.length < 5) :
    (r.write a v).pending.length < 5 := by
  simp only [write]
  split
  · simp
  · split
    · simp only [commit]; split <;> simp
    · next hne => simp at hne ⊢; omega

/-! ## 2. What the registers select -/

/-- Modes 0 and 1 switch 32 KiB at once, 2 fixes the first bank and 3 the last one. -/
def prgMode (r : Mmc1) : UInt8 := (r.control >>> 2) &&& 0x03

/-- The 16 KiB program banks at `$8000` and `$C000`, of a memory of `size` bytes. -/
def prgBanks (r : Mmc1) (size : Nat) : Nat × Nat :=
  let bank := (r.prg &&& 0x0F).toNat
  match r.prgMode.toNat with
  | 0 | 1 => (bank / 2 * 2, bank / 2 * 2 + 1)
  | 2 => (0, bank)
  | _ => (bank, max (size / 0x4000) 1 - 1)

/-- The offset in program memory behind an address. -/
def prgOffset (r : Mmc1) (size : Nat) (a : UInt16) : Nat :=
  let (low, high) := r.prgBanks size
  bankedOffset size (if a < 0xC000 then low else high) 0x4000 a.toNat

/-- The 4 KiB pattern banks at `$0000` and `$1000`: two of their own, or a pair. -/
def chrBanks (r : Mmc1) : Nat × Nat :=
  if r.control &&& 0x10 != 0 then (r.chr0.toNat, r.chr1.toNat)
  else
    let pair := (r.chr0 &&& 0x1E).toNat
    (pair, pair + 1)

/-- The offset in pattern memory behind an address. -/
def chrOffset (r : Mmc1) (size : Nat) (a : UInt16) : Nat :=
  let (low, high) := r.chrBanks
  bankedOffset size (if a &&& 0x1000 == 0 then low else high) 0x1000 a.toNat

/-- Work memory answers while bit 4 of the program register is clear. -/
def ramEnabled (r : Mmc1) : Bool := r.prg &&& 0x10 == 0

def mirroring (r : Mmc1) : Mirroring :=
  match (r.control &&& 0x03).toNat with
  | 0 => .singleLower
  | 1 => .singleUpper
  | 2 => .vertical
  | _ => .horizontal

end Mmc1

end Famicom
