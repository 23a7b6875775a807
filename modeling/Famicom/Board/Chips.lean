/-
# The memories on a cartridge board

Whatever else a board carries, it has these: a program memory, perhaps some work memory for the
program, and a memory of picture patterns.  Patterns may be RAM; a board without any pattern memory
is given 8 KiB of it.

A board that has more memory than its windows can show shows it in *banks*.  `bankedOffset` is the
whole arithmetic of banking: the bank number wraps at the number of whole banks present, and the
address selects a byte within the bank.
-/
import Famicom.Memory

namespace Famicom

/-- The offset of the byte that bank number `bank` shows at `offset`, in a memory of `size` bytes
cut into banks of `bankSize`. -/
@[inline] def bankedOffset (size bank bankSize offset : Nat) : Nat :=
  bank % max (size / bankSize) 1 * bankSize + offset % bankSize

/-- A banked access stays inside a memory that holds at least one whole bank. -/
theorem bankedOffset_lt {size bankSize : Nat} (bank offset : Nat) (hb : 0 < bankSize)
    (h : bankSize ≤ size) : bankedOffset size bank bankSize offset < size := by
  have hq : 0 < size / bankSize := Nat.div_pos h hb
  have hmod : bank % max (size / bankSize) 1 < size / bankSize := by
    rw [Nat.max_eq_left hq]; exact Nat.mod_lt _ hq
  have hoff : offset % bankSize < bankSize := Nat.mod_lt _ hb
  have hle : (bank % max (size / bankSize) 1 + 1) * bankSize ≤ size / bankSize * bankSize :=
    Nat.mul_le_mul_right _ hmod
  have hsize : size / bankSize * bankSize ≤ size := Nat.div_mul_le_self _ _
  rw [Nat.add_mul, Nat.one_mul] at hle
  simp only [bankedOffset]
  omega

/-- The memories of a board. -/
structure Chips where
  /-- Program memory. -/
  prg : Chip
  /-- Work memory; a board may have none. -/
  ram : Chip := #[]
  /-- Pattern memory. -/
  chr : Chip
  /-- Whether pattern memory is RAM. -/
  chrWritable : Bool := false

namespace Chips

/-- The pattern memory of a board whose image holds none. -/
def blankPatterns : Chip := Chip.blank 8192

/-- A board with the given images and `ramSize` bytes of work memory. -/
def ofImages (prg chr : Chip) (chrWritable : Bool) (ramSize : Nat) : Chips where
  prg
  ram := Chip.blank ramSize
  chr := if chr.isEmpty then blankPatterns else chr
  chrWritable

/-- Stores a byte of work memory; the window starts at `$6000`. -/
@[inline] def writeRam : Chips → UInt16 → UInt8 → Chips
  | ⟨prg, ram, chr, w⟩, a, v => ⟨prg, ram.write (a.toNat - 0x6000) v, chr, w⟩

/-- The byte of work memory at an address of its window. -/
@[inline] def readRam (c : Chips) (a : UInt16) : UInt8 := c.ram.read (a.toNat - 0x6000)

/-- Stores a byte of pattern memory, if it is RAM. -/
@[inline] def writeChr : Chips → Nat → UInt8 → Chips
  | ⟨prg, ram, chr, true⟩, i, v => ⟨prg, ram, chr.write i v, true⟩
  | c, _, _ => c

end Chips

end Famicom
