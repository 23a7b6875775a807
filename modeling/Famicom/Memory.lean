/-
# Memories

A memory chip answers every address its bus can carry: the lines it does not decode are ignored,
so its contents repeat through the window it is given.  `Memory n` is such a chip.  It holds
exactly `n` bytes and is indexed modulo `n`, and therefore **no access can fall outside it**: a
caller hands over an address and the folding happens here.

Cartridge memories have whatever size the image declares, possibly none.  `Chip` is a memory of
any size with the same folding; an empty one answers 0 and drops what is written to it.

Both come with the law that makes a memory a memory: a read returns the last byte written to the
cell, and writing one cell leaves the others alone.
-/
import Famicom.Word

namespace Famicom

/-! ## 1. Memories of a fixed size -/

/-- A memory of `n` bytes, addressed modulo `n`. -/
abbrev Memory (n : Nat) := Vector UInt8 n

namespace Memory

variable {n : Nat} [Size n]

/-- Every cell holds `b`. -/
@[inline] def filled (n : Nat) (b : UInt8) : Memory n := Vector.replicate n b

/-- The byte at `i`, folded into the memory. -/
@[inline] def read (m : Memory n) (i : Nat) : UInt8 :=
  have h : i % n < n := Nat.mod_lt i (Nat.pos_of_neZero n)
  m[i % n]

/-- Stores `b` at `i`, folded into the memory. -/
@[inline] def write (m : Memory n) (i : Nat) (b : UInt8) : Memory n :=
  m.set (i % n) b (Nat.mod_lt i (Nat.pos_of_neZero n))

/-- The `len` bytes from `start` on, folded into the memory. -/
def slice (m : Memory n) (start len : Nat) : List UInt8 :=
  (List.range len).map fun i => m.read (start + i)

/-- Stores a run of bytes from `start` on. -/
def load (m : Memory n) (start : Nat) : List UInt8 → Memory n
  | [] => m
  | b :: rest => (m.write start b).load (start + 1) rest

/-- Read over write.  The written cell answers the new byte and every other its old one. -/
theorem read_write (m : Memory n) (i j : Nat) (b : UInt8) :
    (m.write i b).read j = if i % n = j % n then b else m.read j := by
  simp only [read, write, Vector.getElem_set]

theorem read_write_self (m : Memory n) (i : Nat) (b : UInt8) : (m.write i b).read i = b := by
  simp [read_write]

theorem read_filled (b : UInt8) (i : Nat) : (filled n b).read i = b := by
  simp [read, filled]

end Memory

/-! ## 2. Memories of any size -/

/-- The bytes of a cartridge memory chip; it may be empty. -/
abbrev Chip := Array UInt8

namespace Chip

/-- A chip of `size` zero bytes. -/
@[inline] def blank (size : Nat) : Chip := Array.replicate size 0

/-- The byte at `i`, folded into the chip; an empty chip answers 0. -/
@[inline] def read (c : Chip) (i : Nat) : UInt8 := c.getD (i % c.size) 0

/-- Stores `b` at `i`, folded into the chip; an empty chip drops it. -/
@[inline] def write (c : Chip) (i : Nat) (b : UInt8) : Chip := c.setIfInBounds (i % c.size) b

theorem size_write (c : Chip) (i : Nat) (b : UInt8) : (c.write i b).size = c.size := by
  simp [write]

/-- Read over write, as long as there is a cell to hold the byte. -/
theorem read_write (c : Chip) (i j : Nat) (b : UInt8) (h : 0 < c.size) :
    (c.write i b).read j = if i % c.size = j % c.size then b else c.read j := by
  have hj := Nat.mod_lt j h
  simp [read, write, hj, Array.getElem_setIfInBounds]

theorem read_empty (i : Nat) : read #[] i = 0 := rfl

end Chip

end Famicom
