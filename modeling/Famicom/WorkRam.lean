/-
# Work memory

Two kilobytes of memory belong to the processor.  They are decoded by eleven address lines and
given an eight kilobyte window, so every byte appears in it four times.
-/
import Famicom.Memory

namespace Famicom

/-- The processor's own memory. -/
structure WorkRam where
  cells : Memory 2048 := Memory.filled 2048 0

namespace WorkRam

/-- The cell behind an address. -/
@[inline] def cell (a : UInt16) : Nat := a.toNat % 2048

@[inline] def read (r : WorkRam) (a : UInt16) : UInt8 := r.cells.read (cell a)

@[inline] def write : WorkRam → UInt16 → UInt8 → WorkRam
  | ⟨cells⟩, a, v => ⟨cells.write (cell a) v⟩

theorem cell_lt (a : UInt16) : cell a < 2048 := Nat.mod_lt _ (by decide)

theorem read_write (r : WorkRam) (a b : UInt16) (v : UInt8) :
    (r.write a v).read b = if cell a = cell b then v else r.read b := by
  simp only [read, write, Memory.read_write, Nat.mod_eq_of_lt (cell_lt _)]

end WorkRam

end Famicom
