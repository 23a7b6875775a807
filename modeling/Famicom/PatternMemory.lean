/-
# Picture memory of its own

The plainest memory a picture unit can be put on: 8 KiB of patterns that can be written, and
nametables under a fixed mirroring.  No cartridge watches it.
-/
import Famicom.AddressBus
import Famicom.Mirroring

namespace Famicom

/-- Patterns, nametables, and how the tables share their pages. -/
structure PatternMemory where
  patterns : Memory 8192 := Memory.filled 8192 0
  nametables : Nametables := {}
  mirroring : Mirroring := .vertical

namespace PatternMemory

/-- Fourteen lines of an address reach the memory; the top one of them picks the nametables. -/
@[inline] def isPattern (a : UInt16) : Bool := a.toNat % 0x4000 < 0x2000

instance : AddressBus PatternMemory where
  read a m :=
    (if isPattern a then m.patterns.read a.toNat else m.nametables.read m.mirroring a, m)
  write a v := fun ⟨patterns, nametables, mirroring⟩ =>
    if isPattern a then ⟨patterns.write a.toNat v, nametables, mirroring⟩
    else ⟨patterns, nametables.write mirroring a v, mirroring⟩

end PatternMemory

end Famicom
