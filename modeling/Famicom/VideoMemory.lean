/-
# The picture unit's memory in the console

The picture unit finds patterns in the cartridge and nametables in the console, and the cartridge
says which nametables share a page.  **The cartridge sees every access before it is served**, of
whatever kind: some boards count them.

With no cartridge in the slot the patterns read as 0 and the nametables lie horizontally.
-/
import Famicom.AddressBus
import Famicom.Cartridge

namespace Famicom

/-- The console's nametables and whatever is in the cartridge slot. -/
structure VideoMemory where
  nametables : Nametables := {}
  slot : Option Cartridge := none

namespace VideoMemory

/-- How the nametables share their pages now. -/
@[inline] def mirroring (slot : Option Cartridge) : Mirroring :=
  match slot with
  | some c => c.mirroring
  | none => .horizontal

/-- The cartridge after it has seen an address. -/
@[inline] def observe (slot : Option Cartridge) (a : UInt16) : Option Cartridge :=
  match slot with
  | some ⟨header, board⟩ => some ⟨header, board.observe a⟩
  | none => none

/-- The byte of a pattern. -/
@[inline] def readPattern (slot : Option Cartridge) (a : UInt16) : UInt8 :=
  match slot with
  | some c => c.board.ppuRead a
  | none => 0

/-- The cartridge after a byte of a pattern was written. -/
@[inline] def writePattern (slot : Option Cartridge) (a : UInt16) (v : UInt8) : Option Cartridge :=
  match slot with
  | some ⟨header, board⟩ => some ⟨header, board.ppuWrite a v⟩
  | none => none

instance : AddressBus VideoMemory where
  read a := fun ⟨nametables, slot⟩ =>
    let a := a &&& 0x3FFF
    let slot := observe slot a
    let v :=
      if a < 0x2000 then readPattern slot a else nametables.read (mirroring slot) a
    (v, ⟨nametables, slot⟩)
  write a v := fun ⟨nametables, slot⟩ =>
    let a := a &&& 0x3FFF
    let slot := observe slot a
    if a < 0x2000 then ⟨nametables, writePattern slot a v⟩
    else ⟨nametables.write (mirroring slot) a v, slot⟩

end VideoMemory

end Famicom
