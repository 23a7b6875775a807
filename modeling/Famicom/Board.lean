/-
# Cartridge boards

A board is its memories and the logic that decides which part of them the console sees.  The logic
is one of four kinds, and each is only a handful of registers: **the contents of the memories are
no part of it**, so a reset, which is the logic's business, cannot lose a byte.

The processor sees work memory at `$6000` and program memory from `$8000` on; the picture unit sees
pattern memory below `$2000`.  What a board does not decode answers 0, and writes to it are
dropped.
-/
import Famicom.Board.Mmc1
import Famicom.Board.Mmc3
import Famicom.Board.Uxrom

namespace Famicom

/-- The logic of a board: which kind it is, and the registers of that kind. -/
inductive Mapper where
  /-- No logic at all; the mirroring is soldered. -/
  | nrom (mirroring : Mirroring)
  | mmc1 (registers : Mmc1)
  /-- A latch for the switched program bank. -/
  | uxrom (mirroring : Mirroring) (bank : UInt8)
  | mmc3 (registers : Mmc3)

namespace Mapper

/-- The number that image headers give this kind of board. -/
def number : Mapper → Nat
  | nrom _ => 0
  | mmc1 _ => 1
  | uxrom .. => 2
  | mmc3 _ => 4

@[inline] def mirroring : Mapper → Mirroring
  | nrom m => m
  | mmc1 r => r.mirroring
  | uxrom m _ => m
  | mmc3 r => r.mirroring

/-- The level of the board's interrupt line. -/
@[inline] def irq : Mapper → Bool
  | mmc3 r => r.counter.pending
  | _ => false

/-- Whether work memory answers. -/
def ramReadable : Mapper → Bool
  | mmc1 r => r.ramEnabled
  | mmc3 r => r.ramEnabled
  | _ => true

/-- Whether work memory takes writes. -/
def ramWritable : Mapper → Bool
  | mmc1 r => r.ramEnabled
  | mmc3 r => r.ramEnabled && !r.ramProtected
  | _ => true

/-- The offset in a program memory of `size` bytes behind an address from `$8000` on. -/
def prgOffset (m : Mapper) (size : Nat) (a : UInt16) : Nat :=
  match m with
  | nrom _ => a.toNat - 0x8000
  | mmc1 r => r.prgOffset size a
  | uxrom _ bank => Uxrom.prgOffset bank size a
  | mmc3 r => r.prgOffset size a

/-- The offset in a pattern memory of `size` bytes behind an address. -/
def chrOffset (m : Mapper) (size : Nat) (a : UInt16) : Nat :=
  match m with
  | nrom _ | uxrom .. => bankedOffset size 0 0x2000 a.toNat
  | mmc1 r => r.chrOffset size a
  | mmc3 r => r.chrOffset size a

/-- A write to the logic, on a board with `size` bytes of program memory. -/
def write (m : Mapper) (size : Nat) (a : UInt16) (v : UInt8) : Mapper :=
  match m with
  | nrom m => nrom m
  | mmc1 r => mmc1 (r.write a v)
  | uxrom m _ => uxrom m (Uxrom.select size v)
  | mmc3 r => mmc3 (r.write a v)

/-- The picture unit put an address on its bus. -/
@[inline] def observe : Mapper → UInt16 → Mapper
  | mmc3 r, a => mmc3 (r.observe a)
  | m, _ => m

/-- The logic after a reset. -/
def reset : Mapper → Mapper
  | nrom m => nrom m
  | mmc1 _ => mmc1 {}
  | uxrom m _ => uxrom m 0
  | mmc3 r => mmc3 r.reset

end Mapper

/-- A cartridge board. -/
structure Board where
  chips : Chips
  mapper : Mapper

namespace Board

/-! ## 1. Boards after power-on -/

def nrom (chips : Chips) (mirroring : Mirroring) : Board := ⟨chips, .nrom mirroring⟩

def mmc1 (chips : Chips) : Board := ⟨chips, .mmc1 {}⟩

/-- This board has no work memory. -/
def uxrom (chips : Chips) (mirroring : Mirroring) : Board :=
  ⟨{ chips with ram := #[] }, .uxrom mirroring 0⟩

def mmc3 (chips : Chips) (mirroring : Mirroring) : Board := ⟨chips, .mmc3 (.powerOn mirroring)⟩

/-! ## 2. What the processor sees -/

/-- The byte the processor reads. -/
def cpuRead (b : Board) (a : UInt16) : UInt8 :=
  if a < 0x6000 then 0
  else if a < 0x8000 then if b.mapper.ramReadable then b.chips.readRam a else 0
  else b.chips.prg.read (b.mapper.prgOffset b.chips.prg.size a)

/-- The board after the processor wrote a byte. -/
def cpuWrite : Board → UInt16 → UInt8 → Board
  | ⟨chips, mapper⟩, a, v =>
    if a < 0x6000 then ⟨chips, mapper⟩
    else if a < 0x8000 then
      if mapper.ramWritable then ⟨chips.writeRam a v, mapper⟩ else ⟨chips, mapper⟩
    else
      let size := chips.prg.size
      ⟨chips, mapper.write size a v⟩

/-! ## 3. What the picture unit sees -/

/-- The byte of a pattern. -/
def ppuRead (b : Board) (a : UInt16) : UInt8 :=
  b.chips.chr.read (b.mapper.chrOffset b.chips.chr.size a)

/-- The board after the picture unit wrote a byte of a pattern. -/
def ppuWrite : Board → UInt16 → UInt8 → Board
  | ⟨chips, mapper⟩, a, v =>
    let offset := mapper.chrOffset chips.chr.size a
    ⟨chips.writeChr offset v, mapper⟩

@[inline] def mirroring (b : Board) : Mirroring := b.mapper.mirroring

@[inline] def irq (b : Board) : Bool := b.mapper.irq

/-- The picture unit put an address on its bus. -/
@[inline] def observe : Board → UInt16 → Board
  | ⟨chips, mapper⟩, a => ⟨chips, mapper.observe a⟩

/-- The board after a reset. -/
def reset (b : Board) : Board := { b with mapper := b.mapper.reset }

/-- A reset leaves every memory as it was. -/
theorem chips_reset (b : Board) : b.reset.chips = b.chips := rfl

end Board

end Famicom
