/-
# The background

The background is drawn out of four shift registers of sixteen bits.  Two hold the pattern and two
the colours, the tile under the beam in the high byte and the next one in the low byte.  Each dot
shifts them by one, and every eighth dot the low bytes take the tile that was fetched meanwhile.
Fine scrolling costs nothing: it only picks which of the top eight bits is the one under the beam.

Fetching a tile takes four accesses, two dots each: its number, its colours, and the two planes of
its pattern.
-/
import Famicom.Ppu.Flags
import Famicom.Ppu.VramAddress

namespace Famicom.Ppu

/-- A tile as it was fetched. -/
structure TileLatch where
  tile : UInt8 := 0
  /-- The number of its palette, two bits. -/
  palette : UInt8 := 0
  /-- The low plane of the pattern. -/
  low : UInt8 := 0
  /-- The high plane of the pattern. -/
  high : UInt8 := 0
  deriving DecidableEq, Repr, Inhabited

/-- The shift registers, and the tile that will enter them next. -/
structure Background where
  latch : TileLatch := {}
  low : UInt16 := 0
  high : UInt16 := 0
  paletteLow : UInt16 := 0
  paletteHigh : UInt16 := 0
  deriving DecidableEq, Repr, Inhabited

namespace Background

/-- One dot. -/
@[inline] def shift (b : Background) : Background :=
  { b with
    low := b.low <<< 1
    high := b.high <<< 1
    paletteLow := b.paletteLow <<< 1
    paletteHigh := b.paletteHigh <<< 1 }

/-- A register with its low byte replaced. -/
@[inline] def withLow (register : UInt16) (b : UInt8) : UInt16 := word b (highByte register)

/-- A palette bit, eight times over. -/
@[inline] def spread (bit : Bool) : UInt8 := if bit then 0xFF else 0

/-- The fetched tile enters the low bytes. -/
@[inline] def load (b : Background) : Background :=
  { b with
    low := withLow b.low b.latch.low
    high := withLow b.high b.latch.high
    paletteLow := withLow b.paletteLow (spread (b.latch.palette &&& 0x01 != 0))
    paletteHigh := withLow b.paletteHigh (spread (b.latch.palette &&& 0x02 != 0)) }

/-- The address of the low plane of the fetched tile, at a line of it. -/
@[inline] def patternAddress (b : Background) (table : UInt16) (line : Fin 8) : UInt16 :=
  table + .ofNat (b.latch.tile.toNat * 16 + line)

/-- The bit of a register that is under the beam. -/
@[inline] def tap (register : UInt16) (fineX : Fin 8) : UInt8 :=
  bitOf (register &&& ((0x8000 : UInt16) >>> UInt16.ofNat fineX) != 0)

/-- The pixel and the palette under the beam; pixel 0 shows what is behind. -/
@[inline] def pixel (b : Background) (fineX : Fin 8) : UInt8 × UInt8 :=
  (tap b.high fineX * 2 + tap b.low fineX,
   tap b.paletteHigh fineX * 2 + tap b.paletteLow fineX)

end Background

end Famicom.Ppu
