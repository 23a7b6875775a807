/-
# The control, mask and status bytes

Three registers of the picture unit are bytes of flags.  A program writes the *control* byte, which
says where things lie in memory and whether blanking interrupts, and the *mask* byte, which says
what is shown.  It reads the *status*, of which only three bits exist.
-/
import Famicom.Word

namespace Famicom.Ppu

/-! ## 1. Control -/

/-- Where things lie in picture memory, and whether blanking interrupts. -/
structure Control where
  bits : UInt8 := 0
  deriving DecidableEq, Repr, Inhabited

namespace Control

/-- The names of the flags, bit 0 first. -/
def names : List String :=
  ["NAMETABLE_X", "NAMETABLE_Y", "INCREMENT_32", "SPRITE_TABLE", "BACKGROUND_TABLE",
   "SPRITE_SIZE_16", "MASTER_SLAVE", "NMI_ENABLE"]

/-- How far each access through the data register moves: along a row, or down a column. -/
@[inline] def increment (c : Control) : Nat := if c.bits &&& 0x04 != 0 then 32 else 1

/-- Where the patterns of small sprites begin. -/
@[inline] def spriteTable (c : Control) : UInt16 := if c.bits &&& 0x08 != 0 then 0x1000 else 0

/-- Where the patterns of the background begin. -/
@[inline] def backgroundTable (c : Control) : UInt16 := if c.bits &&& 0x10 != 0 then 0x1000 else 0

/-- Sprites are one tile high, or two. -/
@[inline] def spriteHeight (c : Control) : Nat := if c.bits &&& 0x20 != 0 then 16 else 8

/-- Whether the start of blanking interrupts. -/
@[inline] def interrupts (c : Control) : Bool := c.bits &&& 0x80 != 0

end Control

/-! ## 2. Mask -/

/-- What is shown, and in which colours. -/
structure Mask where
  bits : UInt8 := 0
  deriving DecidableEq, Repr, Inhabited

namespace Mask

@[inherit_doc Control.names]
def names : List String :=
  ["GRAYSCALE", "SHOW_BG_LEFT", "SHOW_SPRITES_LEFT", "SHOW_BG", "SHOW_SPRITES", "EMPHASIZE_RED",
   "EMPHASIZE_GREEN", "EMPHASIZE_BLUE"]

/-- Colours lose their hue. -/
@[inline] def greyscale (m : Mask) : Bool := m.bits &&& 0x01 != 0

/-- The background shows in the leftmost eight columns. -/
@[inline] def backgroundLeft (m : Mask) : Bool := m.bits &&& 0x02 != 0

/-- Sprites show in the leftmost eight columns. -/
@[inline] def spritesLeft (m : Mask) : Bool := m.bits &&& 0x04 != 0

@[inline] def background (m : Mask) : Bool := m.bits &&& 0x08 != 0

@[inline] def sprites (m : Mask) : Bool := m.bits &&& 0x10 != 0

/-- Anything is shown, so the unit fetches and its registers move. -/
@[inline] def rendering (m : Mask) : Bool := m.bits &&& 0x18 != 0

end Mask

/-! ## 3. Status -/

/-- What the picture unit has to report. -/
structure Status where
  /-- A line held more than eight sprites, by the unit's own count. -/
  overflow : Bool := false
  /-- Sprite 0 has met the background. -/
  hit : Bool := false
  /-- Blanking began and has not been noticed. -/
  vblank : Bool := false
  deriving DecidableEq, Repr, Inhabited

namespace Status

/-- The names of the flags, bit 0 first; the five low bits have none. -/
def names : List String :=
  ["", "", "", "", "", "SPRITE_OVERFLOW", "SPRITE_ZERO_HIT", "VBLANK"]

/-- The three flags in the top bits of a byte. -/
def bits (s : Status) : UInt8 :=
  (if s.overflow then 0x20 else 0) ||| (if s.hit then 0x40 else 0)
    ||| (if s.vblank then 0x80 else 0)

end Status

end Famicom.Ppu
