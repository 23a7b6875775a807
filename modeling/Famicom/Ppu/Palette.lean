/-
# Colours

The picture unit draws with 64 colours.  Thirty-two bytes of palette memory name the ones in use:
four palettes of four for the background and four for sprites.  The first entry of every palette is
the same cell, the backdrop, so eight of the thirty-two addresses are one; and a cell holds six
bits, so **whatever was written, a colour comes back below 64**.

`Palette.colours` says what the colours look like, and `Palette.toRgb` paints a picture with them.
-/
import Famicom.Memory

namespace Famicom

/-- Palette memory. -/
structure Palette where
  cells : Memory 32 := Memory.filled 32 0

namespace Palette

/-! ## 1. Palette memory -/

/-- The cell behind an address: the thirty-two repeat, and every fourth is the backdrop. -/
@[inline] def cell (a : UInt16) : Nat :=
  let i := a.toNat % 32
  if i % 4 = 0 then 0 else i

@[inline] def read (p : Palette) (a : UInt16) : UInt8 := p.cells.read (cell a) &&& 0x3F

@[inline] def write : Palette → UInt16 → UInt8 → Palette
  | ⟨cells⟩, a, v => ⟨cells.write (cell a) (v &&& 0x3F)⟩

theorem cell_lt (a : UInt16) : cell a < 32 := by
  have : a.toNat % 32 < 32 := Nat.mod_lt _ (by decide)
  simp only [cell]
  split <;> omega

theorem toNat_read_lt (p : Palette) (a : UInt16) : (p.read a).toNat < 64 := by
  have : (p.read a).toNat ≤ 0x3F := by simp only [read, UInt8.toNat_and]; exact Nat.and_le_right
  omega

theorem read_write (p : Palette) (a b : UInt16) (v : UInt8) :
    (p.write a v).read b = if cell a = cell b then v &&& 0x3F else p.read b := by
  simp only [read, write, Memory.read_write, Nat.mod_eq_of_lt (cell_lt _)]
  split
  · rw [UInt8.and_assoc, UInt8.and_self]
  · rfl

/-! ## 2. What the colours look like -/

/-- The red, green and blue of each colour. -/
def colours : Vector (UInt8 × UInt8 × UInt8) 64 := #v[
  (84, 84, 84), (0, 30, 116), (8, 16, 144), (48, 0, 136), (68, 0, 100), (92, 0, 48),
  (84, 4, 0), (60, 24, 0), (32, 42, 0), (8, 58, 0), (0, 64, 0), (0, 60, 0), (0, 50, 60),
  (0, 0, 0), (0, 0, 0), (0, 0, 0), (152, 150, 152), (8, 76, 196), (48, 50, 236), (92, 30, 228),
  (136, 20, 176), (160, 20, 100), (152, 34, 32), (120, 60, 0), (84, 90, 0), (40, 114, 0),
  (8, 124, 0), (0, 118, 40), (0, 102, 120), (0, 0, 0), (0, 0, 0), (0, 0, 0), (236, 238, 236),
  (76, 154, 236), (120, 124, 236), (176, 98, 236), (228, 84, 236), (236, 88, 180),
  (236, 106, 100), (212, 136, 32), (160, 170, 0), (116, 196, 0), (76, 208, 32), (56, 204, 108),
  (56, 180, 204), (60, 60, 60), (0, 0, 0), (0, 0, 0), (236, 238, 236), (168, 204, 236),
  (188, 188, 236), (212, 178, 236), (236, 174, 236), (236, 174, 212), (236, 180, 176),
  (228, 196, 144), (204, 210, 120), (180, 222, 120), (168, 226, 144), (152, 226, 180),
  (160, 214, 228), (160, 162, 160), (0, 0, 0), (0, 0, 0)]

/-- The red, green and blue of a colour; only its six low bits count. -/
def colour (c : UInt8) : UInt8 × UInt8 × UInt8 :=
  have h : c.toNat % 64 < 64 := Nat.mod_lt _ (by decide)
  colours[c.toNat % 64]

/-- A picture in colours as one in red, green and blue, three bytes for each pixel. -/
def toRgb (picture : List UInt8) : List UInt8 :=
  picture.flatMap fun c =>
    let (r, g, b) := colour c
    [r, g, b]

end Palette

end Famicom
