/-
# The picture unit: one dot

A dot is the unit's cycle, three to one of the processor.  On the lines of the picture and on the
rehearsal line, if anything is to be shown, each dot does its part of three things at once: the
background for the tile after next is fetched, the sprites for the next line are looked for and
fetched, and the shift registers move.  On the lines of the picture each of the dots 1 to 256 then
writes a pixel, whether anything is shown or not.

Blanking begins at dot 1 of line 241, where the picture is complete and a program may be
interrupted; its report ends at dot 1 of the rehearsal line.
-/
import Famicom.AddressBus
import Famicom.Ppu.State

namespace Famicom.Ppu

variable {μ : Type} [AddressBus μ]

/-! ## 1. Background -/

/-- True for the dots on which tiles are fetched and the registers shift. -/
@[inline] def fetchesTile (dot : Nat) : Bool :=
  (2 ≤ dot && dot ≤ 257) || (321 ≤ dot && dot ≤ 337)

/-- Fetches the number of the tile at the current position. -/
@[inline] def fetchTile (p : Ppu) (mem : μ) : Ppu × μ :=
  let (tile, mem) := AddressBus.read p.v.tileAddress mem
  ({ p with background := { p.background with latch := { p.background.latch with tile } } }, mem)

/-- One dot of fetching a tile: its number, its palette and the two planes of its pattern, two dots
each, and then a step to the right. -/
@[specialize] def tileDot (p : Ppu) (mem : μ) : Ppu × μ :=
  match (p.raster.dot - 1) % 8 with
  | 0 => fetchTile { p with background := p.background.load } mem
  | 2 =>
    let (colours, mem) := AddressBus.read p.v.attributeAddress mem
    let palette := (colours >>> .ofNat p.v.attributeShift) &&& 0x03
    ({ p with background := { p.background with latch := { p.background.latch with palette } } },
      mem)
  | 4 =>
    let a := p.background.patternAddress p.control.backgroundTable p.v.line
    let (low, mem) := AddressBus.read a mem
    ({ p with background := { p.background with latch := { p.background.latch with low } } }, mem)
  | 6 =>
    let a := p.background.patternAddress p.control.backgroundTable p.v.line
    let (high, mem) := AddressBus.read (a + 8) mem
    ({ p with background := { p.background with latch := { p.background.latch with high } } }, mem)
  | 7 => ({ p with v := p.v.incrementX }, mem)
  | _ => (p, mem)

/-- What a dot does to the position besides stepping from tile to tile: at the end of a line it goes
one line down and back to where lines begin, and on the rehearsal line it goes back to the top. -/
@[specialize] def positionDot (p : Ppu) (mem : μ) : Ppu × μ :=
  let dot := p.raster.dot
  if dot = 256 then ({ p with v := p.v.incrementY }, mem)
  else if dot = 257 then ({ p with v := p.v.copyHorizontal p.t }, mem)
  -- Two fetches that nothing uses, but which the cartridge can see.
  else if dot = 338 || dot = 340 then fetchTile p mem
  else if 280 ≤ dot && dot ≤ 304 && p.raster.isPreRender then
    ({ p with v := p.v.copyVertical p.t }, mem)
  else (p, mem)

/-- One dot of the background. -/
@[specialize] def backgroundDot (p : Ppu) (mem : μ) : Ppu × μ :=
  if fetchesTile p.raster.dot then
    let p := if p.mask.background then { p with background := p.background.shift } else p
    let (p, mem) := p.tileDot mem
    p.positionDot mem
  else p.positionDot mem

/-! ## 2. Sprites -/

/-- One dot of looking for sprites, on a line of the picture: a byte is taken at odd dots and acted
on at even ones. -/
def searchDot (p : Ppu) : Ppu :=
  if p.raster.dot % 2 = 1 then { p with sprites := p.sprites.look p.oam }
  else
    let (sprites, overflow) := p.sprites.act p.raster.line p.control.spriteHeight
    { p with sprites, status := { p.status with overflow := p.status.overflow || overflow } }

/-- One dot of fetching a sprite, eight dots to each: two fetches that nothing uses, and the two
planes of its pattern.  Meanwhile the place in sprite memory is held at its start. -/
@[specialize] def spriteFetchDot (p : Ppu) (mem : μ) : Ppu × μ :=
  let offset := p.raster.dot - 257
  let slot := Fin.ofNat 8 (offset / 8)
  let p := { p with oamAddress := 0 }
  match offset % 8 with
  | 0 =>
    let (_, mem) := AddressBus.read p.v.tileAddress mem
    (if slot = 0 then { p with sprites := p.sprites.adopt } else p, mem)
  | 2 => (p, (AddressBus.read p.v.tileAddress mem).2)
  | 4 =>
    let a := p.sprites.patternAddress p.control p.raster.line slot
    let (low, mem) := AddressBus.read a mem
    ({ p with sprites := p.sprites.loadLow slot low }, mem)
  | 6 =>
    let a := p.sprites.patternAddress p.control p.raster.line slot
    let (high, mem) := AddressBus.read (a + 8) mem
    ({ p with sprites := p.sprites.loadHigh slot high }, mem)
  | _ => (p, mem)

/-- One dot of the sprites. -/
@[specialize] def spriteDot (p : Ppu) (mem : μ) : Ppu × μ :=
  let dot := p.raster.dot
  if dot = 0 then (p, mem)
  else if dot = 1 then ({ p with sprites := { p.sprites with search := {} } }, mem)
  else if dot ≤ 64 then
    (if dot % 2 = 0 then { p with sprites := p.sprites.clear dot } else p, mem)
  else if dot ≤ 256 then (if p.raster.isVisible then p.searchDot else p, mem)
  else if dot ≤ 320 then p.spriteFetchDot mem
  else (p, mem)

/-! ## 3. The pixel -/

/-- The background's pixel and palette at a column, or nothing where it is not shown. -/
@[inline] def backgroundPixel (p : Ppu) (x : Nat) : UInt8 × UInt8 :=
  if p.mask.background && (8 ≤ x || p.mask.backgroundLeft) then p.background.pixel p.fineX
  else (0, 0)

/-- The unit whose sprite is foremost at a column, and its place, where sprites are shown. -/
@[inline] def spritePixel (p : Ppu) (x : Nat) : Option (Nat × SpriteUnit) :=
  if p.mask.sprites && (8 ≤ x || p.mask.spritesLeft) then p.sprites.front else none

/-- The palette cell of a pixel of the background. -/
@[inline] def backgroundCell (pixel palette : UInt8) : UInt16 :=
  0x3F00 + (palette * 4 + pixel).toUInt16

/-- The palette cell of a pixel of a sprite. -/
@[inline] def spriteCell (u : SpriteUnit) : UInt16 := 0x3F10 + (u.palette * 4 + u.pixel).toUInt16

/-- The palette cell to show where the background and the foremost sprite are as given. -/
@[inline] def composedCell (pixel palette : UInt8) : Option (Nat × SpriteUnit) → UInt16
  | none => if pixel == 0 then 0x3F00 else backgroundCell pixel palette
  | some (_, u) =>
    if pixel == 0 then spriteCell u
    else if u.isBehind then backgroundCell pixel palette
    else spriteCell u

/-- Whether sprite 0 meets the background at a dot.  The first two dots and the last column do not
count. -/
@[inline] def meets (p : Ppu) (x : Nat) (pixel : UInt8) : Option (Nat × SpriteUnit) → Bool
  | some (slot, _) => slot == 0 && pixel != 0 && p.sprites.zeroInLine && 2 ≤ x && x != 255
  | none => false

/-- The colour of a palette cell, without its hue if the mask says so. -/
@[inline] def shade (p : Ppu) (cell : UInt16) : UInt8 :=
  let colour := p.palette.read cell
  if p.mask.greyscale then colour &&& 0x30 else colour

/-- Writes the pixel of a dot. -/
def pixelDot (p : Ppu) : Ppu :=
  let x := p.raster.dot - 1
  let (pixel, palette) := p.backgroundPixel x
  let sprite := p.spritePixel x
  let colour := p.shade (composedCell pixel palette sprite)
  let hit := p.meets x pixel sprite
  let place := p.raster.line * width + x
  { p with
    status := { p.status with hit := p.status.hit || hit }
    frame := p.frame.write place colour }

/-! ## 4. The dot -/

/-- The reports end as the rehearsal line begins. -/
@[inline] def clearReports (p : Ppu) : Ppu :=
  if p.raster.isPreRender && p.raster.dot = 1 then { p with status := {} } else p

/-- Blanking begins: the picture is complete, and a program may want to know. -/
@[inline] def beginBlanking (p : Ppu) : Ppu :=
  if p.raster.blankingBegins then
    { p with
      status := { p.status with vblank := true }
      nmiRequest := p.nmiRequest || p.control.interrupts
      frameComplete := true }
  else p

/-- The part of a dot in which background and sprites are at work. -/
@[specialize] def renderDot (p : Ppu) (mem : μ) : Ppu × μ :=
  let (p, mem) := p.backgroundDot mem
  let (p, mem) := p.spriteDot mem
  if p.mask.sprites && 2 ≤ p.raster.dot && p.raster.dot ≤ 257 then
    ({ p with sprites := p.sprites.step }, mem)
  else (p, mem)

/-- One dot. -/
@[specialize] def tick (p : Ppu) (mem : μ) : Ppu × μ :=
  let rendering := p.mask.rendering
  let p := p.clearReports
  let (p, mem) := if rendering && p.raster.fetches then p.renderDot mem else (p, mem)
  let p :=
    if p.raster.isVisible && 1 ≤ p.raster.dot && p.raster.dot ≤ width then p.pixelDot else p
  let p := p.beginBlanking
  ({ p with raster := p.raster.next rendering }, mem)

end Famicom.Ppu
