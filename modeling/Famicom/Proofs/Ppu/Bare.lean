/-
# A picture unit of bare words

The picture unit keeps each thing in a type that it cannot leave: a position in its parts, a place
of the search in a number below 64, the status in three flags, a memory that folds its addresses.
`Bare` is the same unit **with nothing but bytes and words**, and tables that have ends.  It is
partial.  It fails

* where a sum or a difference of bytes or words is not one;
* where a table has no such cell, and where more sprite units are in use than there are;
* where a register is shifted by more than its bits;
* where a tile or its colours are fetched from outside the nametables, a pattern from outside the
  pattern tables, or a program's access reaches the palettes on the bus.

Frames are counted without an end.  `Ppu.bare` writes a unit in bare words.
-/
import Famicom.Proofs.Ppu.Operations
import Famicom.Proofs.Ppu.PositionWord

namespace Famicom.Ppu

/-! ## 1. State -/

/-- Where the search for sprites stands. -/
structure Cursor where
  sprite : UInt8 := 0
  byte : UInt8 := 0
  found : UInt8 := 0
  latch : UInt8 := 0
  done : Bool := false
  hasZero : Bool := false

/-- A picture unit in bytes and words. -/
structure Bare where
  control : Control := {}
  mask : Mask := {}
  /-- The three reports are the top bits. -/
  status : UInt8 := 0
  oamAddress : UInt8 := 0
  v : UInt16 := 0
  t : UInt16 := 0
  fineX : UInt8 := 0
  toggle : Bool := false
  readBuffer : UInt8 := 0
  ioLatch : UInt8 := 0
  palette : Memory 32 := Memory.filled 32 0
  oam : Memory 256 := Memory.filled 256 0
  secondary : Memory 32 := Memory.filled 32 0xFF
  line : UInt16 := 261
  dot : UInt16 := 0
  odd : Bool := false
  frames : Nat := 0
  background : Background := {}
  search : Cursor := {}
  units : Vector SpriteUnit 8 := Vector.replicate 8 {}
  count : UInt8 := 0
  zeroInLine : Bool := false
  frame : Memory 61440 := Memory.filled 61440 0
  frameComplete : Bool := false
  nmiRequest : Bool := false

/-- The search in bytes. -/
def SpriteSearch.bare (e : SpriteSearch) : Cursor where
  sprite := .ofNat e.sprite
  byte := .ofNat e.byte
  found := .ofNat e.found
  latch := e.latch
  done := e.done
  hasZero := e.hasZero

/-- The unit in bytes and words. -/
def bare (p : Ppu) : Bare where
  control := p.control
  mask := p.mask
  status := p.status.bits
  oamAddress := p.oamAddress
  v := p.v.bits
  t := p.t.bits
  fineX := .ofNat p.fineX
  toggle := p.toggle
  readBuffer := p.readBuffer
  ioLatch := p.ioLatch
  palette := p.palette.cells
  oam := p.oam
  secondary := p.sprites.secondary
  line := .ofNat p.raster.line
  dot := .ofNat p.raster.dot
  odd := p.raster.odd
  frames := p.raster.frames
  background := p.background
  search := p.sprites.search.bare
  units := p.sprites.units
  count := .ofNat p.sprites.count
  zeroInLine := p.sprites.zeroInLine
  frame := p.frame
  frameComplete := p.frameComplete
  nmiRequest := p.nmiRequest

/-- The unit in bytes and words, with its memory. -/
def lowered {μ : Type} (s : Ppu × μ) : Bare × μ := (s.1.bare, s.2)

namespace Bare

variable {μ : Type} [AddressBus μ]

/-! ## 2. The bus -/

/-- Fetches a tile or its colours, from the nametables. -/
def readTable (a : UInt16) (mem : μ) : Option (UInt8 × μ) :=
  if 0x2000 ≤ a ∧ a < 0x3000 then some (AddressBus.read a mem) else none

/-- Fetches a pattern, from the pattern tables. -/
def readPattern (a : UInt16) (mem : μ) : Option (UInt8 × μ) :=
  if a < 0x2000 then some (AddressBus.read a mem) else none

/-- Reads below the palettes. -/
def readBelow (a : UInt16) (mem : μ) : Option (UInt8 × μ) :=
  if a < paletteStart then some (AddressBus.read a mem) else none

/-- Writes below the palettes. -/
def writeBelow (a : UInt16) (b : UInt8) (mem : μ) : Option μ :=
  if a < paletteStart then some (AddressBus.write a b mem) else none

/-! ## 3. Background -/

def fetchTile (x : Bare) (mem : μ) : Option (Bare × μ) := do
  let r ← readTable (Position.tileAddress x.v) mem
  let latch := { x.background.latch with tile := r.1 }
  some ({ x with background := { x.background with latch } }, r.2)

/-- The address of the low plane of the fetched tile. -/
def backgroundAddress (x : Bare) : Option UInt16 := do
  let tile ← add16 x.control.backgroundTable (x.background.latch.tile.toUInt16 <<< (4 : UInt16))
  add16 tile (Position.line x.v)

/-- A byte shifted to the right, by no more bits than it has. -/
def shiftRight8 (b : UInt8) (s : UInt16) : Option UInt8 :=
  if s.toNat < 8 then some (b >>> s.toUInt8) else none

def tileDot (x : Bare) (mem : μ) : Option (Bare × μ) := do
  let before ← sub16 x.dot 1
  match before.toNat % 8 with
  | 0 => fetchTile { x with background := x.background.load } mem
  | 2 =>
    let r ← readTable (Position.attributeAddress x.v) mem
    let colours ← shiftRight8 r.1 (Position.attributeShift x.v)
    let latch := { x.background.latch with palette := colours &&& 0x03 }
    some ({ x with background := { x.background with latch } }, r.2)
  | 4 =>
    let a ← x.backgroundAddress
    let r ← readPattern a mem
    let latch := { x.background.latch with low := r.1 }
    some ({ x with background := { x.background with latch } }, r.2)
  | 6 =>
    let a ← x.backgroundAddress
    let a ← add16 a 8
    let r ← readPattern a mem
    let latch := { x.background.latch with high := r.1 }
    some ({ x with background := { x.background with latch } }, r.2)
  | 7 =>
    let v ← Position.incrementX x.v
    some ({ x with v }, mem)
  | _ => some (x, mem)

def positionDot (x : Bare) (mem : μ) : Option (Bare × μ) :=
  let dot := x.dot.toNat
  if dot = 256 then (Position.incrementY x.v).map fun v => ({ x with v }, mem)
  else if dot = 257 then some ({ x with v := Position.copyHorizontal x.v x.t }, mem)
  else if dot = 338 || dot = 340 then x.fetchTile mem
  else if 280 ≤ dot && dot ≤ 304 && x.line.toNat == 261 then
    some ({ x with v := Position.copyVertical x.v x.t }, mem)
  else some (x, mem)

def backgroundDot (x : Bare) (mem : μ) : Option (Bare × μ) :=
  if fetchesTile x.dot.toNat then do
    let x := if x.mask.background then { x with background := x.background.shift } else x
    let r ← x.tileDot mem
    r.1.positionDot r.2
  else x.positionDot mem

/-! ## 4. Sprites -/

/-- On to the next sprite. -/
def nextSprite (e : Cursor) : Option Cursor := do
  let sprite ← add8 e.sprite 1
  some (if 64 ≤ sprite.toNat then { e with sprite := 0, done := true } else { e with sprite })

/-- While fewer than eight are found. -/
def collect (e : Cursor) (inRange : Bool) : Option Cursor :=
  if e.byte = 0 then
    if inRange then some { e with byte := 1, hasZero := e.hasZero || e.sprite == 0 }
    else nextSprite e
  else if e.byte = 3 then do
    let found ← add8 e.found 1
    nextSprite { e with byte := 0, found }
  else do
    let byte ← add8 e.byte 1
    some { e with byte }

/-- Once eight are found. -/
def walk (e : Cursor) (inRange : Bool) : Option Cursor :=
  if inRange then some { e with done := true }
  else do
    let byte ← add8 e.byte 1
    nextSprite { e with byte := byte &&& 0x03 }

/-- Whether a sprite is in range; above its first line the difference wraps and is large. -/
def inRange (x : Bare) (y : UInt8) : Bool := (x.line - y.toUInt16).toNat < x.control.spriteHeight

def searchDot (x : Bare) : Option Bare :=
  let e := x.search
  if x.dot.toNat % 2 = 1 then do
    let latch ← x.oam[(e.sprite.toNat * 4 + e.byte.toNat) &&& 0xFF]?
    some { x with search := { e with latch } }
  else if e.done then some x
  else if e.found.toNat < 8 then do
    let secondary ← put? x.secondary (e.found.toNat * 4 + e.byte.toNat) e.latch
    let search ← collect e (x.inRange e.latch)
    some { x with secondary, search }
  else do
    let search ← walk e (x.inRange e.latch)
    some { x with search, status := if x.inRange e.latch then x.status ||| 0x20 else x.status }

/-- The line of its pattern that a sprite shows. -/
def spriteRow (x : Bare) (y attributes : UInt8) : Option UInt16 := do
  let last ← sub16 (.ofNat x.control.spriteHeight) 1
  let row := (x.line - y.toUInt16) &&& last
  if attributes &&& 0x80 != 0 then sub16 last row else some row

/-- The address of a line of two tiles, one below the other. -/
def tallAddress (tile : UInt8) (row : UInt16) : Option UInt16 := do
  let table := (tile &&& 0x01).toUInt16 * 0x1000
  let upper := (tile &&& 0xFE).toUInt16
  if 8 ≤ row.toNat then
    let lower ← add16 upper 1
    let row ← sub16 row 8
    let a ← add16 table (lower <<< (4 : UInt16))
    add16 a row
  else
    let a ← add16 table (upper <<< (4 : UInt16))
    add16 a row

/-- The address of the low plane for a place in the list. -/
def spriteAddress (x : Bare) (slot : Nat) : Option UInt16 := do
  let y ← x.secondary[slot * 4]?
  let tile ← x.secondary[slot * 4 + 1]?
  let attributes ← x.secondary[slot * 4 + 2]?
  let row ← x.spriteRow y attributes
  if x.control.spriteHeight = 16 then tallAddress tile row
  else
    let a ← add16 x.control.spriteTable (tile.toUInt16 <<< (4 : UInt16))
    add16 a row

def spriteFetchDot (x : Bare) (mem : μ) : Option (Bare × μ) := do
  let offset ← sub16 x.dot 257
  let slot := offset.toNat / 8
  let x := { x with oamAddress := 0 }
  match offset.toNat % 8 with
  | 0 =>
    let r ← readTable (Position.tileAddress x.v) mem
    let count := if x.search.found.toNat < 8 then x.search.found else 8
    some (if slot = 0 then { x with count, zeroInLine := x.search.hasZero } else x, r.2)
  | 2 =>
    let r ← readTable (Position.tileAddress x.v) mem
    some (x, r.2)
  | 4 =>
    let a ← x.spriteAddress slot
    let r ← readPattern a mem
    let u ← x.units[slot]?
    let units ← put? x.units slot { u with low := r.1 }
    some ({ x with units }, r.2)
  | 6 =>
    let a ← x.spriteAddress slot
    let a ← add16 a 8
    let r ← readPattern a mem
    let attributes ← x.secondary[slot * 4 + 2]?
    let column ← x.secondary[slot * 4 + 3]?
    let u ← x.units[slot]?
    let ready : SpriteUnit :=
      if x.count.toNat ≤ slot then { attributes, x := column }
      else if attributes &&& 0x40 != 0 then
        { low := reverseBits u.low, high := reverseBits r.1, attributes, x := column }
      else { low := u.low, high := r.1, attributes, x := column }
    let units ← put? x.units slot ready
    some ({ x with units }, r.2)
  | _ => some (x, mem)

def spriteDot (x : Bare) (mem : μ) : Option (Bare × μ) :=
  let dot := x.dot.toNat
  if dot = 0 then some (x, mem)
  else if dot = 1 then some ({ x with search := {} }, mem)
  else if dot ≤ 64 then
    if dot % 2 = 0 then do
      let place ← sub16 (x.dot / 2) 1
      let secondary ← put? x.secondary place.toNat 0xFF
      some ({ x with secondary }, mem)
    else some (x, mem)
  else if dot ≤ 256 then
    if x.line.toNat < 240 then x.searchDot.map fun x => (x, mem) else some (x, mem)
  else if dot ≤ 320 then x.spriteFetchDot mem
  else some (x, mem)

/-- One dot of one sprite unit. -/
def stepUnit (units : Vector SpriteUnit 8) (slot : Nat) : Option (Vector SpriteUnit 8) := do
  let u ← units[slot]?
  if u.x != 0 then
    let column ← sub8 u.x 1
    put? units slot { u with x := column }
  else put? units slot { u with low := u.low <<< 1, high := u.high <<< 1 }

/-- One dot of every sprite unit in use. -/
def stepUnits (x : Bare) : Option Bare := do
  let units ← (List.range x.count.toNat).foldlM stepUnit x.units
  some { x with units }

/-! ## 5. The pixel -/

/-- The bit of a register that is under the beam; the register has sixteen. -/
def tap (register : UInt16) (fineX : UInt8) : Option UInt8 :=
  if fineX.toNat < 16 then
    some (bitOf (register &&& ((0x8000 : UInt16) >>> fineX.toUInt16) != 0))
  else none

def backgroundPixel (x : Bare) (column : Nat) : Option (UInt8 × UInt8) :=
  if x.mask.background && (8 ≤ column || x.mask.backgroundLeft) then do
    let high ← tap x.background.high x.fineX
    let low ← tap x.background.low x.fineX
    let paletteHigh ← tap x.background.paletteHigh x.fineX
    let paletteLow ← tap x.background.paletteLow x.fineX
    some ((high <<< 1) ||| low, (paletteHigh <<< 1) ||| paletteLow)
  else some (0, 0)

/-- The foremost of the units in use, of which there are eight. -/
def spritePixel (x : Bare) (column : Nat) : Option (Option (Nat × SpriteUnit)) :=
  if x.mask.sprites && (8 ≤ column || x.mask.spritesLeft) then
    if x.count.toNat ≤ 8 then some { units := x.units, count := x.count.toNat : Sprites }.front
    else none
  else some none

/-- The palette cell of a pixel. -/
def cell (base : UInt16) (palette pixel : UInt8) : Option UInt16 := do
  let a ← add16 base (palette.toUInt16 <<< (2 : UInt16))
  add16 a pixel.toUInt16

/-- The entry of palette memory behind an address. -/
def paletteIndex (a : UInt16) : Nat :=
  let i := (a &&& 0x1F).toNat
  if i &&& 0x03 = 0 then 0 else i

/-- The colour of a palette cell. -/
def colour (x : Bare) (a : UInt16) : Option UInt8 := x.palette[paletteIndex a]?.map (· &&& 0x3F)

/-- The palette cell to show, and whether sprite 0 meets the background. -/
def compose (x : Bare) (column : Nat) : Option (UInt16 × Bool) := do
  let background ← x.backgroundPixel column
  let sprite ← x.spritePixel column
  let behind ← cell 0x3F00 background.2 background.1
  match sprite with
  | none => some (if background.1 == 0 then 0x3F00 else behind, false)
  | some (slot, u) =>
    let front ← cell 0x3F10 u.palette u.pixel
    if background.1 == 0 then some (front, false)
    else
      some (if u.isBehind then behind else front,
        slot == 0 && x.zeroInLine && 3 ≤ x.dot.toNat && column != 255)

def pixelDot (x : Bare) : Option Bare := do
  let column ← sub16 x.dot 1
  let composed ← x.compose column.toNat
  let colour ← x.colour composed.1
  let colour := if x.mask.greyscale then colour &&& 0x30 else colour
  let frame ← put? x.frame (x.line.toNat * width + column.toNat) colour
  some { x with frame, status := if composed.2 then x.status ||| 0x40 else x.status }

/-! ## 6. The dot -/

def clearReports (x : Bare) : Bare :=
  if x.line.toNat == 261 && x.dot.toNat == 1 then { x with status := x.status &&& ~~~0xE0 } else x

def beginBlanking (x : Bare) : Bare :=
  if x.line.toNat == 241 && x.dot.toNat == 1 then
    { x with
      status := x.status ||| 0x80
      nmiRequest := x.nmiRequest || x.control.interrupts
      frameComplete := true }
  else x

def advance (x : Bare) (rendering : Bool) : Option Bare := do
  let dot ← add16 x.dot 1
  let dot := if x.line.toNat == 261 && dot.toNat == 340 && x.odd && rendering then 341 else dot
  if 341 ≤ dot.toNat then
    let line ← add16 x.line 1
    if 262 ≤ line.toNat then
      some { x with line := 0, dot := 0, odd := !x.odd, frames := x.frames + 1 }
    else some { x with line, dot := 0 }
  else some { x with dot }

/-- The sprite units in use, where they move. -/
def shifted (x : Bare) (mem : μ) : Option (Bare × μ) :=
  if x.mask.sprites && 2 ≤ x.dot.toNat && x.dot.toNat ≤ 257 then
    x.stepUnits.map fun x => (x, mem)
  else some (x, mem)

def renderDot (x : Bare) (mem : μ) : Option (Bare × μ) := do
  let r ← x.backgroundDot mem
  let r ← r.1.spriteDot r.2
  r.1.shifted r.2

/-- On these lines the unit fetches, if it is rendering. -/
def fetches (x : Bare) : Bool := x.line.toNat < 240 || x.line.toNat == 261

/-- Background and sprites, where they are at work. -/
def rendered (x : Bare) (rendering : Bool) (mem : μ) : Option (Bare × μ) :=
  if rendering && x.fetches then x.renderDot mem else some (x, mem)

/-- The pixel, where there is one. -/
def drawn (x : Bare) : Option Bare :=
  if x.line.toNat < 240 && 1 ≤ x.dot.toNat && x.dot.toNat ≤ width then x.pixelDot else some x

def tick (x : Bare) (mem : μ) : Option (Bare × μ) := do
  let r ← x.clearReports.rendered x.mask.rendering mem
  let y ← r.1.drawn
  let y ← y.beginBlanking.advance x.mask.rendering
  some (y, r.2)

/-! ## 7. Registers -/

/-- The position after an access to picture memory. -/
def nextPosition (x : Bare) : Option UInt16 :=
  if x.mask.rendering && x.fetches then do
    let v ← Position.incrementX x.v
    Position.incrementY v
  else some (Position.advance x.v (.ofNat x.control.increment))

def writeOam (x : Bare) (b : UInt8) : Option Bare := do
  let oam ← put? x.oam x.oamAddress.toNat b
  some { x with oam, oamAddress := x.oamAddress + 1 }

def readData (x : Bare) (mem : μ) : Option (UInt8 × Bare × μ) := do
  let a := x.v &&& 0x3FFF
  if paletteStart ≤ a then
    let beneath ← sub16 a 0x1000
    let r ← readBelow beneath mem
    let colour ← x.colour a
    let v ← x.nextPosition
    some (colour ||| (x.ioLatch &&& 0xC0), { x with readBuffer := r.1, v }, r.2)
  else
    let r ← readBelow a mem
    let v ← x.nextPosition
    some (x.readBuffer, { x with readBuffer := r.1, v }, r.2)

def readRegister (x : Bare) (a : UInt16) (mem : μ) : Option (UInt8 × Bare × μ) := do
  let r ←
    match (a &&& 0x7).toNat with
    | 2 =>
      some (x.status ||| (x.ioLatch &&& 0x1F),
        { x with status := x.status &&& ~~~0x80, toggle := false }, mem)
    | 4 => x.oam[x.oamAddress.toNat]?.map fun b => (b, x, mem)
    | 7 => x.readData mem
    | _ => some (x.ioLatch, x, mem)
  some (r.1, { r.2.1 with ioLatch := r.1 }, r.2.2)

def writeControl (x : Bare) (b : UInt8) : Bare :=
  let control : Control := ⟨b⟩
  let rises := !x.control.interrupts && control.interrupts && x.status &&& 0x80 != 0
  { x with
    control
    t := Position.setNametable x.t b
    nmiRequest := x.nmiRequest || rises }

def writeScroll (x : Bare) (b : UInt8) : Bare :=
  if x.toggle then
    { x with t := Position.setRow (Position.setLine x.t b) (b >>> 3), toggle := false }
  else { x with t := Position.setColumn x.t (b >>> 3), fineX := b &&& 0x07, toggle := true }

def writeAddress (x : Bare) (b : UInt8) : Bare :=
  if x.toggle then
    let t := Position.setLow x.t b
    { x with t, v := t, toggle := false }
  else { x with t := Position.setHigh x.t b, toggle := true }

def writeData (x : Bare) (b : UInt8) (mem : μ) : Option (Bare × μ) := do
  let a := x.v &&& 0x3FFF
  if paletteStart ≤ a then
    let palette ← put? x.palette (paletteIndex a) (b &&& 0x3F)
    let v ← x.nextPosition
    some ({ x with palette, v }, mem)
  else
    let mem ← writeBelow a b mem
    let v ← x.nextPosition
    some ({ x with v }, mem)

def writeRegister (x : Bare) (a : UInt16) (b : UInt8) (mem : μ) : Option (Bare × μ) :=
  let x := { x with ioLatch := b }
  match (a &&& 0x7).toNat with
  | 0 => some (x.writeControl b, mem)
  | 1 => some ({ x with mask := ⟨b⟩ }, mem)
  | 2 => some (x, mem)
  | 3 => some ({ x with oamAddress := b }, mem)
  | 4 => (x.writeOam b).map fun x => (x, mem)
  | 5 => some (x.writeScroll b, mem)
  | 6 => some (x.writeAddress b, mem)
  | _ => x.writeData b mem

/-! ## 8. Histories -/

/-- Everything but the memories, the picture and the count of frames takes its first value. -/
def reset (x : Bare) : Bare where
  palette := x.palette
  oam := x.oam
  secondary := x.secondary
  frames := x.frames
  frame := x.frame

def clearCartridgeState (x : Bare) : Bare :=
  { x with
    readBuffer := 0
    background := {}
    units := Vector.replicate 8 {}
    count := 0 }

/-- A bare unit with its memory after an operation. -/
def after : Bare × μ → Operation μ → Option (Bare × μ)
  | (x, mem), .tick => x.tick mem
  | (x, mem), .readRegister a => (x.readRegister a mem).map (·.2)
  | (x, mem), .writeRegister a b => x.writeRegister a b mem
  | (x, mem), .writeOam b => (x.writeOam b).map fun x => (x, mem)
  | (x, mem), .pokeOam i b => (put? x.oam (i &&& 0xFF) b).map fun oam => ({ x with oam }, mem)
  | (x, mem), .takeFrameComplete => some ({ x with frameComplete := false }, mem)
  | (x, mem), .takeNmiRequest => some ({ x with nmiRequest := false }, mem)
  | (x, mem), .clearCartridgeState => some (x.clearCartridgeState, mem)
  | (x, mem), .reset => some (x.reset, mem)
  | (x, _), .elsewhere mem => some (x, mem)

/-- A bare unit with its memory after a history in which nothing fails. -/
def run (s : Bare × μ) (history : List (Operation μ)) : Option (Bare × μ) := history.foldlM after s

end Bare

end Famicom.Ppu
