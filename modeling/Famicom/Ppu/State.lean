/-
# The picture unit: state

The unit walks over 262 lines of 341 dots.  The first 240 are the picture; the last is a rehearsal
for the first of the next picture, and between them the unit blanks.  `Raster` is where it stands.

Around the raster lie the registers a program sees, the two memories that are the unit's own
(palettes and sprites), the machinery of background and sprites, and the picture drawn so far, one
colour for each pixel, row by row.
-/
import Famicom.Ppu.Background
import Famicom.Ppu.Palette
import Famicom.Ppu.Sprites

namespace Famicom

namespace Ppu

/-! ## 1. The raster -/

/-- Lines of the picture. -/
def height : Nat := 240
/-- Dots of a line that show. -/
def width : Nat := 256
/-- Dots of a line, shown or not. -/
def dotsPerLine : Nat := 341
/-- Lines of a frame, shown or not. -/
def linesPerFrame : Nat := 262
/-- The line on which blanking begins. -/
def blankLine : Nat := 241
/-- The line before the first, on which everything is fetched for it. -/
def preRenderLine : Nat := 261

/-- Where the unit stands. -/
structure Raster where
  line : Nat := preRenderLine
  dot : Nat := 0
  /-- Every other frame is odd. -/
  odd : Bool := false
  /-- Frames finished so far.  No dot looks at them; a counter of 64 bits would agree until it is
  full. -/
  frames : Nat := 0
  deriving DecidableEq, Repr, Inhabited

namespace Raster

@[inline] def isVisible (r : Raster) : Bool := r.line < height

@[inline] def isPreRender (r : Raster) : Bool := r.line == preRenderLine

/-- On these lines the unit fetches, if it is rendering. -/
@[inline] def fetches (r : Raster) : Bool := r.isVisible || r.isPreRender

/-- True at the dot where blanking begins. -/
@[inline] def blankingBegins (r : Raster) : Bool := r.line == blankLine && r.dot == 1

/-- One dot on.  While rendering, every odd frame is a dot shorter: the rehearsal line of it skips
its last dot. -/
@[inline] def next (r : Raster) (rendering : Bool) : Raster :=
  let last := if r.isPreRender && r.odd && rendering then 339 else 340
  if r.dot < last then { r with dot := r.dot + 1 }
  else if r.line + 1 < linesPerFrame then { r with line := r.line + 1, dot := 0 }
  else { line := 0, dot := 0, odd := !r.odd, frames := r.frames + 1 }

end Raster

end Ppu

/-! ## 2. The unit -/

/-- The picture unit. -/
structure Ppu where
  control : Ppu.Control := {}
  mask : Ppu.Mask := {}
  status : Ppu.Status := {}
  /-- The place in sprite memory that the data register of sprites reaches. -/
  oamAddress : UInt8 := 0
  /-- Where the unit is in the plane of nametables, and in memory. -/
  v : VramAddress := {}
  /-- Where the next line and the next picture begin. -/
  t : VramAddress := {}
  /-- The pixel of a tile at which a line begins. -/
  fineX : Fin 8 := 0
  /-- Whether the next write to a two-write register is the second. -/
  toggle : Bool := false
  /-- The byte that the next read of the data register answers. -/
  readBuffer : UInt8 := 0
  /-- What last crossed the registers; a register that cannot be read answers this. -/
  ioLatch : UInt8 := 0
  palette : Palette := {}
  oam : Memory 256 := Memory.filled 256 0
  raster : Ppu.Raster := {}
  background : Ppu.Background := {}
  sprites : Ppu.Sprites := {}
  frame : Memory 61440 := Memory.filled 61440 0
  /-- A picture was finished and has not been taken. -/
  frameComplete : Bool := false
  /-- Blanking wants to interrupt, and this has not been taken. -/
  nmiRequest : Bool := false

namespace Ppu

/-- The registers, the raster and the machinery take their first values; palettes, sprite memory
and the picture survive, and so does the count of frames. -/
def reset (p : Ppu) : Ppu where
  palette := p.palette
  oam := p.oam
  raster := { frames := p.raster.frames }
  sprites := { secondary := p.sprites.secondary }
  frame := p.frame

/-- Drops what came from the cartridge. -/
def clearCartridgeState (p : Ppu) : Ppu :=
  { p with
    readBuffer := 0
    background := {}
    sprites := { p.sprites with units := Vector.replicate 8 {}, count := 0 } }

/-- A byte for sprite memory, from the data register or from a transfer: it goes to the current
place, which moves on. -/
@[inline] def writeOam (p : Ppu) (v : UInt8) : Ppu :=
  { p with oam := p.oam.write p.oamAddress.toNat v, oamAddress := p.oamAddress + 1 }

/-- Takes the report of a finished picture. -/
@[inline] def takeFrameComplete (p : Ppu) : Bool × Ppu :=
  (p.frameComplete, if p.frameComplete then { p with frameComplete := false } else p)

/-- Takes the request for an interrupt. -/
@[inline] def takeNmiRequest (p : Ppu) : Bool × Ppu :=
  (p.nmiRequest, if p.nmiRequest then { p with nmiRequest := false } else p)

/-- One line of the picture. -/
def row (p : Ppu) (y : Nat) : List UInt8 := p.frame.slice (y * width) width

end Ppu

end Famicom
