/-
# Sprites

Sprite memory describes 64 sprites by four bytes each: the line above the top one, the tile, the
attributes and the column.  A line can show eight of them, so while one line is drawn the unit
looks for those that the next line needs.

* **Search.**  For the first 64 dots a list of eight sprites, the *secondary* memory, is filled
  with `$FF`.  After that every second dot takes a byte of sprite memory and the other one acts on
  it: the vertical position decides whether the sprite is in range, and if it is, its other three
  bytes follow.  Once eight are found the unit goes on looking for a ninth, but it then steps to
  the next byte as well as to the next sprite, so it takes tiles and columns for positions: the
  overflow flag is both missed and raised for nothing, as games know it.
* **Fetch.**  Between lines the patterns of the eight are fetched, eight dots each.  A place in the
  list that is empty fetches all the same, and comes out blank.
* **Output.**  Each of the eight units counts its column down and then shifts its pattern out.  Of
  the units that show something at a dot **the first one wins**.
-/
import Famicom.Memory
import Famicom.Ppu.Flags

namespace Famicom.Ppu

/-! ## 1. State -/

/-- Where the search stands. -/
structure SpriteSearch where
  /-- The sprite being looked at. -/
  sprite : Fin 64 := 0
  /-- The byte of it being looked at. -/
  byte : Fin 4 := 0
  /-- How many sprites have been found, at most eight. -/
  found : Nat := 0
  /-- The byte last taken. -/
  latch : UInt8 := 0
  done : Bool := false
  /-- Sprite 0 is among those found. -/
  hasZero : Bool := false
  deriving DecidableEq, Repr, Inhabited

/-- What draws one sprite on one line. -/
structure SpriteUnit where
  low : UInt8 := 0
  high : UInt8 := 0
  attributes : UInt8 := 0
  /-- Dots to wait. -/
  x : UInt8 := 0
  deriving DecidableEq, Repr, Inhabited

/-- The search for the next line, and the units drawing the present one. -/
structure Sprites where
  search : SpriteSearch := {}
  /-- The sprites found, four bytes each. -/
  secondary : Memory 32 := Memory.filled 32 0xFF
  units : Vector SpriteUnit 8 := Vector.replicate 8 {}
  /-- How many of the units are in use. -/
  count : Nat := 0
  /-- The first unit draws sprite 0. -/
  zeroInLine : Bool := false

/-! ## 2. Search -/

namespace SpriteSearch

/-- On to the next sprite; after the last one the search is over. -/
@[inline] def next (e : SpriteSearch) : SpriteSearch :=
  { e with sprite := e.sprite + 1, done := e.done || e.sprite == 63 }

/-- The place of the current byte in sprite memory. -/
@[inline] def place (e : SpriteSearch) : Nat := e.sprite * 4 + e.byte

/-- The place in secondary memory that the current byte would take. -/
@[inline] def target (e : SpriteSearch) : Nat := e.found * 4 + e.byte

/-- While fewer than eight are found: the vertical position decides, the other bytes follow. -/
def collect (e : SpriteSearch) (inRange : Bool) : SpriteSearch :=
  if e.byte = 0 then
    if inRange then { e with byte := 1, hasZero := e.hasZero || e.sprite == 0 } else e.next
  else if e.byte = 3 then { e with byte := 0, found := e.found + 1 }.next
  else { e with byte := e.byte + 1 }

/-- Once eight are found: the walk for a ninth moves along both the sprites and their bytes. -/
def walk (e : SpriteSearch) (inRange : Bool) : SpriteSearch :=
  if inRange then { e with done := true } else { e with byte := e.byte + 1 }.next

end SpriteSearch

/-- Whether a sprite whose position is `y` shows on the line after `line`. -/
@[inline] def inRange (line height : Nat) (y : UInt8) : Bool :=
  y.toNat ≤ line && line - y.toNat < height

namespace Sprites

/-- The list of found sprites, one byte of it filled at each even dot. -/
@[inline] def clear : Sprites → Nat → Sprites
  | ⟨search, secondary, units, count, zeroInLine⟩, dot =>
    ⟨search, secondary.write (dot / 2 - 1) 0xFF, units, count, zeroInLine⟩

/-- Takes the current byte of sprite memory. -/
@[inline] def look (s : Sprites) (oam : Memory 256) : Sprites :=
  { s with search := { s.search with latch := oam.read s.search.place } }

/-- Acts on the byte taken.  The answer is whether a ninth sprite was seen. -/
def act : Sprites → Nat → Nat → Sprites × Bool
  | ⟨search, secondary, units, count, zeroInLine⟩, line, height =>
    let hit := inRange line height search.latch
    if search.done then (⟨search, secondary, units, count, zeroInLine⟩, false)
    else if search.found < 8 then
      let secondary := secondary.write search.target search.latch
      (⟨search.collect hit, secondary, units, count, zeroInLine⟩, false)
    else (⟨search.walk hit, secondary, units, count, zeroInLine⟩, hit)

/-! ## 3. Fetch -/

/-- The units take over what the search has found. -/
@[inline] def adopt (s : Sprites) : Sprites :=
  { s with count := min s.search.found 8, zeroInLine := s.search.hasZero }

/-- The address of the low plane for a place in the list, at the line the search was for.  A tall
sprite is two tiles, and the lowest bit of its tile number picks the table. -/
def patternAddress (s : Sprites) (control : Control) (line : Nat) (slot : Fin 8) : UInt16 :=
  let y := s.secondary.read (slot * 4)
  let tile := (s.secondary.read (slot * 4 + 1)).toNat
  let attributes := s.secondary.read (slot * 4 + 2)
  let height := control.spriteHeight
  -- An empty place has no line of its own; the subtraction wraps, and the row with it.
  let row := (line + 256 - y.toNat) % height
  let row := if attributes &&& 0x80 != 0 then height - 1 - row else row
  if height = 16 then
    .ofNat (tile % 2 * 0x1000 + (tile / 2 * 2 + row / 8) * 16 + row % 8)
  else control.spriteTable + .ofNat (tile * 16 + row)

/-- The low plane of a place has arrived. -/
@[inline] def loadLow : Sprites → Fin 8 → UInt8 → Sprites
  | ⟨search, secondary, units, count, zeroInLine⟩, slot, v =>
    let u := units[slot]
    ⟨search, secondary, units.set slot { u with low := v }, count, zeroInLine⟩

/-- The high plane of a place has arrived, and the unit is ready. -/
@[inline] def loadHigh : Sprites → Fin 8 → UInt8 → Sprites
  | ⟨search, secondary, units, count, zeroInLine⟩, slot, high =>
    let attributes := secondary.read (slot * 4 + 2)
    let x := secondary.read (slot * 4 + 3)
    let low := units[slot].low
    let ready : SpriteUnit :=
      if count ≤ slot then { attributes, x }
      else if attributes &&& 0x40 != 0 then
        { low := reverseBits low, high := reverseBits high, attributes, x }
      else { low, high, attributes, x }
    ⟨search, secondary, units.set slot ready, count, zeroInLine⟩

end Sprites

/-! ## 4. Output -/

namespace SpriteUnit

@[inline] def topBit (b : UInt8) : UInt8 := b >>> 7

/-- One dot: the column counts down, and then the pattern shifts out. -/
@[inline] def step (u : SpriteUnit) : SpriteUnit :=
  if u.x != 0 then { u with x := u.x - 1 } else { u with low := u.low <<< 1, high := u.high <<< 1 }

/-- The pixel at the front of the pattern. -/
@[inline] def pixel (u : SpriteUnit) : UInt8 := topBit u.high * 2 + topBit u.low

/-- True when the sprite has begun and its pixel is not transparent. -/
@[inline] def shows (u : SpriteUnit) : Bool := u.x == 0 && u.pixel != 0

@[inline] def palette (u : SpriteUnit) : UInt8 := u.attributes &&& 0x03

/-- The background goes in front of this sprite. -/
@[inline] def isBehind (u : SpriteUnit) : Bool := u.attributes &&& 0x20 != 0

end SpriteUnit

namespace Sprites

/-- One dot of every unit in use. -/
def step (s : Sprites) : Sprites :=
  if s.count = 0 then s
  else
    match s with
    | ⟨search, secondary, units, count, zeroInLine⟩ =>
      ⟨search, secondary, units.mapFinIdx fun i u _ => if i < count then u.step else u, count,
        zeroInLine⟩

/-- The first unit in use that shows something, and its place. -/
def front (s : Sprites) : Option (Nat × SpriteUnit) :=
  match s.units.findFinIdx? SpriteUnit.shows with
  | some i => if i < s.count then some (i, s.units.get i) else none
  | none => none

end Sprites

end Famicom.Ppu
