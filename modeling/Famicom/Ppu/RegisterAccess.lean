/-
# The picture unit: registers

A program reaches the picture unit through eight addresses.  Three of them it reads:

* the **status**, whose reading also ends the report of blanking and the wait for a second write;
* **sprite memory**, at the place a program has set;
* **picture memory**, at the position `v`.  Such a read answers what the *previous* one fetched, and
  fetches the next; only palettes answer at once, while the byte of the nametable that lies behind
  them is fetched.

The others answer whatever crossed the registers last.  After an access to picture memory the
position moves on: by one or by thirty-two, or, if the unit is drawing at the time, by a step to the
right and one down.
-/
import Famicom.AddressBus
import Famicom.Ppu.State

namespace Famicom.Ppu

/-! ## 1. Reading -/

/-- The status byte; its five low bits are not driven. -/
@[inline] def statusByte (p : Ppu) : UInt8 := p.status.bits ||| (p.ioLatch &&& 0x1F)

/-- The first address of palette memory. -/
def paletteStart : UInt16 := 0x3F00

/-- The position after an access to picture memory. -/
@[inline] def nextPosition (p : Ppu) : VramAddress :=
  if p.mask.rendering && p.raster.fetches then p.v.incrementX.incrementY
  else p.v.advance p.control.increment

section Bus

variable {μ : Type} [AddressBus μ]

/-- Reads picture memory. -/
def readData (p : Ppu) (mem : μ) : UInt8 × Ppu × μ :=
  let a := p.v.busAddress
  let v := p.nextPosition
  if paletteStart ≤ a then
    let (fetched, mem) := AddressBus.read (a - 0x1000) mem
    (p.palette.read a ||| (p.ioLatch &&& 0xC0), { p with readBuffer := fetched, v }, mem)
  else
    let (fetched, mem) := AddressBus.read a mem
    (p.readBuffer, { p with readBuffer := fetched, v }, mem)

/-- Reads the register behind an address, with everything that goes with it. -/
def readRegister (p : Ppu) (a : UInt16) (mem : μ) : UInt8 × Ppu × μ :=
  let (value, p, mem) : UInt8 × Ppu × μ :=
    match a.toNat % 8 with
    | 2 =>
      let value := p.statusByte
      (value, { p with status := { p.status with vblank := false }, toggle := false }, mem)
    | 4 => (p.oam.read p.oamAddress.toNat, p, mem)
    | 7 => p.readData mem
    | _ => (p.ioLatch, p, mem)
  (value, { p with ioLatch := value }, mem)

/-- What a register shows to an observer, who disturbs nothing. -/
def peekRegister (p : Ppu) (a : UInt16) : UInt8 :=
  match a.toNat % 8 with
  | 2 => p.statusByte
  | 4 => p.oam.read p.oamAddress.toNat
  | 7 =>
    let a := p.v.busAddress
    if paletteStart ≤ a then p.palette.read a else p.readBuffer
  | _ => p.ioLatch

/-! ## 2. Writing -/

/-- The control byte.  Turning interrupts on while blanking is still reported asks for one. -/
def writeControl (p : Ppu) (v : UInt8) : Ppu :=
  let control : Control := ⟨v⟩
  let rises := !p.control.interrupts && control.interrupts && p.status.vblank
  { p with
    control
    t := p.t.setNametable v.toNat
    nmiRequest := p.nmiRequest || rises }

/-- The scroll, horizontally and then vertically: a tile and a pixel within it. -/
def writeScroll (p : Ppu) (v : UInt8) : Ppu :=
  if p.toggle then
    { p with t := (p.t.setLine v.toNat).setRow (v.toNat / 8), toggle := false }
  else
    { p with t := p.t.setColumn (v.toNat / 8), fineX := .ofNat 8 v.toNat, toggle := true }

/-- A position in picture memory, the high six bits and then the low eight.  The second write makes
it current. -/
def writeAddress (p : Ppu) (v : UInt8) : Ppu :=
  if p.toggle then
    let t := VramAddress.ofRaw (p.t.raw / 256 * 256 + v.toNat)
    { p with t, v := t, toggle := false }
  else
    let t := VramAddress.ofRaw (v.toNat % 64 * 256 + p.t.raw % 256)
    { p with t, toggle := true }

/-- Writes picture memory. -/
def writeData (p : Ppu) (v : UInt8) (mem : μ) : Ppu × μ :=
  let a := p.v.busAddress
  let next := p.nextPosition
  if paletteStart ≤ a then ({ p with palette := p.palette.write a v, v := next }, mem)
  else ({ p with v := next }, AddressBus.write a v mem)

/-- Writes the register behind an address. -/
def writeRegister (p : Ppu) (a : UInt16) (v : UInt8) (mem : μ) : Ppu × μ :=
  let p := { p with ioLatch := v }
  match a.toNat % 8 with
  | 0 => (p.writeControl v, mem)
  | 1 => ({ p with mask := ⟨v⟩ }, mem)
  | 2 => (p, mem)
  | 3 => ({ p with oamAddress := v }, mem)
  | 4 => (p.writeOam v, mem)
  | 5 => (p.writeScroll v, mem)
  | 6 => (p.writeAddress v, mem)
  | _ => p.writeData v mem

end Bus

end Famicom.Ppu
