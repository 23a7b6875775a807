/-
# The mainboard

Everything the processor can reach: its own memory, the picture unit with its memory and the
cartridge slot, the sound registers, two controllers, and the sprite transfer.  The board's one job
is to decide which of them an address is for.

| addresses       | what answers                                                    |
|-----------------|-----------------------------------------------------------------|
| `$0000`–`$1FFF` | work memory                                                     |
| `$2000`–`$3FFF` | the picture unit's eight registers, over and over               |
| `$4000`–`$4013` | the sound registers, which are only written                     |
| `$4014`         | a write starts a sprite transfer                                |
| `$4015`         | the sound unit's status                                         |
| `$4016`         | the first controller; a write is the strobe of both             |
| `$4017`         | the second controller; a write is for the sound unit            |
| `$4018`–`$401F` | nothing                                                         |
| `$4020`–`$FFFF` | the cartridge                                                   |

What nothing answers reads as 0.  `read` and `write` are clocked accesses with all their effects;
`peek` is what an observer sees who disturbs nothing, decoded the same way.
-/
import Famicom.Controller
import Famicom.Ppu.Dot
import Famicom.Ppu.RegisterAccess
import Famicom.SoundRegisters
import Famicom.SpriteDma
import Famicom.VideoMemory
import Famicom.WorkRam

namespace Famicom

/-- Everything the processor can reach. -/
structure Mainboard where
  ram : WorkRam := {}
  ppu : Ppu := {}
  video : VideoMemory := {}
  sound : SoundRegisters := {}
  pad0 : Controller := {}
  pad1 : Controller := {}
  dma : SpriteDma := {}
  /-- Cycles of the processor so far.  A transfer looks at their parity and nothing at their number,
  so a counter of 64 bits that goes round would do as well. -/
  cycle : Nat := 0

namespace Mainboard

/-! ## 1. Addresses -/

/-- The devices an address can be for. -/
inductive Device where
  | ram
  | ppu
  | sound
  | dma
  | soundStatus
  | pad0
  | pad1
  | nothing
  | cartridge
  deriving DecidableEq, Repr

/-- The address map. -/
def device (a : UInt16) : Device :=
  if a < 0x2000 then .ram
  else if a < 0x4000 then .ppu
  else if 0x4020 ≤ a then .cartridge
  else if a < 0x4014 then .sound
  else if a == 0x4014 then .dma
  else if a == 0x4015 then .soundStatus
  else if a == 0x4016 then .pad0
  else if a == 0x4017 then .pad1
  else .nothing

/-- The byte of the cartridge, if there is one. -/
@[inline] def readSlot (slot : Option Cartridge) (a : UInt16) : UInt8 :=
  match slot with
  | some c => c.board.cpuRead a
  | none => 0

/-- The cartridge after a write. -/
@[inline] def writeSlot (slot : Option Cartridge) (a : UInt16) (v : UInt8) : Option Cartridge :=
  match slot with
  | some ⟨header, board⟩ => some ⟨header, board.cpuWrite a v⟩
  | none => none

/-- A clocked read. -/
def read (m : Mainboard) (a : UInt16) : UInt8 × Mainboard :=
  match device a with
  | .ram => (m.ram.read a, m)
  | .ppu =>
    match m with
    | ⟨ram, ppu, video, sound, pad0, pad1, dma, cycle⟩ =>
      let (v, ppu, video) := ppu.readRegister a video
      (v, ⟨ram, ppu, video, sound, pad0, pad1, dma, cycle⟩)
  | .soundStatus => (m.sound.enabled, m)
  | .pad0 =>
    let (v, pad0) := m.pad0.read
    (v, { m with pad0 })
  | .pad1 =>
    let (v, pad1) := m.pad1.read
    (v, { m with pad1 })
  | .sound | .dma | .nothing => (0, m)
  | .cartridge => (readSlot m.video.slot a, m)

/-- A clocked write. -/
def write : Mainboard → UInt16 → UInt8 → Mainboard
  | ⟨ram, ppu, video, sound, pad0, pad1, dma, cycle⟩, a, v =>
    match device a with
    | .ram => ⟨ram.write a v, ppu, video, sound, pad0, pad1, dma, cycle⟩
    | .ppu =>
      let (ppu, video) := ppu.writeRegister a v video
      ⟨ram, ppu, video, sound, pad0, pad1, dma, cycle⟩
    | .dma => ⟨ram, ppu, video, sound, pad0, pad1, .start v cycle, cycle⟩
    | .pad0 => ⟨ram, ppu, video, sound, pad0.writeStrobe v, pad1.writeStrobe v, dma, cycle⟩
    | .sound | .soundStatus | .pad1 =>
      ⟨ram, ppu, video, sound.write a v, pad0, pad1, dma, cycle⟩
    | .nothing => ⟨ram, ppu, video, sound, pad0, pad1, dma, cycle⟩
    | .cartridge =>
      match video with
      | ⟨nametables, slot⟩ =>
        ⟨ram, ppu, ⟨nametables, writeSlot slot a v⟩, sound, pad0, pad1, dma, cycle⟩

/-- What an address shows to an observer. -/
def peek (m : Mainboard) (a : UInt16) : UInt8 :=
  match device a with
  | .ram => m.ram.read a
  | .ppu => m.ppu.peekRegister a
  | .soundStatus => m.sound.enabled
  | .pad0 => m.pad0.peek
  | .pad1 => m.pad1.peek
  | .sound | .dma | .nothing => 0
  | .cartridge => readSlot m.video.slot a

/-- Two bytes as a word, the low one first; used for vectors. -/
def peekWord (m : Mainboard) (a : UInt16) : UInt16 := word (m.peek a) (m.peek (a + 1))

/-- The level of the interrupt line, which only a cartridge drives. -/
@[inline] def irqLine (m : Mainboard) : Bool :=
  match m.video.slot with
  | some c => c.board.irq
  | none => false

instance : ProcessorBus Mainboard where
  read a m := m.read a
  write a v m := m.write a v
  irqLine m := m.irqLine

/-! ## 2. Clocks -/

/-- A cycle of the processor begins. -/
@[inline] def beginCycle (m : Mainboard) : Mainboard := { m with cycle := m.cycle + 1 }

/-- One dot of the picture unit. -/
@[inline] def tickPpu : Mainboard → Mainboard
  | ⟨ram, ppu, video, sound, pad0, pad1, dma, cycle⟩ =>
    let (ppu, video) := ppu.tick video
    ⟨ram, ppu, video, sound, pad0, pad1, dma, cycle⟩

/-- Gives the transfer a cycle, if one is running; it reads as the processor would, and hands over
to sprite memory.  The answer is whether the processor has to stand still. -/
def stepDma (m : Mainboard) : Bool × Mainboard :=
  match m.dma.next with
  | .idle => (false, m)
  | .align => (true, { m with dma := m.dma.advance 0 })
  | .read a =>
    let (v, m) := m.read a
    (true, { m with dma := m.dma.advance v })
  | .write v => (true, { m with ppu := m.ppu.writeOam v, dma := m.dma.advance 0 })

/-! ## 3. Cartridges and reset -/

/-- Clears what came from the cartridge: nametables, the picture unit's fetches, a transfer. -/
def clearCartridgeState (m : Mainboard) : Mainboard :=
  { m with
    video := { m.video with nametables := {} }
    ppu := m.ppu.clearCartridgeState
    dma := {} }

/-- Puts a cartridge into the slot and hands back the one that was there. -/
def insert (m : Mainboard) (c : Cartridge) : Option Cartridge × Mainboard :=
  (m.video.slot, clearCartridgeState { m with video := { m.video with slot := some c } })

/-- Empties the slot and hands back the cartridge. -/
def eject (m : Mainboard) : Option Cartridge × Mainboard :=
  (m.video.slot, clearCartridgeState { m with video := { m.video with slot := none } })

/-- Resets the picture unit, the sound registers, the transfer and the cartridge's logic; work
memory and nametables survive. -/
def reset (m : Mainboard) : Mainboard :=
  { m with
    ppu := m.ppu.reset
    sound := {}
    dma := {}
    video := { m.video with slot := m.video.slot.map Cartridge.reset } }

/-- The controllers are numbered 0 and 1; a larger number counts by its last bit. -/
def setButtons (m : Mainboard) (pad : Nat) (buttons : UInt8) : Mainboard :=
  if pad % 2 = 0 then { m with pad0 := m.pad0.setButtons buttons }
  else { m with pad1 := m.pad1.setButtons buttons }

end Mainboard

end Famicom
