/-
# Taking the cartridge out

Without a cartridge a console has nothing left that came from one: the slot, the nametables, a
transfer under way, what the picture unit had fetched.  The rest stays as it was: the processor and
its memory, the sound registers, the controllers, the palettes, the sprites and the picture.

`Remnant` lists what stays, and **two consoles are alike without their cartridges exactly if they
agree in that** (`eject_eq_iff`).  So the list is neither too long nor too short, from any state:
in the middle of an instruction, of a transfer or of a line.

On the list are also the registers that say where on the plane the picture lies, and which half of a
position is written next, although they are the work of a program on the cartridge.  They stay for
the next one (`exchange_scroll`), which may find its first write taken for the second
(`exchange_first_write`); only if they were at rest are they at rest afterwards.
-/
import Famicom.Proofs.Console.Operations

namespace Famicom

namespace Ppu

/-! ## 1. The registers for scrolling -/

/-- Where on the plane the picture lies, and which half of a position is written next. -/
structure ScrollRegisters where
  v : VramAddress := {}
  t : VramAddress := {}
  fineX : Fin 8 := 0
  toggle : Bool := false
  deriving DecidableEq, Repr

def scrollRegisters (p : Ppu) : ScrollRegisters := ⟨p.v, p.t, p.fineX, p.toggle⟩

/-- The second half of a position makes it current. -/
theorem v_writeAddress {p : Ppu} (v : UInt8) (h : p.toggle = true) :
    (p.writeAddress v).v = .ofRaw (p.t.raw / 256 * 256 + v.toNat) := by
  rw [writeAddress, if_pos h]

end Ppu

namespace Console

variable {σ : Type}

/-! ## 2. What stays -/

/-- What stays of a console without its cartridge. -/
structure Remnant (σ : Type) where
  cpu : Cpu
  listener : σ
  ram : WorkRam
  sound : SoundRegisters
  pads : Controller × Controller
  cycle : Nat
  control : Ppu.Control
  mask : Ppu.Mask
  status : Ppu.Status
  scroll : Ppu.ScrollRegisters
  oamAddress : UInt8
  ioLatch : UInt8
  palette : Palette
  oam : Memory 256
  raster : Ppu.Raster
  /-- The sprites that the search has found for the next line; the units that draw the present one
  are emptied. -/
  found : Ppu.SpriteSearch × Memory 32 × Bool
  frame : Memory 61440
  frameComplete : Bool
  nmiRequest : Bool

/-- What stays of this console. -/
def remnant (c : Console σ) : Remnant σ where
  cpu := c.cpu
  listener := c.listener
  ram := c.board.ram
  sound := c.board.sound
  pads := (c.board.pad0, c.board.pad1)
  cycle := c.board.cycle
  control := c.board.ppu.control
  mask := c.board.ppu.mask
  status := c.board.ppu.status
  scroll := c.board.ppu.scrollRegisters
  oamAddress := c.board.ppu.oamAddress
  ioLatch := c.board.ppu.ioLatch
  palette := c.board.ppu.palette
  oam := c.board.ppu.oam
  raster := c.board.ppu.raster
  found := (c.board.ppu.sprites.search, c.board.ppu.sprites.secondary,
    c.board.ppu.sprites.zeroInLine)
  frame := c.board.ppu.frame
  frameComplete := c.board.ppu.frameComplete
  nmiRequest := c.board.ppu.nmiRequest

namespace Remnant

/-- The picture unit of which this stayed, with nothing in its buffers. -/
def ppu (r : Remnant σ) : Ppu where
  control := r.control
  mask := r.mask
  status := r.status
  v := r.scroll.v
  t := r.scroll.t
  fineX := r.scroll.fineX
  toggle := r.scroll.toggle
  oamAddress := r.oamAddress
  ioLatch := r.ioLatch
  palette := r.palette
  oam := r.oam
  raster := r.raster
  sprites := { search := r.found.1, secondary := r.found.2.1, zeroInLine := r.found.2.2 }
  frame := r.frame
  frameComplete := r.frameComplete
  nmiRequest := r.nmiRequest

/-- The console of which this stayed, with an empty slot and no transfer. -/
def console (r : Remnant σ) : Console σ where
  cpu := r.cpu
  listener := r.listener
  board :=
    { ram := r.ram
      ppu := r.ppu
      sound := r.sound
      pad0 := r.pads.1
      pad1 := r.pads.2
      cycle := r.cycle }

theorem remnant_console (r : Remnant σ) : r.console.remnant = r := rfl

end Remnant

/-- **Without its cartridge a console is what stays of it**, and first values everywhere else. -/
theorem eject_eq (c : Console σ) : c.eject = (c.board.video.slot, c.remnant.console) := rfl

/-- Two consoles are alike without their cartridges exactly if they agree in what stays. -/
theorem eject_eq_iff (c d : Console σ) : c.eject.2 = d.eject.2 ↔ c.remnant = d.remnant := by
  rw [eject_eq, eject_eq]
  constructor
  · intro h
    simpa only [Remnant.remnant_console] using congrArg remnant h
  · intro h
    rw [h]

/-- Taking it out once more changes nothing. -/
theorem eject_eject (c : Console σ) : c.eject.2.eject = (none, c.eject.2) := by
  rw [eject_eq, eject_eq, Remnant.remnant_console]
  rfl

/-! ## 3. Taking it out -/

/-- The cartridge has been taken out of a console. -/
structure Ejected (before after : Console σ) : Prop where
  /-- The processor stands where it stood, in the middle of an instruction or not. -/
  cpu : after.cpu = before.cpu
  listener : after.listener = before.listener
  ram : after.board.ram = before.board.ram
  sound : after.board.sound = before.board.sound
  pads : after.board.pad0 = before.board.pad0 ∧ after.board.pad1 = before.board.pad1
  cycle : after.board.cycle = before.board.cycle
  oam : after.board.ppu.oam = before.board.ppu.oam
  palette : after.board.ppu.palette = before.board.ppu.palette
  frame : after.board.ppu.frame = before.board.ppu.frame
  raster : after.board.ppu.raster = before.board.ppu.raster
  /-- Nothing is in the slot, -/
  slot : after.board.video.slot = none
  /-- nothing in the nametables, -/
  nametables : ∀ mirroring a, after.board.video.nametables.read mirroring a = 0
  /-- no transfer is running, -/
  transfer : after.board.dma.active = false ∧ after.board.dma.remaining = 0
  /-- nobody asks for an interrupt, -/
  irqLine : after.board.irqLine = false
  /-- and nothing that was fetched is kept. -/
  readBuffer : after.board.ppu.readBuffer = 0
  background : after.board.ppu.background = {}
  units : ∀ i : Fin 8, after.board.ppu.sprites.units[i] = {}
  count : after.board.ppu.sprites.count = 0

theorem ejected_eject (c : Console σ) : Ejected c c.eject.2 where
  cpu := rfl
  listener := rfl
  ram := rfl
  sound := rfl
  pads := ⟨rfl, rfl⟩
  cycle := rfl
  oam := rfl
  palette := rfl
  frame := rfl
  raster := rfl
  slot := rfl
  nametables := fun _ _ => Memory.read_filled 0 _
  transfer := ⟨rfl, rfl⟩
  irqLine := rfl
  readBuffer := rfl
  background := rfl
  units := fun i => Vector.getElem_replicate i.isLt
  count := rfl

/-- **All that came from the cartridge is cleared and all else stays, from any state; but the
registers for scrolling stay as well.** -/
theorem eject_clears_all_but_scroll (c : Console σ) :
    c.eject.1 = c.board.video.slot ∧ Ejected c c.eject.2 ∧
      c.eject.2.board.ppu.scrollRegisters = c.board.ppu.scrollRegisters ∧
      ∀ d : Console σ, c.eject.2 = d.eject.2 ↔ c.remnant = d.remnant :=
  ⟨rfl, ejected_eject c, rfl, eject_eq_iff c⟩

/-- A program has written an address, which makes it current, and the first half of a scroll. -/
theorem scroll_survives_eject :
    let cartridge : Cartridge :=
      { header := .ofBytes fun _ => 0, board := .nrom { prg := #[0xEA], chr := #[] } .horizontal }
    let c := (withCartridge () cartridge).operated
      [.access (.write 0x2006 0x21), .access (.write 0x2006 0x08), .access (.write 0x2005 13)]
    c.board.video.slot.isSome ∧
      c.eject.2.board.ppu.scrollRegisters = ⟨.ofRaw 0x2108, .ofRaw 0x2101, 5, true⟩ ∧
      c.eject.2.board.ppu.scrollRegisters ≠ {} := by
  decide

/-! ## 4. The next cartridge -/

/-- To find the vector only the cartridge is read. -/
theorem insert_board (c : Console σ) (cartridge : Cartridge) :
    (c.insert cartridge).2.board = (c.board.insert cartridge).2 := by
  have hlow := Mainboard.read_cartridge (by decide : Mainboard.device Cpu.resetVector = .cartridge)
  have hhigh :=
    Mainboard.read_cartridge (by decide : Mainboard.device (Cpu.resetVector + 1) = .cartridge)
  simp only [insert, Cpu.reset, Cpu.restart, hlow, hhigh]

/-- **The next cartridge finds the registers for scrolling as the last one left them.** -/
theorem exchange_scroll (c : Console σ) (cartridge : Cartridge) :
    (c.eject.2.insert cartridge).2.board.ppu.scrollRegisters = c.board.ppu.scrollRegisters := by
  rw [insert_board]
  rfl

/-- If the last program wrote half a position, the first byte that the next one writes is taken for
the other half, and the position is current. -/
theorem exchange_first_write (c : Console σ) (cartridge : Cartridge) (v : UInt8)
    (htoggle : c.board.ppu.toggle = true) :
    ((c.eject.2.insert cartridge).2.board.write 0x2006 v).ppu.v =
      .ofRaw (c.board.ppu.t.raw / 256 * 256 + v.toNat) := by
  have hscroll := exchange_scroll c cartridge
  have ht := congrArg Ppu.ScrollRegisters.t hscroll
  have hw := congrArg Ppu.ScrollRegisters.toggle hscroll
  generalize (c.eject.2.insert cartridge).2.board = d at ht hw ⊢
  change ({ d.ppu with ioLatch := v }.writeAddress v).v = _
  rw [Ppu.v_writeAddress v (p := { d.ppu with ioLatch := v }) (hw.trans htoggle)]
  exact congrArg (fun t : VramAddress => VramAddress.ofRaw (t.raw / 256 * 256 + v.toNat)) ht

end Console
end Famicom
