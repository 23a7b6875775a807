/-
# The console

The console is a processor on its mainboard, and a clock.  One `tick` is one cycle of the processor:

1. the cycle is counted;
2. a sprite transfer that is running has the cycle, and otherwise the processor;
3. the picture unit makes three dots;
4. a request of the picture unit for an interrupt goes to the processor, and a finished picture to
   whoever is watching.

Whoever is watching is a `FrameListener`: a value that changes with every picture it is shown.

Everything that runs for a while is bounded by a count known beforehand, so nothing here can run on:
an instruction by the micro-ops it has pending and the transfers they may start, and a frame by the
dots of the raster.
-/
import Famicom.Cpu.Disassembly
import Famicom.Cpu.Machine
import Famicom.Mainboard

namespace Famicom

/-- A value that is shown every finished picture. -/
class FrameListener (σ : Type) where
  /-- The listener after it was shown a picture. -/
  hear : Memory 61440 → σ → σ

/-- Nobody is watching. -/
instance : FrameListener Unit where
  hear _ u := u

/-- Two listeners are shown the same pictures. -/
instance {σ τ : Type} [FrameListener σ] [FrameListener τ] : FrameListener (σ × τ) where
  hear frame l := (FrameListener.hear frame l.1, FrameListener.hear frame l.2)

/-- A processor on its mainboard, and whoever is watching. -/
structure Console (σ : Type) where
  cpu : Cpu := {}
  board : Mainboard := {}
  listener : σ

namespace Console

variable {σ : Type}

/-! ## 1. One cycle -/

/-- Dots of the picture unit in a cycle of the processor. -/
def dotsPerCycle : Nat := 3

/-- The cycle of the processor, or of the transfer that keeps it waiting. -/
def processorCycle (cpu : Cpu) (board : Mainboard) : Cpu × Mainboard :=
  if board.dma.active then (cpu, board.stepDma.2) else cpu.tick board

/-- A request of the picture unit reaches the processor. -/
@[inline] def forwardNmi (cpu : Cpu) : Mainboard → Cpu × Mainboard
  | ⟨ram, ppu, video, sound, pad0, pad1, dma, cycle⟩ =>
    let (request, ppu) := ppu.takeNmiRequest
    (if request then cpu.requestNmi else cpu, ⟨ram, ppu, video, sound, pad0, pad1, dma, cycle⟩)

/-- A finished picture reaches whoever is watching.  The answer is whether there was one. -/
@[inline] def deliverFrame [FrameListener σ] (listener : σ) :
    Mainboard → Bool × σ × Mainboard
  | ⟨ram, ppu, video, sound, pad0, pad1, dma, cycle⟩ =>
    let (finished, ppu) := ppu.takeFrameComplete
    let listener := if finished then FrameListener.hear ppu.frame listener else listener
    (finished, listener, ⟨ram, ppu, video, sound, pad0, pad1, dma, cycle⟩)

/-- One cycle.  The answer is whether a picture was finished in it. -/
def tick [FrameListener σ] : Console σ → Bool × Console σ
  | ⟨cpu, board, listener⟩ =>
    let (cpu, board) := processorCycle cpu board.beginCycle
    let board := board.tickPpu.tickPpu.tickPpu
    let (cpu, board) := forwardNmi cpu board
    let (finished, listener, board) := deliverFrame listener board
    (finished, ⟨cpu, board, listener⟩)

/-! ## 2. Running -/

/-- True where an instruction and every transfer it started have ended. -/
def isSettled (c : Console σ) : Bool :=
  (c.cpu.atBoundary && !c.board.dma.active) || c.cpu.isJammed

/-- The longest a transfer keeps the processor waiting. -/
def longestTransfer : Nat := 514

/-- Cycles that will do to settle: those of the transfer under way, and for every micro-op pending
its own cycle and a transfer that it might start. -/
def settlingTime (c : Console σ) : Nat :=
  c.cpu.phase.pending * (1 + longestTransfer) + c.board.dma.remaining

/-- At most `n` further cycles, ending as soon as the console has settled. -/
def settleWithin [FrameListener σ] : Nat → Nat → Console σ → Nat × Console σ
  | 0, spent, c => (spent, c)
  | n + 1, spent, c =>
    if c.isSettled then (spent, c) else settleWithin n (spent + 1) c.tick.2

/-- Runs to the end of an instruction, and of any transfer it started, and counts the cycles; it
makes at least one. -/
def stepInstruction [FrameListener σ] (c : Console σ) : Nat × Console σ :=
  let c := c.tick.2
  settleWithin c.settlingTime 1 c

/-- Cycles in which the raster comes round at least once. -/
def cyclesPerFrame : Nat :=
  (Ppu.linesPerFrame * Ppu.dotsPerLine + dotsPerCycle - 1) / dotsPerCycle

/-- At most `n` cycles, ending with the one that finishes a picture. -/
def runFrameWithin [FrameListener σ] : Nat → Console σ → Console σ
  | 0, c => c
  | n + 1, c =>
    let (finished, c) := c.tick
    if finished then c else runFrameWithin n c

/-- Runs until a picture is finished. -/
def runFrame [FrameListener σ] (c : Console σ) : Console σ := runFrameWithin cyclesPerFrame c

/-- Runs until `n` pictures are finished. -/
def runFrames [FrameListener σ] : Nat → Console σ → Console σ
  | 0, c => c
  | n + 1, c => runFrames n c.runFrame

/-! ## 3. Cartridges and reset -/

/-- Puts a cartridge into the slot, starts the processor at the cartridge's reset vector, and hands
back the cartridge that was there. -/
def insert (c : Console σ) (cartridge : Cartridge) : Option Cartridge × Console σ :=
  let (previous, board) := c.board.insert cartridge
  let (cpu, board) := c.cpu.reset board
  (previous, { c with cpu, board })

/-- Empties the slot and hands back the cartridge.  The processor is left as it is. -/
def eject (c : Console σ) : Option Cartridge × Console σ :=
  let (previous, board) := c.board.eject
  (previous, { c with board })

/-- The reset button. -/
def reset (c : Console σ) : Console σ :=
  let (cpu, board) := c.cpu.reset c.board.reset
  { c with cpu, board }

/-- A console with a cartridge in it. -/
def withCartridge (listener : σ) (cartridge : Cartridge) : Console σ :=
  (Console.insert { listener } cartridge).2

/-- The listing of `count` instructions in memory, none of which is clocked by it. -/
def listing (c : Console σ) (start : UInt16) (count : Nat) : List String :=
  Cpu.disassembleFrom c.board.peek start count

end Console

end Famicom
