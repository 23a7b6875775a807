/-
# Sprite memory transfer

A write of a page number to `$4014` copies that page into sprite memory.  The copy needs the bus, so
the processor stands still meanwhile: first for one cycle, or two if the write fell on an odd one,
and then for 256 pairs of cycles, one that reads a byte and one that hands it over.

`step` is one such cycle.  What it does to the rest of the console is its answer, a `Cycle`: nothing
yet, a read to be made, or a byte to be stored.  The transfer itself never sees the bus.
-/
import Famicom.Word

namespace Famicom

/-- The transfer, running or not. -/
structure SpriteDma where
  active : Bool := false
  /-- The first address of the page. -/
  source : UInt16 := 0
  /-- How many bytes have been handed over. -/
  index : Nat := 0
  /-- True when a byte has been read and waits to be handed over. -/
  loaded : Bool := false
  latch : UInt8 := 0
  /-- Cycles to wait before the first read. -/
  alignment : Nat := 0
  deriving DecidableEq, Repr, Inhabited

namespace SpriteDma

/-- What one cycle of a transfer needs of the console. -/
inductive Cycle where
  /-- No transfer is running: the processor has the cycle. -/
  | idle
  /-- The transfer waits for its place. -/
  | align
  /-- The byte at an address is wanted; `received` takes it. -/
  | read (address : UInt16)
  /-- A byte goes to sprite memory. -/
  | write (value : UInt8)
  deriving DecidableEq, Repr

/-- The bytes of a page. -/
def length : Nat := 256

/-- Begins a transfer.  It waits one cycle if the current one is even and two if it is odd. -/
def start (page : UInt8) (cycle : Nat) : SpriteDma where
  active := true
  source := word 0 page
  alignment := 1 + cycle % 2

/-- The cycles for which the processor will stand still, alignment included. -/
def remaining (d : SpriteDma) : Nat :=
  if d.active then
    let transfer := (length - d.index) * 2
    d.alignment + if d.loaded then transfer - 1 else transfer
  else 0

/-- What the next cycle needs. -/
def next (d : SpriteDma) : Cycle :=
  if !d.active then .idle
  else if d.alignment ≠ 0 then .align
  else if d.loaded then .write d.latch
  else .read (d.source + .ofNat d.index)

/-- The transfer after that cycle; a read brings `value`. -/
def advance (d : SpriteDma) (value : UInt8) : SpriteDma :=
  match d.next with
  | .idle => d
  | .align => { d with alignment := d.alignment - 1 }
  | .read _ => { d with latch := value, loaded := true }
  | .write _ =>
    let index := d.index + 1
    { d with index, loaded := false, active := index < length }

end SpriteDma

end Famicom
