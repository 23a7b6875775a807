/-
# The UxROM board

One latch on this board picks the 16 KiB bank at `$8000`; the last bank is fixed at `$C000`.  The
latch is as wide as the bank numbers need, rounded up to whole bits, so a program memory whose size
is no power of two can be asked for banks that are not there, and those wrap.
-/
import Famicom.Board.Chips

namespace Famicom.Uxrom

/-- The whole 16 KiB banks of a program memory, and at least one. -/
def bankCount (size : Nat) : Nat := max (size / 0x4000) 1

/-- The bits of the latch: those of the largest bank number, at most eight. -/
def bankMask (size : Nat) : UInt8 := .ofNat (min (Nat.nextPowerOfTwo (bankCount size) - 1) 0xFF)

/-- The bank that a written value selects. -/
def select (size : Nat) (v : UInt8) : UInt8 := v &&& bankMask size

/-- The offset in program memory behind an address. -/
def prgOffset (bank : UInt8) (size : Nat) (a : UInt16) : Nat :=
  bankedOffset size (if a < 0xC000 then bank.toNat else bankCount size - 1) 0x4000 a.toNat

end Famicom.Uxrom
