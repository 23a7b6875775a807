/-
# The MMC3's scanline counter

The chip cannot see the raster.  It watches one line of the picture unit's address bus, the one
that tells the two pattern tables apart, and a program that keeps backgrounds in one table and
sprites in the other makes that line rise once in every scanline.  A rise counts only after the
line has been low for three accesses, which filters out the alternation within a fetch.

A counted rise steps a counter down.  At zero, or after a program asked for it, the counter takes
the latched value instead; and whenever a step leaves it at zero while interrupts are enabled, the
chip asserts its interrupt line, until the program disables them.
-/
import Famicom.Word

namespace Famicom

/-- The counter, its controls, and how long the watched line has been low. -/
structure ScanlineCounter where
  latch : UInt8 := 0
  counter : UInt8 := 0
  reload : Bool := false
  enabled : Bool := false
  pending : Bool := false
  /-- Consecutive accesses with the line low, up to the present one.  All that is asked is whether
  there are three, so a counter of eight bits that stays at its last number would do as well. -/
  lowRun : Nat := 0
  deriving DecidableEq, Repr, Inhabited

namespace ScanlineCounter

/-- Accesses the line must have been low for. -/
def filterLength : Nat := 3

/-- One counted rise. -/
def clock (c : ScanlineCounter) : ScanlineCounter :=
  let counter := if c.counter == 0 || c.reload then c.latch else c.counter - 1
  { c with counter, reload := false, pending := c.pending || (counter == 0 && c.enabled) }

/-- The picture unit put an address on its bus. -/
def observe (c : ScanlineCounter) (a : UInt16) : ScanlineCounter :=
  if a &&& 0x1000 != 0 then
    if filterLength ≤ c.lowRun then { c.clock with lowRun := 0 } else { c with lowRun := 0 }
  else { c with lowRun := c.lowRun + 1 }

/-- The value the counter restarts from. -/
def setLatch (c : ScanlineCounter) (v : UInt8) : ScanlineCounter := { c with latch := v }

/-- The next rise restarts the counter. -/
def requestReload (c : ScanlineCounter) : ScanlineCounter :=
  { c with counter := 0, reload := true }

/-- Disables interrupts and releases the line. -/
def disable (c : ScanlineCounter) : ScanlineCounter :=
  { c with enabled := false, pending := false }

def enable (c : ScanlineCounter) : ScanlineCounter := { c with enabled := true }

end ScanlineCounter

end Famicom
