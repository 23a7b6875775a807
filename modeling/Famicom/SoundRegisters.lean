/-
# The sound registers

The sound unit is here only as the registers a program writes: nothing is synthesised, and the one
register that can be read answers which channels the program enabled.  The two addresses in the
window that belong to other devices, `$4014` and `$4016`, are not its own.
-/
import Famicom.Memory

namespace Famicom

/-- What was last written to the sound unit. -/
structure SoundRegisters where
  /-- What was written at `$4000` to `$4013`. -/
  channels : Memory 20 := Memory.filled 20 0
  /-- The five channel bits of `$4015`. -/
  enabled : UInt8 := 0
  /-- What was written at `$4017`. -/
  frameCounter : UInt8 := 0
  deriving DecidableEq

namespace SoundRegisters

/-- True for the addresses the sound unit takes writes at. -/
def owns (a : UInt16) : Bool :=
  (0x4000 ≤ a && a ≤ 0x4013) || a == 0x4015 || a == 0x4017

/-- The registers after a write; an address of another device changes nothing. -/
def write (s : SoundRegisters) (a : UInt16) (v : UInt8) : SoundRegisters :=
  if 0x4000 ≤ a && a ≤ 0x4013 then
    { s with channels := s.channels.write (a.toNat - 0x4000) v }
  else if a == 0x4015 then { s with enabled := v &&& 0x1F }
  else if a == 0x4017 then { s with frameCounter := v }
  else s

/-- What was last written at an address, if it is one of the unit's own. -/
def register? (s : SoundRegisters) (a : UInt16) : Option UInt8 :=
  if 0x4000 ≤ a && a ≤ 0x4013 then some (s.channels.read (a.toNat - 0x4000))
  else if a == 0x4015 then some s.enabled
  else if a == 0x4017 then some s.frameCounter
  else none

/-- The unit answers for exactly the addresses it owns. -/
theorem isSome_register? (s : SoundRegisters) (a : UInt16) :
    (s.register? a).isSome = owns a := by
  simp only [register?, owns]
  split
  · simp_all
  · split
    · simp_all
    · split <;> simp_all

end SoundRegisters

end Famicom
