/-
# A bus that is all memory

64 KiB of memory under every address, and an interrupt line that is as it was left.  It is the
plainest bus a processor can be put on: a read has no effect and a write no surprise, so what a
program does on it is what its instructions say.
-/
import Famicom.AddressBus
import Famicom.Memory

namespace Famicom

/-- A memory cell for every address, and a level for the interrupt line. -/
structure FlatMemory where
  cells : Memory 65536 := Memory.filled 65536 0
  irq : Bool := false

namespace FlatMemory

/-- The byte at an address. -/
@[inline] def peek (m : FlatMemory) (a : UInt16) : UInt8 := m.cells.read a.toNat

/-- Puts a byte at an address. -/
@[inline] def poke : FlatMemory → UInt16 → UInt8 → FlatMemory
  | ⟨cells, irq⟩, a, v => ⟨cells.write a.toNat v, irq⟩

instance : ProcessorBus FlatMemory where
  read a m := (m.peek a, m)
  write a v m := m.poke a v
  irqLine m := m.irq

theorem peek_poke (m : FlatMemory) (a b : UInt16) (v : UInt8) :
    (m.poke a v).peek b = if a = b then v else m.peek b := by
  have ha := a.toNat_lt
  have hb := b.toNat_lt
  simp only [peek, poke, Memory.read_write]
  rw [Nat.mod_eq_of_lt ha, Nat.mod_eq_of_lt hb]
  simp [UInt16.toNat_inj]

end FlatMemory

end Famicom
