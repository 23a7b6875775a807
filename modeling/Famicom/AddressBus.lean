/-
# Address buses

The processor and the picture unit each drive a bus of their own: they put an address on it and
either take a byte or leave one.  What answers is none of their business, and everything they do
can be said of *any* bus.  `AddressBus` is that notion.  A read hands the bus back beside the byte,
because on this machine reading may change the device that answers (the status register forgets
its blanking flag, a controller shifts).

`ProcessorBus` adds the one line that reaches the processor without being addressed, the interrupt
request.

`Recorded` is a bus with a log beside it.  It answers exactly as the bus inside does and writes
down every access in order, so **what a component does to the world is the log it leaves**.
-/

namespace Famicom

/-! ## 1. Buses -/

/-- Something that answers addressed reads and takes addressed writes. -/
class AddressBus (β : Type) where
  /-- The byte at an address, and the bus after the access. -/
  read : UInt16 → β → UInt8 × β
  /-- The bus after a byte was left at an address. -/
  write : UInt16 → UInt8 → β → β

/-- A bus the processor can be put on: it also shows the level of the interrupt line. -/
class ProcessorBus (β : Type) extends AddressBus β where
  /-- True while some device asserts the interrupt request line. -/
  irqLine : β → Bool

/-! ## 2. Recording -/

/-- One access as seen on the bus, with the byte that crossed it. -/
inductive Access where
  | read (address : UInt16) (value : UInt8)
  | write (address : UInt16) (value : UInt8)
  deriving DecidableEq, Repr

/-- A bus together with the accesses made on it so far, the oldest first. -/
structure Recorded (β : Type) where
  bus : β
  log : Array Access := #[]

namespace Recorded

variable {β : Type}

/-- The same bus with an empty log. -/
def cleared (r : Recorded β) : Recorded β := { r with log := #[] }

instance [AddressBus β] : AddressBus (Recorded β) where
  read a := fun ⟨bus, log⟩ =>
    let (v, bus) := AddressBus.read a bus
    (v, ⟨bus, log.push (.read a v)⟩)
  write a v := fun ⟨bus, log⟩ => ⟨AddressBus.write a v bus, log.push (.write a v)⟩

instance [ProcessorBus β] : ProcessorBus (Recorded β) where
  irqLine r := ProcessorBus.irqLine r.bus

/-- Recording does not change what a read answers. -/
theorem read_fst [AddressBus β] (a : UInt16) (r : Recorded β) :
    (AddressBus.read a r).1 = (AddressBus.read a r.bus).1 := rfl

/-- A read leaves the bus as it would have been left, and one entry in the log. -/
theorem read_snd [AddressBus β] (a : UInt16) (r : Recorded β) :
    (AddressBus.read a r).2 =
      ⟨(AddressBus.read a r.bus).2, r.log.push (.read a (AddressBus.read a r.bus).1)⟩ := rfl

/-- A write leaves the bus as it would have been left, and one entry in the log. -/
theorem write_eq [AddressBus β] (a : UInt16) (v : UInt8) (r : Recorded β) :
    AddressBus.write a v r = ⟨AddressBus.write a v r.bus, r.log.push (.write a v)⟩ := rfl

end Recorded

end Famicom
