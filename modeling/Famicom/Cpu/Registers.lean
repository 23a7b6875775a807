/-
# The processor's registers

What a program can see of the processor: an accumulator, two index registers, a stack pointer, a
program counter and a status byte.  Nothing here knows of a bus; the operations are functions of
the registers alone, and the microcode decides when each of them happens.

The status byte holds eight flags, `N V 1 B D I Z C` from bit 7 down.  Two of them are not stored
anywhere in the processor.  *Break* exists only in the copies that go to the stack, where it tells
a software break from an interrupt, and the bit above it always reads as one.  Hence the two
functions that translate between the byte in the register and the byte on the stack: what is
pushed has both bits filled in (`pushedStatus`), and what is pulled has them normalised
(`restoreStatus`).
-/
import Famicom.Word

namespace Famicom.Cpu

/-! ## 1. Flags -/

namespace Flag

/-- The last addition carried, or the last subtraction did not borrow. -/
def carry : UInt8 := 0x01
/-- The last result was zero. -/
def zero : UInt8 := 0x02
/-- Interrupt requests are held off. -/
def interruptDisable : UInt8 := 0x04
/-- Stored for the program and never consulted: this processor adds in binary only. -/
def decimal : UInt8 := 0x08
/-- Set in the stack copy that a break or a status push leaves. -/
def brk : UInt8 := 0x10
/-- Always reads as one. -/
def unused : UInt8 := 0x20
/-- The last addition left the signed range. -/
def overflow : UInt8 := 0x40
/-- The last result had its top bit set. -/
def negative : UInt8 := 0x80

end Flag

/-! ## 2. Registers -/

/-- The registers a program sees.  The defaults are their values after power-on. -/
structure Registers where
  a : UInt8 := 0
  x : UInt8 := 0
  y : UInt8 := 0
  sp : UInt8 := 0xFD
  pc : UInt16 := 0
  status : UInt8 := 0x24
  deriving DecidableEq, Repr, Inhabited

namespace Registers

/-- Moves the program counter, wrapping at the end of the address space. -/
@[inline] def advance (r : Registers) (n : UInt16) : Registers := { r with pc := r.pc + n }

theorem advance_advance (r : Registers) (m n : UInt16) :
    (r.advance m).advance n = r.advance (m + n) := by
  simp only [advance, UInt16.add_assoc]

/-- True when any flag of `mask` is set. -/
@[inline] def has (r : Registers) (mask : UInt8) : Bool := r.status &&& mask != 0

/-- Sets or clears every flag of `mask`. -/
@[inline] def assign (r : Registers) (mask : UInt8) (on : Bool) : Registers :=
  { r with status := if on then r.status ||| mask else r.status &&& ~~~mask }

/-- The zero and negative flags follow a result. -/
@[inline] def noteResult (r : Registers) (v : UInt8) : Registers :=
  (r.assign Flag.zero (v == 0)).assign Flag.negative (v &&& 0x80 != 0)

/-- Setting some flags does not reach others. -/
theorem status_assign {mask kept : UInt8} (h : mask &&& kept = 0) (r : Registers) (on : Bool) :
    (r.assign mask on).status &&& kept = r.status &&& kept := by
  have hbits (i : Nat) : (mask.toBitVec.getLsbD i && kept.toBitVec.getLsbD i) = false := by
    simpa using congrArg (fun b => b.toBitVec.getLsbD i) h
  apply UInt8.toBitVec_inj.mp
  apply BitVec.eq_of_getLsbD_eq
  intro i _
  have hi := hbits i
  cases on <;> simp [assign] <;> grind

/-- A flag reads as it was last set. -/
theorem has_assign {mask : UInt8} (h : mask ≠ 0) (r : Registers) (on : Bool) :
    (r.assign mask on).has mask = on := by
  cases on with
  | true =>
    have hset : (r.status ||| mask) &&& mask = mask := by
      apply UInt8.toBitVec_inj.mp
      apply BitVec.eq_of_getLsbD_eq
      intro i _
      simp
      grind
    simp [has, assign, hset, h]
  | false => simp [has, assign, UInt8.and_assoc]

theorem has_assign_of_disjoint {mask other : UInt8} (h : mask &&& other = 0) (r : Registers)
    (on : Bool) : (r.assign mask on).has other = r.has other := by
  rw [has, status_assign h, has]

/-! ## 3. The stack

The stack lies in page 1 and grows down.  Pushing writes at the pointer and then steps it back,
pulling steps it forward and then reads, and the pointer wraps inside the page. -/

/-- The cell the stack pointer names. -/
@[inline] def stackAddress (r : Registers) : UInt16 := word r.sp 0x01

/-- The stack pointer after a push to `stackAddress`. -/
@[inline] def pushed (r : Registers) : Registers := { r with sp := r.sp - 1 }

/-- The stack pointer before a pull, which then reads `stackAddress`. -/
@[inline] def pulled (r : Registers) : Registers := { r with sp := r.sp + 1 }

/-- A pull undoes a push. -/
theorem pulled_pushed (r : Registers) : r.pushed.pulled = r := by
  simp [pushed, pulled]

/-- The status byte as it goes to the stack: the unused flag set, the break flag as asked. -/
@[inline] def pushedStatus (r : Registers) (withBreak : Bool) : UInt8 :=
  let v := r.status ||| Flag.unused
  if withBreak then v ||| Flag.brk else v &&& ~~~Flag.brk

/-- The status byte as it comes back: the unused flag set, the break flag dropped. -/
@[inline] def restoreStatus (r : Registers) (v : UInt8) : Registers :=
  { r with status := (v ||| Flag.unused) &&& ~~~Flag.brk }

end Registers

end Famicom.Cpu
