/-
# What instructions do

An instruction is an operation in an addressing mode, and the two are independent: an addition is
the same addition whether its operand was named directly, through a pointer, or written in the
program.  This file holds the operations.  Each is a function of the registers and at most one
byte, and belongs to one of five shapes that say how it touches memory:

* a `ReadOp` takes an operand;
* a `WriteOp` yields the byte to store;
* a `ModifyOp` takes a byte and yields the one to put back;
* an `ImpliedOp` stays inside the registers;
* a `Condition` decides a branch.

The transfers of control and the stack operations need several bus accesses of their own; they are
only named here (`Control`), and `Microcode` says what they do.

**One addition serves all arithmetic.**  Subtraction adds the complement, so that the carry flag
means "no borrow"; and the combined operations run a shift or a step and hand the result to the
arithmetic operation of the pair.
-/
import Famicom.Cpu.Registers

namespace Famicom.Cpu

/-! ## 1. The operations by shape -/

/-- Operations that take an operand. -/
inductive ReadOp where
  | lda | ldx | ldy
  | and | ora | eor | bit
  | adc | sbc | cmp | cpx | cpy
  | nop
  /-- Loads the accumulator and the X register at once. -/
  | lax
  /-- And, then the carry follows the sign. -/
  | anc
  /-- And, then shift right. -/
  | alr
  /-- And, then rotate right, with the carry and overflow of its own. -/
  | arr
  | xaa | lxa
  /-- Subtracts from the and of the accumulator and X, into X. -/
  | axs
  /-- And with the stack pointer, into three registers. -/
  | las
  deriving DecidableEq, Repr

/-- Operations that yield a byte to store. -/
inductive WriteOp where
  | sta | stx | sty
  | sax
  | shy | shx | ahx | tas
  deriving DecidableEq, Repr

/-- Operations that replace a byte. -/
inductive ModifyOp where
  | asl | lsr | rol | ror | inc | dec
  | slo | rla | sre | rra | dcp | isb
  deriving DecidableEq, Repr

/-- Operations inside the registers. -/
inductive ImpliedOp where
  | tax | tay | txa | tya | tsx | txs
  | inx | iny | dex | dey
  | clc | sec | cli | sei | clv | cld | sed
  | nop
  deriving DecidableEq, Repr

/-- Conditions of the branches: a flag, and the value it must have. -/
inductive Condition where
  | bpl | bmi | bvc | bvs | bcc | bcs | bne | beq
  deriving DecidableEq, Repr

/-- Transfers of control and stack operations. -/
inductive Control where
  | brk | jsr | rts | rti
  | jump | jumpIndirect
  | pha | php | pla | plp
  deriving DecidableEq, Repr

/-! ## 2. Loads, arithmetic and comparison -/

namespace Registers

@[inline] def loadA (r : Registers) (v : UInt8) : Registers := { r with a := v }.noteResult v

@[inline] def loadX (r : Registers) (v : UInt8) : Registers := { r with x := v }.noteResult v

@[inline] def loadY (r : Registers) (v : UInt8) : Registers := { r with y := v }.noteResult v

/-- Adds with carry, in binary.  The carry is the ninth bit of the sum; the overflow flag says
that the operands agree in sign and the sum does not. -/
def add (r : Registers) (v : UInt8) : Registers :=
  let carry := r.has Flag.carry
  let sum := r.a + v + bitOf carry
  let signed := ~~~(r.a ^^^ v) &&& (r.a ^^^ sum) &&& 0x80 != 0
  let r := r.assign Flag.carry (r.a.toNat + v.toNat + (bitOf carry).toNat > 255)
  (r.assign Flag.overflow signed).loadA sum

/-- Subtracts with borrow: adds the complement, so carry means "no borrow". -/
def sub (r : Registers) (v : UInt8) : Registers := r.add (~~~v)

/-- Compares a register with an operand and keeps only the flags. -/
def compare (r : Registers) (reg v : UInt8) : Registers :=
  (r.assign Flag.carry (v ≤ reg)).noteResult (reg - v)

/-! ## 3. Shifts and steps

Each yields the new byte and sets the flags for it. -/

/-- A shifted byte, with the bit that fell out in the carry flag. -/
@[inline] def shifted (r : Registers) (out : Bool) (v : UInt8) : UInt8 × Registers :=
  (v, (r.assign Flag.carry out).noteResult v)

def shiftLeft (r : Registers) (v : UInt8) : UInt8 × Registers :=
  r.shifted (v &&& 0x80 != 0) (v <<< 1)

def shiftRight (r : Registers) (v : UInt8) : UInt8 × Registers :=
  r.shifted (v &&& 0x01 != 0) (v >>> 1)

def rotateLeft (r : Registers) (v : UInt8) : UInt8 × Registers :=
  r.shifted (v &&& 0x80 != 0) ((v <<< 1) ||| bitOf (r.has Flag.carry))

def rotateRight (r : Registers) (v : UInt8) : UInt8 × Registers :=
  r.shifted (v &&& 0x01 != 0) ((v >>> 1) ||| (bitOf (r.has Flag.carry) <<< 7))

end Registers

/-! ## 4. What each operation does -/

/-- The bits that leak into the accumulator of the two operations that mix it with the bus. -/
def leakage : UInt8 := 0xEE

namespace ReadOp

/-- Loads both registers; the flags follow the value. -/
@[inline] def loadBoth (r : Registers) (v : UInt8) : Registers := { r.loadA v with x := v }

/-- The registers after the operation on `v`. -/
def apply : ReadOp → UInt8 → Registers → Registers
  | lda, v, r => r.loadA v
  | ldx, v, r => r.loadX v
  | ldy, v, r => r.loadY v
  | and, v, r => r.loadA (r.a &&& v)
  | ora, v, r => r.loadA (r.a ||| v)
  | eor, v, r => r.loadA (r.a ^^^ v)
  | bit, v, r =>
    ((r.assign Flag.zero (r.a &&& v == 0)).assign Flag.negative (v &&& 0x80 != 0)).assign
      Flag.overflow (v &&& 0x40 != 0)
  | adc, v, r => r.add v
  | sbc, v, r => r.sub v
  | cmp, v, r => r.compare r.a v
  | cpx, v, r => r.compare r.x v
  | cpy, v, r => r.compare r.y v
  | nop, _, r => r
  | lax, v, r => loadBoth r v
  | anc, v, r =>
    let r := r.loadA (r.a &&& v)
    r.assign Flag.carry (r.has Flag.negative)
  | alr, v, r =>
    let (v, r) := r.shiftRight (r.a &&& v)
    { r with a := v }
  | arr, v, r =>
    let v := ((r.a &&& v) >>> 1) ||| (bitOf (r.has Flag.carry) <<< 7)
    let bit6 := v &&& 0x40 != 0
    let bit5 := v &&& 0x20 != 0
    ((r.loadA v).assign Flag.carry bit6).assign Flag.overflow (bit6 != bit5)
  | xaa, v, r => r.loadA ((r.a ||| leakage) &&& r.x &&& v)
  | lxa, v, r => loadBoth r ((r.a ||| leakage) &&& v)
  | axs, v, r =>
    let t := r.a &&& r.x
    (r.assign Flag.carry (v ≤ t)).loadX (t - v)
  | las, v, r =>
    let t := v &&& r.sp
    loadBoth { r with sp := t } t

/-- No operation looks at the program counter or moves it. -/
theorem apply_pc (op : ReadOp) (v : UInt8) (r : Registers) (pc : UInt16) :
    op.apply v { r with pc } = { op.apply v r with pc } := by
  cases op <;> rfl

end ReadOp

namespace WriteOp

/-- The byte to store, and the registers after it.  `high` is one more than the page of the
address before indexing; only the last four operations look at it. -/
def apply : WriteOp → UInt8 → Registers → UInt8 × Registers
  | sta, _, r => (r.a, r)
  | stx, _, r => (r.x, r)
  | sty, _, r => (r.y, r)
  | sax, _, r => (r.a &&& r.x, r)
  | shy, high, r => (r.y &&& high, r)
  | shx, high, r => (r.x &&& high, r)
  | ahx, high, r => (r.a &&& r.x &&& high, r)
  | tas, high, r =>
    let t := r.a &&& r.x
    (t &&& high, { r with sp := t })

theorem apply_pc (op : WriteOp) (high : UInt8) (r : Registers) (pc : UInt16) :
    op.apply high { r with pc } = ((op.apply high r).1, { (op.apply high r).2 with pc }) := by
  cases op <;> rfl

end WriteOp

namespace ModifyOp

/-- The byte to put back, and the registers after it. -/
def apply : ModifyOp → UInt8 → Registers → UInt8 × Registers
  | asl, v, r => r.shiftLeft v
  | lsr, v, r => r.shiftRight v
  | rol, v, r => r.rotateLeft v
  | ror, v, r => r.rotateRight v
  | inc, v, r => (v + 1, r.noteResult (v + 1))
  | dec, v, r => (v - 1, r.noteResult (v - 1))
  | slo, v, r => let (v, r) := r.shiftLeft v; (v, r.loadA (r.a ||| v))
  | rla, v, r => let (v, r) := r.rotateLeft v; (v, r.loadA (r.a &&& v))
  | sre, v, r => let (v, r) := r.shiftRight v; (v, r.loadA (r.a ^^^ v))
  | rra, v, r => let (v, r) := r.rotateRight v; (v, r.add v)
  | dcp, v, r => (v - 1, r.compare r.a (v - 1))
  | isb, v, r => (v + 1, r.sub (v + 1))

theorem apply_pc (op : ModifyOp) (v : UInt8) (r : Registers) (pc : UInt16) :
    op.apply v { r with pc } = ((op.apply v r).1, { (op.apply v r).2 with pc }) := by
  cases op <;> rfl

end ModifyOp

namespace ImpliedOp

/-- The registers after the operation. -/
def apply : ImpliedOp → Registers → Registers
  | tax, r => r.loadX r.a
  | tay, r => r.loadY r.a
  | txa, r => r.loadA r.x
  | tya, r => r.loadA r.y
  | tsx, r => r.loadX r.sp
  -- The one transfer that leaves the flags alone.
  | txs, r => { r with sp := r.x }
  | inx, r => r.loadX (r.x + 1)
  | iny, r => r.loadY (r.y + 1)
  | dex, r => r.loadX (r.x - 1)
  | dey, r => r.loadY (r.y - 1)
  | clc, r => r.assign Flag.carry false
  | sec, r => r.assign Flag.carry true
  | cli, r => r.assign Flag.interruptDisable false
  | sei, r => r.assign Flag.interruptDisable true
  | clv, r => r.assign Flag.overflow false
  | cld, r => r.assign Flag.decimal false
  | sed, r => r.assign Flag.decimal true
  | nop, r => r

theorem apply_pc (op : ImpliedOp) (r : Registers) (pc : UInt16) :
    op.apply { r with pc } = { op.apply r with pc } := by
  cases op <;> rfl

end ImpliedOp

namespace Condition

/-- Whether the branch is taken. -/
def holds : Condition → Registers → Bool
  | bpl, r => !r.has Flag.negative
  | bmi, r => r.has Flag.negative
  | bvc, r => !r.has Flag.overflow
  | bvs, r => r.has Flag.overflow
  | bcc, r => !r.has Flag.carry
  | bcs, r => r.has Flag.carry
  | bne, r => !r.has Flag.zero
  | beq, r => r.has Flag.zero

end Condition

end Famicom.Cpu
