/-
# Microcode

The processor makes exactly one bus access in every cycle, so an instruction is a sequence of
accesses, and its duration is the length of that sequence.  A `MicroOp` is one such cycle: an
access, together with what the processor does with the byte.  `Instruction.microcode` spells every
instruction out in them, after the cycle that fetched its opcode.

Three facts about the chip shape the sequences.

* **It always touches the bus**, even with nothing to ask for.  An instruction without an operand
  reads the next byte of the program and drops it; an indexed one reads at an address it has not
  finished computing.
* **A carry into the page number costs a cycle.**  The low byte of an indexed address is added
  first, and the chip reads there with the page still uncorrected.  If the page was right after
  all, a read is done (`tryRead`); a store must not take that chance and always waits
  (`settle`).
* **A byte is put back before it is replaced.**  An operation on memory writes the byte it read
  while it computes the new one (`modify`), and then writes that (`storeData`).

Only `tryRead`, `branchOffset` and `branchNear` can end an instruction before its last micro-op;
`MicroOp.finishes` says when.  An interrupt entry is a
sequence of the same micro-ops (`Phase.entry`).
-/
import Famicom.Cpu.Opcode

namespace Famicom.Cpu

/-! ## 1. Micro-operations -/

/-- One cycle of an instruction or of an interrupt entry. -/
inductive MicroOp where
  -- ### Operand bytes
  /-- The operand is an address in page zero, or the low byte of one. -/
  | fetchAddress
  /-- The operand is the high byte of the address. -/
  | fetchAddressHigh
  /-- The operand is the address before indexing, or its low byte. -/
  | fetchBase
  /-- The operand is the high byte of the address before indexing; the index is added. -/
  | fetchBaseHigh (index : Index)
  /-- The operand is the place of a pointer in page zero. -/
  | fetchPointer
  /-- The operand is kept for a later cycle. -/
  | fetchData
  /-- The operand is read and dropped. -/
  | skipOperand
  /-- The operand is the value itself. -/
  | immediate (op : ReadOp)
  -- ### Forming an address
  /-- Reads at the address before indexing, then adds the index inside page zero. -/
  | indexZeroPage (index : Index)
  /-- Reads at the pointer before indexing, then adds X inside page zero. -/
  | indexPointer
  /-- Follows the pointer for the low byte of the address. -/
  | followAddress
  /-- Follows the pointer for the high byte of the address. -/
  | followAddressHigh
  /-- Follows the pointer for the low byte of the address before indexing. -/
  | followBase
  /-- Follows the pointer for the high byte of the address before indexing; Y is added. -/
  | followBaseHigh
  /-- Reads with the page uncorrected, and drops the byte. -/
  | settle
  -- ### Operating on memory
  /-- Reads with the page uncorrected, and operates if it needed no correction. -/
  | tryRead (op : ReadOp)
  /-- Reads the operand and operates on it. -/
  | read (op : ReadOp)
  /-- Stores what the operation yields. -/
  | store (op : WriteOp)
  /-- Reads the byte at the address and keeps it. -/
  | loadData
  /-- Writes the kept byte back and operates on it. -/
  | modify (op : ModifyOp)
  /-- Writes the kept byte. -/
  | storeData
  -- ### Operating on registers
  /-- Reads the next byte of the program and drops it. -/
  | idle
  /-- Reads the next byte of the program, drops it and operates on the registers. -/
  | implied (op : ImpliedOp)
  /-- Reads the next byte of the program, drops it and operates on the accumulator. -/
  | accumulator (op : ModifyOp)
  -- ### Branches and jumps
  /-- The operand is the displacement; ends here if the branch is not taken. -/
  | branchOffset (condition : Condition)
  /-- Moves within the page; ends here if that was enough. -/
  | branchNear
  /-- Moves to the target in its own page. -/
  | branchFar
  /-- The byte at the program counter is the high byte of the target. -/
  | jump
  /-- Follows the address for the high byte of the target, staying in its page. -/
  | jumpIndirect
  -- ### The stack
  /-- Reads the top of the stack and drops it. -/
  | idleStack
  | pushA
  /-- Pushes the status byte with the break flag set. -/
  | pushStatus
  | pullA
  | pullStatus
  | pullData
  /-- Pulls the high byte of the program counter, above the kept low byte. -/
  | pullJump
  /-- Pushes the high byte of the program counter. -/
  | pushPage
  /-- Chooses the vector of a software break and pushes the high byte of the program counter. -/
  | breakPage
  /-- Pushes the low byte of the program counter. -/
  | pushOffset
  /-- Pushes the status byte with the break flag as given, and holds off interrupts. -/
  | pushFrame (withBreak : Bool)
  /-- Reads the low byte of the vector. -/
  | vector
  /-- Reads the high byte of the vector and goes there. -/
  | vectorHigh
  deriving DecidableEq, Repr

/-! ## 2. Sequences -/

namespace Mode

/-- The register that a mode indexes by. -/
def index : Mode → Index
  | zeroPageX | absoluteX | indirectX => .x
  | _ => .y

/-- The cycles that form the address, up to the point where it is known but for its page. -/
def addressing (mode : Mode) : List MicroOp :=
  match mode with
  | zeroPage => [.fetchAddress]
  | zeroPageX | zeroPageY => [.fetchBase, .indexZeroPage mode.index]
  | absolute => [.fetchAddress, .fetchAddressHigh]
  | absoluteX | absoluteY => [.fetchBase, .fetchBaseHigh mode.index]
  | indirectX => [.fetchPointer, .indexPointer, .followAddress, .followAddressHigh]
  | indirectY => [.fetchPointer, .followBase, .followBaseHigh]
  | _ => []

/-- The cycle that waits for the page, where there is one. -/
def settling (mode : Mode) : List MicroOp := if mode.isIndexedAbsolute then [.settle] else []

end Mode

namespace Control

/-- The cycles of a transfer of control or a stack operation. -/
def microcode : Control → List MicroOp
  | brk => [.skipOperand, .breakPage, .pushOffset, .pushFrame true, .vector, .vectorHigh]
  | jsr => [.fetchData, .idleStack, .pushPage, .pushOffset, .jump]
  | rts => [.idle, .idleStack, .pullData, .pullJump, .skipOperand]
  | rti => [.idle, .idleStack, .pullStatus, .pullData, .pullJump]
  | jump => [.fetchData, .jump]
  | jumpIndirect => [.fetchAddress, .fetchAddressHigh, .loadData, .jumpIndirect]
  | pha => [.idle, .pushA]
  | php => [.idle, .pushStatus]
  | pla => [.idle, .idleStack, .pullA]
  | plp => [.idle, .idleStack, .pullStatus]

end Control

namespace Instruction

/-- The cycles of an instruction after the one that fetched its opcode.  The instruction that jams
the processor has none. -/
def microcode (i : Instruction) : List MicroOp :=
  match i.operation with
  | .read op =>
    if i.mode = .immediate then [.immediate op]
    else if i.mode.isIndexedAbsolute then i.mode.addressing ++ [.tryRead op, .read op]
    else i.mode.addressing ++ [.read op]
  | .write op => i.mode.addressing ++ i.mode.settling ++ [.store op]
  | .modify op =>
    if i.mode = .accumulator then [.accumulator op]
    else i.mode.addressing ++ i.mode.settling ++ [.loadData, .modify op, .storeData]
  | .implied op => [.implied op]
  | .branch condition => [.branchOffset condition, .branchNear, .branchFar]
  | .control transfer => transfer.microcode
  | .jam => []

/-- The microcode of each of the 256 opcodes, spelled out once. -/
def program : Vector (List MicroOp) 256 := Vector.ofFn fun i => (decode (.ofNat i)).microcode

/-- The microcode an opcode starts. -/
def programOf (opcode : UInt8) : List MicroOp :=
  have h : opcode.toNat < 256 := opcode.toNat_lt
  program[opcode.toNat]

theorem programOf_eq (opcode : UInt8) : programOf opcode = (decode opcode).microcode := by
  simp [programOf, program]

end Instruction

end Famicom.Cpu
