/-
# The processor

One `tick` is one cycle, and one bus access.  Between instructions the processor stands at a
*boundary*: there it looks for interrupts and otherwise fetches an opcode.  Everywhere else it has
a list of micro-ops to go, and a tick performs the first of them.  So the position inside an
instruction is **the microcode still to run**, and an instruction ends because its list does.

The bytes that travel from one cycle to a later one (an address under construction, a pointer, the
low half of a jump) sit in latches.  A latch outlives its instruction, but no instruction reads one
before writing it.

Interrupts are latched by `requestNmi` and `requestIrq`, which do nothing while an entry is under
way.  At a boundary the non-maskable one goes first; the other waits until the interrupt disable
flag is clear, and is also taken when the bus asserts its request line.  A software break looks for
a pending non-maskable request as it pushes its first byte, and if there is one, takes its vector.
-/
import Famicom.AddressBus
import Famicom.Cpu.Microcode

namespace Famicom

namespace Cpu

/-! ## 1. State -/

/-- Where the processor starts. -/
def resetVector : UInt16 := 0xFFFC

/-- The two interrupts. -/
inductive Interrupt where
  | nmi
  | irq
  deriving DecidableEq, Repr

/-- Where an interrupt goes.  A software break shares the vector of the maskable one. -/
def Interrupt.vector : Interrupt → UInt16
  | nmi => 0xFFFA
  | irq => 0xFFFE

/-- Bytes kept from one cycle to a later one. -/
structure Latches where
  /-- The address of the operand, or the target of a branch. -/
  address : UInt16 := 0
  /-- The address before indexing. -/
  base : UInt16 := 0
  /-- A place in page zero that holds an address. -/
  pointer : UInt8 := 0
  /-- A byte on its way from one access to another. -/
  data : UInt8 := 0
  /-- Where the interrupt under way will go. -/
  vector : UInt16 := Interrupt.irq.vector
  deriving DecidableEq, Repr, Inhabited

/-- Where the processor stands. -/
inductive Phase where
  /-- Between instructions. -/
  | boundary
  /-- Inside an instruction, with these micro-ops to go. -/
  | executing (next : MicroOp) (rest : List MicroOp)
  /-- Inside an interrupt entry, with these micro-ops to go. -/
  | entering (next : MicroOp) (rest : List MicroOp)
  /-- Stopped until a reset. -/
  | jammed
  deriving DecidableEq, Repr, Inhabited

/-- Where the processor stands once an opcode has been fetched; one without microcode jams it. -/
def Phase.ofMicrocode : List MicroOp → Phase
  | [] => .jammed
  | next :: rest => .executing next rest

/-- Where it stands once an interrupt has been found, six cycles before the handler. -/
def Phase.entry : Phase :=
  .entering .idle [.pushPage, .pushOffset, .pushFrame false, .vector, .vectorHigh]

/-- The micro-ops still to run before the next boundary. -/
def Phase.pending : Phase → Nat
  | .executing _ rest | .entering _ rest => rest.length + 1
  | .boundary | .jammed => 0

end Cpu

/-- The processor: its registers, its latches, and where it stands. -/
structure Cpu where
  regs : Cpu.Registers := {}
  latch : Cpu.Latches := {}
  phase : Cpu.Phase := .boundary
  /-- A non-maskable interrupt is waiting. -/
  nmi : Bool := false
  /-- An interrupt request is waiting. -/
  irq : Bool := false
  /-- Cycles since the processor was made.  No cycle looks at them; a counter of 64 bits would agree
  until it goes round. -/
  cycles : Nat := 0
  deriving Inhabited

namespace Cpu

/-- True between instructions. -/
def atBoundary (cpu : Cpu) : Bool := cpu.phase matches .boundary

/-- True once the processor has stopped. -/
def isJammed (cpu : Cpu) : Bool := cpu.phase matches .jammed

/-- True where an instruction has ended: at a boundary, or stopped. -/
def isSettled (cpu : Cpu) : Bool := cpu.atBoundary || cpu.isJammed

/-- True inside an interrupt entry, where further requests are ignored. -/
def isEntering (cpu : Cpu) : Bool := cpu.phase matches .entering ..

/-- Latches a non-maskable interrupt, unless an entry is under way. -/
def requestNmi (cpu : Cpu) : Cpu := { cpu with nmi := cpu.nmi || !cpu.isEntering }

/-- Latches an interrupt request, unless an entry is under way. -/
def requestIrq (cpu : Cpu) : Cpu := { cpu with irq := cpu.irq || !cpu.isEntering }

/-- The index register a mode asks for. -/
def Registers.index (r : Registers) : Index → UInt8
  | .x => r.x
  | .y => r.y

/-! ## 2. Micro-operations -/

namespace Latches

/-- Adds an index to the base, carrying into the page. -/
def addIndex (l : Latches) (i : UInt8) : Latches := { l with address := l.base + i.toUInt16 }

/-- The address while its page is still that of the base. -/
def uncorrected (l : Latches) : UInt16 := word (lowByte l.address) (highByte l.base)

/-- True when indexing carried into the page. -/
def crossesPage (l : Latches) : Bool := !samePage l.base l.address

end Latches

/-- The target of a branch whose displacement has been fetched. -/
def branchTarget (cpu : Cpu) : UInt16 := cpu.regs.pc + displacement cpu.latch.data

/-- Whether a micro-op is the last of its instruction although others follow it.  It is asked
before the access: the byte that arrives does not decide. -/
def MicroOp.finishes : MicroOp → Cpu → Bool
  | tryRead _, cpu => !cpu.latch.crossesPage
  | branchOffset condition, cpu => !condition.holds cpu.regs
  | branchNear, cpu => samePage cpu.branchTarget cpu.regs.pc
  | _, _ => false

section Bus

variable {β : Type} [ProcessorBus β]

/-- Reads a byte of the program and moves past it. -/
@[inline] def fetchByte (cpu : Cpu) (bus : β) : UInt8 × Cpu × β :=
  let (v, bus) := AddressBus.read cpu.regs.pc bus
  (v, { cpu with regs := cpu.regs.advance 1 }, bus)

/-- Reads at an address and drops the byte. -/
@[inline] def touch (cpu : Cpu) (a : UInt16) (bus : β) : Cpu × β :=
  (cpu, (AddressBus.read a bus).2)

/-- Writes a byte to the top of the stack. -/
@[inline] def push (cpu : Cpu) (v : UInt8) (bus : β) : Cpu × β :=
  let bus := AddressBus.write cpu.regs.stackAddress v bus
  ({ cpu with regs := cpu.regs.pushed }, bus)

/-- Reads the byte on top of the stack and takes it off. -/
@[inline] def pull (cpu : Cpu) (bus : β) : UInt8 × Cpu × β :=
  let regs := cpu.regs.pulled
  let (v, bus) := AddressBus.read regs.stackAddress bus
  (v, { cpu with regs }, bus)

/-- The access of one micro-op, and what the processor does with the byte. -/
@[specialize] def MicroOp.perform (op : MicroOp) (cpu : Cpu) (bus : β) : Cpu × β :=
  match op with
  | fetchAddress =>
    let (v, cpu, bus) := cpu.fetchByte bus
    ({ cpu with latch := { cpu.latch with address := v.toUInt16 } }, bus)
  | fetchAddressHigh =>
    let (v, cpu, bus) := cpu.fetchByte bus
    ({ cpu with latch := { cpu.latch with address := word (lowByte cpu.latch.address) v } }, bus)
  | fetchBase =>
    let (v, cpu, bus) := cpu.fetchByte bus
    ({ cpu with latch := { cpu.latch with base := v.toUInt16 } }, bus)
  | fetchBaseHigh index =>
    let (v, cpu, bus) := cpu.fetchByte bus
    let latch := { cpu.latch with base := word (lowByte cpu.latch.base) v }
    ({ cpu with latch := latch.addIndex (cpu.regs.index index) }, bus)
  | fetchPointer =>
    let (v, cpu, bus) := cpu.fetchByte bus
    ({ cpu with latch := { cpu.latch with pointer := v } }, bus)
  | fetchData =>
    let (v, cpu, bus) := cpu.fetchByte bus
    ({ cpu with latch := { cpu.latch with data := v } }, bus)
  | skipOperand => (cpu.fetchByte bus).2
  | immediate op =>
    let (v, cpu, bus) := cpu.fetchByte bus
    ({ cpu with regs := op.apply v cpu.regs }, bus)
  | indexZeroPage index =>
    let (cpu, bus) := cpu.touch cpu.latch.base bus
    let low := lowByte cpu.latch.base + cpu.regs.index index
    ({ cpu with latch := { cpu.latch with address := low.toUInt16 } }, bus)
  | indexPointer =>
    let (cpu, bus) := cpu.touch cpu.latch.pointer.toUInt16 bus
    ({ cpu with latch := { cpu.latch with pointer := cpu.latch.pointer + cpu.regs.x } }, bus)
  | followAddress =>
    let (v, bus) := AddressBus.read cpu.latch.pointer.toUInt16 bus
    ({ cpu with latch := { cpu.latch with address := v.toUInt16 } }, bus)
  | followAddressHigh =>
    let (v, bus) := AddressBus.read (cpu.latch.pointer + 1).toUInt16 bus
    ({ cpu with latch := { cpu.latch with address := word (lowByte cpu.latch.address) v } }, bus)
  | followBase =>
    let (v, bus) := AddressBus.read cpu.latch.pointer.toUInt16 bus
    ({ cpu with latch := { cpu.latch with base := v.toUInt16 } }, bus)
  | followBaseHigh =>
    let (v, bus) := AddressBus.read (cpu.latch.pointer + 1).toUInt16 bus
    let latch := { cpu.latch with base := word (lowByte cpu.latch.base) v }
    ({ cpu with latch := latch.addIndex cpu.regs.y }, bus)
  | settle => cpu.touch cpu.latch.uncorrected bus
  | tryRead op =>
    let (v, bus) := AddressBus.read cpu.latch.uncorrected bus
    if cpu.latch.crossesPage then (cpu, bus)
    else ({ cpu with regs := op.apply v cpu.regs }, bus)
  | read op =>
    let (v, bus) := AddressBus.read cpu.latch.address bus
    ({ cpu with regs := op.apply v cpu.regs }, bus)
  | store op =>
    let (v, regs) := op.apply (highByte cpu.latch.base + 1) cpu.regs
    let bus := AddressBus.write cpu.latch.address v bus
    ({ cpu with regs }, bus)
  | loadData =>
    let (v, bus) := AddressBus.read cpu.latch.address bus
    ({ cpu with latch := { cpu.latch with data := v } }, bus)
  | modify op =>
    let bus := AddressBus.write cpu.latch.address cpu.latch.data bus
    let (data, regs) := op.apply cpu.latch.data cpu.regs
    ({ cpu with regs, latch := { cpu.latch with data } }, bus)
  | storeData => (cpu, AddressBus.write cpu.latch.address cpu.latch.data bus)
  | idle => cpu.touch cpu.regs.pc bus
  | implied op =>
    let (cpu, bus) := cpu.touch cpu.regs.pc bus
    ({ cpu with regs := op.apply cpu.regs }, bus)
  | accumulator op =>
    let (cpu, bus) := cpu.touch cpu.regs.pc bus
    let (a, regs) := op.apply cpu.regs.a cpu.regs
    ({ cpu with regs := { regs with a } }, bus)
  | branchOffset _ =>
    let (v, cpu, bus) := cpu.fetchByte bus
    ({ cpu with latch := { cpu.latch with data := v } }, bus)
  | branchNear =>
    let (cpu, bus) := cpu.touch cpu.regs.pc bus
    let target := cpu.branchTarget
    let pc := word (lowByte target) (highByte cpu.regs.pc)
    ({ cpu with regs := { cpu.regs with pc }, latch := { cpu.latch with address := target } }, bus)
  | branchFar =>
    let (cpu, bus) := cpu.touch cpu.regs.pc bus
    ({ cpu with regs := { cpu.regs with pc := cpu.latch.address } }, bus)
  | jump =>
    let (v, bus) := AddressBus.read cpu.regs.pc bus
    ({ cpu with regs := { cpu.regs with pc := word cpu.latch.data v } }, bus)
  | jumpIndirect =>
    let a := cpu.latch.address
    let (v, bus) := AddressBus.read (word (lowByte a + 1) (highByte a)) bus
    ({ cpu with regs := { cpu.regs with pc := word cpu.latch.data v } }, bus)
  | idleStack => cpu.touch cpu.regs.stackAddress bus
  | pushA => cpu.push cpu.regs.a bus
  | pushStatus => cpu.push (cpu.regs.pushedStatus true) bus
  | pullA =>
    let (v, cpu, bus) := cpu.pull bus
    ({ cpu with regs := cpu.regs.loadA v }, bus)
  | pullStatus =>
    let (v, cpu, bus) := cpu.pull bus
    ({ cpu with regs := cpu.regs.restoreStatus v }, bus)
  | pullData =>
    let (v, cpu, bus) := cpu.pull bus
    ({ cpu with latch := { cpu.latch with data := v } }, bus)
  | pullJump =>
    let (v, cpu, bus) := cpu.pull bus
    ({ cpu with regs := { cpu.regs with pc := word cpu.latch.data v } }, bus)
  | pushPage => cpu.push (highByte cpu.regs.pc) bus
  | breakPage =>
    let taken : Interrupt := if cpu.nmi then .nmi else .irq
    let cpu := { cpu with nmi := false, latch := { cpu.latch with vector := taken.vector } }
    cpu.push (highByte cpu.regs.pc) bus
  | pushOffset => cpu.push (lowByte cpu.regs.pc) bus
  | pushFrame withBreak =>
    let (cpu, bus) := cpu.push (cpu.regs.pushedStatus withBreak) bus
    ({ cpu with regs := cpu.regs.assign Flag.interruptDisable true }, bus)
  | vector =>
    let (v, bus) := AddressBus.read cpu.latch.vector bus
    ({ cpu with latch := { cpu.latch with data := v } }, bus)
  | vectorHigh =>
    let (v, bus) := AddressBus.read (cpu.latch.vector + 1) bus
    ({ cpu with regs := { cpu.regs with pc := word cpu.latch.data v } }, bus)

/-! ## 3. Cycles -/

/-- The interrupt the processor would enter now: the non-maskable one first, and the other only
while it is not held off. -/
@[inline] def interruptToTake (cpu : Cpu) (bus : β) : Option Interrupt :=
  if cpu.nmi then some .nmi
  else if (cpu.irq || ProcessorBus.irqLine bus) && !cpu.regs.has Flag.interruptDisable then
    some .irq
  else none

/-- The request of an interrupt that is being taken is dropped. -/
def acknowledge (cpu : Cpu) : Interrupt → Cpu
  | .nmi => { cpu with nmi := false }
  | .irq => { cpu with irq := false }

/-- The cycle at a boundary: the first of an interrupt entry, or the fetch of an opcode. -/
@[specialize] def begin (cpu : Cpu) (bus : β) : Cpu × β :=
  match cpu.interruptToTake bus with
  | some interrupt =>
    let (cpu, bus) := (cpu.acknowledge interrupt).touch cpu.regs.pc bus
    let latch := { cpu.latch with vector := interrupt.vector }
    ({ cpu with latch, phase := .entry }, bus)
  | none =>
    let (opcode, cpu, bus) := cpu.fetchByte bus
    ({ cpu with phase := .ofMicrocode (Instruction.programOf opcode) }, bus)

/-- What the address bus shows while the processor is jammed. -/
def jammedAddress : UInt16 := 0xFFFF

/-- One cycle. -/
@[specialize] def tick (cpu : Cpu) (bus : β) : Cpu × β :=
  let cpu := { cpu with cycles := cpu.cycles + 1 }
  match cpu.phase with
  | .boundary => cpu.begin bus
  | .executing next rest =>
    let done := next.finishes cpu
    let (cpu, bus) := next.perform cpu bus
    match rest with
    | following :: rest =>
      ({ cpu with phase := if done then .boundary else .executing following rest }, bus)
    | [] => ({ cpu with phase := .boundary }, bus)
  | .entering next rest =>
    let (cpu, bus) := next.perform cpu bus
    match rest with
    | following :: rest => ({ cpu with phase := .entering following rest }, bus)
    | [] => ({ cpu with phase := .boundary }, bus)
  | .jammed => cpu.touch jammedAddress bus

/-- At most `n` further cycles, ending as soon as the instruction has. -/
@[specialize] def settleWithin : Nat → Nat → Cpu → β → Nat × Cpu × β
  | 0, spent, cpu, bus => (spent, cpu, bus)
  | n + 1, spent, cpu, bus =>
    if cpu.isSettled then (spent, cpu, bus)
    else
      let (cpu, bus) := cpu.tick bus
      settleWithin n (spent + 1) cpu bus

/-- Runs to the end of an instruction or of an interrupt entry, and counts the cycles.  It makes at
least one, and after it no more than there are micro-ops pending: each cycle takes one away. -/
@[specialize] def step (cpu : Cpu) (bus : β) : Nat × Cpu × β :=
  let (cpu, bus) := cpu.tick bus
  settleWithin cpu.phase.pending 1 cpu bus

/-! ## 4. Reset -/

/-- Takes the program counter from the reset vector and forgets what was under way: the position
in the microcode and both requests. -/
def restart (cpu : Cpu) (bus : β) : Cpu × β :=
  let (low, bus) := AddressBus.read resetVector bus
  let (high, bus) := AddressBus.read (resetVector + 1) bus
  ({ cpu with
      regs := { cpu.regs with pc := word low high }
      phase := .boundary, nmi := false, irq := false }, bus)

/-- Power-on and reset: the registers take their first values. -/
def reset (cpu : Cpu) (bus : β) : Cpu × β := restart { cpu with regs := {} } bus

/-- A reset that the registers survive: the stack pointer drops by the three pushes of an entry
whose writes are suppressed, and interrupts are held off. -/
def warmReset (cpu : Cpu) (bus : β) : Cpu × β :=
  let regs := { cpu.regs with sp := cpu.regs.sp - 3 }
  restart { cpu with regs := regs.assign Flag.interruptDisable true } bus

end Bus

end Cpu

end Famicom
