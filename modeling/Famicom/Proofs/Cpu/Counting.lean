/-
# A processor that counts its cycles

The processor keeps the micro-ops that it has still to run, so it cannot be in the wrong place:
there is no place but those.  A machine that keeps **the instruction and the number of its cycle**
instead has to work out in every cycle what to do from the two, and most pairs of an instruction and
a number mean nothing.  `Counting` is that machine.  It is partial.  It fails

* in a cycle that its tables do not list: one past the end of an address, of an entry, or of an
  instruction that jams;
* where its counter, which is a byte, would wrap;
* where it takes more from a number than there is.

Whether an index carried into the page it keeps in a bit of its own, and it counts the services
under way, which nothing else depends on.

Two facts about the tables are what `Lockstep` needs to show that the machine never fails.  **The
number of a cycle is a place in the microcode** (`Instruction.arm_microcode`), and a cycle that
looks at the bit comes right behind the one that sets it (`chain_microcode`).
-/
import Famicom.Proofs.Cpu.Events
import Famicom.Proofs.Cpu.Refinement
import Mathlib.Data.List.Chain

namespace Famicom.Cpu

/-! ## 1. Arithmetic that can fail -/

/-- The next number of a cycle, which is a byte. -/
def increment (n : Nat) : Option Nat := if n < 255 then some (n + 1) else none

/-- What is left of a number. -/
def difference (n m : Nat) : Option Nat := if m ≤ n then some (n - m) else none

/-- The deepest nesting of services that is counted. -/
def deepest : Nat := 0xFFFFFFFF

/-! ## 2. Cycles by number -/

/-- What to do in a cycle, and whether the instruction ends with it in any case. -/
structure Arm where
  op : MicroOp
  last : Bool := false

namespace Mode

/-- The cycles that form the address, with the one that waits for the page. -/
def addressTicks : Mode → Nat
  | zeroPage => 1
  | zeroPageX | zeroPageY | absolute => 2
  | absoluteX | absoluteY => 3
  | indirectX | indirectY => 4
  | _ => 0

/-- The cycle of that number, where the mode has one. -/
def addressStep (mode : Mode) (n : Nat) : Option MicroOp :=
  match mode, n with
  | zeroPage, 1 => some .fetchAddress
  | zeroPageX, 1 | zeroPageY, 1 => some .fetchBase
  | zeroPageX, 2 | zeroPageY, 2 => some (.indexZeroPage mode.index)
  | absolute, 1 => some .fetchAddress
  | absolute, 2 => some .fetchAddressHigh
  | absoluteX, 1 | absoluteY, 1 => some .fetchBase
  | absoluteX, 2 | absoluteY, 2 => some (.fetchBaseHigh mode.index)
  | indirectX, 1 => some .fetchPointer
  | indirectX, 2 => some .indexPointer
  | indirectX, 3 => some .followAddress
  | indirectX, 4 => some .followAddressHigh
  | indirectY, 1 => some .fetchPointer
  | indirectY, 2 => some .followBase
  | indirectY, 3 => some .followBaseHigh
  | absoluteX, 3 | absoluteY, 3 | indirectY, 4 => some .settle
  | _, _ => none

end Mode

/-- A read takes the cycle that waits for the page as its first chance. -/
def MicroOp.chancing (op : ReadOp) : MicroOp → MicroOp
  | settle => tryRead op
  | other => other

/-- The cycles that push the state, from the second on. -/
def frameStep (withBreak : Bool) : Nat → MicroOp
  | 2 => .pushPage
  | 3 => .pushOffset
  | _ => .pushFrame withBreak

/-- The cycles that follow the vector, from the fifth on. -/
def vectorArm : Nat → Arm
  | 5 => { op := .vector }
  | _ => { op := .vectorHigh, last := true }

/-- The cycles of an interrupt entry after the one that found it. -/
def entryArm (n : Nat) : Option Arm :=
  match n with
  | 1 => some { op := .idle }
  | 2 | 3 | 4 => some { op := frameStep false n }
  | 5 | 6 => some (vectorArm n)
  | _ => none

/-- The cycles of a transfer of control or a stack operation. -/
def Control.arm (transfer : Control) (n : Nat) : Arm :=
  match transfer, n with
  | brk, 1 => { op := .skipOperand }
  | brk, 2 => { op := .breakPage }
  | brk, 3 | brk, 4 => { op := frameStep true n }
  | brk, _ => vectorArm n
  | jsr, 1 => { op := .fetchData }
  | jsr, 2 => { op := .idleStack }
  | jsr, 3 => { op := .pushPage }
  | jsr, 4 => { op := .pushOffset }
  | jsr, _ => { op := .jump, last := true }
  | rts, 1 => { op := .idle }
  | rts, 2 => { op := .idleStack }
  | rts, 3 => { op := .pullData }
  | rts, 4 => { op := .pullJump }
  | rts, _ => { op := .skipOperand, last := true }
  | rti, 1 => { op := .idle }
  | rti, 2 => { op := .idleStack }
  | rti, 3 => { op := .pullStatus }
  | rti, 4 => { op := .pullData }
  | rti, _ => { op := .pullJump, last := true }
  | jump, 1 => { op := .fetchData }
  | jump, _ => { op := .jump, last := true }
  | jumpIndirect, 1 => { op := .fetchAddress }
  | jumpIndirect, 2 => { op := .fetchAddressHigh }
  | jumpIndirect, 3 => { op := .loadData }
  | jumpIndirect, _ => { op := .jumpIndirect, last := true }
  | pha, 1 | php, 1 => { op := .idle }
  | pha, _ => { op := .pushA, last := true }
  | php, _ => { op := .pushStatus, last := true }
  | pla, 1 | plp, 1 => { op := .idle }
  | pla, 2 | plp, 2 => { op := .idleStack }
  | pla, _ => { op := .pullA, last := true }
  | plp, _ => { op := .pullStatus, last := true }

/-- The last cycles of an operation that changes a byte, behind those that form its address. -/
def ModifyOp.arm (op : ModifyOp) : Nat → Arm
  | 1 => { op := .loadData }
  | 2 => { op := .modify op }
  | _ => { op := .storeData, last := true }

/-- The cycles of a branch. -/
def Condition.arm (condition : Condition) : Nat → Arm
  | 1 => { op := .branchOffset condition }
  | 2 => { op := .branchNear }
  | _ => { op := .branchFar, last := true }

/-- What an instruction does in the cycle of that number, counted behind its opcode. -/
def Instruction.arm (i : Instruction) (n : Nat) : Option Arm :=
  match i.operation with
  | .read op =>
    if i.mode = .immediate then some { op := .immediate op, last := true }
    else if n ≤ i.mode.addressTicks then
      (i.mode.addressStep n).map fun step => { op := step.chancing op }
    else some { op := .read op, last := true }
  | .write op =>
    if n ≤ i.mode.addressTicks then (i.mode.addressStep n).map fun step => { op := step }
    else some { op := .store op, last := true }
  | .modify op =>
    if i.mode = .accumulator then some { op := .accumulator op, last := true }
    else if n ≤ i.mode.addressTicks then (i.mode.addressStep n).map fun step => { op := step }
    else (difference n i.mode.addressTicks).map op.arm
  | .implied op => some { op := .implied op, last := true }
  | .branch condition => some (condition.arm n)
  | .control transfer => some (transfer.arm n)
  | .jam => none

/-- No instruction has more than seven cycles behind its opcode. -/
theorem length_microcode_le (i : Instruction) : i.microcode.length ≤ 7 := by
  obtain ⟨mode, operation, standing⟩ := i
  cases operation with
  | read op => cases mode <;> exact Nat.le_of_ble_eq_true rfl
  | write op => cases mode <;> exact Nat.le_of_ble_eq_true rfl
  | modify op => cases mode <;> exact Nat.le_of_ble_eq_true rfl
  | implied op => exact Nat.le_of_ble_eq_true rfl
  | branch condition => exact Nat.le_of_ble_eq_true rfl
  | control transfer => cases transfer <;> exact Nat.le_of_ble_eq_true rfl
  | jam => exact Nat.le_of_ble_eq_true rfl

/-- The cycles of an instruction by number are its microcode. -/
theorem Instruction.map_arm {i : Instruction} (hj : i.operation ≠ .jam) :
    (List.range i.microcode.length).map (fun n => i.arm (n + 1)) =
      i.microcode.mapIdx fun n op => some { op, last := n + 1 == i.microcode.length } := by
  obtain ⟨mode, operation, standing⟩ := i
  cases operation with
  | read op => cases mode <;> rfl
  | write op => cases mode <;> rfl
  | modify op => cases mode <;> rfl
  | implied op => rfl
  | branch condition => rfl
  | control transfer => cases transfer <;> rfl
  | jam => exact absurd rfl hj

/-- **The number of a cycle is a place in the microcode**, and the last place is the cycle that
ends the instruction. -/
theorem Instruction.arm_microcode {i : Instruction} (hj : i.operation ≠ .jam) {n : Nat}
    (h : n < i.microcode.length) :
    i.arm (n + 1) = some { op := i.microcode[n], last := n + 1 == i.microcode.length } := by
  have hmap := congrArg (·[n]?) (Instruction.map_arm hj)
  simpa [h] using hmap

/-- The micro-ops that add an index to a whole address. -/
def MicroOp.carries : MicroOp → Bool
  | fetchBaseHigh _ | followBaseHigh => true
  | _ => false

/-- A cycle that may end an indexed read comes right behind the one that indexed. -/
theorem chain_microcode (i : Instruction) :
    (MicroOp.idle :: i.microcode).IsChain
      fun before op => (∃ read, op = .tryRead read) → before.carries = true := by
  obtain ⟨mode, operation, standing⟩ := i
  cases operation with
  | control transfer => cases transfer <;> simp [Instruction.microcode, Control.microcode]
  | _ =>
    cases mode <;>
      simp [Instruction.microcode, Mode.addressing, Mode.settling, Mode.isIndexedAbsolute,
        MicroOp.carries]

theorem carries_of_tryRead {i : Instruction} {n : Nat} {op : ReadOp} (hn : n < i.microcode.length)
    (h : i.microcode[n + 1]? = some (.tryRead op)) : i.microcode[n].carries = true := by
  obtain ⟨hnext, hop⟩ := List.getElem?_eq_some_iff.mp h
  exact (chain_microcode i).getElem (n + 1) (by simpa using hnext) ⟨op, hop⟩

/-- No instruction begins with a cycle that may end an indexed read. -/
theorem head_ne_tryRead (i : Instruction) (op : ReadOp) : i.microcode[0]? ≠ some (.tryRead op) := by
  intro h
  obtain ⟨hfirst, hop⟩ := List.getElem?_eq_some_iff.mp h
  have hcarries : MicroOp.idle.carries = true :=
    (chain_microcode i).getElem 0 (by simpa using hfirst) ⟨op, hop⟩
  exact Bool.false_ne_true hcarries

/-- So it is in an entry, where every number up to the last has a cycle. -/
theorem entryArm_microcode {n : Nat} (h : n < entryMicrocode.length) :
    entryArm (n + 1) =
      some { op := entryMicrocode[n], last := n + 1 == entryMicrocode.length } := by
  have hmap : (List.range entryMicrocode.length).map (fun n => entryArm (n + 1)) =
      entryMicrocode.mapIdx fun n op => some { op, last := n + 1 == entryMicrocode.length } := rfl
  simpa [h] using congrArg (·[n]?) hmap

-- Of the other numbers some have no cycle: here the one before the first, and the one past the end.
example : (Instruction.read .lda .absoluteX).arm 0 = none ∧ entryArm 7 = none := ⟨rfl, rfl⟩

/-! ## 3. The machine -/

/-- What a counting machine is at. -/
inductive Stage where
  /-- Between instructions. -/
  | fetch
  | execute
  | interrupt
  | jammed
  deriving DecidableEq, Repr

/-- A processor that keeps the instruction and the number of its cycle. -/
structure Counting where
  /-- Registers, latches, requests and clock.  Its own place in the microcode is not looked at. -/
  core : Cpu := {}
  stage : Stage := .fetch
  instruction : Instruction := Instruction.decode 0xEA
  /-- The cycles of the instruction or the entry that have been made, behind its first. -/
  step : Nat := 0
  /-- Indexing carried into the page. -/
  crossed : Bool := false
  /-- Services that have begun and not returned. -/
  depth : Nat := 0

/-- Where a cycle leaves the number of services under way. -/
def Arm.depthAfter (arm : Arm) (depth : Nat) : Option Nat :=
  match arm.op, arm.last with
  | .vectorHigh, _ => some (min (depth + 1) deepest)
  | .pullJump, true => if depth = 0 then some 0 else difference depth 1
  | _, _ => some depth

namespace Counting

/-- Whether a cycle ends the instruction before its last.  The carry is the one in the bit. -/
def finishes (m : Counting) : MicroOp → Bool
  | .tryRead _ => !m.crossed
  | op => op.finishes m.core

section Bus

variable {β : Type} [ProcessorBus β]

/-- The access of a micro-op.  The carry is the one in the bit. -/
def access (m : Counting) (op : MicroOp) (bus : β) : Cpu × β :=
  match op with
  | .tryRead op =>
    let (v, bus) := AddressBus.read m.core.latch.uncorrected bus
    if m.crossed then (m.core, bus) else ({ m.core with regs := op.apply v m.core.regs }, bus)
  | op => op.perform m.core bus

/-- The machine behind an access, before it is decided where the next cycle is. -/
def moved (m : Counting) (op : MicroOp) (core : Cpu) (depth : Nat) : Counting :=
  let crossed := if op.carries then core.latch.crossesPage else m.crossed
  { m with core, crossed, depth }

/-- The machine at a boundary. -/
def ended (m : Counting) : Counting := { m with stage := .fetch, step := 0 }

/-- One cycle inside an instruction or an entry. -/
def perform (m : Counting) (arm : Arm) (bus : β) : Option (Counting × β) :=
  (arm.depthAfter m.depth).map fun depth =>
    let (core, bus) := m.access arm.op bus
    let next := m.moved arm.op core depth
    (if arm.last || m.finishes arm.op then next.ended else next, bus)

/-- The cycle at a boundary. -/
def begin (m : Counting) (bus : β) : Counting × β :=
  match m.core.interruptToTake bus with
  | some interrupt =>
    let (core, bus) := (m.core.acknowledge interrupt).touch m.core.regs.pc bus
    let latch := { core.latch with vector := interrupt.vector }
    ({ m with core := { core with latch }, stage := .interrupt, step := 0 }, bus)
  | none =>
    let (opcode, core, bus) := m.core.fetchByte bus
    let instruction := Instruction.decode opcode
    let stage : Stage := if instruction.operation = .jam then .jammed else .execute
    ({ m with core, instruction, stage, step := 0 }, bus)

/-- One cycle. -/
def tick (m : Counting) (bus : β) : Option (Counting × β) :=
  let m := { m with core := { m.core with cycles := m.core.cycles + 1 } }
  match m.stage with
  | .fetch => some (m.begin bus)
  | .execute => do
    let step ← increment m.step
    let arm ← m.instruction.arm step
    { m with step }.perform arm bus
  | .interrupt => do
    let step ← increment m.step
    let arm ← entryArm step
    { m with step }.perform arm bus
  | .jammed => some (m, (AddressBus.read jammedAddress bus).2)

/-- A request of either interrupt, which an entry ignores. -/
def request (m : Counting) (interrupt : Interrupt) : Counting :=
  if m.stage = .interrupt then m
  else
    match interrupt with
    | .nmi => { m with core := { m.core with nmi := true } }
    | .irq => { m with core := { m.core with irq := true } }

/-- What every reset does; the registers and the clock are those of `core`. -/
def restart (m : Counting) (core : Cpu) (bus : β) : Counting × β :=
  let (core, bus) := core.restart bus
  ({ m with core, stage := .fetch, step := 0, depth := 0 }, bus)

end Bus

end Counting

end Famicom.Cpu
