/-
# What the processor puts on its bus

The processor makes one access in every cycle, and it has settled which one before the byte
arrives: **the address, the direction and the byte of a write depend on the processor alone**
(`MicroOp.drives`).  What the bus answers is seen only by the cycles that follow.

So a run of microcode is two lists that belong together.  `accesses` is what crosses the bus, and
`drain` is what becomes of processor and bus; a recorder put between the two writes down the first
and disturbs nothing of the second (`drain_recorded`).  The main statement is `step_recorded`: at a
boundary with no interrupt to take, **the log of a step is the fetch of an opcode and the accesses
of its microcode**, on any bus.
-/
import Famicom.Proofs.Cpu.Run

namespace Famicom

/-! ## 1. Cycles of a bus -/

/-- One cycle of a bus, as far as the processor decides it. -/
inductive BusCycle where
  | read (address : UInt16)
  | write (address : UInt16) (value : UInt8)
  deriving DecidableEq, Repr

/-- The access that a cycle makes on a bus: a read brings the byte that the bus answers. -/
def BusCycle.answered {β : Type} [AddressBus β] (bus : β) : BusCycle → Access
  | read a => .read a (AddressBus.read a bus).1
  | write a v => .write a v

/-- What a cycle leaves of the bus. -/
def BusCycle.after {β : Type} [AddressBus β] (bus : β) : BusCycle → β
  | read a => (AddressBus.read a bus).2
  | write a v => AddressBus.write a v bus

namespace Access

/-- What the processor decided of an access. -/
def cycle : Access → BusCycle
  | read a _ => .read a
  | write a v => .write a v

/-- The byte that crossed the bus. -/
def value : Access → UInt8
  | read _ v | write _ v => v

@[simp] theorem cycle_answered {β : Type} [AddressBus β] (bus : β) (c : BusCycle) :
    (c.answered bus).cycle = c := by
  cases c <;> rfl

end Access

namespace Cpu

/-- What a micro-op puts on the bus. -/
def MicroOp.drives (cpu : Cpu) : MicroOp → BusCycle
  | fetchAddress | fetchAddressHigh | fetchBase | fetchBaseHigh _ | fetchPointer | fetchData
  | skipOperand | immediate _ | idle | implied _ | accumulator _ | branchOffset _ | branchNear
  | branchFar | jump => .read cpu.regs.pc
  | indexZeroPage _ => .read cpu.latch.base
  | indexPointer | followAddress | followBase => .read cpu.latch.pointer.toUInt16
  | followAddressHigh | followBaseHigh => .read (cpu.latch.pointer + 1).toUInt16
  | settle | tryRead _ => .read cpu.latch.uncorrected
  | read _ | loadData => .read cpu.latch.address
  | store op =>
    .write cpu.latch.address (op.apply (highByte cpu.latch.base + 1) cpu.regs).1
  | modify _ | storeData => .write cpu.latch.address cpu.latch.data
  | jumpIndirect =>
    .read (word (lowByte cpu.latch.address + 1) (highByte cpu.latch.address))
  | idleStack => .read cpu.regs.stackAddress
  | pullA | pullStatus | pullData | pullJump => .read cpu.regs.pulled.stackAddress
  | pushA => .write cpu.regs.stackAddress cpu.regs.a
  | pushStatus => .write cpu.regs.stackAddress (cpu.regs.pushedStatus true)
  | pushPage | breakPage => .write cpu.regs.stackAddress (highByte cpu.regs.pc)
  | pushOffset => .write cpu.regs.stackAddress (lowByte cpu.regs.pc)
  | pushFrame withBreak => .write cpu.regs.stackAddress (cpu.regs.pushedStatus withBreak)
  | vector => .read cpu.latch.vector
  | vectorHigh => .read (cpu.latch.vector + 1)

variable {β : Type} [ProcessorBus β]

theorem drives_standing (op : MicroOp) (cpu : Cpu) (phase : Phase) (n : Nat) :
    op.drives (cpu.standing phase n) = op.drives cpu := by
  cases op <;> rfl

/-- **A micro-op makes one access, the one it drives**, and a recorder notes that one and nothing
else. -/
theorem perform_recorded (op : MicroOp) (cpu : Cpu) (bus : β) (log : Array Access) :
    op.perform cpu (⟨bus, log⟩ : Recorded β) =
      ((op.perform cpu bus).1,
        ⟨(op.perform cpu bus).2, log.push ((op.drives cpu).answered bus)⟩) := by
  cases op with
  | tryRead op =>
    have hread : AddressBus.read cpu.latch.uncorrected (⟨bus, log⟩ : Recorded β) =
        ((AddressBus.read cpu.latch.uncorrected bus).1,
          ⟨(AddressBus.read cpu.latch.uncorrected bus).2,
            log.push ((MicroOp.drives cpu (.tryRead op)).answered bus)⟩) := rfl
    simp only [MicroOp.perform, hread]
    split <;> rfl
  | _ => rfl

/-- **The bus feels of a micro-op only the cycle that it drives.** -/
theorem perform_snd (op : MicroOp) (cpu : Cpu) (bus : β) :
    (op.perform cpu bus).2 = (op.drives cpu).after bus := by
  cases op with
  | tryRead op =>
    simp only [MicroOp.perform]
    split <;> rfl
  | _ => rfl

/-- What the processor puts on the bus in its next cycle. -/
def nextCycle (cpu : Cpu) : BusCycle :=
  match cpu.phase with
  | .boundary => .read cpu.regs.pc
  | .executing op _ | .entering op _ => op.drives cpu
  | .jammed => .read jammedAddress

/-- So it is with a cycle of the processor, wherever it stands. -/
theorem tick_snd (cpu : Cpu) (bus : β) : (cpu.tick bus).2 = cpu.nextCycle.after bus := by
  cases hp : cpu.phase with
  | boundary =>
    simp only [tick, nextCycle, hp, begin]
    split <;> rfl
  | executing op rest =>
    simp only [tick, nextCycle, hp]
    cases rest <;>
      exact (perform_snd op _ bus).trans
        (congrArg (BusCycle.after bus) (drives_standing op cpu _ _))
  | entering op rest =>
    simp only [tick, nextCycle, hp]
    cases rest <;>
      exact (perform_snd op _ bus).trans
        (congrArg (BusCycle.after bus) (drives_standing op cpu _ _))
  | jammed =>
    simp only [tick, nextCycle, hp]
    rfl

/-! ## 2. Runs of microcode -/

/-- The accesses of micro-ops in order, up to the first that finishes the instruction. -/
def accesses : List MicroOp → Cpu → β → List Access
  | [], _, _ => []
  | op :: rest, cpu, bus =>
    (op.drives cpu).answered bus ::
      if op.finishes cpu then [] else accesses rest (op.perform cpu bus).1 (op.perform cpu bus).2

@[simp] theorem accesses_nil (cpu : Cpu) (bus : β) : accesses [] cpu bus = [] := rfl

theorem accesses_cons_of_finishes {op : MicroOp} {cpu : Cpu} (h : op.finishes cpu = true)
    (rest : List MicroOp) (bus : β) :
    accesses (op :: rest) cpu bus = [(op.drives cpu).answered bus] := by
  simp only [accesses, h, if_true]

theorem accesses_cons {op : MicroOp} {cpu : Cpu} (h : op.finishes cpu = false)
    (rest : List MicroOp) (bus : β) :
    accesses (op :: rest) cpu bus =
      (op.drives cpu).answered bus ::
        accesses rest (op.perform cpu bus).1 (op.perform cpu bus).2 := by
  simp only [accesses, h, Bool.false_eq_true, if_false]

/-- The accesses of straight micro-ops come before those of what follows them. -/
theorem accesses_append : ∀ (ops rest : List MicroOp), ops.all MicroOp.isStraight = true →
    ∀ (cpu : Cpu) (bus : β),
    accesses (ops ++ rest) cpu bus =
      accesses ops cpu bus ++ accesses rest (drain ops cpu bus).2.1 (drain ops cpu bus).2.2
  | [], _, _, _, _ => rfl
  | op :: ops, rest, h, cpu, bus => by
    simp only [List.all_cons, Bool.and_eq_true] at h
    have hf := finishes_of_isStraight h.1 cpu
    rw [List.cons_append, accesses_cons hf, accesses_cons hf, drain_cons hf,
      accesses_append ops rest h.2, List.cons_append]

/-- **A recorder notes the accesses and disturbs nothing.** -/
theorem drain_recorded : ∀ (ops : List MicroOp) (cpu : Cpu) (bus : β) (log : Array Access),
    drain ops cpu (⟨bus, log⟩ : Recorded β) =
      ((drain ops cpu bus).1, (drain ops cpu bus).2.1,
        ⟨(drain ops cpu bus).2.2, log ++ (accesses ops cpu bus).toArray⟩)
  | [], cpu, bus, log => by simp only [drain_nil, accesses_nil, Array.append_empty]
  | op :: rest, cpu, bus, log => by
    cases h : op.finishes cpu with
    | true =>
      rw [drain_cons_of_finishes h, drain_cons_of_finishes h, accesses_cons_of_finishes h,
        perform_recorded, Array.push_eq_append]
    | false =>
      rw [drain_cons h, drain_cons h, accesses_cons h, perform_recorded]
      simp only [drain_recorded rest]
      rw [Array.push_eq_append, Array.append_assoc, ← List.toArray_cons]

/-! ## 3. Steps -/

/-- The accesses of a step, in order. -/
def stepLog (cpu : Cpu) (bus : β) : List Access :=
  (cpu.step (⟨bus, #[]⟩ : Recorded β)).2.2.log.toList

/-- **The log of a step from a boundary with no interrupt to take** is the fetch of an opcode and
the accesses of its microcode. -/
theorem step_recorded {cpu : Cpu} {bus : β} (hb : cpu.phase = .boundary)
    (hi : cpu.interruptToTake bus = none)
    (hj : Instruction.programOf (AddressBus.read cpu.regs.pc bus).1 ≠ []) :
    cpu.stepLog bus =
      .read cpu.regs.pc (AddressBus.read cpu.regs.pc bus).1 ::
        accesses (Instruction.programOf (AddressBus.read cpu.regs.pc bus).1) cpu.fetched
          (AddressBus.read cpu.regs.pc bus).2 := by
  have hquiet : cpu.interruptToTake (⟨bus, #[]⟩ : Recorded β) = none := hi
  have hstep := step_boundary hb hquiet hj
  simp only [Recorded.read_fst, Recorded.read_snd, drain_recorded] at hstep
  rw [stepLog, hstep]
  simp

end Cpu

end Famicom
