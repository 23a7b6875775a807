/-
# How long an instruction takes

`Instruction.cycles` derives the least duration of an instruction from its operation and its mode.
How long it really takes is decided elsewhere, by the micro-ops it is spelled out in and by the
three of them that may end it early.  On any bus, whatever bytes it answers, **the two agree**
(`step_cycles`): a step takes what the table says, and more in two cases only.

* A read that indexes a whole address takes one cycle more if the index carries into the page.
* A branch that is taken takes one cycle more, and two if it leaves the page of the instruction
  behind it.

An interrupt entry always takes seven.

Most instructions are straight: no micro-op of theirs can end them, so their duration is the length
of their microcode, which is a fact about the table (`length_microcode`).  The two that are not have
a lemma each.
-/
import Famicom.Proofs.Cpu.Refinement
import Famicom.Proofs.Cpu.Traffic

namespace Famicom.Cpu

open Interpreter

/-! ## 1. The cycles beyond the least -/

/-- The page of an address. -/
def pageOf (a : UInt16) : Nat := a.toNat / 256

/-- The cycle that an index costs if it carries into the page. -/
def carryDelay (base : UInt16) (index : UInt8) : Nat :=
  if pageOf (indexed base index.toNat) = pageOf base then 0 else 1

/-- The cycles that a taken branch costs, from the instruction behind it to its target. -/
def branchDelay (next target : UInt16) : Nat := if pageOf target = pageOf next then 1 else 2

/-- The cycles that an instruction takes beyond the least.  `bytes` is what the bus answers to it:
the opcode, the operand, and where the operand is a pointer, the two bytes found there. -/
def delay (i : Instruction) (r : Registers) (bytes : List UInt8) : Nat :=
  let byte (n : Nat) := bytes.getD n 0
  match i.operation with
  | .read _ =>
    match i.mode with
    | .absoluteX => carryDelay (address (byte 1) (byte 2)) r.x
    | .absoluteY => carryDelay (address (byte 1) (byte 2)) r.y
    | .indirectY => carryDelay (address (byte 2) (byte 3)) r.y
    | _ => 0
  | .branch condition =>
    let next := indexed r.pc 2
    if condition.holds r then branchDelay next (Interpreter.branchTarget next (byte 1)) else 0
  | _ => 0

theorem samePage_iff (v w : UInt16) : samePage v w = true ↔ pageOf v = pageOf w := by
  rw [samePage, beq_iff_eq, ← UInt8.toNat_inj, toNat_highByte, toNat_highByte, pageOf, pageOf]

theorem crossesPage_iff (l : Latches) :
    l.crossesPage = true ↔ ¬pageOf l.address = pageOf l.base := by
  rw [Latches.crossesPage, Bool.not_eq_true', ← Bool.not_eq_true, samePage_iff, eq_comm]

/-- The carry that the processor finds is the one that costs a cycle. -/
theorem carryDelay_eq {l : Latches} {index : UInt8} (h : l.address = l.base + index.toUInt16) :
    carryDelay l.base index = if l.crossesPage then 1 else 0 := by
  have hsum : indexed l.base index.toNat = l.address := by
    rw [h, indexed_ofNat, UInt16.ofNat_uInt8ToNat]
  rw [carryDelay, hsum]
  by_cases hc : l.crossesPage = true
  · rw [if_neg ((crossesPage_iff l).mp hc), if_pos hc]
  · rw [if_neg hc, if_pos (Decidable.not_not.mp (mt (crossesPage_iff l).mpr hc))]

/-! ## 2. Straight instructions -/

variable {β : Type} [ProcessorBus β]

/-- Straight micro-ops are all performed. -/
theorem drain_fst_of_isStraight {ops : List MicroOp} (h : ops.all MicroOp.isStraight = true)
    (cpu : Cpu) (bus : β) : (drain ops cpu bus).1 = ops.length := by
  simpa [drain_nil] using congrArg Prod.fst (drain_append ops [] h cpu bus)

/-- The instructions that are not straight are the branches and the reads that index a whole
address. -/
theorem straight_or_delayed (i : Instruction) :
    i.microcode.all MicroOp.isStraight = true ∨ (∃ condition, i.operation = .branch condition) ∨
      ∃ op, i.operation = .read op ∧ i.mode.isIndexedAbsolute = true := by
  obtain ⟨mode, operation, standing⟩ := i
  cases operation with
  | read op => cases mode <;> first | exact .inl rfl | exact .inr (.inr ⟨op, rfl, rfl⟩)
  | write op => cases mode <;> exact .inl rfl
  | modify op => cases mode <;> exact .inl rfl
  | implied op => exact .inl rfl
  | branch condition => exact .inr (.inl ⟨condition, rfl⟩)
  | control transfer => cases transfer <;> exact .inl rfl
  | jam => exact .inl rfl

/-- **A straight instruction is as long as its entry in the table says**, for each of the 256
entries. -/
theorem length_microcode (opcode : UInt8) (hj : (Instruction.decode opcode).operation ≠ .jam)
    (hs : (Instruction.decode opcode).microcode.all MicroOp.isStraight = true) :
    1 + (Instruction.decode opcode).microcode.length = (Instruction.decode opcode).cycles := by
  revert hj hs
  exact forall_byte opcode (by decide +kernel)

/-- What delays an instruction is what ends it early. -/
theorem delay_of_isStraight {i : Instruction} (hs : i.microcode.all MicroOp.isStraight = true)
    (r : Registers) (bytes : List UInt8) : delay i r bytes = 0 := by
  obtain ⟨mode, operation, standing⟩ := i
  cases operation with
  | read op => cases mode <;> first | rfl | exact absurd hs Bool.false_ne_true
  | branch c => exact absurd hs Bool.false_ne_true
  | _ => rfl

/-! ## 3. Reads that index a whole address -/

section Delayed

variable {r : Registers} {cpu : Cpu}

/-- Once the address is formed, the bytes that were read say whether the index carried. -/
theorem delay_of_addressing {i : Instruction} {op : ReadOp} (hop : i.operation = .read op)
    (hm : i.mode.isIndexedAbsolute = true) (hr : cpu.regs = r.advance 1) (bus : β) (opcode : UInt8)
    (more : List UInt8) :
    delay i r (opcode :: (accesses i.mode.addressing cpu bus).map Access.value ++ more) =
      if (drain i.mode.addressing cpu bus).2.1.latch.crossesPage then 1 else 0 := by
  obtain ⟨mode, operation, standing⟩ := i
  obtain ⟨regs, latch, phase, nmi, irq, cycles⟩ := cpu
  subst hop hr
  cases mode <;> first
    | exact absurd hm Bool.false_ne_true
    | rw [← carryDelay_eq rfl]
      simp [delay, accesses, drain, MicroOp.finishes, MicroOp.drives, MicroOp.perform, fetchByte,
        BusCycle.answered, Access.value, Latches.addIndex, Registers.index, Registers.advance,
        Mode.addressing, Mode.index, address_eq]

/-- The first chance of an indexed read is the last, unless the index carried. -/
theorem drain_tryRead (op : ReadOp) (cpu : Cpu) (bus : β) :
    (drain [.tryRead op, .read op] cpu bus).1 = 1 + if cpu.latch.crossesPage then 1 else 0 := by
  cases h : cpu.latch.crossesPage with
  | true =>
    rw [drain_cons (by simp only [MicroOp.finishes, h, Bool.not_true])]
    rfl
  | false => rw [drain_cons_of_finishes (by simp only [MicroOp.finishes, h, Bool.not_false])]; rfl

theorem duration_of_indexedRead {i : Instruction} {op : ReadOp} (hop : i.operation = .read op)
    (hm : i.mode.isIndexedAbsolute = true) (hr : cpu.regs = r.advance 1) (bus : β)
    (opcode : UInt8) :
    1 + (drain i.microcode cpu bus).1 =
      i.cycles + delay i r (opcode :: (accesses i.microcode cpu bus).map Access.value) := by
  have himm : i.mode ≠ .immediate := by
    intro h
    rw [h] at hm
    exact Bool.false_ne_true hm
  have hcode : i.microcode = i.mode.addressing ++ [.tryRead op, .read op] := by
    simp only [Instruction.microcode, hop, himm, if_false, hm, if_true]
  have hleast : i.cycles = i.mode.addressing.length + 2 := by
    obtain ⟨mode, operation, standing⟩ := i
    subst hop
    cases mode <;> first | exact absurd hm Bool.false_ne_true | rfl
  rw [hcode, drain_append _ _ (isStraight_addressing i.mode),
    accesses_append _ _ (isStraight_addressing i.mode), List.map_append, ← List.cons_append,
    delay_of_addressing hop hm hr, drain_tryRead, hleast]
  dsimp only
  omega

/-! ## 4. Branches -/

/-- Once its displacement is there, a branch stands behind itself and knows its target. -/
theorem branchOffset_perform (condition : Condition) (hr : cpu.regs = r.advance 1) (bus : β) :
    ((MicroOp.branchOffset condition).perform cpu bus).1.regs.pc = indexed r.pc 2 ∧
      ((MicroOp.branchOffset condition).perform cpu bus).1.branchTarget =
        Interpreter.branchTarget (indexed r.pc 2) (AddressBus.read cpu.regs.pc bus).1 := by
  have htwo : indexed r.pc 2 = r.pc + 1 + 1 := by
    rw [indexed_ofNat, UInt16.add_assoc]
    rfl
  have hpc : ((MicroOp.branchOffset condition).perform cpu bus).1.regs.pc = indexed r.pc 2 := by
    simp only [MicroOp.perform, fetchByte, Registers.advance, hr, htwo]
  refine ⟨hpc, ?_⟩
  rw [branchTarget_eq, Cpu.branchTarget, hpc]
  rfl

/-- A taken branch moves in one cycle, or in two. -/
theorem drain_branchNear (cpu : Cpu) (bus : β) :
    (drain [.branchNear, .branchFar] cpu bus).1 =
      branchDelay cpu.regs.pc cpu.branchTarget := by
  rw [branchDelay]
  by_cases h : samePage cpu.branchTarget cpu.regs.pc = true
  · have hf : MicroOp.branchNear.finishes cpu = true := h
    rw [drain_cons_of_finishes hf, if_pos ((samePage_iff _ _).mp h)]
  · have hf : MicroOp.branchNear.finishes cpu = false := Bool.not_eq_true _ |>.mp h
    rw [drain_cons hf, if_neg (mt (samePage_iff _ _).mpr h)]
    rfl

theorem duration_of_branch {i : Instruction} {condition : Condition}
    (hop : i.operation = .branch condition) (hr : cpu.regs = r.advance 1) (bus : β)
    (opcode : UInt8) :
    1 + (drain i.microcode cpu bus).1 =
      i.cycles + delay i r (opcode :: (accesses i.microcode cpu bus).map Access.value) := by
  obtain ⟨mode, operation, standing⟩ := i
  subst hop
  have hholds : condition.holds cpu.regs = condition.holds r := by rw [hr, holds_advance]
  have hcode : Instruction.microcode ⟨mode, .branch condition, standing⟩ =
      [.branchOffset condition, .branchNear, .branchFar] := rfl
  have hleast : Instruction.cycles ⟨mode, .branch condition, standing⟩ = 2 := rfl
  rw [hcode, hleast]
  cases h : condition.holds r with
  | false =>
    have hf : (MicroOp.branchOffset condition).finishes cpu = true := by
      simp only [MicroOp.finishes, hholds, h, Bool.not_false]
    rw [drain_cons_of_finishes hf]
    simp only [delay, h, Bool.false_eq_true, if_false]
  | true =>
    have hf : (MicroOp.branchOffset condition).finishes cpu = false := by
      simp only [MicroOp.finishes, hholds, h, Bool.not_true]
    obtain ⟨hpc, htarget⟩ := branchOffset_perform condition hr bus
    have hdelay : ∀ rest, delay ⟨mode, .branch condition, standing⟩ r
        (opcode :: (AddressBus.read cpu.regs.pc bus).1 :: rest) =
          branchDelay (indexed r.pc 2)
            (Interpreter.branchTarget (indexed r.pc 2) (AddressBus.read cpu.regs.pc bus).1) := by
      intro rest
      simp only [delay, h, if_true]
      rfl
    have hvalue : ((MicroOp.drives cpu (.branchOffset condition)).answered bus).value =
        (AddressBus.read cpu.regs.pc bus).1 := rfl
    rw [drain_cons hf, accesses_cons hf, drain_branchNear, hpc, htarget, List.map_cons, hvalue,
      hdelay]
    omega

/-! ## 5. Every instruction -/

/-- **Draining the microcode of an opcode takes what the table says, and the delay.** -/
theorem duration (opcode : UInt8) (hj : (Instruction.decode opcode).operation ≠ .jam)
    (hr : cpu.regs = r.advance 1) (bus : β) :
    1 + (drain (Instruction.decode opcode).microcode cpu bus).1 =
      (Instruction.decode opcode).cycles +
        delay (Instruction.decode opcode) r
          (opcode ::
            (accesses (Instruction.decode opcode).microcode cpu bus).map Access.value) := by
  rcases straight_or_delayed (Instruction.decode opcode) with hs | ⟨c, hop⟩ | ⟨op, hop, hm⟩
  · rw [drain_fst_of_isStraight hs, delay_of_isStraight hs, Nat.add_zero,
      length_microcode opcode hj hs]
  · exact duration_of_branch hop hr bus opcode
  · exact duration_of_indexedRead hop hm hr bus opcode

end Delayed

/-- **The table and the microcode agree on time.**  From a boundary, on any bus, a step that takes
an interrupt takes seven cycles, and one that runs an instruction takes what the table says and the
delay that the bytes on the bus bring about. -/
theorem step_cycles (cpu : Cpu) (bus : β) (hb : cpu.phase = .boundary) :
    (∀ interrupt, cpu.interruptToTake bus = some interrupt → (cpu.step bus).1 = 7) ∧
      let i := Instruction.decode (AddressBus.read cpu.regs.pc bus).1
      (cpu.interruptToTake bus = none → i.operation ≠ .jam →
        (cpu.step bus).1 = i.cycles + delay i cpu.regs ((cpu.stepLog bus).map Access.value)) := by
  refine ⟨fun interrupt hi => by rw [step_interrupt hb hi], ?_⟩
  intro i hi hj
  have hne : Instruction.programOf (AddressBus.read cpu.regs.pc bus).1 ≠ [] := by
    rw [Instruction.programOf_eq]
    exact microcode_ne_nil hj
  have hfetched : cpu.fetched.regs = cpu.regs.advance 1 := rfl
  have hcount := duration (AddressBus.read cpu.regs.pc bus).1 hj hfetched
    (AddressBus.read cpu.regs.pc bus).2
  rw [step_recorded hb hi hne, step_boundary hb hi hne, Instruction.programOf_eq]
  exact hcount

/-- A load that indexes out of page 0 into page 1 takes one cycle more than its four, and the entry
that a waiting request would cause there takes seven. -/
theorem step_cycles_across_page :
    let cpu : Cpu := { regs := { x := 1 } }
    let m : FlatMemory := ((({} : FlatMemory).poke 0 0xBD).poke 1 0xFF).poke 2 0x00
    (Instruction.decode (m.peek 0)).cycles = 4 ∧ (cpu.step m).1 = 5 ∧
      (cpu.requestNmi.step m).1 = 7 := by
  intro cpu m
  have hi : cpu.interruptToTake m = none := by decide +kernel
  have hj : (Instruction.decode (AddressBus.read cpu.regs.pc m).1).operation ≠ .jam := by
    decide +kernel
  refine ⟨by decide +kernel, ?_, (step_cycles cpu.requestNmi m rfl).1 .nmi (by decide +kernel)⟩
  rw [(step_cycles cpu m rfl).2 hi hj]
  decide +kernel

end Famicom.Cpu
