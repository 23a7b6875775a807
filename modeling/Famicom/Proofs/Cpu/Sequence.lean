/-
# The accesses of an instruction

On this machine a read can have an effect, and so the accesses that an instruction makes besides
those it needs are part of what it does.  `sequence` writes them down for every instruction on a
memory of 64 KiB, in order, and in one go: like the interpreter it finds addresses by arithmetic on
the operand bytes and knows nothing of latches or micro-ops.

* The opcode is read, and then the operand bytes.  Where there are none, the byte behind the opcode
  is read all the same.
* An index costs an access.  In page zero the cell before indexing is read.  On a whole address the
  low byte is summed first, and the cell of the old page is read; for a read that stayed in the page
  this is the operand, and in every other case it is one access too many.
* An operation on memory reads once and writes twice, first what it read.
* A taken branch reads the byte behind it, and, if it leaves the page, the cell of that page whose
  offset is the target's.
* Most stack operations read the cell that the stack pointer names before they use the stack.

**The log of a step is this list** (`accesses_of_step`), and so nothing else is accessed.
-/
import Famicom.Proofs.Cpu.Timing

namespace Famicom.Cpu

open Interpreter

/-! ## 1. The list -/

/-- The offset of one address in the page of another. -/
def inPageOf (page offset : UInt16) : UInt16 :=
  .ofNat (page.toNat / 256 * 256 + offset.toNat % 256)

/-- The byte that says in which page an address is. -/
def pageByte (a : UInt16) : UInt8 := .ofNat (a.toNat / 256)

/-- The byte that says where in its page an address is. -/
def offsetByte (a : UInt16) : UInt8 := .ofNat a.toNat

/-- The reads that form an address; the last of them are operand bytes or the bytes of a pointer. -/
def addressReads (mode : Mode) (r : Registers) (m : FlatMemory) : List UInt16 :=
  let place := operand m r.pc 1
  match mode with
  | .implied | .accumulator | .immediate | .zeroPage | .relative => [indexed r.pc 1]
  | .zeroPageX | .zeroPageY => [indexed r.pc 1, zeroPage place 0]
  | .absolute | .absoluteX | .absoluteY | .indirect => [indexed r.pc 1, indexed r.pc 2]
  | .indirectX =>
    [indexed r.pc 1, zeroPage place 0, zeroPage place r.x.toNat, zeroPage place (r.x.toNat + 1)]
  | .indirectY => [indexed r.pc 1, zeroPage place 0, zeroPage place 1]

/-- The read with the low byte summed and the page not yet, for the modes that index a whole
address. -/
def uncorrectedReads (mode : Mode) (r : Registers) (m : FlatMemory) : List UInt16 :=
  match mode with
  | .absoluteX | .absoluteY | .indirectY =>
    [inPageOf (baseAddress mode m r.pc) (effectiveAddress mode r m)]
  | _ => []

/-- The reads of an operand by an operation that only reads. -/
def operandReads (mode : Mode) (r : Registers) (m : FlatMemory) : List UInt16 :=
  let a := effectiveAddress mode r m
  match mode with
  | .immediate => []
  | .absoluteX | .absoluteY | .indirectY =>
    if pageOf a = pageOf (baseAddress mode m r.pc) then uncorrectedReads mode r m
    else uncorrectedReads mode r m ++ [a]
  | _ => [a]

/-- The accesses of a taken branch behind its operand. -/
def branchReads (next target : UInt16) : List UInt16 :=
  if pageOf target = pageOf next then [next] else [next, inPageOf next target]

/-- The accesses of a transfer of control or a stack operation behind its opcode. -/
def transferSequence (c : Control) (r : Registers) (m : FlatMemory) : List BusCycle :=
  let first : BusCycle := .read (indexed r.pc 1)
  let second : BusCycle := .read (indexed r.pc 2)
  let pull (i : UInt8) : BusCycle := .read (stackCell (r.sp + i))
  let push (i v : UInt8) : BusCycle := .write (stackCell (r.sp - i)) v
  -- Both transfers that can come back push the address of the second byte behind their opcode.
  let page := pageByte (indexed r.pc 2)
  let offset := offsetByte (indexed r.pc 2)
  match c with
  | .brk =>
    [first, push 0 page, push 1 offset, push 2 (r.pushedStatus true), .read 0xFFFE, .read 0xFFFF]
  | .jsr => [first, pull 0, push 0 page, push 1 offset, second]
  | .rts =>
    [first, pull 0, pull 1, pull 2, .read (address (pulledByte r m 1) (pulledByte r m 2))]
  | .rti => [first, pull 0, pull 1, pull 2, pull 3]
  | .jump => [first, second]
  | .jumpIndirect =>
    let a := operandAddress m r.pc
    [first, second, .read a, .read (nextInPage a)]
  | .pha => [first, push 0 r.a]
  | .php => [first, push 0 (r.pushedStatus true)]
  | .pla | .plp => [first, pull 0, pull 1]

/-- The accesses of an instruction at the program counter, behind its opcode. -/
def operationSequence (i : Instruction) (r : Registers) (m : FlatMemory) : List BusCycle :=
  let a := effectiveAddress i.mode r m
  let forming := (addressReads i.mode r m).map BusCycle.read
  let settling := (uncorrectedReads i.mode r m).map BusCycle.read
  match i.operation with
  | .read _ => forming ++ (operandReads i.mode r m).map .read
  | .write op => forming ++ settling ++ [.write a (op.apply (storePage i.mode m r.pc) r).1]
  | .modify op =>
    if i.mode = .accumulator then forming
    else
      forming ++ settling ++ [.read a, .write a (m.peek a), .write a (op.apply (m.peek a) r).1]
  | .implied _ => forming
  | .branch condition =>
    let next := indexed r.pc 2
    if condition.holds r then
      forming ++
        (branchReads next (Interpreter.branchTarget next (operand m r.pc 1))).map .read
    else forming
  | .control c => transferSequence c r m
  | .jam => []

/-- The accesses of the instruction whose opcode is at the program counter, in order. -/
def sequence (r : Registers) (m : FlatMemory) : List BusCycle :=
  .read r.pc :: operationSequence (Instruction.decode (m.peek r.pc)) r m

/-! ## 2. Micro-operations on a memory -/

/-- What micro-ops put on the bus, in order. -/
def traffic (ops : List MicroOp) (cpu : Cpu) (m : FlatMemory) : List BusCycle :=
  (accesses ops cpu m).map Access.cycle

theorem traffic_cons {op : MicroOp} {cpu : Cpu} (h : op.finishes cpu = false)
    (rest : List MicroOp) (m : FlatMemory) :
    traffic (op :: rest) cpu m =
      op.drives cpu :: traffic rest (op.perform cpu m).1 (op.perform cpu m).2 := by
  rw [traffic, accesses_cons h, List.map_cons, Access.cycle_answered, traffic]

theorem traffic_cons_of_finishes {op : MicroOp} {cpu : Cpu} (h : op.finishes cpu = true)
    (rest : List MicroOp) (m : FlatMemory) : traffic (op :: rest) cpu m = [op.drives cpu] := by
  rw [traffic, accesses_cons_of_finishes h, List.map_singleton, Access.cycle_answered]

theorem traffic_append {ops : List MicroOp} (h : ops.all MicroOp.isStraight = true)
    (rest : List MicroOp) (cpu : Cpu) (m : FlatMemory) :
    traffic (ops ++ rest) cpu m =
      traffic ops cpu m ++ traffic rest (drain ops cpu m).2.1 (drain ops cpu m).2.2 := by
  rw [traffic, accesses_append ops rest h, List.map_append, traffic, traffic]

/-! ## 3. Forming an address -/

theorem traffic_addressing {mode : Mode} (hm : mode.addressing ≠ []) {r : Registers} {cpu : Cpu}
    (hr : cpu.regs = r.advance 1) (m : FlatMemory) :
    traffic mode.addressing cpu m = (addressReads mode r m).map .read := by
  obtain ⟨regs, latch, phase, nmi, irq, cycles⟩ := cpu
  subst hr
  cases mode <;> first
    | exact absurd rfl hm
    | simp [traffic, accesses, Mode.addressing, Mode.index, MicroOp.finishes, MicroOp.drives,
        MicroOp.perform, fetchByte, touch, Registers.advance, addressReads, operand,
        zeroPage_zero, zeroPage_one, zeroPage_toNat, zeroPage_toNat_succ, indexed_ofNat,
        UInt16.add_assoc]

/-- An address that has not been corrected has the page of one and the offset of another. -/
theorem uncorrected_eq_inPageOf (l : Latches) : l.uncorrected = inPageOf l.base l.address := by
  apply UInt16.toNat_inj.mp
  have := l.base.toNat_lt
  rw [Latches.uncorrected, toNat_word, toNat_lowByte, toNat_highByte, inPageOf,
    UInt16.toNat_ofNat']
  omega

section Addressed

variable {mode : Mode} {r : Registers} {m : FlatMemory} {cpu : Cpu} (ha : Addressed mode r m cpu)

include ha

theorem traffic_settling : traffic mode.settling cpu m = (uncorrectedReads mode r m).map .read := by
  have hread : mode.isIndexedAbsolute = true →
      traffic [.settle] cpu m =
        [.read (inPageOf (baseAddress mode m r.pc) (effectiveAddress mode r m))] := by
    intro hm
    rw [← ha.base hm, ← ha.address, ← uncorrected_eq_inPageOf]
    rfl
  cases mode <;> first | rfl | exact hread rfl

/-- An indexed read accesses the uncorrected address, and the right one if they differ. -/
theorem traffic_tryRead (hm : mode.isIndexedAbsolute = true) (op : ReadOp) :
    traffic [.tryRead op, .read op] cpu m = (operandReads mode r m).map .read := by
  have hreads : operandReads mode r m =
      if pageOf cpu.latch.address = pageOf cpu.latch.base then [cpu.latch.uncorrected]
      else [cpu.latch.uncorrected, cpu.latch.address] := by
    rw [uncorrected_eq_inPageOf, ha.base hm, ha.address]
    cases mode <;> first | exact absurd hm Bool.false_ne_true | rfl
  by_cases hc : cpu.latch.crossesPage = true
  · have hf : (MicroOp.tryRead op).finishes cpu = false := by
      simp only [MicroOp.finishes, hc, Bool.not_true]
    have hkeep : (MicroOp.tryRead op).perform cpu m = (cpu, m) := by
      simp only [MicroOp.perform, read_flat, hc, if_true]
    rw [traffic_cons hf, hkeep, hreads, if_neg ((crossesPage_iff _).mp hc)]
    rfl
  · have hf : (MicroOp.tryRead op).finishes cpu = true := by
      simp only [MicroOp.finishes, Bool.not_eq_true _ |>.mp hc, Bool.not_false]
    rw [traffic_cons_of_finishes hf, hreads,
      if_pos (Decidable.not_not.mp (mt (crossesPage_iff _).mpr hc))]
    rfl

/-- A read in any other mode accesses the operand. -/
theorem traffic_read (hm : mode.isIndexedAbsolute = false) (himm : mode ≠ .immediate)
    (op : ReadOp) : traffic [.read op] cpu m = (operandReads mode r m).map .read := by
  have hread : traffic [.read op] cpu m = [.read (effectiveAddress mode r m)] := by
    rw [← ha.address]
    rfl
  rw [hread]
  cases mode <;> first
    | exact absurd rfl himm
    | exact absurd hm Bool.true_eq_false.mp
    | rfl

end Addressed

/-! ## 4. Whole instructions

Each lemma is about a processor that has just fetched the opcode at the program counter of `r`. -/

theorem pageByte_eq (a : UInt16) : pageByte a = highByte a := ofNat_div_eq_highByte a

theorem offsetByte_eq (a : UInt16) : offsetByte a = lowByte a := ofNat_toNat_eq_lowByte a

/-- Two pushes move the stack pointer by two. -/
theorem sub_one_sub_one (sp : UInt8) : sp - 1 - 1 = sp - 2 := by grind

section Shapes

variable {i : Instruction} {r : Registers} {cpu : Cpu} (m : FlatMemory)

theorem traffic_of_read {op : ReadOp} (hop : i.operation = .read op)
    (hw : i.isWellFormed = true) (hr : cpu.regs = r.advance 1) :
    traffic i.microcode cpu m = operationSequence i r m := by
  obtain ⟨mode, operation, standing⟩ := i
  subst hop
  by_cases himm : mode = .immediate
  · subst himm
    have hf : (MicroOp.immediate op).finishes cpu = false := rfl
    have hcode : Instruction.microcode ⟨.immediate, .read op, standing⟩ = [.immediate op] := rfl
    rw [hcode, traffic_cons hf, MicroOp.drives, hr, Registers.advance]
    simp [traffic, operationSequence, addressReads, operandReads, indexed_ofNat]
  · have hm : mode.addressing ≠ [] := by
      simpa [Instruction.isWellFormed, himm] using hw
    obtain ⟨ha, hmem⟩ := drain_addressing hm hr m
    simp only [Instruction.microcode, himm, if_false, operationSequence]
    cases hx : mode.isIndexedAbsolute with
    | true =>
      rw [if_pos rfl, traffic_append (isStraight_addressing mode), traffic_addressing hm hr, hmem,
        traffic_tryRead ha hx]
    | false =>
      rw [if_neg Bool.false_ne_true, traffic_append (isStraight_addressing mode),
        traffic_addressing hm hr, hmem, traffic_read ha hx himm]

theorem traffic_of_write {op : WriteOp} (hop : i.operation = .write op)
    (hw : i.isWellFormed = true) (hr : cpu.regs = r.advance 1) :
    traffic i.microcode cpu m = operationSequence i r m := by
  obtain ⟨mode, operation, standing⟩ := i
  subst hop
  simp only [Instruction.isWellFormed, Bool.and_eq_true, Bool.not_eq_true', Bool.or_eq_true] at hw
  have hm : mode.addressing ≠ [] := by simpa using hw.1
  obtain ⟨ha, hmem⟩ := drain_addressing hm hr m
  have hstore : traffic [.store op] (drain mode.addressing cpu m).2.1 m =
      [.write (effectiveAddress mode r m) (op.apply (storePage mode m r.pc) r).1] := by
    rw [traffic_cons rfl, MicroOp.drives, ha.apply_store hw.2, ha.address, ha.regs,
      WriteOp.apply_pc]
    rfl
  simp only [Instruction.microcode, operationSequence, List.append_assoc]
  rw [traffic_append (isStraight_addressing mode), traffic_append (isStraight_settling mode),
    drain_settling, hmem, traffic_addressing hm hr, traffic_settling ha, hstore]

theorem traffic_of_modify {op : ModifyOp} (hop : i.operation = .modify op)
    (hw : i.isWellFormed = true) (hr : cpu.regs = r.advance 1) :
    traffic i.microcode cpu m = operationSequence i r m := by
  obtain ⟨mode, operation, standing⟩ := i
  subst hop
  by_cases hacc : mode = .accumulator
  · subst hacc
    have hf : (MicroOp.accumulator op).finishes cpu = false := rfl
    have hcode : Instruction.microcode ⟨.accumulator, .modify op, standing⟩ = [.accumulator op] :=
      rfl
    rw [hcode, traffic_cons hf, MicroOp.drives, hr, Registers.advance]
    simp [traffic, operationSequence, addressReads, indexed_ofNat]
  · have hm : mode.addressing ≠ [] := by
      simpa [Instruction.isWellFormed, hacc] using hw
    obtain ⟨ha, hmem⟩ := drain_addressing hm hr m
    have hreplace : traffic [.loadData, .modify op, .storeData]
        (drain mode.addressing cpu m).2.1 m =
          [.read (effectiveAddress mode r m),
            .write (effectiveAddress mode r m) (m.peek (effectiveAddress mode r m)),
            .write (effectiveAddress mode r m)
              (op.apply (m.peek (effectiveAddress mode r m)) r).1] := by
      have hput : (op.apply (m.peek (effectiveAddress mode r m))
            { r with pc := indexed r.pc (1 + mode.operandLength) }).1 =
          (op.apply (m.peek (effectiveAddress mode r m)) r).1 := by
        rw [ModifyOp.apply_pc]
      rw [← hput, ← ha.regs, ← ha.address]
      rfl
    simp only [Instruction.microcode, operationSequence, hacc, if_false, List.append_assoc]
    rw [traffic_append (isStraight_addressing mode), traffic_append (isStraight_settling mode),
      drain_settling, hmem, traffic_addressing hm hr, traffic_settling ha, hreplace]

theorem traffic_of_implied {op : ImpliedOp} (hop : i.operation = .implied op)
    (hw : i.isWellFormed = true) (hr : cpu.regs = r.advance 1) :
    traffic i.microcode cpu m = operationSequence i r m := by
  obtain ⟨mode, operation, standing⟩ := i
  subst hop
  have hm : mode = .implied := by simpa [Instruction.isWellFormed] using hw
  subst hm
  have hf : (MicroOp.implied op).finishes cpu = false := rfl
  have hcode : Instruction.microcode ⟨.implied, .implied op, standing⟩ = [.implied op] := rfl
  rw [hcode, traffic_cons hf, MicroOp.drives, hr, Registers.advance]
  simp [traffic, operationSequence, addressReads, indexed_ofNat]

/-- A taken branch reads the byte behind it, and, on its way out of the page, one more. -/
theorem traffic_branchNear (cpu : Cpu) :
    traffic [.branchNear, .branchFar] cpu m =
      (branchReads cpu.regs.pc cpu.branchTarget).map .read := by
  by_cases h : samePage cpu.branchTarget cpu.regs.pc = true
  · have hf : MicroOp.branchNear.finishes cpu = true := h
    rw [traffic_cons_of_finishes hf, branchReads, if_pos ((samePage_iff _ _).mp h)]
    rfl
  · have hf : MicroOp.branchNear.finishes cpu = false := Bool.not_eq_true _ |>.mp h
    have hplace : (MicroOp.branchNear.perform cpu m).1.regs.pc =
        inPageOf cpu.regs.pc cpu.branchTarget :=
      uncorrected_eq_inPageOf { base := cpu.regs.pc, address := cpu.branchTarget }
    rw [traffic_cons hf, traffic_cons rfl, MicroOp.drives, MicroOp.drives, hplace, branchReads,
      if_neg (mt (samePage_iff _ _).mpr h)]
    rfl

theorem traffic_of_branch {c : Condition} (hop : i.operation = .branch c)
    (hw : i.isWellFormed = true) (hr : cpu.regs = r.advance 1) :
    traffic i.microcode cpu m = operationSequence i r m := by
  obtain ⟨mode, operation, standing⟩ := i
  subst hop
  have hm : mode = .relative := by simpa [Instruction.isWellFormed] using hw
  subst hm
  have hholds : c.holds cpu.regs = c.holds r := by rw [hr, holds_advance]
  have hfirst : MicroOp.drives cpu (.branchOffset c) = .read (indexed r.pc 1) := by
    rw [MicroOp.drives, hr, indexed_ofNat]
    rfl
  simp only [Instruction.microcode, operationSequence]
  cases h : c.holds r with
  | false =>
    have hf : (MicroOp.branchOffset c).finishes cpu = true := by
      simp only [MicroOp.finishes, hholds, h, Bool.not_false]
    rw [traffic_cons_of_finishes hf, hfirst]
    rfl
  | true =>
    have hf : (MicroOp.branchOffset c).finishes cpu = false := by
      simp only [MicroOp.finishes, hholds, h, Bool.not_true]
    obtain ⟨hpc, htarget⟩ := branchOffset_perform c hr m
    have hmem : ((MicroOp.branchOffset c).perform cpu m).2 = m := rfl
    have hbyte : (AddressBus.read cpu.regs.pc m).1 = operand m r.pc 1 := by
      rw [read_flat, hr, operand, indexed_ofNat]
      rfl
    rw [traffic_cons hf, hfirst, hmem, traffic_branchNear, hpc, htarget, hbyte]
    rfl

theorem traffic_of_control {c : Control} (hop : i.operation = .control c)
    (hr : cpu.regs = r.advance 1) (hn : cpu.nmi = false) :
    traffic i.microcode cpu m = operationSequence i r m := by
  obtain ⟨mode, operation, standing⟩ := i
  obtain ⟨regs, latch, phase, nmi, irq, cycles⟩ := cpu
  subst hop hr hn
  simp only [Instruction.microcode, operationSequence]
  cases c <;>
    simp [Control.microcode, traffic, accesses, MicroOp.finishes, MicroOp.drives,
      MicroOp.perform, fetchByte, touch, push, pull, Registers.advance, Registers.stackAddress,
      Registers.pushed, Registers.pulled, Registers.pushedStatus, Registers.restoreStatus,
      Interrupt.vector, transferSequence, pulledByte, stackCell_eq, operandAddress, operand,
      nextInPage_eq, indexed_ofNat, address_eq, pageByte_eq, offsetByte_eq, UInt16.add_assoc,
      UInt8.add_assoc, sub_one_sub_one]

end Shapes

/-! ## 5. Steps -/

/-- **The accesses of the microcode of an instruction are those of the instruction.** -/
theorem traffic_microcode {i : Instruction} (hw : i.isWellFormed = true)
    (hj : i.operation ≠ .jam) {r : Registers} {cpu : Cpu} (hr : cpu.regs = r.advance 1)
    (hn : cpu.nmi = false) (m : FlatMemory) :
    traffic i.microcode cpu m = operationSequence i r m := by
  cases hop : i.operation with
  | read op => exact traffic_of_read m hop hw hr
  | write op => exact traffic_of_write m hop hw hr
  | modify op => exact traffic_of_modify m hop hw hr
  | implied op => exact traffic_of_implied m hop hw hr
  | branch c => exact traffic_of_branch m hop hw hr
  | control c => exact traffic_of_control m hop hr hn
  | jam => exact absurd hop hj

/-- **A step makes the accesses of its instruction, in their order, and no others.**  From a
boundary where no interrupt is to be taken, on a memory of 64 KiB, the log of a step is the
sequence of the instruction under the program counter. -/
theorem accesses_of_step (cpu : Cpu) (m : FlatMemory) (hb : cpu.phase = .boundary)
    (hi : cpu.interruptToTake m = none)
    (hj : (Instruction.decode (m.peek cpu.regs.pc)).operation ≠ .jam) :
    (cpu.stepLog m).map Access.cycle = sequence cpu.regs m := by
  have hne : Instruction.programOf (AddressBus.read cpu.regs.pc m).1 ≠ [] := by
    rw [read_flat, Instruction.programOf_eq]
    exact microcode_ne_nil hj
  have hn : cpu.fetched.nmi = false := by
    cases h : cpu.nmi with
    | true => simp [interruptToTake, h] at hi
    | false => exact h
  have hfetched : cpu.fetched.regs = cpu.regs.advance 1 := rfl
  have hcode := traffic_microcode (isWellFormed_decode (m.peek cpu.regs.pc)) hj hfetched hn m
  rw [step_recorded hb hi hne, read_flat, Instruction.programOf_eq, List.map_cons]
  exact congrArg (BusCycle.read cpu.regs.pc :: ·) hcode

/-- An increment that indexes out of page 0 into page 1 makes seven accesses: the fourth is in page
0 still, and the byte that was read is put back before it is replaced. -/
theorem accesses_of_step_across_page :
    let cpu : Cpu := { regs := { x := 1 } }
    let m : FlatMemory := ((({} : FlatMemory).poke 0 0xFE).poke 1 0xFF).poke 2 0x00
    (cpu.stepLog m).map Access.cycle =
      [.read 0, .read 1, .read 2, .read 0x0000, .read 0x0100, .write 0x0100 0,
        .write 0x0100 1] := by
  intro cpu m
  rw [accesses_of_step cpu m rfl (by decide +kernel) (by decide +kernel)]
  decide +kernel

end Famicom.Cpu
