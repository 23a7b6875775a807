/-
# The microcode computes what instructions mean

The processor runs an instruction cycle by cycle (`step`), the interpreter at once (`interpret`).
On a memory of 64 KiB they agree, for every opcode that does not jam: `step_eq_interpret`.

The proof follows the shape of the microcode.  The cycles that form an address are one lemma
(`drain_addressing`): **they leave the effective address in its latch, the program counter behind
the operand, and the memory as it was**.  What follows them is short, and there is one lemma for
each shape of operation.  A carry into the page makes a read take the second of its two chances, but
the first chance, when it is the right one, reads at the same address (`uncorrected_eq`).

Which operations meet which modes is a fact about the opcode table, checked once for its 256
entries (`isWellFormed_decode`).
-/
import Famicom.Proofs.Cpu.Interpreter
import Famicom.Proofs.Cpu.Run

namespace Famicom.Cpu

open Interpreter

/-! ## 1. Micro-operations on a memory -/

@[simp] theorem read_flat (a : UInt16) (m : FlatMemory) :
    AddressBus.read a m = (m.peek a, m) := rfl

@[simp] theorem write_flat (a : UInt16) (v : UInt8) (m : FlatMemory) :
    AddressBus.write a v m = m.poke a v := rfl

/-- The second of two writes to a cell is the one that stays. -/
theorem poke_poke (m : FlatMemory) (a : UInt16) (v w : UInt8) :
    (m.poke a v).poke a w = m.poke a w := by
  simp [FlatMemory.poke, Memory.write]

/-- The registers and the memory after micro-ops, which is all that a program can see of them. -/
def outcome (ops : List MicroOp) (cpu : Cpu) (m : FlatMemory) : Registers × FlatMemory :=
  ((drain ops cpu m).2.1.regs, (drain ops cpu m).2.2)

@[simp] theorem outcome_nil (cpu : Cpu) (m : FlatMemory) : outcome [] cpu m = (cpu.regs, m) := rfl

theorem outcome_cons {op : MicroOp} {cpu : Cpu} (h : op.finishes cpu = false)
    (rest : List MicroOp) (m : FlatMemory) :
    outcome (op :: rest) cpu m = outcome rest (op.perform cpu m).1 (op.perform cpu m).2 := by
  simp only [outcome, drain_cons h]

theorem outcome_append {ops : List MicroOp} (h : ops.all MicroOp.isStraight = true)
    (rest : List MicroOp) (cpu : Cpu) (m : FlatMemory) :
    outcome (ops ++ rest) cpu m = outcome rest (drain ops cpu m).2.1 (drain ops cpu m).2.2 := by
  simp only [outcome, drain_append ops rest h]

/-! ## 2. Forming an address -/

theorem isStraight_addressing (mode : Mode) :
    mode.addressing.all MicroOp.isStraight = true := by
  cases mode <;> rfl

theorem isStraight_settling (mode : Mode) : mode.settling.all MicroOp.isStraight = true := by
  cases mode <;> rfl

/-- What the cycles that form an address achieve, for an instruction at the program counter of
`r`: the address is known, and nothing else has happened. -/
structure Addressed (mode : Mode) (r : Registers) (m : FlatMemory) (cpu : Cpu) : Prop where
  regs : cpu.regs = { r with pc := indexed r.pc (1 + mode.operandLength) }
  address : cpu.latch.address = effectiveAddress mode r m
  /-- Only the modes that index a whole address use the latch of the address before indexing. -/
  base : mode.isIndexedAbsolute = true → cpu.latch.base = baseAddress mode m r.pc

@[simp] theorem lowByte_toUInt16 (b : UInt8) : lowByte b.toUInt16 = b := by
  simp [lowByte]

/-- **The cycles that form an address form the effective address.** -/
theorem drain_addressing {mode : Mode} (hm : mode.addressing ≠ []) {r : Registers} {cpu : Cpu}
    (hr : cpu.regs = r.advance 1) (m : FlatMemory) :
    Addressed mode r m (drain mode.addressing cpu m).2.1 ∧
      (drain mode.addressing cpu m).2.2 = m := by
  obtain ⟨regs, latch, phase, nmi, irq, cycles⟩ := cpu
  subst hr
  cases mode <;> first
    | exact absurd rfl hm
    | refine ⟨⟨?_, ?_, ?_⟩, rfl⟩
  all_goals
    simp [Mode.addressing, Mode.index, drain, MicroOp.finishes, MicroOp.perform, fetchByte, touch,
      Registers.advance, Registers.index, Latches.addIndex, Mode.operandLength,
      effectiveAddress, baseAddress, operandAddress, operand, pointerAt, address_eq,
      zeroPage_zero, zeroPage_one, zeroPage_toNat, zeroPage_toNat_succ, indexed_ofNat,
      UInt16.add_assoc, Mode.isIndexedAbsolute]

/-- Waiting for the page changes nothing that a later cycle reads. -/
theorem drain_settling (mode : Mode) (cpu : Cpu) (m : FlatMemory) :
    (drain mode.settling cpu m).2 = (cpu, m) := by
  cases mode <;> rfl

/-- Where indexing stays in the page, the address that has not been corrected is the right one. -/
theorem uncorrected_eq {l : Latches} (h : l.crossesPage = false) : l.uncorrected = l.address := by
  have hpage : highByte l.base = highByte l.address := by
    simpa [Latches.crossesPage, samePage] using h
  rw [Latches.uncorrected, hpage, word_lowByte_highByte]

/-! ## 3. One lemma for each shape of operation -/

/-- The two chances of an indexed read come to one read at the address. -/
theorem outcome_tryRead (op : ReadOp) (cpu : Cpu) (m : FlatMemory) :
    outcome [.tryRead op, .read op] cpu m = (op.apply (m.peek cpu.latch.address) cpu.regs, m) := by
  cases h : cpu.latch.crossesPage with
  | true => simp [outcome, drain, MicroOp.finishes, MicroOp.perform, h]
  | false => simp [outcome, drain, MicroOp.finishes, MicroOp.perform, h, uncorrected_eq h]

theorem outcome_read (op : ReadOp) (cpu : Cpu) (m : FlatMemory) :
    outcome [.read op] cpu m = (op.apply (m.peek cpu.latch.address) cpu.regs, m) := rfl

theorem outcome_store (op : WriteOp) (cpu : Cpu) (m : FlatMemory) :
    outcome [.store op] cpu m =
      ((op.apply (highByte cpu.latch.base + 1) cpu.regs).2,
        m.poke cpu.latch.address (op.apply (highByte cpu.latch.base + 1) cpu.regs).1) := rfl

/-- The byte that is put back first leaves no trace. -/
theorem outcome_modify (op : ModifyOp) (cpu : Cpu) (m : FlatMemory) :
    outcome [.loadData, .modify op, .storeData] cpu m =
      ((op.apply (m.peek cpu.latch.address) cpu.regs).2,
        m.poke cpu.latch.address (op.apply (m.peek cpu.latch.address) cpu.regs).1) := by
  simp [outcome, drain, MicroOp.finishes, MicroOp.perform, poke_poke]

/-! ## 4. Which operations meet which modes -/

/-- The stores that mix in the page of the address. -/
def WriteOp.mixesPage : WriteOp → Bool
  | shy | shx | ahx | tas => true
  | _ => false

/-- The other stores do not look at it. -/
theorem WriteOp.apply_congr {op : WriteOp} (h : op.mixesPage = false) (v w : UInt8)
    (r : Registers) : op.apply v r = op.apply w r := by
  cases op <;> first | rfl | exact absurd h Bool.true_eq_false.mp

/-- The transfers that end behind the instruction. -/
def Control.fallsThrough : Control → Bool
  | pha | php | pla | plp => true
  | _ => false

/-- The combinations of operation and mode that the opcode table uses. -/
def Instruction.isWellFormed (i : Instruction) : Bool :=
  match i.operation with
  | .read _ => i.mode == .immediate || !i.mode.addressing.isEmpty
  | .write op => !i.mode.addressing.isEmpty && (!op.mixesPage || i.mode.isIndexedAbsolute)
  | .modify _ => i.mode == .accumulator || !i.mode.addressing.isEmpty
  | .implied _ => i.mode == .implied
  | .branch _ => i.mode == .relative
  | .control c => !c.fallsThrough || i.mode == .implied
  | .jam => true

theorem isWellFormed_decode (opcode : UInt8) :
    (Instruction.decode opcode).isWellFormed = true :=
  forall_byte opcode (by decide +kernel)

/-- Only the instruction that jams has no microcode. -/
theorem microcode_ne_nil {i : Instruction} (h : i.operation ≠ .jam) : i.microcode ≠ [] := by
  cases hop : i.operation with
  | jam => exact absurd hop h
  | control c => cases c <;> simp [Instruction.microcode, hop, Control.microcode]
  | read op =>
    simp only [Instruction.microcode, hop]
    split
    · simp
    · split <;> simp
  | modify op =>
    simp only [Instruction.microcode, hop]
    split <;> simp
  | _ => simp [Instruction.microcode, hop]

/-- Once the address is formed, a store mixes in the page that the instruction names. -/
theorem Addressed.apply_store {mode : Mode} {r : Registers} {m : FlatMemory} {cpu : Cpu}
    (ha : Addressed mode r m cpu) {op : WriteOp}
    (hw : op.mixesPage = false ∨ mode.isIndexedAbsolute = true) (s : Registers) :
    op.apply (highByte cpu.latch.base + 1) s = op.apply (storePage mode m r.pc) s := by
  rcases hw with hop | hix
  · exact WriteOp.apply_congr hop _ _ s
  · rw [ha.base hix, storePage_eq]

/-! ## 5. Whole instructions

Each lemma is about a processor that has just fetched the opcode at the program counter of `r`. -/

section Shapes

variable {i : Instruction} {r : Registers} {cpu : Cpu} (m : FlatMemory)

theorem outcome_of_read {op : ReadOp} (hop : i.operation = .read op)
    (hw : i.isWellFormed = true) (hr : cpu.regs = r.advance 1) :
    outcome i.microcode cpu m = execute i r m := by
  obtain ⟨mode, operation, standing⟩ := i
  subst hop
  by_cases himm : mode = .immediate
  · subst himm
    simp [Instruction.microcode, outcome, drain, MicroOp.finishes, MicroOp.perform, fetchByte, hr,
      Registers.advance, execute, effectiveAddress, indexed_ofNat, Instruction.size,
      Mode.operandLength, UInt16.add_assoc]
  · have hm : mode.addressing ≠ [] := by
      simpa [Instruction.isWellFormed, himm] using hw
    obtain ⟨⟨hregs, haddr, -⟩, hmem⟩ := drain_addressing hm hr m
    have hx : execute ⟨mode, .read op, standing⟩ r m =
        (op.apply (m.peek (effectiveAddress mode r m))
          { r with pc := indexed r.pc (1 + mode.operandLength) }, m) := rfl
    simp only [Instruction.microcode, himm, if_false]
    split
    · rw [outcome_append (isStraight_addressing mode), outcome_tryRead, hmem, haddr, hregs, hx]
    · rw [outcome_append (isStraight_addressing mode), outcome_read, hmem, haddr, hregs, hx]

theorem outcome_of_write {op : WriteOp} (hop : i.operation = .write op)
    (hw : i.isWellFormed = true) (hr : cpu.regs = r.advance 1) :
    outcome i.microcode cpu m = execute i r m := by
  obtain ⟨mode, operation, standing⟩ := i
  subst hop
  simp only [Instruction.isWellFormed, Bool.and_eq_true, Bool.not_eq_true', Bool.or_eq_true] at hw
  have hm : mode.addressing ≠ [] := by simpa using hw.1
  obtain ⟨ha, hmem⟩ := drain_addressing hm hr m
  have hx : execute ⟨mode, .write op, standing⟩ r m =
      ((op.apply (storePage mode m r.pc)
          { r with pc := indexed r.pc (1 + mode.operandLength) }).2,
        m.poke (effectiveAddress mode r m) (op.apply (storePage mode m r.pc)
          { r with pc := indexed r.pc (1 + mode.operandLength) }).1) := rfl
  simp only [Instruction.microcode, List.append_assoc]
  rw [outcome_append (isStraight_addressing mode), outcome_append (isStraight_settling mode),
    outcome_store, drain_settling, ha.apply_store hw.2, hmem, ha.address, ha.regs, hx]

theorem outcome_of_modify {op : ModifyOp} (hop : i.operation = .modify op)
    (hw : i.isWellFormed = true) (hr : cpu.regs = r.advance 1) :
    outcome i.microcode cpu m = execute i r m := by
  obtain ⟨mode, operation, standing⟩ := i
  subst hop
  by_cases hacc : mode = .accumulator
  · subst hacc
    simp [Instruction.microcode, outcome, drain, MicroOp.finishes, MicroOp.perform, touch, hr,
      Registers.advance, execute, indexed_ofNat, Instruction.size, Mode.operandLength]
  · have hm : mode.addressing ≠ [] := by
      simpa [Instruction.isWellFormed, hacc] using hw
    obtain ⟨⟨hregs, haddr, -⟩, hmem⟩ := drain_addressing hm hr m
    simp only [Instruction.microcode, hacc, if_false, List.append_assoc]
    rw [outcome_append (isStraight_addressing mode), outcome_append (isStraight_settling mode),
      outcome_modify, drain_settling, hmem, haddr, hregs]
    simp only [execute, hacc, if_false, Instruction.size]

theorem outcome_of_implied {op : ImpliedOp} (hop : i.operation = .implied op)
    (hw : i.isWellFormed = true) (hr : cpu.regs = r.advance 1) :
    outcome i.microcode cpu m = execute i r m := by
  obtain ⟨mode, operation, standing⟩ := i
  subst hop
  have hm : mode = .implied := by simpa [Instruction.isWellFormed] using hw
  subst hm
  simp [Instruction.microcode, outcome, drain, MicroOp.finishes, MicroOp.perform, touch, hr,
    Registers.advance, execute, indexed_ofNat, Instruction.size, Mode.operandLength]

/-- A condition looks at the flags alone. -/
theorem holds_advance (c : Condition) (r : Registers) (n : UInt16) :
    c.holds (r.advance n) = c.holds r := by
  cases c <;> rfl

/-- The last two cycles of a branch go to the target, in one step or in two. -/
theorem outcome_branchNear (cpu : Cpu) :
    outcome [.branchNear, .branchFar] cpu m = ({ cpu.regs with pc := cpu.branchTarget }, m) := by
  cases h : samePage cpu.branchTarget cpu.regs.pc with
  | true =>
    have hf : MicroOp.branchNear.finishes cpu = true := h
    have hpage : highByte cpu.branchTarget = highByte cpu.regs.pc := by simpa [samePage] using h
    simp only [outcome, drain_cons_of_finishes hf]
    simp only [MicroOp.perform, touch, read_flat, ← hpage, word_lowByte_highByte]
  | false =>
    have hf : MicroOp.branchNear.finishes cpu = false := h
    rw [outcome_cons hf]
    rfl

theorem outcome_of_branch {c : Condition} (hop : i.operation = .branch c)
    (hw : i.isWellFormed = true) (hr : cpu.regs = r.advance 1) :
    outcome i.microcode cpu m = execute i r m := by
  obtain ⟨mode, operation, standing⟩ := i
  subst hop
  have hm : mode = .relative := by simpa [Instruction.isWellFormed] using hw
  subst hm
  have hholds : c.holds cpu.regs = c.holds r := by rw [hr, holds_advance]
  simp only [Instruction.microcode]
  cases h : c.holds r with
  | false =>
    have hf : (MicroOp.branchOffset c).finishes cpu = true := by
      simp only [MicroOp.finishes, hholds, h, Bool.not_false]
    simp [outcome, drain_cons_of_finishes hf, MicroOp.perform, fetchByte, hr, Registers.advance,
      execute, h, indexed_ofNat, Instruction.size, Mode.operandLength, UInt16.add_assoc]
  | true =>
    have hf : (MicroOp.branchOffset c).finishes cpu = false := by
      simp only [MicroOp.finishes, hholds, h, Bool.not_true]
    rw [outcome_cons hf, outcome_branchNear]
    simp [MicroOp.perform, fetchByte, branchTarget, hr, Registers.advance, execute, h,
      branchTarget_eq, operand, indexed_ofNat, Instruction.size, Mode.operandLength,
      UInt16.add_assoc]

/-- The transfers that go elsewhere do not ask how long the instruction was. -/
theorem outcome_of_jump {c : Control} (hop : i.operation = .control c)
    (hc : c.fallsThrough = false) (hr : cpu.regs = r.advance 1) (hn : cpu.nmi = false) :
    outcome i.microcode cpu m = execute i r m := by
  obtain ⟨mode, operation, standing⟩ := i
  subst hop
  obtain ⟨regs, latch, phase, nmi, irq, cycles⟩ := cpu
  subst hr hn
  simp only [Instruction.microcode, execute]
  cases c <;> first
    | exact absurd hc Bool.true_eq_false.mp
    | simp [Control.microcode, outcome, drain, MicroOp.finishes, MicroOp.perform, fetchByte, touch,
        push, pull, Registers.advance, Registers.stackAddress, Registers.pushed, Registers.pulled,
        Registers.assign, Registers.pushedStatus, Registers.restoreStatus, Interrupt.vector,
        transfer, pushByte, pushAddress_eq, pulledByte, stackCell_eq, operandAddress, operand,
        nextInPage_eq, indexed_ofNat, address_eq, UInt16.add_assoc, UInt8.add_assoc]

/-- The stack operations end behind the one byte they consist of. -/
theorem outcome_of_stack {c : Control} (hop : i.operation = .control c)
    (hc : c.fallsThrough = true) (hw : i.isWellFormed = true) (hr : cpu.regs = r.advance 1) :
    outcome i.microcode cpu m = execute i r m := by
  obtain ⟨mode, operation, standing⟩ := i
  subst hop
  have hm : mode = .implied := by simpa [Instruction.isWellFormed, hc] using hw
  subst hm
  obtain ⟨regs, latch, phase, nmi, irq, cycles⟩ := cpu
  subst hr
  simp only [Instruction.microcode, execute]
  cases c <;> first
    | exact absurd hc Bool.false_ne_true
    | simp [Control.microcode, outcome, drain, MicroOp.finishes, MicroOp.perform, touch, push,
        pull, Registers.advance, Registers.stackAddress, Registers.pushed, Registers.pulled,
        Registers.pushedStatus, Registers.restoreStatus, transfer, pushByte, pulledByte,
        stackCell_eq, indexed_ofNat, Instruction.size, Mode.operandLength]

end Shapes

/-! ## 6. Steps -/

/-- **Draining the microcode of an instruction does what the instruction means.** -/
theorem outcome_microcode {i : Instruction} (hw : i.isWellFormed = true)
    (hj : i.operation ≠ .jam) {r : Registers} {cpu : Cpu} (hr : cpu.regs = r.advance 1)
    (hn : cpu.nmi = false) (m : FlatMemory) :
    outcome i.microcode cpu m = execute i r m := by
  cases hop : i.operation with
  | read op => exact outcome_of_read m hop hw hr
  | write op => exact outcome_of_write m hop hw hr
  | modify op => exact outcome_of_modify m hop hw hr
  | implied op => exact outcome_of_implied m hop hw hr
  | branch c => exact outcome_of_branch m hop hw hr
  | control c =>
    cases hc : c.fallsThrough with
    | true => exact outcome_of_stack m hop hc hw hr
    | false => exact outcome_of_jump m hop hc hr hn
  | jam => exact absurd hop hj

/-- No interrupt is taken while none is requested and the line is low or held off. -/
theorem interruptToTake_eq_none {cpu : Cpu} {m : FlatMemory} (hn : cpu.nmi = false)
    (hq : cpu.irq = false)
    (hl : m.irq = false ∨ cpu.regs.has Flag.interruptDisable = true) :
    cpu.interruptToTake m = none := by
  have hline : ProcessorBus.irqLine m = m.irq := rfl
  rcases hl with h | h <;> simp [interruptToTake, hn, hq, hline, h]

/-- A step from a boundary where no interrupt is due ends at a boundary, with what the instruction
means, whatever requests are held off. -/
theorem step_interprets {cpu : Cpu} {m : FlatMemory} (hb : cpu.phase = .boundary)
    (hi : cpu.interruptToTake m = none)
    (hj : (Instruction.decode (m.peek cpu.regs.pc)).operation ≠ .jam) :
    (cpu.step m).2.1.phase = .boundary ∧
      ((cpu.step m).2.1.regs, (cpu.step m).2.2) = interpret cpu.regs m := by
  have hne : Instruction.programOf (AddressBus.read cpu.regs.pc m).1 ≠ [] := by
    rw [read_flat, Instruction.programOf_eq]
    exact microcode_ne_nil hj
  have hn : cpu.nmi = false := by
    cases h : cpu.nmi with
    | false => rfl
    | true => simp [interruptToTake, h] at hi
  have hstep := step_boundary hb hi hne
  have hfetched : cpu.fetched.regs = cpu.regs.advance 1 := rfl
  have hrun : outcome (Instruction.programOf (m.peek cpu.regs.pc)) cpu.fetched m =
      interpret cpu.regs m := by
    rw [Instruction.programOf_eq]
    exact outcome_microcode (isWellFormed_decode _) hj hfetched hn m
  simp only [read_flat] at hstep
  rw [hstep, ← hrun]
  simp only [outcome, standing_phase, standing_regs, and_self]

/-- The processor and its memory after a step. -/
def stepped (s : Cpu × FlatMemory) : Cpu × FlatMemory := (s.1.step s.2).2

/-- **One step is one instruction.**  From a boundary where no interrupt is due, the processor on
a memory of 64 KiB ends at a boundary, with the registers and the memory that the instruction under
the program counter means. -/
theorem step_eq_interpret (cpu : Cpu) (m : FlatMemory) (hb : cpu.phase = .boundary)
    (hn : cpu.nmi = false) (hq : cpu.irq = false)
    (hl : m.irq = false ∨ cpu.regs.has Flag.interruptDisable = true)
    (hj : (Instruction.decode (m.peek cpu.regs.pc)).operation ≠ .jam) :
    (cpu.step m).2.1.phase = .boundary ∧
      ((cpu.step m).2.1.regs, (cpu.step m).2.2) = interpret cpu.regs m :=
  step_interprets hb (interruptToTake_eq_none hn hq hl) hj

/-- An increment at the end of the address space, indexed into its own operand: the operand bytes
are read across the wrap, and the one at address 1 is what it changes. -/
theorem step_eq_interpret_across_wrap :
    let cpu : Cpu := { regs := { pc := 0xFFFF, x := 1 } }
    let m : FlatMemory := ({} : FlatMemory).poke 0xFFFF 0xFE
    (Instruction.decode (m.peek 0xFFFF)).operation ≠ .jam ∧
      (cpu.step m).2.1.phase = .boundary ∧
      ((cpu.step m).2.1.regs, (cpu.step m).2.2) =
        ({ cpu.regs with pc := 2 }, m.poke 0x0001 1) := by
  intro cpu m
  have hpeek : ∀ a, m.peek a = if 0xFFFF = a then 0xFE else 0 := by
    intro a
    have hblank : ({} : FlatMemory).peek a = 0 := Memory.read_filled 0 a.toNat
    rw [FlatMemory.peek_poke, hblank]
  have hdecode : Instruction.decode 0xFE = Instruction.modify .inc .absoluteX := by decide
  have hmeans : ∀ m : FlatMemory, (∀ a, m.peek a = if 0xFFFF = a then 0xFE else 0) →
      interpret cpu.regs m = ({ cpu.regs with pc := 2 }, m.poke 0x0001 1) := by
    intro m hpeek
    have hone : word 0 0 + 1 = 1 := by decide
    simp [interpret, cpu, hpeek, hdecode, Instruction.modify, execute, effectiveAddress,
      operandAddress, operand, indexed_ofNat, address_eq, hone, Instruction.size,
      Mode.operandLength, ModifyOp.apply, Registers.noteResult, Registers.assign]
    decide
  have hj : (Instruction.decode (m.peek 0xFFFF)).operation ≠ .jam := by
    rw [hpeek, if_pos rfl, hdecode]
    decide
  obtain ⟨hphase, hout⟩ := step_eq_interpret cpu m rfl rfl rfl (.inl rfl) hj
  exact ⟨hj, hphase, hout.trans (hmeans m hpeek)⟩

end Famicom.Cpu
