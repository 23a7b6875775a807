/-
# Two instructions in one

Seven of the operations that the data sheet leaves out do the work of two that it lists.  Six change
a byte of memory and hand the new byte to an operation on the accumulator; one loads two registers
with one byte.  `fusions` lists them with the two and with the modes in which all three are opcodes.

Two processors are compared that differ in nothing but the code: one is about to run the instruction
and the other the two (`Versions`).  **They end alike** (`fused_eq_pair`), because

* on the byte and the registers the one operation is the two in a row (`effect_eq_bind`): the flags
  that the first leaves are those that the second reads, and it replaces those that it sets;
* the first of the two moves no index register and writes outside the code, so that the second finds
  its bytes and the operand where they were;
* no interrupt comes in between, as nothing in the first reaches what holds one off.
-/
import Famicom.Proofs.Cpu.Flags
import Famicom.Proofs.Cpu.Interrupts
import Famicom.Proofs.Cpu.Refinement
import Famicom.Proofs.Cpu.Traffic

namespace Famicom.Cpu

open Interpreter Registers

/-! ## 1. Operations on one byte -/

/-- What an operation makes of the byte at its operand and of the registers, for the operations that
have to do with no more than these. -/
def Operation.effect : Operation → UInt8 → Registers → Option (UInt8 × Registers)
  | .read op, v, r => some (v, op.apply v r)
  | .modify op, v, r => some (op.apply v r)
  | .implied op, v, r => some (v, op.apply r)
  | .write _, _, _ | .branch _, _, _ | .control _, _, _ | .jam, _, _ => none

/-- An operation in the place of two. -/
structure Fusion where
  whole : Operation
  first : Operation
  second : Operation
  /-- The modes in which all three are opcodes. -/
  modes : List Mode
  deriving DecidableEq

/-- The second instruction names the operand again, unless it stays inside the registers. -/
def Fusion.secondMode (f : Fusion) (mode : Mode) : Mode :=
  match f.second with
  | .implied _ => .implied
  | _ => mode

/-- The modes of the operations on memory that are listed in the data sheet. -/
def modifyModes : List Mode := [.zeroPage, .zeroPageX, .absolute, .absoluteX]

/-- The operations that do the work of two. -/
def fusions : List Fusion := [
  ⟨.modify .slo, .modify .asl, .read .ora, modifyModes⟩,
  ⟨.modify .rla, .modify .rol, .read .and, modifyModes⟩,
  ⟨.modify .sre, .modify .lsr, .read .eor, modifyModes⟩,
  ⟨.modify .rra, .modify .ror, .read .adc, modifyModes⟩,
  ⟨.modify .dcp, .modify .dec, .read .cmp, modifyModes⟩,
  ⟨.modify .isb, .modify .inc, .read .sbc, modifyModes⟩,
  ⟨.read .lax, .read .lda, .implied .tax,
    [.zeroPage, .absolute, .absoluteY, .indirectX, .indirectY]⟩]

/-- **The operation is the two in a row.** -/
theorem effect_eq_bind {f : Fusion} (hf : f ∈ fusions) (v : UInt8) (r : Registers) :
    f.whole.effect v r = (f.first.effect v r).bind fun e => f.second.effect e.1 e.2 := by
  simp only [fusions, List.mem_cons, List.not_mem_nil, or_false] at hf
  rcases hf with rfl | rfl | rfl | rfl | rfl | rfl | rfl
  · rfl
  · rfl
  · rfl
  · rfl
  · exact congrArg (fun s => some (v - 1, s)) (compare_noteResult r (v - 1) r.a (v - 1)).symm
  · exact congrArg (fun s => some (v + 1, s)) (add_noteResult r (v + 1) (~~~(v + 1))).symm
  · exact congrArg (fun s => some (v, { s with x := v }))
      (noteResult_noteResult { r with a := v } v v).symm

/-- The first of the two moves no index register, and does not reach the flag that holds interrupts
off. -/
theorem first_keeps {f : Fusion} (hf : f ∈ fusions) {v : UInt8} {r : Registers}
    {e : UInt8 × Registers} (he : f.first.effect v r = some e) :
    e.2.x = r.x ∧ e.2.y = r.y ∧
      e.2.has Flag.interruptDisable = r.has Flag.interruptDisable := by
  simp only [fusions, List.mem_cons, List.not_mem_nil, or_false] at hf
  have hheld : Flag.results &&& Flag.interruptDisable = 0 := by decide
  rcases hf with rfl | rfl | rfl | rfl | rfl | rfl | rfl <;> obtain rfl := Option.some.inj he
  · exact ⟨rfl, rfl, has_modify hheld r v .asl⟩
  · exact ⟨rfl, rfl, has_modify hheld r v .rol⟩
  · exact ⟨rfl, rfl, has_modify hheld r v .lsr⟩
  · exact ⟨rfl, rfl, has_modify hheld r v .ror⟩
  · exact ⟨rfl, rfl, has_modify hheld r v .dec⟩
  · exact ⟨rfl, rfl, has_modify hheld r v .inc⟩
  · exact ⟨rfl, rfl, has_read hheld r v .lda⟩

/-! ## 2. One instruction -/

/-- The instruction at an address, and its operand bytes, counted from 1. -/
structure Holds (m : FlatMemory) (pc : UInt16) (operation : Operation) (mode : Mode)
    (bytes : Nat → UInt8) : Prop where
  operation_eq : (Instruction.decode (m.peek pc)).operation = operation
  mode_eq : (Instruction.decode (m.peek pc)).mode = mode
  operand_eq : ∀ i, 0 < i → i ≤ mode.operandLength → operand m pc i = bytes i

/-- The operations that have an effect neither stop the processor nor look at requests. -/
theorem ne_of_effect {op : Operation} {v : UInt8} {r : Registers} {e : UInt8 × Registers}
    (he : op.effect v r = some e) : op ≠ .jam ∧ op ≠ .control .brk := by
  constructor <;> rintro rfl <;> cases he

/-- An effect does not depend on where the program is. -/
theorem effect_pc (op : Operation) (v : UInt8) (r : Registers) (pc : UInt16) :
    op.effect v { r with pc } = (op.effect v r).map fun e => (e.1, { e.2 with pc }) := by
  cases op with
  | read op => exact congrArg (fun s => some (v, s)) (ReadOp.apply_pc op v r pc)
  | modify op => exact congrArg some (ModifyOp.apply_pc op v r pc)
  | implied op => exact congrArg (fun s => some (v, s)) (ImpliedOp.apply_pc op r pc)
  | _ => rfl

/-- An instruction has its effect where its operand lies, and goes on behind itself. -/
theorem execute_of_effect {i : Instruction} {r : Registers} {m : FlatMemory}
    {e : UInt8 × Registers} (hacc : i.mode ≠ .accumulator)
    (he : i.operation.effect (m.peek (effectiveAddress i.mode r m)) r = some e) :
    (execute i r m).1 = { e.2 with pc := indexed r.pc i.size } ∧
      ∀ b, (execute i r m).2.peek b =
        if effectiveAddress i.mode r m = b then e.1 else m.peek b := by
  obtain ⟨mode, operation, standing⟩ := i
  cases operation with
  | read op =>
    obtain rfl := Option.some.inj he
    refine ⟨ReadOp.apply_pc op _ r _, fun b => ?_⟩
    split
    · rename_i hab
      exact congrArg m.peek hab.symm
    · rfl
  | modify op =>
    obtain rfl := Option.some.inj he
    have hx : execute ⟨mode, .modify op, standing⟩ r m =
        let e := op.apply (m.peek (effectiveAddress mode r m))
          { r with pc := indexed r.pc (1 + mode.operandLength) }
        (e.2, m.poke (effectiveAddress mode r m) e.1) := if_neg hacc
    rw [hx, ModifyOp.apply_pc]
    exact ⟨rfl, fun b => FlatMemory.peek_poke _ _ _ _⟩
  | implied op =>
    obtain rfl := Option.some.inj he
    refine ⟨ImpliedOp.apply_pc op r _, fun b => ?_⟩
    split
    · rename_i hab
      exact congrArg m.peek hab.symm
    · rfl
  | _ => cases he

/-- What a step leaves that has an effect on the byte at its effective address. -/
structure Affected (mode : Mode) (e : UInt8 × Registers) (s t : Cpu × FlatMemory) : Prop where
  phase : t.1.phase = .boundary
  regs : t.1.regs = { e.2 with pc := indexed s.1.regs.pc (1 + mode.operandLength) }
  memory : ∀ b, t.2.peek b =
    if effectiveAddress mode s.1.regs s.2 = b then e.1 else s.2.peek b

/-- **A step of such an instruction has its effect.** -/
theorem affected_stepped {s : Cpu × FlatMemory} (hb : s.1.phase = .boundary)
    (hi : s.1.interruptToTake s.2 = none) {op : Operation} {mode : Mode} {bytes : Nat → UInt8}
    (h : Holds s.2 s.1.regs.pc op mode bytes) (hacc : mode ≠ .accumulator)
    {e : UInt8 × Registers}
    (he : op.effect (s.2.peek (effectiveAddress mode s.1.regs s.2)) s.1.regs = some e) :
    Affected mode e s (stepped s) := by
  obtain ⟨rfl, rfl, -⟩ := h
  obtain ⟨hphase, hmeans⟩ := step_interprets hb hi (ne_of_effect he).1
  obtain ⟨hregs, hmem⟩ := execute_of_effect hacc he
  exact ⟨hphase, (congrArg Prod.fst hmeans).trans hregs,
    fun b => (congrArg (fun x => x.2.peek b) hmeans).trans (hmem b)⟩

/-! ## 3. Nothing comes in between -/

theorem drain_requests {β : Type} [ProcessorBus β] {ops : List MicroOp}
    (h : MicroOp.breakPage ∉ ops) (cpu : Cpu) (bus : β) :
    (drain ops cpu bus).2.1.nmi = cpu.nmi ∧ (drain ops cpu bus).2.1.irq = cpu.irq := by
  induction ops generalizing cpu bus with
  | nil => exact ⟨rfl, rfl⟩
  | cons op rest ih =>
    rw [List.mem_cons, not_or] at h
    obtain ⟨hnmi, hirq, -⟩ := perform_requests op cpu bus
    have hop : (op != .breakPage) = true := bne_iff_ne.mpr (Ne.symm h.1)
    rw [hop, Bool.and_true] at hnmi
    cases hf : op.finishes cpu with
    | true =>
      rw [drain_cons_of_finishes hf]
      exact ⟨hnmi, hirq⟩
    | false =>
      obtain ⟨hrestNmi, hrestIrq⟩ := ih h.2 (op.perform cpu bus).1 (op.perform cpu bus).2
      rw [drain_cons hf]
      exact ⟨hrestNmi.trans hnmi, hrestIrq.trans hirq⟩

/-- An access does not reach the interrupt line of a memory. -/
theorem perform_line (op : MicroOp) (cpu : Cpu) (m : FlatMemory) :
    (op.perform cpu m).2.irq = m.irq := by
  rw [perform_snd]
  cases op.drives cpu <;> rfl

theorem drain_line (ops : List MicroOp) (cpu : Cpu) (m : FlatMemory) :
    (drain ops cpu m).2.2.irq = m.irq := by
  induction ops generalizing cpu m with
  | nil => rfl
  | cons op rest ih =>
    cases hf : op.finishes cpu with
    | true =>
      rw [drain_cons_of_finishes hf]
      exact perform_line op cpu m
    | false =>
      rw [drain_cons hf]
      exact (ih _ _).trans (perform_line op cpu m)

/-- Only the software break looks at requests. -/
theorem breakPage_notMem_microcode (opcode : UInt8)
    (h : (Instruction.decode opcode).operation ≠ .control .brk) :
    MicroOp.breakPage ∉ (Instruction.decode opcode).microcode := by
  revert h
  exact forall_byte opcode (by decide +kernel)

/-- **Where no interrupt is taken before an instruction, none is taken after it**, if it leaves the
flag that holds them off. -/
theorem quiet_stepped {s : Cpu × FlatMemory} (hb : s.1.phase = .boundary)
    (hi : s.1.interruptToTake s.2 = none)
    (hj : (Instruction.decode (s.2.peek s.1.regs.pc)).operation ≠ .jam)
    (hbrk : (Instruction.decode (s.2.peek s.1.regs.pc)).operation ≠ .control .brk)
    (hheld : (stepped s).1.regs.has Flag.interruptDisable =
      s.1.regs.has Flag.interruptDisable) :
    (stepped s).1.interruptToTake (stepped s).2 = none := by
  have hne : Instruction.programOf (AddressBus.read s.1.regs.pc s.2).1 ≠ [] := by
    rw [read_flat, Instruction.programOf_eq]
    exact microcode_ne_nil hj
  have hstep := step_boundary hb hi hne
  simp only [read_flat, Instruction.programOf_eq] at hstep
  obtain ⟨hnmi, hirq⟩ :=
    drain_requests (breakPage_notMem_microcode _ hbrk) s.1.fetched s.2
  have hline := drain_line (Instruction.decode (s.2.peek s.1.regs.pc)).microcode s.1.fetched s.2
  have hsame : (stepped s).1.interruptToTake (stepped s).2 = s.1.interruptToTake s.2 := by
    have hnmi' : (stepped s).1.nmi = s.1.nmi := by
      rw [stepped, hstep]
      exact hnmi
    have hirq' : (stepped s).1.irq = s.1.irq := by
      rw [stepped, hstep]
      exact hirq
    have hline' : ProcessorBus.irqLine (stepped s).2 = ProcessorBus.irqLine s.2 := by
      rw [stepped, hstep]
      exact hline
    simp only [interruptToTake, hnmi', hirq', hline', hheld]
  rw [hsame, hi]

/-! ## 4. The two versions -/

/-- The code of both versions: an instruction from one address on, and two from another. -/
def Fusion.Code (f : Fusion) (mode : Mode) (pc pc' a : UInt16) : Prop :=
  Stretch pc (1 + mode.operandLength) a ∨
    Stretch pc' (1 + mode.operandLength + (1 + (f.secondMode mode).operandLength)) a

/-- Two processors with the same registers, but for the program counter, and with the same memory,
but for the code. -/
structure AlikeOutside (code : UInt16 → Prop) (s t : Cpu × FlatMemory) : Prop where
  regs : t.1.regs = { s.1.regs with pc := t.1.regs.pc }
  memory : ∀ b, ¬ code b → t.2.peek b = s.2.peek b

/-- Two processors about to run the versions of a program, on the same operand bytes.  The effective
address is the same for both and lies outside the code; that it is the same needs saying only where
a pointer leads to it. -/
structure Versions (f : Fusion) (mode : Mode) (bytes : Nat → UInt8) (s t : Cpu × FlatMemory) :
    Prop where
  boundary : s.1.phase = .boundary
  boundary' : t.1.phase = .boundary
  quiet : s.1.interruptToTake s.2 = none
  quiet' : t.1.interruptToTake t.2 = none
  whole : Holds s.2 s.1.regs.pc f.whole mode bytes
  first : Holds t.2 t.1.regs.pc f.first mode bytes
  second : Holds t.2 (indexed t.1.regs.pc (1 + mode.operandLength)) f.second (f.secondMode mode)
    bytes
  alike : AlikeOutside (f.Code mode s.1.regs.pc t.1.regs.pc) s t
  outside : ¬ f.Code mode s.1.regs.pc t.1.regs.pc (effectiveAddress mode s.1.regs s.2)
  pointed : mode = .indirectX ∨ mode = .indirectY →
    effectiveAddress mode t.1.regs t.2 = effectiveAddress mode s.1.regs s.2

/-- An instruction is where its bytes are. -/
theorem Holds.congr {m m' : FlatMemory} {pc : UInt16} {operation : Operation} {mode : Mode}
    {bytes : Nat → UInt8} (h : Holds m pc operation mode bytes)
    (hsame : ∀ i < 1 + mode.operandLength, m'.peek (indexed pc i) = m.peek (indexed pc i)) :
    Holds m' pc operation mode bytes := by
  have hop : m'.peek pc = m.peek pc := by
    have h0 := hsame 0 (by omega)
    rwa [indexed_zero] at h0
  refine ⟨by rw [hop, h.operation_eq], by rw [hop, h.mode_eq], fun i hi hle => ?_⟩
  rw [operand, hsame i (by omega)]
  exact h.operand_eq i hi hle

/-- Without a pointer the effective address comes from the operand bytes and an index register. -/
theorem effectiveAddress_congr {mode : Mode} (hmode : mode ∈ modifyModes ∨ mode = .absoluteY)
    {r r' : Registers} {m m' : FlatMemory} (hx : r'.x = r.x) (hy : r'.y = r.y)
    (hbytes : ∀ i, 0 < i → i ≤ mode.operandLength → operand m' r'.pc i = operand m r.pc i) :
    effectiveAddress mode r' m' = effectiveAddress mode r m := by
  have hbyte (h : 1 ≤ mode.operandLength) : operand m' r'.pc 1 = operand m r.pc 1 :=
    hbytes 1 Nat.one_pos h
  have hword (h : 2 ≤ mode.operandLength) : operandAddress m' r'.pc = operandAddress m r.pc :=
    congrArg₂ address (hbytes 1 Nat.one_pos (by omega)) (hbytes 2 Nat.two_pos h)
  simp only [modifyModes, List.mem_cons, List.not_mem_nil, or_false] at hmode
  rcases hmode with (rfl | rfl | rfl | rfl) | rfl
  · exact congrArg (zeroPage · 0) (hbyte (by decide))
  · exact congrArg₂ zeroPage (hbyte (by decide)) (congrArg UInt8.toNat hx)
  · exact hword (by decide)
  · exact congrArg₂ indexed (hword (by decide)) (congrArg UInt8.toNat hx)
  · exact congrArg₂ indexed (hword (by decide)) (congrArg UInt8.toNat hy)

/-! ## 5. Both versions end alike -/

/-- The modes of the list lead to their operand directly or through a pointer; where the second
instruction names the operand again, it does so directly. -/
theorem modes_of_fusion {f : Fusion} (hf : f ∈ fusions) {mode : Mode} (hm : mode ∈ f.modes) :
    mode ≠ .accumulator ∧
      ((mode ∈ modifyModes ∨ mode = .absoluteY) ∨ mode = .indirectX ∨ mode = .indirectY) ∧
      ((∃ op, f.second = .read op ∧ f.secondMode mode = mode ∧ mode ∈ modifyModes) ∨
        ∃ op, f.second = .implied op ∧ f.secondMode mode = .implied) := by
  simp only [fusions, List.mem_cons, List.not_mem_nil, or_false] at hf
  have hlisted : mode ∈ modifyModes → mode ≠ .accumulator := by
    rintro hmem rfl
    exact absurd hmem (by decide)
  rcases hf with rfl | rfl | rfl | rfl | rfl | rfl | rfl
  case inr.inr.inr.inr.inr.inr =>
    simp only [List.mem_cons, List.not_mem_nil, or_false] at hm
    refine ⟨?_, ?_, .inr ⟨_, rfl, rfl⟩⟩
    · rintro rfl
      simp at hm
    · rcases hm with rfl | rfl | rfl | rfl | rfl <;> decide
  all_goals exact ⟨hlisted hm, .inl (.inl hm), .inl ⟨_, rfl, rfl, hm⟩⟩

theorem exists_effects {f : Fusion} (hf : f ∈ fusions) (v : UInt8) (r : Registers) :
    ∃ e₁ e₂, f.first.effect v r = some e₁ ∧ f.second.effect e₁.1 e₁.2 = some e₂ ∧
      f.whole.effect v r = some e₂ ∧ e₂.1 = e₁.1 := by
  have hboth : ∃ e₁ e₂, f.first.effect v r = some e₁ ∧ f.second.effect e₁.1 e₁.2 = some e₂ ∧
      e₂.1 = e₁.1 := by
    simp only [fusions, List.mem_cons, List.not_mem_nil, or_false] at hf
    rcases hf with rfl | rfl | rfl | rfl | rfl | rfl | rfl <;> exact ⟨_, _, rfl, rfl, rfl⟩
  obtain ⟨e₁, e₂, hfirst, hsecond, hkept⟩ := hboth
  refine ⟨e₁, e₂, hfirst, hsecond, ?_, hkept⟩
  rw [effect_eq_bind hf, hfirst]
  exact hsecond

namespace Versions

variable {f : Fusion} {mode : Mode} {bytes : Nat → UInt8} {s t : Cpu × FlatMemory}

/-- Both versions have the same effective address. -/
theorem address_eq (h : Versions f mode bytes s t) (hf : f ∈ fusions) (hm : mode ∈ f.modes) :
    effectiveAddress mode t.1.regs t.2 = effectiveAddress mode s.1.regs s.2 := by
  obtain ⟨-, hdirect | hpointed, -⟩ := modes_of_fusion hf hm
  · have hx : t.1.regs.x = s.1.regs.x := by rw [h.alike.regs]
    have hy : t.1.regs.y = s.1.regs.y := by rw [h.alike.regs]
    exact effectiveAddress_congr hdirect hx hy fun i hi hle =>
      (h.first.operand_eq i hi hle).trans (h.whole.operand_eq i hi hle).symm
  · exact h.pointed hpointed

/-- The first of the two instructions does its part, and the second is where it was. -/
theorem first_done (h : Versions f mode bytes s t) (hf : f ∈ fusions) (hm : mode ∈ f.modes)
    {e : UInt8 × Registers}
    (he : f.first.effect (s.2.peek (effectiveAddress mode s.1.regs s.2)) s.1.regs = some e) :
    let u := stepped t
    u.1.phase = .boundary ∧ u.1.interruptToTake u.2 = none ∧
      u.1.regs = { e.2 with pc := indexed t.1.regs.pc (1 + mode.operandLength) } ∧
      (∀ b, u.2.peek b =
        if effectiveAddress mode s.1.regs s.2 = b then e.1 else t.2.peek b) ∧
      Holds u.2 u.1.regs.pc f.second (f.secondMode mode) bytes := by
  intro u
  have haddress := h.address_eq hf hm
  have hbyte : t.2.peek (effectiveAddress mode t.1.regs t.2) =
      s.2.peek (effectiveAddress mode s.1.regs s.2) := by
    rw [haddress, h.alike.memory _ h.outside]
  have heffect : f.first.effect (t.2.peek (effectiveAddress mode t.1.regs t.2)) t.1.regs =
      some (e.1, { e.2 with pc := t.1.regs.pc }) := by
    rw [hbyte, h.alike.regs, effect_pc, he]
    rfl
  have hdone : Affected mode _ t u :=
    affected_stepped h.boundary' h.quiet' h.first (modes_of_fusion hf hm).1 heffect
  have hmemory (b : UInt16) : u.2.peek b =
      if effectiveAddress mode s.1.regs s.2 = b then e.1 else t.2.peek b := by
    rw [hdone.memory, haddress]
  refine ⟨hdone.phase, ?_, hdone.regs, hmemory, ?_⟩
  · obtain ⟨hj, hbrk⟩ := ne_of_effect he
    rw [← h.first.operation_eq] at hj hbrk
    refine quiet_stepped h.boundary' h.quiet' hj hbrk ?_
    rw [hdone.regs, h.alike.regs]
    exact (first_keeps hf he).2.2
  · have hpc : u.1.regs.pc = indexed t.1.regs.pc (1 + mode.operandLength) :=
      congrArg Registers.pc hdone.regs
    rw [hpc]
    refine h.second.congr fun i hi => ?_
    rw [hmemory, if_neg]
    intro hat
    refine h.outside (.inr ⟨1 + mode.operandLength + i, by omega, ?_⟩)
    rw [hat, indexed_indexed]

/-- The second does the rest. -/
theorem second_done (h : Versions f mode bytes s t) (hf : f ∈ fusions) (hm : mode ∈ f.modes)
    {e₁ e₂ : UInt8 × Registers}
    (he₁ : f.first.effect (s.2.peek (effectiveAddress mode s.1.regs s.2)) s.1.regs = some e₁)
    (he₂ : f.second.effect e₁.1 e₁.2 = some e₂) :
    let u := stepped t
    (stepped u).1.phase = .boundary ∧
      (stepped u).1.regs =
        { e₂.2 with pc := indexed u.1.regs.pc (1 + (f.secondMode mode).operandLength) } ∧
      ∀ b, (stepped u).2.peek b = u.2.peek b := by
  intro u
  obtain ⟨hphase, hquiet, hregs, hmemory, hholds⟩ := h.first_done hf hm he₁
  have hkept : f.second.effect e₁.1 u.1.regs = some (e₂.1, { e₂.2 with pc := u.1.regs.pc }) := by
    rw [hregs, effect_pc, he₂]
    rfl
  have hplain := modes_of_fusion hf hm
  -- What the second instruction finds at its operand it leaves there.
  have heffect : f.second.effect
      (u.2.peek (effectiveAddress (f.secondMode mode) u.1.regs u.2)) u.1.regs =
        some (u.2.peek (effectiveAddress (f.secondMode mode) u.1.regs u.2),
          { e₂.2 with pc := u.1.regs.pc }) := by
    obtain ⟨-, -, ⟨op, hop, hmode, hlisted⟩ | ⟨op, hop, hmode⟩⟩ := hplain
    · have hx : u.1.regs.x = s.1.regs.x := by rw [hregs, ← (first_keeps hf he₁).1]
      have hy : u.1.regs.y = s.1.regs.y := by rw [hregs, ← (first_keeps hf he₁).2.1]
      have haddress : effectiveAddress mode u.1.regs u.2 = effectiveAddress mode s.1.regs s.2 :=
        effectiveAddress_congr (.inl hlisted) hx hy fun i hi hle =>
          ((hmode ▸ hholds).operand_eq i hi hle).trans (h.whole.operand_eq i hi hle).symm
      have hbyte : u.2.peek (effectiveAddress mode s.1.regs s.2) = e₁.1 := by
        rw [hmemory, if_pos rfl]
      rw [hmode, haddress, hbyte, hkept]
      rw [hop] at he₂
      obtain rfl := Option.some.inj he₂
      rfl
    · rw [hop] at hkept ⊢
      exact congrArg (fun r => some (_, r)) (congrArg Prod.snd (Option.some.inj hkept))
  have hacc : f.secondMode mode ≠ .accumulator := by
    obtain ⟨hne, -, ⟨op, hop, hmode, hlisted⟩ | ⟨op, hop, hmode⟩⟩ := hplain
    · rwa [hmode]
    · rw [hmode]
      exact nofun
  have hdone := affected_stepped hphase hquiet hholds hacc heffect
  refine ⟨hdone.phase, hdone.regs, fun b => ?_⟩
  rw [hdone.memory]
  split
  · rename_i hat
    rw [hat]
  · rfl

end Versions

/-- There is an opcode for the operation in the mode. -/
def IsInstruction (operation : Operation) (mode : Mode) : Prop :=
  ∃ opcode, (Instruction.decode opcode).operation = operation ∧
    (Instruction.decode opcode).mode = mode

/-- In the modes of the list there are all three instructions. -/
theorem isInstruction_of_fusion {f : Fusion} (hf : f ∈ fusions) {mode : Mode}
    (hm : mode ∈ f.modes) :
    IsInstruction f.whole mode ∧ IsInstruction f.first mode ∧
      IsInstruction f.second (f.secondMode mode) := by
  -- There are finitely many opcodes, so the table can be asked.
  let found (operation : Operation) (mode : Mode) : Prop :=
    ∃ n : Fin 256, (Instruction.decode (.ofNat n.val)).operation = operation ∧
      (Instruction.decode (.ofNat n.val)).mode = mode
  have hall : ∀ f ∈ fusions, ∀ mode ∈ f.modes,
      found f.whole mode ∧ found f.first mode ∧ found f.second (f.secondMode mode) := by
    decide +kernel
  have hone {operation : Operation} {mode : Mode} :
      found operation mode → IsInstruction operation mode
    | ⟨_, hn⟩ => ⟨_, hn⟩
  obtain ⟨hwhole, hfirst, hsecond⟩ := hall f hf mode hm
  exact ⟨hone hwhole, hone hfirst, hone hsecond⟩

/-- **The instruction leaves what the two leave**, in whatever registers and memory and on whatever
operand bytes, and all three are opcodes in the modes of the list.  Between the two no interrupt is
taken, and each version ends behind its own code. -/
theorem fused_eq_pair {f : Fusion} (hf : f ∈ fusions) {mode : Mode} (hm : mode ∈ f.modes) :
    (IsInstruction f.whole mode ∧ IsInstruction f.first mode ∧
      IsInstruction f.second (f.secondMode mode)) ∧
    ∀ (bytes : Nat → UInt8) (s t : Cpu × FlatMemory), Versions f mode bytes s t →
      (stepped s).1.phase = .boundary ∧ (stepped t).1.phase = .boundary ∧
      (stepped t).1.interruptToTake (stepped t).2 = none ∧
      (stepped (stepped t)).1.phase = .boundary ∧
      AlikeOutside (f.Code mode s.1.regs.pc t.1.regs.pc) (stepped s) (stepped (stepped t)) ∧
      (stepped s).1.regs.pc = indexed s.1.regs.pc (1 + mode.operandLength) ∧
      (stepped (stepped t)).1.regs.pc = indexed t.1.regs.pc
        (1 + mode.operandLength + (1 + (f.secondMode mode).operandLength)) := by
  refine ⟨isInstruction_of_fusion hf hm, fun bytes s t h => ?_⟩
  obtain ⟨e₁, e₂, hfirst, hsecond, hwhole, hkept⟩ :=
    exists_effects hf (s.2.peek (effectiveAddress mode s.1.regs s.2)) s.1.regs
  have hdone := affected_stepped h.boundary h.quiet h.whole (modes_of_fusion hf hm).1 hwhole
  obtain ⟨hphase, hquiet, hregs, hmemory, -⟩ := h.first_done hf hm hfirst
  obtain ⟨hphase', hregs', hmemory'⟩ := h.second_done hf hm hfirst hsecond
  refine ⟨hdone.phase, hphase, hquiet, hphase', ⟨?_, fun b hb => ?_⟩, ?_, ?_⟩
  · rw [hregs', hdone.regs]
  · rw [hmemory', hmemory, hdone.memory, hkept, h.alike.memory b hb]
  · rw [hdone.regs]
  · rw [hregs', hregs, indexed_indexed]

/-- An increment with its subtraction, in code that goes on at address 0 behind the end of the
address space. -/
theorem fused_eq_pair_across_wrap :
    let s : Cpu × FlatMemory := ({ regs := { pc := 0xFFFF, a := 0x50 } },
      ((({} : FlatMemory).poke 0x10 0x7F).poke 0xFFFF 0xE7).poke 0 0x10)
    let t : Cpu × FlatMemory := ({ regs := { pc := 0xFFFF, a := 0x50 } },
      ((((({} : FlatMemory).poke 0x10 0x7F).poke 0xFFFF 0xE6).poke 0 0x10).poke 1 0xE5).poke 2 0x10)
    let f : Fusion := ⟨.modify .isb, .modify .inc, .read .sbc, modifyModes⟩
    f ∈ fusions ∧ .zeroPage ∈ f.modes ∧ Versions f .zeroPage (fun _ => 0x10) s t ∧
      AlikeOutside (f.Code .zeroPage 0xFFFF 0xFFFF) (stepped s) (stepped (stepped t)) ∧
      (stepped s).1.regs.pc = 1 ∧ (stepped (stepped t)).1.regs.pc = 3 := by
  intro s t f
  have hf : f ∈ fusions := by decide
  have hm : Mode.zeroPage ∈ f.modes := by decide
  have hs (a : UInt16) : s.2.peek a =
      if 0 = a then 0x10 else if 0xFFFF = a then 0xE7 else if 0x10 = a then 0x7F else 0 := by
    have hblank : ({} : FlatMemory).peek a = 0 := Memory.read_filled 0 a.toNat
    simp only [s, FlatMemory.peek_poke, hblank]
  have ht (a : UInt16) : t.2.peek a =
      if 2 = a then 0x10 else if 1 = a then 0xE5 else if 0 = a then 0x10
        else if 0xFFFF = a then 0xE6 else if 0x10 = a then 0x7F else 0 := by
    have hblank : ({} : FlatMemory).peek a = 0 := Memory.read_filled 0 a.toNat
    simp only [t, FlatMemory.peek_poke, hblank]
  have hcode (a : UInt16) (ha : ¬ f.Code .zeroPage 0xFFFF 0xFFFF a) :
      2 ≠ a ∧ 1 ≠ a ∧ 0 ≠ a ∧ 0xFFFF ≠ a := by
    refine ⟨?_, ?_, ?_, ?_⟩ <;> rintro rfl <;> refine ha (.inr ?_)
    · exact ⟨3, by decide, by decide⟩
    · exact ⟨2, by decide, by decide⟩
    · exact ⟨1, by decide, by decide⟩
    · exact ⟨0, by decide, by decide⟩
  have hholds (m : FlatMemory) (pc : UInt16) (operation : Operation)
      (hop : (Instruction.decode (m.peek pc)).operation = operation)
      (hmode : (Instruction.decode (m.peek pc)).mode = .zeroPage)
      (hbyte : m.peek (indexed pc 1) = 0x10) : Holds m pc operation .zeroPage fun _ => 0x10 := by
    refine ⟨hop, hmode, fun i hi hle => ?_⟩
    have hone : i = 1 := Nat.le_antisymm hle hi
    rw [hone, operand, hbyte]
  have haddress : effectiveAddress .zeroPage s.1.regs s.2 = 0x10 := by
    change zeroPage (s.2.peek (indexed 0xFFFF 1)) 0 = 0x10
    rw [hs]
    decide
  have hversions : Versions f .zeroPage (fun _ => 0x10) s t := by
    refine ⟨rfl, rfl, rfl, rfl, ?_, ?_, ?_, ⟨rfl, fun b hb => ?_⟩, ?_, ?_⟩
    · exact hholds s.2 0xFFFF _ (by rw [hs]; decide) (by rw [hs]; decide) (by rw [hs]; decide)
    · exact hholds t.2 0xFFFF _ (by rw [ht]; decide) (by rw [ht]; decide) (by rw [ht]; decide)
    · exact hholds t.2 (indexed 0xFFFF 2) _ (by rw [ht]; decide) (by rw [ht]; decide)
        (by rw [ht]; decide)
    · obtain ⟨h2, h1, h0, hlast⟩ := hcode b hb
      rw [hs, ht, if_neg h2, if_neg h1, if_neg h0, if_neg hlast, if_neg h0, if_neg hlast]
    · rw [haddress]
      have happart : ∀ i < 4, (0x10 : UInt16) ≠ indexed 0xFFFF i := by decide
      rintro (⟨i, hi, h⟩ | ⟨i, hi, h⟩)
      · exact happart i (Nat.lt_trans hi (by decide)) h
      · exact happart i hi h
    · rintro (h | h) <;> cases h
  obtain ⟨-, -, -, -, halike, hpc, hpc'⟩ := (fused_eq_pair hf hm).2 _ s t hversions
  exact ⟨hf, hm, hversions, halike, hpc.trans (by decide), hpc'.trans (by decide)⟩

end Famicom.Cpu
