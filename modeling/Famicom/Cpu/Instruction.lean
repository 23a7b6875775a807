/-
# Instructions

An instruction is an operation in an addressing mode.  Its length and its duration follow from
those two, so neither is stored: **an entry of the opcode table cannot disagree with itself**.  The
duration given here is the least one; an indexed read that crosses a page and a branch that is
taken spend more, and `Microcode` says when.
-/
import Famicom.Cpu.Mode
import Famicom.Cpu.Operation

namespace Famicom.Cpu

/-- The operation of an instruction, by shape. -/
inductive Operation where
  | read (op : ReadOp)
  | write (op : WriteOp)
  | modify (op : ModifyOp)
  | implied (op : ImpliedOp)
  | branch (condition : Condition)
  | control (transfer : Control)
  /-- Stops the processor until it is reset. -/
  | jam
  deriving DecidableEq, Repr

/-- Whether the makers documented an instruction, and whether chips agree on what it does. -/
inductive Standing where
  | documented
  | undocumented
  | unstable
  deriving DecidableEq, Repr

/-- An entry of the opcode table. -/
structure Instruction where
  mode : Mode
  operation : Operation
  standing : Standing := .documented
  deriving DecidableEq, Repr

/-! ## 1. Names -/

/-- The name an assembler gives the operation. -/
def ReadOp.mnemonic : ReadOp → String
  | lda => "LDA" | ldx => "LDX" | ldy => "LDY"
  | and => "AND" | ora => "ORA" | eor => "EOR" | bit => "BIT"
  | adc => "ADC" | sbc => "SBC" | cmp => "CMP" | cpx => "CPX" | cpy => "CPY"
  | nop => "NOP" | lax => "LAX"
  | anc => "ANC" | alr => "ALR" | arr => "ARR" | xaa => "XAA" | lxa => "LXA"
  | axs => "AXS" | las => "LAS"

@[inherit_doc ReadOp.mnemonic]
def WriteOp.mnemonic : WriteOp → String
  | sta => "STA" | stx => "STX" | sty => "STY" | sax => "SAX"
  | shy => "SHY" | shx => "SHX" | ahx => "AHX" | tas => "TAS"

@[inherit_doc ReadOp.mnemonic]
def ModifyOp.mnemonic : ModifyOp → String
  | asl => "ASL" | lsr => "LSR" | rol => "ROL" | ror => "ROR" | inc => "INC" | dec => "DEC"
  | slo => "SLO" | rla => "RLA" | sre => "SRE" | rra => "RRA" | dcp => "DCP" | isb => "ISB"

@[inherit_doc ReadOp.mnemonic]
def ImpliedOp.mnemonic : ImpliedOp → String
  | tax => "TAX" | tay => "TAY" | txa => "TXA" | tya => "TYA" | tsx => "TSX" | txs => "TXS"
  | inx => "INX" | iny => "INY" | dex => "DEX" | dey => "DEY"
  | clc => "CLC" | sec => "SEC" | cli => "CLI" | sei => "SEI"
  | clv => "CLV" | cld => "CLD" | sed => "SED"
  | nop => "NOP"

@[inherit_doc ReadOp.mnemonic]
def Condition.mnemonic : Condition → String
  | bpl => "BPL" | bmi => "BMI" | bvc => "BVC" | bvs => "BVS"
  | bcc => "BCC" | bcs => "BCS" | bne => "BNE" | beq => "BEQ"

@[inherit_doc ReadOp.mnemonic]
def Control.mnemonic : Control → String
  | brk => "BRK" | jsr => "JSR" | rts => "RTS" | rti => "RTI"
  | jump => "JMP" | jumpIndirect => "JMP"
  | pha => "PHA" | php => "PHP" | pla => "PLA" | plp => "PLP"

@[inherit_doc ReadOp.mnemonic]
def Operation.mnemonic : Operation → String
  | read op => op.mnemonic
  | write op => op.mnemonic
  | modify op => op.mnemonic
  | implied op => op.mnemonic
  | branch condition => condition.mnemonic
  | control transfer => transfer.mnemonic
  | jam => "JAM"

/-! ## 2. Length and duration -/

namespace Instruction

@[inherit_doc ReadOp.mnemonic]
def mnemonic (i : Instruction) : String := i.operation.mnemonic

/-- The bytes the instruction occupies, its opcode included. -/
def size (i : Instruction) : Nat := 1 + i.mode.operandLength

/-- True for instructions outside the documented set; a listing marks them. -/
def isIllegal (i : Instruction) : Bool := i.standing != .documented

/-- True for instructions on which chips disagree. -/
def isUnstable (i : Instruction) : Bool := i.standing == .unstable

/-- The least number of cycles the instruction takes. -/
def cycles (i : Instruction) : Nat :=
  match i.operation with
  | .implied _ | .branch _ | .jam => 2
  | .control transfer =>
    match transfer with
    | .brk => 7
    | .jsr | .rts | .rti => 6
    | .jump => 3
    | .jumpIndirect => 5
    | .pha | .php => 3
    | .pla | .plp => 4
  | .read _ =>
    match i.mode with
    | .zeroPage => 3
    | .zeroPageX | .zeroPageY | .absolute | .absoluteX | .absoluteY => 4
    | .indirectX => 6
    | .indirectY => 5
    | _ => 2
  | .write _ =>
    match i.mode with
    | .zeroPage => 3
    | .zeroPageX | .zeroPageY | .absolute => 4
    | .absoluteX | .absoluteY => 5
    | .indirectX | .indirectY => 6
    | _ => 2
  | .modify _ =>
    match i.mode with
    | .zeroPage => 5
    | .zeroPageX | .absolute => 6
    | .absoluteX | .absoluteY => 7
    | .indirectX | .indirectY => 8
    | _ => 2

theorem size_pos (i : Instruction) : 0 < i.size := by
  simp only [size]; omega

theorem size_le_three (i : Instruction) : i.size ≤ 3 := by
  have := i.mode.operandLength_le_two
  simp only [size]; omega

end Instruction

end Famicom.Cpu
