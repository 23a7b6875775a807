/-
# The opcode table

Every one of the 256 byte values means something to the processor.  151 of them are the documented
instructions, twelve stop it, and the rest are what the decoding logic happens to do with the
remaining patterns; thirteen of those differ from chip to chip.

The table is the sixteen-by-sixteen matrix of the data sheet, row by row.  Reading it cannot fail:
the row and the column of a byte always exist.
-/
import Famicom.Cpu.Instruction

namespace Famicom.Cpu

namespace Instruction

/-! ## 1. Entries by shape -/

def read (op : ReadOp) (mode : Mode) : Instruction := { mode, operation := .read op }

def write (op : WriteOp) (mode : Mode) : Instruction := { mode, operation := .write op }

def modify (op : ModifyOp) (mode : Mode) : Instruction := { mode, operation := .modify op }

def implied (op : ImpliedOp) : Instruction := { mode := .implied, operation := .implied op }

def branch (c : Condition) : Instruction := { mode := .relative, operation := .branch c }

def control (c : Control) (mode : Mode) : Instruction := { mode, operation := .control c }

def jam : Instruction := { mode := .implied, operation := .jam, standing := .undocumented }

/-- The entry, marked as missing from the data sheet. -/
def undocumented (i : Instruction) : Instruction := { i with standing := .undocumented }

/-- The entry, marked as differing from chip to chip. -/
def unstable (i : Instruction) : Instruction := { i with standing := .unstable }

/-! ## 2. The matrix -/

/-- What each opcode means: its high digit is the row and its low digit the column. -/
def matrix : Vector (Vector Instruction 16) 16 := #v[
  -- $00 to $0F
  #v[
    control .brk .implied, read .ora .indirectX, jam, (modify .slo .indirectX).undocumented,
    (read .nop .zeroPage).undocumented, read .ora .zeroPage, modify .asl .zeroPage,
    (modify .slo .zeroPage).undocumented, control .php .implied, read .ora .immediate,
    modify .asl .accumulator, (read .anc .immediate).unstable, (read .nop .absolute).undocumented,
    read .ora .absolute, modify .asl .absolute, (modify .slo .absolute).undocumented],
  -- $10 to $1F
  #v[
    branch .bpl, read .ora .indirectY, jam, (modify .slo .indirectY).undocumented,
    (read .nop .zeroPageX).undocumented, read .ora .zeroPageX, modify .asl .zeroPageX,
    (modify .slo .zeroPageX).undocumented, implied .clc, read .ora .absoluteY,
    (implied .nop).undocumented, (modify .slo .absoluteY).undocumented,
    (read .nop .absoluteX).undocumented, read .ora .absoluteX, modify .asl .absoluteX,
    (modify .slo .absoluteX).undocumented],
  -- $20 to $2F
  #v[
    control .jsr .absolute, read .and .indirectX, jam, (modify .rla .indirectX).undocumented,
    read .bit .zeroPage, read .and .zeroPage, modify .rol .zeroPage,
    (modify .rla .zeroPage).undocumented, control .plp .implied, read .and .immediate,
    modify .rol .accumulator, (read .anc .immediate).unstable, read .bit .absolute,
    read .and .absolute, modify .rol .absolute, (modify .rla .absolute).undocumented],
  -- $30 to $3F
  #v[
    branch .bmi, read .and .indirectY, jam, (modify .rla .indirectY).undocumented,
    (read .nop .zeroPageX).undocumented, read .and .zeroPageX, modify .rol .zeroPageX,
    (modify .rla .zeroPageX).undocumented, implied .sec, read .and .absoluteY,
    (implied .nop).undocumented, (modify .rla .absoluteY).undocumented,
    (read .nop .absoluteX).undocumented, read .and .absoluteX, modify .rol .absoluteX,
    (modify .rla .absoluteX).undocumented],
  -- $40 to $4F
  #v[
    control .rti .implied, read .eor .indirectX, jam, (modify .sre .indirectX).undocumented,
    (read .nop .zeroPage).undocumented, read .eor .zeroPage, modify .lsr .zeroPage,
    (modify .sre .zeroPage).undocumented, control .pha .implied, read .eor .immediate,
    modify .lsr .accumulator, (read .alr .immediate).unstable, control .jump .absolute,
    read .eor .absolute, modify .lsr .absolute, (modify .sre .absolute).undocumented],
  -- $50 to $5F
  #v[
    branch .bvc, read .eor .indirectY, jam, (modify .sre .indirectY).undocumented,
    (read .nop .zeroPageX).undocumented, read .eor .zeroPageX, modify .lsr .zeroPageX,
    (modify .sre .zeroPageX).undocumented, implied .cli, read .eor .absoluteY,
    (implied .nop).undocumented, (modify .sre .absoluteY).undocumented,
    (read .nop .absoluteX).undocumented, read .eor .absoluteX, modify .lsr .absoluteX,
    (modify .sre .absoluteX).undocumented],
  -- $60 to $6F
  #v[
    control .rts .implied, read .adc .indirectX, jam, (modify .rra .indirectX).undocumented,
    (read .nop .zeroPage).undocumented, read .adc .zeroPage, modify .ror .zeroPage,
    (modify .rra .zeroPage).undocumented, control .pla .implied, read .adc .immediate,
    modify .ror .accumulator, (read .arr .immediate).unstable, control .jumpIndirect .indirect,
    read .adc .absolute, modify .ror .absolute, (modify .rra .absolute).undocumented],
  -- $70 to $7F
  #v[
    branch .bvs, read .adc .indirectY, jam, (modify .rra .indirectY).undocumented,
    (read .nop .zeroPageX).undocumented, read .adc .zeroPageX, modify .ror .zeroPageX,
    (modify .rra .zeroPageX).undocumented, implied .sei, read .adc .absoluteY,
    (implied .nop).undocumented, (modify .rra .absoluteY).undocumented,
    (read .nop .absoluteX).undocumented, read .adc .absoluteX, modify .ror .absoluteX,
    (modify .rra .absoluteX).undocumented],
  -- $80 to $8F
  #v[
    (read .nop .immediate).undocumented, write .sta .indirectX,
    (read .nop .immediate).undocumented, (write .sax .indirectX).undocumented,
    write .sty .zeroPage, write .sta .zeroPage, write .stx .zeroPage,
    (write .sax .zeroPage).undocumented, implied .dey, (read .nop .immediate).undocumented,
    implied .txa, (read .xaa .immediate).unstable, write .sty .absolute, write .sta .absolute,
    write .stx .absolute, (write .sax .absolute).undocumented],
  -- $90 to $9F
  #v[
    branch .bcc, write .sta .indirectY, jam, (write .ahx .indirectY).unstable,
    write .sty .zeroPageX, write .sta .zeroPageX, write .stx .zeroPageY,
    (write .sax .zeroPageY).undocumented, implied .tya, write .sta .absoluteY, implied .txs,
    (write .tas .absoluteY).unstable, (write .shy .absoluteX).unstable, write .sta .absoluteX,
    (write .shx .absoluteY).unstable, (write .ahx .absoluteY).unstable],
  -- $A0 to $AF
  #v[
    read .ldy .immediate, read .lda .indirectX, read .ldx .immediate,
    (read .lax .indirectX).undocumented, read .ldy .zeroPage, read .lda .zeroPage,
    read .ldx .zeroPage, (read .lax .zeroPage).undocumented, implied .tay, read .lda .immediate,
    implied .tax, (read .lxa .immediate).unstable, read .ldy .absolute, read .lda .absolute,
    read .ldx .absolute, (read .lax .absolute).undocumented],
  -- $B0 to $BF
  #v[
    branch .bcs, read .lda .indirectY, jam, (read .lax .indirectY).undocumented,
    read .ldy .zeroPageX, read .lda .zeroPageX, read .ldx .zeroPageY,
    (read .lax .zeroPageY).undocumented, implied .clv, read .lda .absoluteY, implied .tsx,
    (read .las .absoluteY).unstable, read .ldy .absoluteX, read .lda .absoluteX,
    read .ldx .absoluteY, (read .lax .absoluteY).undocumented],
  -- $C0 to $CF
  #v[
    read .cpy .immediate, read .cmp .indirectX, (read .nop .immediate).undocumented,
    (modify .dcp .indirectX).undocumented, read .cpy .zeroPage, read .cmp .zeroPage,
    modify .dec .zeroPage, (modify .dcp .zeroPage).undocumented, implied .iny,
    read .cmp .immediate, implied .dex, (read .axs .immediate).unstable, read .cpy .absolute,
    read .cmp .absolute, modify .dec .absolute, (modify .dcp .absolute).undocumented],
  -- $D0 to $DF
  #v[
    branch .bne, read .cmp .indirectY, jam, (modify .dcp .indirectY).undocumented,
    (read .nop .zeroPageX).undocumented, read .cmp .zeroPageX, modify .dec .zeroPageX,
    (modify .dcp .zeroPageX).undocumented, implied .cld, read .cmp .absoluteY,
    (implied .nop).undocumented, (modify .dcp .absoluteY).undocumented,
    (read .nop .absoluteX).undocumented, read .cmp .absoluteX, modify .dec .absoluteX,
    (modify .dcp .absoluteX).undocumented],
  -- $E0 to $EF
  #v[
    read .cpx .immediate, read .sbc .indirectX, (read .nop .immediate).undocumented,
    (modify .isb .indirectX).undocumented, read .cpx .zeroPage, read .sbc .zeroPage,
    modify .inc .zeroPage, (modify .isb .zeroPage).undocumented, implied .inx,
    read .sbc .immediate, implied .nop, (read .sbc .immediate).undocumented, read .cpx .absolute,
    read .sbc .absolute, modify .inc .absolute, (modify .isb .absolute).undocumented],
  -- $F0 to $FF
  #v[
    branch .beq, read .sbc .indirectY, jam, (modify .isb .indirectY).undocumented,
    (read .nop .zeroPageX).undocumented, read .sbc .zeroPageX, modify .inc .zeroPageX,
    (modify .isb .zeroPageX).undocumented, implied .sed, read .sbc .absoluteY,
    (implied .nop).undocumented, (modify .isb .absoluteY).undocumented,
    (read .nop .absoluteX).undocumented, read .sbc .absoluteX, modify .inc .absoluteX,
    (modify .isb .absoluteX).undocumented]]

/-- The instruction an opcode stands for. -/
def decode (opcode : UInt8) : Instruction :=
  have hRow : opcode.toNat / 16 < 16 := by have := opcode.toNat_lt; omega
  have hColumn : opcode.toNat % 16 < 16 := Nat.mod_lt _ (by decide)
  matrix[opcode.toNat / 16][opcode.toNat % 16]

end Instruction

end Famicom.Cpu
