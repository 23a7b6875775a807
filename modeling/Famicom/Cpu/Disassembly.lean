/-
# Listings

A listing shows a stretch of memory as instructions, one to a line: the address, the bytes, the
name and the operand.

    8000  A9 10     LDA #$10
    8002  A7 44    *LAX $44
    8004  4C 00 ??  JMP

A star marks an instruction that the data sheet leaves out.  Where the bytes end inside an
instruction the missing ones are shown as `??`, and the operand, which would be a guess, is left
out.

There are two ways to come by the bytes: `disassemble` walks a list of them to its end, and
`disassembleFrom` asks a memory for as many instructions as are wanted.  Both decode a line the
same way, so they differ only where the list runs out.
-/
import Famicom.Cpu.Opcode

namespace Famicom.Cpu

/-- One line of a listing: the bytes at hand for the instruction at an address.  The first of them
is its opcode. -/
structure Line where
  address : UInt16
  opcode : UInt8
  operand : List UInt8
  deriving DecidableEq, Repr

namespace Line

def instruction (l : Line) : Instruction := Instruction.decode l.opcode

/-- The bytes shown on the line. -/
def bytes (l : Line) : List UInt8 := l.opcode :: l.operand

/-- True when no byte of the instruction is missing. -/
def isComplete (l : Line) : Bool := l.bytes.length == l.instruction.size

/-- The operand as an assembler writes it, or nothing if a byte of it is missing. -/
def operandText (l : Line) : String :=
  if l.isComplete then
    l.instruction.mode.operandText l.operand (l.address + .ofNat l.instruction.size)
  else ""

/-- One of the three byte columns. -/
def column (l : Line) (i : Nat) : String :=
  match l.bytes[i]? with
  | some b => Hex.byte b ++ " "
  | none => if i < l.instruction.size then "?? " else "   "

def render (l : Line) : String :=
  let operand := l.operandText
  Hex.word l.address ++ "  " ++ l.column 0 ++ l.column 1 ++ l.column 2
    ++ (if l.instruction.isIllegal then "*" else " ") ++ l.instruction.mnemonic
    ++ (if operand.isEmpty then "" else " " ++ operand)

end Line

/-- The lines of a program whose first byte lies at `address`.  An instruction takes at least its
opcode, so every line leaves fewer bytes than it found. -/
def linesOf (address : UInt16) : List UInt8 → List Line
  | [] => []
  | opcode :: rest =>
    let length := (Instruction.decode opcode).mode.operandLength
    ⟨address, opcode, rest.take length⟩ ::
      linesOf (address + .ofNat (1 + length)) (rest.drop length)
termination_by bytes => bytes.length
decreasing_by simp only [List.length_drop, List.length_cons]; omega

/-- The `count` lines of a memory from an address on; addresses wrap. -/
def linesFrom (peek : UInt16 → UInt8) : UInt16 → Nat → List Line
  | _, 0 => []
  | address, count + 1 =>
    let opcode := peek address
    let length := (Instruction.decode opcode).mode.operandLength
    let operand := (List.range length).map fun i => peek (address + 1 + .ofNat i)
    ⟨address, opcode, operand⟩ :: linesFrom peek (address + .ofNat (1 + length)) count

/-- The listing of a program loaded at `base`. -/
def disassemble (bytes : List UInt8) (base : UInt16) : List String :=
  (linesOf base bytes).map Line.render

/-- The listing of `count` instructions of a memory, none of which is clocked by it. -/
def disassembleFrom (peek : UInt16 → UInt8) (start : UInt16) (count : Nat) : List String :=
  (linesFrom peek start count).map Line.render

end Famicom.Cpu
