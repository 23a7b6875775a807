/-
# Addressing modes

A mode says how an instruction names its operand: how many bytes follow the opcode, whether an
index register takes part, and how an assembler writes it.  The bus traffic that forms the address
is in `Microcode`; here are the facts that hold of a mode by itself.
-/
import Famicom.Hex
import Famicom.Word

namespace Famicom.Cpu

/-- How an instruction names its operand. -/
inductive Mode where
  | implied
  | accumulator
  | immediate
  | zeroPage
  | zeroPageX
  | zeroPageY
  | absolute
  | absoluteX
  | absoluteY
  | indirect
  | indirectX
  | indirectY
  | relative
  deriving DecidableEq, Repr

/-- The two index registers. -/
inductive Index where
  | x
  | y
  deriving DecidableEq, Repr

namespace Mode

/-- The bytes that follow the opcode. -/
def operandLength : Mode → Nat
  | implied | accumulator => 0
  | immediate | zeroPage | zeroPageX | zeroPageY | indirectX | indirectY | relative => 1
  | absolute | absoluteX | absoluteY | indirect => 2

/-- True where the index is added to a whole address, which may carry into the next page. -/
def isIndexedAbsolute : Mode → Bool
  | absoluteX | absoluteY | indirectY => true
  | _ => false

/-- The operand as an assembler writes it.  `operand` holds the bytes after the opcode, the low one
first, and a byte that is missing counts as zero; `next` is the address after the instruction, from
which a branch counts. -/
def operandText (mode : Mode) (operand : List UInt8) (next : UInt16) : String :=
  let first := operand.headD 0
  let second := operand.tail.headD 0
  let byte := "$" ++ Hex.byte first
  let address := "$" ++ Hex.word (word first second)
  match mode with
  | implied => ""
  | accumulator => "A"
  | immediate => "#" ++ byte
  | zeroPage => byte
  | zeroPageX => byte ++ ",X"
  | zeroPageY => byte ++ ",Y"
  | absolute => address
  | absoluteX => address ++ ",X"
  | absoluteY => address ++ ",Y"
  | indirect => "(" ++ address ++ ")"
  | indirectX => "(" ++ byte ++ ",X)"
  | indirectY => "(" ++ byte ++ "),Y"
  | relative => "$" ++ Hex.word (next + displacement first)

theorem operandLength_le_two (mode : Mode) : mode.operandLength ≤ 2 := by
  cases mode <;> decide

end Mode

end Famicom.Cpu
