/-
# Reading a listing

A line of a listing is text, and its parts stand in columns that do not move:

    0     6        15   20
    8002  A7 44    *LAX $44
    8004  4C 00 ??  JMP

This file reads them.  `Printed` holds the readers; they know of characters and of hexadecimal
digits and of nothing else.  Then they are applied to a line that was written (`Line.render`):
**what is read is what was put there**, the address, the bytes, the mark and the operand, and a
question mark stands only for a byte that is missing.
-/
import Famicom.Cpu.Disassembly
import Mathlib.Data.List.Basic

namespace Famicom

/-! ## 1. Hexadecimal numbers -/

namespace Hex

/-- The value of a digit. -/
def value (c : Char) : Option Nat :=
  if '0' ≤ c ∧ c ≤ '9' then some (c.toNat - '0'.toNat)
  else if 'A' ≤ c ∧ c ≤ 'F' then some (c.toNat - 'A'.toNat + 10)
  else none

/-- The number that digits stand for behind those of another number, if all of them are digits. -/
def number (above : Nat) : List Char → Option Nat
  | [] => some above
  | c :: rest => (value c).bind fun d => number (16 * above + d) rest

theorem value_digit {n : Nat} (h : n < 16) : value (digit n) = some n := by
  have hall : ∀ n < 16, value (digit n) = some n := by decide
  exact hall n h

theorem toList_byte (b : UInt8) :
    (byte b).toList = [digit (b.toNat / 16), digit (b.toNat % 16)] := by
  simp [byte]

theorem toList_word (w : UInt16) :
    (word w).toList = (byte (highByte w)).toList ++ (byte (lowByte w)).toList :=
  String.toList_append ..

theorem number_byte_append (above : Nat) (b : UInt8) (rest : List Char) :
    number above ((byte b).toList ++ rest) = number (256 * above + b.toNat) rest := by
  have hb := b.toNat_lt
  have hsum : 16 * (16 * above + b.toNat / 16) + b.toNat % 16 = 256 * above + b.toNat := by omega
  rw [toList_byte, List.cons_append, List.cons_append, List.nil_append, number,
    value_digit (by omega), Option.bind_some, number, value_digit (by omega), Option.bind_some,
    hsum]

/-- A byte reads back. -/
theorem number_byte (b : UInt8) : number 0 (byte b).toList = some b.toNat := by
  have hread := number_byte_append 0 b []
  rwa [List.append_nil, Nat.mul_zero, Nat.zero_add] at hread

/-- An address reads back. -/
theorem number_word (w : UInt16) : number 0 (word w).toList = some w.toNat := by
  have hsum : 256 * (256 * 0 + (highByte w).toNat) + (lowByte w).toNat = w.toNat := by
    rw [toNat_highByte, toNat_lowByte]
    omega
  have hread := number_byte_append (256 * 0 + (highByte w).toNat) (lowByte w) []
  rw [List.append_nil, hsum] at hread
  rw [toList_word, number_byte_append, hread, number]

/-- Every digit of a byte is one. -/
theorem isSome_value_of_mem {b : UInt8} {c : Char} (h : c ∈ (byte b).toList) :
    (value c).isSome = true := by
  have hb := b.toNat_lt
  rw [toList_byte, List.mem_cons, List.mem_singleton] at h
  rcases h with rfl | rfl
  · rw [value_digit (by omega)]
    rfl
  · rw [value_digit (by omega)]
    rfl

/-- What is no digit is in no byte. -/
theorem notMem_byte {c : Char} (hc : value c = none) (b : UInt8) : c ∉ (byte b).toList := by
  intro hmem
  have hsome := isSome_value_of_mem hmem
  rw [hc] at hsome
  cases hsome

theorem notMem_word {c : Char} (hc : value c = none) (w : UInt16) : c ∉ (word w).toList := by
  rw [toList_word, List.mem_append, not_or]
  exact ⟨notMem_byte hc _, notMem_byte hc _⟩

end Hex

namespace Cpu

/-! ## 2. The columns of a line -/

namespace Printed

/-- The number in the address column. -/
def address (text : String) : Option Nat := Hex.number 0 (text.toList.take 4)

/-- The two characters of one of the three byte columns. -/
def field (text : String) (i : Nat) : List Char := (text.toList.drop (6 + 3 * i)).take 2

/-- The bytes shown in their columns. -/
def bytes (text : String) : List UInt8 :=
  (List.range 3).filterMap fun i => (Hex.number 0 (field text i)).map UInt8.ofNat

/-- The columns that show a byte to be missing. -/
def missing (text : String) : Nat := (List.range 3).countP fun i => field text i == ['?', '?']

/-- The mark in front of the name. -/
def mark (text : String) : Option Char := text.toList[15]?

/-- What is behind the name. -/
def operand (text : String) : List Char := text.toList.drop 20

/-- The address that an operand names behind its dollar sign. -/
def target (text : String) : Option Nat :=
  match operand text with
  | '$' :: digits => Hex.number 0 digits
  | _ => none

end Printed

namespace Line

/-- What a byte column holds. -/
def digits (l : Line) (i : Nat) : List Char :=
  match l.bytes[i]? with
  | some b => (Hex.byte b).toList
  | none => if i < l.instruction.size then ['?', '?'] else [' ', ' ']

theorem toList_column (l : Line) (i : Nat) : (l.column i).toList = l.digits i ++ [' '] := by
  unfold column digits
  cases l.bytes[i]? with
  | some b => exact String.toList_append ..
  | none => by_cases h : i < l.instruction.size <;> simp [h]

/-- A column shows a byte, or that it is missing, or that there is none. -/
theorem digits_cases (l : Line) (i : Nat) :
    (∃ b, l.bytes[i]? = some b ∧ l.digits i = (Hex.byte b).toList) ∨
      (l.bytes[i]? = none ∧ i < l.instruction.size ∧ l.digits i = ['?', '?']) ∨
      (l.bytes[i]? = none ∧ ¬ i < l.instruction.size ∧ l.digits i = [' ', ' ']) := by
  unfold digits
  cases l.bytes[i]? with
  | some b => exact .inl ⟨b, rfl, rfl⟩
  | none =>
    by_cases hsize : i < l.instruction.size
    · exact .inr (.inl ⟨rfl, hsize, if_pos hsize⟩)
    · exact .inr (.inr ⟨rfl, hsize, if_neg hsize⟩)

/-- Every column is two characters wide. -/
theorem exists_digits (l : Line) (i : Nat) : ∃ c d, l.digits i = [c, d] := by
  obtain ⟨b, -, h⟩ | ⟨-, -, h⟩ | ⟨-, -, h⟩ := l.digits_cases i
  · exact ⟨_, _, h.trans (Hex.toList_byte b)⟩
  · exact ⟨_, _, h⟩
  · exact ⟨_, _, h⟩

/-- A name is three letters. -/
theorem mnemonic_letters (i : Instruction) :
    i.mnemonic.toList.length = 3 ∧ i.mnemonic.toList.all Char.isUpper = true := by
  obtain ⟨mode, operation, standing⟩ := i
  simp only [Instruction.mnemonic]
  cases operation with
  | jam => decide
  | read op => cases op <;> decide
  | write op => cases op <;> decide
  | modify op => cases op <;> decide
  | implied op => cases op <;> decide
  | branch condition => cases condition <;> decide
  | control transfer => cases transfer <;> decide

/-- The mark in front of the name. -/
def mark (l : Line) : Char := if l.instruction.isIllegal then '*' else ' '

/-- What follows the name. -/
def tail (l : Line) : List Char :=
  if l.operandText.isEmpty then [] else ' ' :: l.operandText.toList

theorem toList_render (l : Line) :
    l.render.toList = (Hex.word l.address).toList ++ ([' ', ' '] ++ ((l.digits 0 ++ [' ']) ++
      ((l.digits 1 ++ [' ']) ++ ((l.digits 2 ++ [' ']) ++ (l.mark :: (l.instruction.mnemonic.toList
        ++ l.tail)))))) := by
  have hmark : (if l.instruction.isIllegal then "*" else " ").toList = [l.mark] := by
    unfold mark
    cases l.instruction.isIllegal <;> rfl
  have htail : (if l.operandText.isEmpty then "" else " " ++ l.operandText).toList = l.tail := by
    unfold tail
    cases l.operandText.isEmpty <;> simp
  simp only [render, String.toList_append, toList_column, hmark, htail, List.append_assoc]
  rfl

end Line

/-! ## 3. What is read of a line -/

namespace Printed

variable (l : Line)

theorem address_render : address l.render = some l.address.toNat := by
  have hlength : (Hex.word l.address).toList.length = 4 := by
    rw [Hex.toList_word, List.length_append, Hex.toList_byte, Hex.toList_byte]
    rfl
  rw [address, Line.toList_render, List.take_left' hlength, Hex.number_word]

/-- Behind the address and the two blanks there are the three columns, the mark and the name. -/
theorem drop_render (n : Nat) :
    l.render.toList.drop (6 + n) = (l.digits 0 ++ ' ' :: (l.digits 1 ++ ' ' :: (l.digits 2 ++
      ' ' :: l.mark :: (l.instruction.mnemonic.toList ++ l.tail)))).drop n := by
  rw [← List.drop_drop, Line.toList_render, Hex.toList_word, Hex.toList_byte, Hex.toList_byte]
  simp only [List.cons_append, List.nil_append, List.append_assoc, List.drop_succ_cons,
    List.drop_zero]

theorem field_render {i : Nat} (hi : i < 3) : field l.render i = l.digits i := by
  obtain ⟨c₀, d₀, h₀⟩ := l.exists_digits 0
  obtain ⟨c₁, d₁, h₁⟩ := l.exists_digits 1
  obtain ⟨c₂, d₂, h₂⟩ := l.exists_digits 2
  rw [field, drop_render, h₀, h₁, h₂]
  match i, hi with
  | 0, _ => exact h₀.symm
  | 1, _ => exact h₁.symm
  | 2, _ => exact h₂.symm

/-- The mark and the name stand behind the byte columns. -/
theorem drop_columns :
    l.render.toList.drop 15 = l.mark :: (l.instruction.mnemonic.toList ++ l.tail) := by
  obtain ⟨c₀, d₀, h₀⟩ := l.exists_digits 0
  obtain ⟨c₁, d₁, h₁⟩ := l.exists_digits 1
  obtain ⟨c₂, d₂, h₂⟩ := l.exists_digits 2
  have hrender := drop_render l 9
  rw [h₀, h₁, h₂] at hrender
  exact hrender

theorem mark_render : mark l.render = some l.mark := by
  have hmark : mark l.render = (l.render.toList.drop 15)[0]? := by
    rw [List.getElem?_drop, mark]
  rw [hmark, drop_columns]
  rfl

theorem operand_render : operand l.render = l.operandText.toList := by
  obtain ⟨p, q, r, hname⟩ := List.length_eq_three.mp (Line.mnemonic_letters l.instruction).1
  have hoperand : operand l.render = (l.render.toList.drop 15).drop 5 := by
    rw [List.drop_drop, operand]
  have htail : l.tail.drop 1 = l.operandText.toList := by
    unfold Line.tail
    cases h : l.operandText.isEmpty with
    | true =>
      rw [String.isEmpty_iff.mp h]
      rfl
    | false => rfl
  rw [hoperand, drop_columns, hname, ← htail]
  rfl

end Printed

/-! ## 4. Bytes shown and bytes missing -/

namespace Line

/-- The line shows no more bytes than its instruction has. -/
def Fits (l : Line) : Prop := l.bytes.length ≤ l.instruction.size

variable {l : Line}

theorem Fits.length_le_three (h : l.Fits) : l.bytes.length ≤ 3 :=
  Nat.le_trans h l.instruction.size_le_three

/-- A column is read as the byte it shows. -/
theorem number_digits (l : Line) (i : Nat) :
    (Hex.number 0 (l.digits i)).map UInt8.ofNat = l.bytes[i]? := by
  obtain ⟨b, hb, h⟩ | ⟨hb, -, h⟩ | ⟨hb, -, h⟩ := l.digits_cases i
  · rw [h, hb, Hex.number_byte, Option.map_some, UInt8.ofNat_toNat]
  · rw [h, hb]
    rfl
  · rw [h, hb]
    rfl

/-- A column shows a byte to be missing exactly if it is. -/
theorem digits_eq_missing_iff (l : Line) (i : Nat) :
    l.digits i = ['?', '?'] ↔ l.bytes.length ≤ i ∧ i < l.instruction.size := by
  rw [← List.getElem?_eq_none_iff]
  obtain ⟨b, hb, h⟩ | ⟨hb, hsize, h⟩ | ⟨hb, hsize, h⟩ := l.digits_cases i
  · refine iff_of_false (fun heq => ?_) (fun hmissing => by simp [hb] at hmissing)
    have hmem : '?' ∈ (Hex.byte b).toList := by
      rw [← h, heq]
      exact List.mem_cons_self
    exact Hex.notMem_byte (by decide) b hmem
  · exact iff_of_true h ⟨hb, hsize⟩
  · exact iff_of_false (by rw [h]; decide) fun hmissing => hsize hmissing.2

end Line

namespace Printed

variable {l : Line}

theorem bytes_render (h : l.Fits) : bytes l.render = l.bytes := by
  have hlength := h.length_le_three
  have hcolumns : ∀ i ∈ List.range 3,
      (Hex.number 0 (field l.render i)).map UInt8.ofNat = l.bytes[i]? := by
    intro i hi
    rw [field_render l (List.mem_range.mp hi), Line.number_digits]
  rw [bytes, List.filterMap_congr hcolumns]
  match l.bytes, hlength with
  | [], _ => rfl
  | [_], _ => rfl
  | [_, _], _ => rfl
  | [_, _, _], _ => rfl

theorem missing_render (h : l.Fits) :
    missing l.render = l.instruction.size - l.bytes.length := by
  have hcolumns : ∀ i ∈ List.range 3, (field l.render i == ['?', '?']) = true ↔
      decide (l.bytes.length ≤ i ∧ i < l.instruction.size) = true := by
    intro i hi
    rw [field_render l (List.mem_range.mp hi), beq_iff_eq, Line.digits_eq_missing_iff,
      decide_eq_true_iff]
  have hall : ∀ shown ≤ 3, ∀ size ≤ 3,
      (List.range 3).countP (fun i => decide (shown ≤ i ∧ i < size)) = size - shown := by
    decide
  rw [missing, List.countP_congr hcolumns]
  exact hall _ h.length_le_three _ l.instruction.size_le_three

end Printed

/-! ## 5. Marks -/

/-- The two marks: for a byte that is missing, and for an instruction that the data sheet leaves
out. -/
def Printed.marks : List Char := ['?', '*']

theorem value_of_mem_marks {x : Char} (hx : x ∈ Printed.marks) : Hex.value x = none := by
  simp only [Printed.marks, List.mem_cons, List.not_mem_nil, or_false] at hx
  rcases hx with rfl | rfl <;> decide

/-- No operand is written with a mark. -/
theorem notMem_operandText {x : Char} (hx : x ∈ Printed.marks) (mode : Mode)
    (operand : List UInt8) (next : UInt16) : x ∉ (mode.operandText operand next).toList := by
  have hbyte := Hex.notMem_byte (value_of_mem_marks hx)
  have hword := Hex.notMem_word (value_of_mem_marks hx)
  simp only [Printed.marks, List.mem_cons, List.not_mem_nil, or_false] at hx
  cases mode <;> rcases hx with rfl | rfl <;> simp [Mode.operandText, hbyte, hword]

namespace Line

theorem notMem_mnemonic {x : Char} (hx : x ∈ Printed.marks) (i : Instruction) :
    x ∉ i.mnemonic.toList := by
  intro hmem
  have hupper : x.isUpper = true := List.all_eq_true.mp (mnemonic_letters i).2 x hmem
  simp only [Printed.marks, List.mem_cons, List.not_mem_nil, or_false] at hx
  rcases hx with rfl | rfl <;> cases hupper

theorem notMem_tail {x : Char} (hx : x ∈ Printed.marks) (l : Line) : x ∉ l.tail := by
  have hblank : x ≠ ' ' := by
    rintro rfl
    exact absurd hx (by decide)
  have htext : x ∉ l.operandText.toList := by
    unfold operandText
    split
    · exact notMem_operandText hx _ _ _
    · simp
  unfold tail
  split
  · exact List.not_mem_nil
  · rw [List.mem_cons, not_or]
    exact ⟨hblank, htext⟩

/-- A mark stands in a byte column or in front of the name, and nowhere else. -/
theorem count_render {x : Char} (hx : x ∈ Printed.marks) (l : Line) :
    l.render.toList.count x = (l.digits 0).count x + (l.digits 1).count x + (l.digits 2).count x
      + [l.mark].count x := by
  have hblank : (' ' == x) = false := by
    rw [beq_eq_false_iff_ne]
    rintro rfl
    exact absurd hx (by decide)
  have hword := List.count_eq_zero.mpr (Hex.notMem_word (value_of_mem_marks hx) l.address)
  have hname := List.count_eq_zero.mpr (notMem_mnemonic hx l.instruction)
  have htail := List.count_eq_zero.mpr (notMem_tail hx l)
  rw [toList_render]
  simp only [List.count_append, List.count_cons, List.count_nil, hword, hname, htail, hblank]
  simp
  omega

/-- Two question marks stand for a byte that is missing, and none for one that is not. -/
theorem count_digits (l : Line) (i : Nat) :
    (l.digits i).count '?' = if l.digits i == ['?', '?'] then 2 else 0 := by
  by_cases hmissing : l.digits i = ['?', '?']
  · rw [hmissing]
    rfl
  · rw [if_neg (by rwa [beq_iff_eq]), List.count_eq_zero]
    obtain ⟨b, -, h⟩ | ⟨-, -, h⟩ | ⟨-, -, h⟩ := l.digits_cases i
    · exact h ▸ Hex.notMem_byte (by decide) b
    · exact absurd h hmissing
    · rw [h]
      decide

/-- No byte column holds a star. -/
theorem count_star_digits (l : Line) (i : Nat) : (l.digits i).count '*' = 0 := by
  rw [List.count_eq_zero]
  obtain ⟨b, -, h⟩ | ⟨-, -, h⟩ | ⟨-, -, h⟩ := l.digits_cases i
  · exact h ▸ Hex.notMem_byte (by decide) b
  · rw [h]
    decide
  · rw [h]
    decide

end Line

namespace Printed

variable {l : Line}

/-- **Every question mark is part of a column that shows a byte to be missing.** -/
theorem count_missing_render (l : Line) : l.render.toList.count '?' = 2 * missing l.render := by
  have hmark : [l.mark].count '?' = 0 := by
    unfold Line.mark
    cases l.instruction.isIllegal <;> rfl
  have hcolumns : missing l.render =
      (List.range 3).countP fun i => l.digits i == ['?', '?'] := by
    refine List.countP_congr fun i hi => ?_
    rw [field_render l (List.mem_range.mp hi)]
  rw [Line.count_render (by decide), hmark, hcolumns, Line.count_digits, Line.count_digits,
    Line.count_digits]
  simp only [List.range_succ, List.range_zero, List.nil_append, List.cons_append,
    List.countP_cons, List.countP_nil]
  split <;> split <;> split <;> rfl

/-- **A star stands for an instruction outside the data sheet**, once. -/
theorem count_star_render (l : Line) :
    l.render.toList.count '*' = if l.instruction.isIllegal then 1 else 0 := by
  rw [Line.count_render (by decide), Line.count_star_digits, Line.count_star_digits,
    Line.count_star_digits]
  unfold Line.mark
  cases l.instruction.isIllegal <;> rfl

/-- Only one mode writes nothing. -/
theorem operandText_eq_empty_iff (mode : Mode) (operand : List UInt8) (next : UInt16) :
    mode.operandText operand next = "" ↔ mode = .implied := by
  cases mode <;> simp [Mode.operandText]

/-- **The operand is left out exactly if a byte is missing**, unless the mode writes none. -/
theorem operand_eq_nil_iff (h : l.Fits) (hmode : l.instruction.mode ≠ .implied) :
    operand l.render = [] ↔ 0 < missing l.render := by
  rw [operand_render, missing_render h, String.toList_eq_nil_iff, Nat.sub_pos_iff_lt]
  have hle : l.bytes.length ≤ l.instruction.size := h
  have hcomplete : l.isComplete = true ↔ l.bytes.length = l.instruction.size := beq_iff_eq
  unfold Line.operandText
  cases hc : l.isComplete with
  | true =>
    rw [if_pos rfl, operandText_eq_empty_iff]
    exact iff_of_false hmode (Nat.not_lt.mpr (Nat.le_of_eq (hcomplete.mp hc).symm))
  | false =>
    have hne : l.bytes.length ≠ l.instruction.size := fun heq => by
      rw [hcomplete.mpr heq] at hc
      cases hc
    exact iff_of_true rfl (Nat.lt_of_le_of_ne hle hne)

end Printed

end Cpu

end Famicom
