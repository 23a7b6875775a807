/-
# Nothing is lost in a listing

A listing cuts a program into instructions, and each line shows the bytes of one.  Read back, the
lines give the program again (`disassemble_lossless`): **the bytes in their columns are the bytes of
the program, in order**, and each address tells how many bytes are on the lines above it.  Only the
last line can be cut short, since every other one is followed by bytes that it could have had.

The two ways to list a program meet here as well (`disassembleFrom_eq_take`): a memory shows the
first lines of any list of bytes that is found in it, as long as the list reaches so far.  Both
count addresses modulo 65536, so it does not matter whether the program goes on at address 0, or
comes by the same address twice.
-/
import Famicom.FlatMemory
import Famicom.Proofs.Listing.Columns

namespace Famicom.Cpu

/-! ## 1. Lines of a list of bytes -/

/-- An instruction takes its operand off the bytes behind its opcode, as far as there are any. -/
theorem linesOf_cons (address : UInt16) (opcode : UInt8) (rest : List UInt8) :
    linesOf address (opcode :: rest) =
      ⟨address, opcode, rest.take (Instruction.decode opcode).mode.operandLength⟩ ::
        linesOf (address + .ofNat (Instruction.decode opcode).size)
          (rest.drop (Instruction.decode opcode).mode.operandLength) := by
  rw [linesOf]
  rfl

/-- What holds of no bytes, and of an opcode with what follows if it holds of what follows its
instruction, holds of all bytes. -/
@[elab_as_elim] theorem linesOf_induction {motive : UInt16 → List UInt8 → Prop}
    (nil : ∀ address, motive address [])
    (cons : ∀ address opcode rest,
      motive (address + .ofNat (Instruction.decode opcode).size)
        (rest.drop (Instruction.decode opcode).mode.operandLength) →
      motive address (opcode :: rest)) (address : UInt16) (bytes : List UInt8) :
    motive address bytes :=
  linesOf.induct motive nil cons address bytes

theorem linesOf_nil (address : UInt16) : linesOf address [] = [] := by
  rw [linesOf]

/-- **The lines show the bytes, in order.** -/
theorem flatMap_bytes_linesOf (address : UInt16) (bytes : List UInt8) :
    (linesOf address bytes).flatMap Line.bytes = bytes := by
  induction address, bytes using linesOf_induction with
  | nil address => rw [linesOf_nil, List.flatMap_nil]
  | cons address opcode rest ih =>
    rw [linesOf_cons, List.flatMap_cons]
    rw [ih, Line.bytes, List.cons_append, List.take_append_drop]

/-- No line shows more than its instruction has. -/
theorem fits_of_mem_linesOf {address : UInt16} {bytes : List UInt8} {l : Line}
    (h : l ∈ linesOf address bytes) : l.Fits := by
  induction address, bytes using linesOf_induction with
  | nil address =>
    rw [linesOf_nil] at h
    cases h
  | cons address opcode rest ih =>
    rw [linesOf_cons, List.mem_cons] at h
    rcases h with rfl | h
    · simp only [Line.Fits, Line.bytes, Line.instruction, Instruction.size, List.length_cons,
        List.length_take]
      omega
    · exact ih h

theorem length_linesOf_le (address : UInt16) (bytes : List UInt8) :
    (linesOf address bytes).length ≤ bytes.length := by
  induction address, bytes using linesOf_induction with
  | nil address =>
    rw [linesOf_nil]
    exact Nat.le_refl _
  | cons address opcode rest ih =>
    rw [linesOf_cons, List.length_cons, List.length_cons]
    have hrest := Nat.le_trans ih (List.length_drop .. ▸ Nat.sub_le ..)
    exact Nat.succ_le_succ hrest

/-- Where a line is below the first, the first shows all its bytes. -/
theorem length_of_line_below {address : UInt16} {opcode : UInt8} {rest : List UInt8}
    (h : 0 < (linesOf address
      (rest.drop (Instruction.decode opcode).mode.operandLength)).length) :
    (opcode :: rest.take (Instruction.decode opcode).mode.operandLength).length =
      (Instruction.decode opcode).size := by
  have hle := length_linesOf_le address
    (rest.drop (Instruction.decode opcode).mode.operandLength)
  rw [List.length_drop] at hle
  rw [List.length_cons, List.length_take, Instruction.size]
  omega

/-- Only the last line can be cut short. -/
theorem length_bytes_of_lt {address : UInt16} {bytes : List UInt8} {i : Nat} {l : Line}
    (h : (linesOf address bytes)[i]? = some l) (hi : i + 1 < (linesOf address bytes).length) :
    l.bytes.length = l.instruction.size := by
  induction address, bytes using linesOf_induction generalizing i with
  | nil address =>
    rw [linesOf_nil] at h
    cases h
  | cons address opcode rest ih =>
    rw [linesOf_cons] at h hi
    cases i with
    | zero =>
      obtain rfl := Option.some.inj h
      exact length_of_line_below (Nat.lt_of_succ_lt_succ hi)
    | succ j => exact ih h (Nat.lt_of_succ_lt_succ hi)

/-- **A line says how many bytes are above it.** -/
theorem address_linesOf {address : UInt16} {bytes : List UInt8} {i : Nat} {l : Line}
    (h : (linesOf address bytes)[i]? = some l) :
    l.address =
      address + .ofNat (((linesOf address bytes).take i).flatMap Line.bytes).length := by
  induction address, bytes using linesOf_induction generalizing i with
  | nil address =>
    rw [linesOf_nil] at h
    cases h
  | cons address opcode rest ih =>
    rw [linesOf_cons] at h ⊢
    cases i with
    | zero =>
      obtain rfl := Option.some.inj h
      exact (UInt16.add_zero address).symm
    | succ j =>
      obtain ⟨hj, -⟩ := List.getElem?_eq_some_iff.mp h
      have hfirst := length_of_line_below (Nat.zero_lt_of_lt (Nat.lt_of_succ_lt_succ hj))
      rw [ih h, List.take_succ_cons, List.flatMap_cons, List.length_append, Line.bytes, hfirst,
        UInt16.ofNat_add, UInt16.add_assoc]

/-! ## 2. The text -/

/-- What the text of a line tells of an instruction at an address. -/
structure Printed.Tells (text : String) (address : UInt16) (i : Instruction) : Prop where
  address_eq : Printed.address text = some address.toNat
  opcode_eq : ∃ opcode operand, bytes text = opcode :: operand ∧ Instruction.decode opcode = i
  length_le : (bytes text).length ≤ i.size
  /-- A column says for each byte that is missing that it is, and nothing else looks like it. -/
  missing_eq : missing text = i.size - (bytes text).length
  count_missing : text.toList.count '?' = 2 * missing text
  /-- Exactly then the operand is left out, where the mode writes one. -/
  operand_eq_nil : operand text = [] ∧ i.mode ≠ .implied ↔ 0 < missing text
  /-- The star is in front of the name. -/
  star_iff : mark text = some '*' ↔ i.isIllegal = true
  count_star : text.toList.count '*' = if i.isIllegal then 1 else 0

theorem Printed.tells_render {l : Line} (h : l.Fits) :
    Printed.Tells l.render l.address l.instruction where
  address_eq := Printed.address_render l
  opcode_eq := ⟨l.opcode, l.operand, Printed.bytes_render h, rfl⟩
  length_le := by
    rw [Printed.bytes_render h]
    exact h
  missing_eq := by rw [Printed.missing_render h, Printed.bytes_render h]
  count_missing := Printed.count_missing_render l
  operand_eq_nil := by
    by_cases hmode : l.instruction.mode = .implied
    · -- One byte is the whole instruction, and the line shows its opcode.
      have hsize : l.instruction.size = 1 := by
        rw [Instruction.size, hmode]
        rfl
      have hshown : 0 < l.bytes.length := Nat.succ_pos _
      rw [Printed.missing_render h, hsize]
      exact iff_of_false (fun hboth => hboth.2 hmode) (by omega)
    · rw [Printed.operand_eq_nil_iff h hmode]
      exact and_iff_left hmode
  star_iff := by
    rw [Printed.mark_render]
    unfold Line.mark
    cases l.instruction.isIllegal <;> decide
  count_star := Printed.count_star_render l

/-- Read back, lines show what they were written from. -/
theorem flatMap_bytes_render {lines : List Line} (h : ∀ l ∈ lines, l.Fits) :
    (lines.map Line.render).flatMap Printed.bytes = lines.flatMap Line.bytes := by
  rw [List.flatMap_map]
  exact List.flatMap_congr fun l hl => Printed.bytes_render (h l hl)

/-- **A listing gives its program back.**  The bytes shown are the bytes of the program, in order,
and every line tells where its first byte is, which bytes of its instruction are missing, and
whether the instruction is in the data sheet.  A line with another below it misses none. -/
theorem disassemble_lossless (bytes : List UInt8) (base : UInt16) :
    let texts := disassemble bytes base
    texts.length ≤ bytes.length ∧
    texts.flatMap Printed.bytes = bytes ∧
    ∀ (i : Nat) (text : String), texts[i]? = some text → ∃ instruction,
      Printed.Tells text (base + .ofNat ((texts.take i).flatMap Printed.bytes).length) instruction ∧
      (i + 1 < texts.length →
        (Printed.bytes text).length = instruction.size ∧ '?' ∉ text.toList) := by
  have hfits : ∀ l ∈ linesOf base bytes, l.Fits := fun l hl => fits_of_mem_linesOf hl
  intro texts
  have hlength : texts.length = (linesOf base bytes).length := List.length_map _
  refine ⟨hlength ▸ length_linesOf_le base bytes, ?_, fun i text htext => ?_⟩
  · exact (flatMap_bytes_render hfits).trans (flatMap_bytes_linesOf base bytes)
  · obtain ⟨l, hl, rfl⟩ := Option.map_eq_some_iff.mp (List.getElem?_map ▸ htext)
    have hmem : l.Fits := hfits l (List.mem_of_getElem? hl)
    have habove : (texts.take i).flatMap Printed.bytes =
        ((linesOf base bytes).take i).flatMap Line.bytes := by
      rw [← flatMap_bytes_render fun l hl => hfits l (List.mem_of_mem_take hl), List.map_take]
      rfl
    have htells := Printed.tells_render hmem
    refine ⟨l.instruction, ?_, fun hbelow => ?_⟩
    · rwa [habove, ← address_linesOf hl]
    · have hshown : (Printed.bytes l.render).length = l.instruction.size := by
        rw [Printed.bytes_render hmem]
        exact length_bytes_of_lt hl (hlength ▸ hbelow)
      refine ⟨hshown, List.count_eq_zero.mp ?_⟩
      rw [htells.count_missing, htells.missing_eq, hshown, Nat.sub_self]

/-- A cut listing whose last line lies behind the end of the address space. -/
theorem disassemble_lossless_cut :
    let texts := disassemble [0xA7, 0x44, 0x4C, 0x00] 0xFFFE
    texts = ["FFFE  A7 44    *LAX $44", "0000  4C 00 ??  JMP"] ∧
      texts.flatMap Printed.bytes = [0xA7, 0x44, 0x4C, 0x00] ∧
      (∃ i, Printed.Tells "FFFE  A7 44    *LAX $44" 0xFFFE i ∧ i.size = 2) ∧
      ∃ i, Printed.Tells "0000  4C 00 ??  JMP" 0 i := by
  have htexts : disassemble [0xA7, 0x44, 0x4C, 0x00] 0xFFFE =
      ["FFFE  A7 44    *LAX $44", "0000  4C 00 ??  JMP"] := by decide +kernel
  have hshown : Printed.bytes "FFFE  A7 44    *LAX $44" = [0xA7, 0x44] := by decide +kernel
  obtain ⟨-, hbytes, hlines⟩ := disassemble_lossless [0xA7, 0x44, 0x4C, 0x00] 0xFFFE
  rw [htexts] at hlines
  obtain ⟨i, htells, hbelow⟩ := hlines 0 _ rfl
  obtain ⟨j, htells', -⟩ := hlines 1 _ rfl
  refine ⟨htexts, hbytes, ⟨i, htells, ?_⟩, j, ?_⟩
  · rw [← (hbelow (by decide)).1, hshown]
    rfl
  · rw [show [_, _].take 1 = ["FFFE  A7 44    *LAX $44"] from rfl, List.flatMap_singleton,
      hshown] at htells'
    exact htells'

/-! ## 3. Lines of a memory -/

section Memory

variable {peek : UInt16 → UInt8}

/-- The bytes behind an address are those of the memory, counted modulo 65536. -/
def Found (peek : UInt16 → UInt8) (start : UInt16) (bytes : List UInt8) : Prop :=
  ∀ i (hi : i < bytes.length), bytes[i] = peek (start + .ofNat i)

/-- The line for the instruction at an address. -/
def lineAt (peek : UInt16 → UInt8) (a : UInt16) : Line :=
  ⟨a, peek a, (List.range (Instruction.decode (peek a)).mode.operandLength).map fun i =>
    peek (a + 1 + .ofNat i)⟩

/-- The address behind the instruction at an address. -/
def following (peek : UInt16 → UInt8) (a : UInt16) : UInt16 :=
  a + .ofNat (Instruction.decode (peek a)).size

/-- The total size of some instructions. -/
def extent : List Line → Nat
  | [] => 0
  | l :: rest => l.instruction.size + extent rest

theorem Found.head {start : UInt16} {b : UInt8} {rest : List UInt8}
    (h : Found peek start (b :: rest)) : b = peek start :=
  (h 0 (Nat.succ_pos _)).trans (congrArg peek (UInt16.add_zero start))

/-- What is found at an address is found further on as well. -/
theorem Found.drop {start : UInt16} {bytes : List UInt8} (h : Found peek start bytes) (n : Nat) :
    Found peek (start + .ofNat n) (bytes.drop n) := by
  intro i hi
  rw [List.length_drop] at hi
  rw [List.getElem_drop, h (n + i) (by omega), UInt16.ofNat_add, UInt16.add_assoc]

theorem Found.take {start : UInt16} {bytes : List UInt8} (h : Found peek start bytes) {n : Nat}
    (hn : n ≤ bytes.length) :
    bytes.take n = (List.range n).map fun i => peek (start + .ofNat i) := by
  refine List.ext_getElem ?_ fun i hi _ => ?_
  · rw [List.length_take, List.length_map, List.length_range, Nat.min_eq_left hn]
  · rw [List.length_take] at hi
    rw [List.getElem_take, List.getElem_map, List.getElem_range, h i (by omega)]

theorem linesFrom_succ (peek : UInt16 → UInt8) (start : UInt16) (count : Nat) :
    linesFrom peek start (count + 1) =
      lineAt peek start :: linesFrom peek (following peek start) count := rfl

/-- The first line of bytes that are found in a memory is the line of the memory. -/
theorem Found.linesOf_cons {start : UInt16} {opcode : UInt8} {rest : List UInt8}
    (h : Found peek start (opcode :: rest))
    (hlength : (Instruction.decode (peek start)).size ≤ (opcode :: rest).length) :
    linesOf start (opcode :: rest) = lineAt peek start ::
      linesOf (following peek start)
        ((opcode :: rest).drop (Instruction.decode (peek start)).size) := by
  obtain rfl := h.head
  rw [Instruction.size, Nat.add_comm] at hlength ⊢
  have hoperand := (h.drop 1).take (Nat.le_of_succ_le_succ hlength)
  rw [Cpu.linesOf_cons, List.drop_succ_cons]
  exact congrArg (fun operand => (⟨start, peek start, operand⟩ : Line) :: _) hoperand

/-- **A memory has the first lines of every list of bytes that is found in it.** -/
theorem linesFrom_eq_take {start : UInt16} {count : Nat} {bytes : List UInt8}
    (h : Found peek start bytes) (hlength : extent (linesFrom peek start count) ≤ bytes.length) :
    linesFrom peek start count = (linesOf start bytes).take count := by
  induction count generalizing start bytes with
  | zero => rfl
  | succ count ih =>
    have hfirst : (lineAt peek start).instruction = Instruction.decode (peek start) := rfl
    have hpos := (Instruction.decode (peek start)).size_pos
    rw [linesFrom_succ, extent, hfirst] at hlength
    cases bytes with
    | nil =>
      rw [List.length_nil] at hlength
      omega
    | cons opcode rest =>
      have hlines := ih (h.drop (Instruction.decode (peek start)).size) (by
        rw [List.length_drop]
        exact Nat.le_sub_of_add_le' hlength)
      rw [h.linesOf_cons (by omega), linesFrom_succ, List.take_succ_cons]
      exact congrArg (lineAt peek start :: ·) hlines

/-- **The two ways to list a program agree.** -/
theorem disassembleFrom_eq_take {start : UInt16} {count : Nat} {bytes : List UInt8}
    (h : Found peek start bytes) (hlength : extent (linesFrom peek start count) ≤ bytes.length) :
    disassembleFrom peek start count = (disassemble bytes start).take count := by
  rw [disassembleFrom, disassemble, linesFrom_eq_take h hlength, List.map_take]

/-- A listing that goes on at address 0, of bytes that the memory has from the last address on, and
of more of them than the listing needs. -/
theorem disassembleFrom_eq_take_across_wrap :
    let m := ((({} : FlatMemory).poke 0xFFFF 0x4C).poke 0 0x34).poke 1 0x12
    let bytes : List UInt8 := [0x4C, 0x34, 0x12, 0x00, 0x00]
    Found m.peek 0xFFFF bytes ∧ extent (linesFrom m.peek 0xFFFF 2) ≤ bytes.length ∧
      disassembleFrom m.peek 0xFFFF 2 = (disassemble bytes 0xFFFF).take 2 := by
  intro m bytes
  have hpeek (a : UInt16) : m.peek a =
      if 1 = a then 0x12 else if 0 = a then 0x34 else if 0xFFFF = a then 0x4C else 0 := by
    have hblank : ({} : FlatMemory).peek a = 0 := Memory.read_filled 0 a.toNat
    simp only [m, FlatMemory.peek_poke, hblank]
  rw [funext hpeek]
  have hfound : Found (fun a => if 1 = a then 0x12 else if 0 = a then 0x34
      else if 0xFFFF = a then 0x4C else 0) 0xFFFF bytes := by
    unfold Found
    decide
  have hextent : extent (linesFrom (fun a => if 1 = a then 0x12 else if 0 = a then 0x34
      else if 0xFFFF = a then 0x4C else 0) 0xFFFF 2) ≤ bytes.length := by
    decide
  exact ⟨hfound, hextent, disassembleFrom_eq_take hfound hextent⟩

end Memory

end Famicom.Cpu
