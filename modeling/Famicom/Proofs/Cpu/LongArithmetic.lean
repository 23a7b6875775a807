/-
# Arithmetic on numbers of any length

The processor adds bytes.  A program adds longer numbers byte by byte from the low end: it loads a
byte of the one, adds the byte of the other, and keeps the carry flag until the next.  What it does
in between, to store the result or to move an index, is its own affair, and so are the modes in
which it finds the bytes.

* **The results and the carry above them are the whole sum** (`Sums.whole`): each byte and its carry
  are the sum of two bytes and the carry below, and the places add up.
* The overflow flag is made from three top bits.  It is right for a byte (`overflow_add`), and a
  byte more at the low end changes neither what overflows nor what the flag says
  (`overflows_cons`), so the last byte tells it for the whole number.
* Subtraction adds the complement, and the complement of a number is made of the complements of its
  bytes (`value_complement`), so all of this carries over.

Nothing here looks at the decimal flag: the processor stores it and adds in binary
(`long_arithmetic`).
-/
import Famicom.Proofs.Cpu.Progress
import Famicom.Proofs.Cpu.Refinement
import Mathlib.Data.Nat.Digits.Defs
import Mathlib.Tactic.Ring

namespace Famicom.Cpu

open Interpreter Registers

/-! ## 1. Numbers of several bytes -/

/-- The number that bytes stand for, the low byte first. -/
def value (bytes : List UInt8) : Nat := Nat.ofDigits 256 (bytes.map UInt8.toNat)

theorem value_nil : value [] = 0 := rfl

theorem value_cons (b : UInt8) (bytes : List UInt8) :
    value (b :: bytes) = b.toNat + 256 * value bytes := Nat.ofDigits_cons ..

theorem value_singleton (b : UInt8) : value [b] = b.toNat := by
  rw [value_cons, value_nil, Nat.add_zero]

theorem value_lt (bytes : List UInt8) : value bytes < 256 ^ bytes.length := by
  induction bytes with
  | nil => exact Nat.one_pos
  | cons b bytes ih =>
    have hb := b.toNat_lt
    rw [value_cons, List.length_cons, Nat.pow_succ]
    omega

/-- A number and the one with the complements of its bytes have all bits set between them. -/
theorem value_complement (bytes : List UInt8) :
    value (bytes.map (~~~·)) + value bytes + 1 = 256 ^ bytes.length := by
  induction bytes with
  | nil => rfl
  | cons b bytes ih =>
    have hb := b.toNat_lt
    have hnot : (~~~b).toNat = 255 - b.toNat := by simp
    rw [List.map_cons, value_cons, value_cons, List.length_cons, Nat.pow_succ, hnot]
    omega

/-- The signed number with the bytes of `v`, in a width of `n` bytes. -/
def signed (n v : Nat) : Int := (v : Int).bmod (256 ^ n)

/-- A signed number does not fit into `n` bytes. -/
def Overflows (n : Nat) (z : Int) : Prop := 2 * z < -256 ^ n ∨ 256 ^ n ≤ 2 * z

/-- There are as many negative numbers as others. -/
theorem exists_half {n : Nat} (hn : 0 < n) : ∃ half, 256 ^ n = 2 * half := by
  obtain ⟨k, rfl⟩ := Nat.exists_eq_add_of_le' hn
  exact ⟨256 ^ k * 128, by rw [Nat.pow_succ]; omega⟩

theorem signed_eq {n v : Nat} (hv : v < 256 ^ n) (hn : 0 < n) :
    signed n v = if 2 * v < 256 ^ n then (v : Int) else v - (256 ^ n : Nat) := by
  obtain ⟨half, hhalf⟩ := exists_half hn
  rw [signed, Int.bmod_def, ← Int.natCast_emod, Nat.mod_eq_of_lt hv, hhalf]
  split <;> split <;> omega

/-- A byte more at the low end leaves the sign to the others. -/
theorem signed_cons {n v : Nat} (b : UInt8) (hv : v < 256 ^ n) (hn : 0 < n) :
    signed (n + 1) (b.toNat + 256 * v) = b.toNat + 256 * signed n v := by
  have hb := b.toNat_lt
  obtain ⟨half, hhalf⟩ := exists_half hn
  rw [signed_eq (by rw [Nat.pow_succ]; omega) (Nat.succ_pos n), signed_eq hv hn, Nat.pow_succ,
    hhalf]
  split <;> split <;> omega

theorem signed_complement {n v w : Nat} (hn : 0 < n) (h : v + w + 1 = 256 ^ n) :
    signed n v = -1 - signed n w := by
  obtain ⟨half, hhalf⟩ := exists_half hn
  rw [signed_eq (by omega) hn, signed_eq (by omega) hn]
  split <;> split <;> omega

/-- **A byte more at the low end does not change what overflows.** -/
theorem overflows_cons {n : Nat} (hn : 0 < n) (b : UInt8) (z : Int) :
    Overflows (n + 1) (b.toNat + 256 * z) ↔ Overflows n z := by
  have hb := b.toNat_lt
  obtain ⟨half, hhalf⟩ := exists_half hn
  have hcast : (256 : Int) ^ n = 2 * half := mod_cast hhalf
  rw [Overflows, Overflows, Int.pow_succ, hcast]
  omega

theorem testBit_top {n v : Nat} (hn : 0 < n) (hv : v < 256 ^ n) :
    v.testBit (8 * n - 1) = decide (256 ^ n ≤ 2 * v) := by
  have hpow : 256 ^ n = 2 * 2 ^ (8 * n - 1) := by
    rw [← Nat.pow_succ', show (256 : Nat) = 2 ^ 8 from rfl, ← Nat.pow_mul]
    congr 1
    omega
  rw [hpow] at hv ⊢
  rw [Nat.testBit_eq_decide_div_mod_eq, decide_eq_decide]
  generalize 2 ^ (8 * n - 1) = top at hv ⊢
  rcases Nat.lt_or_ge v top with h | h
  · rw [Nat.div_eq_of_lt h]
    omega
  · have hone : v / top = 1 := Nat.div_eq_of_lt_le (by omega) (by omega)
    omega

/-! ## 2. One byte -/

/-- A byte is negative exactly if its top bit is set. -/
theorem msb_eq (b : UInt8) : b.toBitVec.msb = decide (128 ≤ b.toNat) := BitVec.msb_eq_decide _

theorem and_top_ne_zero (b : UInt8) : (b &&& 0x80 != 0) = b.toBitVec.msb :=
  forall_byte b (by decide +kernel)

namespace Registers

variable (r : Registers) (v : UInt8)

theorem sum_eq : r.sum v = r.a.toNat + v.toNat + (r.has Flag.carry).toNat := by
  rw [sum, toNat_bitOf]

theorem a_add : (r.add v).a.toNat = r.sum v % 256 := by
  have ha : (r.add v).a = r.a + v + bitOf (r.has Flag.carry) := rfl
  rw [ha, sum, UInt8.toNat_add, UInt8.toNat_add, Nat.mod_add_mod]

theorem carry_add : (r.add v).has Flag.carry = decide (256 ≤ r.sum v) := by
  rw [add, loadA, noteResult, has_assign_of_disjoint (by decide),
    has_assign_of_disjoint (by decide)]
  exact (has_assign_of_disjoint (by decide) _ _).trans (has_assign (by decide) _ _)

/-- **A byte and the carry above it are the whole sum.** -/
theorem value_add : (r.add v).a.toNat + 256 * ((r.add v).has Flag.carry).toNat = r.sum v := by
  have ha := r.a.toNat_lt
  have hv := v.toNat_lt
  have hcarry := Bool.toNat_le (r.has Flag.carry)
  have hsum := r.sum_eq v
  rw [a_add, carry_add]
  by_cases h : 256 ≤ r.sum v
  · rw [decide_eq_true h, Bool.toNat_true]
    omega
  · rw [decide_eq_false h, Bool.toNat_false]
    omega

theorem negative_add : (r.add v).has Flag.negative = decide (128 ≤ (r.add v).a.toNat) := by
  rw [← msb_eq, ← and_top_ne_zero]
  exact has_assign (by decide) _ _

/-- The overflow flag tells that the operands agree in sign and the sum does not. -/
theorem overflow_add_iff : (r.add v).has Flag.overflow = true ↔
    ((128 ≤ r.a.toNat ↔ 128 ≤ v.toNat) ∧ ¬(128 ≤ r.a.toNat ↔ 128 ≤ (r.add v).a.toNat)) := by
  have hflag : (r.add v).has Flag.overflow =
      (~~~(r.a ^^^ v) &&& (r.a ^^^ (r.add v).a) &&& 0x80 != 0) := by
    rw [add, loadA, noteResult, has_assign_of_disjoint (by decide),
      has_assign_of_disjoint (by decide)]
    exact has_assign (by decide) _ _
  rw [hflag, and_top_ne_zero]
  simp [BitVec.msb_and, BitVec.msb_not, BitVec.msb_xor, msb_eq]

/-- **The overflow flag tells that a signed sum does not fit into the byte.** -/
theorem overflow_add : (r.add v).has Flag.overflow = true ↔
    Overflows 1 (signed 1 r.a.toNat + signed 1 v.toNat + (r.has Flag.carry).toNat) := by
  have hsum := r.value_add v
  rw [sum_eq] at hsum
  have ha := r.a.toNat_lt
  have hv := v.toNat_lt
  have hlt := (r.add v).a.toNat_lt
  have hin := Bool.toNat_le (r.has Flag.carry)
  have hout := Bool.toNat_le ((r.add v).has Flag.carry)
  rw [overflow_add_iff, signed_eq (by omega) Nat.one_pos, signed_eq (by omega) Nat.one_pos,
    Overflows]
  split <;> split <;> omega

end Registers

/-! ## 3. Sums -/

/-- What additions with a carry `c` at the low end leave, byte by byte: their results and the
registers after the last. -/
structure Sums (x y : List UInt8) (c : Bool) (results : List UInt8) (r : Registers) : Prop where
  length : results.length = x.length
  whole : value results + 256 ^ x.length * (r.has Flag.carry).toNat = value x + value y + c.toNat
  overflow : r.has Flag.overflow = true ↔
    Overflows x.length (signed x.length (value x) + signed x.length (value y) + c.toNat)
  negative : r.has Flag.negative = true ↔ 256 ^ x.length ≤ 2 * value results

namespace Sums

theorem singleton (r : Registers) (y : UInt8) :
    Sums [r.a] [y] (r.has Flag.carry) [(r.add y).a] (r.add y) := by
  refine ⟨rfl, ?_, ?_, ?_⟩
  · rw [value_singleton, value_singleton, value_singleton, ← r.sum_eq, ← r.value_add]
    rfl
  · rw [value_singleton, value_singleton]
    exact r.overflow_add y
  · rw [value_singleton, r.negative_add, decide_eq_true_iff]
    change _ ↔ 256 ≤ _
    omega

/-- A byte more at the low end, with the carry that it leaves to the others. -/
theorem cons {r t : Registers} {y : UInt8} {xs ys results : List UInt8} (hxs : xs ≠ [])
    (hys : ys.length = xs.length) (h : Sums xs ys ((r.add y).has Flag.carry) results t) :
    Sums (r.a :: xs) (y :: ys) (r.has Flag.carry) ((r.add y).a :: results) t := by
  have hn : 0 < xs.length := List.length_pos_iff.mpr hxs
  have hbyte := r.value_add y
  rw [r.sum_eq] at hbyte
  refine ⟨congrArg (· + 1) h.length, ?_, ?_, ?_⟩
  · have hrest := h.whole
    rw [value_cons, value_cons, value_cons, List.length_cons, Nat.pow_succ, Nat.mul_right_comm]
    -- The carry at the high end moves up by one place with all the rest.
    generalize 256 ^ xs.length * (t.has Flag.carry).toNat = above at hrest ⊢
    omega
  · -- Of the two low bytes the sum of the others sees no more than their carry.
    have hsum : (r.a.toNat + 256 * signed xs.length (value xs) +
        (y.toNat + 256 * signed xs.length (value ys)) + (r.has Flag.carry).toNat : Int) =
        (r.add y).a.toNat + 256 * (signed xs.length (value xs) + signed xs.length (value ys) +
          ((r.add y).has Flag.carry).toNat) := by
      omega
    rw [h.overflow, value_cons, value_cons, List.length_cons, signed_cons _ (value_lt xs) hn,
      signed_cons _ (hys ▸ value_lt ys) hn, hsum, overflows_cons hn]
  · have hbound := (r.add y).a.toNat_lt
    obtain ⟨half, hhalf⟩ := exists_half hn
    rw [h.negative, value_cons, List.length_cons, Nat.pow_succ, hhalf]
    omega

end Sums

/-- What a run on numbers of `n` bytes leaves when it computes `total`: the bytes of that, and flags
that tell when it did not fit, or when what it is in signed numbers did not. -/
structure Exact (n : Nat) (total signedTotal : Int) (carries : Prop) (results : List UInt8)
    (r : Registers) : Prop where
  length : results.length = n
  bytes : (value results : Int) = total % 256 ^ n
  carry : r.has Flag.carry = true ↔ carries
  overflow : r.has Flag.overflow = true ↔ Overflows n signedTotal
  negative : r.has Flag.negative = (value results).testBit (8 * n - 1)

namespace Sums

variable {x y results : List UInt8} {c : Bool} {r : Registers}

theorem exact_add (h : Sums x y c results r) (hx : x ≠ []) :
    Exact x.length (value x + value y + c.toNat)
      (signed x.length (value x) + signed x.length (value y) + c.toNat)
      (256 ^ x.length ≤ value x + value y + c.toNat) results r := by
  have hlt : value results < 256 ^ x.length := h.length ▸ value_lt results
  refine ⟨h.length, ?_, ?_, h.overflow, ?_⟩
  · have hmod : (value x + value y + c.toNat) % 256 ^ x.length = value results := by
      rw [← h.whole, Nat.add_mul_mod_self_left, Nat.mod_eq_of_lt hlt]
    exact mod_cast hmod.symm
  · rw [← h.whole]
    cases hcarry : r.has Flag.carry with
    | false => simp [hlt]
    | true => simp
  · rw [testBit_top (List.length_pos_iff.mpr hx) hlt, Bool.eq_iff_iff, h.negative,
      decide_eq_true_iff]

/-- **Adding the complement subtracts**, and then the carry says that nothing was borrowed. -/
theorem exact_sub (h : Sums x (y.map (~~~·)) c results r) (hx : x ≠ [])
    (hlength : y.length = x.length) :
    Exact x.length (value x - value y - (1 - c.toNat))
      (signed x.length (value x) - signed x.length (value y) - (1 - c.toNat))
      (value y + (1 - c.toNat) ≤ value x) results r := by
  have hc := Bool.toNat_le c
  have hcomplement := value_complement y
  rw [hlength] at hcomplement
  have hadd := h.exact_add hx
  have hsigned := signed_complement (List.length_pos_iff.mpr hx) hcomplement
  have htotal : (value x + value (y.map (~~~·)) + c.toNat : Int) =
      value x - value y - (1 - c.toNat) + 256 ^ x.length := by
    have hcast : (value (y.map (~~~·)) + value y + 1 : Int) = 256 ^ x.length :=
      mod_cast hcomplement
    rw [← hcast]
    ring
  refine ⟨h.length, ?_, ?_, ?_, hadd.negative⟩
  · rw [hadd.bytes, htotal, Int.add_emod_right]
  · rw [hadd.carry]
    omega
  · rw [hadd.overflow, hsigned]
    ring_nf

end Sums

/-! ## 4. Runs -/

/-- At a boundary with no interrupt to take, the instruction under the program counter applies an
operation to a byte, wherever its mode finds that. -/
structure Applies (op : ReadOp) (v : UInt8) (s : Cpu × FlatMemory) : Prop where
  boundary : s.1.phase = .boundary
  quiet : s.1.interruptToTake s.2 = none
  operation : (Instruction.decode (s.2.peek s.1.regs.pc)).operation = .read op
  operand : s.2.peek (effectiveAddress (Instruction.decode (s.2.peek s.1.regs.pc)).mode
    s.1.regs s.2) = v

/-- The instruction does what it says, and moves the program counter. -/
theorem Applies.regs_stepped {op : ReadOp} {v : UInt8} {s : Cpu × FlatMemory}
    (h : Applies op v s) : ∃ pc, (stepped s).1.regs = op.apply v { s.1.regs with pc } := by
  have hj : (Instruction.decode (s.2.peek s.1.regs.pc)).operation ≠ .jam := by
    rw [h.operation]
    exact nofun
  have hmeans : (stepped s).1.regs = (interpret s.1.regs s.2).1 :=
    congrArg Prod.fst (step_interprets h.boundary h.quiet hj).2
  rw [hmeans, interpret, execute, h.operation]
  exact ⟨_, congrArg (op.apply · _) h.operand⟩

/-- Two numbers are combined byte by byte, from the low end: a byte of the one is loaded, and the
operation takes the byte of the other.  What brings the program from there to the next byte is left
open; it keeps the carry flag.  The results are the bytes in the accumulator. -/
inductive Combines (op : ReadOp) :
    List (UInt8 × UInt8) → Cpu × FlatMemory → List UInt8 → Cpu × FlatMemory → Prop where
  | last {x y : UInt8} {s : Cpu × FlatMemory} (loads : Applies .lda x s)
      (combines : Applies op y (stepped s)) :
      Combines op [(x, y)] s [(stepped (stepped s)).1.regs.a] (stepped (stepped s))
  | next {x y : UInt8} {s s' t : Cpu × FlatMemory} {digits : List (UInt8 × UInt8)}
      {results : List UInt8} (loads : Applies .lda x s) (combines : Applies op y (stepped s))
      (keeps : s'.1.regs.has Flag.carry = (stepped (stepped s)).1.regs.has Flag.carry)
      (rest : Combines op digits s' results t) :
      Combines op ((x, y) :: digits) s ((stepped (stepped s)).1.regs.a :: results) t

/-- The two instructions for a byte leave what the operation makes of the byte loaded, with the
carry flag of before. -/
theorem regs_of_digit {op : ReadOp} {x y : UInt8} {s : Cpu × FlatMemory} (loads : Applies .lda x s)
    (combines : Applies op y (stepped s)) :
    ∃ r : Registers, r.a = x ∧ r.has Flag.carry = s.1.regs.has Flag.carry ∧
      (stepped (stepped s)).1.regs = op.apply y r := by
  obtain ⟨pc, hloaded⟩ := loads.regs_stepped
  obtain ⟨pc', hcombined⟩ := combines.regs_stepped
  refine ⟨_, ?_, ?_, hcombined⟩
  · rw [hloaded]
    rfl
  · rw [hloaded]
    exact (has_assign_of_disjoint (by decide) _ _).trans (has_assign_of_disjoint (by decide) _ _)

/-- **A run leaves the sum**, of the bytes that its operation adds. -/
theorem Combines.sums {op : ReadOp} {addend : UInt8 → UInt8}
    (hop : ∀ y r, op.apply y r = r.add (addend y)) {digits : List (UInt8 × UInt8)}
    {s t : Cpu × FlatMemory} {results : List UInt8} (h : Combines op digits s results t) :
    Sums (digits.map Prod.fst) ((digits.map Prod.snd).map addend) (s.1.regs.has Flag.carry) results
      t.1.regs := by
  induction h with
  | last loads combines =>
    obtain ⟨r, ha, hcarry, hregs⟩ := regs_of_digit loads combines
    rw [hregs, hop, ← ha, ← hcarry]
    exact Sums.singleton r _
  | next loads combines keeps rest ih =>
    obtain ⟨r, ha, hcarry, hregs⟩ := regs_of_digit loads combines
    rw [keeps, hregs, hop] at ih
    rw [hregs, hop, ← ha, ← hcarry]
    refine Sums.cons ?_ (by simp) ih
    cases rest <;> exact List.cons_ne_nil _ _

/-! ## 5. There are such runs -/

/-- An instruction in immediate mode at a boundary, while nothing is requested. -/
structure Immediate (op : ReadOp) (v : UInt8) (s : Cpu × FlatMemory) : Prop where
  boundary : s.1.phase = .boundary
  nmi : s.1.nmi = false
  irq : s.1.irq = false
  line : s.2.irq = false
  instruction : Instruction.decode (s.2.peek s.1.regs.pc) = Instruction.read op .immediate
  operand : s.2.peek (s.1.regs.pc + 1) = v

namespace Immediate

variable {op : ReadOp} {v : UInt8} {s : Cpu × FlatMemory}

theorem applies (h : Immediate op v s) : Applies op v s where
  boundary := h.boundary
  quiet := interruptToTake_eq_none h.nmi h.irq (.inl h.line)
  operation := by rw [h.instruction]; rfl
  operand := by
    rw [h.instruction]
    change s.2.peek (indexed s.1.regs.pc 1) = v
    rw [indexed_ofNat]
    exact h.operand

/-- Its step makes no request, and comes to what is behind it. -/
theorem stepped_eq (h : Immediate op v s) :
    stepped s = ({ s.1 with regs := op.apply v (s.1.regs.advance 2) }.standing .boundary
      (s.1.cycles + 2), s.2) := by
  have hops : Instruction.programOf (AddressBus.read s.1.regs.pc s.2).1 = [.immediate op] := by
    rw [read_flat, Instruction.programOf_eq, h.instruction]
    rfl
  have htwo : (s.1.regs.advance 1).advance 1 = s.1.regs.advance 2 := s.1.regs.advance_advance 1 1
  have hstep := step_boundary h.boundary h.applies.quiet (by rw [hops]; exact List.cons_ne_nil _ _)
  simp only [hops] at hstep
  rw [stepped, hstep, ← htwo, ← h.operand]
  rfl

end Immediate

/-- Whatever the other registers hold, there is a program for one byte. -/
theorem exists_digit {op : ReadOp} (hop : op = .adc ∨ op = .sbc) (x y : UInt8) (r : Registers) :
    ∃ s, s.1.regs = { r with pc := 0 } ∧ Applies .lda x s ∧ Applies op y (stepped s) := by
  have hlda : Instruction.decode 0xA9 = Instruction.read .lda .immediate := by decide
  obtain ⟨opcode, hopcode⟩ :
      ∃ opcode, Instruction.decode opcode = Instruction.read op .immediate := by
    rcases hop with rfl | rfl
    · exact ⟨0x69, by decide⟩
    · exact ⟨0xE9, by decide⟩
  let m := (((({} : FlatMemory).poke 0 0xA9).poke 1 x).poke 2 opcode).poke 3 y
  have hpeek (a : UInt16) : m.peek a =
      if 3 = a then y else if 2 = a then opcode else if 1 = a then x
        else if 0 = a then 0xA9 else 0 := by
    have hblank : ({} : FlatMemory).peek a = 0 := Memory.read_filled 0 a.toNat
    simp only [m, FlatMemory.peek_poke, hblank]
  let s : Cpu × FlatMemory := ({ regs := { r with pc := 0 } }, m)
  have hloads : Immediate .lda x s := by
    refine ⟨rfl, rfl, rfl, rfl, ?_, ?_⟩
    · change Instruction.decode (m.peek 0) = _
      simpa [hpeek] using hlda
    · change m.peek 1 = x
      simp [hpeek]
  have hcombines : Immediate op y (stepped s) := by
    rw [hloads.stepped_eq]
    refine ⟨rfl, rfl, rfl, rfl, ?_, ?_⟩
    · change Instruction.decode (m.peek 2) = _
      simpa [hpeek] using hopcode
    · change m.peek 3 = y
      simp [hpeek]
  exact ⟨s, rfl, hloads.applies, hcombines.applies⟩

/-- Numbers of any length can be combined, from any flags. -/
theorem exists_combines {op : ReadOp} (hop : op = .adc ∨ op = .sbc) {digits : List (UInt8 × UInt8)}
    (hne : digits ≠ []) (r : Registers) :
    ∃ s results t, s.1.regs = { r with pc := 0 } ∧ Combines op digits s results t := by
  induction digits generalizing r with
  | nil => exact absurd rfl hne
  | cons d digits ih =>
    obtain ⟨s, hregs, hloads, hcombines⟩ := exists_digit hop d.1 d.2 r
    cases digits with
    | nil => exact ⟨s, _, _, hregs, .last hloads hcombines⟩
    | cons d' digits =>
      obtain ⟨s', results, t, hregs', hrest⟩ :=
        ih (List.cons_ne_nil d' digits) (stepped (stepped s)).1.regs
      have hkeeps : s'.1.regs.has Flag.carry = (stepped (stepped s)).1.regs.has Flag.carry := by
        rw [hregs']
        rfl
      exact ⟨s, _, t, hregs, .next hloads hcombines hkeeps hrest⟩

/-! ## 6. Addition and subtraction -/

/-- **Arithmetic on numbers of any length is exact.**  Two numbers of `n` bytes can be combined from
whatever registers, the decimal flag among them.  A run of additions leaves the sum of the numbers
and of the carry flag before it; a run of subtractions leaves the difference, less one if that flag
was clear.  Afterwards the carry flag tells that the sum reaches above the `n` bytes, or that the
difference borrows nothing from there. -/
theorem long_arithmetic {digits : List (UInt8 × UInt8)} (hne : digits ≠ []) :
    (∀ op, op = .adc ∨ op = .sbc → ∀ r : Registers,
      ∃ s results t, s.1.regs = { r with pc := 0 } ∧ Combines op digits s results t) ∧
    ∀ s results t,
      let n := digits.length
      let x := value (digits.map Prod.fst)
      let y := value (digits.map Prod.snd)
      let c := (s.1.regs.has Flag.carry).toNat
      (Combines .adc digits s results t →
        Exact n (x + y + c) (signed n x + signed n y + c) (256 ^ n ≤ x + y + c) results t.1.regs) ∧
      (Combines .sbc digits s results t →
        Exact n (x - y - (1 - c)) (signed n x - signed n y - (1 - c)) (y + (1 - c) ≤ x) results
          t.1.regs) := by
  refine ⟨fun op hop r => exists_combines hop hne r, fun s results t => ?_⟩
  intro n x y c
  have hn : (digits.map Prod.fst).length = n := List.length_map ..
  have hx : digits.map Prod.fst ≠ [] := by simpa using hne
  refine ⟨fun h => ?_, fun h => ?_⟩
  · have hsums := h.sums (fun _ _ => rfl : ∀ y r, ReadOp.adc.apply y r = r.add (id y))
    rw [List.map_id'] at hsums
    exact hn ▸ hsums.exact_add hx
  · have hsums := h.sums (fun _ _ => rfl : ∀ y r, ReadOp.sbc.apply y r = r.add (~~~y))
    exact hn ▸ hsums.exact_sub hx (by simp)

/-- Two bytes, with the decimal and the carry flag set: a positive sum that comes out negative. -/
theorem long_arithmetic_into_sign :
    ∃ s results t, s.1.regs.has Flag.decimal = true ∧
      Combines .adc [(0xFF, 0x01), (0x7F, 0x00)] s results t ∧ value results = 0x8001 ∧
      t.1.regs.has Flag.carry = false ∧ t.1.regs.has Flag.overflow = true ∧
      t.1.regs.has Flag.negative = true := by
  obtain ⟨hexists, hexact⟩ := long_arithmetic (List.cons_ne_nil (0xFF, 0x01) [(0x7F, 0x00)])
  obtain ⟨s, results, t, hregs, hrun⟩ := hexists .adc (.inl rfl) { status := 0x2D }
  have hcarry : s.1.regs.has Flag.carry = true := by rw [hregs]; rfl
  have hx : value [0xFF, 0x7F] = 0x7FFF := by decide
  have hy : value [0x01, 0x00] = 0x0001 := by decide
  obtain ⟨-, hbytes, hcarries, hoverflow, hnegative⟩ := (hexact s results t).1 hrun
  simp only [List.map_cons, List.map_nil, List.length_cons, List.length_nil, hx, hy, hcarry]
    at hbytes hcarries hoverflow
  have hresult : value results = 0x8001 := by
    have : (value results : Int) = 0x8001 := hbytes
    omega
  refine ⟨s, results, t, by rw [hregs]; rfl, hrun, hresult, ?_, ?_, ?_⟩
  · rw [Bool.eq_false_iff, Ne, hcarries]
    decide
  · exact hoverflow.mpr (.inr (by decide))
  · rw [hnegative, hresult]
    decide

end Famicom.Cpu
