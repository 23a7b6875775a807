/-
# Instructions at once

The processor spends several cycles on an instruction and keeps half-made addresses in latches
meanwhile.  What the instruction means needs none of that.  `interpret` says it in one go, on a
memory of 64 KiB: find the operand by arithmetic on the operand bytes, apply the operation once,
store at most once at the effective address, move the stack inside page 1, and go on behind the
instruction unless it transfers control.

The sums are written in numbers, with their wraps, so that nothing here depends on how the microcode
puts an address together:

* sums and pointers of page zero wrap at 256;
* sums on a whole address wrap at 65536;
* an indirect jump takes the second byte of its target from the page of the first.

Section 3 gives each of these sums in the bytes and words that the microcode works with.
-/
import Famicom.Cpu.Opcode
import Famicom.FlatMemory

namespace Famicom.Cpu.Interpreter

/-! ## 1. Addresses -/

/-- The address made of two bytes. -/
def address (low high : UInt8) : UInt16 := .ofNat (low.toNat + 256 * high.toNat)

/-- A cell of page zero, some way behind another. -/
def zeroPage (base : UInt8) (offset : Nat) : UInt16 := .ofNat ((base.toNat + offset) % 256)

/-- The address some way behind another. -/
def indexed (base : UInt16) (offset : Nat) : UInt16 := .ofNat ((base.toNat + offset) % 65536)

/-- The `n` addresses from one on. -/
def Stretch (base : UInt16) (n : Nat) (a : UInt16) : Prop := ∃ i < n, a = indexed base i

/-- The cell of the stack that a stack pointer names. -/
def stackCell (sp : UInt8) : UInt16 := .ofNat (0x100 + sp.toNat)

/-- The address behind another within its page, so that the last of a page is followed by the
first. -/
def nextInPage (a : UInt16) : UInt16 := .ofNat (a.toNat / 256 * 256 + (a.toNat + 1) % 256)

/-- Where a branch goes from the address behind it: up to 127 on, or up to 128 back. -/
def branchTarget (next : UInt16) (offset : UInt8) : UInt16 :=
  if offset.toNat < 128 then indexed next offset.toNat
  else indexed next (65536 - (256 - offset.toNat))

/-- An operand byte of the instruction at `pc`, counted from 1. -/
def operand (m : FlatMemory) (pc : UInt16) (i : Nat) : UInt8 := m.peek (indexed pc i)

/-- The two operand bytes as an address. -/
def operandAddress (m : FlatMemory) (pc : UInt16) : UInt16 :=
  address (operand m pc 1) (operand m pc 2)

/-- The address that two cells of page zero hold, some way behind a place. -/
def pointerAt (m : FlatMemory) (place : UInt8) (offset : Nat) : UInt16 :=
  address (m.peek (zeroPage place offset)) (m.peek (zeroPage place (offset + 1)))

/-- The address to which a mode that indexes a whole address adds its index. -/
def baseAddress (mode : Mode) (m : FlatMemory) (pc : UInt16) : UInt16 :=
  match mode with
  | .indirectY => pointerAt m (operand m pc 1) 0
  | _ => operandAddress m pc

/-- Where the operand of the instruction at the program counter lies. -/
def effectiveAddress (mode : Mode) (r : Registers) (m : FlatMemory) : UInt16 :=
  match mode with
  | .zeroPage => zeroPage (operand m r.pc 1) 0
  | .zeroPageX => zeroPage (operand m r.pc 1) r.x.toNat
  | .zeroPageY => zeroPage (operand m r.pc 1) r.y.toNat
  | .absolute | .indirect => operandAddress m r.pc
  | .absoluteX => indexed (operandAddress m r.pc) r.x.toNat
  | .absoluteY => indexed (operandAddress m r.pc) r.y.toNat
  | .indirectX => pointerAt m (operand m r.pc 1) r.x.toNat
  | .indirectY => indexed (pointerAt m (operand m r.pc 1) 0) r.y.toNat
  | .immediate | .implied | .accumulator | .relative => indexed r.pc 1

/-- One more than the page of the address before indexing, which the unstable stores mix in. -/
def storePage (mode : Mode) (m : FlatMemory) (pc : UInt16) : UInt8 :=
  .ofNat ((baseAddress mode m pc).toNat / 256 + 1)

/-! ## 2. Instructions -/

/-- A byte goes to the stack. -/
def pushByte (v : UInt8) : Registers × FlatMemory → Registers × FlatMemory
  | (r, m) => ({ r with sp := r.sp - 1 }, m.poke (stackCell r.sp) v)

/-- An address goes to the stack, its high byte first. -/
def pushAddress (a : UInt16) (s : Registers × FlatMemory) : Registers × FlatMemory :=
  pushByte (.ofNat a.toNat) (pushByte (.ofNat (a.toNat / 256)) s)

/-- The byte that is pulled `i`-th, counted from 1. -/
def pulledByte (r : Registers) (m : FlatMemory) (i : UInt8) : UInt8 := m.peek (stackCell (r.sp + i))

/-- The registers and the memory after a transfer of control or a stack operation; `next` is the
address behind the instruction. -/
def transfer (c : Control) (r : Registers) (next : UInt16) (m : FlatMemory) :
    Registers × FlatMemory :=
  match c with
  | .brk =>
    let (s, m) := pushByte (r.pushedStatus true) (pushAddress (indexed r.pc 2) (r, m))
    let target := address (m.peek 0xFFFE) (m.peek 0xFFFF)
    ({ s with pc := target }.assign Flag.interruptDisable true, m)
  | .jsr =>
    let low := operand m r.pc 1
    let (s, m) := pushAddress (indexed r.pc 2) (r, m)
    -- The pushes may have changed the byte that is read after them.
    ({ s with pc := address low (operand m r.pc 2) }, m)
  | .rts =>
    let target := address (pulledByte r m 1) (pulledByte r m 2)
    ({ r with sp := r.sp + 2, pc := indexed target 1 }, m)
  | .rti =>
    let target := address (pulledByte r m 2) (pulledByte r m 3)
    ({ r.restoreStatus (pulledByte r m 1) with sp := r.sp + 3, pc := target }, m)
  | .jump => ({ r with pc := operandAddress m r.pc }, m)
  | .jumpIndirect =>
    let a := operandAddress m r.pc
    ({ r with pc := address (m.peek a) (m.peek (nextInPage a)) }, m)
  | .pha => pushByte r.a ({ r with pc := next }, m)
  | .php => pushByte (r.pushedStatus true) ({ r with pc := next }, m)
  | .pla => ({ r with sp := r.sp + 1, pc := next }.loadA (pulledByte r m 1), m)
  | .plp => ({ r with sp := r.sp + 1, pc := next }.restoreStatus (pulledByte r m 1), m)

/-- The registers and the memory after an instruction at the program counter. -/
def execute (i : Instruction) (r : Registers) (m : FlatMemory) : Registers × FlatMemory :=
  let a := effectiveAddress i.mode r m
  let next := indexed r.pc i.size
  let s := { r with pc := next }
  match i.operation with
  | .read op => (op.apply (m.peek a) s, m)
  | .write op =>
    let (v, s) := op.apply (storePage i.mode m r.pc) s
    (s, m.poke a v)
  | .modify op =>
    if i.mode = .accumulator then
      let (v, s) := op.apply r.a s
      ({ s with a := v }, m)
    else
      let (v, s) := op.apply (m.peek a) s
      (s, m.poke a v)
  | .implied op => (op.apply s, m)
  | .branch condition =>
    if condition.holds r then ({ r with pc := branchTarget next (operand m r.pc 1) }, m) else (s, m)
  | .control c => transfer c r next m
  | .jam => (s, m)

/-- The registers and the memory after the instruction whose opcode is at the program counter. -/
def interpret (r : Registers) (m : FlatMemory) : Registers × FlatMemory :=
  execute (Instruction.decode (m.peek r.pc)) r m

/-! ## 3. The sums in bytes and words -/

theorem address_eq (low high : UInt8) : address low high = word low high := by
  apply UInt16.toNat_inj.mp
  have := low.toNat_lt
  have := high.toNat_lt
  rw [toNat_word, address, UInt16.toNat_ofNat']
  omega

theorem zeroPage_zero (b : UInt8) : zeroPage b 0 = b.toUInt16 := by
  apply UInt16.toNat_inj.mp
  have := b.toNat_lt
  simp only [zeroPage, UInt16.toNat_ofNat', UInt8.toNat_toUInt16]
  omega

theorem zeroPage_toNat (b i : UInt8) : zeroPage b i.toNat = (b + i).toUInt16 := by
  apply UInt16.toNat_inj.mp
  simp only [zeroPage, UInt16.toNat_ofNat', UInt8.toNat_toUInt16, UInt8.toNat_add]
  omega

theorem zeroPage_toNat_succ (b i : UInt8) : zeroPage b (i.toNat + 1) = (b + i + 1).toUInt16 := by
  apply UInt16.toNat_inj.mp
  simp only [zeroPage, UInt16.toNat_ofNat', UInt8.toNat_toUInt16, UInt8.toNat_add,
    UInt8.reduceToNat]
  omega

theorem zeroPage_one (b : UInt8) : zeroPage b 1 = (b + 1).toUInt16 := by
  simpa using zeroPage_toNat b 1

theorem indexed_ofNat (a : UInt16) (i : Nat) : indexed a i = a + .ofNat i := by
  apply UInt16.toNat_inj.mp
  simp only [indexed, UInt16.toNat_ofNat', UInt16.toNat_add]
  omega

theorem indexed_zero (a : UInt16) : indexed a 0 = a := by
  rw [indexed_ofNat]
  exact UInt16.add_zero a

theorem indexed_indexed (a : UInt16) (i j : Nat) :
    indexed (indexed a i) j = indexed a (i + j) := by
  rw [indexed_ofNat, indexed_ofNat, indexed_ofNat, UInt16.add_assoc, UInt16.ofNat_add]

theorem stackCell_eq (sp : UInt8) : stackCell sp = word sp 0x01 := by
  apply UInt16.toNat_inj.mp
  have := sp.toNat_lt
  simp only [stackCell, toNat_word, UInt16.toNat_ofNat', UInt8.reduceToNat]
  omega

theorem nextInPage_eq (a : UInt16) : nextInPage a = word (lowByte a + 1) (highByte a) := by
  apply UInt16.toNat_inj.mp
  have := a.toNat_lt
  simp only [nextInPage, toNat_word, UInt16.toNat_ofNat', UInt8.toNat_add, toNat_lowByte,
    toNat_highByte, UInt8.reduceToNat]
  omega

/-- Stepping back is adding what is missing to 65536. -/
theorem toNat_displacement (b : UInt8) :
    (displacement b).toNat = if b.toNat < 128 then b.toNat else 65536 - (256 - b.toNat) :=
  forall_byte b (by decide +kernel)

theorem branchTarget_eq (next : UInt16) (b : UInt8) :
    branchTarget next b = next + displacement b := by
  apply UInt16.toNat_inj.mp
  rw [UInt16.toNat_add, toNat_displacement, branchTarget]
  split <;> simp only [indexed, UInt16.toNat_ofNat'] <;> omega

theorem ofNat_toNat_eq_lowByte (a : UInt16) : UInt8.ofNat a.toNat = lowByte a := by
  apply UInt8.toNat_inj.mp
  rw [toNat_lowByte, UInt8.toNat_ofNat']

theorem ofNat_div_eq_highByte (a : UInt16) : UInt8.ofNat (a.toNat / 256) = highByte a := by
  apply UInt8.toNat_inj.mp
  have := a.toNat_lt
  rw [toNat_highByte, UInt8.toNat_ofNat']
  omega

theorem pushAddress_eq (a : UInt16) (r : Registers) (m : FlatMemory) :
    pushAddress a (r, m) =
      ({ r with sp := r.sp - 1 - 1 },
        (m.poke (word r.sp 0x01) (highByte a)).poke (word (r.sp - 1) 0x01) (lowByte a)) := by
  simp only [pushAddress, pushByte, stackCell_eq, ofNat_toNat_eq_lowByte, ofNat_div_eq_highByte]

theorem storePage_eq (mode : Mode) (m : FlatMemory) (pc : UInt16) :
    storePage mode m pc = highByte (baseAddress mode m pc) + 1 := by
  apply UInt8.toNat_inj.mp
  simp only [storePage, UInt8.toNat_ofNat', UInt8.toNat_add, toNat_highByte, UInt8.reduceToNat]

end Famicom.Cpu.Interpreter
