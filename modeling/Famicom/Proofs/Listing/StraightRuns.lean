/-
# The processor follows its listing

A listing goes from one instruction to the next by the size that the opcode table gives.  The
processor fetches what its microcode asks for and then goes on where its program counter is.  As
long as it runs straight on they keep in step (`straightRun_listed`): **the processor stops at the
addresses of the lines, one after the other**.  Where it leaves the straight line it does so as the
line says: a branch goes to the address that is printed, and a call pushes the address of the last
byte of its own line.

The listing is made before the run, so the run must not change the bytes that are listed.  Nothing
else is asked of what it stores, and neither the code nor the count of instructions is bounded: the
addresses of both count modulo 65536.
-/
import Famicom.Proofs.Cpu.LongArithmetic
import Famicom.Proofs.Cpu.StackFrames
import Famicom.Proofs.Listing.Lossless
import Mathlib.Logic.Function.Iterate

namespace Famicom.Cpu

open Interpreter

/-! ## 1. Running straight on -/

/-- The instruction under the program counter. -/
def upcoming (s : Cpu × FlatMemory) : Instruction := Instruction.decode (s.2.peek s.1.regs.pc)

/-- The operation is followed by what is behind it. -/
def Operation.goesOn (r : Registers) : Operation → Bool
  | .branch condition => !condition.holds r
  | .control c => c.fallsThrough
  | .jam => false
  | .read _ | .write _ | .modify _ | .implied _ => true

theorem ne_jam_of_goesOn {op : Operation} {r : Registers} (h : op.goesOn r = true) :
    op ≠ .jam := by
  rintro rfl
  cases h

/-- What goes on goes on behind the instruction. -/
theorem pc_execute {i : Instruction} {r : Registers} (h : i.operation.goesOn r = true)
    (m : FlatMemory) : (execute i r m).1.pc = indexed r.pc i.size := by
  obtain ⟨mode, operation, standing⟩ := i
  cases operation with
  | read op => exact congrArg Registers.pc (op.apply_pc _ r _)
  | write op => exact congrArg (fun e => e.2.pc) (op.apply_pc _ r _)
  | modify op =>
    simp only [execute]
    split
    · exact congrArg (fun e => e.2.pc) (op.apply_pc _ r _)
    · exact congrArg (fun e => e.2.pc) (op.apply_pc _ r _)
  | implied op => exact congrArg Registers.pc (op.apply_pc r _)
  | branch condition =>
    have hnot : condition.holds r = false := by simpa [Operation.goesOn] using h
    simp only [execute, hnot]
    rfl
  | control c => cases c <;> first | rfl | cases h
  | jam => cases h

/-- No interrupt comes before the instruction, it goes on behind itself, and it leaves the code as
it was. -/
structure Straight (code : UInt16 → Prop) (s : Cpu × FlatMemory) : Prop where
  quiet : s.1.interruptToTake s.2 = none
  goesOn : (upcoming s).operation.goesOn s.1.regs = true
  kept : ∀ a, code a → (stepped s).2.peek a = s.2.peek a

/-- So do the first `n` instructions. -/
def StraightRun (code : UInt16 → Prop) (n : Nat) (s : Cpu × FlatMemory) : Prop :=
  ∀ i < n, Straight code (stepped^[i] s)

/-- A straight instruction leads to the next. -/
theorem Straight.pc_stepped {code : UInt16 → Prop} {s : Cpu × FlatMemory} (h : Straight code s)
    (hb : s.1.phase = .boundary) :
    (stepped s).1.phase = .boundary ∧ (stepped s).1.regs.pc = following s.2.peek s.1.regs.pc := by
  obtain ⟨hphase, hmeans⟩ := step_interprets hb h.quiet (ne_jam_of_goesOn h.goesOn)
  refine ⟨hphase, ?_⟩
  rw [following, ← indexed_ofNat]
  exact (congrArg (fun e => e.1.pc) hmeans).trans (pc_execute h.goesOn s.2)

/-- Where a straight run is after some instructions: between two of them, as far on as their sizes
say, and the code is what it was. -/
structure Follows (code : UInt16 → Prop) (s t : Cpu × FlatMemory) (i : Nat) : Prop where
  phase : t.1.phase = .boundary
  pc_eq : t.1.regs.pc = (following s.2.peek)^[i] s.1.regs.pc
  code_eq : ∀ a, code a → t.2.peek a = s.2.peek a

/-- **A straight run goes from one instruction to the next**, if their opcodes are in the code. -/
theorem StraightRun.follows {code : UInt16 → Prop} {n : Nat} {s : Cpu × FlatMemory}
    (hb : s.1.phase = .boundary) (h : StraightRun code n s)
    (hcode : ∀ i < n, code ((following s.2.peek)^[i] s.1.regs.pc)) {i : Nat} (hi : i ≤ n) :
    Follows code s (stepped^[i] s) i := by
  induction i with
  | zero => exact ⟨hb, rfl, fun _ _ => rfl⟩
  | succ i ih =>
    have hbefore := ih (Nat.le_of_succ_le hi)
    have hstraight := h i hi
    obtain ⟨hphase, hpc⟩ := hstraight.pc_stepped hbefore.phase
    rw [Function.iterate_succ_apply']
    refine ⟨hphase, ?_, fun a ha => (hstraight.kept a ha).trans (hbefore.code_eq a ha)⟩
    rw [hpc, following, hbefore.pc_eq, hbefore.code_eq _ (hcode i hi),
      Function.iterate_succ_apply', following]

/-! ## 2. Lines one after the other -/

section Lines

variable {peek : UInt16 → UInt8}

theorem length_bytes_lineAt (peek : UInt16 → UInt8) (a : UInt16) :
    (lineAt peek a).bytes.length = (lineAt peek a).instruction.size := by
  rw [Line.bytes, List.length_cons, lineAt, List.length_map, List.length_range, Nat.add_comm]
  rfl

theorem fits_lineAt (peek : UInt16 → UInt8) (a : UInt16) : (lineAt peek a).Fits :=
  Nat.le_of_eq (length_bytes_lineAt peek a)

theorem linesFrom_eq_map (peek : UInt16 → UInt8) (start : UInt16) (n : Nat) :
    linesFrom peek start n =
      (List.range n).map fun i => lineAt peek ((following peek)^[i] start) := by
  induction n generalizing start with
  | zero => rfl
  | succ n ih =>
    rw [linesFrom_succ, ih, List.range_succ_eq_map, List.map_cons, List.map_map]
    rfl

/-- The addresses of the bytes that are listed. -/
def Listed (peek : UInt16 → UInt8) (start : UInt16) (n : Nat) (a : UInt16) : Prop :=
  ∃ l ∈ linesFrom peek start n, Stretch l.address l.instruction.size a

/-- Every byte of an instruction that is reached is listed. -/
theorem listed_of_stretch {start : UInt16} {i n : Nat} (hi : i < n) {a : UInt16}
    (ha : Stretch ((following peek)^[i] start)
      (Instruction.decode (peek ((following peek)^[i] start))).size a) :
    Listed peek start n a := by
  refine ⟨lineAt peek ((following peek)^[i] start), ?_, ha⟩
  rw [linesFrom_eq_map]
  exact List.mem_map_of_mem (List.mem_range.mpr hi)

theorem listed_opcode (peek : UInt16 → UInt8) (start : UInt16) {i n : Nat} (hi : i < n) :
    Listed peek start n ((following peek)^[i] start) :=
  listed_of_stretch hi ⟨0, Instruction.size_pos _, (indexed_zero _).symm⟩

/-- A line shows what is in its own bytes. -/
theorem lineAt_congr {peek' : UInt16 → UInt8} {a : UInt16}
    (h : ∀ b, Stretch a (Instruction.decode (peek a)).size b → peek' b = peek b) :
    lineAt peek' a = lineAt peek a := by
  have hopcode : peek' a = peek a := h a ⟨0, Instruction.size_pos _, (indexed_zero a).symm⟩
  have hoperand : ∀ i ∈ List.range (Instruction.decode (peek a)).mode.operandLength,
      peek' (a + 1 + .ofNat i) = peek (a + 1 + .ofNat i) := by
    intro i hi
    refine h _ ⟨1 + i, ?_, ?_⟩
    · rw [Instruction.size]
      exact Nat.add_lt_add_left (List.mem_range.mp hi) 1
    · rw [indexed_ofNat, UInt16.ofNat_add, UInt16.add_assoc]
      rfl
  rw [lineAt, lineAt, hopcode, List.map_congr_left hoperand]

end Lines

/-! ## 3. Where the straight line is left -/

/-- A branch is taken next. -/
def TakesBranch (s : Cpu × FlatMemory) : Prop :=
  ∃ condition, (upcoming s).operation = .branch condition ∧ condition.holds s.1.regs = true

/-- A subroutine is called next. -/
def Calls (s : Cpu × FlatMemory) : Prop := (upcoming s).operation = .control .jsr

variable {s : Cpu × FlatMemory}

/-- A branch is written with the address behind it, moved by its byte. -/
theorem operandText_lineAt {peek : UInt16 → UInt8} {a : UInt16}
    (h : (Instruction.decode (peek a)).mode = .relative) :
    (lineAt peek a).operandText = "$" ++ Hex.word (Interpreter.branchTarget
      (indexed a (Instruction.decode (peek a)).size) (peek (indexed a 1))) := by
  have hcomplete : (lineAt peek a).isComplete = true :=
    beq_iff_eq.mpr (length_bytes_lineAt peek a)
  have hmode : (lineAt peek a).instruction.mode = .relative := h
  have hoperand : (lineAt peek a).operand = [peek (indexed a 1)] := by
    simp only [lineAt, h, indexed_ofNat]
    exact congrArg (fun b => [peek b]) (UInt16.add_zero _)
  rw [Line.operandText, if_pos hcomplete, hmode, hoperand, branchTarget_eq, indexed_ofNat,
    indexed_ofNat]
  rfl

theorem pc_execute_of_branch {i : Instruction} {condition : Condition}
    (hop : i.operation = .branch condition) {r : Registers} (h : condition.holds r = true)
    (m : FlatMemory) :
    (execute i r m).1.pc =
      Interpreter.branchTarget (indexed r.pc i.size) (m.peek (indexed r.pc 1)) := by
  simp only [execute, hop, if_pos h]
  rfl

theorem TakesBranch.target_eq (h : TakesBranch s) (hb : s.1.phase = .boundary)
    (hi : s.1.interruptToTake s.2 = none) :
    Printed.target (lineAt s.2.peek s.1.regs.pc).render = some (stepped s).1.regs.pc.toNat := by
  obtain ⟨condition, hop, hholds⟩ := h
  have hmode : (upcoming s).mode = .relative := by
    have hformed := isWellFormed_decode (s.2.peek s.1.regs.pc)
    change (upcoming s).isWellFormed = true at hformed
    simpa [Instruction.isWellFormed, hop] using hformed
  have hj : (upcoming s).operation ≠ .jam := by simp [hop]
  obtain ⟨-, hmeans⟩ := step_interprets hb hi hj
  have hpc : (stepped s).1.regs.pc = Interpreter.branchTarget
      (indexed s.1.regs.pc (upcoming s).size) (s.2.peek (indexed s.1.regs.pc 1)) :=
    (congrArg (fun e => e.1.pc) hmeans).trans (pc_execute_of_branch hop hholds s.2)
  have htext : Printed.operand (lineAt s.2.peek s.1.regs.pc).render =
      '$' :: (Hex.word (stepped s).1.regs.pc).toList := by
    rw [Printed.operand_render, operandText_lineAt hmode, String.toList_append, hpc]
    rfl
  rw [Printed.target, htext]
  exact Hex.number_word _

theorem size_of_jsr (opcode : UInt8)
    (h : (Instruction.decode opcode).operation = .control .jsr) :
    (Instruction.decode opcode).size = 3 := by
  revert h
  exact forall_byte opcode (by decide +kernel)

theorem pushAddress_eq_pushBytes (a : UInt16) (e : Registers × FlatMemory) :
    pushAddress a e = pushBytes [highByte a, lowByte a] e := by
  rw [pushAddress, ofNat_toNat_eq_lowByte, ofNat_div_eq_highByte]
  rfl

/-- A word that was pushed is on the stack with its low byte below the high one. -/
theorem word_pushed (a : UInt16) (e : Registers × FlatMemory) :
    word ((pushAddress a e).2.peek (stackCell (e.1.sp - 1)))
      ((pushAddress a e).2.peek (stackCell e.1.sp)) = a := by
  have hbytes (i : Nat) (hi : i < 2) :
      (pushAddress a e).2.peek (stackCell (e.1.sp - .ofNat i)) = [highByte a, lowByte a][i] := by
    rw [pushAddress_eq_pushBytes]
    exact peek_pushBytes (by simp) e hi
  have hhigh := hbytes 0 (by decide)
  rw [show e.1.sp - .ofNat 0 = e.1.sp from UInt8.sub_zero _] at hhigh
  rw [hhigh, show (1 : UInt8) = .ofNat 1 from rfl, hbytes 1 (by decide)]
  exact word_lowByte_highByte a

/-- A call pushes the address of its last byte before it reads the rest of its target. -/
theorem execute_of_jsr {i : Instruction} (hop : i.operation = .control .jsr) (r : Registers)
    (m : FlatMemory) :
    (execute i r m).1.sp = (pushAddress (indexed r.pc 2) (r, m)).1.sp ∧
      (execute i r m).2 = (pushAddress (indexed r.pc 2) (r, m)).2 := by
  simp only [execute, hop]
  exact ⟨rfl, rfl⟩

/-- So it pushes that address, whatever it finds for a target. -/
theorem Calls.pushed (h : Calls s) (hb : s.1.phase = .boundary)
    (hi : s.1.interruptToTake s.2 = none) :
    (stepped s).1.regs.sp = (pushAddress (indexed s.1.regs.pc 2) (s.1.regs, s.2)).1.sp ∧
      (stepped s).2 = (pushAddress (indexed s.1.regs.pc 2) (s.1.regs, s.2)).2 := by
  have hop : (upcoming s).operation = .control .jsr := h
  have hj : (upcoming s).operation ≠ .jam := by simp [hop]
  obtain ⟨-, hmeans⟩ := step_interprets hb hi hj
  obtain ⟨hsp, hmem⟩ := execute_of_jsr hop s.1.regs s.2
  exact ⟨(congrArg (fun e => e.1.sp) hmeans).trans hsp, (congrArg Prod.snd hmeans).trans hmem⟩

/-- What the text of a line tells of the processor about to run its instruction. -/
structure Printed.Foretells (text : String) (s : Cpu × FlatMemory) : Prop where
  address_eq : Printed.address text = some s.1.regs.pc.toNat
  /-- **A branch goes where its line says.** -/
  target_eq : TakesBranch s → target text = some (stepped s).1.regs.pc.toNat
  /-- **A call pushes the address of the last byte of its line**, the low byte below the high. -/
  pushed_eq : Calls s → word ((stepped s).2.peek (stackCell (s.1.regs.sp - 1)))
    ((stepped s).2.peek (stackCell s.1.regs.sp)) =
      s.1.regs.pc + .ofNat ((bytes text).length - 1)
  pushed_sp : Calls s → (stepped s).1.regs.sp = s.1.regs.sp - 2

/-- **A line foretells what its instruction does.** -/
theorem foretells_lineAt (hb : s.1.phase = .boundary) (hi : s.1.interruptToTake s.2 = none) :
    Printed.Foretells (lineAt s.2.peek s.1.regs.pc).render s where
  address_eq := Printed.address_render _
  target_eq h := h.target_eq hb hi
  pushed_eq h := by
    have hlength : (lineAt s.2.peek s.1.regs.pc).bytes.length = 3 :=
      (length_bytes_lineAt _ _).trans (size_of_jsr _ h)
    rw [(h.pushed hb hi).2, Printed.bytes_render (fits_lineAt _ _), hlength, ← indexed_ofNat]
    exact word_pushed _ (s.1.regs, s.2)
  pushed_sp h := by
    rw [(h.pushed hb hi).1, pushAddress_eq_pushBytes, sp_pushBytes]
    rfl

/-! ## 4. The listing of a run -/

/-- The line of the instruction that is reached is in the listing, whose bytes the memory still
has. -/
theorem Follows.texts_getElem? {t : Cpu × FlatMemory} {n : Nat}
    (h : Follows (Listed s.2.peek s.1.regs.pc (n + 1)) s t n) :
    (disassembleFrom s.2.peek s.1.regs.pc (n + 1))[n]? =
      some (lineAt t.2.peek t.1.regs.pc).render := by
  have hline : lineAt t.2.peek t.1.regs.pc = lineAt s.2.peek t.1.regs.pc := by
    refine lineAt_congr fun a ha => h.code_eq a (listed_of_stretch (Nat.lt_succ_self n) ?_)
    rwa [h.pc_eq] at ha
  rw [hline, h.pc_eq]
  simp [disassembleFrom, linesFrom_eq_map]

/-- **The processor stops at the lines of its listing**, one after the other, as long as it runs
straight on; and at the line that it then comes to it does what that line says. -/
theorem straightRun_listed (s : Cpu × FlatMemory) (hb : s.1.phase = .boundary) (n : Nat) :
    let texts := disassembleFrom s.2.peek s.1.regs.pc
    let code := Listed s.2.peek s.1.regs.pc
    (StraightRun (code n) n s →
      (texts n).map Printed.address =
          (List.range n).map (fun i => some (stepped^[i] s).1.regs.pc.toNat) ∧
        ∀ i ≤ n, (stepped^[i] s).1.phase = .boundary) ∧
    (StraightRun (code (n + 1)) n s →
      (stepped^[n] s).1.interruptToTake (stepped^[n] s).2 = none →
      ∃ text, (texts (n + 1))[n]? = some text ∧ Printed.Foretells text (stepped^[n] s)) := by
  intro texts code
  have hopcode (m i : Nat) (hi : i < m) : code m ((following s.2.peek)^[i] s.1.regs.pc) :=
    listed_opcode _ _ hi
  constructor
  · intro hrun
    have hfollows (i : Nat) (hi : i ≤ n) := hrun.follows hb (hopcode n) hi
    refine ⟨?_, fun i hi => (hfollows i hi).phase⟩
    simp only [texts, disassembleFrom, linesFrom_eq_map, List.map_map]
    refine List.map_congr_left fun i hi => ?_
    have hpc := (hfollows i (Nat.le_of_lt (List.mem_range.mp hi))).pc_eq
    rw [hpc, Function.comp_apply, Function.comp_apply, Printed.address_render]
    rfl
  · intro hrun hquiet
    have hfollows := hrun.follows hb (fun i hi => hopcode (n + 1) i (Nat.lt_succ_of_lt hi))
      (Nat.le_refl n)
    exact ⟨_, hfollows.texts_getElem?, foretells_lineAt hfollows.phase hquiet⟩

/-- An instruction with an immediate operand runs straight on, whatever the code is. -/
theorem Immediate.straightRun {op : ReadOp} {v : UInt8} (h : Immediate op v s)
    (code : UInt16 → Prop) : StraightRun code 1 s := by
  intro i hi
  obtain rfl := Nat.lt_one_iff.mp hi
  refine ⟨h.applies.quiet, ?_, fun a _ => ?_⟩
  · have hop : (upcoming s).operation = .read op := h.applies.operation
    rw [Function.iterate_zero_apply, hop]
    rfl
  · rw [Function.iterate_zero_apply, h.stepped_eq]

/-- A load whose operand is the last byte of the address space, with a branch or a call behind it at
address 0. -/
theorem straightRun_listed_across_wrap :
    let load := ({} : FlatMemory).poke 0xFFFE 0xA9
    let branch := (load.poke 0 0xF0).poke 1 0xFC
    let call := ((load.poke 0 0x20).poke 1 0x34).poke 2 0x12
    let start (m : FlatMemory) : Cpu × FlatMemory := ({ regs := { pc := 0xFFFE } }, m)
    let texts (m : FlatMemory) := disassembleFrom m.peek 0xFFFE
    ((texts branch 1).map Printed.address = [some 0xFFFE] ∧
      texts branch 2 = ["FFFE  A9 00     LDA #$00", "0000  F0 FC     BEQ $FFFE"] ∧
      (stepped (start branch)).1.regs.pc = 0 ∧
      (stepped (stepped (start branch))).1.regs.pc = 0xFFFE) ∧
    ((texts call 1).map Printed.address = [some 0xFFFE] ∧
      texts call 2 = ["FFFE  A9 00     LDA #$00", "0000  20 34 12  JSR $1234"] ∧
      (stepped (start call)).1.regs.pc = 0 ∧
      (stepped (stepped (start call))).1.regs.sp = 0xFB ∧
      word ((stepped (stepped (start call))).2.peek 0x01FC)
        ((stepped (stepped (start call))).2.peek 0x01FD) = 2) := by
  intro load branch call start texts
  have hblank (a : UInt16) : ({} : FlatMemory).peek a = 0 := Memory.read_filled 0 a.toNat
  -- Both programs begin alike, with an instruction that leaves the memory alone.
  have hload {m : FlatMemory} (hline : m.irq = false) (hop : m.peek 0xFFFE = 0xA9)
      (hbyte : m.peek 0xFFFF = 0) {first second : String} (htexts : texts m 2 = [first, second]) :
      (texts m 1).map Printed.address = [some 0xFFFE] ∧
        (stepped (start m)).1.regs = { pc := 0, status := 0x26 } ∧ (stepped (start m)).2 = m ∧
        Printed.Foretells second (stepped (start m)) := by
    have himmediate : Immediate .lda 0 (start m) := by
      refine ⟨rfl, rfl, rfl, hline, ?_, hbyte⟩
      change Instruction.decode (m.peek 0xFFFE) = _
      rw [hop]
      decide
    have hstep := himmediate.stepped_eq
    have hquiet : (stepped (start m)).1.interruptToTake (stepped (start m)).2 = none := by
      rw [hstep]
      exact interruptToTake_eq_none rfl rfl (.inl hline)
    obtain ⟨hstops, hforetells⟩ := straightRun_listed (start m) rfl 1
    obtain ⟨text, htext, htells⟩ := hforetells (himmediate.straightRun _) hquiet
    have hsecond : second = text := Option.some.inj ((congrArg (·[1]?) htexts).symm.trans htext)
    refine ⟨(hstops (himmediate.straightRun _)).1, ?_, ?_, hsecond ▸ htells⟩
    · rw [hstep]
      change ReadOp.lda.apply 0 (({ pc := 0xFFFE } : Registers).advance 2) = _
      decide
    · rw [hstep]
  constructor
  · have hpeek (a : UInt16) : branch.peek a =
        if 1 = a then 0xFC else if 0 = a then 0xF0 else if 0xFFFE = a then 0xA9 else 0 := by
      simp only [branch, load, FlatMemory.peek_poke, hblank]
    have htexts : texts branch 2 =
        ["FFFE  A9 00     LDA #$00", "0000  F0 FC     BEQ $FFFE"] := by
      simp only [texts, funext hpeek]
      decide +kernel
    obtain ⟨hstops, hregs, hmem, htells⟩ := hload rfl (hpeek _) (hpeek _) htexts
    have htakes : TakesBranch (stepped (start branch)) := by
      refine ⟨.beq, ?_, ?_⟩
      · rw [upcoming, hregs, hmem, hpeek]
        decide
      · rw [hregs]
        decide
    have htarget : Printed.target "0000  F0 FC     BEQ $FFFE" = some (0xFFFE : UInt16).toNat := by
      decide +kernel
    refine ⟨hstops, htexts, by rw [hregs], UInt16.toNat_inj.mp ?_⟩
    exact Option.some.inj ((htells.target_eq htakes).symm.trans htarget)
  · have hpeek (a : UInt16) : call.peek a =
        if 2 = a then 0x12 else if 1 = a then 0x34 else if 0 = a then 0x20
          else if 0xFFFE = a then 0xA9 else 0 := by
      simp only [call, load, FlatMemory.peek_poke, hblank]
    have htexts : texts call 2 =
        ["FFFE  A9 00     LDA #$00", "0000  20 34 12  JSR $1234"] := by
      simp only [texts, funext hpeek]
      decide +kernel
    obtain ⟨hstops, hregs, hmem, htells⟩ := hload rfl (hpeek _) (hpeek _) htexts
    have hcalls : Calls (stepped (start call)) := by
      rw [Calls, upcoming, hregs, hmem, hpeek]
      decide
    have hshown : (Printed.bytes "0000  20 34 12  JSR $1234").length = 3 := by decide +kernel
    have hsp := htells.pushed_sp hcalls
    have hpushed := htells.pushed_eq hcalls
    rw [hregs] at hsp
    rw [hregs, hshown] at hpushed
    exact ⟨hstops, htexts, by rw [hregs], hsp, hpushed⟩

end Famicom.Cpu
