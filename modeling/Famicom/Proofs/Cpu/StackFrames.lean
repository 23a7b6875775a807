/-
# What a return brings back

Four things put a frame on the stack: an interrupt, a software break, a call, and the instruction
that pushes the status byte.  To each belongs an instruction that takes its frame off.  Between the
two a program may do what it likes, as long as it brings the stack pointer back to the frame and
leaves the frame alone.

* The address in a frame is where the program goes on, or one less for a call, whose return adds the
  one; so each pair has its own count, and sums wrap.
* **The status byte comes back exactly.**  What is pushed has two bits filled in and what is pulled
  has them normalised, so this takes that in the register they always are as a pull leaves them
  (`fixed_run`): one is set and the other clear, after whatever history from a reset.
* The frame lies in page 1 below the old stack pointer and may wrap there; nothing here asks where.

Requests may come in the middle of an entry.  They do not reach the frame (`run_frame`): what is
still to be pushed is decided by the registers and by the micro-ops to go.  `entry_returns` says all
of it, for every stack pointer.
-/
import Famicom.Proofs.Cpu.Events
import Famicom.Proofs.Cpu.Flags
import Famicom.Proofs.Cpu.Refinement
import Mathlib.Data.List.Induction

namespace Famicom.Cpu

open Interpreter Registers

/-! ## 1. Two bits that never change -/

/-- The two bits of the status byte that no flag uses are as a pull leaves them: the upper one is
set. -/
def Fixed (r : Registers) : Prop := r.status &&& 0x30 = 0x20

section Operations

variable (r : Registers) (v : UInt8)

theorem status_write (op : WriteOp) : (op.apply v r).2.status = r.status := by
  cases op <;> rfl

/-- An operation inside the registers may set a flag by name, but none of these two. -/
theorem status_implied (op : ImpliedOp) : (op.apply r).status &&& 0x30 = r.status &&& 0x30 := by
  cases op <;>
    simp +decide [ImpliedOp.apply, Registers.loadA, Registers.loadX, Registers.loadY,
      status_noteResult, status_assign]

/-- A pull normalises them. -/
theorem fixed_restoreStatus : Fixed (r.restoreStatus v) := by
  change ((v ||| 0x20) &&& ~~~0x10) &&& 0x30 = 0x20
  exact forall_byte v (by decide +kernel)

/-- **What is pushed and pulled again is what it was.** -/
theorem restoreStatus_pushedStatus {r : Registers} (h : Fixed r) (withBreak : Bool)
    (r' : Registers) : (r'.restoreStatus (r.pushedStatus withBreak)).status = r.status := by
  have hall (v : UInt8) : v &&& 0x30 = 0x20 → ∀ withBreak,
      ((({ status := v } : Registers).pushedStatus withBreak) ||| 0x20) &&& ~~~0x10 = v :=
    forall_byte v (by decide +kernel)
  exact hall r.status h withBreak

end Operations

section Bus

variable {β : Type} [ProcessorBus β]

/-- **No micro-op changes them.** -/
theorem fixed_perform {cpu : Cpu} (h : Fixed cpu.regs) (op : MicroOp) (bus : β) :
    Fixed (op.perform cpu bus).1.regs := by
  cases op with
  | immediate op => exact (status_read (by decide) _ _ op).trans h
  | read op => exact (status_read (by decide) _ _ op).trans h
  | tryRead op =>
    simp only [MicroOp.perform]
    split
    · exact h
    · exact (status_read (by decide) _ _ op).trans h
  | store op => exact (congrArg (· &&& 0x30) (status_write _ _ op)).trans h
  | modify op => exact (status_modify (by decide) _ _ op).trans h
  | implied op => exact (status_implied _ op).trans h
  | accumulator op => exact (status_modify (by decide) _ _ op).trans h
  | pullA => exact (status_noteResult (by decide) _ _).trans h
  | pullStatus => exact fixed_restoreStatus _ _
  | pushFrame withBreak => exact (status_assign (by decide) _ _).trans h
  | _ => exact h

theorem fixed_tick {cpu : Cpu} (h : Fixed cpu.regs) (bus : β) : Fixed (cpu.tick bus).1.regs := by
  cases hphase : cpu.phase with
  | boundary =>
    cases hi : cpu.interruptToTake bus with
    | none =>
      rw [tick_fetch hphase hi]
      exact h
    | some interrupt =>
      rw [tick_alerted hphase hi]
      cases interrupt <;> exact h
  | executing op rest =>
    rw [tick_inInstruction hphase]
    exact fixed_perform h op bus
  | entering op rest =>
    rw [tick_inEntry hphase]
    exact fixed_perform h op bus
  | jammed =>
    rw [tick_jammed hphase]
    exact h

/-- **After whatever history they are as they were.** -/
theorem fixed_run {s : Cpu × β} (h : Fixed s.1.regs) (history : List (Event β)) :
    Fixed (run s history).1.regs := by
  induction history generalizing s with
  | nil => exact h
  | cons e history ih =>
    refine ih ?_
    cases e with
    | tick => exact fixed_tick h s.2
    | request interrupt => cases interrupt <;> exact h
    | elsewhere bus => exact h

end Bus

/-! ## 2. Bytes on the stack -/

/-- Bytes go to the stack, one after the other. -/
def pushBytes (bytes : List UInt8) (s : Registers × FlatMemory) : Registers × FlatMemory :=
  bytes.foldl (fun s b => pushByte b s) s

/-- The stack lies below page 2. -/
theorem stackCell_lt (sp : UInt8) : (stackCell sp).toNat < (0x0200 : UInt16).toNat := by
  have hsp := sp.toNat_lt
  rw [stackCell, UInt16.toNat_ofNat']
  change _ < 512
  omega

/-- Less than a page apart, the cells of the stack are different ones. -/
theorem stackCell_ne (sp : UInt8) {i j : Nat} (hij : i < j) (hj : j < 256) :
    stackCell (sp - .ofNat j) ≠ stackCell (sp - .ofNat i) := by
  intro h
  have hsp := sp.toNat_lt
  have hnat := congrArg UInt16.toNat h
  simp only [stackCell, UInt16.toNat_ofNat', UInt8.toNat_sub, UInt8.toNat_ofNat'] at hnat
  omega

theorem pushBytes_concat (bytes : List UInt8) (b : UInt8) (s : Registers × FlatMemory) :
    pushBytes (bytes ++ [b]) s = pushByte b (pushBytes bytes s) := List.foldl_append

theorem sp_pushBytes (bytes : List UInt8) (s : Registers × FlatMemory) :
    (pushBytes bytes s).1.sp = s.1.sp - .ofNat bytes.length := by
  induction bytes using List.reverseRecOn with
  | nil => exact (UInt8.sub_zero _).symm
  | append_singleton bytes b ih =>
    rw [pushBytes_concat, List.length_append]
    change (pushBytes bytes s).1.sp - 1 = s.1.sp - .ofNat (bytes.length + 1)
    rw [ih, UInt8.ofNat_add]
    grind

/-- A push writes where the bytes before it have led the stack pointer. -/
theorem peek_pushBytes_concat (bytes : List UInt8) (b : UInt8) (s : Registers × FlatMemory)
    (a : UInt16) :
    (pushBytes (bytes ++ [b]) s).2.peek a =
      if stackCell (s.1.sp - .ofNat bytes.length) = a then b else (pushBytes bytes s).2.peek a := by
  rw [pushBytes_concat, ← sp_pushBytes]
  exact FlatMemory.peek_poke _ _ _ _

/-- **As many bytes as fit in the page stay where they were put.** -/
theorem peek_pushBytes {bytes : List UInt8} (hlength : bytes.length ≤ 256)
    (s : Registers × FlatMemory) {i : Nat} (hi : i < bytes.length) :
    (pushBytes bytes s).2.peek (stackCell (s.1.sp - .ofNat i)) = bytes[i] := by
  induction bytes using List.reverseRecOn with
  | nil => exact absurd hi (Nat.not_lt_zero i)
  | append_singleton bytes b ih =>
    have hsize : (bytes ++ [b]).length = bytes.length + 1 := List.length_append
    rw [peek_pushBytes_concat]
    by_cases hlast : i = bytes.length
    · subst hlast
      rw [if_pos rfl, List.getElem_concat_length rfl]
    · have hi' : i < bytes.length := by omega
      rw [if_neg (stackCell_ne s.1.sp hi' (by omega)), ih (by omega) hi',
        List.getElem_append_left hi']

/-- The other cells keep what they hold. -/
theorem peek_pushBytes_of_ne {bytes : List UInt8} (s : Registers × FlatMemory) {a : UInt16}
    (ha : ∀ i < bytes.length, stackCell (s.1.sp - .ofNat i) ≠ a) :
    (pushBytes bytes s).2.peek a = s.2.peek a := by
  induction bytes using List.reverseRecOn with
  | nil => rfl
  | append_singleton bytes b ih =>
    have hsize : (bytes ++ [b]).length = bytes.length + 1 := List.length_append
    rw [peek_pushBytes_concat, if_neg (ha bytes.length (by omega)), ih fun i hi => ha i (by omega)]

/-! ## 3. Entries -/

/-- What puts a frame on the stack. -/
inductive Entry where
  | interrupt (interrupt : Interrupt)
  | brk
  | jsr
  | php
  deriving DecidableEq, Repr

namespace Entry

/-- The opcode of an entry that is an instruction. -/
def opcode : Entry → Option UInt8
  | interrupt _ => none
  | brk => some 0x00
  | jsr => some 0x20
  | php => some 0x08

/-- The entry is what happens next at this boundary. -/
def Occurs : Entry → Cpu × FlatMemory → Prop
  | interrupt i, s => s.1.interruptToTake s.2 = some i
  | entry, s => s.1.interruptToTake s.2 = none ∧ entry.opcode = some (s.2.peek s.1.regs.pc)

/-- The cycles of the entry behind the first one. -/
def microcode : Entry → List MicroOp
  | interrupt _ => entryMicrocode
  | brk => Control.brk.microcode
  | jsr => Control.jsr.microcode
  | php => Control.php.microcode

/-- The bytes of its frame. -/
def size : Entry → Nat
  | interrupt _ | brk => 3
  | jsr => 2
  | php => 1

/-- The opcode that takes the frame off. -/
def returnOpcode : Entry → UInt8
  | interrupt _ | brk => 0x40
  | jsr => 0x60
  | php => 0x28

/-- Where the program goes on, counted from where the entry occurred. -/
def resume : Entry → UInt16
  | interrupt _ => 0
  | brk => 2
  | jsr => 3
  | php => 1

/-- The frame, the byte that is pushed first at its head. -/
def frame (r : Registers) : Entry → List UInt8
  | interrupt _ => [highByte r.pc, lowByte r.pc, r.pushedStatus false]
  | brk => [highByte (r.pc + 2), lowByte (r.pc + 2), r.pushedStatus true]
  | jsr => [highByte (r.pc + 2), lowByte (r.pc + 2)]
  | php => [r.pushedStatus true]

theorem length_frame (entry : Entry) (r : Registers) : (entry.frame r).length = entry.size := by
  cases entry <;> rfl

end Entry

/-- What a micro-op of an entry does to the registers and the memory until the entry leaves for
somewhere else. -/
def MicroOp.lay (s : Registers × FlatMemory) : MicroOp → Registers × FlatMemory
  | .skipOperand | .fetchData => (s.1.advance 1, s.2)
  | .pushPage | .breakPage => pushByte (highByte s.1.pc) s
  | .pushOffset => pushByte (lowByte s.1.pc) s
  | .pushStatus => pushByte (s.1.pushedStatus true) s
  | .pushFrame withBreak =>
    let (r, m) := pushByte (s.1.pushedStatus withBreak) s
    (r.assign Flag.interruptDisable true, m)
  | _ => s

/-- The micro-ops with which an entry leaves, once its frame lies. -/
def MicroOp.departs : MicroOp → Bool
  | .vector | .vectorHigh | .jump => true
  | _ => false

/-- The micro-ops that an entry may have before. -/
def MicroOp.lays : MicroOp → Bool
  | .idle | .idleStack | .skipOperand | .fetchData | .pushPage | .breakPage | .pushOffset
  | .pushStatus | .pushFrame _ => true
  | _ => false

/-- The stack pointer and the memory at the end of an entry. -/
def laid : List MicroOp → Registers × FlatMemory → UInt8 × FlatMemory
  | [], s => (s.1.sp, s.2)
  | op :: rest, s => if op.departs then (s.1.sp, s.2) else laid rest (op.lay s)

/-- First the frame is laid, and then the entry leaves. -/
def isEntry : List MicroOp → Bool
  | [] => true
  | op :: rest => if op.departs then rest.all MicroOp.departs else op.lays && isEntry rest

theorem isEntry_microcode (entry : Entry) : isEntry entry.microcode = true := by
  cases entry <;> rfl

theorem isEntry_of_departs {ops : List MicroOp} (h : ops.all MicroOp.departs = true) :
    isEntry ops = true ∧ ∀ s, laid ops s = (s.1.sp, s.2) := by
  cases ops with
  | nil => exact ⟨rfl, fun _ => rfl⟩
  | cons op rest =>
    rw [List.all_cons, Bool.and_eq_true] at h
    exact ⟨by rw [isEntry, if_pos h.1, h.2], fun s => by rw [laid, if_pos h.1]⟩

theorem push_eq (cpu : Cpu) (v : UInt8) (m : FlatMemory) :
    ((cpu.push v m).1.regs, (cpu.push v m).2) = pushByte v (cpu.regs, m) := by
  rw [pushByte, stackCell_eq]
  rfl

theorem perform_lay {op : MicroOp} (h : op.lays = true) (cpu : Cpu) (m : FlatMemory) :
    ((op.perform cpu m).1.regs, (op.perform cpu m).2) = op.lay (cpu.regs, m) := by
  cases op with
  | pushPage => exact push_eq cpu _ m
  | breakPage => exact push_eq { cpu with nmi := false, latch := _ } _ m
  | pushOffset => exact push_eq cpu _ m
  | pushStatus => exact push_eq cpu _ m
  | pushFrame withBreak =>
    rw [MicroOp.lay, ← push_eq]
    rfl
  | _ => first | exact absurd h Bool.false_ne_true | rfl

/-- What is left of an entry always comes to the same end. -/
theorem laid_perform {op : MicroOp} {rest : List MicroOp} (h : isEntry (op :: rest) = true)
    (cpu : Cpu) (m : FlatMemory) :
    op.isStraight = true ∧ isEntry rest = true ∧
      laid rest ((op.perform cpu m).1.regs, (op.perform cpu m).2) =
        laid (op :: rest) (cpu.regs, m) := by
  rw [isEntry] at h
  cases hdeparts : op.departs with
  | true =>
    rw [hdeparts, if_pos rfl] at h
    obtain ⟨hentry, hlaid⟩ := isEntry_of_departs h
    rw [laid, if_pos hdeparts, hlaid]
    cases op <;> first
      | exact absurd hdeparts Bool.false_ne_true
      | exact ⟨rfl, hentry, rfl⟩
  | false =>
    rw [hdeparts, if_neg Bool.false_ne_true, Bool.and_eq_true] at h
    obtain ⟨hlays, hentry⟩ := h
    rw [laid, if_neg (by rw [hdeparts]; exact Bool.false_ne_true), perform_lay hlays]
    refine ⟨?_, hentry, rfl⟩
    cases op <;> first | exact absurd hlays Bool.false_ne_true | rfl

/-- The event is the processor's own: it leaves the bus in its place. -/
def Event.isOwn {β : Type} : Event β → Bool
  | .elsewhere _ => false
  | _ => true

/-- **Whatever requests come in between, an entry lays its frame**, and as many ticks as it has
micro-ops to go bring it to its end. -/
theorem run_frame {s : Cpu × FlatMemory} {during : List (Event FlatMemory)}
    (hentry : isEntry s.1.phase.upcoming = true)
    (hends : s.1.phase.upcoming = [] → s.1.phase = .boundary)
    (hown : during.all Event.isOwn = true)
    (hticks : during.countP Event.isTick = s.1.phase.upcoming.length) :
    (run s during).1.phase = .boundary ∧
      ((run s during).1.regs.sp, (run s during).2) = laid s.1.phase.upcoming (s.1.regs, s.2) := by
  induction during generalizing s with
  | nil =>
    have hnil : s.1.phase.upcoming = [] := List.length_eq_zero_iff.mp hticks.symm
    rw [hnil]
    exact ⟨hends hnil, rfl⟩
  | cons e during ih =>
    rw [List.all_cons, Bool.and_eq_true] at hown
    cases e with
    | elsewhere bus => exact absurd hown.1 Bool.false_ne_true
    | request interrupt =>
      have hphase : (after s (.request interrupt)).1.phase = s.1.phase := by cases interrupt <;> rfl
      have hregs : (after s (.request interrupt)).1.regs = s.1.regs := by cases interrupt <;> rfl
      rw [← hphase] at hentry hends hticks
      have hrest := ih hentry hends hown.2 hticks
      rwa [hphase, hregs] at hrest
    | tick =>
      cases hops : s.1.phase.upcoming with
      | nil =>
        rw [hops] at hticks
        exact absurd hticks (by simp [Event.isTick])
      | cons op rest =>
        rw [hops] at hentry hticks
        obtain ⟨hstraight, hentry', hlaid⟩ := laid_perform hentry s.1 s.2
        obtain ⟨phase, hupcoming, hends', htick⟩ := tick_upcoming hops hstraight s.2
        have hafter : after s .tick = ((op.perform s.1 s.2).1.standing phase (s.1.cycles + 1),
            (op.perform s.1 s.2).2) := htick
        have hleft : (after s .tick).1.phase.upcoming = rest := by rw [hafter]; exact hupcoming
        have hrest : (run (after s .tick) during).1.phase = .boundary ∧ _ :=
          ih (by rw [hleft]; exact hentry') (by rw [hleft, hafter]; exact hends') hown.2
            (by rw [hleft]; exact Nat.succ.inj ((List.countP_cons_of_pos rfl).symm.trans hticks))
        rw [hleft, hafter] at hrest
        rw [← hlaid]
        exact (congrArg (run · during) hafter) ▸ hrest

namespace Entry

variable {entry : Entry} {s : Cpu × FlatMemory}

theorem microcode_of_opcode {opcode : UInt8} (h : entry.opcode = some opcode) :
    (Instruction.decode opcode).microcode = entry.microcode := by
  cases entry with
  | interrupt i => exact nomatch h
  | brk | jsr | php =>
    obtain rfl := Option.some.inj h
    decide

/-- The first tick of an entry that is an instruction. -/
theorem tick_opcode (hb : s.1.phase = .boundary) (hi : s.1.interruptToTake s.2 = none)
    (hop : entry.opcode = some (s.2.peek s.1.regs.pc)) :
    (s.1.tick s.2).1.phase.upcoming = entry.microcode ∧
      ((s.1.tick s.2).1.regs, (s.1.tick s.2).2) = (s.1.regs.advance 1, s.2) := by
  have hprogram : Instruction.programOf (AddressBus.read s.1.regs.pc s.2).1 = entry.microcode := by
    rw [read_flat, Instruction.programOf_eq, microcode_of_opcode hop]
  rw [tick_fetch hb hi, hprogram]
  cases entry <;> exact ⟨rfl, rfl⟩

/-- Behind the opcode the microcode of an instruction lays its frame. -/
theorem laid_of_opcode {opcode : UInt8} (h : entry.opcode = some opcode) (r : Registers)
    (m : FlatMemory) :
    laid entry.microcode (r.advance 1, m) =
      ((pushBytes (entry.frame r) (r, m)).1.sp, (pushBytes (entry.frame r) (r, m)).2) := by
  -- A break and a call fetch the byte behind the opcode before anything is pushed.
  have htwo : (r.advance 1).advance 1 = r.advance 2 := r.advance_advance 1 1
  cases entry with
  | interrupt i => exact nomatch h
  | brk =>
    change laid (microcode brk).tail ((r.advance 1).advance 1, m) = _
    rw [htwo]
    rfl
  | jsr =>
    change laid (microcode jsr).tail ((r.advance 1).advance 1, m) = _
    rw [htwo]
    rfl
  | php => rfl

/-- **The first tick leads into the microcode of the entry, and that lays the frame.** -/
theorem Occurs.tick (hb : s.1.phase = .boundary) (h : entry.Occurs s) :
    (s.1.tick s.2).1.phase.upcoming = entry.microcode ∧
      laid entry.microcode ((s.1.tick s.2).1.regs, (s.1.tick s.2).2) =
        ((pushBytes (entry.frame s.1.regs) (s.1.regs, s.2)).1.sp,
          (pushBytes (entry.frame s.1.regs) (s.1.regs, s.2)).2) := by
  cases entry with
  | interrupt i =>
    rw [tick_alerted hb h]
    cases i <;> exact ⟨rfl, rfl⟩
  | brk | jsr | php =>
    obtain ⟨hphase, hstate⟩ := tick_opcode hb h.1 h.2
    rw [hstate]
    exact ⟨hphase, laid_of_opcode h.2 s.1.regs s.2⟩

/-- What an entry has done when it is at its end: its frame lies, and the rest of the memory is as
it was. -/
structure Laid (entry : Entry) (s e : Cpu × FlatMemory) : Prop where
  phase : e.1.phase = .boundary
  sp : e.1.regs.sp = s.1.regs.sp - .ofNat entry.size
  bytes : ∀ i (hi : i < (entry.frame s.1.regs).length),
    e.2.peek (stackCell (s.1.regs.sp - .ofNat i)) = (entry.frame s.1.regs)[i]
  others : ∀ a, (∀ i < entry.size, stackCell (s.1.regs.sp - .ofNat i) ≠ a) →
    e.2.peek a = s.2.peek a

/-- **An entry pushes its frame**, whatever requests come in while it does. -/
theorem Occurs.laid (hb : s.1.phase = .boundary) (h : entry.Occurs s)
    {during : List (Event FlatMemory)} (hown : during.all Event.isOwn = true)
    (hticks : during.countP Event.isTick = entry.microcode.length) :
    Laid entry s (run s (.tick :: during)) := by
  obtain ⟨hphase, hlaid⟩ := h.tick hb
  have hne : entry.microcode ≠ [] := by cases entry <;> exact List.cons_ne_nil _ _
  have hlength := entry.length_frame s.1.regs
  have hsize : (entry.frame s.1.regs).length ≤ 256 := by
    rw [hlength]
    cases entry <;> simp [size]
  obtain ⟨hboundary, hend⟩ := run_frame (s := s.1.tick s.2)
    (by rw [hphase]; exact isEntry_microcode entry)
    (fun hnil => absurd (hphase.symm.trans hnil) hne) hown (by rw [hphase]; exact hticks)
  rw [hphase, hlaid] at hend
  change Laid entry s (run (s.1.tick s.2) during)
  obtain ⟨hsp, hmem⟩ := Prod.mk.inj hend
  refine ⟨hboundary, ?_, fun i hi => ?_, fun a ha => ?_⟩
  · rw [hsp, sp_pushBytes, hlength]
  · rw [hmem]
    exact peek_pushBytes hsize _ hi
  · rw [hmem]
    exact peek_pushBytes_of_ne _ (hlength.symm ▸ ha)

/-- What a return brings back of the registers: the stack pointer, the status byte if the entry
saved it, and the place to go on. -/
structure Restored (entry : Entry) (r r' : Registers) : Prop where
  sp : r'.sp = r.sp
  status : entry ≠ .jsr → r'.status = r.status
  pc : entry ≠ .php → r'.pc = r.pc + entry.resume

/-- The byte that is pulled `j`-th has `j` bytes from it to the end of the frame. -/
theorem pulledByte_of_frame {r : Registers} {t : Cpu × FlatMemory}
    (hsp : t.1.regs.sp = r.sp - .ofNat entry.size)
    (hframe : ∀ i (hi : i < (entry.frame r).length),
      t.2.peek (stackCell (r.sp - .ofNat i)) = (entry.frame r)[i])
    {i j : Nat} (hi : i < (entry.frame r).length) (hij : i + j = entry.size) :
    pulledByte t.1.regs t.2 (.ofNat j) = (entry.frame r)[i] := by
  have hcell : r.sp - .ofNat entry.size + .ofNat j = r.sp - .ofNat i := by
    rw [← hij, UInt8.ofNat_add]
    grind
  rw [pulledByte, hsp, hcell]
  exact hframe i hi

/-- The return that belongs to an entry. -/
def returning : Entry → Control
  | interrupt _ | brk => .rti
  | jsr => .rts
  | php => .plp

theorem decode_returnOpcode (entry : Entry) :
    Instruction.decode entry.returnOpcode = ⟨.implied, .control entry.returning, .documented⟩ := by
  have hrti : Instruction.decode 0x40 = ⟨.implied, .control .rti, .documented⟩ := by decide
  cases entry with
  | interrupt i => exact hrti
  | brk => exact hrti
  | jsr | php => decide

theorem interpret_returnOpcode {r : Registers} {m : FlatMemory}
    (hop : m.peek r.pc = entry.returnOpcode) :
    interpret r m = transfer entry.returning r (indexed r.pc 1) m := by
  rw [interpret, hop, decode_returnOpcode]
  rfl

/-- An entry whose frame holds an address and the status byte. -/
theorem restored_rti {r : Registers} (hr : Fixed r) {t : Cpu × FlatMemory} {withBreak : Bool}
    (hsp : t.1.regs.sp = r.sp - 3)
    (hstatus : pulledByte t.1.regs t.2 1 = r.pushedStatus withBreak)
    (hlow : pulledByte t.1.regs t.2 2 = lowByte (r.pc + entry.resume))
    (hhigh : pulledByte t.1.regs t.2 3 = highByte (r.pc + entry.resume)) (next : UInt16) :
    entry.Restored r (transfer .rti t.1.regs next t.2).1 := by
  refine ⟨?_, fun _ => ?_, fun _ => ?_⟩
  · change t.1.regs.sp + 3 = r.sp
    rw [hsp]
    grind
  · change (t.1.regs.restoreStatus (pulledByte t.1.regs t.2 1)).status = _
    rw [hstatus, restoreStatus_pushedStatus hr]
  · change address (pulledByte t.1.regs t.2 2) (pulledByte t.1.regs t.2 3) = _
    rw [hlow, hhigh, address_eq, word_lowByte_highByte]

/-- **The return that belongs to an entry takes its frame off.** -/
theorem restored_of_frame {r : Registers} (hr : Fixed r) {t : Cpu × FlatMemory}
    (hsp : t.1.regs.sp = r.sp - .ofNat entry.size)
    (hframe : ∀ i (hi : i < (entry.frame r).length),
      t.2.peek (stackCell (r.sp - .ofNat i)) = (entry.frame r)[i])
    (hop : t.2.peek t.1.regs.pc = entry.returnOpcode) :
    entry.Restored r (interpret t.1.regs t.2).1 := by
  have hpull {i j : Nat} (hi : i < (entry.frame r).length) (hij : i + j = entry.size) :=
    pulledByte_of_frame hsp hframe hi hij
  rw [interpret_returnOpcode hop]
  cases entry with
  | interrupt i =>
    have hpc : r.pc + (interrupt i).resume = r.pc := UInt16.add_zero _
    have hstatus : pulledByte t.1.regs t.2 1 = r.pushedStatus false :=
      hpull (i := 2) (j := 1) (by simp [frame]) rfl
    have hlow : pulledByte t.1.regs t.2 2 = lowByte r.pc :=
      hpull (i := 1) (j := 2) (by simp [frame]) rfl
    have hhigh : pulledByte t.1.regs t.2 3 = highByte r.pc :=
      hpull (i := 0) (j := 3) (by simp [frame]) rfl
    exact restored_rti hr hsp hstatus (by rw [hpc, hlow]) (by rw [hpc, hhigh]) _
  | brk =>
    have hpc : r.pc + brk.resume = r.pc + 2 := congrArg (r.pc + ·) rfl
    have hstatus : pulledByte t.1.regs t.2 1 = r.pushedStatus true :=
      hpull (i := 2) (j := 1) (by simp [frame]) rfl
    have hlow : pulledByte t.1.regs t.2 2 = lowByte (r.pc + 2) :=
      hpull (i := 1) (j := 2) (by simp [frame]) rfl
    have hhigh : pulledByte t.1.regs t.2 3 = highByte (r.pc + 2) :=
      hpull (i := 0) (j := 3) (by simp [frame]) rfl
    exact restored_rti hr hsp hstatus (by rw [hpc, hlow]) (by rw [hpc, hhigh]) _
  | jsr =>
    have hlow : pulledByte t.1.regs t.2 1 = lowByte (r.pc + 2) :=
      hpull (i := 1) (j := 1) (by simp [frame]) rfl
    have hhigh : pulledByte t.1.regs t.2 2 = highByte (r.pc + 2) :=
      hpull (i := 0) (j := 2) (by simp [frame]) rfl
    refine ⟨?_, fun h => absurd rfl h, fun _ => ?_⟩
    · change t.1.regs.sp + 2 = r.sp
      have hsp' : t.1.regs.sp = r.sp - 2 := hsp
      rw [hsp']
      grind
    · change indexed (address (pulledByte t.1.regs t.2 1) (pulledByte t.1.regs t.2 2)) 1 = r.pc + 3
      rw [hlow, hhigh, address_eq, word_lowByte_highByte, indexed_ofNat, UInt16.add_assoc]
      rfl
  | php =>
    have hstatus : pulledByte t.1.regs t.2 1 = r.pushedStatus true :=
      hpull (i := 0) (j := 1) (by simp [frame]) rfl
    refine ⟨?_, fun _ => ?_, fun h => absurd rfl h⟩
    · change t.1.regs.sp + 1 = r.sp
      have hsp' : t.1.regs.sp = r.sp - 1 := hsp
      rw [hsp']
      grind
    · change (t.1.regs.restoreStatus (pulledByte t.1.regs t.2 1)).status = _
      rw [hstatus, restoreStatus_pushedStatus hr]

end Entry

/-! ## 4. Entries and returns -/

/-- The same place with another stack pointer. -/
def withStack (sp : UInt8) (s : Cpu × FlatMemory) : Cpu × FlatMemory :=
  ({ s.1 with regs := { s.1.regs with sp } }, s.2)

/-- **Every entry is undone by its return**, after whatever history from a reset and for every stack
pointer.  The entry lays its frame, whatever requests come in meanwhile.  When the stack pointer is
back at the frame at a later boundary, and the frame is still what the entry left, one step brings
back what it holds. -/
theorem entry_returns (cpu : Cpu) (m : FlatMemory) (history : List (Event FlatMemory)) (sp : UInt8)
    (entry : Entry) (during : List (Event FlatMemory)) :
    let s := withStack sp (run (cpu.reset m) history)
    let e := run s (.tick :: during)
    s.1.phase = .boundary → entry.Occurs s → during.all Event.isOwn = true →
      during.countP Event.isTick = entry.microcode.length →
      entry.Laid s e ∧
        ∀ later,
          let t := run e later
          t.1.phase = .boundary → t.1.interruptToTake t.2 = none →
          t.1.regs.sp = sp - .ofNat entry.size →
          (∀ i < entry.size, t.2.peek (stackCell (sp - .ofNat i)) =
            e.2.peek (stackCell (sp - .ofNat i))) →
          t.2.peek t.1.regs.pc = entry.returnOpcode →
          (t.1.step t.2).2.1.phase = .boundary ∧
            entry.Restored s.1.regs (t.1.step t.2).2.1.regs := by
  intro s e hb hoccurs hown hticks
  have hreset : Fixed (cpu.reset m).1.regs := by
    change (0x24 : UInt8) &&& 0x30 = 0x20
    decide
  have hfixed : Fixed s.1.regs := fixed_run hreset history
  have hlaid : entry.Laid s e := hoccurs.laid hb hown hticks
  refine ⟨hlaid, fun later => ?_⟩
  intro t htb hti hsp hframe hop
  have hj : (Instruction.decode (t.2.peek t.1.regs.pc)).operation ≠ .jam := by
    rw [hop, entry.decode_returnOpcode]
    exact nofun
  obtain ⟨hphase, hmeans⟩ := step_interprets htb hti hj
  have hbytes (i : Nat) (hi : i < (entry.frame s.1.regs).length) :
      t.2.peek (stackCell (s.1.regs.sp - .ofNat i)) = (entry.frame s.1.regs)[i] :=
    (hframe i (entry.length_frame s.1.regs ▸ hi)).trans (hlaid.bytes i hi)
  have hregs : (t.1.step t.2).2.1.regs = (interpret t.1.regs t.2).1 := congrArg Prod.fst hmeans
  exact ⟨hphase, hregs ▸ Entry.restored_of_frame hfixed hsp hbytes hop⟩

/-- A break at address 0, with a request in its middle, and where the processor is then. -/
theorem run_brk {m : FlatMemory} (hirq : m.irq = false) (hop : m.peek 0 = 0) (sp : UInt8) :
    let s : Cpu × FlatMemory := ({ regs := { sp } }, m)
    let e := run s [.tick, .tick, .tick, .request .irq, .tick, .tick, .tick, .tick]
    Entry.brk.Occurs s ∧ e.1.interruptToTake e.2 = none ∧
      e.1.regs.pc = word (e.2.peek 0xFFFE) (e.2.peek 0xFFFF) := by
  intro s e
  have hn : s.1.interruptToTake m = none := interruptToTake_eq_none rfl rfl (.inl hirq)
  have hdecode : (Instruction.decode 0).microcode = Control.brk.microcode := by decide
  have htick : s.1.tick m = (s.1.fetched.standing (.ofMicrocode Control.brk.microcode) 1, m) := by
    rw [tick_fetch rfl hn, read_flat, hop, Instruction.programOf_eq, hdecode]
  have he : e = run (s.1.fetched.standing (.ofMicrocode Control.brk.microcode) 1, m)
      [.tick, .tick, .request .irq, .tick, .tick, .tick, .tick] := by
    rw [← htick]
    exact run_cons s .tick _
  have hnmi : e.1.nmi = false := by rw [he]; rfl
  have hheld : e.1.regs.has Flag.interruptDisable = true := by
    rw [he]
    change ((0x24 ||| 4 : UInt8) &&& 4 != 0) = true
    decide
  refine ⟨⟨hn, congrArg some hop.symm⟩, ?_, ?_⟩
  · simp [interruptToTake, hnmi, hheld]
  · rw [he]
    rfl

/-- A break whose frame wraps in page 1, with a request in its middle that the break holds off: the
instruction under the vector brings back the old stack pointer and status byte, and goes on two
bytes behind the break. -/
theorem entry_returns_across_wrap :
    let m := (({} : FlatMemory).poke 0xFFFF 0x80).poke 0x8000 0x40
    let s := withStack 1 (run (({} : Cpu).reset m) [])
    let e := run s [.tick, .tick, .tick, .request .irq, .tick, .tick, .tick, .tick]
    Entry.brk.Occurs s ∧ e.1.interruptToTake e.2 = none ∧ e.2.peek e.1.regs.pc = 0x40 ∧
      (e.1.step e.2).2.1.regs.sp = 1 ∧ (e.1.step e.2).2.1.regs.status = 0x24 ∧
      (e.1.step e.2).2.1.regs.pc = 2 := by
  -- The memory enters by what its cells hold, so that no step of the proof computes with them.
  suffices hrun : ∀ (m : FlatMemory) (s e : Cpu × FlatMemory), m.irq = false →
      (∀ a, m.peek a = if 0x8000 = a then 0x40 else if 0xFFFF = a then 0x80 else 0) →
      withStack 1 (run (({} : Cpu).reset m) []) = s →
      run s [.tick, .tick, .tick, .request .irq, .tick, .tick, .tick, .tick] = e →
      Entry.brk.Occurs s ∧ e.1.interruptToTake e.2 = none ∧ e.2.peek e.1.regs.pc = 0x40 ∧
        (e.1.step e.2).2.1.regs.sp = 1 ∧ (e.1.step e.2).2.1.regs.status = 0x24 ∧
        (e.1.step e.2).2.1.regs.pc = 2 by
    refine hrun _ _ _ rfl (fun a => ?_) rfl rfl
    have hblank : ({} : FlatMemory).peek a = 0 := Memory.read_filled 0 a.toNat
    rw [FlatMemory.peek_poke, FlatMemory.peek_poke, hblank]
  intro m s e hirq hpeek hs he
  have hpc : word (m.peek 0xFFFC) (m.peek 0xFFFD) = 0 := by
    rw [hpeek, hpeek]
    decide
  have hstart : (({ regs := { sp := 1 } } : Cpu), m) = s := by
    rw [← hs, ← hpc]
    rfl
  have hbreak := run_brk hirq (by rw [hpeek]; decide) 1
  have hreturns := entry_returns {} m [] 1 .brk
    [.tick, .tick, .request .irq, .tick, .tick, .tick, .tick]
  simp only [hstart, he] at hbreak
  simp only [hs, he] at hreturns
  obtain ⟨hoccurs, hnone, hat⟩ := hbreak
  have hb : s.1.phase = .boundary := by rw [← hstart]
  have hregs : s.1.regs = { sp := 1 } := by rw [← hstart]
  have hmem : s.2 = m := by rw [← hstart]
  obtain ⟨hlaid, hreturn⟩ := hreturns hb hoccurs rfl rfl
  have hkept (a : UInt16) (ha : 0x0200 ≤ a) : e.2.peek a = m.peek a := by
    rw [hlaid.others a fun i hi h =>
      absurd (UInt16.le_iff_toNat_le.mp ha) (Nat.not_le.mpr (h ▸ stackCell_lt _)), hmem]
  have htarget : e.1.regs.pc = 0x8000 := by
    rw [hat, hkept 0xFFFE (by decide), hkept 0xFFFF (by decide), hpeek, hpeek]
    decide
  have hop : e.2.peek e.1.regs.pc = 0x40 := by
    rw [htarget, hkept 0x8000 (by decide), hpeek, if_pos rfl]
  obtain ⟨-, hrestored⟩ :=
    hreturn [] hlaid.phase hnone (hlaid.sp.trans (by rw [hregs])) (fun _ _ => rfl) hop
  rw [hregs] at hrestored
  exact ⟨hoccurs, hnone, hop, hrestored.sp, hrestored.status nofun, hrestored.pc nofun⟩

end Famicom.Cpu
