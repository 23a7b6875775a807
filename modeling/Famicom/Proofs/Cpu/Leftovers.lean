/-
# A reset forgets

A reset reloads the registers, drops the requests and goes to a boundary.  The latches it leaves as
they are, so they hold whatever the instruction that it broke off had left there.  Nothing comes of
it: **from a reset on, two processors that differ in their latches make the same accesses** and
agree in registers, requests and place, whatever happens to them (`reset_forgets`).

The reason is that no latch is read before it has been written.  `MicroOp.reads` and
`MicroOp.writes` say which latches a micro-op reads and which it writes over; `perform_withLatch`
shows that they say it rightly: a latch that is not read makes no difference, and one that is
written over besides does not even last.  `wellAssigned` goes through a list of micro-ops with the
latches written so far.  That each instruction passes is a fact about the opcode table
(`wellAssigned_programOf`), and an entry passes because it has written its vector.
-/
import Famicom.Proofs.Cpu.Lockstep

namespace Famicom.Cpu

/-! ## 1. Latches one by one -/

/-- The latches. -/
inductive Latch where
  | address
  | base
  | pointer
  | data
  | vector
  deriving DecidableEq, Repr

/-- The latches with another value in one of them, of which a byte keeps the low half. -/
def Latches.set (l : Latches) (x : Latch) (v : UInt16) : Latches :=
  match x with
  | .address => { l with address := v }
  | .base => { l with base := v }
  | .pointer => { l with pointer := lowByte v }
  | .data => { l with data := lowByte v }
  | .vector => { l with vector := v }

/-- The processor with another value in one of its latches. -/
def withLatch (cpu : Cpu) (x : Latch) (v : UInt16) : Cpu :=
  { cpu with latch := cpu.latch.set x v }

/-- The processor at another time. -/
def withClock (cpu : Cpu) (n : Nat) : Cpu := cpu.standing cpu.phase n

namespace MicroOp

/-- The latches whose values matter to a micro-op. -/
def reads : MicroOp → List Latch
  | fetchAddressHigh | read _ | loadData => [.address]
  | fetchBaseHigh _ | indexZeroPage _ => [.base]
  | indexPointer | followAddress | followBase => [.pointer]
  | followAddressHigh => [.pointer, .address]
  | followBaseHigh => [.pointer, .base]
  | settle | tryRead _ => [.address, .base]
  | store op => if op.mixesPage then [.address, .base] else [.address]
  | modify _ | storeData | jumpIndirect => [.address, .data]
  | branchNear | jump | pullJump => [.data]
  | branchFar => [.address]
  | vector => [.vector]
  | vectorHigh => [.vector, .data]
  | _ => []

/-- The latches that a micro-op writes over. -/
def writes : MicroOp → List Latch
  | fetchAddress | fetchAddressHigh | indexZeroPage _ | followAddress | followAddressHigh
  | branchNear => [.address]
  | fetchBase | followBase => [.base]
  | fetchBaseHigh _ | followBaseHigh => [.base, .address]
  | fetchPointer | indexPointer => [.pointer]
  | fetchData | loadData | modify _ | branchOffset _ | pullData | vector => [.data]
  | breakPage => [.vector]
  | _ => []

end MicroOp

theorem finishes_withLatch {op : MicroOp} {x : Latch} (h : x ∉ op.reads) (cpu : Cpu) (v : UInt16) :
    op.finishes (cpu.withLatch x v) = op.finishes cpu := by
  cases op <;> cases x <;> first
    | exact absurd (.head _) h
    | exact absurd (.tail _ (.head _)) h
    | rfl

variable {β : Type} [ProcessorBus β]

/-- What a store leaves in the page latch matters to it only if it mixes the page in. -/
theorem perform_store_withBase {op : WriteOp} (h : op.mixesPage = false) (cpu : Cpu) (v : UInt16)
    (bus : β) :
    (MicroOp.store op).perform (cpu.withLatch .base v) bus =
      (((MicroOp.store op).perform cpu bus).1.withLatch .base v,
        ((MicroOp.store op).perform cpu bus).2) := by
  have hvalue := WriteOp.apply_congr h (highByte v + 1) (highByte cpu.latch.base + 1) cpu.regs
  simp only [MicroOp.perform, withLatch, Latches.set, hvalue]

/-- **A latch that a micro-op does not read makes no difference to it**, and if the micro-op writes
it, its value is gone. -/
theorem perform_withLatch {op : MicroOp} {x : Latch} (h : x ∉ op.reads) (cpu : Cpu) (v : UInt16)
    (bus : β) :
    op.perform (cpu.withLatch x v) bus =
      if x ∈ op.writes then op.perform cpu bus
      else ((op.perform cpu bus).1.withLatch x v, (op.perform cpu bus).2) := by
  cases op with
  | tryRead op =>
    have haddress : (cpu.withLatch x v).latch.uncorrected = cpu.latch.uncorrected ∧
        (cpu.withLatch x v).latch.crossesPage = cpu.latch.crossesPage := by
      cases x <;> first
        | exact absurd (.head _) h
        | exact absurd (.tail _ (.head _)) h
        | exact ⟨rfl, rfl⟩
    simp only [MicroOp.perform, haddress, MicroOp.writes, List.not_mem_nil, if_false]
    split <;> rfl
  | store op =>
    cases x with
    | address => exact absurd (by cases hop : op.mixesPage <;> simp [MicroOp.reads, hop]) h
    | base =>
      cases hop : op.mixesPage with
      | false => exact perform_store_withBase hop cpu v bus
      | true => exact absurd (by simp [MicroOp.reads, hop]) h
    | pointer => rfl
    | data => rfl
    | vector => rfl
  | _ =>
    cases x <;> first
      | exact absurd (.head _) h
      | exact absurd (.tail _ (.head _)) h
      | rfl

/-! ## 2. Written before read -/

/-- Micro-ops of which each reads only latches that are known or that one before it has written. -/
def wellAssigned : List Latch → List MicroOp → Bool
  | _, [] => true
  | known, op :: rest => op.reads.all (known.contains ·) && wellAssigned (op.writes ++ known) rest

/-- **No instruction reads a latch that it has not written**, for each of the 256 opcodes. -/
theorem wellAssigned_programOf (opcode : UInt8) :
    wellAssigned [] (Instruction.programOf opcode) = true := by
  rw [Instruction.programOf_eq]
  exact forall_byte opcode (by decide +kernel)

-- Without the second of its cycles a load would read an address of the past.
example : wellAssigned [] [.fetchBase, .read .lda] = false := rfl

theorem wellAssigned_entryMicrocode : wellAssigned [.vector] entryMicrocode = true := rfl

/-- The latches that the next tick reads. -/
def Phase.reads (phase : Phase) : List Latch := (phase.upcoming.head?.map MicroOp.reads).getD []

/-- The latches that the next tick writes over.  At a boundary it is the vector, if an interrupt is
found. -/
def writesNext (cpu : Cpu) (bus : β) : List Latch :=
  match cpu.phase with
  | .boundary => if (cpu.interruptToTake bus).isSome then [.vector] else []
  | .executing op _ | .entering op _ => op.writes
  | .jammed => []

/-- The latches that the instruction or the entry under way has written after an event, if it had
written `known` before.  A tick at a boundary begins another. -/
def written (s : Cpu × β) (known : List Latch) : Event β → List Latch
  | .tick => if s.1.atBoundary then s.1.writesNext s.2 else s.1.writesNext s.2 ++ known
  | _ => known

/-- So it is along a history. -/
def writtenAlong (s : Cpu × β) (known : List Latch) : List (Event β) → List Latch
  | [] => known
  | e :: history => writtenAlong (after s e) (written s known e) history

/-- What is under way has written all that it will read and not write first. -/
def Prepared (cpu : Cpu) (known : List Latch) : Prop :=
  wellAssigned known cpu.phase.upcoming = true

theorem Prepared.reads {cpu : Cpu} {known : List Latch} (h : cpu.Prepared known) {x : Latch}
    (hx : x ∈ cpu.phase.reads) : x ∈ known := by
  cases hops : cpu.phase.upcoming with
  | nil => simp [Phase.reads, hops] at hx
  | cons op rest =>
    rw [Prepared, hops, wellAssigned, Bool.and_eq_true, List.all_eq_true] at h
    have hop : x ∈ op.reads := by simpa [Phase.reads, hops] using hx
    exact List.contains_iff_mem.mp (h.1 x hop)

/-- **A tick leaves what is under way prepared**, or begins something that is. -/
theorem Prepared.tick {cpu : Cpu} {known : List Latch} (h : cpu.Prepared known) (bus : β) :
    (cpu.tick bus).1.Prepared (written (cpu, bus) known .tick) := by
  unfold Prepared at h ⊢
  cases hphase : cpu.phase with
  | boundary =>
    have hat := atBoundary_iff.mpr hphase
    cases hi : cpu.interruptToTake bus with
    | none =>
      rw [tick_fetch hphase hi, standing_phase]
      simp only [written, hat, if_true, writesNext, hphase, hi, Option.isSome_none,
        Bool.false_eq_true, if_false]
      have hprogram := wellAssigned_programOf (AddressBus.read cpu.regs.pc bus).1
      cases hops : Instruction.programOf (AddressBus.read cpu.regs.pc bus).1 with
      | nil => rfl
      | cons op rest => rw [hops] at hprogram; exact hprogram
    | some interrupt =>
      rw [tick_alerted hphase hi, standing_phase]
      simp only [written, hat, if_true, writesNext, hphase, hi, Option.isSome_some]
      exact wellAssigned_entryMicrocode
  | executing op rest =>
    have hat : cpu.atBoundary = false := by simp only [atBoundary, hphase]
    rw [hphase] at h
    have hrest : wellAssigned (op.writes ++ known) rest = true := (Bool.and_eq_true _ _ ▸ h).2
    rw [tick_inInstruction hphase, standing_phase]
    simp only [written, hat, Bool.false_eq_true, if_false, writesNext, hphase]
    split
    · rfl
    · cases rest <;> exact hrest
  | entering op rest =>
    have hat : cpu.atBoundary = false := by simp only [atBoundary, hphase]
    rw [hphase] at h
    have hrest : wellAssigned (op.writes ++ known) rest = true := (Bool.and_eq_true _ _ ▸ h).2
    rw [tick_inEntry hphase, standing_phase]
    simp only [written, hat, Bool.false_eq_true, if_false, writesNext, hphase]
    cases rest <;> exact hrest
  | jammed =>
    rw [tick_jammed hphase]
    rfl

theorem Prepared.after {s : Cpu × β} {known : List Latch} (h : s.1.Prepared known) (e : Event β) :
    (after s e).1.Prepared (written s known e) := by
  cases e with
  | tick => exact h.tick s.2
  | request interrupt => cases interrupt <;> exact h
  | elsewhere bus => exact h

/-- **Wherever a history leads, what is under way is prepared.** -/
theorem Prepared.run {s : Cpu × β} {known : List Latch} (h : s.1.Prepared known)
    (history : List (Event β)) :
    (run s history).1.Prepared (writtenAlong s known history) := by
  induction history generalizing s known with
  | nil => exact h
  | cons e history ih => exact ih (h.after e)

/-! ## 3. Ticks do not see an unwritten latch -/

/-- **A latch that the next tick does not read makes no difference to it**, and lasts exactly if the
tick does not write it. -/
theorem tick_withLatch {cpu : Cpu} {x : Latch} (h : x ∉ cpu.phase.reads) (v : UInt16) (bus : β) :
    (cpu.withLatch x v).tick bus =
      if x ∈ cpu.writesNext bus then cpu.tick bus
      else ((cpu.tick bus).1.withLatch x v, (cpu.tick bus).2) := by
  cases hphase : cpu.phase with
  | boundary =>
    have hsame : (cpu.withLatch x v).phase = .boundary := hphase
    have htake : (cpu.withLatch x v).interruptToTake bus = cpu.interruptToTake bus := rfl
    cases hi : cpu.interruptToTake bus with
    | none =>
      rw [tick_fetch hphase hi, tick_fetch hsame (htake.trans hi)]
      simp only [writesNext, hphase, hi, Option.isSome_none, Bool.false_eq_true, if_false,
        List.not_mem_nil, withLatch]
      generalize Phase.ofMicrocode _ = phase
      rfl
    | some interrupt =>
      rw [tick_alerted hphase hi, tick_alerted hsame (htake.trans hi)]
      simp only [writesNext, hphase, hi, Option.isSome_some, if_true]
      cases interrupt <;> cases x <;> rfl
  | executing op rest =>
    have hsame : (cpu.withLatch x v).phase = .executing op rest := hphase
    have hop : x ∉ op.reads := by simpa [Phase.reads, hphase, Phase.upcoming] using h
    rw [tick_inInstruction hphase, tick_inInstruction hsame, perform_withLatch hop,
      finishes_withLatch hop]
    simp only [writesNext, hphase]
    split <;> rfl
  | entering op rest =>
    have hsame : (cpu.withLatch x v).phase = .entering op rest := hphase
    have hop : x ∉ op.reads := by simpa [Phase.reads, hphase, Phase.upcoming] using h
    rw [tick_inEntry hphase, tick_inEntry hsame, perform_withLatch hop]
    simp only [writesNext, hphase]
    split <;> rfl
  | jammed =>
    have hsame : (cpu.withLatch x v).phase = .jammed := hphase
    rw [tick_stopped hphase, tick_stopped hsame]
    simp only [writesNext, hphase, List.not_mem_nil, if_false]
    rfl

/-- The clock makes no difference to a tick. -/
theorem tick_withClock (cpu : Cpu) (n : Nat) (bus : β) :
    (cpu.withClock n).tick bus = ((cpu.tick bus).1.withClock (n + 1), (cpu.tick bus).2) := by
  cases hphase : cpu.phase with
  | boundary =>
    have hsame : (cpu.withClock n).phase = .boundary := hphase
    have htake : (cpu.withClock n).interruptToTake bus = cpu.interruptToTake bus := rfl
    cases hi : cpu.interruptToTake bus with
    | none =>
      rw [tick_fetch hphase hi, tick_fetch hsame (htake.trans hi)]
      simp only [withClock, standing_regs]
      generalize Phase.ofMicrocode _ = phase
      rfl
    | some interrupt =>
      rw [tick_alerted hphase hi, tick_alerted hsame (htake.trans hi)]
      cases interrupt <;> rfl
  | executing op rest =>
    have hsame : (cpu.withClock n).phase = .executing op rest := hphase
    rw [tick_inInstruction hphase, tick_inInstruction hsame, withClock, perform_standing,
      finishes_standing]
    rfl
  | entering op rest =>
    have hsame : (cpu.withClock n).phase = .entering op rest := hphase
    rw [tick_inEntry hphase, tick_inEntry hsame, withClock, perform_standing]
    rfl
  | jammed =>
    have hsame : (cpu.withClock n).phase = .jammed := hphase
    rw [tick_stopped hphase, tick_stopped hsame]
    rfl

/-! ## 4. Two processors -/

/-- The second processor differs from the first in its clock and in latches that are not known. -/
inductive Alike (known : List Latch) (a : Cpu) : Cpu → Prop where
  | refl : Alike known a a
  | clock {b : Cpu} (n : Nat) : Alike known a b → Alike known a (b.withClock n)
  | latch {b : Cpu} {x : Latch} (hx : x ∉ known) (v : UInt16) :
    Alike known a b → Alike known a (b.withLatch x v)

namespace Alike

variable {known : List Latch} {a b : Cpu}

/-- They agree in all that can be seen of them. -/
theorem visible (h : Alike known a b) :
    b.regs = a.regs ∧ b.phase = a.phase ∧ b.nmi = a.nmi ∧ b.irq = a.irq := by
  induction h with
  | refl => exact ⟨rfl, rfl, rfl, rfl⟩
  | clock n _ ih => exact ih
  | latch hx v _ ih => exact ih

/-- **They make the same tick**, if the first is prepared: the same access, and what they differ in
afterwards is not known either. -/
theorem tick (h : Alike known a b) (hp : a.Prepared known) (bus : β) :
    Alike (written (a, bus) known .tick) (a.tick bus).1 (b.tick bus).1 ∧
      (b.tick bus).2 = (a.tick bus).2 := by
  induction h with
  | refl => exact ⟨.refl, rfl⟩
  | clock n _ ih =>
    rw [tick_withClock]
    exact ⟨.clock _ ih.1, ih.2⟩
  | @latch b x hx v hb ih =>
    obtain ⟨hregs, hphase, hnmi, hirq⟩ := hb.visible
    have hread : x ∉ b.phase.reads := fun hmem => hx (hp.reads (hphase ▸ hmem))
    have htake : b.interruptToTake bus = a.interruptToTake bus := by
      simp only [interruptToTake, hregs, hnmi, hirq]
    have hwrites : b.writesNext bus = a.writesNext bus := by
      rw [writesNext, writesNext, hphase, htake]
    rw [tick_withLatch hread, hwrites]
    split
    · exact ih
    · rename_i hkept
      refine ⟨.latch ?_ v ih.1, ih.2⟩
      simp only [written]
      split
      · exact hkept
      · exact fun hmem => (List.mem_append.mp hmem).elim hkept hx

theorem request (h : Alike known a b) (interrupt : Interrupt) :
    Alike known (a.request interrupt) (b.request interrupt) := by
  induction h with
  | refl => exact .refl
  | clock n _ ih => cases interrupt <;> exact .clock n ih
  | latch hx v _ ih => cases interrupt <;> exact .latch hx v ih

/-- **They go through the same history.** -/
theorem run (h : Alike known a b) (hp : a.Prepared known) (bus : β) (history : List (Event β)) :
    Alike (writtenAlong (a, bus) known history) (Cpu.run (a, bus) history).1
        (Cpu.run (b, bus) history).1 ∧
      (Cpu.run (b, bus) history).2 = (Cpu.run (a, bus) history).2 := by
  induction history generalizing a b bus known with
  | nil => exact ⟨h, rfl⟩
  | cons e history ih =>
    have hnext := hp.after (s := (a, bus)) e
    cases e with
    | tick =>
      obtain ⟨hticked, hbus⟩ := h.tick hp bus
      have hsame : b.tick bus = ((b.tick bus).1, (a.tick bus).2) := Prod.ext rfl hbus
      rw [show Cpu.run (b, bus) (.tick :: history) = Cpu.run (b.tick bus) history from rfl, hsame]
      exact ih hticked hnext (a.tick bus).2
    | request interrupt => exact ih (h.request interrupt) hnext bus
    | elsewhere bus' => exact ih h hnext bus'

end Alike

/-! ## 5. Resets -/

/-- Two processors on their buses of which no more than the clock and the latches differ. -/
structure Agree (s t : Cpu × β) : Prop where
  bus : t.2 = s.2
  regs : t.1.regs = s.1.regs
  phase : t.1.phase = s.1.phase
  nmi : t.1.nmi = s.1.nmi
  irq : t.1.irq = s.1.irq

/-- Processors that agree in all else are alike, whatever their clocks and latches hold: they are
one chain of changes apart. -/
theorem alike_of_visible {a b : Cpu} (hregs : b.regs = a.regs) (hphase : b.phase = a.phase)
    (hnmi : b.nmi = a.nmi) (hirq : b.irq = a.irq) : Alike [] a b := by
  have hnone : ∀ x : Latch, x ∉ ([] : List Latch) := fun x => List.not_mem_nil
  have hrefl : Alike [] a a := .refl
  have hlatches := ((((hrefl.latch (hnone .address) b.latch.address).latch (hnone .base)
    b.latch.base).latch (hnone .pointer) b.latch.pointer.toUInt16).latch (hnone .data)
    b.latch.data.toUInt16).latch (hnone .vector) b.latch.vector
  simpa [withLatch, Latches.set, withClock, standing, ← hregs, ← hphase, ← hnmi, ← hirq] using
    hlatches.clock b.cycles

/-- A reset leaves nothing but clock and latches to differ. -/
theorem agree_reset (a b : Cpu) (bus : β) : Agree (a.reset bus) (b.reset bus) :=
  ⟨rfl, rfl, rfl, rfl, rfl⟩

theorem agree_run {s t : Cpu × β} (h : Agree s t) (hp : s.1.Prepared [])
    (history : List (Event β)) : Agree (run s history) (run t history) := by
  obtain ⟨a, bus⟩ := s
  obtain ⟨b, bus'⟩ := t
  obtain rfl : bus' = bus := h.bus
  have hab : Alike [] a b := alike_of_visible h.regs h.phase h.nmi h.irq
  obtain ⟨halike, hbus⟩ := hab.run hp bus' history
  obtain ⟨hregs, hphase, hnmi, hirq⟩ := halike.visible
  exact ⟨hbus, hregs, hphase, hnmi, hirq⟩

theorem acts_events (s : Cpu × β) (history : List (Event β)) :
    acts s (history.map .event) = run s history := List.foldl_map

/-- **A counting machine that is reset goes with a processor that is reset**, whatever instruction,
number and bit it held before. -/
theorem counting_reset (m : Counting) (bus : β) (history : List (Event β)) :
    ∃ last, Counting.acts (m, bus) (.reset :: history.map .event) = some last ∧
      Counting.Follows last (run (m.core.reset bus) history) := by
  have hstart : Counting.Follows (m.restart { m.core with regs := {} } bus) (m.core.reset bus) :=
    ⟨rfl, rfl, Counting.sound_of_idle (.inl rfl)⟩
  obtain ⟨last, hacts, hlast⟩ := Counting.follows_acts hstart (history.map .event)
  refine ⟨last, ?_, acts_events (m.core.reset bus) history ▸ hlast⟩
  rw [Counting.acts, List.foldlM_cons]
  exact hacts

/-- **What a reset leaves of the past: nothing that shows.**  From a reset on, for every history of
ticks and requests:

* Any other processor that is reset on the same bus makes the same accesses and has the same
  registers, place and requests.
* So does a counting machine, whatever instruction, number, bit and latches it held.
* The next tick reads only latches that the instruction or the entry under way has written.
* A latch that the next tick does not read makes no difference to it: it is overwritten, or is the
  only thing that differs afterwards. -/
theorem reset_forgets (a : Cpu) (bus : Recorded β) (history : List (Event (Recorded β))) :
    let s := run (a.reset bus) history
    (∀ b : Cpu, Agree s (run (b.reset bus) history)) ∧
      (∀ m : Counting, ∃ last,
        Counting.acts (m, bus) (.reset :: history.map .event) = some last ∧
          Agree s (last.1.toCpu, last.2)) ∧
      (∀ x ∈ s.1.phase.reads, x ∈ writtenAlong (a.reset bus) [] history) ∧
      ∀ x ∉ s.1.phase.reads, ∀ v, (s.1.withLatch x v).tick s.2 =
        if x ∈ s.1.writesNext s.2 then s.1.tick s.2
        else ((s.1.tick s.2).1.withLatch x v, (s.1.tick s.2).2) := by
  intro s
  have hstart : (a.reset bus).1.Prepared [] := rfl
  have hsame : ∀ b : Cpu, Agree s (run (b.reset bus) history) := fun b =>
    agree_run (agree_reset a b bus) hstart history
  refine ⟨hsame, fun m => ?_, fun x hx => (hstart.run history).reads hx, fun x hx v =>
    tick_withLatch hx v s.2⟩
  obtain ⟨last, hacts, hcpu, hbus, -⟩ := counting_reset m bus history
  refine ⟨last, hacts, ?_⟩
  have hpair : (last.1.toCpu, last.2) = run (m.core.reset bus) history := Prod.ext hcpu hbus
  rw [hpair]
  exact hsame m.core

end Famicom.Cpu
