/-
# An instruction and the bytes it sees

Between two boundaries a processor learns of its surroundings only the bytes that cross its bus.
While it runs an instruction it may be held up between any two cycles, what answers it may change
behind its back, and a request may arrive: the instruction is that of the bytes, and **takes the
time that they ask for** (`length_of_course`).

* Two processors are *in step* if they agree in registers and latches, but for the vector, and in
  their place in the microcode.  As long as the same bytes cross their buses they stay so
  (`InStep.tick`).
* A `Script` is a bus on which these bytes are written down beforehand.  A processor that is given
  the bytes that another has seen is in step with it (`settleWithin_course`), and of the one on the
  script `step_cycles` says how long it takes.

A vector is left out because a request that arrives in time changes the one that a software break
takes.  That changes where two bytes are read, and not how many.
-/
import Famicom.Proofs.Cpu.Progress
import Famicom.Proofs.Cpu.Timing

namespace Famicom

/-! ## 1. Scripts -/

/-- A bus on which the bytes that cross it are written down beforehand. -/
structure Script where
  bytes : List UInt8
  /-- The level of the interrupt line. -/
  line : Bool

instance : ProcessorBus Script where
  read _ s := (s.bytes.headD 0, { s with bytes := s.bytes.tail })
  write _ _ s := { s with bytes := s.bytes.tail }
  irqLine s := s.line

/-- Every cycle uses up a byte. -/
theorem Script.after_cons (cycle : BusCycle) (v : UInt8) (bytes : List UInt8) (line : Bool) :
    cycle.after (⟨v :: bytes, line⟩ : Script) = ⟨bytes, line⟩ := by
  cases cycle <;> rfl

namespace Cpu

variable {β γ : Type} [ProcessorBus β] [ProcessorBus γ]

/-- The byte that crosses the bus in the processor's next cycle. -/
def nextByte (cpu : Cpu) (bus : β) : UInt8 := (cpu.nextCycle.answered bus).value

/-! ## 2. In step -/

/-- Two processors differ in requests, in their clocks and in a vector at most. -/
structure InStep (a b : Cpu) : Prop where
  regs : a.regs = b.regs
  phase : a.phase = b.phase
  address : a.latch.address = b.latch.address
  base : a.latch.base = b.latch.base
  pointer : a.latch.pointer = b.latch.pointer
  data : a.latch.data = b.latch.data

namespace InStep

theorem refl (a : Cpu) : InStep a a := ⟨rfl, rfl, rfl, rfl, rfl, rfl⟩

theorem symm {a b : Cpu} (h : InStep a b) : InStep b a :=
  ⟨h.regs.symm, h.phase.symm, h.address.symm, h.base.symm, h.pointer.symm, h.data.symm⟩

theorem trans {a b c : Cpu} (h : InStep a b) (h' : InStep b c) : InStep a c :=
  ⟨h.regs.trans h'.regs, h.phase.trans h'.phase, h.address.trans h'.address,
    h.base.trans h'.base, h.pointer.trans h'.pointer, h.data.trans h'.data⟩

/-- A request does not bring a processor out of step. -/
theorem request (cpu : Cpu) (nmi : Bool) : InStep cpu { cpu with nmi } :=
  ⟨rfl, rfl, rfl, rfl, rfl, rfl⟩

variable {a b : Cpu} (h : InStep a b)

include h

theorem isSettled : a.isSettled = b.isSettled := by
  simp only [Cpu.isSettled, atBoundary, isJammed, h.phase]

theorem finishes (op : MicroOp) : op.finishes a = op.finishes b := by
  obtain ⟨regs, ⟨address, base, pointer, data, vector⟩, phase, nmi, irq, cycles⟩ := a
  obtain ⟨regs', ⟨address', base', pointer', data', vector'⟩, phase', nmi', irq', cycles'⟩ := b
  obtain ⟨rfl, rfl, rfl, rfl, rfl, rfl⟩ := h
  cases op <;> rfl

theorem standing (phase : Phase) (m n : Nat) : InStep (a.standing phase m) (b.standing phase n) :=
  ⟨h.regs, rfl, h.address, h.base, h.pointer, h.data⟩

/-- They drive the same cycle, or each a read of its own. -/
theorem sameCycle :
    a.nextCycle = b.nextCycle ∨ ∃ x y, a.nextCycle = .read x ∧ b.nextCycle = .read y := by
  have hdrives (op : MicroOp) :
      op.drives a = op.drives b ∨ ∃ x y, op.drives a = .read x ∧ op.drives b = .read y := by
    obtain ⟨regs, ⟨address, base, pointer, data, vector⟩, phase, nmi, irq, cycles⟩ := a
    obtain ⟨regs', ⟨address', base', pointer', data', vector'⟩, phase', nmi', irq', cycles'⟩ := b
    obtain ⟨rfl, rfl, rfl, rfl, rfl, rfl⟩ := h
    cases op <;> first | exact .inl rfl | exact .inr ⟨_, _, rfl, rfl⟩
  unfold nextCycle
  rw [← h.phase]
  cases a.phase with
  | boundary => exact .inr ⟨_, _, rfl, rfl⟩
  | executing op rest => exact hdrives op
  | entering op rest => exact hdrives op
  | jammed => exact .inl rfl

/-- **A micro-op keeps processors in step that see the same byte.** -/
theorem perform (op : MicroOp) {bus : β} {bus' : γ}
    (hv : ((op.drives a).answered bus).value = ((op.drives b).answered bus').value) :
    InStep (op.perform a bus).1 (op.perform b bus').1 := by
  obtain ⟨regs, ⟨address, base, pointer, data, vector⟩, phase, nmi, irq, cycles⟩ := a
  obtain ⟨regs', ⟨address', base', pointer', data', vector'⟩, phase', nmi', irq', cycles'⟩ := b
  obtain ⟨rfl, rfl, rfl, rfl, rfl, rfl⟩ := h
  cases op with
  | tryRead op =>
    have hcross : Latches.crossesPage ⟨address, base, pointer, data, vector⟩ =
        Latches.crossesPage ⟨address, base, pointer, data, vector'⟩ := rfl
    simp only [MicroOp.perform, hcross]
    split
    · exact ⟨rfl, rfl, rfl, rfl, rfl, rfl⟩
    · exact ⟨congrArg (op.apply · regs) hv, rfl, rfl, rfl, rfl, rfl⟩
  | _ =>
    simp only [MicroOp.drives, BusCycle.answered, Access.value] at hv
    constructor <;>
      simp only [MicroOp.perform, fetchByte, touch, push, pull, Latches.addIndex,
        Registers.advance, Registers.index, branchTarget, hv]

/-- **So does a cycle**, if at a boundary the same interrupt is due. -/
theorem tick {bus : β} {bus' : γ}
    (htake : a.phase = .boundary → a.interruptToTake bus = b.interruptToTake bus')
    (hv : a.nextByte bus = b.nextByte bus') : InStep (a.tick bus).1 (b.tick bus').1 := by
  cases hphase : a.phase with
  | boundary =>
    have hphase' : b.phase = .boundary := h.phase.symm.trans hphase
    have hbyte : (AddressBus.read a.regs.pc bus).1 = (AddressBus.read b.regs.pc bus').1 := by
      simp only [nextByte, nextCycle, hphase, hphase'] at hv
      exact hv
    cases hi : a.interruptToTake bus with
    | none =>
      rw [tick_fetch hphase hi, tick_fetch hphase' ((htake hphase).symm.trans hi), hbyte]
      refine InStep.standing ?_ _ _ _
      exact ⟨congrArg (Registers.advance · 1) h.regs, h.phase, h.address, h.base, h.pointer, h.data⟩
    | some interrupt =>
      rw [tick_alerted hphase hi, tick_alerted hphase' ((htake hphase).symm.trans hi)]
      refine InStep.standing ?_ _ _ _
      cases interrupt <;> exact ⟨h.regs, h.phase, h.address, h.base, h.pointer, h.data⟩
  | executing op rest =>
    have hphase' : b.phase = .executing op rest := h.phase.symm.trans hphase
    simp only [nextByte, nextCycle, hphase, hphase'] at hv
    rw [tick_inInstruction hphase, tick_inInstruction hphase', h.finishes]
    exact (h.perform op hv).standing _ _ _
  | entering op rest =>
    have hphase' : b.phase = .entering op rest := h.phase.symm.trans hphase
    simp only [nextByte, nextCycle, hphase, hphase'] at hv
    rw [tick_inEntry hphase, tick_inEntry hphase']
    exact (h.perform op hv).standing _ _ _
  | jammed =>
    have hphase' : b.phase = .jammed := h.phase.symm.trans hphase
    rw [tick_jammed hphase, tick_jammed hphase']
    exact h.standing _ _ _

end InStep

/-! ## 3. Courses -/

/-- What a processor goes through, cycle by cycle.  Each of them it has on a bus of its own, and
between them it may be left requests. -/
inductive Course : Cpu → List (Cpu × β) → Cpu → Prop
  | done {a b : Cpu} (h : InStep a b) : Course a [] b
  | cycle {a b c : Cpu} {bus : β} {rest : List (Cpu × β)} (h : InStep a b)
      (hrest : Course (b.tick bus).1 rest c) : Course a ((b, bus) :: rest) c

/-- The bytes that cross the buses. -/
def bytesOf (course : List (Cpu × β)) : List UInt8 := course.map fun s => s.1.nextByte s.2

/-- Requests at the end of a course are part of it, -/
theorem Course.request {a b c : Cpu} {course : List (Cpu × β)} (hc : Course a course b)
    (h : InStep b c) : Course a course c := by
  induction hc with
  | done h' => exact .done (h'.trans h)
  | cycle h' hrest ih => exact .cycle h' (ih h)

/-- and so is a cycle more. -/
theorem Course.snoc {a b : Cpu} {course : List (Cpu × β)} (hc : Course a course b) (bus : β) :
    Course a (course ++ [(b, bus)]) (b.tick bus).1 := by
  induction hc with
  | done h' => exact .cycle h' (.done (.refl _))
  | cycle h' hrest ih => exact .cycle h' ih

/-- A recorder makes no difference to how long it takes. -/
theorem settleWithin_recorded : ∀ (fuel spent : Nat) (cpu : Cpu) (bus : β) (log : Array Access),
    (settleWithin fuel spent cpu (⟨bus, log⟩ : Recorded β)).1 = (settleWithin fuel spent cpu bus).1
  | 0, _, _, _, _ => rfl
  | fuel + 1, spent, cpu, bus, log => by
    simp only [settleWithin, tick_recorded]
    split
    · rfl
    · exact settleWithin_recorded fuel (spent + 1) _ _ _

theorem step_recorded_fst (cpu : Cpu) (bus : β) :
    (cpu.step (⟨bus, #[]⟩ : Recorded β)).1 = (cpu.step bus).1 := by
  simp only [step, tick_recorded]
  exact settleWithin_recorded _ 1 _ _ _

/-- The next byte of a script crosses the bus, unless the processor puts the same one there. -/
theorem nextByte_script {a b : Cpu} (h : InStep a b) (bus : β) (bytes : List UInt8) (line : Bool) :
    b.nextByte (⟨a.nextByte bus :: bytes, line⟩ : Script) = a.nextByte bus := by
  rcases h.sameCycle with hsame | ⟨x, y, hx, hy⟩
  · unfold nextByte
    rw [hsame]
    cases b.nextCycle <;> rfl
  · simp only [nextByte, hx, hy]
    rfl

/-- **A processor that is given the bytes of a course goes through it.** -/
theorem settleWithin_course {a d : Cpu} {course : List (Cpu × β)} (hc : Course a course d)
    (hinside : ∀ s ∈ course, s.1.isSettled = false) (hend : d.isSettled = true) :
    ∀ (fuel spent : Nat) {b : Cpu} (_ : InStep a b) (_ : b.phase.pending ≤ fuel) (line : Bool)
      (log : Array Access),
      let out := settleWithin fuel spent b (⟨⟨bytesOf course, line⟩, log⟩ : Recorded Script)
      out.1 = spent + course.length ∧
        out.2.2.log.toList.map Access.value = log.toList.map Access.value ++ bytesOf course := by
  induction hc with
  | done h =>
    intro fuel spent b hb _ line log
    have hs : b.isSettled = true := by rw [← hb.isSettled, h.isSettled, hend]
    cases fuel with
    | zero => exact ⟨rfl, (List.append_nil _).symm⟩
    | succ fuel =>
      simp only [settleWithin, hs, if_true]
      exact ⟨rfl, (List.append_nil _).symm⟩
  | @cycle a b' c bus rest h hrest ih =>
    intro fuel spent b hb hfuel line log
    obtain ⟨hs', hinside⟩ := List.forall_mem_cons.mp hinside
    have hstep : InStep b' b := h.symm.trans hb
    have hs : b.isSettled = false := by rw [← hstep.isSettled, hs']
    have hlater : b'.phase ≠ .boundary := by
      intro hphase
      rw [isSettled, atBoundary_iff.mpr hphase] at hs'
      cases hs'
    let script : Script := ⟨b'.nextByte bus :: bytesOf rest, line⟩
    have hbyte : b.nextByte script = b'.nextByte bus := nextByte_script hstep bus _ line
    have hafter : b.nextCycle.after script = ⟨bytesOf rest, line⟩ := Script.after_cons _ _ _ line
    have hlt := pending_tick hs script
    cases fuel with
    | zero => omega
    | succ fuel =>
      have hnext : InStep (b'.tick bus).1 (b.tick script).1 :=
        hstep.tick (fun hphase => absurd hphase hlater) hbyte.symm
      obtain ⟨hcount, hlog⟩ := ih hinside hend fuel (spent + 1) hnext (by omega) line
        (log.push (b.nextCycle.answered script))
      have hrun : settleWithin (fuel + 1) spent b (⟨script, log⟩ : Recorded Script) =
          settleWithin fuel (spent + 1) (b.tick script).1
            ⟨⟨bytesOf rest, line⟩, log.push (b.nextCycle.answered script)⟩ := by
        rw [← hafter, ← tick_snd]
        simp only [settleWithin, hs, Bool.false_eq_true, if_false, tick_recorded]
      change (settleWithin (fuel + 1) spent b (⟨script, log⟩ : Recorded Script)).1 = _ ∧ _
      refine ⟨?_, ?_⟩
      · rw [hrun, hcount, List.length_cons]
        omega
      · change (settleWithin (fuel + 1) spent b
          (⟨script, log⟩ : Recorded Script)).2.2.log.toList.map Access.value = _
        rw [hrun, hlog, Array.toList_push, List.map_append, List.append_assoc]
        exact congrArg _ (congrArg (· :: bytesOf rest) hbyte)

/-! ## 4. How long it takes -/

/-- **The bytes of a course say how long it takes.**  From a boundary to where the processor has
settled again, whatever lies between its cycles, an interrupt is seven of them and an instruction as
many as the table says and the delay that its bytes bring about; a processor that jams has the one
that fetched the opcode. -/
theorem length_of_course {cpu d : Cpu} {bus : β} {rest : List (Cpu × β)}
    (hb : cpu.phase = .boundary) (hc : Course (cpu.tick bus).1 rest d)
    (hinside : ∀ s ∈ rest, s.1.isSettled = false) (hend : d.isSettled = true) :
    let i := Instruction.decode (AddressBus.read cpu.regs.pc bus).1
    (∀ interrupt, cpu.interruptToTake bus = some interrupt → rest.length + 1 = 7) ∧
      (cpu.interruptToTake bus = none → i.operation ≠ .jam →
        rest.length + 1 = i.cycles + delay i cpu.regs (bytesOf ((cpu, bus) :: rest))) ∧
      (cpu.interruptToTake bus = none → i.operation = .jam → rest = [] ∧ d.isJammed = true) := by
  intro i
  let script : Script := ⟨bytesOf ((cpu, bus) :: rest), ProcessorBus.irqLine bus⟩
  have htake : cpu.interruptToTake script = cpu.interruptToTake bus := rfl
  have hbyte : cpu.nextByte script = cpu.nextByte bus :=
    nextByte_script (.refl cpu) bus (bytesOf rest) _
  have hread : (AddressBus.read cpu.regs.pc script).1 = (AddressBus.read cpu.regs.pc bus).1 := by
    simp only [nextByte, nextCycle, hb] at hbyte
    exact hbyte
  have hafter : cpu.nextCycle.after script = ⟨bytesOf rest, script.line⟩ :=
    Script.after_cons _ _ _ _
  have hnext : InStep (cpu.tick bus).1 (cpu.tick script).1 :=
    (InStep.refl cpu).tick (fun _ => htake.symm) hbyte.symm
  obtain ⟨hcount, hlog⟩ := settleWithin_course hc hinside hend _ 1 hnext le_rfl script.line
    #[cpu.nextCycle.answered script]
  have hstep : cpu.step (⟨script, #[]⟩ : Recorded Script) =
      settleWithin (cpu.tick script).1.phase.pending 1 (cpu.tick script).1
        ⟨⟨bytesOf rest, script.line⟩, #[cpu.nextCycle.answered script]⟩ := by
    rw [← hafter, ← tick_snd]
    simp only [step, tick_recorded]
    rfl
  have hlength : (cpu.step script).1 = rest.length + 1 := by
    rw [← step_recorded_fst, hstep, hcount, Nat.add_comm]
  have hbytes : (cpu.stepLog script).map Access.value = bytesOf ((cpu, bus) :: rest) := by
    rw [stepLog, hstep, hlog]
    exact congrArg (· :: bytesOf rest) hbyte
  obtain ⟨hentry, hinstruction⟩ := step_cycles cpu script hb
  rw [hread, hlength, hbytes] at hinstruction
  refine ⟨fun interrupt hi => ?_, hinstruction, fun hi hj => ?_⟩
  · rw [← hlength]
    exact hentry interrupt hi
  · have hjammed : (cpu.tick bus).1.phase = .jammed := by
      rw [tick_fetch hb hi, standing_phase, Instruction.programOf_eq, Instruction.microcode, hj]
      rfl
    cases hc with
    | done h => exact ⟨rfl, by simp only [isJammed, ← h.phase, hjammed]⟩
    | cycle h hrest =>
      have hs := (List.forall_mem_cons.mp hinside).1
      rw [← h.isSettled, isSettled, isJammed, hjammed, Bool.or_true] at hs
      cases hs

end Cpu
end Famicom
