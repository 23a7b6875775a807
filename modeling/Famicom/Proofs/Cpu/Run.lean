/-
# A step is a run of microcode

`step` counts ticks, and every tick keeps the rest of the microcode in the phase.  Proofs about
instructions want neither: they want to know what performing a list of micro-ops does.  `drain` is
that, by recursion on the list, with the early end of an instruction where a micro-op finishes it.

The two agree because a micro-op reads neither the phase nor the clock (`perform_standing`,
`finishes_standing`): so the phase can be carried along beside the list and forgotten.  The main
statement is `step_boundary`: **at a boundary with no interrupt to take, a step fetches an opcode
and drains its microcode**, on any bus.  Where an interrupt is due, the step drains the microcode of
its entry instead (`step_interrupt`).
-/
import Famicom.Cpu.Machine

namespace Famicom.Cpu

variable {β : Type} [ProcessorBus β]

/-! ## 1. Where the processor stands is no part of what it does -/

/-- The same processor at another place in the microcode and at another time. -/
def standing (cpu : Cpu) (phase : Phase) (cycles : Nat) : Cpu := { cpu with phase, cycles }

@[simp] theorem standing_regs (cpu : Cpu) (phase : Phase) (n : Nat) :
    (cpu.standing phase n).regs = cpu.regs := rfl

@[simp] theorem standing_nmi (cpu : Cpu) (phase : Phase) (n : Nat) :
    (cpu.standing phase n).nmi = cpu.nmi := rfl

@[simp] theorem standing_irq (cpu : Cpu) (phase : Phase) (n : Nat) :
    (cpu.standing phase n).irq = cpu.irq := rfl

@[simp] theorem standing_phase (cpu : Cpu) (phase : Phase) (n : Nat) :
    (cpu.standing phase n).phase = phase := rfl

@[simp] theorem standing_standing (cpu : Cpu) (f g : Phase) (m n : Nat) :
    (cpu.standing f m).standing g n = cpu.standing g n := rfl

theorem finishes_standing (op : MicroOp) (cpu : Cpu) (phase : Phase) (n : Nat) :
    op.finishes (cpu.standing phase n) = op.finishes cpu := by
  cases op <;> rfl

/-- A micro-op carries the phase and the clock along untouched. -/
theorem perform_standing (op : MicroOp) (cpu : Cpu) (phase : Phase) (n : Nat) (bus : β) :
    op.perform (cpu.standing phase n) bus =
      ((op.perform cpu bus).1.standing phase n, (op.perform cpu bus).2) := by
  cases op with
  | tryRead op =>
    cases h : cpu.latch.crossesPage <;> simp [MicroOp.perform, standing, h]
  | _ => rfl

/-! ## 2. Draining a list of micro-ops -/

/-- Performs micro-ops in order, up to the first that finishes the instruction, and counts them. -/
def drain : List MicroOp → Cpu → β → Nat × Cpu × β
  | [], cpu, bus => (0, cpu, bus)
  | op :: rest, cpu, bus =>
    if op.finishes cpu then (1, op.perform cpu bus)
    else
      let (n, out) := drain rest (op.perform cpu bus).1 (op.perform cpu bus).2
      (n + 1, out)

theorem drain_nil (cpu : Cpu) (bus : β) : drain [] cpu bus = (0, cpu, bus) := rfl

/-- A micro-op that finishes the instruction is the last that is performed. -/
theorem drain_cons_of_finishes {op : MicroOp} {cpu : Cpu} (h : op.finishes cpu = true)
    (rest : List MicroOp) (bus : β) : drain (op :: rest) cpu bus = (1, op.perform cpu bus) := by
  simp only [drain, h, if_true]

/-- Any other is followed by the rest. -/
theorem drain_cons {op : MicroOp} {cpu : Cpu} (h : op.finishes cpu = false)
    (rest : List MicroOp) (bus : β) :
    drain (op :: rest) cpu bus =
      ((drain rest (op.perform cpu bus).1 (op.perform cpu bus).2).1 + 1,
        (drain rest (op.perform cpu bus).1 (op.perform cpu bus).2).2) := by
  simp only [drain, h, Bool.false_eq_true, if_false]

/-- The micro-ops that are never the last of an instruction before its end. -/
def MicroOp.isStraight : MicroOp → Bool
  | tryRead _ | branchOffset _ | branchNear => false
  | _ => true

theorem finishes_of_isStraight {op : MicroOp} (h : op.isStraight = true) (cpu : Cpu) :
    op.finishes cpu = false := by
  cases op <;> first | rfl | exact absurd h Bool.false_ne_true

/-- **Straight micro-ops are performed before what follows them**, every one of them. -/
theorem drain_append : ∀ (ops rest : List MicroOp), ops.all MicroOp.isStraight = true →
    ∀ (cpu : Cpu) (bus : β),
    drain (ops ++ rest) cpu bus =
      (ops.length + (drain rest (drain ops cpu bus).2.1 (drain ops cpu bus).2.2).1,
        (drain rest (drain ops cpu bus).2.1 (drain ops cpu bus).2.2).2)
  | [], rest, _, cpu, bus => by simp [drain_nil]
  | op :: ops, rest, h, cpu, bus => by
    simp only [List.all_cons, Bool.and_eq_true] at h
    have hf := finishes_of_isStraight h.1 cpu
    rw [List.cons_append, drain_cons hf, drain_cons hf, drain_append ops rest h.2]
    simp only [List.length_cons, Nat.add_right_comm]

/-! ## 3. Settling drains what is pending -/

theorem settleWithin_boundary (k spent : Nat) {cpu : Cpu} (h : cpu.phase = .boundary) (bus : β) :
    settleWithin k spent cpu bus = (spent, cpu, bus) := by
  cases k with
  | zero => rfl
  | succ k => simp [settleWithin, isSettled, atBoundary, h]

/-- One tick inside an instruction is one micro-op, and then the boundary or the next one. -/
theorem tick_executing (op : MicroOp) (rest : List MicroOp) (cpu : Cpu) (n : Nat) (bus : β) :
    tick (cpu.standing (.executing op rest) n) bus =
      ((op.perform cpu bus).1.standing
        (match rest with
          | [] => .boundary
          | following :: rest =>
            if op.finishes cpu then .boundary else .executing following rest) (n + 1),
        (op.perform cpu bus).2) := by
  have hf := finishes_standing op cpu (.executing op rest) (n + 1)
  have hp := perform_standing op cpu (.executing op rest) (n + 1) bus
  simp only [standing] at hf hp
  cases rest with
  | nil => simp only [tick, standing, hp]
  | cons following rest => simp only [tick, standing, hp, hf]

/-- **Settling inside an instruction drains its microcode.**  The fuel is the number of micro-ops
pending, of which each tick takes one away. -/
theorem settleWithin_executing : ∀ (rest : List MicroOp) (op : MicroOp) (spent n : Nat) (cpu : Cpu)
    (bus : β),
    settleWithin (rest.length + 1) spent (cpu.standing (.executing op rest) n) bus =
      (spent + (drain (op :: rest) cpu bus).1,
        (drain (op :: rest) cpu bus).2.1.standing .boundary (n + (drain (op :: rest) cpu bus).1),
        (drain (op :: rest) cpu bus).2.2)
  | [], op, spent, n, cpu, bus => by
    simp only [List.length_nil, settleWithin, isSettled, atBoundary, isJammed, standing_phase,
      Bool.or_self, Bool.false_eq_true, if_false, tick_executing]
    cases h : op.finishes cpu with
    | true => rw [drain_cons_of_finishes h]
    | false => rw [drain_cons h, drain_nil]
  | following :: rest, op, spent, n, cpu, bus => by
    rw [settleWithin]
    simp only [isSettled, atBoundary, isJammed, standing_phase,
      Bool.or_self, Bool.false_eq_true, if_false, tick_executing]
    cases h : op.finishes cpu with
    | true =>
      rw [drain_cons_of_finishes h, if_pos rfl]
      exact settleWithin_boundary _ _ rfl _
    | false =>
      rw [drain_cons h, if_neg (by simp), List.length_cons,
        settleWithin_executing rest following (spent + 1) (n + 1)]
      simp only [Nat.add_assoc, Nat.add_comm 1]

/-! ## 4. A step from a boundary -/

/-- The processor after the cycle that fetched an opcode, but for its place in the microcode. -/
def fetched (cpu : Cpu) : Cpu := { cpu with regs := cpu.regs.advance 1 }

/-- The cycle at a boundary with no interrupt to take fetches an opcode. -/
theorem tick_fetch {cpu : Cpu} {bus : β} (hb : cpu.phase = .boundary)
    (hi : cpu.interruptToTake bus = none) :
    cpu.tick bus =
      (cpu.fetched.standing
        (.ofMicrocode (Instruction.programOf (AddressBus.read cpu.regs.pc bus).1))
        (cpu.cycles + 1), (AddressBus.read cpu.regs.pc bus).2) := by
  have hbegin : cpu.tick bus = begin { cpu with cycles := cpu.cycles + 1 } bus := by
    simp only [tick, hb]
  have htake : interruptToTake { cpu with cycles := cpu.cycles + 1 } bus = none := hi
  rw [hbegin, begin, htake]
  rfl

/-- **A step from a boundary with no interrupt to take fetches an opcode and drains its
microcode**, unless there is none and the processor jams. -/
theorem step_boundary {cpu : Cpu} {bus : β} (hb : cpu.phase = .boundary)
    (hi : cpu.interruptToTake bus = none)
    (hj : Instruction.programOf (AddressBus.read cpu.regs.pc bus).1 ≠ []) :
    let ops := Instruction.programOf (AddressBus.read cpu.regs.pc bus).1
    let run := drain ops cpu.fetched (AddressBus.read cpu.regs.pc bus).2
    cpu.step bus = (1 + run.1, run.2.1.standing .boundary (cpu.cycles + 1 + run.1), run.2.2) := by
  intro ops run
  have hops : Instruction.programOf (AddressBus.read cpu.regs.pc bus).1 = ops := rfl
  have hrun : run = drain ops cpu.fetched (AddressBus.read cpu.regs.pc bus).2 := rfl
  obtain ⟨op, rest, hcons⟩ := List.exists_cons_of_ne_nil hj
  have hfetch : cpu.tick bus =
      (cpu.fetched.standing (.executing op rest) (cpu.cycles + 1),
        (AddressBus.read cpu.regs.pc bus).2) := by
    rw [tick_fetch hb hi, hcons]
    rfl
  simp only [step, hfetch, standing_phase, Phase.pending]
  rw [settleWithin_executing, hrun, ← hops, hcons]

/-! ## 5. Interrupt entries -/

/-- The micro-ops of an interrupt entry after its first cycle. -/
def entryMicrocode : List MicroOp :=
  [.idle, .pushPage, .pushOffset, .pushFrame false, .vector, .vectorHigh]

/-- The processor after the cycle that found an interrupt, but for its place in the entry. -/
def alerted (cpu : Cpu) (interrupt : Interrupt) : Cpu :=
  { cpu.acknowledge interrupt with
    latch := { (cpu.acknowledge interrupt).latch with vector := interrupt.vector } }

/-- One tick inside an entry is one micro-op, and then the boundary or the next one. -/
theorem tick_entering (op : MicroOp) (rest : List MicroOp) (cpu : Cpu) (n : Nat) (bus : β) :
    tick (cpu.standing (.entering op rest) n) bus =
      ((op.perform cpu bus).1.standing
        (match rest with
          | [] => .boundary
          | following :: rest => .entering following rest) (n + 1),
        (op.perform cpu bus).2) := by
  have hp := perform_standing op cpu (.entering op rest) (n + 1) bus
  simp only [standing] at hp
  cases rest with
  | nil => simp only [tick, standing, hp]
  | cons following rest => simp only [tick, standing, hp]

/-- Settling inside an entry drains what is left of it; no micro-op of an entry ends it early. -/
theorem settleWithin_entering : ∀ (rest : List MicroOp) (op : MicroOp)
    (_ : (op :: rest).all MicroOp.isStraight = true) (spent n : Nat) (cpu : Cpu) (bus : β),
    settleWithin (rest.length + 1) spent (cpu.standing (.entering op rest) n) bus =
      (spent + (drain (op :: rest) cpu bus).1,
        (drain (op :: rest) cpu bus).2.1.standing .boundary (n + (drain (op :: rest) cpu bus).1),
        (drain (op :: rest) cpu bus).2.2)
  | [], op, h, spent, n, cpu, bus => by
    simp only [List.all_cons, Bool.and_eq_true] at h
    rw [drain_cons (finishes_of_isStraight h.1 cpu), drain_nil, List.length_nil, settleWithin]
    simp only [isSettled, atBoundary, isJammed, standing_phase,
      Bool.or_self, Bool.false_eq_true, if_false, tick_entering]
    rfl
  | following :: rest, op, h, spent, n, cpu, bus => by
    rw [List.all_cons, Bool.and_eq_true] at h
    rw [drain_cons (finishes_of_isStraight h.1 cpu), settleWithin]
    simp only [isSettled, atBoundary, isJammed, standing_phase,
      Bool.or_self, Bool.false_eq_true, if_false, tick_entering]
    rw [List.length_cons, settleWithin_entering rest following h.2 (spent + 1) (n + 1)]
    simp only [Nat.add_assoc, Nat.add_comm 1]

/-- The cycle at a boundary where an interrupt is due finds it. -/
theorem tick_alerted {cpu : Cpu} {bus : β} {interrupt : Interrupt} (hb : cpu.phase = .boundary)
    (hi : cpu.interruptToTake bus = some interrupt) :
    cpu.tick bus =
      ((cpu.alerted interrupt).standing .entry (cpu.cycles + 1),
        (AddressBus.read cpu.regs.pc bus).2) := by
  have hbegin : cpu.tick bus = begin { cpu with cycles := cpu.cycles + 1 } bus := by
    simp only [tick, hb]
  have htake : interruptToTake { cpu with cycles := cpu.cycles + 1 } bus = some interrupt := hi
  rw [hbegin, begin, htake]
  cases interrupt <;> rfl

/-- **A step from a boundary where an interrupt is due is its entry**: one cycle that finds it and
six that push the state and follow the vector. -/
theorem step_interrupt {cpu : Cpu} {bus : β} {interrupt : Interrupt} (hb : cpu.phase = .boundary)
    (hi : cpu.interruptToTake bus = some interrupt) :
    let run := drain entryMicrocode (cpu.alerted interrupt) (AddressBus.read cpu.regs.pc bus).2
    cpu.step bus = (7, run.2.1.standing .boundary (cpu.cycles + 7), run.2.2) := by
  intro run
  have hlength : run.1 = 6 := rfl
  simp only [step, tick_alerted hb hi, standing_phase, Phase.entry, Phase.pending]
  rw [settleWithin_entering _ _ rfl]
  have hrun : drain (.idle :: [.pushPage, .pushOffset, .pushFrame false, .vector, .vectorHigh])
      (cpu.alerted interrupt) (AddressBus.read cpu.regs.pc bus).2 = run := rfl
  rw [hrun, hlength]

end Famicom.Cpu
