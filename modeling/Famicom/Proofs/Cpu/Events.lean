/-
# What happens to a processor

A processor is clocked, and requests reach it between any two of its cycles; meanwhile the bus it is
on may become another.  A history is a list of such events.

* One tick is told by the place it starts from: at a boundary by `tick_fetch` and `tick_alerted`,
  and inside a list of micro-ops by `tick_inInstruction` and `tick_inEntry`.
* **Wherever a history leads, the processor stands within the microcode of an opcode or of an
  entry** (`placed_run`).
-/
import Famicom.Proofs.Cpu.Run

namespace Famicom.Cpu

variable {β : Type} [ProcessorBus β]

/-! ## 1. Histories -/

/-- What happens to a processor, or to the bus it is on. -/
inductive Event (β : Type) where
  | tick
  | request (interrupt : Interrupt)
  /-- Something else leaves this bus. -/
  | elsewhere (bus : β)

/-- A request of either interrupt. -/
def request (cpu : Cpu) : Interrupt → Cpu
  | .nmi => cpu.requestNmi
  | .irq => cpu.requestIrq

/-- A processor with its bus after an event. -/
def after : Cpu × β → Event β → Cpu × β
  | (cpu, bus), .tick => cpu.tick bus
  | (cpu, bus), .request interrupt => (cpu.request interrupt, bus)
  | (cpu, _), .elsewhere bus => (cpu, bus)

/-- A processor with its bus after a history. -/
def run (s : Cpu × β) (history : List (Event β)) : Cpu × β := history.foldl after s

theorem run_cons (s : Cpu × β) (e : Event β) (history : List (Event β)) :
    run s (e :: history) = run (after s e) history := rfl

/-- The event is a tick. -/
def Event.isTick : Event β → Bool
  | .tick => true
  | _ => false

/-- Requests, and whatever happens to the bus, do not reach the place in the microcode. -/
theorem after_of_not_tick (s : Cpu × β) {e : Event β} (he : e.isTick = false) :
    (after s e).1.phase = s.1.phase ∧ (after s e).1.latch = s.1.latch := by
  obtain ⟨cpu, bus⟩ := s
  cases e with
  | tick => cases he
  | request interrupt => cases interrupt <;> exact ⟨rfl, rfl⟩
  | elsewhere bus => exact ⟨rfl, rfl⟩

theorem run_of_no_tick (s : Cpu × β) {history : List (Event β)}
    (h : history.countP Event.isTick = 0) :
    (run s history).1.phase = s.1.phase ∧ (run s history).1.latch = s.1.latch := by
  induction history generalizing s with
  | nil => exact ⟨rfl, rfl⟩
  | cons e history ih =>
    rw [List.countP_eq_zero, List.forall_mem_cons, Bool.not_eq_true] at h
    obtain ⟨hphase, hlatch⟩ := after_of_not_tick s h.1
    obtain ⟨hrun, hkept⟩ := ih (after s e) (List.countP_eq_zero.mpr h.2)
    exact ⟨hrun.trans hphase, hkept.trans hlatch⟩

/-! ## 2. One tick -/

theorem atBoundary_iff {cpu : Cpu} : cpu.atBoundary = true ↔ cpu.phase = .boundary := by
  unfold atBoundary
  cases cpu.phase <;> simp

theorem standing_self {cpu : Cpu} {phase : Phase} (h : cpu.phase = phase) :
    cpu.standing phase cpu.cycles = cpu := by
  rw [← h]
  rfl

/-- Inside an instruction with these micro-ops to go, or at its end. -/
def Phase.inInstruction : List MicroOp → Phase
  | [] => .boundary
  | next :: rest => .executing next rest

/-- Inside an entry with these micro-ops to go, or at its end. -/
def Phase.inEntry : List MicroOp → Phase
  | [] => .boundary
  | next :: rest => .entering next rest

theorem tick_inInstruction {cpu : Cpu} {op : MicroOp} {rest : List MicroOp}
    (h : cpu.phase = .executing op rest) (bus : β) :
    cpu.tick bus =
      ((op.perform cpu bus).1.standing
        (if op.finishes cpu then .boundary else .inInstruction rest) (cpu.cycles + 1),
        (op.perform cpu bus).2) := by
  have htick := tick_executing op rest cpu cpu.cycles bus
  rw [standing_self h] at htick
  rw [htick]
  cases rest with
  | nil => simp [Phase.inInstruction]
  | cons following rest => rfl

theorem tick_inEntry {cpu : Cpu} {op : MicroOp} {rest : List MicroOp}
    (h : cpu.phase = .entering op rest) (bus : β) :
    cpu.tick bus =
      ((op.perform cpu bus).1.standing (.inEntry rest) (cpu.cycles + 1),
        (op.perform cpu bus).2) := by
  have htick := tick_entering op rest cpu cpu.cycles bus
  rw [standing_self h] at htick
  rw [htick]
  cases rest <;> rfl

/-- A jammed processor reads and drops the byte. -/
theorem tick_stopped {cpu : Cpu} (h : cpu.phase = .jammed) (bus : β) :
    cpu.tick bus =
      (cpu.standing .jammed (cpu.cycles + 1), (AddressBus.read jammedAddress bus).2) := by
  simp only [tick, h, touch, standing]

/-- A jammed processor changes in nothing but its clock. -/
theorem tick_jammed {cpu : Cpu} (h : cpu.phase = .jammed) (bus : β) :
    (cpu.tick bus).1 = cpu.standing .jammed (cpu.cycles + 1) := by
  rw [tick_stopped h]

/-- The micro-ops still to run. -/
def Phase.upcoming : Phase → List MicroOp
  | .executing next rest | .entering next rest => next :: rest
  | .boundary | .jammed => []

/-- A straight micro-op is followed by the next, if there is one. -/
theorem tick_upcoming {cpu : Cpu} {op : MicroOp} {rest : List MicroOp}
    (h : cpu.phase.upcoming = op :: rest) (hs : op.isStraight = true) (bus : β) :
    ∃ phase, phase.upcoming = rest ∧ (rest = [] → phase = .boundary) ∧
      cpu.tick bus = ((op.perform cpu bus).1.standing phase (cpu.cycles + 1),
        (op.perform cpu bus).2) := by
  cases hphase : cpu.phase with
  | executing next left =>
    rw [hphase] at h
    obtain ⟨rfl, rfl⟩ := List.cons_eq_cons.mp h
    refine ⟨.inInstruction left, ?_, fun hl => by rw [hl]; rfl, ?_⟩
    · cases left <;> rfl
    · rw [tick_inInstruction hphase, finishes_of_isStraight hs, if_neg Bool.false_ne_true]
  | entering next left =>
    rw [hphase] at h
    obtain ⟨rfl, rfl⟩ := List.cons_eq_cons.mp h
    refine ⟨.inEntry left, ?_, fun hl => by rw [hl]; rfl, tick_inEntry hphase bus⟩
    cases left <;> rfl
  | boundary =>
    rw [hphase] at h
    cases h
  | jammed =>
    rw [hphase] at h
    cases h

/-! ## 3. Where the processor can stand -/

/-- The processor stands within the microcode of an opcode or of an entry. -/
def Phase.Placed : Phase → Prop
  | .boundary | .jammed => True
  | .executing op rest => ∃ opcode, op :: rest <:+ Instruction.programOf opcode
  | .entering op rest => op :: rest <:+ entryMicrocode

/-- A tick leads from one micro-op to the next, or to a boundary, or to the start of a list of
them. -/
theorem placed_tick {cpu : Cpu} (h : cpu.phase.Placed) (bus : β) :
    (cpu.tick bus).1.phase.Placed := by
  cases hphase : cpu.phase with
  | boundary =>
    cases hi : cpu.interruptToTake bus with
    | none =>
      rw [tick_fetch hphase hi, standing_phase]
      cases hcode : Instruction.programOf (AddressBus.read cpu.regs.pc bus).1 with
      | nil => trivial
      | cons op rest =>
        exact ⟨(AddressBus.read cpu.regs.pc bus).1, hcode ▸ List.suffix_refl _⟩
    | some interrupt =>
      rw [tick_alerted hphase hi, standing_phase]
      exact List.suffix_rfl
  | executing op rest =>
    rw [hphase] at h
    obtain ⟨opcode, h⟩ := h
    rw [tick_inInstruction hphase, standing_phase]
    cases rest with
    | nil => split <;> trivial
    | cons following rest =>
      split
      · trivial
      · exact ⟨opcode, (List.suffix_cons op _).trans h⟩
  | entering op rest =>
    rw [hphase] at h
    rw [tick_inEntry hphase, standing_phase]
    cases rest with
    | nil => trivial
    | cons following rest => exact (List.suffix_cons op _).trans h
  | jammed =>
    rw [tick_jammed hphase]
    trivial

theorem placed_after {s : Cpu × β} (h : s.1.phase.Placed) (e : Event β) :
    (after s e).1.phase.Placed := by
  cases e with
  | tick => exact placed_tick h s.2
  | request interrupt => cases interrupt <;> exact h
  | elsewhere bus => exact h

theorem placed_run {s : Cpu × β} (h : s.1.phase.Placed) (history : List (Event β)) :
    (run s history).1.phase.Placed := by
  induction history generalizing s with
  | nil => exact h
  | cons e history ih => exact ih (placed_after h e)

end Famicom.Cpu
