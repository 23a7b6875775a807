/-
# No interrupt request is lost

Requests reach the processor at any cycle of an instruction, and it looks at them in two places: at
a boundary, and where a software break pushes its first byte.  Until then there is one bit for each
of the interrupts, so a request may find another one waiting, and while an entry is under way
requests are ignored.  What is left can be counted: **every request that is accepted is served once,
or is waiting** (`tally_accepts`).

* `tick_nmi` and `tick_irq` say where a waiting request goes: a tick drops it exactly if a service
  begins in that tick.
* `Serving` is the rest of a service, and `pc_of_serving` where it ends, whatever happens meanwhile.
-/
import Famicom.FlatMemory
import Famicom.Proofs.Cpu.Events
import Mathlib.Data.List.Infix

namespace Famicom.Cpu

variable {β : Type} [ProcessorBus β]

/-! ## 1. Requests and services -/

/-- The number of events of a history of which a property holds as they happen. -/
def tally (P : Cpu × β → Event β → Bool) : Cpu × β → List (Event β) → Nat
  | _, [] => 0
  | s, e :: history => (P s e).toNat + tally P (after s e) history

/-- In this event an interrupt is entered from a boundary. -/
def enters (interrupt : Interrupt) (s : Cpu × β) : Event β → Bool
  | .tick =>
    s.1.atBoundary && (after s .tick).1.isEntering &&
      (after s .tick).1.latch.vector == interrupt.vector
  | _ => false

/-- A software break is about to push its first byte. -/
def isBreaking (cpu : Cpu) : Bool := cpu.phase matches .executing .breakPage _

/-- In this event a software break takes the vector of the non-maskable interrupt. -/
def overtakes (s : Cpu × β) : Event β → Bool
  | .tick => s.1.isBreaking && (after s .tick).1.latch.vector == Interrupt.nmi.vector
  | _ => false

/-- In this event a service of the non-maskable interrupt begins. -/
def serves (s : Cpu × β) (e : Event β) : Bool := enters .nmi s e || overtakes s e

/-- In this event a non-maskable interrupt is requested, none is waiting, and no entry is under
way. -/
def accepts (s : Cpu × β) : Event β → Bool
  | .request .nmi => !s.1.isEntering && !s.1.nmi
  | _ => false

/-! ## 2. What a tick does with requests -/

/-- The vector that a software break takes. -/
def breakVector (cpu : Cpu) : UInt16 := (if cpu.nmi then Interrupt.nmi else .irq).vector

/-- Only a software break looks at the waiting requests. -/
theorem perform_requests (op : MicroOp) (cpu : Cpu) (bus : β) :
    (op.perform cpu bus).1.nmi = (cpu.nmi && op != .breakPage) ∧
      (op.perform cpu bus).1.irq = cpu.irq ∧
      (op.perform cpu bus).1.latch.vector =
        if op = .breakPage then cpu.breakVector else cpu.latch.vector := by
  cases op with
  | breakPage => exact ⟨(Bool.and_false _).symm, rfl, rfl⟩
  | tryRead op => cases h : cpu.latch.crossesPage <;> simp [MicroOp.perform, h]
  | _ => exact ⟨(Bool.and_true _).symm, rfl, rfl⟩

/-- In an entry nothing looks at a waiting request. -/
theorem ne_breakPage {op : MicroOp} {rest : List MicroOp} (h : op :: rest <:+ entryMicrocode) :
    op ≠ .breakPage := by
  rintro rfl
  have hmem : MicroOp.breakPage ∈ entryMicrocode := h.subset List.mem_cons_self
  exact absurd hmem (by decide)

theorem isEntering_ofMicrocode (cpu : Cpu) (ops : List MicroOp) (n : Nat) :
    (cpu.standing (.ofMicrocode ops) n).isEntering = false := by
  cases ops <;> rfl

/-- **An interrupt is entered exactly if it is the one to take at a boundary.** -/
theorem enters_tick (cpu : Cpu) (bus : β) (interrupt : Interrupt) :
    enters interrupt (cpu, bus) .tick =
      (cpu.atBoundary && cpu.interruptToTake bus == some interrupt) := by
  simp only [enters, after, Bool.and_assoc]
  cases hat : cpu.atBoundary with
  | false => rfl
  | true =>
    have hphase := atBoundary_iff.mp hat
    cases hi : cpu.interruptToTake bus with
    | none =>
      rw [tick_fetch hphase hi, isEntering_ofMicrocode]
      rfl
    | some taken =>
      rw [tick_alerted hphase hi]
      cases taken <;> cases interrupt <;> rfl

theorem exists_of_isBreaking {cpu : Cpu} (h : cpu.isBreaking = true) :
    ∃ rest, cpu.phase = .executing .breakPage rest := by
  unfold isBreaking at h
  split at h
  · exact ⟨_, ‹_›⟩
  · cases h

theorem isBreaking_executing {cpu : Cpu} {op : MicroOp} {rest : List MicroOp}
    (h : cpu.phase = .executing op rest) : cpu.isBreaking = (op == .breakPage) := by
  unfold isBreaking
  rw [h]
  cases op <;> rfl

/-- **A break takes the vector exactly if it finds a request waiting.** -/
theorem overtakes_tick (cpu : Cpu) (bus : β) :
    overtakes (cpu, bus) .tick = (cpu.isBreaking && cpu.nmi) := by
  simp only [overtakes, after]
  cases hphase : cpu.phase with
  | executing op rest =>
    rw [isBreaking_executing hphase]
    by_cases hop : op = .breakPage
    · have hvector : (cpu.tick bus).1.latch.vector = cpu.breakVector := by
        rw [tick_inInstruction hphase, hop]
        rfl
      rw [hvector, breakVector, hop]
      cases cpu.nmi <;> rfl
    · rw [beq_false_of_ne hop, Bool.false_and, Bool.false_and]
  | _ => simp [isBreaking, hphase]

/-- The non-maskable interrupt goes first. -/
theorem interruptToTake_eq_nmi_iff {cpu : Cpu} {bus : β} :
    cpu.interruptToTake bus = some .nmi ↔ cpu.nmi = true := by
  unfold interruptToTake
  cases cpu.nmi <;> simp

/-- The maskable interrupt is taken for a request or the line, while nothing holds it off and the
other does not go first. -/
theorem interruptToTake_eq_irq_iff {cpu : Cpu} {bus : β} :
    cpu.interruptToTake bus = some .irq ↔
      cpu.nmi = false ∧ (cpu.irq || ProcessorBus.irqLine bus) = true ∧
        cpu.regs.has Flag.interruptDisable = false := by
  unfold interruptToTake
  cases cpu.nmi <;> simp

theorem serves_tick (cpu : Cpu) (bus : β) :
    serves (cpu, bus) .tick = ((cpu.atBoundary || cpu.isBreaking) && cpu.nmi) := by
  have hnmi : (cpu.interruptToTake bus == some .nmi) = cpu.nmi := by
    rw [Bool.eq_iff_iff, beq_iff_eq, interruptToTake_eq_nmi_iff]
  rw [serves, enters_tick, hnmi, overtakes_tick, Bool.and_or_distrib_right]

/-- **A tick drops a waiting non-maskable interrupt exactly if a service of it begins.** -/
theorem tick_nmi {cpu : Cpu} (h : cpu.phase.Placed) (bus : β) :
    (cpu.tick bus).1.nmi = (cpu.nmi && !serves (cpu, bus) .tick) := by
  rw [serves_tick]
  cases hphase : cpu.phase with
  | boundary =>
    have hdrop : (cpu.tick bus).1.nmi = false := by
      cases hi : cpu.interruptToTake bus with
      | none =>
        have hn : cpu.nmi ≠ true := by
          intro hwaiting
          have htake : cpu.interruptToTake bus = some .nmi :=
            interruptToTake_eq_nmi_iff.mpr hwaiting
          rw [hi] at htake
          cases htake
        rw [tick_fetch hphase hi]
        exact Bool.eq_false_iff.mpr hn
      | some taken =>
        rw [tick_alerted hphase hi]
        cases taken with
        | nmi => rfl
        | irq => exact (interruptToTake_eq_irq_iff.mp hi).1
    rw [hdrop, atBoundary_iff.mpr hphase]
    cases cpu.nmi <;> rfl
  | executing op rest =>
    have hat : cpu.atBoundary = false := by rw [atBoundary, hphase]
    rw [tick_inInstruction hphase, standing_nmi, (perform_requests op cpu bus).1, hat,
      isBreaking_executing hphase]
    cases cpu.nmi <;> simp [bne]
  | entering op rest =>
    rw [hphase] at h
    have hat : cpu.atBoundary = false := by rw [atBoundary, hphase]
    have hbreak : cpu.isBreaking = false := by rw [isBreaking, hphase]
    rw [tick_inEntry hphase, standing_nmi, (perform_requests op cpu bus).1, hat, hbreak]
    simp [ne_breakPage h]
  | jammed =>
    rw [tick_jammed hphase, standing_nmi]
    simp [atBoundary, isBreaking, hphase]

/-- **A tick drops a waiting maskable interrupt exactly if it is entered.** -/
theorem tick_irq (cpu : Cpu) (bus : β) :
    (cpu.tick bus).1.irq = (cpu.irq && !enters .irq (cpu, bus) .tick) := by
  rw [enters_tick]
  cases hphase : cpu.phase with
  | boundary =>
    rw [atBoundary_iff.mpr hphase]
    cases hi : cpu.interruptToTake bus with
    | none =>
      rw [tick_fetch hphase hi]
      exact (Bool.and_true _).symm
    | some taken =>
      rw [tick_alerted hphase hi]
      cases taken with
      | nmi => exact (Bool.and_true _).symm
      | irq => exact (Bool.and_false _).symm
  | executing op rest =>
    have hat : cpu.atBoundary = false := by rw [atBoundary, hphase]
    rw [tick_inInstruction hphase, standing_irq, (perform_requests op cpu bus).2.1, hat]
    exact (Bool.and_true _).symm
  | entering op rest =>
    have hat : cpu.atBoundary = false := by rw [atBoundary, hphase]
    rw [tick_inEntry hphase, standing_irq, (perform_requests op cpu bus).2.1, hat]
    exact (Bool.and_true _).symm
  | jammed =>
    have hat : cpu.atBoundary = false := by rw [atBoundary, hphase]
    rw [tick_jammed hphase, standing_irq, hat]
    exact (Bool.and_true _).symm

/-! ## 3. Every request that is accepted is served once -/

/-- What one event adds to the requests, it adds to the services and to what is waiting. -/
theorem accepts_add (s : Cpu × β) (h : s.1.phase.Placed) (e : Event β) :
    (accepts s e).toNat + s.1.nmi.toNat = (serves s e).toNat + (after s e).1.nmi.toNat := by
  obtain ⟨cpu, bus⟩ := s
  cases e with
  | tick =>
    have hserves := serves_tick cpu bus
    have hnmi := tick_nmi h bus
    change 0 + cpu.nmi.toNat = _ + (cpu.tick bus).1.nmi.toNat
    rw [hnmi, hserves]
    cases cpu.nmi <;> cases cpu.atBoundary <;> cases cpu.isBreaking <;> rfl
  | request interrupt =>
    cases interrupt with
    | nmi =>
      change (!cpu.isEntering && !cpu.nmi).toNat + cpu.nmi.toNat =
        0 + (cpu.nmi || !cpu.isEntering).toNat
      cases cpu.nmi <;> cases cpu.isEntering <;> rfl
    | irq => rfl
  | elsewhere bus => rfl

/-- **Every request of the non-maskable interrupt that is accepted is served once, or is
waiting.** -/
theorem tally_accepts {s : Cpu × β} (h : s.1.phase.Placed) (history : List (Event β)) :
    tally accepts s history + s.1.nmi.toNat =
      tally serves s history + (run s history).1.nmi.toNat := by
  induction history generalizing s with
  | nil => rfl
  | cons e history ih =>
    have hstep := accepts_add s h e
    have hrest := ih (placed_after h e)
    simp only [tally, run, List.foldl_cons] at hrest ⊢
    omega

/-- A request that comes before a software break pushes its first byte is served by the break, and
one that comes during the entry of another is not accepted. -/
example :
    let start : Cpu × FlatMemory := ({}, {})
    let broken : List (Event FlatMemory) := [.tick, .tick, .request .nmi, .tick]
    let entered : List (Event FlatMemory) := [.request .nmi, .tick, .request .nmi, .tick]
    [broken, entered].map (fun h => (tally accepts start h, tally serves start h)) =
      [(1, 1), (1, 1)] := by decide +kernel

/-- A waiting maskable interrupt is dropped only where it is entered. -/
theorem enters_of_irq_dropped {s : Cpu × β} {e : Event β} (h : s.1.irq = true)
    (hdrop : (after s e).1.irq = false) :
    enters .irq s e = true ∧ s.1.regs.has Flag.interruptDisable = false ∧ s.1.nmi = false := by
  obtain ⟨cpu, bus⟩ := s
  cases e with
  | tick =>
    change (cpu.tick bus).1.irq = false at hdrop
    have henters : enters .irq (cpu, bus) .tick = true := by
      rw [tick_irq, h, Bool.true_and, Bool.not_eq_false'] at hdrop
      exact hdrop
    have htake : cpu.interruptToTake bus = some .irq := by
      rw [enters_tick, Bool.and_eq_true, beq_iff_eq] at henters
      exact henters.2
    obtain ⟨hn, -, hi⟩ := interruptToTake_eq_irq_iff.mp htake
    exact ⟨henters, hi, hn⟩
  | request interrupt =>
    cases interrupt with
    | nmi => exact absurd (h.symm.trans hdrop) (by decide)
    | irq =>
      change (cpu.irq || !cpu.isEntering) = false at hdrop
      rw [h] at hdrop
      cases hdrop
  | elsewhere bus => exact absurd (h.symm.trans hdrop) (by decide)

/-! ## 4. Where a service ends -/

/-- The rest of a service of the non-maskable interrupt: some pushes, and then its vector. -/
structure Serving (pushes : Nat) (cpu : Cpu) : Prop where
  vector : cpu.latch.vector = Interrupt.nmi.vector
  upcoming : ∃ ops : List MicroOp, ops.length = pushes ∧
    (∀ op ∈ ops, op.isStraight = true ∧ op ≠ .breakPage) ∧
    cpu.phase.upcoming = ops ++ [.vector, .vectorHigh]

/-- Each push leaves one less. -/
theorem Serving.tick {n : Nat} {cpu : Cpu} (h : Serving (n + 1) cpu) (bus : β) :
    Serving n (cpu.tick bus).1 := by
  obtain ⟨hvector, ops, hlength, hops, hup⟩ := h
  obtain ⟨op, ops, rfl⟩ := List.exists_cons_of_length_eq_add_one hlength
  obtain ⟨hstraight, hbreak⟩ := hops op List.mem_cons_self
  obtain ⟨phase, hphase, -, htick⟩ := tick_upcoming hup hstraight bus
  refine ⟨?_, ops, Nat.succ.inj hlength, fun op' h' => hops op' (List.mem_cons_of_mem _ h'), ?_⟩
  · rw [htick]
    exact (perform_requests op cpu bus).2.2.trans ((if_neg hbreak).trans hvector)
  · rw [htick]
    exact hphase

theorem Serving.run {n m : Nat} {s : Cpu × β} (h : Serving (n + m) s.1)
    {history : List (Event β)} (hticks : history.countP Event.isTick = m) :
    Serving n (run s history).1 := by
  induction history generalizing s m with
  | nil =>
    subst hticks
    exact h
  | cons e history ih =>
    cases he : e.isTick with
    | false =>
      rw [List.countP_cons_of_neg (by simp [he])] at hticks
      obtain ⟨hphase, hlatch⟩ := after_of_not_tick s he
      exact ih ⟨hlatch ▸ h.vector, hphase ▸ h.upcoming⟩ hticks
    | true =>
      rw [List.countP_cons_of_pos he] at hticks
      subst hticks
      cases e with
      | tick => exact ih (h.tick s.2) rfl
      | request interrupt => cases he
      | elsewhere bus => cases he

/-- With the pushes done, two ticks read the vector, and the processor goes there. -/
theorem pc_of_serving {s : Cpu × β} (h : Serving 0 s.1) {between : List (Event β)}
    (hquiet : between.countP Event.isTick = 0) :
    let high := run (after s .tick) between
    (after high .tick).1.phase = .boundary ∧
      (after high .tick).1.regs.pc =
        word (AddressBus.read 0xFFFA s.2).1 (AddressBus.read 0xFFFB high.2).1 := by
  intro high
  obtain ⟨hvector, ops, hlength, -, hup⟩ := h
  rw [List.length_eq_zero_iff.mp hlength, List.nil_append] at hup
  obtain ⟨phase, hphase, -, htick⟩ := tick_upcoming hup rfl s.2
  obtain ⟨hkept, hlatch⟩ := run_of_no_tick (after s .tick) hquiet
  change high.1.phase = (s.1.tick s.2).1.phase at hkept
  change high.1.latch = (s.1.tick s.2).1.latch at hlatch
  rw [htick, standing_phase] at hkept
  rw [htick] at hlatch
  have hlater : high.1.phase.upcoming = [.vectorHigh] := by rw [hkept, hphase]
  obtain ⟨last, -, hlast, hend⟩ := tick_upcoming hlater rfl high.2
  change (high.1.tick high.2).1.phase = .boundary ∧ (high.1.tick high.2).1.regs.pc = _
  rw [hend]
  refine ⟨hlast rfl, ?_⟩
  change word high.1.latch.data (AddressBus.read (high.1.latch.vector + 1) high.2).1 = _
  rw [hlatch]
  change word (AddressBus.read s.1.latch.vector s.2).1
    (AddressBus.read (s.1.latch.vector + 1) high.2).1 = _
  rw [hvector]
  rfl

/-- What follows where a software break has looked at the requests. -/
def breakTail : List MicroOp := [.pushOffset, .pushFrame true, .vector, .vectorHigh]

/-- No other instruction looks at the requests. -/
theorem eq_breakTail {opcode : UInt8} {rest : List MicroOp}
    (h : .breakPage :: rest <:+ Instruction.programOf opcode) : rest = breakTail := by
  have hall : ∀ ops ∈ (Instruction.decode opcode).microcode.tails,
      ops.head? = some .breakPage → ops.tail = breakTail :=
    forall_byte opcode (by decide +kernel)
  rw [Instruction.programOf_eq] at h
  exact hall (.breakPage :: rest) ((List.mem_tails _ _).mpr h) rfl

/-- A service begins with four pushes or idle cycles ahead, or with two in a software break. -/
theorem serving_of_serves {s : Cpu × β} (h : s.1.phase.Placed) {e : Event β}
    (he : serves s e = true) : Serving (if s.1.atBoundary then 4 else 2) (after s e).1 := by
  obtain ⟨cpu, bus⟩ := s
  cases e with
  | request interrupt => cases he
  | elsewhere bus => cases he
  | tick =>
    rw [serves_tick, Bool.and_eq_true, Bool.or_eq_true] at he
    obtain ⟨hplace, hnmi⟩ := he
    change Serving (if cpu.atBoundary then 4 else 2) (cpu.tick bus).1
    by_cases hat : cpu.atBoundary
    · rw [if_pos hat, tick_alerted (atBoundary_iff.mp hat) (interruptToTake_eq_nmi_iff.mpr hnmi)]
      exact ⟨rfl, [.idle, .pushPage, .pushOffset, .pushFrame false], rfl, by decide, rfl⟩
    · obtain ⟨rest, hphase⟩ := exists_of_isBreaking (hplace.resolve_left hat)
      have hrest : rest = breakTail := by
        rw [hphase] at h
        exact eq_breakTail h.choose_spec
      have hvector : cpu.breakVector = Interrupt.nmi.vector := by rw [breakVector, hnmi, if_pos rfl]
      rw [if_neg hat, tick_inInstruction hphase, hrest]
      exact ⟨hvector, [.pushOffset, .pushFrame true], rfl, by decide, rfl⟩

/-! ## 5. All histories -/

/-- **After a restart no request that is accepted is lost or served twice**, whatever happens then
on whatever bus.

* The requests of the non-maskable interrupt that were accepted are as many as the services begun,
  and one more if one is waiting.
* One that waits at a boundary is entered there, and then the other interrupt still waits.
* A service ends at the address that its vector holds, unless a restart comes before its last two
  ticks.
* A waiting request of the maskable interrupt is dropped only where that is entered, from a boundary
  where it is not held off and the other one is not waiting. -/
theorem requests_served_once (cpu : Cpu) (bus : β) (history : List (Event β)) :
    let start := cpu.restart bus
    let s := run start history
    tally accepts start history = tally serves start history + s.1.nmi.toNat ∧
      (s.1.atBoundary = true → s.1.nmi = true →
        enters .nmi s .tick = true ∧ (after s .tick).1.irq = s.1.irq) ∧
      (∀ e waiting between, serves s e = true →
        waiting.countP Event.isTick = (if s.1.atBoundary then 4 else 2) →
        between.countP Event.isTick = 0 →
          let low := run (after s e) waiting
          let high := run (after low .tick) between
          (after high .tick).1.atBoundary = true ∧
            (after high .tick).1.regs.pc =
              word (AddressBus.read 0xFFFA low.2).1 (AddressBus.read 0xFFFB high.2).1) ∧
      ∀ e, s.1.irq = true → (after s e).1.irq = false →
        enters .irq s e = true ∧ s.1.regs.has Flag.interruptDisable = false ∧
          s.1.nmi = false := by
  intro start s
  have hstart : start.1.phase.Placed := trivial
  have hs : s.1.phase.Placed := placed_run hstart history
  refine ⟨?_, ?_, ?_, fun e => enters_of_irq_dropped⟩
  · exact tally_accepts hstart history
  · intro hat hnmi
    have htake : s.1.interruptToTake s.2 = some .nmi := interruptToTake_eq_nmi_iff.mpr hnmi
    have henters := enters_tick s.1 s.2 .nmi
    rw [hat, htake] at henters
    constructor
    · exact henters
    · change (s.1.tick s.2).1.irq = s.1.irq
      rw [tick_alerted (atBoundary_iff.mp hat) htake]
      rfl
  · intro e waiting between he hwaiting hbetween low high
    have hserving : Serving 0 low.1 := by
      have h := serving_of_serves hs he
      rw [← Nat.zero_add (if s.1.atBoundary then 4 else 2)] at h
      exact h.run hwaiting
    obtain ⟨hphase, hpc⟩ := pc_of_serving hserving hbetween
    exact ⟨atBoundary_iff.mpr hphase, hpc⟩

end Famicom.Cpu
