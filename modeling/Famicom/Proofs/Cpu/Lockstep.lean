/-
# The processor and the counting machine in lockstep

A counting machine that is within its tables stands for a processor: its counter is a place in the
microcode (`Counting.place`).  The two go through the same histories together.  **No history makes
the machine fail** (`Counting.follows_acts`), and in every cycle both make the same access and agree
in registers, latches and requests.

What carries the induction is `Counting.Sound`: the instruction is not one that jams, the counter is
below the length of its microcode, and the bit that notes a carry is right in the one place where it
is looked at.  Between instructions nothing is asked of the instruction, the counter or the bit.
Whatever an earlier history left there, the next fetch writes over.
-/
import Famicom.Proofs.Cpu.Counting

namespace Famicom.Cpu

/-! ## 1. Histories -/

/-- What can be done to a processor: events reach it, it is reset, and its registers are edited. -/
inductive Action (β : Type) where
  | event (e : Event β)
  | reset
  | warmReset
  | edit (regs : Registers)

/-- The action resets the processor. -/
def Action.isReset {β : Type} : Action β → Bool
  | reset | warmReset => true
  | event _ | edit _ => false

section Histories

variable {β : Type} [ProcessorBus β]

/-- A processor with its bus after an action. -/
def act (s : Cpu × β) : Action β → Cpu × β
  | .event e => after s e
  | .reset => s.1.reset s.2
  | .warmReset => s.1.warmReset s.2
  | .edit regs => ({ s.1 with regs }, s.2)

/-- A processor with its bus after a list of actions. -/
def acts (s : Cpu × β) (history : List (Action β)) : Cpu × β := history.foldl act s

namespace Counting

/-- A counting machine with its bus after an action. -/
def act (s : Counting × β) : Action β → Option (Counting × β)
  | .event .tick => s.1.tick s.2
  | .event (.request interrupt) => some (s.1.request interrupt, s.2)
  | .event (.elsewhere bus) => some (s.1, bus)
  | .reset => some (s.1.restart { s.1.core with regs := {} } s.2)
  | .warmReset =>
    let regs := { s.1.core.regs with sp := s.1.core.regs.sp - 3 }
    some (s.1.restart
      { s.1.core with regs := regs.assign Flag.interruptDisable true } s.2)
  | .edit regs => some ({ s.1 with core := { s.1.core with regs } }, s.2)

/-- A counting machine with its bus after a list of actions, none of which fails. -/
def acts (s : Counting × β) (history : List (Action β)) : Option (Counting × β) :=
  history.foldlM act s

end Counting

end Histories

/-! ## 2. The machine and the processor it stands for -/

namespace Counting

/-- The place in the microcode that the counter counts to. -/
def place (m : Counting) : Phase :=
  match m.stage with
  | .fetch => .boundary
  | .execute => .inInstruction (m.instruction.microcode.drop m.step)
  | .interrupt => .inEntry (entryMicrocode.drop m.step)
  | .jammed => .jammed

/-- The processor that the machine stands for. -/
def toCpu (m : Counting) : Cpu := m.core.standing m.place m.core.cycles

/-- The machine is within its tables, and the bit is right where the next cycle looks at it. -/
structure Sound (m : Counting) : Prop where
  running : m.stage = .execute → m.instruction.operation ≠ .jam
  inside : m.stage = .execute → m.step < m.instruction.microcode.length
  carry : m.stage = .execute →
    ∀ op, m.instruction.microcode[m.step]? = some (.tryRead op) →
      m.crossed = m.core.latch.crossesPage
  entered : m.stage = .interrupt → m.step < entryMicrocode.length

variable {β : Type} [ProcessorBus β]

/-- A counting machine on its bus stands for a processor on the same bus. -/
structure Follows (s : Counting × β) (t : Cpu × β) : Prop where
  cpu : s.1.toCpu = t.1
  bus : s.2 = t.2
  sound : s.1.Sound

/-- Between instructions, and once it has stopped, nothing is asked of a machine. -/
theorem sound_of_idle {m : Counting} (h : m.stage = .fetch ∨ m.stage = .jammed) : m.Sound := by
  have hexecute : m.stage ≠ .execute := by rcases h with h | h <;> simp [h]
  have hinterrupt : m.stage ≠ .interrupt := by rcases h with h | h <;> simp [h]
  exact ⟨fun he => absurd he hexecute, fun he => absurd he hexecute,
    fun he => absurd he hexecute, fun he => absurd he hinterrupt⟩

/-- The number of services under way never fails to be counted: none is taken from nothing. -/
theorem exists_depthAfter (arm : Arm) (depth : Nat) :
    ∃ after, arm.depthAfter depth = some after := by
  unfold Arm.depthAfter
  split
  · exact ⟨_, rfl⟩
  · split
    · exact ⟨0, rfl⟩
    · exact ⟨depth - 1, if_pos (by omega)⟩
  · exact ⟨depth, rfl⟩

/-- The machine as its counter has moved on and no access has been made yet. -/
def counted (m : Counting) : Counting :=
  { m with core := m.core.standing m.core.phase (m.core.cycles + 1), step := m.step + 1 }

/-- The machine behind a micro-op that left the processor as `core`. -/
def behind (m : Counting) (op : MicroOp) (core : Cpu) (depth : Nat) : Counting :=
  m.counted.moved op (core.standing m.core.phase (m.core.cycles + 1)) depth

theorem increment_of_lt {n : Nat} (h : n < 255) : increment n = some (n + 1) := if_pos h

/-- **While the bit is right, a cycle of the machine is a micro-op of the processor.** -/
theorem perform_counted {m : Counting} (arm : Arm)
    (hc : ∀ op, arm.op = .tryRead op → m.crossed = m.core.latch.crossesPage) (bus : β) :
    ∃ depth, m.counted.perform arm bus =
      some
        (if arm.last || arm.op.finishes m.core then
          (m.behind arm.op (arm.op.perform m.core bus).1 depth).ended
        else m.behind arm.op (arm.op.perform m.core bus).1 depth,
        (arm.op.perform m.core bus).2) := by
  obtain ⟨depth, hdepth⟩ := exists_depthAfter arm m.depth
  have haccess : m.counted.access arm.op bus =
      ((arm.op.perform m.core bus).1.standing m.core.phase (m.core.cycles + 1),
        (arm.op.perform m.core bus).2) := by
    refine Eq.trans ?_ (perform_standing arm.op m.core m.core.phase (m.core.cycles + 1) bus)
    cases hop : arm.op with
    | tryRead op =>
      have hbit : m.counted.crossed = m.core.latch.crossesPage := hc op hop
      simp only [access, hbit]
      rfl
    | _ => rfl
  have hfinishes : m.counted.finishes arm.op = arm.op.finishes m.core := by
    refine Eq.trans ?_ (finishes_standing arm.op m.core m.core.phase (m.core.cycles + 1))
    cases hop : arm.op with
    | tryRead op =>
      have hbit : m.counted.crossed = m.core.latch.crossesPage := hc op hop
      simp only [finishes, hbit]
      rfl
    | _ => rfl
  have hcount : arm.depthAfter m.counted.depth = some depth := hdepth
  refine ⟨depth, ?_⟩
  simp only [perform, hcount, haccess, hfinishes, Option.map_some]
  rfl

/-- **Inside an instruction the machine and the processor make the same cycle.** -/
theorem follows_executing {m : Counting} (hm : m.Sound) (hs : m.stage = .execute) (bus : β) :
    ∃ s, m.tick bus = some s ∧ Follows s (m.toCpu.tick bus) := by
  have hj := hm.running hs
  have hn := hm.inside hs
  have hplace : m.toCpu.phase =
      .executing m.instruction.microcode[m.step] (m.instruction.microcode.drop (m.step + 1)) := by
    simp only [toCpu, standing_phase, place, hs, List.drop_eq_getElem_cons hn,
      Phase.inInstruction]
  have hsmall : m.step < 255 := by
    have hle := length_microcode_le m.instruction
    omega
  have htick : m.tick bus = m.counted.perform
      { op := m.instruction.microcode[m.step],
        last := m.step + 1 == m.instruction.microcode.length } bus := by
    simp only [tick, counted, standing, hs, increment_of_lt hsmall,
      Instruction.arm_microcode hj hn, Option.bind_eq_bind, Option.bind_some]
  have hbit : ∀ op, m.instruction.microcode[m.step] = .tryRead op →
      m.crossed = m.core.latch.crossesPage := fun op hop =>
    hm.carry hs op (by rw [List.getElem?_eq_getElem hn, hop])
  obtain ⟨depth, hperform⟩ := perform_counted ⟨_, _⟩ hbit bus
  refine ⟨_, htick.trans hperform, ?_⟩
  rw [tick_inInstruction hplace, toCpu, perform_standing, finishes_standing]
  by_cases hend : (m.step + 1 == m.instruction.microcode.length ||
      m.instruction.microcode[m.step].finishes m.core) = true
  · have hphase : (if m.instruction.microcode[m.step].finishes m.core then Phase.boundary
        else .inInstruction (m.instruction.microcode.drop (m.step + 1))) = .boundary := by
      rcases (Bool.or_eq_true _ _).mp hend with hlast | hfinishes
      · rw [List.drop_of_length_le (beq_iff_eq.mp hlast).ge, Phase.inInstruction, ite_self]
      · rw [if_pos hfinishes]
    rw [if_pos hend, hphase]
    exact ⟨rfl, rfl, sound_of_idle (.inl rfl)⟩
  · rw [if_neg hend]
    simp only [Bool.not_eq_true, Bool.or_eq_false_iff, beq_eq_false_iff_ne] at hend
    rw [hend.2, if_neg Bool.false_ne_true]
    refine ⟨?_, rfl, fun _ => hj, fun _ => Nat.lt_of_le_of_ne hn hend.1, fun _ op hop => ?_,
      fun hentry => ?_⟩
    · simp only [toCpu, place, behind, moved, counted, hs]
      rfl
    · simp only [behind, moved, carries_of_tryRead hn hop, if_true]
    · cases hs.symm.trans hentry

/-- So they do inside an entry. -/
theorem follows_entering {m : Counting} (hm : m.Sound) (hs : m.stage = .interrupt) (bus : β) :
    ∃ s, m.tick bus = some s ∧ Follows s (m.toCpu.tick bus) := by
  have hn := hm.entered hs
  have hplace : m.toCpu.phase =
      .entering entryMicrocode[m.step] (entryMicrocode.drop (m.step + 1)) := by
    simp only [toCpu, standing_phase, place, hs, List.drop_eq_getElem_cons hn, Phase.inEntry]
  have hsmall : m.step < 255 := hn.trans (by decide)
  have htick : m.tick bus = m.counted.perform
      { op := entryMicrocode[m.step], last := m.step + 1 == entryMicrocode.length } bus := by
    simp only [tick, counted, standing, hs, increment_of_lt hsmall, entryArm_microcode hn,
      Option.bind_eq_bind, Option.bind_some]
  -- No cycle of an entry ends it early, and so none of them looks at the bit.
  have hstraight : entryMicrocode[m.step].isStraight = true :=
    List.all_eq_true.mp (show entryMicrocode.all MicroOp.isStraight = true from rfl) _
      (List.getElem_mem hn)
  have hbit : ∀ op, entryMicrocode[m.step] = .tryRead op →
      m.crossed = m.core.latch.crossesPage := by
    intro op hop
    rw [hop] at hstraight
    cases hstraight
  obtain ⟨depth, hperform⟩ := perform_counted ⟨_, _⟩ hbit bus
  refine ⟨_, htick.trans hperform, ?_⟩
  rw [tick_inEntry hplace, toCpu, perform_standing, finishes_of_isStraight hstraight,
    Bool.or_false]
  by_cases hlast : m.step + 1 = entryMicrocode.length
  · rw [if_pos (beq_iff_eq.mpr hlast), List.drop_of_length_le hlast.ge]
    exact ⟨rfl, rfl, sound_of_idle (.inl rfl)⟩
  · rw [if_neg (mt beq_iff_eq.mp hlast)]
    refine ⟨?_, rfl, ?_, ?_, ?_, fun _ => Nat.lt_of_le_of_ne hn hlast⟩
    · simp only [toCpu, place, behind, moved, counted, hs]
      rfl
    all_goals
      intro hexecute
      cases hs.symm.trans hexecute

/-- Where a machine stands that has fetched an opcode. -/
theorem place_of_fetched {m : Counting}
    (hstage : m.stage = if m.instruction.operation = .jam then .jammed else .execute)
    (hstep : m.step = 0) : m.place = .ofMicrocode m.instruction.microcode := by
  by_cases hj : m.instruction.operation = .jam
  · rw [if_pos hj] at hstage
    simp only [place, hstage, Instruction.microcode, hj, Phase.ofMicrocode]
  · rw [if_neg hj] at hstage
    obtain ⟨op, rest, hcons⟩ := List.exists_cons_of_ne_nil (microcode_ne_nil hj)
    simp only [place, hstage, hstep, List.drop_zero, hcons, Phase.inInstruction,
      Phase.ofMicrocode]

theorem sound_of_fetched {m : Counting}
    (hstage : m.stage = if m.instruction.operation = .jam then .jammed else .execute)
    (hstep : m.step = 0) : m.Sound := by
  by_cases hj : m.instruction.operation = .jam
  · rw [if_pos hj] at hstage
    exact sound_of_idle (.inr hstage)
  · rw [if_neg hj] at hstage
    refine ⟨fun _ => hj, fun _ => ?_, fun _ op hop => ?_, fun he => ?_⟩
    · rw [hstep]
      exact List.length_pos_of_ne_nil (microcode_ne_nil hj)
    · rw [hstep] at hop
      exact absurd hop (head_ne_tryRead m.instruction op)
    · cases hstage.symm.trans he

/-- So they do at a boundary. -/
theorem follows_fetching {m : Counting} (hs : m.stage = .fetch) (bus : β) :
    ∃ s, m.tick bus = some s ∧ Follows s (m.toCpu.tick bus) := by
  have hplace : m.toCpu.phase = .boundary := by
    simp only [toCpu, standing_phase, place, hs]
  cases htake : m.core.interruptToTake bus with
  | none =>
    have hnone : m.toCpu.interruptToTake bus = none := htake
    have hclock :
        { m.core with cycles := m.core.cycles + 1 }.interruptToTake bus = none := htake
    refine ⟨_, by simp only [tick, hs, begin, hclock]; rfl, ?_, ?_, ?_⟩
    · rw [tick_fetch hplace hnone, toCpu, place_of_fetched rfl rfl, Instruction.programOf_eq]
      rfl
    · rw [tick_fetch hplace hnone]
      rfl
    · exact sound_of_fetched rfl rfl
  | some interrupt =>
    have hsome : m.toCpu.interruptToTake bus = some interrupt := htake
    have hclock :
        { m.core with cycles := m.core.cycles + 1 }.interruptToTake bus = some interrupt := htake
    refine ⟨_, by simp only [tick, hs, begin, hclock]; rfl, ?_, ?_, ?_⟩
    · rw [tick_alerted hplace hsome]
      cases interrupt <;> rfl
    · rw [tick_alerted hplace hsome]
      rfl
    · exact ⟨nofun, nofun, nofun, fun _ => (by decide : 0 < entryMicrocode.length)⟩

/-- So they do when both have stopped. -/
theorem follows_jammed {m : Counting} (hs : m.stage = .jammed) (bus : β) :
    ∃ s, m.tick bus = some s ∧ Follows s (m.toCpu.tick bus) := by
  have hplace : m.toCpu.phase = .jammed := by
    simp only [toCpu, standing_phase, place, hs]
  refine ⟨_, by simp only [tick, hs]; rfl, ?_⟩
  rw [tick_stopped hplace]
  exact ⟨rfl, rfl, sound_of_idle (.inr rfl)⟩

/-- **One tick: the machine does not fail, and stays with the processor.** -/
theorem follows_tick {m : Counting} (h : m.Sound) (bus : β) :
    ∃ s, m.tick bus = some s ∧ Follows s (m.toCpu.tick bus) := by
  cases hs : m.stage with
  | fetch => exact follows_fetching hs bus
  | execute => exact follows_executing h hs bus
  | interrupt => exact follows_entering h hs bus
  | jammed => exact follows_jammed hs bus

/-- Of the processor that a machine keeps, the tables and the bit concern the latches only. -/
theorem sound_of_core {m n : Counting} (h : m.Sound) (hstage : n.stage = m.stage)
    (hi : n.instruction = m.instruction) (hstep : n.step = m.step) (hbit : n.crossed = m.crossed)
    (hlatch : n.core.latch = m.core.latch) : n.Sound where
  running he := by
    rw [hi]
    exact h.running (hstage ▸ he)
  inside he := by
    rw [hi, hstep]
    exact h.inside (hstage ▸ he)
  carry he op hop := by
    rw [hi, hstep] at hop
    rw [hbit, hlatch]
    exact h.carry (hstage ▸ he) op hop
  entered he := by
    rw [hstep]
    exact h.entered (hstage ▸ he)

/-- An entry is the same place to both. -/
theorem isEntering_toCpu {m : Counting} (h : m.Sound) :
    m.toCpu.isEntering = decide (m.stage = .interrupt) := by
  cases hs : m.stage with
  | fetch => simp only [isEntering, toCpu, standing_phase, place, hs]; rfl
  | jammed => simp only [isEntering, toCpu, standing_phase, place, hs]; rfl
  | execute =>
    simp only [isEntering, toCpu, standing_phase, place, hs]
    rw [List.drop_eq_getElem_cons (h.inside hs)]
    rfl
  | interrupt =>
    simp only [isEntering, toCpu, standing_phase, place, hs]
    rw [List.drop_eq_getElem_cons (h.entered hs)]
    rfl

/-- An entry ignores requests, and whatever else the two are at, both note them. -/
theorem toCpu_request {m : Counting} (h : m.Sound) (interrupt : Interrupt) :
    (m.request interrupt).toCpu = m.toCpu.request interrupt ∧ (m.request interrupt).Sound := by
  have hentering := isEntering_toCpu h
  by_cases hs : m.stage = .interrupt
  · have hignored : m.request interrupt = m := by simp only [request, hs, if_true]
    have hsame : m.toCpu.request interrupt = m.toCpu := by
      cases interrupt <;> simp [Cpu.request, requestNmi, requestIrq, hentering, hs]
    rw [hsame, hignored]
    exact ⟨rfl, h⟩
  · rw [decide_eq_false hs] at hentering
    cases interrupt with
    | nmi =>
      have hnoted : m.toCpu.request .nmi = { m.toCpu with nmi := true } := by
        simp [Cpu.request, requestNmi, hentering]
      simp only [hnoted, request, hs, if_false]
      exact ⟨rfl, sound_of_core h rfl rfl rfl rfl rfl⟩
    | irq =>
      have hnoted : m.toCpu.request .irq = { m.toCpu with irq := true } := by
        simp [Cpu.request, requestIrq, hentering]
      simp only [hnoted, request, hs, if_false]
      exact ⟨rfl, sound_of_core h rfl rfl rfl rfl rfl⟩

/-- **Every action: the machine does not fail, and stays with the processor.** -/
theorem follows_act {s : Counting × β} {t : Cpu × β} (h : Follows s t) (a : Action β) :
    ∃ next, act s a = some next ∧ Follows next (Cpu.act t a) := by
  obtain ⟨m, bus⟩ := s
  obtain ⟨cpu, bus'⟩ := t
  obtain ⟨hcpu, hbus, hsound⟩ := h
  dsimp only at hcpu hbus hsound
  subst hcpu hbus
  cases a with
  | event e =>
    cases e with
    | tick => exact follows_tick hsound bus
    | request interrupt =>
      obtain ⟨hrequest, hsound⟩ := toCpu_request hsound interrupt
      exact ⟨_, rfl, hrequest, rfl, hsound⟩
    | elsewhere bus => exact ⟨_, rfl, rfl, rfl, hsound⟩
  | reset => exact ⟨_, rfl, rfl, rfl, sound_of_idle (.inl rfl)⟩
  | warmReset => exact ⟨_, rfl, rfl, rfl, sound_of_idle (.inl rfl)⟩
  | edit regs => exact ⟨_, rfl, rfl, rfl, sound_of_core hsound rfl rfl rfl rfl rfl⟩

/-- **No history makes the counting machine fail**, and all through it the machine stands for the
processor. -/
theorem follows_acts {s : Counting × β} {t : Cpu × β} (h : Follows s t)
    (history : List (Action β)) :
    ∃ last, acts s history = some last ∧ Follows last (Cpu.acts t history) := by
  induction history generalizing s t with
  | nil => exact ⟨s, rfl, h⟩
  | cons a history ih =>
    obtain ⟨next, hact, hnext⟩ := follows_act h a
    obtain ⟨last, hacts, hlast⟩ := ih hnext
    refine ⟨last, ?_, hlast⟩
    simpa only [acts, List.foldlM_cons, hact, Option.bind_eq_bind, Option.bind_some] using hacts

end Counting

end Famicom.Cpu
