/-
# The processor always gets on

Whatever is done to a processor, on whatever bus, **every tick makes one access, and a step ends**:
at a boundary or because the processor has jammed, after eight ticks at the most
(`one_access_and_never_stuck`).  A jammed processor reads at one address in every tick and changes
in nothing but its clock, until it is reset.

`step` ticks until the instruction has ended, and it says how often.  It cannot run on, since a
tick inside an instruction or an entry takes a micro-op away (`pending_tick`), and no instruction
has more than seven of them behind its opcode.  The places where a processor that counts its cycles
could fail are those of `Counting`, and none is reached.
-/
import Famicom.Proofs.Cpu.Lockstep
import Famicom.Proofs.Cpu.Traffic

namespace Famicom.Cpu

variable {β : Type} [ProcessorBus β]

/-! ## 1. One access in a tick -/

/-- **A tick makes one access**, and a recorder notes that one and disturbs nothing. -/
theorem tick_recorded (cpu : Cpu) (bus : β) (log : Array Access) :
    cpu.tick (⟨bus, log⟩ : Recorded β) =
      ((cpu.tick bus).1, ⟨(cpu.tick bus).2, log.push (cpu.nextCycle.answered bus)⟩) := by
  have htake : cpu.interruptToTake (⟨bus, log⟩ : Recorded β) = cpu.interruptToTake bus := rfl
  cases hphase : cpu.phase with
  | boundary =>
    have hcycle : cpu.nextCycle = .read cpu.regs.pc := by simp only [nextCycle, hphase]
    cases hi : cpu.interruptToTake bus with
    | none =>
      rw [tick_fetch hphase hi, tick_fetch hphase (htake.trans hi), hcycle]
      rfl
    | some interrupt =>
      rw [tick_alerted hphase hi, tick_alerted hphase (htake.trans hi), hcycle]
      rfl
  | executing op rest =>
    have hcycle : cpu.nextCycle = op.drives cpu := by simp only [nextCycle, hphase]
    rw [tick_inInstruction hphase, tick_inInstruction hphase, perform_recorded, hcycle]
  | entering op rest =>
    have hcycle : cpu.nextCycle = op.drives cpu := by simp only [nextCycle, hphase]
    rw [tick_inEntry hphase, tick_inEntry hphase, perform_recorded, hcycle]
  | jammed =>
    have hcycle : cpu.nextCycle = .read jammedAddress := by simp only [nextCycle, hphase]
    rw [tick_stopped hphase, tick_stopped hphase, hcycle]
    rfl

/-! ## 2. A step ends -/

/-- So many ticks. -/
def ticks (n : Nat) : List (Event β) := List.replicate n .tick

theorem run_ticks_succ (s : Cpu × β) (n : Nat) :
    run s (ticks (n + 1)) = run (s.1.tick s.2) (ticks n) := rfl

/-- **A tick inside an instruction or an entry takes at least one micro-op away.** -/
theorem pending_tick {cpu : Cpu} (h : cpu.isSettled = false) (bus : β) :
    (cpu.tick bus).1.phase.pending < cpu.phase.pending := by
  cases hphase : cpu.phase with
  | boundary => simp [isSettled, atBoundary, hphase] at h
  | jammed => simp [isSettled, isJammed, hphase] at h
  | executing op rest =>
    rw [tick_inInstruction hphase, standing_phase]
    cases rest with
    | nil => simp [Phase.inInstruction, Phase.pending]
    | cons following rest => split <;> simp [Phase.inInstruction, Phase.pending]
  | entering op rest =>
    rw [tick_inEntry hphase, standing_phase]
    cases rest <;> simp [Phase.inEntry, Phase.pending]

/-- Settling is ticking until the instruction has ended, and no longer. -/
structure Settles (s : Cpu × β) (n : Nat) : Prop where
  settled : (run s (ticks n)).1.isSettled = true
  before : ∀ k, k < n → (run s (ticks k)).1.isSettled = false

/-- **With as much fuel as there are micro-ops pending, settling ends by itself.** -/
theorem settleWithin_settles : ∀ (fuel spent : Nat) (cpu : Cpu) (bus : β),
    cpu.phase.pending ≤ fuel →
    ∃ n ≤ fuel, Settles (cpu, bus) n ∧
      settleWithin fuel spent cpu bus = (spent + n, run (cpu, bus) (ticks n))
  | fuel, spent, cpu, bus => by
    intro hfuel
    cases hs : cpu.isSettled with
    | true =>
      refine ⟨0, Nat.zero_le _, ⟨hs, fun k hk => absurd hk (Nat.not_lt_zero k)⟩, ?_⟩
      cases fuel <;> simp [settleWithin, hs, run, ticks]
    | false =>
      have hlt := pending_tick hs bus
      cases fuel with
      | zero => omega
      | succ fuel =>
        obtain ⟨n, hn, ⟨hsettled, hbefore⟩, heq⟩ :=
          settleWithin_settles fuel (spent + 1) (cpu.tick bus).1 (cpu.tick bus).2 (by omega)
        refine ⟨n + 1, by omega, ⟨hsettled, fun k hk => ?_⟩, ?_⟩
        · cases k with
          | zero => exact hs
          | succ k => exact hbefore k (by omega)
        · simp only [settleWithin, hs, Bool.false_eq_true, if_false, heq, run_ticks_succ]
          rw [Nat.add_assoc, Nat.add_comm 1]

/-- **A step is a tick, and then ticks until the instruction has ended.** -/
theorem step_settles (cpu : Cpu) (bus : β) :
    ∃ n ≤ (cpu.tick bus).1.phase.pending, Settles (cpu.tick bus) n ∧
      cpu.step bus = (n + 1, run (cpu, bus) (ticks (n + 1))) := by
  obtain ⟨n, hn, hsettles, heq⟩ := settleWithin_settles (cpu.tick bus).1.phase.pending 1
    (cpu.tick bus).1 (cpu.tick bus).2 le_rfl
  refine ⟨n, hn, hsettles, ?_⟩
  rw [step, run_ticks_succ, ← Nat.add_comm 1]
  exact heq

/-- The processor stands within the microcode of an opcode or of an entry wherever a history that
began there has led. -/
theorem placed_acts {s : Cpu × β} (h : s.1.phase.Placed) (history : List (Action β)) :
    (acts s history).1.phase.Placed := by
  induction history generalizing s with
  | nil => exact h
  | cons a history ih =>
    refine ih ?_
    cases a with
    | event e => exact placed_after h e
    | reset => trivial
    | warmReset => trivial
    | edit regs => exact h

/-- There are never more than seven micro-ops to go. -/
theorem pending_le {phase : Phase} (h : phase.Placed) : phase.pending ≤ 7 := by
  cases phase with
  | boundary => exact Nat.zero_le 7
  | jammed => exact Nat.zero_le 7
  | executing op rest =>
    obtain ⟨opcode, hsuffix⟩ := h
    rw [Instruction.programOf_eq] at hsuffix
    exact hsuffix.length_le.trans (length_microcode_le _)
  | entering op rest =>
    have hlength : entryMicrocode.length ≤ 7 := by decide
    exact (List.IsSuffix.length_le h).trans hlength

/-! ## 3. Jammed until a reset -/

/-- Nothing but a reset sets a jammed processor going. -/
theorem jammed_acts {s : Cpu × β} (h : s.1.phase = .jammed) {history : List (Action β)}
    (hno : ∀ a ∈ history, a.isReset = false) : (acts s history).1.phase = .jammed := by
  induction history generalizing s with
  | nil => exact h
  | cons a history ih =>
    obtain ⟨ha, hrest⟩ := List.forall_mem_cons.mp hno
    refine ih ?_ hrest
    cases a with
    | event e =>
      cases e with
      | tick =>
        have htick := tick_jammed h s.2
        rw [show act s (.event .tick) = s.1.tick s.2 from rfl, htick, standing_phase]
      | request interrupt => cases interrupt <;> exact h
      | elsewhere bus => exact h
    | reset => cases ha
    | warmReset => cases ha
    | edit regs => exact h

/-! ## 4. All histories -/

/-- The sum that an addition forms. -/
def Registers.sum (r : Registers) (v : UInt8) : Nat :=
  r.a.toNat + v.toNat + (bitOf (r.has Flag.carry)).toNat

theorem Registers.sum_lt (r : Registers) (v : UInt8) : r.sum v < 65536 := by
  have hcarry : (bitOf (r.has Flag.carry)).toNat ≤ 1 := by cases r.has Flag.carry <;> decide
  have ha := r.a.toNat_lt
  have hv := v.toNat_lt
  simp only [Registers.sum]
  omega

/-- **What a tick and a step do, after whatever history.**  The bus answers as it likes, and may be
replaced between any two actions.

* The machine that counts its cycles has not failed, and stands for the processor.  The one sum that
  an operation forms stays within sixteen bits.
* A tick makes one access on the bus.
* A step is at least one and at most eight ticks.  They are those up to the first behind which the
  processor is at a boundary or jammed.
* From where the processor is jammed, whatever is done to it but a reset, it stays so.  A tick reads
  at `$FFFF`, and changes nothing but the clock. -/
theorem one_access_and_never_stuck (bus : β) (history : List (Action β)) :
    let s := acts (({} : Cpu), bus) history
    (∃ m, Counting.acts (({} : Counting), bus) history = some (m, s.2) ∧ m.toCpu = s.1) ∧
      (∀ v, s.1.regs.sum v < 65536) ∧
      (∀ log, ∃ access, s.1.tick (⟨s.2, log⟩ : Recorded β) =
        ((s.1.tick s.2).1, ⟨(s.1.tick s.2).2, log.push access⟩)) ∧
      (∃ n, 1 ≤ n ∧ n ≤ 8 ∧ s.1.step s.2 = (n, run s (ticks n)) ∧
        (run s (ticks n)).1.isSettled = true ∧
        ∀ k, 1 ≤ k → k < n → (run s (ticks k)).1.isSettled = false) ∧
      (s.1.phase = .jammed → ∀ later, (∀ a ∈ later, a.isReset = false) →
        let t := acts s later
        t.1.phase = .jammed ∧
          (t.1.tick t.2).1 = t.1.standing .jammed (t.1.cycles + 1) ∧
          ∀ log, (t.1.tick (⟨t.2, log⟩ : Recorded β)).2.log =
            log.push (.read 0xFFFF (AddressBus.read 0xFFFF t.2).1)) := by
  intro s
  have hstart : Counting.Follows (({} : Counting), bus) (({} : Cpu), bus) :=
    ⟨rfl, rfl, Counting.sound_of_idle (.inl rfl)⟩
  refine ⟨?_, s.1.regs.sum_lt, fun log => ⟨_, tick_recorded s.1 s.2 log⟩, ?_,
    fun hjammed later hno => ?_⟩
  · obtain ⟨⟨m, bus'⟩, hacts, hcpu, hbus, -⟩ := Counting.follows_acts hstart history
    dsimp only at hcpu hbus
    exact ⟨m, by rw [hacts, hbus], hcpu⟩
  · obtain ⟨n, hn, hsettles, hstep⟩ := step_settles s.1 s.2
    have hplaced : s.1.phase.Placed :=
      placed_acts (show (({} : Cpu), bus).1.phase.Placed from trivial) history
    have hle := pending_le (placed_tick hplaced s.2)
    refine ⟨n + 1, Nat.le_add_left 1 n, by omega, hstep, hsettles.settled, ?_⟩
    intro k hk hkn
    obtain ⟨k, rfl⟩ := Nat.exists_eq_add_of_le' hk
    exact hsettles.before k (by omega)
  · intro t
    have ht : t.1.phase = .jammed := jammed_acts hjammed hno
    have hcycle : t.1.nextCycle = .read jammedAddress := by simp only [nextCycle, ht]
    refine ⟨ht, tick_jammed ht t.2, fun log => ?_⟩
    rw [tick_recorded, hcycle]
    rfl

end Famicom.Cpu
