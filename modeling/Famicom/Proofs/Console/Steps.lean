/-
# One instruction in the console

`stepInstruction` lets a console run until the processor has ended an instruction and no transfer is
under way.  Two things can be unfinished, and each may hold up the other: an instruction starts
transfers, and while one runs the processor stands still, in the middle of an instruction if need
be.

Yet it always ends, since **every cycle takes something away** (`settlingTime_tick`): a cycle of the
processor a micro-op, which may start one transfer, and any other cycle a cycle of the transfer.
And it is known how long it takes, since **no cycle is lost** (`spent_add_remaining`): so far the
cycles were the processor's own and those of the transfers that it has started, but for what is
still to come of the last.

`stepInstruction_accounted` puts this together: from a boundary a console makes the cycles of one
instruction, or of one interrupt, and 513 or 514 for every time that it writes to the register of
transfers.  An instruction that writes there twice is held up twice, the first time in its middle.
How long it takes by itself is what the table of instructions says, with the delay that the bytes
bring about that it saw.
-/
import Famicom.Proofs.Console.Operations
import Famicom.Proofs.Cpu.Replay
import Mathlib.Data.List.Perm.Subperm

namespace Famicom

open SpriteDma

/-! ## 1. Cycles on the mainboard -/

/-- A cycle names the page of a transfer. -/
def BusCycle.namesPage : BusCycle → Bool
  | read _ => false
  | write a _ => a == 0x4014

theorem BusCycle.eq_of_namesPage {c : BusCycle} (h : c.namesPage = true) :
    ∃ page, c = .write 0x4014 page := by
  cases c with
  | read a => cases h
  | write a v => exact ⟨v, by rw [beq_iff_eq.mp h]⟩

namespace Mainboard

theorem device_eq_dma_iff (a : UInt16) : device a = .dma ↔ a = 0x4014 := by
  constructor
  · intro h
    unfold device at h
    split_ifs at h with _ _ _ _ h4
    exact beq_iff_eq.mp h4
  · rintro rfl
    decide

theorem dma_write (m : Mainboard) (page : UInt8) :
    ((BusCycle.write 0x4014 page).after m).dma = start page m.cycle := rfl

/-- Nothing else starts a transfer. -/
theorem dma_access (m : Mainboard) {c : BusCycle} (h : c.namesPage = false) :
    (c.after m).dma = m.dma := by
  cases c with
  | read a => exact read_dma m a
  | write a v =>
    change (m.write a v).dma = m.dma
    have hd : device a ≠ .dma := by
      rw [Ne, device_eq_dma_iff]
      simpa [BusCycle.namesPage] using h
    cases m
    cases hdev : device a <;> first | exact absurd hdev hd | simp only [write, hdev]

theorem cycle_access (m : Mainboard) (c : BusCycle) : (c.after m).cycle = m.cycle := by
  cases c with
  | read a =>
    change (m.read a).2.cycle = m.cycle
    cases hdev : device a <;> simp only [read, hdev]
  | write a v =>
    change (m.write a v).cycle = m.cycle
    cases m
    cases hdev : device a <;> simp only [write, hdev]

theorem cycle_stepDma (m : Mainboard) : m.stepDma.2.cycle = m.cycle := by
  cases h : m.dma.next with
  | idle => simp only [stepDma, h]
  | align => simp only [stepDma, h]
  | read a =>
    rw [stepDma_read h]
    exact cycle_access m (.read a)
  | write v => simp only [stepDma, h]

end Mainboard

theorem Cpu.cycles_tick {β : Type} [ProcessorBus β] (cpu : Cpu) (bus : β) :
    (cpu.tick bus).1.cycles = cpu.cycles + 1 := by
  cases hphase : cpu.phase with
  | boundary =>
    cases hi : cpu.interruptToTake bus with
    | none => rw [Cpu.tick_fetch hphase hi]; rfl
    | some interrupt => rw [Cpu.tick_alerted hphase hi]; rfl
  | executing op rest => rw [Cpu.tick_inInstruction hphase]; rfl
  | entering op rest => rw [Cpu.tick_inEntry hphase]; rfl
  | jammed => rw [Cpu.tick_jammed hphase]; rfl

/-- Only the cycle that fetches an opcode jams the processor. -/
theorem Cpu.not_jammed_tick {β : Type} [ProcessorBus β] {cpu : Cpu} (h : cpu.isSettled = false)
    (bus : β) : (cpu.tick bus).1.isJammed = false := by
  cases hphase : cpu.phase with
  | boundary => simp [isSettled, atBoundary, hphase] at h
  | jammed => simp [isSettled, isJammed, hphase] at h
  | executing op rest =>
    rw [tick_inInstruction hphase, isJammed, standing_phase]
    cases rest <;> cases op.finishes cpu <;> rfl
  | entering op rest =>
    rw [tick_inEntry hphase, isJammed, standing_phase]
    cases rest <;> rfl

/-- Of two processors in step both write to the register of transfers next, or neither does. -/
theorem Cpu.InStep.namesPage {a b : Cpu} (h : InStep a b) :
    a.nextCycle.namesPage = b.nextCycle.namesPage := by
  obtain hsame | ⟨x, y, hx, hy⟩ := h.sameCycle
  · rw [hsame]
  · rw [hx, hy]
    rfl

namespace Console

open Cpu (InStep Course bytesOf delay)

variable {σ : Type} [FrameListener σ]

/-! ## 2. Whose cycle it is -/

/-- The processor has the next cycle. -/
def isOwn (c : Console σ) : Bool := !c.board.dma.active

/-- In the next cycle the processor writes to the register of transfers. -/
def namesPage (c : Console σ) : Bool := c.isOwn && c.cpu.nextCycle.namesPage

/-- How long a transfer keeps the processor waiting that was named in some cycle. -/
def stall (cycle : Nat) : Nat := if cycle % 2 = 0 then 513 else 514

theorem remaining_start_eq (page : UInt8) (cycle : Nat) :
    (start page cycle).remaining = stall cycle := by
  rw [remaining_start, stall]
  split <;> omega

/-- Where a transfer has ended, the number of the cycle is even: if the processor writes to the
register again at once, as an instruction does that modifies it, the second transfer is short. -/
theorem stall_again (cycle : Nat) : stall (cycle + stall cycle + 1) = 513 := by
  unfold stall
  split <;> rw [if_pos (by omega)]

theorem stall_le (cycle : Nat) : stall cycle ≤ longestTransfer := by
  unfold stall longestTransfer
  split <;> omega

theorem remaining_of_idle {d : SpriteDma} (h : d.active = false) : d.remaining = 0 := by
  simp only [remaining, h, Bool.false_eq_true, if_false]

/-- **A cycle that the processor does not have is one of a transfer**, and nothing happens to the
processor but that a request may reach it. -/
theorem tick_of_not_own {c : Console σ} (h : c.isOwn = false) (hb : c.board.dma.Bounded) :
    c.tick.2.board.dma.Bounded ∧
      c.tick.2.board.dma.remaining + 1 = c.board.dma.remaining ∧
      InStep c.cpu c.tick.2.cpu ∧ c.tick.2.cpu.cycles = c.cpu.cycles := by
  have ha : c.board.dma.active = true := by simpa [isOwn] using h
  have ha' : c.board.beginCycle.dma.active = true := ha
  obtain ⟨v, hv⟩ := c.board.beginCycle.stepDma_dma
  obtain ⟨nmi, hcpu, -⟩ := c.tick_cpu
  obtain ⟨hbounded, hremaining⟩ := remaining_advance hb ha v
  rw [processorCycle_of_active ha'] at hcpu
  rw [tick_dma_of_active ha, hv, hcpu]
  exact ⟨hbounded, hremaining, .request c.cpu nmi, rfl⟩

/-- **A cycle that it has is a tick of the processor**, and may start a transfer. -/
theorem tick_of_own {c : Console σ} (h : c.isOwn = true) :
    c.tick.2.board.dma.Bounded ∧
      c.tick.2.board.dma.remaining = (if c.namesPage then stall (c.board.cycle + 1) else 0) ∧
      InStep (c.cpu.tick c.board.beginCycle).1 c.tick.2.cpu ∧
      c.tick.2.cpu.cycles = c.cpu.cycles + 1 := by
  have ha : c.board.dma.active = false := by simpa [isOwn] using h
  have ha' : c.board.beginCycle.dma.active = false := ha
  obtain ⟨nmi, hcpu, -⟩ := c.tick_cpu
  rw [processorCycle_of_idle ha'] at hcpu
  have hdma : c.tick.2.board.dma = (c.cpu.nextCycle.after c.board.beginCycle).dma := by
    rw [tick_dma, processorCycle_of_idle ha', Cpu.tick_snd]
  have hcycles := Cpu.cycles_tick c.cpu c.board.beginCycle
  rw [hdma, hcpu, namesPage, h, Bool.true_and]
  refine ⟨?_, ?_, .request _ nmi, hcycles⟩
  · cases hnames : c.cpu.nextCycle.namesPage with
    | false =>
      rw [Mainboard.dma_access _ hnames]
      intro hactive
      rw [ha'] at hactive
      cases hactive
    | true =>
      obtain ⟨page, hwrite⟩ := BusCycle.eq_of_namesPage hnames
      rw [hwrite, Mainboard.dma_write]
      exact bounded_start page _
  · cases hnames : c.cpu.nextCycle.namesPage with
    | false =>
      rw [Mainboard.dma_access _ hnames, remaining_of_idle ha', if_neg Bool.false_ne_true]
    | true =>
      obtain ⟨page, hwrite⟩ := BusCycle.eq_of_namesPage hnames
      rw [hwrite, Mainboard.dma_write, remaining_start_eq, if_pos rfl]
      rfl

theorem tick_cycle (c : Console σ) : c.tick.2.board.cycle = c.board.cycle + 1 := by
  rw [tick_board, processorCycle_snd]
  change (c.board.beginCycle.after _).cycle = c.board.beginCycle.cycle
  split
  · exact Mainboard.cycle_stepDma _
  · exact Mainboard.cycle_access _ _

theorem after_cycle (c : Console σ) (n : Nat) : (c.after n).board.cycle = c.board.cycle + n := by
  induction n with
  | zero => rfl
  | succ n ih => rw [after_succ, tick_cycle, ih, Nat.add_assoc]

/-- Among the next cycles, those that the processor has. -/
def ownCycles (c : Console σ) (n : Nat) : List Nat :=
  (List.range n).filter fun k => (c.after k).isOwn

/-- Among the next cycles, those in which it writes to the register of transfers. -/
def pageCycles (c : Console σ) (n : Nat) : List Nat :=
  (List.range n).filter fun k => (c.after k).namesPage

omit [FrameListener σ] in
theorem isOwn_of_namesPage {c : Console σ} (h : c.namesPage = true) : c.isOwn = true :=
  (Bool.and_eq_true _ _ ▸ h : _ ∧ _).1

omit [FrameListener σ] in
/-- A processor that has settled reads next. -/
theorem not_settled_of_namesPage {c : Console σ} (h : c.namesPage = true) :
    c.cpu.isSettled = false := by
  have hnames : c.cpu.nextCycle.namesPage = true := (Bool.and_eq_true _ _ ▸ h : _ ∧ _).2
  rw [Cpu.nextCycle] at hnames
  cases hphase : c.cpu.phase with
  | executing op rest => rw [Cpu.isSettled, Cpu.atBoundary, Cpu.isJammed, hphase]; rfl
  | entering op rest => rw [Cpu.isSettled, Cpu.atBoundary, Cpu.isJammed, hphase]; rfl
  | _ =>
    rw [hphase] at hnames
    cases hnames

theorem pageCycles_eq_filter (c : Console σ) (n : Nat) :
    c.pageCycles n = (c.ownCycles n).filter fun k => (c.after k).namesPage := by
  rw [ownCycles, List.filter_filter, pageCycles]
  refine List.filter_congr fun k _ => ?_
  rw [namesPage]
  cases (c.after k).isOwn
  · rfl
  · exact (Bool.and_true _).symm

/-- Its cycles are these, if it has so many and has these. -/
theorem ownCycles_eq {c : Console σ} {n : Nat} {ks : List Nat} (hks : ks.Pairwise (· < ·))
    (hown : ∀ k ∈ ks, k < n ∧ (c.after k).isOwn = true)
    (hlength : (c.ownCycles n).length ≤ ks.length) : c.ownCycles n = ks := by
  have hsub : ks ⊆ c.ownCycles n := fun k hk =>
    List.mem_filter.mpr ⟨List.mem_range.mpr (hown k hk).1, (hown k hk).2⟩
  have hnodup : ks.Nodup := hks.imp fun h => h.ne
  have hperm := (List.subperm_of_subset hnodup hsub).perm_of_length_le hlength
  exact (hperm.eq_of_pairwise (fun _ _ _ _ h h' => absurd h (Nat.lt_asymm h')) hks
    (List.pairwise_lt_range.filter _)).symm

/-- How long the transfers keep it waiting that it starts in the next cycles, one by one. -/
def stalls (c : Console σ) (n : Nat) : List Nat :=
  (c.pageCycles n).map fun k => stall (c.board.cycle + k + 1)

theorem ownCycles_succ (c : Console σ) (n : Nat) :
    c.ownCycles (n + 1) = c.ownCycles n ++ if (c.after n).isOwn then [n] else [] := by
  rw [ownCycles, List.range_succ, List.filter_append, List.filter_singleton, ownCycles]
  cases (c.after n).isOwn <;> rfl

theorem stalls_succ (c : Console σ) (n : Nat) :
    c.stalls (n + 1) =
      c.stalls n ++ if (c.after n).namesPage then [stall (c.board.cycle + n + 1)] else [] := by
  rw [stalls, pageCycles, List.range_succ, List.filter_append, List.filter_singleton,
    List.map_append, stalls, pageCycles]
  cases (c.after n).namesPage <;> rfl

/-! ## 3. No cycle is lost -/

/-- **What was spent so far, with what is to come of a transfer, is the processor's own and what its
transfers ask for.** -/
theorem spent_add_remaining {c : Console σ} (hb : c.board.dma.Bounded) (n : Nat) :
    (c.after n).board.dma.Bounded ∧
      n + (c.after n).board.dma.remaining =
        (c.ownCycles n).length + (c.stalls n).sum + c.board.dma.remaining := by
  induction n with
  | zero => exact ⟨hb, by simp [ownCycles, stalls, pageCycles]; rfl⟩
  | succ n ih =>
    obtain ⟨hbn, hspent⟩ := ih
    rw [after_succ, ownCycles_succ, stalls_succ]
    cases hown : (c.after n).isOwn with
    | false =>
      obtain ⟨hbounded, hremaining, -⟩ := tick_of_not_own hown hbn
      have hnames : (c.after n).namesPage = false := by rw [namesPage, hown, Bool.false_and]
      refine ⟨hbounded, ?_⟩
      simp only [hnames, Bool.false_eq_true, if_false, List.append_nil]
      omega
    | true =>
      obtain ⟨hbounded, hremaining, -⟩ := tick_of_own hown
      have hidle : (c.after n).board.dma.remaining = 0 :=
        remaining_of_idle (by simpa [isOwn] using hown)
      refine ⟨hbounded, ?_⟩
      rw [hremaining, after_cycle]
      cases hnames : (c.after n).namesPage <;>
        simp only [Bool.false_eq_true, if_true, if_false, List.append_nil, List.length_append,
          List.length_singleton, List.sum_append, List.sum_singleton] <;>
        omega

/-- The processor's clock counts its own cycles. -/
theorem clock_after {c : Console σ} (hb : c.board.dma.Bounded) (n : Nat) :
    (c.after n).cpu.cycles = c.cpu.cycles + (c.ownCycles n).length := by
  induction n with
  | zero => rfl
  | succ n ih =>
    rw [after_succ, ownCycles_succ]
    cases hown : (c.after n).isOwn with
    | false =>
      obtain ⟨-, -, -, hcycles⟩ := tick_of_not_own hown (spent_add_remaining hb n).1
      rw [hcycles, ih, if_neg Bool.false_ne_true, List.append_nil]
    | true =>
      obtain ⟨-, -, -, hcycles⟩ := tick_of_own hown
      rw [hcycles, ih, if_pos rfl, List.length_append]
      rfl

/-! ## 4. It ends -/

omit [FrameListener σ] in
theorem cpu_not_settled {c : Console σ} (hown : c.isOwn = true) (h : c.isSettled = false) :
    c.cpu.isSettled = false := by
  have hidle : c.board.dma.active = false := by simpa [isOwn] using hown
  simpa [isSettled, Cpu.isSettled, hidle] using h

omit [FrameListener σ] in
theorem cpu_settled {c : Console σ} (h : c.isSettled = true) : c.cpu.isSettled = true := by
  rw [isSettled, Bool.or_eq_true, Bool.and_eq_true] at h
  rw [Cpu.isSettled, Bool.or_eq_true]
  exact h.imp_left And.left

/-- **Every cycle before the console has settled takes something away** of the time that it needs
for that at the most. -/
theorem settlingTime_tick {c : Console σ} (hb : c.board.dma.Bounded) (h : c.isSettled = false) :
    c.tick.2.settlingTime < c.settlingTime := by
  unfold settlingTime
  cases hown : c.isOwn with
  | false =>
    obtain ⟨-, hremaining, hstep, -⟩ := tick_of_not_own hown hb
    rw [← hstep.phase]
    omega
  | true =>
    obtain ⟨-, hremaining, hstep, -⟩ := tick_of_own hown
    have hlt := Cpu.pending_tick (cpu_not_settled hown h) c.board.beginCycle
    have hle : c.tick.2.board.dma.remaining ≤ longestTransfer := by
      rw [hremaining]
      split
      · exact stall_le _
      · exact Nat.zero_le _
    rw [← hstep.phase]
    have hmul := Nat.mul_le_mul_right (1 + longestTransfer) hlt
    rw [Nat.succ_mul] at hmul
    omega

/-- **Given that time, a console runs until it has settled**, and no longer. -/
theorem settleWithin_settles {fuel : Nat} (spent : Nat) {c : Console σ}
    (hb : c.board.dma.Bounded) (hfuel : c.settlingTime ≤ fuel) :
    ∃ n, settleWithin fuel spent c = (spent + n, c.after n) ∧ (c.after n).isSettled = true ∧
      ∀ k < n, (c.after k).isSettled = false := by
  induction fuel generalizing spent c with
  | zero =>
    have hs : c.isSettled = true := by
      by_contra hs
      have hlt := settlingTime_tick hb (Bool.not_eq_true _ ▸ hs)
      omega
    exact ⟨0, rfl, hs, fun k hk => absurd hk (Nat.not_lt_zero k)⟩
  | succ fuel ih =>
    cases hs : c.isSettled with
    | true =>
      refine ⟨0, ?_, hs, fun k hk => absurd hk (Nat.not_lt_zero k)⟩
      rw [settleWithin, if_pos hs]
      rfl
    | false =>
      have hlt := settlingTime_tick hb hs
      obtain ⟨n, hrun, hsettled, hbefore⟩ :=
        ih (spent + 1) (spent_add_remaining hb 1).1 (show c.tick.2.settlingTime ≤ fuel by omega)
      refine ⟨n + 1, ?_, hsettled, fun k hk => ?_⟩
      · rw [settleWithin, if_neg (Bool.eq_false_iff.mp hs), ← Nat.add_assoc, Nat.add_right_comm]
        exact hrun
      · cases k with
        | zero => exact hs
        | succ k => exact hbefore k (by omega)

/-! ## 5. One instruction -/

/-- What the processor goes through in the next cycles. -/
def course (c : Console σ) (n : Nat) : List (Cpu × Mainboard) :=
  (c.ownCycles n).map fun k => ((c.after k).cpu, (c.after k).board.beginCycle)

theorem course_after {c : Console σ} (hb : c.board.dma.Bounded) (n : Nat) :
    Course c.cpu (c.course n) (c.after n).cpu := by
  induction n with
  | zero => exact .done (.refl _)
  | succ n ih =>
    rw [after_succ, course, ownCycles_succ]
    cases hown : (c.after n).isOwn with
    | false =>
      obtain ⟨-, -, hstep, -⟩ := tick_of_not_own hown (spent_add_remaining hb n).1
      rw [if_neg Bool.false_ne_true, List.append_nil]
      exact ih.request hstep
    | true =>
      obtain ⟨-, -, hstep, -⟩ := tick_of_own hown
      rw [if_pos rfl, List.map_append]
      exact (ih.snoc _).request hstep

theorem bounded_of_idle {d : SpriteDma} (h : d.active = false) : d.Bounded := by
  intro ha
  rw [h] at ha
  cases ha

/-- The transfer that is named in a cycle has all of the cycles that follow, for as long as it
takes, and then no more. -/
theorem stalled_run {c : Console σ} (h : c.namesPage = true) {j : Nat}
    (hj : j ≤ stall (c.board.cycle + 1)) :
    (c.after (j + 1)).isOwn = false ↔ j < stall (c.board.cycle + 1) := by
  have hown : c.isOwn = true := isOwn_of_namesPage h
  obtain ⟨hbounded, hremaining, -⟩ := tick_of_own hown
  rw [if_pos h] at hremaining
  obtain ⟨hbj, hrj⟩ := remaining_run (fun c : Console σ => c.tick.2) (fun c => c.board.dma)
    (fun d ha => by
      obtain ⟨v, hv⟩ := d.board.beginCycle.stepDma_dma
      exact ⟨v, (tick_dma_of_active ha).trans hv⟩) hbounded j (by rw [hremaining]; exact hj)
  have hiff := active_iff_remaining hbj
  rw [hrj, hremaining] at hiff
  have hnot : (c.after (j + 1)).isOwn = false ↔ (c.after (j + 1)).board.dma.active = true := by
    simp [isOwn]
  exact hnot.trans (hiff.trans (by omega))

/-- While it has them, the processor stands still. -/
theorem inStep_stalled {c : Console σ} (h : c.namesPage = true) {j : Nat}
    (hj : j ≤ stall (c.board.cycle + 1)) : InStep c.tick.2.cpu (c.after (j + 1)).cpu := by
  have hown : c.isOwn = true := isOwn_of_namesPage h
  have hb : c.board.dma.Bounded := bounded_of_idle (by simpa [isOwn] using hown)
  induction j with
  | zero => exact .refl _
  | succ j ih =>
    have hstalled := (stalled_run h (Nat.le_of_succ_le hj)).mpr hj
    obtain ⟨-, -, hstep, -⟩ := tick_of_not_own hstalled (spent_add_remaining hb (j + 1)).1
    rw [after_succ]
    exact (ih (Nat.le_of_succ_le hj)).trans hstep

/-- **An instruction that names a page twice in a row** is held up in between, and the second time
for 513 cycles. -/
theorem namesPage_again {c : Console σ} (h : c.namesPage = true)
    (hnext : c.tick.2.cpu.nextCycle.namesPage = true) :
    let again := stall (c.board.cycle + 1) + 1
    (c.after again).namesPage = true ∧ stall (c.board.cycle + again + 1) = 513 := by
  intro again
  have hown : (c.after again).isOwn = true := by
    by_contra hwaits
    exact Nat.lt_irrefl _ ((stalled_run h le_rfl).mp (Bool.not_eq_true _ ▸ hwaits))
  refine ⟨?_, ?_⟩
  · rw [namesPage, hown, Bool.true_and, ← (inStep_stalled h le_rfl).namesPage]
    exact hnext
  · have hcycle : c.board.cycle + again + 1 =
        c.board.cycle + 1 + stall (c.board.cycle + 1) + 1 := by omega
    rw [hcycle, stall_again]

/-- The first of the next cycles is the processor's. -/
theorem ownCycles_of_own {c : Console σ} (h : c.isOwn = true) (m : Nat) :
    ∃ tail, c.ownCycles (m + 1) = 0 :: tail ∧
      ∀ k ∈ tail, 0 < k ∧ k < m + 1 ∧ (c.after k).isOwn = true := by
  refine ⟨((List.range m).map Nat.succ).filter fun k => (c.after k).isOwn, ?_, ?_⟩
  · rw [ownCycles, List.range_succ_eq_map]
    exact List.filter_cons_of_pos h
  · intro k hk
    obtain ⟨hk, hown⟩ := List.mem_filter.mp hk
    obtain ⟨j, hj, rfl⟩ := List.mem_map.mp hk
    exact ⟨Nat.succ_pos j, Nat.succ_lt_succ (List.mem_range.mp hj), hown⟩

/-- A processor that has just jammed has started nothing. -/
theorem idle_of_jammed {c : Console σ} (hb : c.board.dma.Bounded) (hs : c.cpu.isJammed = false)
    (hj : c.tick.2.cpu.isJammed = true) : c.tick.2.board.dma.active = false := by
  cases hown : c.isOwn with
  | false =>
    obtain ⟨-, -, hstep, -⟩ := tick_of_not_own hown hb
    rw [Cpu.isJammed, ← hstep.phase, ← Cpu.isJammed, hs] at hj
    cases hj
  | true =>
    obtain ⟨hbounded, hremaining, hstep, -⟩ := tick_of_own hown
    have hsettled : c.cpu.isSettled = true := by
      by_contra hinside
      have hnot := Cpu.not_jammed_tick (Bool.not_eq_true _ ▸ hinside) c.board.beginCycle
      rw [Cpu.isJammed, hstep.phase, ← Cpu.isJammed, hj] at hnot
      cases hnot
    have hnames : c.namesPage = false := by
      by_contra hnames
      rw [not_settled_of_namesPage (Bool.not_eq_false _ ▸ hnames)] at hsettled
      cases hsettled
    rw [hnames, if_neg Bool.false_ne_true] at hremaining
    refine Bool.eq_false_iff.mpr fun hactive => ?_
    have hpos := (active_iff_remaining hbounded).mp hactive
    omega

/-- The console runs from a boundary to where an instruction and all that it started have ended. -/
structure Accounted (c : Console σ) (n : Nat) : Prop where
  /-- The processor has settled, no transfer is under way, -/
  ended : (c.after n).cpu.isSettled = true ∧ (c.after n).board.dma.active = false
  /-- and so it is for the first time. -/
  first : ∀ k, 0 < k → k < n → (c.after k).isSettled = false
  /-- The processor begins at the boundary, and all its other cycles are within the instruction. -/
  inside : 0 ∈ c.ownCycles n ∧ ∀ k ∈ c.ownCycles n, 0 < k → (c.after k).cpu.isSettled = false
  /-- Its clock counts them. -/
  clock : (c.after n).cpu.cycles = c.cpu.cycles + (c.ownCycles n).length
  /-- An interrupt is seven of them, -/
  interrupt : ∀ interrupt, c.cpu.interruptToTake c.board.beginCycle = some interrupt →
    (c.ownCycles n).length = 7
  /-- an instruction as many as the table says and the bytes that it saw, -/
  instruction :
    let i := Cpu.Instruction.decode (c.board.beginCycle.read c.cpu.regs.pc).1
    c.cpu.interruptToTake c.board.beginCycle = none → i.operation ≠ .jam →
      (c.ownCycles n).length = i.cycles + delay i c.cpu.regs (bytesOf (c.course n))
  /-- and an opcode that jams the processor one. -/
  jam :
    let i := Cpu.Instruction.decode (c.board.beginCycle.read c.cpu.regs.pc).1
    c.cpu.interruptToTake c.board.beginCycle = none → i.operation = .jam →
      n = 1 ∧ (c.after n).cpu.isJammed = true
  /-- Each transfer that it starts has the cycles that follow, in the middle of the instruction or
  behind it, and is carried through. -/
  transfers : ∀ k ∈ c.pageCycles n,
    let cycles := stall (c.board.cycle + k + 1)
    k + cycles < n ∧ ∀ j ≤ cycles, (c.after (k + (j + 1))).isOwn = false ↔ j < cycles
  /-- There are no other cycles. -/
  count : n = (c.ownCycles n).length + (c.stalls n).sum

/-- A processor that jams at once does not go on. -/
theorem one_of_jammed {c : Console σ} (hb : c.board.dma.Bounded) {m : Nat}
    (hown : c.ownCycles (m + 1) = [0])
    (hfirst : ∀ k, 0 < k → k < m + 1 → (c.after k).isSettled = false)
    (hj : (c.after (m + 1)).cpu.isJammed = true) : m + 1 = 1 := by
  by_contra hm
  have hlast := hfirst m (by omega) (Nat.lt_succ_self m)
  cases hownm : (c.after m).isOwn with
  | true =>
    have hmem : m ∈ c.ownCycles (m + 1) :=
      List.mem_filter.mpr ⟨List.mem_range.mpr (Nat.lt_succ_self m), hownm⟩
    rw [hown, List.mem_singleton] at hmem
    omega
  | false =>
    obtain ⟨-, -, hstep, -⟩ := tick_of_not_own hownm (spent_add_remaining hb m).1
    rw [isSettled, Bool.or_eq_false_iff] at hlast
    rw [after_succ, Cpu.isJammed, ← hstep.phase, ← Cpu.isJammed, hlast.2] at hj
    cases hj

/-- A transfer that is named before the end is carried through before the end. -/
theorem transfer_within {c : Console σ} {k n : Nat} (hnames : (c.after k).namesPage = true)
    (hk : k < n) (hended : (c.after n).board.dma.active = false) :
    let cycles := stall (c.board.cycle + k + 1)
    k + cycles < n ∧ ∀ j ≤ cycles, (c.after (k + (j + 1))).isOwn = false ↔ j < cycles := by
  intro cycles
  have hrun : ∀ j ≤ cycles, (c.after (k + (j + 1))).isOwn = false ↔ j < cycles := by
    intro j hj
    rw [← after_add]
    have hcycle := after_cycle c k
    have hiff := stalled_run hnames (j := j) (by rw [hcycle]; exact hj)
    rwa [hcycle] at hiff
  refine ⟨?_, hrun⟩
  by_contra hlong
  obtain ⟨j, rfl⟩ := Nat.exists_eq_add_of_lt hk
  have hown := (hrun j (by omega)).mpr (by omega)
  rw [isOwn, ← Nat.add_assoc, hended] at hown
  cases hown

section Settled

variable {c : Console σ} (hphase : c.cpu.phase = .boundary) (hidle : c.board.dma.active = false)
  {m : Nat} (hsettled : (c.after (m + 1)).isSettled = true)
  (hfirst : ∀ k, 0 < k → k < m + 1 → (c.after k).isSettled = false)

include hphase hidle hsettled hfirst

/-- Where the console has settled for the first time, no transfer is under way: if the processor has
jammed, it was in the last cycle. -/
theorem idle_of_settled : (c.after (m + 1)).board.dma.active = false := by
  have hends := hsettled
  rw [isSettled, Bool.or_eq_true, Bool.and_eq_true, Bool.not_eq_true'] at hends
  rcases hends with ⟨-, hended⟩ | hjammed
  · exact hended
  · rw [after_succ] at hjammed ⊢
    refine idle_of_jammed (spent_add_remaining (bounded_of_idle hidle) m).1 ?_ hjammed
    cases m with
    | zero => rw [Cpu.isJammed, show (c.after 0).cpu.phase = .boundary from hphase]
    | succ m =>
      have hrunning := hfirst (m + 1) (Nat.succ_pos m) (Nat.lt_succ_self _)
      rw [isSettled, Bool.or_eq_false_iff] at hrunning
      exact hrunning.2

omit hphase hsettled in
/-- The processor has the first cycle, and the others that it has are within the instruction. -/
theorem ownCycles_of_settled :
    ∃ tail, c.ownCycles (m + 1) = 0 :: tail ∧
      ∀ k ∈ tail, 0 < k ∧ (c.after k).cpu.isSettled = false := by
  have hown : c.isOwn = true := by rw [isOwn, hidle, Bool.not_false]
  obtain ⟨tail, htail, hmem⟩ := ownCycles_of_own hown m
  refine ⟨tail, htail, fun k hk => ?_⟩
  obtain ⟨hpos, hlt, hownk⟩ := hmem k hk
  exact ⟨hpos, cpu_not_settled hownk (hfirst k hpos hlt)⟩

/-- **How many cycles the processor has**: seven in an interrupt, in an instruction as many as the
table says and the bytes that it saw, and one that jams it. -/
theorem length_ownCycles :
    let i := Cpu.Instruction.decode (c.board.beginCycle.read c.cpu.regs.pc).1
    (∀ interrupt, c.cpu.interruptToTake c.board.beginCycle = some interrupt →
      (c.ownCycles (m + 1)).length = 7) ∧
    (c.cpu.interruptToTake c.board.beginCycle = none → i.operation ≠ .jam →
      (c.ownCycles (m + 1)).length =
        i.cycles + delay i c.cpu.regs (bytesOf (c.course (m + 1)))) ∧
    (c.cpu.interruptToTake c.board.beginCycle = none → i.operation = .jam →
      m + 1 = 1 ∧ (c.after (m + 1)).cpu.isJammed = true) := by
  intro i
  have hb : c.board.dma.Bounded := bounded_of_idle hidle
  obtain ⟨tail, htail, hinside⟩ := ownCycles_of_settled hidle hfirst
  have hcourse := course_after hb (m + 1)
  rw [course, htail, List.map_cons] at hcourse
  obtain ⟨hentry, hinstruction, hjam⟩ : _ ∧ _ ∧ _ := by
    cases hcourse with
    | cycle h hrest =>
      refine Cpu.length_of_course hphase hrest ?_ (cpu_settled hsettled)
      intro s hs
      obtain ⟨k, hk, rfl⟩ := List.mem_map.mp hs
      exact (hinside k hk).2
  rw [List.length_map] at hentry hinstruction
  rw [course, htail, List.length_cons, List.map_cons]
  refine ⟨hentry, hinstruction, fun hi hj => ?_⟩
  obtain ⟨hnil, hjammed⟩ := hjam hi hj
  rw [List.map_eq_nil_iff.mp hnil] at htail
  exact ⟨one_of_jammed hb htail hfirst hjammed, hjammed⟩

theorem accounted_of_settled : Accounted c (m + 1) := by
  have hb : c.board.dma.Bounded := bounded_of_idle hidle
  have hended := idle_of_settled hphase hidle hsettled hfirst
  obtain ⟨tail, htail, hinside⟩ := ownCycles_of_settled hidle hfirst
  obtain ⟨hentry, hinstruction, hjam⟩ := length_ownCycles hphase hidle hsettled hfirst
  have hcount := (spent_add_remaining hb (m + 1)).2
  rw [remaining_of_idle hidle, remaining_of_idle hended] at hcount
  exact
    { ended := ⟨cpu_settled hsettled, hended⟩
      first := hfirst
      inside := by
        rw [htail]
        refine ⟨List.mem_cons_self, fun k hk hpos => ?_⟩
        exact (hinside k ((List.mem_cons.mp hk).resolve_left hpos.ne')).2
      clock := clock_after hb (m + 1)
      interrupt := hentry
      instruction := hinstruction
      jam := hjam
      transfers := fun k hk => by
        obtain ⟨hk, hnames⟩ := List.mem_filter.mp hk
        exact transfer_within hnames (List.mem_range.mp hk) hended
      count := hcount }

end Settled

/-- **One instruction, and every cycle of it.**  From a boundary with no transfer under way,
`stepInstruction` makes the cycles of one instruction, or of one interrupt, and 513 or 514 for every
time that it writes to the register of transfers. -/
theorem stepInstruction_accounted (c : Console σ) (hboundary : c.cpu.atBoundary = true)
    (hidle : c.board.dma.active = false) :
    ∃ n, c.stepInstruction = (n, c.after n) ∧ Accounted c n := by
  have hb : c.board.dma.Bounded := bounded_of_idle hidle
  obtain ⟨m, hrun, hsettled, hbefore⟩ :=
    settleWithin_settles 1 (spent_add_remaining hb 1).1 (le_refl c.tick.2.settlingTime)
  have hfirst : ∀ k, 0 < k → k < m + 1 → (c.after k).isSettled = false := by
    intro k hk hkm
    obtain ⟨k, rfl⟩ := Nat.exists_eq_add_of_le' hk
    exact hbefore k (by omega)
  refine ⟨m + 1, ?_, ?_⟩
  · exact hrun.trans (congrArg (·, c.after (m + 1)) (Nat.add_comm 1 m))
  · exact accounted_of_settled (Cpu.atBoundary_iff.mp hboundary) hidle hsettled hfirst

/-- `INC $4014` writes to the register of transfers twice in a row.  It has six cycles of its own and
starts two transfers: one of 514 cycles before the last of the six, and one of 513 behind it. -/
theorem stepInstruction_accounted_twice :
    let ram := ((({} : WorkRam).write 0 0xEE).write 1 0x14).write 2 0x40
    let c : Console Unit := { board := { ram }, listener := () }
    c.cpu.atBoundary = true ∧ c.board.dma.active = false ∧
      c.stepInstruction = (1033, c.after 1033) ∧ Accounted c 1033 ∧
        c.ownCycles 1033 = [0, 1, 2, 3, 4, 519] ∧ c.pageCycles 1033 = [4, 519] ∧
          c.stalls 1033 = [514, 513] := by
  intro ram c
  obtain ⟨n, hrun, h⟩ := stepInstruction_accounted c rfl rfl
  have hopcode : (c.board.beginCycle.read c.cpu.regs.pc).1 = 0xEE := by decide
  have hlength := h.instruction rfl (by rw [hopcode]; decide)
  rw [hopcode] at hlength
  obtain ⟨hfive, hnames, hnext⟩ : (∀ k < 5, (c.after k).isOwn = true) ∧
      (∀ k < 5, (c.after k).namesPage = decide (k = 4)) ∧
        (c.after 4).tick.2.cpu.nextCycle.namesPage = true := by
    decide +kernel
  have hfirst : (c.after 4).namesPage = true := hnames 4 (by decide)
  have hcycle : c.board.cycle = 0 := rfl
  have hstall : stall ((c.after 4).board.cycle + 1) = 514 := by
    rw [after_cycle, hcycle]
    decide
  have hagain : (c.after 519).namesPage = true := by
    have hagain := (namesPage_again hfirst hnext).1
    rwa [hstall, after_add] at hagain
  -- The first transfer is carried through before the end, and the last of the six comes behind it.
  have hn : 519 < n := by
    have hsix : 6 ≤ n := by
      have hle := List.length_filter_le (fun k => (c.after k).isOwn) (List.range n)
      rw [List.length_range] at hle
      exact hlength.symm.le.trans hle
    have hmem : 4 ∈ c.pageCycles n :=
      List.mem_filter.mpr ⟨List.mem_range.mpr (by omega), hfirst⟩
    have hlong : 518 < n := by
      obtain ⟨hlong, -⟩ := h.transfers 4 hmem
      rw [hcycle] at hlong
      exact hlong
    refine Nat.lt_of_le_of_ne hlong fun hn => ?_
    have hsettled := h.ended.1
    rw [← hn, not_settled_of_namesPage hagain] at hsettled
    cases hsettled
  have hown : c.ownCycles n = [0, 1, 2, 3, 4, 519] := by
    refine ownCycles_eq (by decide) (fun k hk => ?_) hlength.le
    obtain hlt | rfl : k < 5 ∨ k = 519 := by
      simp only [List.mem_cons, List.not_mem_nil, or_false] at hk
      omega
    · exact ⟨by omega, hfive k hlt⟩
    · exact ⟨hn, isOwn_of_namesPage hagain⟩
  have hpages : c.pageCycles n = [4, 519] := by
    rw [pageCycles_eq_filter, hown]
    simp [hnames, hagain]
  have hstalls : c.stalls n = [514, 513] := by
    rw [stalls, hpages, hcycle]
    decide
  have hcount := h.count
  rw [hown, hstalls] at hcount
  obtain rfl : n = 1033 := hcount
  exact ⟨rfl, rfl, hrun, h, hown, hpages, hstalls⟩

end Console
end Famicom
