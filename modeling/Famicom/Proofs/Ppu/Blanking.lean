/-
# When blanking calls for an interrupt

Blanking is reported from dot 1 of line 241 to dot 1 of the rehearsal line, unless a program reads
the report before.  The unit calls for an interrupt while blanking is reported and interrupts are
on.  It notes a request where blanking begins while interrupts are on, and where interrupts are
turned on while blanking is reported.  **Together the two note each rise of the call and nothing
else** (`raises_iff`).

Three bits of the unit matter here, and `Signals.after` says what becomes of them in an operation
(`after_signals`).  Nothing but the beam brings the report back, so where the call rises twice in
one blanking it has fallen in between because interrupts were turned off (`ReEnabled`).
-/
import Famicom.Proofs.Ppu.Beam
import Famicom.Proofs.Ppu.Fetches
import Famicom.Proofs.Ppu.Operations
import Mathlib.Data.List.Induction

namespace Famicom.Ppu

variable {μ : Type} [AddressBus μ]

/-! ## 1. Three bits of the unit -/

/-- What decides about requests. -/
structure Signals where
  /-- Interrupts are on. -/
  enabled : Bool := false
  /-- Blanking is reported. -/
  blanking : Bool := false
  /-- An interrupt is requested. -/
  requested : Bool := false

/-- The three bits of a unit. -/
def signals (p : Ppu) : Signals where
  enabled := p.control.interrupts
  blanking := p.status.vblank
  requested := p.nmiRequest

/-- What becomes of the three bits in an operation, where the beam stands as given. -/
def Signals.after (σ : Signals) (r : Raster) : Operation μ → Signals
  | .tick =>
    if r.blankingBegins then
      { σ with blanking := true, requested := σ.requested || σ.enabled }
    else if r.isPreRender && r.dot = 1 then { σ with blanking := false }
    else σ
  | .readRegister a => if a.toNat % 8 = 2 then { σ with blanking := false } else σ
  | .writeRegister a v =>
    if a.toNat % 8 = 0 then
      let enabled := Control.interrupts ⟨v⟩
      { σ with enabled, requested := σ.requested || (!σ.enabled && enabled && σ.blanking) }
    else σ
  | .takeNmiRequest => { σ with requested := false }
  | .reset => {}
  | _ => σ

theorem Raster.blankingBegins_iff (r : Raster) :
    r.blankingBegins = true ↔ r.line = 241 ∧ r.dot = 1 := by
  simp only [Raster.blankingBegins, Bool.and_eq_true, beq_iff_eq]
  rfl

theorem clearReports_signals (p : Ppu) :
    p.clearReports.signals =
      if p.raster.isPreRender && p.raster.dot = 1 then { p.signals with blanking := false }
      else p.signals := by
  unfold clearReports
  split <;> rfl

theorem beginBlanking_signals (p : Ppu) :
    p.beginBlanking.signals =
      if p.raster.blankingBegins then
        { p.signals with
          blanking := true
          requested := p.signals.requested || p.signals.enabled }
      else p.signals := by
  unfold beginBlanking
  split <;> rfl

theorem finished_signals (p : Ppu) :
    p.finished.signals =
      if p.raster.blankingBegins then
        { p.signals with
          blanking := true
          requested := p.signals.requested || p.signals.enabled }
      else p.signals := by
  change (beginBlanking (if p.raster.writes then p.pixelDot else p)).signals = _
  rw [beginBlanking_signals]
  split <;> rfl

theorem tick_signals (p : Ppu) (mem : μ) :
    (p.tick mem).1.signals = p.signals.after p.raster (.tick : Operation μ) := by
  obtain ⟨_, _, _, _, _, hc⟩ := composing_reach p mem
  have hraster : (p.composing mem).raster = p.raster := by rw [hc]
  -- A dot of the picture's lines reaches the bits only where the reports end.
  have hsignals : (p.composing mem).signals = p.clearReports.signals := by
    rw [hc, clearReports_eq p]
    rfl
  rw [tick_fst, finished_signals, hraster, hsignals, clearReports_signals, Signals.after]
  split
  · next h =>
    obtain ⟨hline, -⟩ := p.raster.blankingBegins_iff.mp h
    have hn : ¬(p.raster.isPreRender && p.raster.dot = 1) := by
      rw [Bool.and_eq_true, Raster.isPreRender_iff]
      omega
    rw [if_neg hn]
  · rfl

theorem readData_signals (p : Ppu) (mem : μ) : (p.readData mem).2.1.signals = p.signals := by
  unfold readData
  dsimp only
  split <;> rfl

theorem readRegister_signals (p : Ppu) (a : UInt16) (mem : μ) :
    (p.readRegister a mem).2.1.signals =
      p.signals.after p.raster (.readRegister a : Operation μ) := by
  unfold readRegister Signals.after
  dsimp only
  split
  · next h =>
    rw [if_pos h]
    rfl
  · next h =>
    rw [if_neg (by omega)]
    rfl
  · next h =>
    rw [if_neg (by omega), ← readData_signals p mem]
    rfl
  · next h _ _ => rw [if_neg h]

theorem writeScroll_signals (p : Ppu) (v : UInt8) : (p.writeScroll v).signals = p.signals := by
  unfold writeScroll
  split <;> rfl

theorem writeAddress_signals (p : Ppu) (v : UInt8) : (p.writeAddress v).signals = p.signals := by
  unfold writeAddress
  split <;> rfl

theorem writeData_signals (p : Ppu) (v : UInt8) (mem : μ) :
    (p.writeData v mem).1.signals = p.signals := by
  unfold writeData
  dsimp only
  split <;> rfl

theorem writeRegister_signals (p : Ppu) (a : UInt16) (v : UInt8) (mem : μ) :
    (p.writeRegister a v mem).1.signals =
      p.signals.after p.raster (.writeRegister a v : Operation μ) := by
  unfold writeRegister Signals.after
  dsimp only
  split
  case h_1 h =>
    rw [if_pos h]
    rfl
  case h_6 h =>
    rw [if_neg (by omega), writeScroll_signals]
    rfl
  case h_7 h =>
    rw [if_neg (by omega), writeAddress_signals]
    rfl
  case h_8 h _ _ _ _ _ _ =>
    rw [if_neg h, writeData_signals]
    rfl
  all_goals
    rw [if_neg (by omega)]
    rfl

/-- **What an operation does to the three bits.** -/
theorem after_signals (s : Ppu × μ) (op : Operation μ) :
    (after s op).1.signals = s.1.signals.after s.1.raster op := by
  obtain ⟨p, mem⟩ := s
  cases op with
  | tick => exact tick_signals p mem
  | readRegister a => exact readRegister_signals p a mem
  | writeRegister a v => exact writeRegister_signals p a v mem
  | takeFrameComplete =>
    change p.takeFrameComplete.2.signals = p.signals
    unfold takeFrameComplete
    split <;> rfl
  | takeNmiRequest =>
    change p.takeNmiRequest.2.signals = { p.signals with requested := false }
    unfold takeNmiRequest
    cases h : p.nmiRequest
    · change p.signals = { p.signals with requested := false }
      rw [← h]
      rfl
    · rfl
  | reset =>
    have hoff : Control.interrupts {} = false := by decide
    exact congrArg (Signals.mk · false false) hoff
  | _ => rfl

/-! ## 2. Where blanking is reported -/

/-- The beam is behind the dot where blanking begins, and not behind the one where its report
ends. -/
def Raster.Blanks (r : Raster) : Prop :=
  r.line = 241 ∧ 2 ≤ r.dot ∨ 241 < r.line ∧ r.line < 261 ∨ r.line = 261 ∧ r.dot ≤ 1

/-- Blanking is reported only while the beam blanks. -/
def InBlanking (s : Ppu × μ) : Prop := s.1.status.vblank = true → s.1.raster.Blanks

namespace Raster

/-- The next dot is in blanking too, unless the report ends here. -/
theorem Blanks.next {r : Raster} (h : r.Blanks) (hend : ¬(r.line = 261 ∧ r.dot = 1))
    (rendering : Bool) : (r.next rendering).Blanks := by
  have hlast : 2 ≤ if r.isPreRender && r.odd && rendering then 339 else 340 := by
    split <;> omega
  unfold Raster.next Blanks linesPerFrame at *
  dsimp only
  split_ifs <;> dsimp only <;> omega

theorem blanks_next_of_blankingBegins {r : Raster} (h : r.blankingBegins) (rendering : Bool) :
    (r.next rendering).Blanks := by
  obtain ⟨hline, hdot⟩ := r.blankingBegins_iff.mp h
  rw [r.next_within rendering (by omega)]
  exact .inl ⟨hline, Nat.succ_le_succ hdot.ge⟩

end Raster

/-- The clock moves the beam, and a reset puts it before the first line. -/
theorem after_raster (s : Ppu × μ) (op : Operation μ) :
    (after s op).1.raster =
      match op with
      | .tick => s.1.raster.next s.1.mask.rendering
      | .reset => { frames := s.1.raster.frames }
      | _ => s.1.raster := by
  obtain ⟨p, mem⟩ := s
  cases op with
  | tick => exact tick_raster p mem
  | readRegister a => exact readRegister_raster p a mem
  | writeRegister a v => exact writeRegister_raster p a v mem
  | takeFrameComplete =>
    change p.takeFrameComplete.2.raster = p.raster
    unfold takeFrameComplete
    split <;> rfl
  | takeNmiRequest =>
    change p.takeNmiRequest.2.raster = p.raster
    unfold takeNmiRequest
    split <;> rfl
  | _ => rfl

/-- In this operation blanking begins. -/
def Begins (s : Ppu × μ) : Operation μ → Prop
  | .tick => s.1.raster.blankingBegins = true
  | _ => False

/-- In this operation every report ends. -/
def Ends (s : Ppu × μ) : Operation μ → Prop
  | .tick => s.1.raster.line = 261 ∧ s.1.raster.dot = 1
  | .reset => True
  | _ => False

/-- Nothing but the beam brings the report back. -/
theorem vblank_of_after {s : Ppu × μ} {op : Operation μ}
    (h : (after s op).1.status.vblank = true) :
    Begins s op ∨ s.1.status.vblank = true ∧ ¬Ends s op := by
  change (after s op).1.signals.blanking = true at h
  rw [after_signals] at h
  cases op with
  | tick =>
    simp only [Signals.after, Bool.and_eq_true, Raster.isPreRender_iff, decide_eq_true_eq] at h
    split_ifs at h with hbegins hends
    · exact .inl hbegins
    · exact .inr ⟨h, hends⟩
  | readRegister a =>
    simp only [Signals.after] at h
    split_ifs at h
    exact .inr ⟨h, nofun⟩
  | writeRegister a v =>
    simp only [Signals.after] at h
    split_ifs at h <;> exact .inr ⟨h, nofun⟩
  | reset => cases h
  | _ => exact .inr ⟨h, nofun⟩

/-- **Blanking is reported only while the beam blanks.** -/
theorem InBlanking.after {s : Ppu × μ} (h : InBlanking s) (op : Operation μ) :
    InBlanking (after s op) := by
  intro hv
  rw [after_raster]
  obtain hbegins | ⟨hset, hends⟩ := vblank_of_after hv
  · cases op with
    | tick => exact Raster.blanks_next_of_blankingBegins hbegins _
    | _ => exact hbegins.elim
  · cases op with
    | tick => exact (h hset).next hends _
    | reset => exact absurd trivial hends
    | _ => exact h hset

/-! ## 3. Requests -/

/-- The unit calls for an interrupt. -/
def calls (p : Ppu) : Bool := p.status.vblank && p.control.interrupts

/-- An operation raises a request, whether or not an earlier one has been taken. -/
def raises (s : Ppu × μ) (op : Operation μ) : Bool :=
  (after ({ s.1 with nmiRequest := false }, s.2) op).1.nmiRequest

/-- An operation takes a request away. -/
def withdraws : Operation μ → Bool
  | .takeNmiRequest | .reset => true
  | _ => false

theorem raises_eq (s : Ppu × μ) (op : Operation μ) :
    raises s op =
      (({ s.1.signals with requested := false } : Signals).after s.1.raster op).requested :=
  congrArg Signals.requested (after_signals ({ s.1 with nmiRequest := false }, s.2) op)

/-- A request stays until it is taken or the unit is reset. -/
theorem nmiRequest_after (s : Ppu × μ) (op : Operation μ) :
    (after s op).1.nmiRequest = (raises s op || s.1.nmiRequest && !withdraws op) := by
  have hafter : (after s op).1.nmiRequest = (s.1.signals.after s.1.raster op).requested :=
    congrArg Signals.requested (after_signals s op)
  have hbefore : s.1.nmiRequest = s.1.signals.requested := rfl
  rw [hafter, hbefore, raises_eq]
  generalize s.1.signals = σ
  cases op with
  | tick =>
    simp only [Signals.after]
    split_ifs <;> simp [withdraws, Bool.or_comm]
  | readRegister a =>
    simp only [Signals.after]
    split <;> simp [withdraws]
  | writeRegister a v =>
    simp only [Signals.after]
    split <;> simp [withdraws, Bool.or_comm]
  | _ => simp [Signals.after, withdraws]

/-- **A request is raised exactly as the call rises.** -/
theorem raises_iff {s : Ppu × μ} (h : InBlanking s) (op : Operation μ) :
    raises s op = true ↔ s.1.calls = false ∧ (after s op).1.calls = true := by
  have hafter : (after s op).1.calls =
      ((s.1.signals.after s.1.raster op).blanking &&
        (s.1.signals.after s.1.raster op).enabled) := by
    rw [← after_signals]
    rfl
  have hbefore : s.1.calls = (s.1.signals.blanking && s.1.signals.enabled) := rfl
  rw [raises_eq, hafter, hbefore]
  generalize hσ : s.1.signals = σ at *
  cases op with
  | tick =>
    simp only [Signals.after]
    split_ifs with hbegins hends
    · have hoff : σ.blanking = false := by
        obtain ⟨hline, hdot⟩ := s.1.raster.blankingBegins_iff.mp hbegins
        rw [← hσ, ← Bool.not_eq_true]
        intro hv
        have := h hv
        unfold Raster.Blanks at this
        omega
      simp [hoff]
    · simp
    · simp
  | readRegister a =>
    simp only [Signals.after]
    split <;> simp
  | writeRegister a v =>
    simp only [Signals.after]
    split
    · cases σ.enabled <;> cases σ.blanking <;> simp
    · simp
  | _ => simp [Signals.after]

/-- In blanking each turning on of interrupts raises a request, and turning them on when they are on
does not. -/
example :
    let s : Ppu × Answers := ({ status := { vblank := true } }, ⟨fun _ => 0⟩)
    let control v : Operation Answers := .writeRegister 0x2000 v
    [[], [control 0x80], [control 0x80, control 0x00]].map
      (fun past => raises (run s past) (control 0x80)) = [true, false, true] := by decide

/-! ## 4. Twice in one blanking -/

/-- In no operation of a history does blanking begin. -/
def Quiet (s : Ppu × μ) (history : List (Operation μ)) : Prop :=
  ∀ before op later, history = before ++ op :: later → ¬Begins (run s before) op

/-- While blanking begins in none of the operations and its report is there in the end, it has been
there all the time. -/
theorem vblank_of_run {s : Ppu × μ} {first second : List (Operation μ)}
    (hquiet : Quiet s (first ++ second)) (h : (run s (first ++ second)).1.status.vblank = true) :
    (run s first).1.status.vblank = true := by
  induction second using List.reverseRecOn with
  | nil => rwa [List.append_nil] at h
  | append_singleton second op ih =>
    rw [← List.append_assoc] at h hquiet
    rw [run_concat] at h
    obtain hbegins | ⟨hset, -⟩ := vblank_of_after h
    · exact absurd hbegins (hquiet _ op [] rfl)
    · exact ih (fun before op' later he => hquiet before op' (later ++ [op]) (by simp [he])) hset

/-- In a history and an operation after it interrupts are turned off and on again, and all the time
blanking is reported. -/
structure ReEnabled (s : Ppu × μ) (history : List (Operation μ)) (last : Operation μ) : Prop where
  reported : ∀ before later, history = before ++ later → (run s before).1.status.vblank = true
  turnedOff : ∃ before off later, history = before ++ off :: later ∧
    (run s before).1.control.interrupts = true ∧
    (after (run s before) off).1.control.interrupts = false
  turnedOn : (run s history).1.control.interrupts = false ∧
    (after (run s history) last).1.control.interrupts = true

/-- Where two operations raise requests and blanking begins in none after the first, interrupts have
been off in between. -/
theorem reEnabled_of_raises {s : Ppu × μ} (h : InBlanking s) {first second : Operation μ}
    {between : List (Operation μ)} (hfirst : raises s first = true)
    (hsecond : raises (run (after s first) between) second = true)
    (hquiet : Quiet (after s first) (between ++ [second])) :
    ReEnabled (after s first) between second := by
  have hbetween : InBlanking (run (after s first) between) :=
    run_invariant (fun _ op h => h.after op) (h.after first) between
  obtain ⟨-, hup⟩ := (raises_iff h first).mp hfirst
  obtain ⟨hdown, hagain⟩ := (raises_iff hbetween second).mp hsecond
  obtain ⟨hv, hon⟩ := Bool.and_eq_true_iff.mp hagain
  have hlast : (run (after s first) between).1.status.vblank = true :=
    (vblank_of_after hv).elim (fun hb => absurd hb (hquiet between second [] rfl)) And.left
  have hreported : ∀ before later, between = before ++ later →
      (run (after s first) before).1.status.vblank = true := by
    rintro before later rfl
    exact vblank_of_run (fun b op l he => hquiet b op (l ++ [second]) (by simp [he])) hlast
  -- Since blanking is reported throughout, a call that is false means that interrupts are off.
  have hoff {q : Ppu} (hset : q.status.vblank = true) (hq : q.calls = false) :
      q.control.interrupts = false := by
    rwa [calls, hset, Bool.true_and] at hq
  obtain ⟨before, off, later, he, hrun, hfall⟩ := exists_falling
    (P := fun s : Ppu × μ => s.1.calls = true) hup (Bool.eq_false_iff.mp hdown)
  have hbehind : (after (run (after s first) before) off).1.status.vblank = true := by
    rw [← run_concat]
    exact hreported (before ++ [off]) later (by simp [he])
  exact {
    reported := hreported
    turnedOff := ⟨before, off, later, he, (Bool.and_eq_true_iff.mp hrun).2,
      hoff hbehind (Bool.eq_false_iff.mpr hfall)⟩
    turnedOn := ⟨hoff hlast hdown, hon⟩ }

/-- **A unit calls for an interrupt on edges**, whatever is done to it from its beginning.  Blanking
is reported only while the beam blanks; an operation raises a request exactly if the call rises in
it, and the request stays until it is taken or the unit reset; and where two are raised with no new
blanking in between, interrupts have been turned off and on again while blanking was reported. -/
theorem requests_at_edges (mem : μ) (history : List (Operation μ)) :
    let s := run ({}, mem) history
    (s.1.status.vblank = true → s.1.raster.Blanks) ∧
      (∀ op, raises s op = true ↔ s.1.calls = false ∧ (after s op).1.calls = true) ∧
      (∀ op, (after s op).1.nmiRequest = (raises s op || s.1.nmiRequest && !withdraws op)) ∧
      ∀ first between second, raises s first = true →
        raises (run (after s first) between) second = true →
        Quiet (after s first) (between ++ [second]) → ReEnabled (after s first) between second := by
  have h : InBlanking (run (({}, mem) : Ppu × μ) history) :=
    run_invariant (fun _ op h => h.after op) nofun history
  exact ⟨h, raises_iff h, nmiRequest_after _, fun _ _ _ h₁ h₂ h₃ => reEnabled_of_raises h h₁ h₂ h₃⟩

end Famicom.Ppu
