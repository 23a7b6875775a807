/-
# The walk of the beam

The beam goes through 262 lines of 341 dots, over and over; only where a frame is odd while the
unit renders, the last dot of the rehearsal line is left out.  That makes the beam a calendar with
leap days.  **If the dots that are left out are counted as well, it is a plain clock**
(`Advances.elapsed`), and how often the beam has come by a dot is a matter of dividing by the dots
of a frame (`Advances.passed`).

`Advances` says once what a dot can do to the beam, and each measure of the beam is then a case
analysis.  What a single operation adds to a measure, a history adds up (`run_measure`): so
`elapsed_run` and `passed_run` hold of every history without a reset, whatever a program does
between the dots.
-/
import Famicom.Proofs.Ppu.Blanking

namespace Famicom.Ppu

/-! ## 1. A clock with leaps -/

namespace Raster

/-- The beam is on a dot of a line of the frame. -/
structure InFrame (r : Raster) : Prop where
  line : r.line ≤ 261
  dot : r.dot ≤ 340

/-- The number of a dot in its frame, which has 89342. -/
def number (r : Raster) : Nat := r.line * 341 + r.dot

/-- The dots since the first frame, with those that were left out. -/
def elapsed (r : Raster) : Nat := r.frames * 89342 + r.number

/-- How often the beam has been past the dot of a number. -/
def passed (n : Nat) (r : Raster) : Nat := (r.elapsed + (89341 - n)) / 89342

/-- The dot after this one is left out. -/
def leaps (r : Raster) (rendering : Bool) : Bool :=
  r.number == 89340 && r.odd && rendering

/-- What a dot does to the beam. -/
inductive Advances (rendering : Bool) (r : Raster) : Raster → Prop
  | dot (hd : r.dot < 340) (hl : r.leaps rendering = false) :
    Advances rendering r { r with dot := r.dot + 1 }
  | line (hd : r.dot = 340) (hl : r.line < 261) :
    Advances rendering r { r with line := r.line + 1, dot := 0 }
  | frame (hl : r.line = 261) (hend : r.dot = 340 ∨ r.leaps rendering = true) :
    Advances rendering r { line := 0, dot := 0, odd := !r.odd, frames := r.frames + 1 }

theorem leaps_iff (r : Raster) (rendering : Bool) :
    r.leaps rendering = true ↔ r.number = 89340 ∧ r.odd = true ∧ rendering = true := by
  simp only [leaps, Bool.and_eq_true, beq_iff_eq, and_assoc]

section Number

variable {r : Raster} (h : r.InFrame)

include h

/-- Within a frame the number tells line and dot. -/
theorem number_eq_iff (line dot : Nat) (hd : dot ≤ 340) :
    r.number = line * 341 + dot ↔ r.line = line ∧ r.dot = dot := by
  obtain ⟨-, hdot⟩ := h
  unfold number
  omega

theorem number_lt : r.number < 89342 := by
  obtain ⟨hl, hd⟩ := h
  unfold number
  omega

theorem blankingBegins_eq : r.blankingBegins = decide (r.number = 82182) := by
  rw [Bool.eq_iff_iff, blankingBegins_iff, decide_eq_true_iff]
  exact (number_eq_iff h 241 1 (by decide)).symm

theorem next_advances (rendering : Bool) : Advances rendering r (r.next rendering) := by
  have hnumber : r.number = 89340 ↔ r.line = 261 ∧ r.dot = 339 :=
    number_eq_iff h 261 339 (by decide)
  obtain ⟨hline, hdot⟩ := h
  -- By whether a dot is left out, which decides about the last dot of the line.
  have hlast : (if r.isPreRender && r.odd && rendering then 339 else 340) ≤ r.dot ↔
      r.dot = 340 ∨ r.leaps rendering = true := by
    rw [leaps_iff, hnumber]
    split
    · next hodd =>
      simp only [Bool.and_eq_true, isPreRender_iff] at hodd
      simp only [hodd, and_true, true_and]
      omega
    · next hodd =>
      simp only [Bool.and_eq_true, isPreRender_iff] at hodd
      constructor
      · exact fun hd => .inl (by omega)
      · rintro (hd | ⟨⟨hl, -⟩, ho, hr⟩)
        · omega
        · exact absurd ⟨⟨hl, ho⟩, hr⟩ hodd
  by_cases hend : r.dot = 340 ∨ r.leaps rendering = true
  · have hstay := Nat.not_lt.mpr (hlast.mpr hend)
    by_cases hl : r.line = 261
    · have hnext : r.next rendering =
          { line := 0, dot := 0, odd := !r.odd, frames := r.frames + 1 } := by
        simp only [next, if_neg hstay, hl, linesPerFrame]
        rfl
      rw [hnext]
      exact .frame hl hend
    · have hmore : r.line + 1 < linesPerFrame := by
        unfold linesPerFrame
        omega
      have hnext : r.next rendering = { r with line := r.line + 1, dot := 0 } := by
        simp only [next, if_neg hstay, if_pos hmore]
      rw [hnext]
      refine .line (hend.resolve_right fun hleap => hl ?_) (by omega)
      exact (hnumber.mp ((r.leaps_iff rendering).mp hleap).1).1
  · have hmore := Nat.lt_of_not_le fun hle => hend (hlast.mp hle)
    have hnext : r.next rendering = { r with dot := r.dot + 1 } := if_pos hmore
    rw [hnext]
    rw [not_or, Bool.not_eq_true] at hend
    exact .dot (by omega) hend.2

end Number

namespace Advances

variable {rendering : Bool} {r s : Raster} (ha : Advances rendering r s)

include ha

theorem inFrame (h : r.InFrame) : s.InFrame := by
  obtain ⟨hl, hd⟩ := h
  cases ha with
  | dot hdot => exact ⟨hl, hdot⟩
  | line _ hline => exact ⟨hline, Nat.zero_le _⟩
  | frame => exact ⟨Nat.zero_le _, Nat.zero_le _⟩

/-- **The clock goes on by one, and by two where a dot is left out.** -/
theorem elapsed : s.elapsed = r.elapsed + 1 + (r.leaps rendering).toNat := by
  have hnone (h : r.number ≠ 89340) : r.leaps rendering = false := by
    rw [leaps, beq_false_of_ne h, Bool.false_and, Bool.false_and]
  unfold Raster.elapsed
  cases ha with
  | dot hdot hleap =>
    rw [hleap]
    simp only [number, Bool.toNat_false]
    omega
  | line hdot hline =>
    rw [hnone (by unfold number; omega)]
    simp only [number, Bool.toNat_false]
    omega
  | frame hline hend =>
    obtain hdot | hleap := hend
    · rw [hnone (by unfold number; omega)]
      simp only [number, Bool.toNat_false]
      omega
    · have hnumber := ((r.leaps_iff rendering).mp hleap).1
      rw [hleap, hnumber]
      simp only [number, Bool.toNat_true]
      omega

/-- **The beam is past a dot once more exactly if it was on it.**  Only of the last dot of a frame
this cannot be said. -/
theorem passed (h : r.InFrame) {n : Nat} (hn : n < 89341) :
    s.passed n = r.passed n + (decide (r.number = n)).toNat := by
  have hlt := number_lt h
  unfold Raster.passed
  rw [ha.elapsed, Raster.elapsed]
  cases hleap : r.leaps rendering with
  | false =>
    rw [Bool.toNat_false]
    by_cases hr : r.number = n
    · rw [decide_eq_true hr, Bool.toNat_true]
      omega
    · rw [decide_eq_false hr, Bool.toNat_false]
      omega
  | true =>
    have hnumber := ((r.leaps_iff rendering).mp hleap).1
    rw [Bool.toNat_true]
    by_cases hr : r.number = n
    · rw [decide_eq_true hr, Bool.toNat_true]
      omega
    · rw [decide_eq_false hr, Bool.toNat_false]
      omega

/-- Frames are odd and even in turn. -/
theorem odd : (s.odd.toNat + s.frames) % 2 = (r.odd.toNat + r.frames) % 2 := by
  cases ha with
  | dot | line => rfl
  | frame =>
    dsimp only
    cases r.odd with
    | false =>
      simp only [Bool.not_false, Bool.toNat_true, Bool.toNat_false]
      omega
    | true =>
      simp only [Bool.not_true, Bool.toNat_true, Bool.toNat_false]
      omega

end Advances
end Raster

/-! ## 2. Histories -/

variable {μ : Type}

/-- The clock moves the unit by a dot. -/
def Operation.isTick : Operation μ → Bool
  | .tick => true
  | _ => false

/-- The dots of a history. -/
def dots (history : List (Operation μ)) : Nat := history.countP Operation.isTick

theorem dots_append (first second : List (Operation μ)) :
    dots (first ++ second) = dots first + dots second := List.countP_append

variable [AddressBus μ]

/-- What a history costs, where every operation costs so much as it happens. -/
def total (cost : Ppu × μ → Operation μ → Nat) : Ppu × μ → List (Operation μ) → Nat
  | _, [] => 0
  | s, op :: history => cost s op + total cost (after s op) history

section Total

variable {cost cost' : Ppu × μ → Operation μ → Nat} {s : Ppu × μ}

theorem total_append (first second : List (Operation μ)) :
    total cost s (first ++ second) = total cost s first + total cost (run s first) second := by
  induction first generalizing s with
  | nil => exact (Nat.zero_add _).symm
  | cons op first ih =>
    rw [List.cons_append, total, ih, total, Nat.add_assoc]
    rfl

theorem total_mono (h : ∀ s op, cost s op ≤ cost' s op) (history : List (Operation μ)) :
    total cost s history ≤ total cost' s history := by
  induction history generalizing s with
  | nil => exact Nat.le_refl 0
  | cons op history ih => exact Nat.add_le_add (h s op) ih

theorem total_add (history : List (Operation μ)) :
    total (fun s op => cost s op + cost' s op) s history =
      total cost s history + total cost' s history := by
  induction history generalizing s with
  | nil => rfl
  | cons op history ih =>
    simp only [total, ih]
    omega

/-- The dots are counted as they happen. -/
theorem total_isTick (history : List (Operation μ)) :
    total (fun _ op => op.isTick.toNat) s history = dots history := by
  induction history generalizing s with
  | nil => rfl
  | cons op history ih =>
    rw [total, ih, dots, dots, List.countP_cons, Nat.add_comm]
    cases op.isTick <;> rfl

/-- Where a property costs one, a history that costs one has one operation with it. -/
theorem exists_of_total_eq_one {P : Ppu × μ → Operation μ → Bool} {history : List (Operation μ)}
    (h : total (fun s op => (P s op).toNat) s history = 1) :
    ∃ before op later, history = before ++ op :: later ∧ P (run s before) op = true ∧
      total (fun s op => (P s op).toNat) s before = 0 ∧
      total (fun s op => (P s op).toNat) (after (run s before) op) later = 0 := by
  induction history generalizing s with
  | nil => cases h
  | cons op history ih =>
    rw [total] at h
    cases hop : P s op with
    | true =>
      rw [hop, Bool.toNat_true] at h
      exact ⟨[], op, history, rfl, hop, rfl, by change total _ (after s op) _ = 0; omega⟩
    | false =>
      rw [hop, Bool.toNat_false, Nat.zero_add] at h
      obtain ⟨before, op', later, he, hP, hbefore, hlater⟩ := ih h
      refine ⟨op :: before, op', later, congrArg (op :: ·) he, hP, ?_, hlater⟩
      rw [total, hop, hbefore]
      rfl

/-- A history costs nothing in which no operation does. -/
theorem total_eq_zero {history : List (Operation μ)}
    (h : ∀ before op later, history = before ++ op :: later → cost (run s before) op = 0) :
    total cost s history = 0 := by
  induction history generalizing s with
  | nil => rfl
  | cons op history ih =>
    have hop : cost s op = 0 := h [] op history rfl
    rw [total, hop, ih fun before op' later he => h (op :: before) op' later (by rw [he]; rfl)]

end Total

/-! ## 3. The beam along a history -/

/-- The dots that are left out in a history. -/
def leftOut (s : Ppu × μ) (history : List (Operation μ)) : Nat :=
  total (fun s op => (op.isTick && s.1.raster.leaps s.1.mask.rendering).toNat) s history

/-- How often a history does the dot of a number. -/
def visits (n : Nat) (s : Ppu × μ) (history : List (Operation μ)) : Nat :=
  total (fun s op => (op.isTick && s.1.raster.number == n).toNat) s history

/-- Only behind its dot a dot is left out. -/
theorem leftOut_le_visits (s : Ppu × μ) (history : List (Operation μ)) :
    leftOut s history ≤ visits 89340 s history := by
  have hle : ∀ tick there odd rendering : Bool,
      (tick && (there && odd && rendering)).toNat ≤ (tick && there).toNat := by decide
  exact total_mono (fun _ _ => hle _ _ _ _) history

/-- The beam is in its frame. -/
def InFrame (s : Ppu × μ) : Prop := s.1.raster.InFrame

omit [AddressBus μ] in
theorem inFrame_start (mem : μ) : InFrame ({}, mem) := ⟨Nat.le_refl _, Nat.zero_le _⟩

/-- Every dot raises a measure of the beam by its cost. -/
def Raster.Measures (measure : Raster → Nat) (cost : Raster → Bool → Nat) : Prop :=
  ∀ r s rendering, r.InFrame → r.Advances rendering s → measure s = measure r + cost r rendering

section Beam

variable {s : Ppu × μ} (h : InFrame s)

include h

theorem InFrame.after (op : Operation μ) : InFrame (after s op) := by
  unfold InFrame
  rw [after_raster]
  cases op with
  | tick => exact (Raster.next_advances h _).inFrame h
  | reset => exact ⟨Nat.le_refl _, Nat.zero_le _⟩
  | _ => exact h

theorem InFrame.run (history : List (Operation μ)) : InFrame (run s history) :=
  run_invariant (I := InFrame) (fun _ op h => InFrame.after h op) h history

/-- **What every dot adds to a measure of the beam, a history adds up.** -/
theorem run_measure {measure : Raster → Nat} {cost : Raster → Bool → Nat}
    (hm : Raster.Measures measure cost) {history : List (Operation μ)}
    (hreset : .reset ∉ history) :
    measure (Ppu.run s history).1.raster =
      measure s.1.raster +
        total (fun s op => if op.isTick then cost s.1.raster s.1.mask.rendering else 0) s
          history := by
  induction history generalizing s with
  | nil => rfl
  | cons op history ih =>
    rw [List.mem_cons, not_or] at hreset
    have hop : measure (Ppu.after s op).1.raster =
        measure s.1.raster + if op.isTick then cost s.1.raster s.1.mask.rendering else 0 := by
      rw [after_raster]
      cases op with
      | tick => exact hm _ _ _ h (Raster.next_advances h _)
      | reset => exact absurd rfl hreset.1
      | _ => rfl
    change measure (Ppu.run (Ppu.after s op) history).1.raster = _
    rw [ih (h.after op) hreset.2, hop, total, Nat.add_assoc]

/-- **The clock along a history** counts its dots and those left out. -/
theorem elapsed_run {history : List (Operation μ)} (hreset : .reset ∉ history) :
    (Ppu.run s history).1.raster.elapsed =
      s.1.raster.elapsed + dots history + leftOut s history := by
  have hm : Raster.Measures Raster.elapsed fun r rendering => 1 + (r.leaps rendering).toNat :=
    fun r s rendering _ ha => by rw [ha.elapsed, Nat.add_assoc]
  rw [run_measure h hm hreset, ← total_isTick (s := s), Nat.add_assoc, leftOut, ← total_add]
  congr 2
  funext s op
  cases op.isTick <;> rfl

/-- **How often the beam is past a dot** is how often a history does it. -/
theorem passed_run {n : Nat} (hn : n < 89341) {history : List (Operation μ)}
    (hreset : .reset ∉ history) :
    (Ppu.run s history).1.raster.passed n = s.1.raster.passed n + visits n s history := by
  have hm : Raster.Measures (Raster.passed n) fun r _ => (decide (r.number = n)).toNat :=
    fun r s rendering hr ha => ha.passed hr hn
  rw [run_measure h hm hreset, visits]
  congr 2
  funext s op
  cases op.isTick <;> rfl

end Beam

end Famicom.Ppu
