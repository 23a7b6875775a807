/-
# From picture to picture

A picture is finished where blanking begins, in the dot 1 of line 241, and in no other operation.
From one finished picture to the next the beam comes round once: it passes each dot of the frame but
the last one of the rehearsal line, which is left out where a frame is odd while the unit renders.
So **a period has 89342 dots, or 89341 if at dot 339 of the rehearsal line the frame is odd and the
unit renders** (`Period.length`).  What the mask says at any other dot does not matter.

Meanwhile the unit writes the picture.  `Raster.drawn` is the number of the pixels before the beam,
and a dot that writes one writes the one of that number; so in a period **every place is written
once, and row by row** (`Period.places`).

The clock with leaps settles what happens over any number of periods: without rendering nothing is
ever left out (`pictures_of_dark`), and with it in every other period (`Period.alternates`).
-/
import Famicom.Proofs.Ppu.Walk

namespace Famicom

/-! ## 1. Writing into a picture -/

/-- What is written once is there in the end. -/
theorem Memory.read_foldl_write {n : Nat} [Size n] {pixels : List (Nat × UInt8)}
    (honce : (pixels.map Prod.fst).Nodup) (hplace : ∀ px ∈ pixels, px.1 < n)
    {px : Nat × UInt8} (h : px ∈ pixels) (m : Memory n) :
    (pixels.foldl (fun m px => m.write px.1 px.2) m).read px.1 = px.2 := by
  induction pixels using List.reverseRecOn with
  | nil => cases h
  | append_singleton pixels last ih =>
    rw [List.map_append, List.nodup_append] at honce
    obtain ⟨honce, -, hnew⟩ := honce
    rw [List.foldl_append, List.foldl_cons, List.foldl_nil, Memory.read_write]
    have hlt := hplace px h
    have hlast := hplace last (List.mem_append_right _ (List.mem_singleton.mpr rfl))
    rw [Nat.mod_eq_of_lt hlt, Nat.mod_eq_of_lt hlast]
    rw [List.mem_append, List.mem_singleton] at h
    obtain h | rfl := h
    · have hne : last.1 ≠ px.1 := fun he =>
        hnew px.1 (List.mem_map_of_mem h) last.1 (List.mem_map_of_mem (List.mem_singleton.mpr rfl))
          he.symm
      rw [if_neg hne]
      exact ih honce (fun q hq => hplace q (List.mem_append_left _ hq)) h
    · rw [if_pos rfl]

namespace Ppu

variable {μ : Type} [AddressBus μ]

/-! ## 2. What an operation does to the picture -/

/-- The picture, and whether it is reported as finished. -/
structure Screen where
  frame : Memory 61440
  complete : Bool

/-- The picture of a unit. -/
def screen (p : Ppu) : Screen := ⟨p.frame, p.frameComplete⟩

/-- The pixel that an operation writes: its place in the picture and its colour. -/
def pixel? (s : Ppu × μ) : Operation μ → Option (Nat × UInt8)
  | .tick =>
    if s.1.raster.writes then
      some (s.1.raster.line * 256 + (s.1.raster.dot - 1),
        (s.1.composing s.2).composedColour (s.1.raster.dot - 1))
    else none
  | _ => none

/-- A picture with one pixel written, if any. -/
def drawing (frame : Memory 61440) : Option (Nat × UInt8) → Memory 61440
  | some px => frame.write px.1 px.2
  | none => frame

theorem finished_screen (p : Ppu) :
    p.finished.screen =
      { frame :=
          drawing p.frame
            (if p.raster.writes then
              some (p.raster.line * 256 + (p.raster.dot - 1), p.composedColour (p.raster.dot - 1))
            else none)
        complete := p.frameComplete || p.raster.blankingBegins } := by
  change (beginBlanking (if p.raster.writes then p.pixelDot else p)).screen = _
  have hpixel : (if p.raster.writes then p.pixelDot else p).screen =
      { frame :=
          drawing p.frame
            (if p.raster.writes then
              some (p.raster.line * 256 + (p.raster.dot - 1), p.composedColour (p.raster.dot - 1))
            else none)
        complete := p.frameComplete } := by
    split
    · rw [pixelDot_eq]
      rfl
    · rfl
  have hraster : (if p.raster.writes then p.pixelDot else p).raster = p.raster := by
    split <;> rfl
  generalize (if p.raster.writes then p.pixelDot else p) = q at hpixel hraster
  unfold beginBlanking
  rw [hraster]
  have hcomplete : q.frameComplete = p.frameComplete := congrArg Screen.complete hpixel
  have hframe := congrArg Screen.frame hpixel
  cases p.raster.blankingBegins with
  | true =>
    rw [if_pos rfl, Bool.or_true]
    exact congrArg (Screen.mk · true) hframe
  | false =>
    rw [if_neg Bool.false_ne_true, Bool.or_false]
    exact hpixel

theorem tick_screen (p : Ppu) (mem : μ) :
    (p.tick mem).1.screen =
      { frame := drawing p.frame (pixel? (p, mem) .tick)
        complete := p.frameComplete || p.raster.blankingBegins } := by
  obtain ⟨_, _, _, _, _, hc⟩ := composing_reach p mem
  have hraster : (p.composing mem).raster = p.raster := by rw [hc]
  have hframe : (p.composing mem).frame = p.frame := by rw [hc]
  have hcomplete : (p.composing mem).frameComplete = p.frameComplete := by rw [hc]
  rw [tick_fst, finished_screen, hraster, hframe, hcomplete]
  rfl

/-- **What an operation does to the picture.**  Only a dot writes to it or finishes it. -/
theorem after_screen (s : Ppu × μ) (op : Operation μ) :
    (after s op).1.screen =
      { frame := drawing s.1.frame (pixel? s op)
        complete :=
          match op with
          | .tick => s.1.frameComplete || s.1.raster.blankingBegins
          | .takeFrameComplete | .reset => false
          | _ => s.1.frameComplete } := by
  obtain ⟨p, mem⟩ := s
  cases op with
  | tick => exact tick_screen p mem
  | readRegister a =>
    exact congrArg (fun c => Screen.mk c.frame c.frameComplete) (readRegister_clockwork p a mem)
  | writeRegister a v =>
    exact congrArg (fun c => Screen.mk c.frame c.frameComplete) (writeRegister_clockwork p a v mem)
  | takeFrameComplete =>
    change p.takeFrameComplete.2.screen = ⟨p.frame, false⟩
    unfold takeFrameComplete
    cases h : p.frameComplete with
    | true => rfl
    | false => exact congrArg (Screen.mk p.frame) h
  | takeNmiRequest =>
    change p.takeNmiRequest.2.screen = p.screen
    unfold takeNmiRequest
    split <;> rfl
  | _ => rfl

/-- An operation finishes a picture, whether or not an earlier one has been taken. -/
def finishes (s : Ppu × μ) (op : Operation μ) : Bool :=
  (after ({ s.1 with frameComplete := false }, s.2) op).1.frameComplete

theorem finishes_eq (s : Ppu × μ) (op : Operation μ) :
    finishes s op = (op.isTick && s.1.raster.blankingBegins) := by
  refine (congrArg Screen.complete
    (after_screen ({ s.1 with frameComplete := false }, s.2) op)).trans ?_
  cases op <;> rfl

/-- **A picture is finished by the dot where blanking begins**, and by nothing else. -/
theorem finishes_iff (s : Ppu × μ) (op : Operation μ) :
    finishes s op = true ↔ op = .tick ∧ s.1.raster.line = 241 ∧ s.1.raster.dot = 1 := by
  rw [finishes_eq, Bool.and_eq_true, Raster.blankingBegins_iff]
  refine and_congr_left fun _ => ?_
  cases op <;> simp [Operation.isTick]

/-- The pixels that a history writes. -/
def pixels : Ppu × μ → List (Operation μ) → List (Nat × UInt8)
  | _, [] => []
  | s, op :: history => (pixel? s op).toList ++ pixels (after s op) history

/-- The pictures that a history finishes. -/
def pictures (s : Ppu × μ) (history : List (Operation μ)) : Nat :=
  total (fun s op => (finishes s op).toNat) s history

theorem frame_run (s : Ppu × μ) (history : List (Operation μ)) :
    (run s history).1.frame =
      (pixels s history).foldl (fun frame px => frame.write px.1 px.2) s.1.frame := by
  induction history generalizing s with
  | nil => rfl
  | cons op history ih =>
    have hop : (after s op).1.frame = drawing s.1.frame (pixel? s op) :=
      congrArg Screen.frame (after_screen s op)
    change (run (after s op) history).1.frame = _
    rw [ih, pixels, List.foldl_append, hop]
    cases pixel? s op <;> rfl

/-! ## 3. From picture to picture -/

/-- What is done from a dot that finishes a picture to the next that does. -/
structure Period (s : Ppu × μ) (between : List (Operation μ)) : Prop where
  first : finishes s .tick = true
  quiet : pictures (after s .tick) between = 0
  last : finishes (run (after s .tick) between) .tick = true
  noReset : .reset ∉ between

theorem number_of_finishes {s : Ppu × μ} (h : finishes s .tick = true) :
    s.1.raster.number = 82182 := by
  obtain ⟨-, hl, hd⟩ := (finishes_iff s .tick).mp h
  rw [Raster.number, hl, hd]

/-- The pictures of a history are the times that it does the dot of their end. -/
theorem pictures_eq_visits {s : Ppu × μ} (h : InFrame s) (history : List (Operation μ)) :
    pictures s history = visits 82182 s history := by
  induction history generalizing s with
  | nil => rfl
  | cons op history ih =>
    have hop : finishes s op = (op.isTick && s.1.raster.number == 82182) := by
      rw [finishes_eq, Raster.blankingBegins_eq h]
      rfl
    have hrest := ih (h.after op)
    unfold pictures visits at hrest ⊢
    rw [total, total, hrest, hop]

/-- **A history of as many dots as a frame has finishes a picture**, whatever else is done. -/
theorem pictures_pos {s : Ppu × μ} (h : InFrame s) {history : List (Operation μ)}
    (hreset : .reset ∉ history) (hdots : 89342 ≤ dots history) : 0 < pictures s history := by
  have hpassed := passed_run h (n := 82182) (by decide) hreset
  have helapsed := elapsed_run h hreset
  rw [pictures_eq_visits h]
  rw [Raster.passed, Raster.passed] at hpassed
  omega

/-- With half as many it finishes no more than one. -/
theorem pictures_le_one {s : Ppu × μ} (h : InFrame s) {history : List (Operation μ)}
    (hreset : .reset ∉ history) (hdots : dots history ≤ 44671) : pictures s history ≤ 1 := by
  have hpassed := passed_run h (n := 82182) (by decide) hreset
  have helapsed := elapsed_run h hreset
  have hleft : leftOut s history ≤ dots history := by
    have hle : ∀ tick leaps : Bool, (tick && leaps).toNat ≤ tick.toNat := by decide
    rw [← total_isTick (s := s)]
    exact total_mono (fun _ _ => hle _ _) history
  rw [pictures_eq_visits h]
  rw [Raster.passed, Raster.passed] at hpassed
  omega

/-- Until it is taken, a finished picture is reported. -/
theorem frameComplete_run {s : Ppu × μ} {history : List (Operation μ)} (hreset : .reset ∉ history)
    (htake : .takeFrameComplete ∉ history) :
    (run s history).1.frameComplete = (s.1.frameComplete || decide (0 < pictures s history)) := by
  induction history generalizing s with
  | nil => exact (Bool.or_false _).symm
  | cons op history ih =>
    rw [List.mem_cons, not_or] at hreset htake
    have hop : (after s op).1.frameComplete = (s.1.frameComplete || finishes s op) := by
      rw [finishes_eq]
      refine (congrArg Screen.complete (after_screen s op)).trans ?_
      cases op with
      | tick => rfl
      | reset => exact absurd rfl hreset.1
      | takeFrameComplete => exact absurd rfl htake.1
      | _ => exact (Bool.or_false _).symm
    change (run (after s op) history).1.frameComplete = _
    rw [ih hreset.2 htake.2, hop, Bool.or_assoc]
    congr 1
    change _ = decide (0 < (finishes s op).toNat + pictures (after s op) history)
    cases finishes s op with
    | true =>
      rw [Bool.true_or]
      exact (decide_eq_true (by rw [Bool.toNat_true]; omega)).symm
    | false => rw [Bool.false_or, Bool.toNat_false, Nat.zero_add]

/-- The frames since the beginning, and whether this one is odd, go together. -/
theorem odd_run {s : Ppu × μ} (h : InFrame s) {history : List (Operation μ)}
    (hreset : .reset ∉ history) :
    ((run s history).1.raster.odd.toNat + (run s history).1.raster.frames) % 2 =
      (s.1.raster.odd.toNat + s.1.raster.frames) % 2 := by
  have hm : Raster.Measures (fun r => (r.odd.toNat + r.frames) % 2) fun _ _ => 0 :=
    fun _ _ _ _ ha => ha.odd
  have hrun := run_measure h hm hreset
  rwa [total_eq_zero fun _ op _ _ => by cases op.isTick <;> rfl, Nat.add_zero] at hrun

namespace Period

variable {s : Ppu × μ} {between : List (Operation μ)} (h : Period s between) (hs : InFrame s)

include h hs

/-- The beam as a period begins. -/
theorem raster_first : (after s .tick).1.raster = { s.1.raster with dot := 2 } := by
  obtain ⟨-, -, hd⟩ := (finishes_iff s .tick).mp h.first
  have hnumber := number_of_finishes h.first
  rw [after_raster]
  have ha := Raster.next_advances hs s.1.mask.rendering
  generalize s.1.raster.next s.1.mask.rendering = r at ha
  cases ha with
  | dot => rw [hd]
  | line hdot => omega
  | frame hline => rw [Raster.number, hline] at hnumber; omega

theorem elapsed_first : (after s .tick).1.raster.elapsed = s.1.raster.frames * 89342 + 82183 := by
  obtain ⟨-, hl, -⟩ := (finishes_iff s .tick).mp h.first
  rw [h.raster_first hs, Raster.elapsed, Raster.number]
  dsimp only
  rw [hl]

omit hs in
theorem elapsed_last : (run (after s .tick) between).1.raster.elapsed =
    (run (after s .tick) between).1.raster.frames * 89342 + 82182 := by
  rw [Raster.elapsed, number_of_finishes h.last]

/-- **In a period the beam comes round once.** -/
theorem frames : (run (after s .tick) between).1.raster.frames = s.1.raster.frames + 1 := by
  have hpassed := passed_run (hs.after .tick) (n := 82182) (by decide) h.noReset
  rw [← pictures_eq_visits (hs.after .tick), h.quiet, Raster.passed, Raster.passed,
    h.elapsed_first hs, h.elapsed_last] at hpassed
  omega

/-- The dots of a period and those left out in it are those of a frame. -/
theorem dots_add_leftOut : dots between + leftOut (after s .tick) between = 89341 := by
  have helapsed := elapsed_run (hs.after .tick) h.noReset
  have hframes := h.frames hs
  rw [h.elapsed_first hs, h.elapsed_last] at helapsed
  omega

/-- Dot 339 of the rehearsal line comes once in a period. -/
theorem visits_corner : visits 89340 (after s .tick) between = 1 := by
  have hpassed := passed_run (hs.after .tick) (n := 89340) (by decide) h.noReset
  have hframes := h.frames hs
  rw [Raster.passed, Raster.passed, h.elapsed_first hs, h.elapsed_last] at hpassed
  omega

end Period

/-- A history comes to dot 339 of the rehearsal line. -/
structure Corner (s : Ppu × μ) (before : List (Operation μ)) : Prop where
  line : (run s before).1.raster.line = 261
  dot : (run s before).1.raster.dot = 339

theorem corner_iff {s : Ppu × μ} (hs : InFrame s) (before : List (Operation μ)) :
    Corner s before ↔ (run s before).1.raster.number = 89340 := by
  rw [Raster.number_eq_iff (hs.run before) 261 339 (by decide)]
  exact ⟨fun h => ⟨h.line, h.dot⟩, fun h => ⟨h.1, h.2⟩⟩

namespace Period

variable {s : Ppu × μ} {between : List (Operation μ)} (h : Period s between) (hs : InFrame s)

include h hs

theorem exists_corner :
    ∃ before later, between = before ++ .tick :: later ∧ Corner (after s .tick) before := by
  obtain ⟨before, op, later, he, hop, -, -⟩ := exists_of_total_eq_one (h.visits_corner hs)
  rw [Bool.and_eq_true, beq_iff_eq] at hop
  cases op with
  | tick => exact ⟨before, later, he, (corner_iff (hs.after .tick) before).mpr hop.2⟩
  | _ => exact absurd hop.1 Bool.false_ne_true

variable {before later : List (Operation μ)} (he : between = before ++ .tick :: later)
  (hcorner : Corner (after s .tick) before)

include he hcorner

/-- A dot is left out in a period only there. -/
theorem leftOut_eq :
    leftOut (after s .tick) between =
      ((run (after s .tick) before).1.raster.odd &&
        (run (after s .tick) before).1.mask.rendering).toNat := by
  have hnumber := (corner_iff (hs.after .tick) before).mp hcorner
  have hvisits := h.visits_corner hs
  rw [he, visits, total_append, total, hnumber] at hvisits
  change visits 89340 _ before + (1 + visits 89340 _ later) = 1 at hvisits
  have hbefore := leftOut_le_visits (after s .tick) before
  have hlater := leftOut_le_visits (after (run (after s .tick) before) .tick) later
  rw [he, leftOut, total_append, total, Raster.leaps, hnumber]
  change leftOut _ before + (_ + leftOut _ later) = _
  rw [Nat.le_zero.mp (Nat.le_trans hbefore (by omega)),
    Nat.le_zero.mp (Nat.le_trans hlater (by omega)), Nat.zero_add, Nat.add_zero]
  rfl

/-- **The length of a period** is settled at one dot. -/
theorem length :
    dots (between ++ [.tick]) =
      if (run (after s .tick) before).1.raster.odd &&
        (run (after s .tick) before).1.mask.rendering then 89341 else 89342 := by
  have hdots := h.dots_add_leftOut hs
  have hlast : dots (between ++ [.tick]) = dots between + 1 := dots_append between [.tick]
  rw [h.leftOut_eq hs he hcorner] at hdots
  rw [hlast]
  cases hleap : (run (after s .tick) before).1.raster.odd &&
      (run (after s .tick) before).1.mask.rendering with
  | true =>
    rw [hleap, Bool.toNat_true] at hdots
    rw [if_pos rfl]
    omega
  | false =>
    rw [hleap, Bool.toNat_false] at hdots
    rw [if_neg Bool.false_ne_true]
    omega

/-- The frame at the corner of a period is that of its beginning. -/
theorem frames_corner :
    (run (after s .tick) before).1.raster.frames = s.1.raster.frames := by
  have hnumber := (corner_iff (hs.after .tick) before).mp hcorner
  have hnoReset : .reset ∉ before := fun hr => h.noReset (he ▸ List.mem_append_left _ hr)
  have hquiet := h.quiet
  rw [pictures_eq_visits (hs.after .tick), he, visits, total_append] at hquiet
  have hpassed := passed_run (hs.after .tick) (n := 82182) (by decide) hnoReset
  rw [visits, Nat.eq_zero_of_add_eq_zero_right hquiet, Raster.passed, Raster.passed,
    h.elapsed_first hs, Raster.elapsed, hnumber] at hpassed
  omega

end Period

/-- At every dot of a history the unit renders, or at none. -/
def Rendering (on : Bool) (s : Ppu × μ) (history : List (Operation μ)) : Prop :=
  ∀ before later, history = before ++ .tick :: later → (run s before).1.mask.rendering = on

/-- **While the unit renders, long and short periods alternate.** -/
theorem Period.alternates {s : Ppu × μ} {first second : List (Operation μ)}
    (h₁ : Period s first) (h₂ : Period (run (after s .tick) first) second) (hs : InFrame s)
    (hr : Rendering true (after s .tick) (first ++ .tick :: second)) :
    dots (first ++ [.tick]) = 89341 ∧ dots (second ++ [.tick]) = 89342 ∨
      dots (first ++ [.tick]) = 89342 ∧ dots (second ++ [.tick]) = 89341 := by
  have hs₁ : InFrame (after s .tick) := hs.after .tick
  have ht : InFrame (run (after s .tick) first) := hs₁.run first
  have ht₁ := ht.after .tick
  obtain ⟨before₁, later₁, he₁, hc₁⟩ := h₁.exists_corner hs
  obtain ⟨before₂, later₂, he₂, hc₂⟩ := h₂.exists_corner ht
  have hr₁ := hr before₁ (later₁ ++ .tick :: second) (by rw [he₁, List.append_assoc]; rfl)
  have hr₂ := hr (first ++ .tick :: before₂) later₂ (by rw [he₂, List.append_assoc]; rfl)
  rw [run_append] at hr₂
  change (run (after (run (after s .tick) first) .tick) before₂).1.mask.rendering = true at hr₂
  rw [h₁.length hs he₁ hc₁, h₂.length ht he₂ hc₂, hr₁, hr₂, Bool.and_true, Bool.and_true]
  -- The frame count goes up by one from corner to corner, so one of the two frames is odd.
  have hparity : ((run (after s .tick) before₁).1.raster.odd.toNat + s.1.raster.frames) % 2 =
      ((run (after (run (after s .tick) first) .tick) before₂).1.raster.odd.toNat +
        (s.1.raster.frames + 1)) % 2 := by
    have h₁n : .reset ∉ before₁ := fun hr => h₁.noReset (he₁ ▸ List.mem_append_left _ hr)
    have h₂n : .reset ∉ first ++ .tick :: before₂ := by
      rw [List.mem_append, List.mem_cons]
      rintro (hr | hr | hr)
      · exact h₁.noReset hr
      · cases hr
      · exact h₂.noReset (he₂ ▸ List.mem_append_left _ hr)
    have hodd₁ := odd_run hs₁ h₁n
    have hodd₂ := odd_run hs₁ h₂n
    rw [run_append] at hodd₂
    rw [← h₁.frames_corner hs he₁ hc₁, hodd₁, ← hodd₂, h₁.frames_corner hs he₁ hc₁,
      ← h₁.frames hs, ← h₂.frames_corner ht he₂ hc₂]
    rfl
  generalize (run (after s .tick) before₁).1.raster.odd = odd₁ at hparity ⊢
  generalize (run (after (run (after s .tick) first) .tick) before₂).1.raster.odd = odd₂
    at hparity ⊢
  match odd₁, odd₂, hparity with
  | true, false, _ => exact .inl ⟨rfl, rfl⟩
  | false, true, _ => exact .inr ⟨rfl, rfl⟩
  | true, true, h | false, false, h =>
    simp only [Bool.toNat_true, Bool.toNat_false] at h
    omega

theorem leftOut_of_dark {s : Ppu × μ} {history : List (Operation μ)}
    (h : Rendering false s history) : leftOut s history = 0 := by
  refine total_eq_zero fun before op later he => ?_
  cases op with
  | tick =>
    rw [Raster.leaps, h before later he, Bool.and_false, Bool.and_false]
    rfl
  | _ => rfl

theorem Raster.elapsed_start : ({} : Raster).elapsed = 89001 := by decide

/-- **Without rendering every frame has all its dots.**  A new unit begins 82523 dots before the end
of its first picture. -/
theorem pictures_of_dark (mem : μ) {history : List (Operation μ)} (hreset : .reset ∉ history)
    (h : Rendering false ({}, mem) history) :
    pictures ({}, mem) history = (dots history + 6818) / 89342 := by
  have hs := inFrame_start mem
  have hpassed := passed_run hs (n := 82182) (by decide) hreset
  have helapsed := elapsed_run hs hreset
  have hstart : (({}, mem) : Ppu × μ).1.raster.elapsed = 89001 := Raster.elapsed_start
  rw [leftOut_of_dark h, hstart] at helapsed
  rw [← pictures_eq_visits hs, Raster.passed, Raster.passed, helapsed, hstart] at hpassed
  omega

/-! ## 4. What is written from picture to picture -/

namespace Raster

/-- The pixels of the picture that are before the beam. -/
def drawn (r : Raster) : Nat :=
  if r.line < 240 then r.line * 256 + min (r.dot - 1) 256
  else if r.line = 240 ∨ r.line = 241 ∧ r.dot ≤ 1 then 61440
  else 0

/-- The dot that writes a pixel writes the next. -/
theorem place_eq_drawn {r : Raster} (h : r.writes = true) :
    r.line * 256 + (r.dot - 1) = r.drawn := by
  rw [writes_iff] at h
  rw [drawn, if_pos h.1]
  omega

/-- A dot that writes a pixel leaves one more behind, and others none. -/
theorem Advances.drawn {rendering : Bool} {r s : Raster} (ha : Advances rendering r s)
    (h : r.InFrame) (hquiet : r.blankingBegins = false) :
    s.drawn = r.drawn + r.writes.toNat := by
  obtain ⟨hline, hdot⟩ := h
  have hblank : ¬(r.line = 241 ∧ r.dot = 1) := by
    rw [← blankingBegins_iff, hquiet]
    exact Bool.false_ne_true
  have hwrites : r.writes.toNat = if r.line < 240 ∧ 1 ≤ r.dot ∧ r.dot ≤ 256 then 1 else 0 := by
    split
    · next hw => rw [(writes_iff r).mpr hw, Bool.toNat_true]
    · next hw => rw [Bool.eq_false_iff.mpr (mt (writes_iff r).mp hw), Bool.toNat_false]
  rw [hwrites]
  unfold Raster.drawn
  cases ha with
  | dot => dsimp only; split_ifs <;> omega
  | line => dsimp only; split_ifs <;> omega
  | frame hl => dsimp only; split_ifs <;> omega

end Raster

/-- The place of the pixel that an operation writes is that of the next. -/
theorem place_after {s : Ppu × μ} (h : InFrame s) {op : Operation μ} (hreset : op ≠ .reset)
    (hquiet : finishes s op = false) :
    List.range s.1.raster.drawn ++ (pixel? s op).toList.map Prod.fst =
      List.range (after s op).1.raster.drawn := by
  rw [after_raster]
  cases op with
  | tick =>
    have hblank : s.1.raster.blankingBegins = false := by
      rwa [finishes_eq] at hquiet
    dsimp only
    rw [(Raster.next_advances h _).drawn h hblank, pixel?]
    cases hw : s.1.raster.writes with
    | true =>
      rw [if_pos rfl, Raster.place_eq_drawn hw, Bool.toNat_true, List.range_succ]
      rfl
    | false =>
      rw [if_neg Bool.false_ne_true]
      exact List.append_nil _
  | reset => exact absurd rfl hreset
  | _ => exact List.append_nil _

/-- **Until a picture is finished its places are written one after the other.** -/
theorem places_run {s : Ppu × μ} (h : InFrame s) {history : List (Operation μ)}
    (hreset : .reset ∉ history) (hquiet : pictures s history = 0) :
    List.range s.1.raster.drawn ++ (pixels s history).map Prod.fst =
      List.range (run s history).1.raster.drawn := by
  induction history generalizing s with
  | nil => exact List.append_nil _
  | cons op history ih =>
    rw [List.mem_cons, not_or] at hreset
    rw [pictures, total, Nat.add_eq_zero_iff, Bool.toNat_eq_zero] at hquiet
    rw [pixels, List.map_append, ← List.append_assoc,
      place_after h (Ne.symm hreset.1) hquiet.1]
    exact ih (h.after op) hreset.2 hquiet.2

theorem toNat_shade_lt (p : Ppu) (cell : UInt16) : (p.shade cell).toNat < 64 := by
  have hcolour := p.palette.toNat_read_lt cell
  unfold shade
  dsimp only
  split
  · rw [UInt8.toNat_and]
    exact Nat.lt_of_le_of_lt Nat.and_le_left hcolour
  · exact hcolour

/-- **Every colour that is written is one of the 64.** -/
theorem colour_lt (s : Ppu × μ) (history : List (Operation μ)) :
    ∀ px ∈ pixels s history, px.2.toNat < 64 := by
  induction history generalizing s with
  | nil => exact fun _ h => (List.not_mem_nil h).elim
  | cons op history ih =>
    intro px h
    rw [pixels, List.mem_append, Option.mem_toList] at h
    obtain h | h := h
    · cases op with
      | tick =>
        rw [pixel?] at h
        split at h
        · cases h
          exact toNat_shade_lt _ _
        · cases h
      | _ => cases h
    · exact ih (after s op) px h

/-- **In a period the whole picture is written**, each place once and row by row. -/
theorem Period.places {s : Ppu × μ} {between : List (Operation μ)} (h : Period s between)
    (hs : InFrame s) : (pixels (after s .tick) between).map Prod.fst = List.range 61440 := by
  obtain ⟨-, hl, -⟩ := (finishes_iff s .tick).mp h.first
  obtain ⟨-, hl', hd'⟩ := (finishes_iff _ .tick).mp h.last
  have hfirst : (after s .tick).1.raster.drawn = 0 := by
    rw [h.raster_first hs, Raster.drawn]
    dsimp only
    rw [hl]
    rfl
  have hlast : (run (after s .tick) between).1.raster.drawn = 61440 := by
    rw [Raster.drawn, hl', hd']
    rfl
  have hrun := places_run (hs.after .tick) h.noReset h.quiet
  rwa [hfirst, hlast] at hrun

/-- What was written in a period is the picture that is finished then. -/
theorem Period.shows {s : Ppu × μ} {between : List (Operation μ)} (h : Period s between)
    (hs : InFrame s) {px : Nat × UInt8} (hpx : px ∈ pixels (after s .tick) between) :
    (run (after s .tick) between).1.frame.read px.1 = px.2 := by
  have hplaces := h.places hs
  rw [frame_run]
  refine Memory.read_foldl_write (by rw [hplaces]; exact List.nodup_range) (fun q hq => ?_) hpx _
  have hmem : q.1 ∈ List.range 61440 := hplaces ▸ List.mem_map_of_mem hq
  exact List.mem_range.mp hmem

/-! ## 5. The pictures of a new unit -/

/-- What is so in every period, whatever is done in it. -/
structure Regular (s : Ppu × μ) (between : List (Operation μ)) : Prop where
  /-- The beam comes to dot 339 of the rehearsal line, -/
  corner : ∃ before later, between = before ++ .tick :: later ∧ Corner (after s .tick) before
  /-- and there it is settled how many dots the period has, with the one that ends it. -/
  length : ∀ before later, between = before ++ .tick :: later → Corner (after s .tick) before →
    dots (between ++ [.tick]) =
      if (run (after s .tick) before).1.raster.odd &&
        (run (after s .tick) before).1.mask.rendering then 89341 else 89342
  /-- Every place of the picture is written once, row by row, -/
  places : (pixels (after s .tick) between).map Prod.fst = List.range 61440
  /-- with one of the 64 colours, -/
  colours : ∀ px ∈ pixels (after s .tick) between, px.2.toNat < 64
  /-- which it still has when the picture is finished. -/
  shows : ∀ px ∈ pixels (after s .tick) between,
    (run (after s .tick) between).1.frame.read px.1 = px.2

/-- **How a new unit draws, whatever is done to it short of a reset.**  The beam stays in its frame;
a picture is finished by the dot 1 of line 241 and by nothing else, and only the dots of the picture
write to it; every period from one finished picture to the next is regular.  So long and short
periods alternate while the unit renders, and if it never does, each 89342 dots from the beginning
finish a picture. -/
theorem pictures_of_new_unit (mem : μ) {history : List (Operation μ)}
    (hreset : .reset ∉ history) :
    let s := run ({}, mem) history
    (s.1.raster.line ≤ 261 ∧ s.1.raster.dot ≤ 340) ∧
      (∀ op, finishes s op = true ↔ op = .tick ∧ s.1.raster.line = 241 ∧ s.1.raster.dot = 1) ∧
      (∀ op, (after s op).1.frame = drawing s.1.frame (pixel? s op)) ∧
      (∀ between, Period s between → Regular s between) ∧
      (∀ first second, Period s first → Period (run (after s .tick) first) second →
        Rendering true (after s .tick) (first ++ .tick :: second) →
        dots (first ++ [.tick]) = 89341 ∧ dots (second ++ [.tick]) = 89342 ∨
          dots (first ++ [.tick]) = 89342 ∧ dots (second ++ [.tick]) = 89341) ∧
      ∀ n, Rendering false ({}, mem) history → dots history = n * 89342 →
        pictures ({}, mem) history = n := by
  intro s
  have hs : InFrame s := (inFrame_start mem).run history
  refine ⟨⟨hs.line, hs.dot⟩, finishes_iff s,
    fun op => congrArg Screen.frame (after_screen s op),
    fun between h => ?_, fun first second h₁ h₂ hr => h₁.alternates h₂ hs hr,
    fun n hdark hn => ?_⟩
  · exact {
      corner := h.exists_corner hs
      length := fun _ _ he hc => h.length hs he hc
      places := h.places hs
      colours := colour_lt _ between
      shows := fun _ hpx => h.shows hs hpx }
  · rw [pictures_of_dark mem hreset hdark, hn]
    omega

/-! ## 6. Nothing but dots -/

/-- Only the clock moves the unit. -/
def ticking (n : Nat) : List (Operation μ) := List.replicate n .tick

theorem settings_ticking (s : Ppu × μ) (n : Nat) :
    (run s (ticking n)).1.settings = s.1.settings := by
  induction n generalizing s with
  | zero => rfl
  | succ n ih => exact (ih (after s .tick)).trans (tick_settings s.1 s.2)

omit [AddressBus μ] in
theorem dots_ticking (n : Nat) : dots (ticking n : List (Operation μ)) = n := by
  rw [dots, ticking, List.countP_replicate]
  rfl

omit [AddressBus μ] in
theorem reset_not_mem_ticking (n : Nat) : (.reset : Operation μ) ∉ ticking n :=
  fun h => nomatch List.eq_of_mem_replicate h

theorem mask_ticking (s : Ppu × μ) (n : Nat) : (run s (ticking n)).1.mask = s.1.mask :=
  congrArg Settings.mask (settings_ticking s n)

omit [AddressBus μ] in
/-- What has gone of such a history is one, too. -/
theorem ticking_of_append {n : Nat} {before later : List (Operation μ)}
    (he : ticking n = before ++ later) : before = ticking before.length :=
  List.eq_replicate_of_mem fun op h =>
    List.eq_of_mem_replicate (he ▸ List.mem_append_left _ h : op ∈ ticking n)

theorem rendering_ticking (s : Ppu × μ) (n : Nat) :
    Rendering s.1.mask.rendering s (ticking n) := by
  intro before later he
  rw [ticking_of_append he, mask_ticking]

section Dark

variable {s : Ppu × μ} (hs : InFrame s) (hdark : s.1.mask.rendering = false)

include hs hdark

theorem elapsed_ticking (n : Nat) :
    (run s (ticking n)).1.raster.elapsed = s.1.raster.elapsed + n := by
  have hrendering := rendering_ticking s n
  rw [hdark] at hrendering
  rw [elapsed_run hs (reset_not_mem_ticking n), dots_ticking, leftOut_of_dark hrendering,
    Nat.add_zero]

theorem finishes_ticking {n : Nat} (frames : Nat)
    (hn : s.1.raster.elapsed + n = frames * 89342 + 82182) :
    finishes (run s (ticking n)) .tick = true := by
  have hat := hs.run (ticking n)
  have helapsed := elapsed_ticking hs hdark n
  have hlt := Raster.number_lt hat
  rw [hn, Raster.elapsed] at helapsed
  rw [finishes_eq, Raster.blankingBegins_eq hat]
  exact decide_eq_true (by omega)

/-- **A period of nothing but dots**, without rendering. -/
theorem period_of_dark (hfirst : finishes s .tick = true) : Period s (ticking 89341) := by
  have hs' := hs.after .tick
  have hdark' : (after s .tick).1.mask.rendering = false :=
    (congrArg Mask.rendering (mask_ticking s 1)).trans hdark
  have hraster : (after s .tick).1.raster.elapsed = s.1.raster.elapsed + 1 :=
    elapsed_ticking hs hdark 1
  have hbegin : s.1.raster.elapsed = s.1.raster.frames * 89342 + 82182 := by
    rw [Raster.elapsed, number_of_finishes hfirst]
  refine ⟨hfirst, ?_, finishes_ticking hs' hdark' (s.1.raster.frames + 1) (by omega),
    reset_not_mem_ticking _⟩
  have hpassed := passed_run hs' (n := 82182) (by decide) (reset_not_mem_ticking 89341)
  rw [Raster.passed, Raster.passed, elapsed_ticking hs' hdark', hraster, hbegin] at hpassed
  rw [pictures_eq_visits hs']
  omega

end Dark

/-- A new unit left to its clock finishes its first picture in its 82524th dot, and the next after
89342 more. -/
theorem first_period (mem : μ) : Period (run ({}, mem) (ticking 82523)) (ticking 89341) := by
  have hs := inFrame_start mem
  have hoff : Mask.rendering {} = false := by decide
  have hdark := mask_ticking ({}, mem) 82523
  have hfirst : finishes (run ({}, mem) (ticking 82523)) .tick = true :=
    finishes_ticking hs hoff 1 (congrArg (· + 82523) Raster.elapsed_start)
  exact period_of_dark (hs.run _) (by rw [hdark]; exact hoff) hfirst

theorem regular_first_period :
    (.reset : Operation Answers) ∉ ticking 82523 ∧
      Regular (run ({}, (⟨fun _ => 0⟩ : Answers)) (ticking 82523)) (ticking 89341) := by
  have hreset : (.reset : Operation Answers) ∉ ticking 82523 := reset_not_mem_ticking 82523
  obtain ⟨-, -, -, hregular, -⟩ := pictures_of_new_unit (⟨fun _ => 0⟩ : Answers) hreset
  exact ⟨hreset, hregular _ (first_period _)⟩

end Ppu
end Famicom
