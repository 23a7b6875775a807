/-
# The beam along a line

The raster moves by one dot at a time, and on the lines of the picture each of the dots 1 to 256
writes one cell of the picture.  What is written is composed at that moment out of what background
and sprites show, so a line of the picture is 256 such moments.

* `dots_induction` carries what one dot keeps along any number of them.
* `frame_along_line`: **after the first `k` dots of a line its first `k` cells hold what was
  composed, and every other cell is as it was.**
* `hit_along_line`: the report that sprite 0 met the background is raised exactly if it had been or
  one of these dots raised it.
-/
import Famicom.Proofs.Ppu.DotParts

namespace Famicom.Ppu

variable {f : UInt16 → UInt8} {p : Ppu}

/-! ## 1. Where the beam is -/

/-- The beam is about to do a dot of a line. -/
structure At (line dot : Nat) (p : Ppu) : Prop where
  onLine : p.raster.line = line
  atDot : p.raster.dot = dot

namespace Raster

theorem next_within (r : Raster) (rendering : Bool) (h : r.dot < 339) :
    r.next rendering = { r with dot := r.dot + 1 } := by
  have hl : r.dot < if r.isPreRender && r.odd && rendering then 339 else 340 := by
    split <;> omega
  exact if_pos hl

theorem next_visible (r : Raster) (rendering : Bool) (hv : r.line < 240) :
    r.next rendering =
      if r.dot < 340 then { r with dot := r.dot + 1 }
      else { r with line := r.line + 1, dot := 0 } := by
  have hn : r.isPreRender = false := by
    rw [Bool.eq_false_iff, ne_eq, isPreRender_iff]
    omega
  have hl : r.line + 1 < linesPerFrame := by
    unfold linesPerFrame
    omega
  simp only [next, hn, Bool.false_and, Bool.false_eq_true, if_false, if_pos hl]

end Raster

/-- Within a line a dot moves the beam by one. -/
theorem At.step {line d : Nat} (h : At line d p) (hd : d < 339) : At line (d + 1) (p.dot f) := by
  obtain ⟨hl, rfl⟩ := h
  have hr : (p.dot f).raster = { p.raster with dot := p.raster.dot + 1 } := by
    rw [dot_raster, Raster.next_within _ _ hd]
  exact ⟨by rw [hr, hl], by rw [hr]⟩

theorem At.step_visible {line d : Nat} (h : At line d p) (hl : line < 240) (hd : d < 340) :
    At line (d + 1) (p.dot f) := by
  obtain ⟨rfl, rfl⟩ := h
  have hr : (p.dot f).raster = { p.raster with dot := p.raster.dot + 1 } := by
    rw [dot_raster, Raster.next_visible _ _ hl, if_pos hd]
  exact ⟨by rw [hr], by rw [hr]⟩

/-- The last dot of a line of the picture leads to the next line. -/
theorem At.step_last {line : Nat} (h : At line 340 p) (hl : line < 240) :
    At (line + 1) 0 (p.dot f) := by
  obtain ⟨rfl, hd⟩ := h
  have hr : (p.dot f).raster = { p.raster with line := p.raster.line + 1, dot := 0 } := by
    rw [dot_raster, Raster.next_visible _ _ hl, if_neg (by omega)]
  exact ⟨by rw [hr], by rw [hr]⟩

/-! ## 2. Runs -/

/-- What one dot keeps, a run of dots keeps. -/
theorem dots_induction {I : Nat → Ppu → Prop} {a b : Nat}
    (step : ∀ n q, a ≤ n → n < b → I n q → I (n + 1) (q.dot f)) (h : I a p) :
    ∀ k, a + k ≤ b → I (a + k) ((dot f)^[k] p)
  | 0, _ => h
  | k + 1, hk => by
    rw [Function.iterate_succ_apply']
    exact step (a + k) _ (by omega) (by omega) (dots_induction step h k (by omega))

theorem dots_settings (n : Nat) : ((dot f)^[n] p).settings = p.settings := by
  induction n with
  | zero => rfl
  | succ n ih => rw [Function.iterate_succ_apply', dot_settings, ih]

theorem At.run {line d n : Nat} (h : At line d p) (hn : d + n ≤ 339) :
    At line (d + n) ((dot f)^[n] p) :=
  dots_induction (I := At line) (fun _ _ _ hk h => h.step hk) h n hn

/-- Within a line the raster changes in nothing but the dot. -/
theorem raster_run : ∀ {n : Nat}, p.raster.dot + n ≤ 339 →
    ((dot f)^[n] p).raster = { p.raster with dot := p.raster.dot + n }
  | 0, _ => rfl
  | n + 1, hn => by
    rw [Function.iterate_succ_apply', dot_raster, raster_run (by omega),
      Raster.next_within _ _ (by dsimp only; omega)]
    rfl

/-! ## 3. The pixels of a line -/

/-- Four cells make a palette, and the palettes follow one another. -/
theorem paletteCell_eq (base : UInt16) {pixel palette : UInt8} (hpixel : pixel.toNat < 4)
    (hpalette : palette.toNat < 4) :
    base + (palette * 4 + pixel).toUInt16 =
      .ofNat (base.toNat + palette.toNat * 4 + pixel.toNat) := by
  have h4 : (palette * 4).toNat = palette.toNat * 4 := by
    rw [UInt8.toNat_mul]
    exact Nat.mod_eq_of_lt (by change palette.toNat * 4 < 256; omega)
  have hsum : (palette * 4 + pixel).toNat = palette.toNat * 4 + pixel.toNat := by
    rw [UInt8.toNat_add, h4]
    exact Nat.mod_eq_of_lt (by omega)
  apply UInt16.toNat_inj.mp
  rw [UInt16.toNat_add, UInt8.toNat_toUInt16, hsum, UInt16.toNat_ofNat', Nat.add_assoc]

/-- The colour composed for a column. -/
def composedColour (p : Ppu) (x : Nat) : UInt8 :=
  p.shade (composedCell (p.backgroundPixel x).1 (p.backgroundPixel x).2 (p.spritePixel x))

/-- Whether sprite 0 meets the background at a column. -/
def meetsAt (p : Ppu) (x : Nat) : Bool := p.meets x (p.backgroundPixel x).1 (p.spritePixel x)

theorem pixelDot_eq (p : Ppu) :
    p.pixelDot =
      { p with
        status := { p.status with hit := p.status.hit || p.meetsAt (p.raster.dot - 1) }
        frame := p.frame.write (p.raster.line * 256 + (p.raster.dot - 1))
          (p.composedColour (p.raster.dot - 1)) } := rfl

/-- Only a dot that writes a pixel changes the picture. -/
theorem dot_frame (p : Ppu) :
    (p.dot f).frame =
      if p.raster.writes then
        p.frame.write (p.raster.line * 256 + (p.raster.dot - 1))
          ((p.composing (⟨f⟩ : Answers)).composedColour (p.raster.dot - 1))
      else p.frame := by
  obtain ⟨_, _, _, he⟩ := finished_eq (p.composing (⟨f⟩ : Answers))
  obtain ⟨-, hraster, hframe⟩ := composing_frame (f := f) p
  rw [Ppu.dot_eq, he, hraster]
  split
  · rw [pixelDot_eq, hraster, hframe]
  · exact hframe

/-- One cell after a dot, whatever the dot. -/
theorem dot_frame_read (p : Ppu) {i : Nat} (hi : i < 61440) :
    (p.dot f).frame.read i =
      if p.raster.writes ∧ i = p.raster.line * 256 + (p.raster.dot - 1) then
        (p.composing (⟨f⟩ : Answers)).composedColour (p.raster.dot - 1)
      else p.frame.read i := by
  rw [dot_frame]
  by_cases hw : p.raster.writes
  · obtain ⟨hl, h1, hd⟩ := (Raster.writes_iff _).mp hw
    have hp : (p.raster.line * 256 + (p.raster.dot - 1)) % 61440 =
        p.raster.line * 256 + (p.raster.dot - 1) := Nat.mod_eq_of_lt (by omega)
    rw [if_pos hw, Memory.read_write, hp, Nat.mod_eq_of_lt hi]
    simp only [hw, true_and, eq_comm]
  · rw [if_neg hw, if_neg (fun h => hw h.1)]

theorem composing_hit (hv : p.raster.isVisible) :
    (p.composing (⟨f⟩ : Answers)).status.hit = p.status.hit := by
  by_cases h : p.mask.rendering && p.raster.fetches
  · obtain ⟨hr, hl⟩ := Bool.and_eq_true_iff.mp h
    obtain ⟨_, _, hs, he⟩ := composing_eq (f := f) hr hl
    rw [he, hs, clearReports_of_isVisible hv]
  · rw [composing, if_neg h, clearReports_of_isVisible hv]

/-- The report that sprite 0 met the background, after a dot on a line of the picture. -/
theorem dot_hit (p : Ppu) (hv : p.raster.isVisible) :
    (p.dot f).status.hit =
      (p.status.hit || (p.raster.writes &&
        (p.composing (⟨f⟩ : Answers)).meetsAt (p.raster.dot - 1))) := by
  obtain ⟨_, _, _, he⟩ := finished_eq (p.composing (⟨f⟩ : Answers))
  obtain ⟨-, hraster, -⟩ := composing_frame (f := f) p
  rw [Ppu.dot_eq, he, hraster, ← composing_hit hv]
  by_cases hw : p.raster.writes
  · rw [if_pos hw, pixelDot_eq, hraster, hw, Bool.true_and]
  · rw [if_neg hw, Bool.eq_false_iff.mpr hw, Bool.false_and, Bool.or_false]

/-- Neither running nor composing reaches the settings. -/
theorem composing_settings (n : Nat) :
    (((dot f)^[n] p).composing (⟨f⟩ : Answers)).settings = p.settings := by
  rw [(composing_frame _).1, dots_settings]

variable {line : Nat}

/-- **The picture after the first dots of a line.** -/
theorem frame_along_line (hl : line < 240) (h : At line 1 p) :
    ∀ {k : Nat}, k ≤ 256 → ∀ {i : Nat}, i < 61440 →
      ((dot f)^[k] p).frame.read i =
        if line * 256 ≤ i ∧ i < line * 256 + k then
          (((dot f)^[i - line * 256] p).composing (⟨f⟩ : Answers)).composedColour (i - line * 256)
        else p.frame.read i
  | 0, _, i, _ => by
    rw [if_neg (by omega)]
    rfl
  | k + 1, hk, i, hi => by
    have hat : At line (1 + k) ((dot f)^[k] p) := h.run (by omega)
    have hw : ((dot f)^[k] p).raster.writes := by
      rw [Raster.writes_iff, hat.onLine, hat.atDot]
      omega
    rw [Function.iterate_succ_apply', dot_frame_read _ hi, hat.onLine, hat.atDot,
      frame_along_line hl h (by omega) hi]
    have hx : 1 + k - 1 = k := by omega
    rw [hx]
    by_cases hik : i = line * 256 + k
    · have hs : i - line * 256 = k := by omega
      rw [if_pos ⟨hw, hik⟩, if_pos (by omega), hs]
    · rw [if_neg (fun hc => hik hc.2)]
      by_cases hlt : line * 256 ≤ i ∧ i < line * 256 + k
      · rw [if_pos hlt, if_pos (by omega)]
      · rw [if_neg hlt, if_neg (by omega)]

/-- After its pixels a line leaves the picture alone. -/
theorem frame_after_pixels (hl : line < 240) (h : At line 257 p) :
    ∀ {n : Nat}, n ≤ 84 → ((dot f)^[n] p).frame = p.frame
  | 0, _ => rfl
  | n + 1, hn => by
    have hat : At line (257 + n) ((dot f)^[n] p) :=
      dots_induction (I := At line) (fun _ _ _ hk h => h.step_visible hl hk) h n (by omega)
    have hw : ¬((dot f)^[n] p).raster.writes = true := by
      rw [Raster.writes_iff, hat.atDot]
      omega
    rw [Function.iterate_succ_apply', dot_frame, if_neg hw, frame_after_pixels hl h (by omega)]

/-- A whole line writes its own cells, and no others. -/
theorem frame_of_line (hl : line < 240) (h : At line 0 p) {i : Nat} (hi : i < 61440) :
    ((dot f)^[341] p).frame.read i =
      if line * 256 ≤ i ∧ i < line * 256 + 256 then
        (((dot f)^[i - line * 256] (p.dot f)).composing (⟨f⟩ : Answers)).composedColour
          (i - line * 256)
      else p.frame.read i := by
  have h1 : At line 1 (p.dot f) := h.step (by omega)
  have h257 : At line 257 ((dot f)^[256] (p.dot f)) := h1.run (n := 256) (by omega)
  have h0 : (p.dot f).frame = p.frame := by
    have hw : ¬p.raster.writes = true := by
      rw [Raster.writes_iff, h.atDot]
      omega
    rw [dot_frame, if_neg hw]
  have hgo : (dot f)^[341] p = (dot f)^[84] ((dot f)^[256] (p.dot f)) := by
    rw [← Function.iterate_add_apply, ← Function.iterate_succ_apply]
  rw [hgo, frame_after_pixels hl h257 (by omega), frame_along_line hl h1 (by omega) hi, h0]

/-- **The report of sprite 0 after the first dots of a line.** -/
theorem hit_along_line (hl : line < 240) (h : At line 1 p) :
    ∀ {k : Nat}, k ≤ 256 →
      (((dot f)^[k] p).status.hit = true ↔
        p.status.hit = true ∨
          ∃ x < k, (((dot f)^[x] p).composing (⟨f⟩ : Answers)).meetsAt x = true)
  | 0, _ => by simp
  | k + 1, hk => by
    have hat : At line (1 + k) ((dot f)^[k] p) := h.run (by omega)
    have hv : ((dot f)^[k] p).raster.isVisible := by
      rw [Raster.isVisible_iff, hat.onLine]
      exact hl
    have hw : ((dot f)^[k] p).raster.writes := by
      rw [Raster.writes_iff, hat.onLine, hat.atDot]
      omega
    have hx : 1 + k - 1 = k := by omega
    rw [Function.iterate_succ_apply', dot_hit _ hv, hw, hat.atDot, hx, Bool.true_and,
      Bool.or_eq_true, hit_along_line hl h (by omega), or_assoc]
    refine or_congr_right ⟨?_, ?_⟩
    · rintro (⟨x, hxk, hm⟩ | hm)
      · exact ⟨x, by omega, hm⟩
      · exact ⟨k, by omega, hm⟩
    · rintro ⟨x, hxk, hm⟩
      by_cases hxk' : x = k
      · exact .inr (hxk' ▸ hm)
      · exact .inl ⟨x, by omega, hm⟩

end Famicom.Ppu
