/-
# Sprites in the picture

A pixel is mixed of the background and of the sprite shown at its column.  Where one of them is
transparent the other shows, and where neither is, the sprite's priority decides (`mixedColour`).
Where both are there and the sprite is sprite 0, this is reported.

* `composedColour_eq`: what is composed is this mixture.
* `meetsAt_iff`: when sprite 0 meets the background.
* `sprites_of_line`: **the sprites of a line, from sprite memory to the picture.**  What sprite
  memory holds on one line decides which sprite the next one composes at each column, which colours
  it writes and whether it reports sprite 0.
-/
import Famicom.PatternMemory
import Famicom.Proofs.Ppu.SpriteLine

namespace Famicom.Ppu

/-! ## 1. Mixing -/

/-- A pixel of the background and its palette, nothing where the mask hides it. -/
def backgroundAt (mask : Mask) (b : Background) (fineX : Fin 8) (x : Nat) : Nat × Nat :=
  if mask.background ∧ (8 ≤ x ∨ mask.backgroundLeft) then
    ((b.pixel fineX).1.toNat, (b.pixel fineX).2.toNat)
  else (0, 0)

/-- The sprite that a column of the line after `line` shows, none where the mask hides it. -/
def visibleSprite (f : UInt16 → UInt8) (mask : Mask) (control : Control) (oam : Memory 256)
    (line x : Nat) : Option Nat :=
  if mask.sprites ∧ (8 ≤ x ∨ mask.spritesLeft) then shownSprite f control oam line x else none

/-- The palette cell of a pixel: the sprite's where the background is transparent or the sprite is
in front of it, and the backdrop where both are transparent. -/
def mixedCell : Nat × Nat → Option SpritePixel → Nat
  | (pixel, palette), some s =>
    if pixel = 0 ∨ s.isBehind = false then 0x3F10 + s.palette * 4 + s.pixel
    else 0x3F00 + palette * 4 + pixel
  | (pixel, palette), none => if pixel = 0 then 0x3F00 else 0x3F00 + palette * 4 + pixel

/-- The colour of a pixel. -/
def mixedColour (mask : Mask) (palette : Palette) (background : Nat × Nat)
    (sprite : Option SpritePixel) : UInt8 :=
  let colour := palette.read (.ofNat (mixedCell background sprite))
  if mask.greyscale then colour &&& 0x30 else colour

theorem backgroundPixel_eq (p : Ppu) (x : Nat) :
    ((p.backgroundPixel x).1.toNat, (p.backgroundPixel x).2.toNat) =
      backgroundAt p.mask p.background p.fineX x := by
  unfold backgroundPixel backgroundAt
  simp only [Bool.and_eq_true, Bool.or_eq_true, decide_eq_true_eq]
  split <;> rfl

/-- Two bits each, the pixel and the palette. -/
theorem backgroundPixel_lt (p : Ppu) (x : Nat) :
    (p.backgroundPixel x).1.toNat < 4 ∧ (p.backgroundPixel x).2.toNat < 4 := by
  unfold backgroundPixel
  split
  · exact ⟨two_planes_lt _ _, two_planes_lt _ _⟩
  · decide

theorem SpriteUnit.pixel_lt (u : SpriteUnit) : u.pixel.toNat < 4 := by
  rw [pixel, topBit, topBit, shiftRight_seven, shiftRight_seven]
  exact two_planes_lt _ _

theorem SpriteUnit.palette_lt (u : SpriteUnit) : u.palette.toNat < 4 := by
  have h3 : (0x03 : UInt8).toNat = 2 ^ 2 - 1 := rfl
  rw [palette, UInt8.toNat_and, h3, Nat.and_two_pow_sub_one_eq_mod]
  exact Nat.mod_lt _ (by decide)

theorem composedCell_eq {pixel palette : UInt8} (hpixel : pixel.toNat < 4)
    (hpalette : palette.toNat < 4) (sprite : Option (Nat × SpriteUnit)) :
    composedCell pixel palette sprite =
      .ofNat (mixedCell (pixel.toNat, palette.toNat) (sprite.map fun u => u.2.shown)) := by
  have hback := paletteCell_eq 0x3F00 hpixel hpalette
  have hzero : (pixel == 0) = decide (pixel.toNat = 0) := by
    rw [Bool.eq_iff_iff, beq_iff_eq, decide_eq_true_eq, ← UInt8.toNat_inj]
    rfl
  cases sprite with
  | none =>
    rw [composedCell, hzero, Option.map_none, mixedCell]
    by_cases h0 : pixel.toNat = 0
    · rw [if_pos (decide_eq_true h0), if_pos h0]
      rfl
    · rw [if_neg (fun h => h0 (of_decide_eq_true h)), if_neg h0]
      exact hback
  | some u =>
    have hfront := paletteCell_eq 0x3F10 u.2.pixel_lt u.2.palette_lt
    rw [composedCell, hzero, Option.map_some, mixedCell]
    by_cases h0 : pixel.toNat = 0
    · rw [if_pos (decide_eq_true h0), if_pos (.inl h0)]
      exact hfront
    · rw [if_neg (fun h => h0 (of_decide_eq_true h))]
      cases hb : u.2.isBehind with
      | false =>
        rw [if_neg Bool.false_ne_true, if_pos (.inr hb)]
        exact hfront
      | true =>
        rw [if_pos rfl, if_neg (fun h => h.elim h0 fun hf => Bool.false_ne_true (hf.symm.trans hb))]
        exact hback

/-- **What is composed is the mixture** of the background and the foremost sprite. -/
theorem composedColour_eq (p : Ppu) (x : Nat) :
    p.composedColour x =
      mixedColour p.mask p.palette (backgroundAt p.mask p.background p.fineX x)
        ((p.spritePixel x).map fun u => u.2.shown) := by
  obtain ⟨hpixel, hpalette⟩ := p.backgroundPixel_lt x
  rw [composedColour, shade, composedCell_eq hpixel hpalette, backgroundPixel_eq]
  rfl

/-- Sprite 0 meets the background where both are there, but not in the first two columns and not in
the last. -/
theorem meetsAt_iff (p : Ppu) (x : Nat) :
    p.meetsAt x = true ↔
      (∃ u, p.spritePixel x = some u ∧ u.1 = 0 ∧ p.sprites.zeroInLine = true) ∧
        (backgroundAt p.mask p.background p.fineX x).1 ≠ 0 ∧ 2 ≤ x ∧ x ≠ 255 := by
  have hback : (p.backgroundPixel x).1 ≠ 0 ↔
      (backgroundAt p.mask p.background p.fineX x).1 ≠ 0 := by
    rw [← backgroundPixel_eq, ne_eq, ← UInt8.toNat_inj]
    rfl
  rw [meetsAt, ← hback]
  cases p.spritePixel x with
  | none =>
    refine ⟨fun h => absurd h Bool.false_ne_true, ?_⟩
    rintro ⟨⟨u, hu, -⟩, -⟩
    cases hu
  | some u =>
    simp only [meets, Bool.and_eq_true, beq_iff_eq, bne_iff_ne, decide_eq_true_eq,
      Option.some_inj, exists_eq_left']
    constructor
    · rintro ⟨⟨⟨⟨hslot, hpixel⟩, hzero⟩, h2⟩, h255⟩
      exact ⟨⟨hslot, hzero⟩, hpixel, h2, h255⟩
    · rintro ⟨⟨hslot, hzero⟩, hpixel, h2, h255⟩
      exact ⟨⟨⟨⟨hslot, hpixel⟩, hzero⟩, h2⟩, h255⟩

/-! ## 2. A column of a line -/

section Column

variable {f : UInt16 → UInt8} {σ : Settings} {p : Ppu} {line : Nat}

/-- The sprite composed at a column is the one shown there. -/
theorem Ready.spritePixel {o : Output} (h : Ready f σ line o) {x : Nat} (hp : p.settings = σ)
    (hs : p.sprites.output = Output.step^[x] o) :
    ((p.spritePixel x).map fun u => u.2.shown) =
        (visibleSprite f σ.mask σ.control σ.oam line x).map (spriteAt f σ.control σ.oam line · x) ∧
      ((∃ u, p.spritePixel x = some u ∧ u.1 = 0 ∧ p.sprites.zeroInLine = true) ↔
        visibleSprite f σ.mask σ.control σ.oam line x = some 0) := by
  obtain ⟨hfront, hzero⟩ := front_at_column h hs
  have hm : p.mask = σ.mask := congrArg Settings.mask hp
  have hpixel : p.spritePixel x =
      if σ.mask.sprites ∧ (8 ≤ x ∨ σ.mask.spritesLeft) then p.sprites.front else none := by
    rw [Ppu.spritePixel, hm]
    simp only [Bool.and_eq_true, Bool.or_eq_true, decide_eq_true_eq]
  rw [hpixel, visibleSprite]
  split
  · refine ⟨hfront, ?_, fun h0 => ?_⟩
    · rintro ⟨u, hu, hand⟩
      exact (hzero u hu).mp hand
    rw [h0] at hfront
    obtain ⟨u, hu, -⟩ := Option.map_eq_some_iff.mp hfront
    exact ⟨u, hu, (hzero u hu).mpr h0⟩
  · refine ⟨rfl, ?_, fun h0 => nomatch h0⟩
    rintro ⟨u, hu, -⟩
    cases hu

/-- Sprite 0 is shown where the mask lets it, if it is in range and not transparent. -/
theorem visibleSprite_zero (hs : σ.mask.sprites = true) (x : Nat) :
    visibleSprite f σ.mask σ.control σ.oam line x = some 0 ↔
      (8 ≤ x ∨ σ.mask.spritesLeft) ∧ isInRange σ.oam line σ.control.spriteHeight 0 ∧
        spritePixelAt f σ.control σ.oam line 0 x ≠ 0 := by
  rw [visibleSprite, ← shownSprite_zero]
  by_cases h : 8 ≤ x ∨ σ.mask.spritesLeft
  · rw [if_pos ⟨hs, h⟩]
    exact (and_iff_right h).symm
  · rw [if_neg (fun hand => h hand.2)]
    constructor
    · exact fun h0 => nomatch h0
    · exact fun hand => absurd hand.1 h

variable (hs : σ.mask.sprites = true) (hp : p.settings = σ) (hl : line < 239)
  (hat : At (line + 1) 1 p) (h : Ready f σ line p.sprites.output)

include hs hp hl hat h

/-- The sprite composed at each column of the line. -/
theorem spritePixel_along_line {x : Nat} (hx : x < 256) :
    ((((dot f)^[x] p).composing (⟨f⟩ : Answers)).spritePixel x).map (fun u => u.2.shown) =
      (visibleSprite f σ.mask σ.control σ.oam line x).map
        (spriteAt f σ.control σ.oam line · x) :=
  (h.spritePixel ((composing_settings x).trans hp) (output_composing hs hp hat (by omega) hx)).1

/-- The colour composed at each column of the line. -/
theorem composedColour_along_line {x : Nat} (hx : x < 256) :
    (((dot f)^[x] p).composing (⟨f⟩ : Answers)).composedColour x =
      mixedColour σ.mask σ.palette
        (backgroundAt σ.mask (((dot f)^[x] p).composing (⟨f⟩ : Answers)).background σ.fineX x)
        ((visibleSprite f σ.mask σ.control σ.oam line x).map
          (spriteAt f σ.control σ.oam line · x)) := by
  have hsettings : (((dot f)^[x] p).composing (⟨f⟩ : Answers)).settings = σ :=
    (composing_settings x).trans hp
  have hmask : (((dot f)^[x] p).composing (⟨f⟩ : Answers)).mask = σ.mask :=
    congrArg Settings.mask hsettings
  have hpalette : (((dot f)^[x] p).composing (⟨f⟩ : Answers)).palette = σ.palette :=
    congrArg Settings.palette hsettings
  have hfine : (((dot f)^[x] p).composing (⟨f⟩ : Answers)).fineX = σ.fineX :=
    congrArg Settings.fineX hsettings
  rw [composedColour_eq, spritePixel_along_line hs hp hl hat h hx, hmask, hpalette, hfine]

/-- Where on the line sprite 0 meets the background. -/
theorem meetsAt_along_line {x : Nat} (hx : x < 256) :
    (((dot f)^[x] p).composing (⟨f⟩ : Answers)).meetsAt x = true ↔
      2 ≤ x ∧ x ≤ 254 ∧ (8 ≤ x ∨ σ.mask.spritesLeft) ∧
        isInRange σ.oam line σ.control.spriteHeight 0 ∧
        spritePixelAt f σ.control σ.oam line 0 x ≠ 0 ∧
        (backgroundAt σ.mask (((dot f)^[x] p).composing (⟨f⟩ : Answers)).background σ.fineX x).1 ≠
          0 := by
  have hsettings : (((dot f)^[x] p).composing (⟨f⟩ : Answers)).settings = σ :=
    (composing_settings x).trans hp
  have hmask : (((dot f)^[x] p).composing (⟨f⟩ : Answers)).mask = σ.mask :=
    congrArg Settings.mask hsettings
  have hfine : (((dot f)^[x] p).composing (⟨f⟩ : Answers)).fineX = σ.fineX :=
    congrArg Settings.fineX hsettings
  obtain ⟨-, hzero⟩ := h.spritePixel hsettings (output_composing hs hp hat (by omega) hx)
  rw [meetsAt_iff, hzero, visibleSprite_zero hs, hmask, hfine]
  constructor
  · rintro ⟨⟨hleft, hrange, hpixel⟩, hback, h2, h255⟩
    exact ⟨h2, by omega, hleft, hrange, hpixel, hback⟩
  · rintro ⟨h2, h254, hleft, hrange, hpixel, hback⟩
    exact ⟨⟨hleft, hrange, hpixel⟩, hback, h2, by omega⟩

end Column

/-! ## 3. The sprites of a line -/

section Bus

variable {μ : Type} [AddressBus μ] {f : UInt16 → UInt8}

/-- The unit as it composes a column of the next line, from dot 1 of a line on. -/
def composedAt (p : Ppu) (mem : μ) (x : Nat) : Ppu :=
  (ticks (341 + x) p mem).1.composing (ticks (341 + x) p mem).2

theorem composedAt_eq {mem : μ} (hf : ReadsAs f mem) (p : Ppu) (x : Nat) :
    composedAt p mem x = ((dot f)^[x] ((dot f)^[341] p)).composing (⟨f⟩ : Answers) := by
  obtain ⟨hticks, hsteady⟩ := ticks_steady (341 + x) hf p
  rw [composedAt, composing_steady hsteady, hticks, Nat.add_comm, Function.iterate_add_apply]

/-- **The sprites of a line.**  From dot 1 of a line on the unit is left alone, on any memory that
answers by the address, with sprites shown.  Then at every column of the next line

* the sprite composed is, of the first eight in range in sprite memory, the first whose pixel there
  is not transparent, and none where the mask hides sprites;
* the colour written is mixed of it and the background;
* and sprite 0 is reported after any number of columns exactly if it had been before, or it met the
  background at one of them. -/
theorem sprites_of_line {p : Ppu} {mem : μ} {line : Nat} (hf : ReadsAs f mem) (hat : At line 1 p)
    (hl : line < 239) (hs : p.mask.sprites = true) :
    (∀ x < 256, At (line + 1) (1 + x) (ticks (341 + x) p mem).1 ∧
      ((composedAt p mem x).spritePixel x).map (fun u => u.2.shown) =
        (visibleSprite f p.mask p.control p.oam line x).map
          (spriteAt f p.control p.oam line · x)) ∧
    (∀ x < 256, (ticks (341 + 256) p mem).1.frame.read ((line + 1) * 256 + x) =
      mixedColour p.mask p.palette
        (backgroundAt p.mask (composedAt p mem x).background p.fineX x)
        ((visibleSprite f p.mask p.control p.oam line x).map
          (spriteAt f p.control p.oam line · x))) ∧
    ∀ k ≤ 256, (ticks (341 + k) p mem).1.status.hit = true ↔
      (ticks 341 p mem).1.status.hit = true ∨
        ∃ x < k, 2 ≤ x ∧ x ≤ 254 ∧ (8 ≤ x ∨ p.mask.spritesLeft) ∧
          isInRange p.oam line p.control.spriteHeight 0 ∧
          spritePixelAt f p.control p.oam line 0 x ≠ 0 ∧
          (backgroundAt p.mask (composedAt p mem x).background p.fineX x).1 ≠ 0 := by
  obtain ⟨hnext, hready⟩ := ready_line (f := f) hs rfl hat hl
  have hp : ((dot f)^[341] p).settings = p.settings := dots_settings 341
  have hrun : ∀ k, (ticks (341 + k) p mem).1 = (dot f)^[k] ((dot f)^[341] p) := by
    intro k
    rw [(ticks_steady (341 + k) hf p).1, Nat.add_comm, Function.iterate_add_apply]
  refine ⟨fun x hx => ⟨?_, ?_⟩, fun x hx => ?_, fun k hk => ?_⟩
  · rw [hrun]
    exact hnext.run (by omega)
  · rw [composedAt_eq hf]
    exact spritePixel_along_line hs hp hl hnext hready hx
  · have hx' : (line + 1) * 256 + x - (line + 1) * 256 = x := by omega
    rw [composedAt_eq hf, hrun, frame_along_line (by omega) hnext (Nat.le_refl 256) (by omega),
      if_pos (by omega), hx']
    exact composedColour_along_line hs hp hl hnext hready hx
  · rw [hrun, (ticks_steady 341 hf p).1, hit_along_line (by omega) hnext hk]
    refine or_congr_right (exists_congr fun x => and_congr_right fun hx => ?_)
    rw [composedAt_eq hf]
    exact meetsAt_along_line hs hp hl hnext hready (by omega)

end Bus

/-- Sixty-four sprites on top of one another but for sprite 0, which stands further right: where
they begin sprite 1 is in front. -/
theorem sprites_of_line_in_front :
    let m : PatternMemory := { patterns := Memory.filled 8192 0xFF }
    let p : Ppu :=
      { mask := ⟨0x1E⟩
        oam := (Memory.filled 256 5).write 3 100
        raster := { line := 9, dot := 1 } }
    visibleSprite (fun a => (AddressBus.read a m).1) p.mask p.control p.oam 9 8 = some 1 ∧
      ((composedAt p m 8).spritePixel 8).map (fun u => u.2.shown) = some ⟨3, 1, false⟩ := by
  intro m p
  have hf : ReadsAs (fun a => (AddressBus.read a m).1) m := readsAs_of_read_snd fun _ => rfl
  have hat : At 9 1 p := ⟨rfl, rfl⟩
  have hvisible :
      visibleSprite (fun a => (AddressBus.read a m).1) p.mask p.control p.oam 9 8 = some 1 := by
    decide +kernel
  have hshown : spriteAt (fun a => (AddressBus.read a m).1) p.control p.oam 9 1 8 = ⟨3, 1, false⟩ :=
    by decide +kernel
  have hs : p.mask.sprites = true := by decide
  have h := ((sprites_of_line hf hat (by decide) hs).1 8 (by decide)).2
  rw [hvisible, Option.map_some, hshown] at h
  exact ⟨hvisible, h⟩

end Famicom.Ppu
