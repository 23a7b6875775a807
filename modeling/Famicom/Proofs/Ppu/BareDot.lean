/-
# A dot in bare words

Around the working part of a dot lie the end of the reports, the pixel, the start of blanking and
the step of the beam.  A pixel looks at one bit of each register of the background, at the units in
use, at an entry of palette memory, and is put in its place in the picture; the beam counts dots and
lines.

`rendered` and `drawn` are the parts of a dot that have a condition, and **a dot in bare words has a
result, it is the dot of the unit, and the unit stays within its bounds** (`tick_bare`).
-/
import Famicom.Proofs.Ppu.BareSprites
import Famicom.Proofs.Ppu.Composition

namespace Famicom.Ppu

variable {μ : Type} [AddressBus μ]

/-! ## 1. The pixels -/

theorem tap_bare (register : UInt16) (fineX : Fin 8) :
    Bare.tap register (.ofNat fineX) = some (Background.tap register fineX) := by
  have hlt := fineX.isLt
  have hword : (UInt8.ofNat fineX).toNat = fineX :=
    UInt8.toNat_ofNat_of_lt' (hlt.trans (by decide))
  have hshift : (UInt8.ofNat fineX).toUInt16 = .ofNat fineX := by
    rw [← UInt16.toNat_inj, UInt8.toNat_toUInt16, hword,
      UInt16.toNat_ofNat_of_lt' (hlt.trans (by decide))]
  rw [Bare.tap, if_pos (by omega), hshift]
  rfl

/-- Two bits side by side. -/
theorem join_bits (high low : Bool) :
    (bitOf high <<< 1) ||| bitOf low = bitOf high * 2 + bitOf low := by
  cases high <;> cases low <;> rfl

theorem backgroundPixel_bare (p : Ppu) (x : Nat) :
    p.bare.backgroundPixel x = some (p.backgroundPixel x) := by
  have htap (register : UInt16) : Bare.tap register p.bare.fineX = _ := tap_bare register p.fineX
  have hmask : p.bare.mask = p.mask := rfl
  unfold Bare.backgroundPixel backgroundPixel
  rw [hmask]
  split
  · simp only [htap, Option.bind_eq_bind, Option.bind_some]
    exact congrArg some (Prod.ext (join_bits _ _) (join_bits _ _))
  · rfl

theorem spritePixel_bare {p : Ppu} (h : p.Within) (x : Nat) :
    p.bare.spritePixel x = some (p.spritePixel x) := by
  have hmask : p.bare.mask = p.mask := rfl
  unfold Bare.spritePixel spritePixel
  rw [hmask, toNat_bare_count h, if_pos h.sprites.count]
  split <;> rfl

theorem cell_eq {base : UInt16} (hbase : base.toNat ≤ 0x3F10) {palette pixel : UInt8}
    (hpalette : palette.toNat < 4) (hpixel : pixel.toNat < 4) :
    Bare.cell base palette pixel = some (base + (palette * 4 + pixel).toUInt16) := by
  have hshift : palette.toUInt16 <<< (2 : UInt16) = .ofNat (palette.toNat * 4) := by
    rw [toUInt16_eq_ofNat]
    refine shiftLeft_ofNat (s := 2) (by decide) ?_
    change palette.toNat * 4 < 65536
    omega
  rw [paletteCell_eq base hpixel hpalette, Bare.cell, hshift, toUInt16_eq_ofNat pixel,
    ← UInt16.ofNat_toNat (x := base), add16_ofNat (by omega), Option.bind_eq_bind,
    Option.bind_some, add16_ofNat (by omega), UInt16.ofNat_toNat]

theorem compose_bare {p : Ppu} (h : p.Within) (hdot : 1 ≤ p.raster.dot) :
    let x := p.raster.dot - 1
    p.bare.compose x =
      some (composedCell (p.backgroundPixel x).1 (p.backgroundPixel x).2 (p.spritePixel x),
        p.meetsAt x) := by
  intro x
  obtain ⟨hpixel, hpalette⟩ := p.backgroundPixel_lt x
  unfold Bare.compose meetsAt
  rw [backgroundPixel_bare, spritePixel_bare h]
  simp only [Option.bind_eq_bind, Option.bind_some]
  rw [cell_eq (by decide) hpalette hpixel, Option.bind_some]
  generalize p.backgroundPixel x = background
  cases p.spritePixel x with
  | none => rfl
  | some sprite =>
    obtain ⟨slot, u⟩ := sprite
    have hthird : decide (3 ≤ p.bare.dot.toNat) = decide (2 ≤ x) := by
      rw [toNat_bare_dot h.raster, decide_eq_decide]
      omega
    have hzero : p.bare.zeroInLine = p.sprites.zeroInLine := rfl
    simp only [cell_eq (show (0x3F10 : UInt16).toNat ≤ 0x3F10 by decide) u.palette_lt u.pixel_lt,
      Option.bind_some, composedCell, meets, hthird, hzero]
    cases hempty : background.1 == 0 with
    | true => simp only [bne, hempty, if_true, Bool.not_true, Bool.and_false, Bool.false_and]; rfl
    | false =>
      simp only [bne, hempty, Bool.false_eq_true, if_false, Bool.not_false, Bool.and_true]
      rfl

theorem paletteIndex_eq (a : UInt16) : Bare.paletteIndex a = Palette.cell a := by
  have hlow : (a &&& 0x1F).toNat = a.toNat % 32 := by
    rw [UInt16.toNat_and]
    exact Nat.and_two_pow_sub_one_eq_mod a.toNat 5
  have hmask : a.toNat % 32 &&& 0x03 = a.toNat % 32 % 4 := Nat.and_two_pow_sub_one_eq_mod _ 2
  unfold Bare.paletteIndex Palette.cell
  rw [hlow]
  dsimp only
  rw [hmask]

theorem colour_bare (p : Ppu) (a : UInt16) : p.bare.colour a = some (p.palette.read a) := by
  have hcell : p.bare.palette[Palette.cell a]? = some (p.palette.cells.read (Palette.cell a)) :=
    getElem?_eq_read _ (Palette.cell_lt a)
  rw [Bare.colour, paletteIndex_eq, hcell]
  rfl

/-- Sprite 0's meeting is noted in the status. -/
theorem bits_hit (s : Status) (meets : Bool) :
    { s with hit := s.hit || meets }.bits = if meets then s.bits ||| 0x40 else s.bits := by
  obtain ⟨overflow, hit, vblank⟩ := s
  cases overflow <;> cases hit <;> cases vblank <;> cases meets <;> rfl

theorem pixelDot_bare {p : Ppu} (h : p.Within) (hwrites : p.raster.writes = true) :
    p.bare.pixelDot = some p.pixelDot.bare := by
  obtain ⟨hline, hfirst, hlast⟩ := (Raster.writes_iff p.raster).mp hwrites
  have hcolumn : sub16 p.bare.dot 1 = some (.ofNat (p.raster.dot - 1)) :=
    sub16_bare_dot h.raster hfirst
  have hcompose := compose_bare h hfirst
  have hframe (c : UInt8) : put? p.bare.frame (p.raster.line * width + (p.raster.dot - 1)) c =
      some (p.frame.write (p.raster.line * 256 + (p.raster.dot - 1)) c) := by
    refine put?_eq_write p.frame ?_ c
    unfold width
    omega
  have hmask : p.bare.mask = p.mask := rfl
  have hstatus : (if p.meetsAt (p.raster.dot - 1) then p.bare.status ||| 0x40 else p.bare.status) =
      _ := (bits_hit p.status _).symm
  unfold Bare.pixelDot
  simp only [hcolumn, toNat_dot_sub h.raster, hcompose, colour_bare, toNat_bare_line h.raster,
    hframe, hmask, hstatus, Option.bind_eq_bind, Option.bind_some]
  rfl

/-! ## 2. The beam -/

theorem advance_bare {p : Ppu} (h : p.raster.InFrame) (rendering : Bool) :
    p.bare.advance rendering = some { p with raster := p.raster.next rendering }.bare := by
  have hline := h.line
  have hdot := h.dot
  have hnext : add16 p.bare.dot 1 = some (.ofNat (p.raster.dot + 1)) :=
    add16_ofNat (n := 1) (by omega)
  have hdotNat : (UInt16.ofNat (p.raster.dot + 1)).toNat = p.raster.dot + 1 :=
    UInt16.toNat_ofNat_of_lt' (show _ < 65536 by omega)
  have hdown : add16 p.bare.line 1 = some (.ofNat (p.raster.line + 1)) :=
    add16_ofNat (n := 1) (by omega)
  have hlineNat : (UInt16.ofNat (p.raster.line + 1)).toNat = p.raster.line + 1 :=
    UInt16.toNat_ofNat_of_lt' (show _ < 65536 by omega)
  have hodd : p.bare.odd = p.raster.odd := rfl
  -- The dot that is left out is recognised behind the step, as 340 and not as 339.
  have hleaps : (p.raster.line == 261 && p.raster.dot + 1 == 340 && p.raster.odd && rendering) =
      p.raster.leaps rendering := by
    have hnumber :
        (p.raster.line == 261 && p.raster.dot + 1 == 340) = (p.raster.number == 89340) := by
      rw [Bool.eq_iff_iff, Bool.and_eq_true, beq_iff_eq, beq_iff_eq, beq_iff_eq, Raster.number]
      omega
    rw [hnumber]
    rfl
  unfold Bare.advance
  simp only [hnext, hdotNat, hdown, hlineNat, hodd, toNat_bare_line h, hleaps, Option.bind_eq_bind,
    Option.bind_some]
  have hadvances := Raster.next_advances h rendering
  generalize p.raster.next rendering = after at hadvances
  cases hadvances with
  | dot hd hl =>
    rw [hl, if_neg Bool.false_ne_true, hdotNat, if_neg (by omega)]
    rfl
  | line hd hl =>
    have hleap : p.raster.leaps rendering = false := by
      rw [← hleaps, beq_false_of_ne hl.ne]
      rfl
    rw [hleap, if_neg Bool.false_ne_true, hdotNat, if_pos (by omega), if_neg (by omega)]
    rfl
  | frame hl hend =>
    have hover : 341 ≤ (if p.raster.leaps rendering then (341 : UInt16)
        else .ofNat (p.raster.dot + 1)).toNat := by
      rcases hend with hlast | hleap
      · split
        · exact le_rfl
        · rw [hdotNat, hlast]
      · rw [if_pos hleap]
        exact le_rfl
    rw [if_pos hover, if_pos (by omega)]
    rfl

/-! ## 3. The dot -/

theorem bits_none : ∀ s : Status, s.bits &&& ~~~0xE0 = ({} : Status).bits := by
  rintro ⟨overflow, hit, vblank⟩
  cases overflow <;> cases hit <;> cases vblank <;> rfl

theorem bits_vblank (s : Status) : { s with vblank := true }.bits = s.bits ||| 0x80 := by
  obtain ⟨overflow, hit, vblank⟩ := s
  cases overflow <;> cases hit <;> cases vblank <;> rfl

theorem clearReports_bare {p : Ppu} (h : p.raster.InFrame) :
    p.bare.clearReports = p.clearReports.bare := by
  have hstatus : p.bare.status &&& ~~~0xE0 = _ := bits_none p.status
  unfold Bare.clearReports clearReports
  rw [toNat_bare_line h, toNat_bare_dot h, hstatus]
  change (if p.raster.isPreRender && p.raster.dot = 1 then _ else _) = _
  split <;> rfl

theorem beginBlanking_bare {p : Ppu} (h : p.raster.InFrame) :
    p.bare.beginBlanking = p.beginBlanking.bare := by
  have hstatus : p.bare.status ||| 0x80 = _ := (bits_vblank p.status).symm
  unfold Bare.beginBlanking beginBlanking
  rw [toNat_bare_line h, toNat_bare_dot h, hstatus]
  change (if p.raster.blankingBegins then _ else _) = _
  split <;> rfl

namespace Within

variable {p : Ppu} (h : p.Within)

include h

theorem clearReports : p.clearReports.Within := by
  rw [clearReports_eq p]
  exact ⟨h.raster, h.sprites⟩

theorem beginBlanking : p.beginBlanking.Within := by
  unfold Ppu.beginBlanking
  split
  · exact ⟨h.raster, h.sprites⟩
  · exact h

theorem next (rendering : Bool) : { p with raster := p.raster.next rendering }.Within :=
  ⟨(Raster.next_advances h.raster rendering).inFrame h.raster, h.sprites⟩

end Within

/-- A dot before its pixel is drawn. -/
def rendered (p : Ppu) (rendering : Bool) (mem : μ) : Ppu × μ :=
  if rendering && p.raster.fetches then p.renderDot mem else (p, mem)

/-- A dot with its pixel. -/
def drawn (p : Ppu) : Ppu := if p.raster.writes then p.pixelDot else p

/-- The parts of a dot in their order. -/
theorem tick_eq_parts (p : Ppu) (mem : μ) :
    p.tick mem =
      let s := p.clearReports.rendered p.mask.rendering mem
      let q := s.1.drawn.beginBlanking
      ({ q with raster := q.raster.next p.mask.rendering }, s.2) := rfl

section Parts

variable {p : Ppu} (h : p.Within)

include h

theorem fetches_bare : p.bare.fetches = p.raster.fetches := by
  rw [Bare.fetches, toNat_bare_line h.raster]
  rfl

theorem rendered_bare (rendering : Bool) (mem : μ) :
    p.bare.rendered rendering mem = some (lowered (p.rendered rendering mem)) ∧
      (p.rendered rendering mem).1.Within := by
  unfold Bare.rendered rendered
  rw [fetches_bare h, renderDot_bare h]
  split
  · exact ⟨rfl, h.renderDot mem⟩
  · exact ⟨rfl, h⟩

theorem drawn_bare : p.bare.drawn = some p.drawn.bare ∧ p.drawn.Within := by
  have hwrites :
      (p.bare.line.toNat < 240 && 1 ≤ p.bare.dot.toNat && p.bare.dot.toNat ≤ width : Bool) =
        p.raster.writes := by
    rw [toNat_bare_line h.raster, toNat_bare_dot h.raster]
    rfl
  unfold Bare.drawn drawn
  rw [hwrites]
  split
  · next hpixel => exact ⟨pixelDot_bare h hpixel, h.raster, h.sprites⟩
  · exact ⟨rfl, h⟩

/-- **A dot of a unit in bare words has a result, and it is the dot of the unit.** -/
theorem tick_bare (mem : μ) :
    p.bare.tick mem = some (lowered (p.tick mem)) ∧ (p.tick mem).1.Within := by
  -- Each part needs the bounds that the parts before it keep.
  obtain ⟨hrendered, hwithin⟩ := rendered_bare h.clearReports p.mask.rendering mem
  obtain ⟨hdrawn, hwithin⟩ := drawn_bare hwithin
  have hmask : p.bare.mask = p.mask := rfl
  have hdrawn' : (lowered (p.clearReports.rendered p.mask.rendering mem)).1.drawn = _ := hdrawn
  unfold Bare.tick
  rw [clearReports_bare h.raster, hmask, hrendered, tick_eq_parts, Option.bind_eq_bind,
    Option.bind_some, hdrawn', Option.bind_eq_bind, Option.bind_some,
    beginBlanking_bare hwithin.raster, advance_bare hwithin.beginBlanking.raster]
  exact ⟨rfl, hwithin.beginBlanking.next _⟩

end Parts

end Famicom.Ppu
