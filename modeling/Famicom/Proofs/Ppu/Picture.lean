/-
# The picture is a window on the plane

A program sets a scroll during blanking, and nothing but the background is shown.  Then the picture
that follows is the plane of nametables seen through a window of 256 by 240 pixels, its top left
corner at the scroll, and the plane goes round in both directions.

* Line by line (`Drawn.step`): a line draws its row of the window and leaves the stream of the next
  line ready.
* Left alone from the rehearsal line on, the unit draws the window at the scroll it finds
  (`drawn_picture`).
* `frame_eq_plane`: **every pixel of the picture has the colour of the plane** at its column and row
  from the scroll on.
-/
import Famicom.PatternMemory
import Famicom.Proofs.Ppu.BackgroundLine
import Famicom.Proofs.Ppu.Scroll

namespace Famicom.Ppu

open Background

variable {f : UInt16 → UInt8} {σ : Settings} {S : VramAddress} {p : Ppu}

/-! ## 1. A row of the window -/

/-- Where nothing but the background is shown, its pixel decides the colour. -/
theorem composedColour_onlyBackground (hσ : p.settings.OnlyBackground) (x : Nat) :
    p.composedColour x =
      p.palette.read
        (composedCell (p.background.pixel p.fineX).1 (p.background.pixel p.fineX).2 none) := by
  have hm : p.mask = ⟨0x0A⟩ := hσ
  have hb : p.backgroundPixel x = p.background.pixel p.fineX := by
    rw [backgroundPixel, hm]
    exact if_pos (by cases decide (8 ≤ x) <;> rfl)
  have hs : p.spritePixel x = none := by
    rw [spritePixel, hm]
    rfl
  rw [composedColour, hb, hs, shade, hm]
  rfl

/-- **A column of a line** shows the plane as many pixels to the right of where the line begins. -/
theorem Scan.colour (h : Scan f σ S 16 p) {line : Nat} (hat : At line 1 p) (hl : line < 240)
    (hrow : S.row.val < 30) {x : Nat} (hx : x < 256) :
    (((dot f)^[x] p).composing (⟨f⟩ : Answers)).composedColour x =
      planeColour f σ.control.backgroundTable σ.palette ((8 * S.planeColumn + σ.fineX + x) % 512)
        S.planeLine := by
  obtain ⟨v, hstream⟩ := h.column hat hl hx
  rw [Function.iterate_succ_apply'] at hstream
  have hsettings : (((dot f)^[x] p).composing (⟨f⟩ : Answers)).settings = σ :=
    (composing_settings x).trans h.settings
  have hfine : (((dot f)^[x] p).composing (⟨f⟩ : Answers)).fineX = σ.fineX :=
    congrArg Settings.fineX hsettings
  have hpalette : (((dot f)^[x] p).composing (⟨f⟩ : Answers)).palette = σ.palette :=
    congrArg Settings.palette hsettings
  have hS := S.planeColumn_lt
  have hf := σ.fineX.isLt
  obtain ⟨hvrow, hvlower, hvline⟩ := S.tiles_vertical ((x + σ.fineX) / 8)
  have hc : Covers (S.tiles ((x + σ.fineX) / 8)) ((8 * S.planeColumn + σ.fineX + x) % 512)
      S.planeLine := by
    refine ⟨by rw [hvrow]; exact hrow, ?_, ?_⟩
    · rw [VramAddress.planeColumn_tiles]
      omega
    · rw [VramAddress.planeLine, VramAddress.planeLine, hvrow, hvlower, hvline]
  have hcolumn : (x + σ.fineX) % 8 = (8 * S.planeColumn + σ.fineX + x) % 512 % 8 := by omega
  rw [composedColour_onlyBackground (by rw [hsettings]; exact h.shown), hfine, hpalette,
    (composing_parts _).1, hstream.pixel, hcolumn]
  exact read_composedCell_tileAt hc σ.palette

/-! ## 2. Line by line -/

/-- The position at which a line begins. -/
def lineStart (σ : Settings) (y : Nat) : VramAddress := VramAddress.incrementY^[y] σ.t

theorem lineStart_succ (σ : Settings) (y : Nat) :
    lineStart σ (y + 1) = (lineStart σ y).incrementY :=
  Function.iterate_succ_apply' VramAddress.incrementY y σ.t

/-- Lines begin below one another on the plane. -/
theorem lineStart_plane (hrow : σ.t.row.val < 30) (y : Nat) :
    (lineStart σ y).row.val < 30 ∧ (lineStart σ y).planeLine = (σ.t.planeLine + y) % 480 ∧
      (lineStart σ y).column = σ.t.column ∧ (lineStart σ y).right = σ.t.right := by
  induction y with
  | zero =>
    refine ⟨hrow, ?_, rfl, rfl⟩
    rw [Nat.add_zero, Nat.mod_eq_of_lt (VramAddress.planeLine_lt hrow)]
    rfl
  | succ y ih =>
    obtain ⟨hr, hl, hc, hright⟩ := ih
    obtain ⟨hr', hl'⟩ := VramAddress.incrementY_vertical hr
    obtain ⟨hc', hright'⟩ := (lineStart σ y).incrementY_horizontal
    rw [lineStart_succ]
    refine ⟨hr', ?_, hc'.trans hc, hright'.trans hright⟩
    rw [hl', hl]
    omega

/-- The colour of a pixel of the window. -/
def windowColour (f : UInt16 → UInt8) (σ : Settings) (x y : Nat) : UInt8 :=
  planeColour f σ.control.backgroundTable σ.palette ((8 * σ.t.planeColumn + σ.fineX + x) % 512)
    ((σ.t.planeLine + y) % 480)

/-- The rows above are drawn, and the stream of the next one is ready. -/
structure Drawn (f : UInt16 → UInt8) (σ : Settings) (y : Nat) (p : Ppu) : Prop where
  beam : At y 0 p
  ready : Scan f σ (lineStart σ y) 16 p
  rows : ∀ r < y, ∀ x < 256, p.frame.read (r * 256 + x) = windowColour f σ x r

/-- **A line draws its row**, and leaves the others alone. -/
theorem Drawn.step {y : Nat} (hrow : σ.t.row.val < 30) (h : Drawn f σ y p) (hy : y < 240) :
    Drawn f σ (y + 1) ((dot f)^[341] p) := by
  obtain ⟨hr, hplane, hc, hright⟩ := lineStart_plane hrow y
  obtain ⟨hbeam, hready⟩ := h.ready.next_line h.beam hy hc hright
  refine ⟨hbeam, by rwa [lineStart_succ], fun r hry x hx => ?_⟩
  rw [frame_of_line hy h.beam (by omega)]
  by_cases hr' : r = y
  · subst hr'
    have hx' : r * 256 + x - r * 256 = x := by omega
    have hscan : Scan f σ (lineStart σ r) 16 (p.dot f) := h.ready.idle h.beam (.inl hy) (by omega)
    rw [if_pos (by omega), hx', hscan.colour (h.beam.step (by omega)) hy hr hx, hplane,
      windowColour, VramAddress.planeColumn, hc, hright]
    rfl
  · rw [if_neg (by omega)]
    exact h.rows r (by omega) x hx

theorem Drawn.run (hrow : σ.t.row.val < 30) (h : Drawn f σ 0 p) :
    ∀ {y : Nat}, y ≤ 240 → Drawn f σ y ((dot f)^[y * 341] p)
  | 0, _ => h
  | y + 1, hy => by
    have hgo : (dot f)^[(y + 1) * 341] p = (dot f)^[341] ((dot f)^[y * 341] p) := by
      rw [← Function.iterate_add_apply]
      congr 1
      omega
    rw [hgo]
    exact (h.run hrow (by omega)).step hrow (by omega)

/-- Dots from the start of the rehearsal line to the end of the picture. -/
def pictureDots (odd : Bool) : Nat := 240 * 341 + rehearsalDots odd

/-- **A picture drawn without a program's interference** is the window on the plane at the
scroll. -/
theorem drawn_picture (hσ : p.settings.OnlyBackground) (hrow : p.t.row.val < 30)
    (hat : At 261 0 p) : Drawn f p.settings 240 ((dot f)^[pictureDots p.raster.odd] p) := by
  obtain ⟨hbeam, hready⟩ := Scan.first_line (f := f) hσ rfl hat
  have h0 : Drawn f p.settings 0 ((dot f)^[rehearsalDots p.raster.odd] p) :=
    ⟨hbeam, hready, fun r hr => absurd hr (Nat.not_lt_zero r)⟩
  rw [pictureDots, Function.iterate_add_apply]
  exact h0.run hrow (Nat.le_refl 240)

/-! ## 3. The picture of a program -/

section Bus

variable {μ : Type} [AddressBus μ]

/-- **The picture is the plane from the scroll on.**  A program sets a scroll by reading the status,
writing the control byte and writing the two halves, whatever else it does in between, and leaves
the unit alone from the rehearsal line on, with the background alone shown.  Then after the last
line of the picture, in an odd frame as in an even one, each of its pixels has the colour of the
plane that many columns and rows from the scroll. -/
theorem frame_eq_plane {p q : Ppu} {mem mem' : μ} {es : List Event} {c sx sy : UInt8}
    (hes : SetsScroll c sx sy (es.filterMap Event.scrollAccess?)) (hsy : sy.toNat < 240)
    (hq : p.afterEvents mem es = (q, mem')) (hat : At 261 0 q) (hmask : q.mask = ⟨0x0A⟩)
    (hf : ReadsAs f mem') :
    At 240 0 (ticks (pictureDots q.raster.odd) q mem').1 ∧
      ∀ y < 240, ∀ x < 256,
        (ticks (pictureDots q.raster.odd) q mem').1.frame.read (y * 256 + x) =
          planeColour f (Control.backgroundTable ⟨c⟩) q.palette
            ((256 * (c.toNat % 2) + sx.toNat + x) % 512)
            ((240 * (c.toNat / 2 % 2) + sy.toNat + y) % 480) := by
  have hsx := sx.toNat_lt
  have hscroll := scroll_run es p mem
  rw [hq, scroll_of_setsScroll hes] at hscroll
  have hcontrol : q.control = ⟨c⟩ := congrArg Scroll.control hscroll
  have ht := congrArg Scroll.t hscroll
  have hfine := congrArg Scroll.fineX hscroll
  dsimp only [scroll] at ht hfine
  have hrow : q.t.row.val = sy.toNat / 8 := by
    rw [ht]
    exact Nat.mod_eq_of_lt (by omega)
  have hcolumn : 8 * q.t.planeColumn + q.fineX = 256 * (c.toNat % 2) + sx.toNat := by
    have hright : (c.toNat % 2 == 1).toNat = c.toNat % 2 := by
      rcases Nat.mod_two_eq_zero_or_one c.toNat with h | h <;> rw [h] <;> rfl
    rw [ht, hfine, VramAddress.planeColumn, hright, Fin.val_ofNat, Fin.val_ofNat]
    omega
  have hline : q.t.planeLine = 240 * (c.toNat / 2 % 2) + sy.toNat := by
    have hlower : (c.toNat / 2 % 2 == 1).toNat = c.toNat / 2 % 2 := by
      rcases Nat.mod_two_eq_zero_or_one (c.toNat / 2) with h | h <;> rw [h] <;> rfl
    rw [ht, VramAddress.planeLine, hlower, Fin.val_ofNat, Fin.val_ofNat]
    omega
  obtain ⟨hticks, -⟩ := ticks_steady (pictureDots q.raster.odd) hf q
  have hdrawn := drawn_picture (f := f) (p := q) hmask (by omega) hat
  rw [hticks]
  refine ⟨hdrawn.beam, fun y hy x hx => ?_⟩
  have hwindow := hdrawn.rows y hy x hx
  rw [windowColour] at hwindow
  dsimp only [settings] at hwindow
  rw [hwindow, hcontrol, hcolumn, hline]

end Bus

/-- The program's accesses for a scroll of (381, 94): the window goes round the plane's edge. -/
def scrollEvents : List Event :=
  [.read 0x2002, .write 0x2000 0x11, .write 0x2005 0x7D, .write 0x2005 0x5E, .write 0x2001 0x0A]

/-- A pixel beyond the plane's right edge, in an odd frame.  It lies in tile `$24`, where both planes
of the row have it, and in the third palette. -/
theorem frame_eq_plane_round_edge :
    let m : PatternMemory :=
      [(0x2188, 0x24), (0x23DA, 0x02), (0x1241, 0x04), (0x1249, 0x04)].foldl
        (fun m w => AddressBus.write w.1 w.2 m) {}
    let p : Ppu :=
      { raster := { odd := true }, palette := (({} : Palette).write 0x3F00 0x0F).write 0x3F0B 0x2A }
    let q := (p.afterEvents m scrollEvents).1
    (ticks (pictureDots true) q m).1.frame.read (3 * 256 + 200) =
        planeColour (fun a => (AddressBus.read a m).1) 0x1000 q.palette 69 97 ∧
      planeColour (fun a => (AddressBus.read a m).1) 0x1000 q.palette 69 97 = 0x2A := by
  intro m p q
  have hq : p.afterEvents m scrollEvents = (q, m) := rfl
  have hes : SetsScroll 0x11 0x7D 0x5E (scrollEvents.filterMap Event.scrollAccess?) :=
    ⟨[.status], [.scroll 0x7D, .scroll 0x5E], rfl, rfl⟩
  have hat : At 261 0 q := ⟨rfl, rfl⟩
  have hf : ReadsAs (fun a => (AddressBus.read a m).1) m := readsAs_of_read_snd fun _ => rfl
  have hodd : q.raster.odd = true := rfl
  have htable : Control.backgroundTable ⟨0x11⟩ = 0x1000 := by decide
  have hx : (256 * ((0x11 : UInt8).toNat % 2) + (0x7D : UInt8).toNat + 200) % 512 = 69 := by decide
  have hy : (240 * ((0x11 : UInt8).toNat / 2 % 2) + (0x5E : UInt8).toNat + 3) % 480 = 97 := by
    decide
  have h := (frame_eq_plane hes (by decide) hq hat rfl hf).2 3 (by decide) 200 (by decide)
  rw [hodd, htable, hx, hy] at h
  exact ⟨h, by decide +kernel⟩

end Famicom.Ppu
