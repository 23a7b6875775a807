/-
# A dot, part by part

While the unit renders, a dot does its work on the position, on the background and on the sprites,
and then composes a pixel.  Each part reads little of the rest, and **none of them touches what a
program sets**: the control and mask bytes, the scroll, palettes and sprite memory.

* `movedPosition`, `Background.part` and `Sprites.part` say what a dot does to each of the three,
  as functions of that part, and `composing_eq` that together they are the dot.
* `composing` is the unit at the moment a pixel is composed, and `dot_eq` says what is left of the
  dot then: the pixel, the report of blanking, and the step of the raster.
-/
import Famicom.Proofs.Ppu.SteadyMemory
import Mathlib.Tactic.IntervalCases

namespace Famicom

/-! ## 1. The position -/

namespace VramAddress

/-- What a dot of fetching a tile does to the position: the last of the eight steps to the right. -/
def stepped (v : VramAddress) (phase : Nat) : VramAddress :=
  if phase = 7 then v.incrementX else v

/-- What a dot does to the position besides. -/
def relocated (v : VramAddress) (dot : Nat) (isPreRender : Bool) (t : VramAddress) : VramAddress :=
  if dot = 256 then v.incrementY
  else if dot = 257 then v.copyHorizontal t
  else if 280 ≤ dot ∧ dot ≤ 304 ∧ isPreRender then v.copyVertical t
  else v

end VramAddress

namespace Ppu

theorem fetchesTile_iff (dot : Nat) :
    fetchesTile dot = true ↔ 2 ≤ dot ∧ dot ≤ 257 ∨ 321 ≤ dot ∧ dot ≤ 337 := by
  simp only [fetchesTile, Bool.or_eq_true, Bool.and_eq_true, decide_eq_true_eq]

/-- What a dot does to the position. -/
def movedPosition (v : VramAddress) (dot : Nat) (isPreRender : Bool) (t : VramAddress) :
    VramAddress :=
  (if fetchesTile dot then v.stepped ((dot - 1) % 8) else v).relocated dot isPreRender t

/-! ## 2. The background -/

variable (f : UInt16 → UInt8)

namespace Background

/-- The number of the tile at a position has arrived. -/
def withTile (v : VramAddress) (b : Background) : Background :=
  { b with latch := { b.latch with tile := f v.tileAddress } }

/-- What a dot of fetching a tile does to the background. -/
def fetched (table : UInt16) (phase : Nat) (v : VramAddress) (b : Background) : Background :=
  match phase with
  | 0 => b.load.withTile f v
  | 2 =>
    let palette := (f v.attributeAddress >>> .ofNat v.attributeShift) &&& 0x03
    { b with latch := { b.latch with palette } }
  | 4 => { b with latch := { b.latch with low := f (b.patternAddress table v.line) } }
  | 6 => { b with latch := { b.latch with high := f (b.patternAddress table v.line + 8) } }
  | _ => b

/-- What a dot does to the background, where the background is shown or not. -/
def part (table : UInt16) (shown : Bool) (dot : Nat) (v : VramAddress) (b : Background) :
    Background :=
  if fetchesTile dot then (if shown then b.shift else b).fetched f table ((dot - 1) % 8) v
  else if dot = 338 ∨ dot = 340 then b.withTile f v
  else b

end Background

/-! ## 3. The sprites -/

namespace Sprites

/-- What a dot of the search does. -/
def searched (oam : Memory 256) (line height dot : Nat) (s : Sprites) : Sprites :=
  if dot % 2 = 1 then s.look oam else (s.act line height).1

/-- What a dot of fetching sprites does. -/
def fetched (control : Control) (line offset : Nat) (s : Sprites) : Sprites :=
  let slot := Fin.ofNat 8 (offset / 8)
  match offset % 8 with
  | 0 => if slot = 0 then s.adopt else s
  | 4 => s.loadLow slot (f (s.patternAddress control line slot))
  | 6 => s.loadHigh slot (f (s.patternAddress control line slot + 8))
  | _ => s

/-- What a dot does to the sprites, before the units move. -/
def part (control : Control) (oam : Memory 256) (line dot : Nat) (s : Sprites) : Sprites :=
  if dot = 0 then s
  else if dot = 1 then { s with search := {} }
  else if dot ≤ 64 then if dot % 2 = 0 then s.clear dot else s
  else if dot ≤ 256 then
    if line < height then s.searched oam line control.spriteHeight dot else s
  else if dot ≤ 320 then s.fetched f control line (dot - 257)
  else s

/-- What a dot does to the units, where sprites are shown. -/
def moved (shown : Bool) (dot : Nat) (s : Sprites) : Sprites :=
  if shown ∧ 2 ≤ dot ∧ dot ≤ 257 then s.step else s

end Sprites

/-! ## 4. The parts together -/

variable {f}

theorem tileDot_eq (p : Ppu) :
    p.tileDot (⟨f⟩ : Answers) =
      ({ p with
          background :=
            p.background.fetched f p.control.backgroundTable ((p.raster.dot - 1) % 8) p.v
          v := p.v.stepped ((p.raster.dot - 1) % 8) }, ⟨f⟩) := by
  have hp : (p.raster.dot - 1) % 8 < 8 := Nat.mod_lt _ (by decide)
  unfold tileDot
  generalize (p.raster.dot - 1) % 8 = phase at hp
  interval_cases phase <;> rfl

theorem positionDot_eq (p : Ppu) :
    p.positionDot (⟨f⟩ : Answers) =
      ({ p with
          background :=
            if p.raster.dot = 338 ∨ p.raster.dot = 340 then p.background.withTile f p.v
            else p.background
          v := p.v.relocated p.raster.dot p.raster.isPreRender p.t }, ⟨f⟩) := by
  unfold positionDot VramAddress.relocated
  simp only [Bool.and_eq_true, Bool.or_eq_true, decide_eq_true_eq, and_assoc]
  by_cases h256 : p.raster.dot = 256
  · have hn : ¬(p.raster.dot = 338 ∨ p.raster.dot = 340) := by omega
    rw [if_pos h256, if_pos h256, if_neg hn]
  by_cases h257 : p.raster.dot = 257
  · have hn : ¬(p.raster.dot = 338 ∨ p.raster.dot = 340) := by omega
    rw [if_neg h256, if_neg h256, if_pos h257, if_pos h257, if_neg hn]
  rw [if_neg h256, if_neg h256, if_neg h257, if_neg h257]
  by_cases h338 : p.raster.dot = 338 ∨ p.raster.dot = 340
  · have hn : ¬(280 ≤ p.raster.dot ∧ p.raster.dot ≤ 304 ∧ p.raster.isPreRender) := by omega
    rw [if_pos h338, if_pos h338, if_neg hn]
    rfl
  · rw [if_neg h338, if_neg h338]
    split <;> rfl

theorem backgroundDot_eq (p : Ppu) :
    p.backgroundDot (⟨f⟩ : Answers) =
      ({ p with
          background := p.background.part f p.control.backgroundTable p.mask.background
            p.raster.dot p.v
          v := movedPosition p.v p.raster.dot p.raster.isPreRender p.t }, ⟨f⟩) := by
  unfold backgroundDot Background.part movedPosition
  by_cases h : fetchesTile p.raster.dot
  · have hn : ¬(p.raster.dot = 338 ∨ p.raster.dot = 340) := by
      rw [fetchesTile_iff] at h
      omega
    simp only [h, if_true]
    rw [tileDot_eq]
    simp only
    rw [positionDot_eq]
    cases p.mask.background <;> simp [hn]
  · simp only [h]
    exact positionDot_eq p

theorem searchDot_eq (p : Ppu) :
    ∃ status, status.hit = p.status.hit ∧
      p.searchDot =
        { p with
          status
          sprites :=
            p.sprites.searched p.oam p.raster.line p.control.spriteHeight p.raster.dot } := by
  unfold searchDot Sprites.searched
  by_cases h : p.raster.dot % 2 = 1
  · refine ⟨p.status, rfl, ?_⟩
    rw [if_pos h, if_pos h]
  · refine ⟨{ p.status with
      overflow := p.status.overflow || (p.sprites.act p.raster.line p.control.spriteHeight).2 },
      rfl, ?_⟩
    rw [if_neg h, if_neg h]

theorem spriteFetchDot_eq (p : Ppu) :
    p.spriteFetchDot (⟨f⟩ : Answers) =
      ({ p with
          oamAddress := 0
          sprites := p.sprites.fetched f p.control p.raster.line (p.raster.dot - 257) },
        ⟨f⟩) := by
  have hp : (p.raster.dot - 257) % 8 < 8 := Nat.mod_lt _ (by decide)
  unfold spriteFetchDot Sprites.fetched
  dsimp only
  generalize (p.raster.dot - 257) % 8 = phase at hp
  interval_cases phase
  · by_cases h : Fin.ofNat 8 ((p.raster.dot - 257) / 8) = 0
    · simp only [h, if_true]
      rfl
    · simp only [h, if_false]
      rfl
  all_goals rfl

/-- What a dot of the sprites does to the sprites; besides these it reaches only the place in
sprite memory and the report of a ninth sprite. -/
theorem spriteDot_eq (p : Ppu) :
    ∃ oamAddress status, status.hit = p.status.hit ∧
      p.spriteDot (⟨f⟩ : Answers) =
        ({ p with
            oamAddress
            status
            sprites := p.sprites.part f p.control p.oam p.raster.line p.raster.dot }, ⟨f⟩) := by
  unfold spriteDot Sprites.part
  dsimp only
  by_cases h0 : p.raster.dot = 0
  · refine ⟨p.oamAddress, p.status, rfl, ?_⟩
    rw [if_pos h0, if_pos h0]
  by_cases h1 : p.raster.dot = 1
  · refine ⟨p.oamAddress, p.status, rfl, ?_⟩
    rw [if_neg h0, if_neg h0, if_pos h1, if_pos h1]
  rw [if_neg h0, if_neg h0, if_neg h1, if_neg h1]
  by_cases h64 : p.raster.dot ≤ 64
  · refine ⟨p.oamAddress, p.status, rfl, ?_⟩
    rw [if_pos h64, if_pos h64]
    split <;> rfl
  rw [if_neg h64, if_neg h64]
  by_cases h256 : p.raster.dot ≤ 256
  · rw [if_pos h256, if_pos h256]
    by_cases hv : p.raster.line < height
    · obtain ⟨status, hs, he⟩ := searchDot_eq p
      refine ⟨p.oamAddress, status, hs, ?_⟩
      rw [if_pos (show p.raster.isVisible = true from decide_eq_true hv), if_pos hv, he]
    · refine ⟨p.oamAddress, p.status, rfl, ?_⟩
      rw [if_neg (by simpa [Raster.isVisible] using hv), if_neg hv]
  rw [if_neg h256, if_neg h256]
  by_cases h320 : p.raster.dot ≤ 320
  · refine ⟨0, p.status, rfl, ?_⟩
    rw [if_pos h320, if_pos h320, spriteFetchDot_eq]
  · refine ⟨p.oamAddress, p.status, rfl, ?_⟩
    rw [if_neg h320, if_neg h320]

/-- **The working part of a dot is its three parts.** -/
theorem renderDot_eq (p : Ppu) :
    ∃ oamAddress status, status.hit = p.status.hit ∧
      p.renderDot (⟨f⟩ : Answers) =
        ({ p with
            oamAddress
            status
            v := movedPosition p.v p.raster.dot p.raster.isPreRender p.t
            background := p.background.part f p.control.backgroundTable p.mask.background
              p.raster.dot p.v
            sprites := (p.sprites.part f p.control p.oam p.raster.line p.raster.dot).moved
              p.mask.sprites p.raster.dot }, ⟨f⟩) := by
  unfold renderDot
  rw [backgroundDot_eq]
  dsimp only
  obtain ⟨oamAddress, status, hs, he⟩ := spriteDot_eq (f := f)
    { p with
      background := p.background.part f p.control.backgroundTable p.mask.background p.raster.dot p.v
      v := movedPosition p.v p.raster.dot p.raster.isPreRender p.t }
  refine ⟨oamAddress, status, hs, ?_⟩
  rw [he]
  dsimp only
  unfold Sprites.moved
  simp only [Bool.and_eq_true, decide_eq_true_eq, and_assoc]
  split <;> rfl

/-! ## 5. What no dot touches -/

/-- What a program sets. -/
structure Settings where
  control : Control
  mask : Mask
  t : VramAddress
  fineX : Fin 8
  toggle : Bool
  palette : Palette
  oam : Memory 256

/-- What a program has set. -/
def settings (p : Ppu) : Settings :=
  ⟨p.control, p.mask, p.t, p.fineX, p.toggle, p.palette, p.oam⟩

section Bus

variable {μ : Type} [AddressBus μ]

theorem tileDot_settings (p : Ppu) (mem : μ) : (p.tileDot mem).1.settings = p.settings := by
  unfold tileDot
  split <;> rfl

theorem positionDot_settings (p : Ppu) (mem : μ) :
    (p.positionDot mem).1.settings = p.settings := by
  unfold positionDot
  dsimp only
  split_ifs <;> rfl

theorem backgroundDot_settings (p : Ppu) (mem : μ) :
    (p.backgroundDot mem).1.settings = p.settings := by
  unfold backgroundDot
  dsimp only
  split
  · rw [positionDot_settings, tileDot_settings]
    split <;> rfl
  · exact positionDot_settings p mem

theorem spriteFetchDot_settings (p : Ppu) (mem : μ) :
    (p.spriteFetchDot mem).1.settings = p.settings := by
  unfold spriteFetchDot
  dsimp only
  split
  · dsimp only
    split <;> rfl
  all_goals rfl

theorem searchDot_settings (p : Ppu) : p.searchDot.settings = p.settings := by
  unfold searchDot
  split <;> rfl

theorem spriteDot_settings (p : Ppu) (mem : μ) : (p.spriteDot mem).1.settings = p.settings := by
  unfold spriteDot
  dsimp only
  split
  · rfl
  split
  · rfl
  split
  · dsimp only
    split <;> rfl
  split
  · dsimp only
    split
    · exact searchDot_settings p
    · rfl
  split
  · exact spriteFetchDot_settings p mem
  · rfl

theorem renderDot_settings (p : Ppu) (mem : μ) : (p.renderDot mem).1.settings = p.settings := by
  have h : ((p.backgroundDot mem).1.spriteDot (p.backgroundDot mem).2).1.settings = p.settings := by
    rw [spriteDot_settings, backgroundDot_settings]
  rw [← h]
  unfold renderDot
  dsimp only
  split <;> rfl

/-- **Whatever the memory, a dot changes nothing of what a program has set.** -/
theorem tick_settings (p : Ppu) (mem : μ) : (p.tick mem).1.settings = p.settings := by
  have hc : p.clearReports.settings = p.settings := by
    unfold clearReports
    split <;> rfl
  have hr : (if p.mask.rendering && p.clearReports.raster.fetches then p.clearReports.renderDot mem
      else (p.clearReports, mem)).1.settings = p.settings := by
    split
    · rw [renderDot_settings, hc]
    · exact hc
  unfold tick
  dsimp only
  generalize (if p.mask.rendering && p.clearReports.raster.fetches then
    p.clearReports.renderDot mem else (p.clearReports, mem)) = r at hr
  obtain ⟨q, mem'⟩ := r
  rw [← hr]
  unfold beginBlanking
  dsimp only
  split_ifs <;> rfl

end Bus

/-! ## 6. The pixel and the raster -/

/-- The unit as a pixel is composed: the rest of the dot is done. -/
def composing {μ : Type} [AddressBus μ] (p : Ppu) (mem : μ) : Ppu :=
  if p.mask.rendering && p.raster.fetches then (p.clearReports.renderDot mem).1
  else p.clearReports

/-- The pixel is composed alike on any steady memory. -/
theorem composing_steady {μ : Type} [AddressBus μ] {mem : μ} (h : ReadsAs f mem) (p : Ppu) :
    p.composing mem = p.composing (⟨f⟩ : Answers) := by
  obtain ⟨p', mem', hr, hs, -⟩ := renderDot_agrees h p.clearReports
  unfold composing
  rw [hr, hs]

namespace Raster

/-- True for the dots that write a pixel. -/
def writes (r : Raster) : Bool := r.isVisible && 1 ≤ r.dot && r.dot ≤ width

theorem isVisible_iff (r : Raster) : r.isVisible = true ↔ r.line < 240 := decide_eq_true_iff

theorem isPreRender_iff (r : Raster) : r.isPreRender = true ↔ r.line = 261 := beq_iff_eq

theorem writes_iff (r : Raster) :
    r.writes = true ↔ r.line < 240 ∧ 1 ≤ r.dot ∧ r.dot ≤ 256 := by
  simp only [writes, Bool.and_eq_true, isVisible_iff, decide_eq_true_eq, and_assoc]
  rfl

theorem fetches_iff (r : Raster) : r.fetches = true ↔ r.line < 240 ∨ r.line = 261 := by
  simp only [fetches, Bool.or_eq_true, isVisible_iff, isPreRender_iff]

end Raster

theorem clearReports_eq (p : Ppu) :
    p.clearReports = { p with status := p.clearReports.status } := by
  unfold clearReports
  split <;> rfl

/-- On the lines of the picture no report ends. -/
theorem clearReports_of_isVisible {p : Ppu} (h : p.raster.isVisible) : p.clearReports = p := by
  have hn : ¬(p.raster.isPreRender && p.raster.dot = 1) := by
    rw [Raster.isVisible_iff] at h
    rw [Bool.and_eq_true, Raster.isPreRender_iff]
    omega
  rw [clearReports, if_neg hn]

/-- While the unit renders, the pixel is composed after the three parts have worked. -/
theorem composing_eq {p : Ppu} (hr : p.mask.rendering) (hl : p.raster.fetches) :
    ∃ oamAddress status, status.hit = p.clearReports.status.hit ∧
      p.composing (⟨f⟩ : Answers) =
        { p with
          oamAddress
          status
          v := movedPosition p.v p.raster.dot p.raster.isPreRender p.t
          background := p.background.part f p.control.backgroundTable p.mask.background
            p.raster.dot p.v
          sprites := (p.sprites.part f p.control p.oam p.raster.line p.raster.dot).moved
            p.mask.sprites p.raster.dot } := by
  obtain ⟨oamAddress, status, hs, he⟩ := renderDot_eq (f := f) p.clearReports
  refine ⟨oamAddress, status, hs, ?_⟩
  rw [composing, if_pos (by rw [hr, hl]; rfl), he, clearReports_eq p]

/-- Composing does not reach the settings, the raster or the picture. -/
theorem composing_frame (p : Ppu) :
    (p.composing (⟨f⟩ : Answers)).settings = p.settings ∧
      (p.composing (⟨f⟩ : Answers)).raster = p.raster ∧
      (p.composing (⟨f⟩ : Answers)).frame = p.frame := by
  by_cases h : p.mask.rendering && p.raster.fetches
  · obtain ⟨hr, hl⟩ := Bool.and_eq_true_iff.mp h
    obtain ⟨oamAddress, status, -, he⟩ := composing_eq (f := f) hr hl
    rw [he]
    exact ⟨rfl, rfl, rfl⟩
  · rw [composing, if_neg h, clearReports_eq p]
    exact ⟨rfl, rfl, rfl⟩

/-- What is left of a dot once its pixel can be composed. -/
def finished (p : Ppu) : Ppu :=
  { (if p.raster.writes then p.pixelDot else p).beginBlanking with
    raster := p.raster.next p.mask.rendering }

theorem beginBlanking_raster (p : Ppu) : p.beginBlanking.raster = p.raster := by
  unfold beginBlanking
  split <;> rfl

/-- **A dot is composing and finishing.** -/
theorem dot_eq (p : Ppu) : p.dot f = (p.composing (⟨f⟩ : Answers)).finished := by
  have hm : (p.composing (⟨f⟩ : Answers)).mask = p.mask :=
    congrArg Settings.mask (composing_frame p).1
  have hw (q : Ppu) : (if q.raster.writes then q.pixelDot else q).raster = q.raster := by
    split <;> rfl
  have ht : p.dot f =
      { (if (p.composing (⟨f⟩ : Answers)).raster.writes then (p.composing (⟨f⟩ : Answers)).pixelDot
          else p.composing (⟨f⟩ : Answers)).beginBlanking with
        raster := (if (p.composing (⟨f⟩ : Answers)).raster.writes
          then (p.composing (⟨f⟩ : Answers)).pixelDot
          else p.composing (⟨f⟩ : Answers)).beginBlanking.raster.next p.mask.rendering } := by
    have hc : p.clearReports.raster = p.raster := by rw [clearReports_eq p]
    unfold dot tick composing
    dsimp only
    rw [hc]
    split
    · obtain ⟨_, _, _, he⟩ := renderDot_eq (f := f) p.clearReports
      rw [he]
      rfl
    · rfl
  rw [ht, finished, beginBlanking_raster, hw, hm]

/-! ## 7. What a dot leaves of each part -/

theorem finished_eq (p : Ppu) :
    ∃ vblank nmiRequest frameComplete, p.finished =
      { (if p.raster.writes then p.pixelDot else p) with
        status :=
          { (if p.raster.writes then p.pixelDot else p).status with vblank }
        nmiRequest
        frameComplete
        raster := p.raster.next p.mask.rendering } := by
  unfold finished
  generalize (if p.raster.writes then p.pixelDot else p) = q
  unfold beginBlanking
  split
  · exact ⟨true, q.nmiRequest || q.control.interrupts, true, rfl⟩
  · exact ⟨q.status.vblank, q.nmiRequest, q.frameComplete, rfl⟩

theorem dot_settings (p : Ppu) : (p.dot f).settings = p.settings :=
  tick_settings p (⟨f⟩ : Answers)

theorem dot_raster (p : Ppu) : (p.dot f).raster = p.raster.next p.mask.rendering := by
  obtain ⟨_, _, _, he⟩ := finished_eq (p.composing (⟨f⟩ : Answers))
  have hm : (p.composing (⟨f⟩ : Answers)).mask = p.mask :=
    congrArg Settings.mask (composing_frame p).1
  rw [dot_eq, he, ← hm, ← (composing_frame (f := f) p).2.1]

section Rendering

variable {p : Ppu} (hr : p.mask.rendering) (hl : p.raster.fetches)

include hr hl

theorem dot_v :
    (p.dot f).v = movedPosition p.v p.raster.dot p.raster.isPreRender p.t := by
  obtain ⟨_, _, _, hf⟩ := finished_eq (p.composing (⟨f⟩ : Answers))
  obtain ⟨_, _, -, hc⟩ := composing_eq (f := f) hr hl
  rw [dot_eq, hf, hc]
  split <;> rfl

theorem dot_background :
    (p.dot f).background = p.background.part f p.control.backgroundTable p.mask.background
      p.raster.dot p.v := by
  obtain ⟨_, _, _, hf⟩ := finished_eq (p.composing (⟨f⟩ : Answers))
  obtain ⟨_, _, -, hc⟩ := composing_eq (f := f) hr hl
  rw [dot_eq, hf, hc]
  split <;> rfl

theorem dot_sprites :
    (p.dot f).sprites = (p.sprites.part f p.control p.oam p.raster.line p.raster.dot).moved
      p.mask.sprites p.raster.dot := by
  obtain ⟨_, _, _, hf⟩ := finished_eq (p.composing (⟨f⟩ : Answers))
  obtain ⟨_, _, -, hc⟩ := composing_eq (f := f) hr hl
  rw [dot_eq, hf, hc]
  split <;> rfl

end Rendering

/-- Background and sprites are composed as the dot leaves them. -/
theorem composing_parts (p : Ppu) :
    (p.composing (⟨f⟩ : Answers)).background = (p.dot f).background ∧
      (p.composing (⟨f⟩ : Answers)).sprites = (p.dot f).sprites := by
  obtain ⟨_, _, _, he⟩ := finished_eq (p.composing (⟨f⟩ : Answers))
  rw [dot_eq, he]
  split <;> exact ⟨rfl, rfl⟩

end Ppu

end Famicom
