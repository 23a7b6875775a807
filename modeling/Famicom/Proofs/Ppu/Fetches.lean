/-
# What the picture unit puts on its bus

The unit reads its memory at places it has settled before the bytes arrive: **the addresses of a dot
depend on the unit alone** (`fetches`), and a dot leaves the memory as reading at them in turn would
(`tick_snd`).  That holds of every memory, so of one that keeps a log too, and the log of a dot is
these addresses (`tick_log`).

Along a line they go by eights: the number of a tile, its colours, and the two planes of its
pattern, two dots each; between lines the sprites' patterns take the place of the tiles', with two
fetches before each that nothing uses.
-/
import Famicom.Ppu.RegisterAccess
import Famicom.Proofs.Ppu.DotParts

namespace Famicom

/-- The address of an access. -/
def Access.address : Access → UInt16
  | read a _ | write a _ => a

namespace Ppu

/-! ## 1. The addresses of a dot -/

/-- The addresses of a dot of fetching a tile. -/
def tileFetches (p : Ppu) : List UInt16 :=
  match (p.raster.dot - 1) % 8 with
  | 0 => [p.v.tileAddress]
  | 2 => [p.v.attributeAddress]
  | 4 => [p.background.patternAddress p.control.backgroundTable p.v.line]
  | 6 => [p.background.patternAddress p.control.backgroundTable p.v.line + 8]
  | _ => []

/-- The addresses of a dot of the background. -/
def backgroundFetches (p : Ppu) : List UInt16 :=
  if fetchesTile p.raster.dot then p.tileFetches
  else if p.raster.dot = 338 ∨ p.raster.dot = 340 then [p.v.tileAddress]
  else []

/-- The addresses of a dot of fetching a sprite, with the background's position at `v`. -/
def spriteFetches (p : Ppu) (v : VramAddress) : List UInt16 :=
  let offset := p.raster.dot - 257
  let slot := Fin.ofNat 8 (offset / 8)
  match offset % 8 with
  | 0 | 2 => [v.tileAddress]
  | 4 => [p.sprites.patternAddress p.control p.raster.line slot]
  | 6 => [p.sprites.patternAddress p.control p.raster.line slot + 8]
  | _ => []

/-- The addresses of the background and the sprites, in a dot in which they are at work. -/
def renderFetches (p : Ppu) : List UInt16 :=
  p.backgroundFetches ++
    if 257 ≤ p.raster.dot ∧ p.raster.dot ≤ 320 then
      p.spriteFetches (movedPosition p.v p.raster.dot p.raster.isPreRender p.t)
    else []

/-- **The addresses of a dot**, in order. -/
def fetches (p : Ppu) : List UInt16 :=
  if p.mask.rendering && p.raster.fetches then p.renderFetches else []

/-! ## 2. What a dot leaves of the memory -/

section Bus

variable {μ : Type} [AddressBus μ]

theorem afterReads_append (mem : μ) (as bs : List UInt16) :
    afterReads mem (as ++ bs) = afterReads (afterReads mem as) bs := by
  induction as generalizing mem with
  | nil => rfl
  | cons a as ih => exact ih _

theorem tileDot_reads (p : Ppu) (mem : μ) :
    ∃ background, p.tileDot mem =
      ({ p with background, v := p.v.stepped ((p.raster.dot - 1) % 8) },
        afterReads mem p.tileFetches) := by
  have hp : (p.raster.dot - 1) % 8 < 8 := Nat.mod_lt _ (by decide)
  unfold tileDot tileFetches
  generalize (p.raster.dot - 1) % 8 = phase at hp
  interval_cases phase <;> exact ⟨_, rfl⟩

theorem positionDot_reads (p : Ppu) (mem : μ) :
    ∃ background, p.positionDot mem =
      ({ p with background, v := p.v.relocated p.raster.dot p.raster.isPreRender p.t },
        afterReads mem
          (if p.raster.dot = 338 ∨ p.raster.dot = 340 then [p.v.tileAddress] else [])) := by
  unfold positionDot VramAddress.relocated
  simp only [Bool.or_eq_true, Bool.and_eq_true, decide_eq_true_eq, and_assoc]
  split_ifs <;> first | exact ⟨_, rfl⟩ | omega

/-- Before the sprites' part of a dot the position has moved, and of the rest only the background
may have changed. -/
theorem backgroundDot_reads (p : Ppu) (mem : μ) :
    ∃ background, p.backgroundDot mem =
      ({ p with
          background
          v := movedPosition p.v p.raster.dot p.raster.isPreRender p.t },
        afterReads mem p.backgroundFetches) := by
  unfold backgroundDot movedPosition backgroundFetches
  by_cases h : fetchesTile p.raster.dot
  · have hn : ¬(p.raster.dot = 338 ∨ p.raster.dot = 340) := by
      rw [fetchesTile_iff] at h
      omega
    have hshift : ∃ background,
        (if p.mask.background then { p with background := p.background.shift } else p) =
          { p with background } ∧ background.latch = p.background.latch := by
      split
      · exact ⟨_, rfl, rfl⟩
      · exact ⟨_, rfl, rfl⟩
    obtain ⟨shifted, hs, hlatch⟩ := hshift
    have hfetches : ({ p with background := shifted } : Ppu).tileFetches = p.tileFetches := by
      simp only [tileFetches, Background.patternAddress, hlatch]
    obtain ⟨fetched, ht⟩ := tileDot_reads { p with background := shifted } mem
    simp only [h, if_true, hs, ht]
    obtain ⟨background, hp⟩ := positionDot_reads
      { p with background := fetched, v := p.v.stepped ((p.raster.dot - 1) % 8) }
      (afterReads mem ({ p with background := shifted } : Ppu).tileFetches)
    refine ⟨background, ?_⟩
    rw [hp, hfetches]
    simp only [hn, if_false]
    rfl
  · simp only [h]
    exact positionDot_reads p mem

theorem spriteFetchDot_snd (p : Ppu) (mem : μ) :
    (p.spriteFetchDot mem).2 = afterReads mem (p.spriteFetches p.v) := by
  have hp : (p.raster.dot - 257) % 8 < 8 := Nat.mod_lt _ (by decide)
  unfold spriteFetchDot spriteFetches
  dsimp only
  generalize (p.raster.dot - 257) % 8 = phase at hp
  interval_cases phase <;> rfl

theorem spriteDot_snd (p : Ppu) (mem : μ) :
    (p.spriteDot mem).2 =
      afterReads mem
        (if 257 ≤ p.raster.dot ∧ p.raster.dot ≤ 320 then p.spriteFetches p.v else []) := by
  by_cases hfetch : 257 ≤ p.raster.dot ∧ p.raster.dot ≤ 320
  · have h : p.spriteDot mem = p.spriteFetchDot mem := by
      unfold spriteDot
      dsimp only
      rw [if_neg (by omega), if_neg (by omega), if_neg (by omega), if_neg (by omega),
        if_pos hfetch.2]
    rw [if_pos hfetch, h, spriteFetchDot_snd]
  · rw [if_neg hfetch]
    unfold spriteDot
    dsimp only
    split_ifs <;> first | omega | rfl

theorem renderDot_snd (p : Ppu) (mem : μ) :
    (p.renderDot mem).2 = afterReads mem p.renderFetches := by
  obtain ⟨background, hb⟩ := backgroundDot_reads p mem
  have hr : (p.renderDot mem).2 =
      ((p.backgroundDot mem).1.spriteDot (p.backgroundDot mem).2).2 := by
    unfold renderDot
    dsimp only
    split <;> rfl
  rw [hr, hb, spriteDot_snd, renderFetches, afterReads_append]
  unfold spriteFetches
  dsimp only

/-- **A dot leaves the memory as reading at its addresses does**, whatever memory it is. -/
theorem tick_snd (p : Ppu) (mem : μ) : (p.tick mem).2 = afterReads mem p.fetches := by
  have hc : p.clearReports.raster = p.raster ∧
      p.clearReports.renderFetches = p.renderFetches := by
    rw [clearReports_eq p]
    refine ⟨rfl, ?_⟩
    unfold renderFetches backgroundFetches tileFetches spriteFetches
    dsimp only
  have ht : (p.tick mem).2 =
      (if p.mask.rendering && p.clearReports.raster.fetches then p.clearReports.renderDot mem
        else (p.clearReports, mem)).2 := rfl
  rw [ht, hc.1, fetches]
  split
  · rw [renderDot_snd, hc.2]
  · rfl

/-- A log grows by the addresses that are read. -/
theorem afterReads_log (r : Recorded μ) (as : List UInt16) :
    (afterReads r as).log.toList.map Access.address = r.log.toList.map Access.address ++ as := by
  induction as generalizing r with
  | nil => exact (List.append_nil _).symm
  | cons a as ih =>
    rw [afterReads, ih, Recorded.read_snd, Array.toList_push, List.map_append, List.append_assoc]
    rfl

/-- **The log of a dot** is its addresses. -/
theorem tick_log (p : Ppu) (r : Recorded μ) :
    (p.tick r).2.log.toList.map Access.address = r.log.toList.map Access.address ++ p.fetches := by
  rw [tick_snd, afterReads_log]

/-! ## 3. What a dot reaches -/

/-- Whatever the memory, a dot of the sprites reaches the sprites, the place in sprite memory and
the report of a ninth sprite. -/
theorem spriteDot_parts (p : Ppu) (mem : μ) :
    ∃ oamAddress overflow sprites,
      (p.spriteDot mem).1 =
        { p with oamAddress, sprites, status := { p.status with overflow } } := by
  have hsearch : ∃ overflow sprites,
      p.searchDot = { p with sprites, status := { p.status with overflow } } := by
    unfold searchDot
    split <;> exact ⟨_, _, rfl⟩
  have hfetch : ∃ sprites, (p.spriteFetchDot mem).1 = { p with oamAddress := 0, sprites } := by
    unfold spriteFetchDot
    dsimp only
    split
    · dsimp only
      split <;> exact ⟨_, rfl⟩
    all_goals exact ⟨_, rfl⟩
  unfold spriteDot
  dsimp only
  split
  · exact ⟨_, _, _, rfl⟩
  split
  · exact ⟨_, _, _, rfl⟩
  split
  · dsimp only
    split <;> exact ⟨_, _, _, rfl⟩
  split
  · dsimp only
    split
    · obtain ⟨_, _, h⟩ := hsearch
      exact ⟨_, _, _, h⟩
    · exact ⟨_, _, _, rfl⟩
  split
  · obtain ⟨_, h⟩ := hfetch
    exact ⟨_, _, _, h⟩
  · exact ⟨_, _, _, rfl⟩

/-- Whatever the memory, the working part of a dot reaches the sprites, the background and their
places in memory, and of the reports that of a ninth sprite. -/
theorem renderDot_parts (p : Ppu) (mem : μ) :
    ∃ oamAddress v background overflow sprites,
      (p.renderDot mem).1 =
        { p with
          oamAddress
          v
          background
          sprites
          status := { p.status with overflow } } := by
  obtain ⟨background, hb⟩ := backgroundDot_reads p mem
  obtain ⟨oamAddress, overflow, sprites, hs⟩ := spriteDot_parts (p.backgroundDot mem).1
    (p.backgroundDot mem).2
  rw [hb] at hs
  unfold renderDot
  rw [hb]
  dsimp only
  split
  · exact ⟨_, _, _, _, _, by rw [hs]⟩
  · exact ⟨_, _, _, _, _, hs⟩

/-- Composing a pixel reaches no more than the working part of a dot and the end of the reports. -/
theorem composing_reach (p : Ppu) (mem : μ) :
    ∃ oamAddress v background overflow sprites,
      p.composing mem =
        { p with
          oamAddress
          v
          background
          sprites
          status := { p.clearReports.status with overflow } } := by
  unfold composing
  split
  · obtain ⟨oamAddress, v, background, overflow, sprites, h⟩ := renderDot_parts p.clearReports mem
    exact ⟨oamAddress, v, background, overflow, sprites, by rw [h, clearReports_eq p]⟩
  · exact ⟨_, _, _, _, _, clearReports_eq p⟩

/-- **A dot is composing and finishing**, whatever the memory. -/
theorem tick_fst (p : Ppu) (mem : μ) : (p.tick mem).1 = (p.composing mem).finished := by
  obtain ⟨_, _, _, _, _, hc⟩ := composing_reach p mem
  have hmask : (p.composing mem).mask = p.mask := by rw [hc]
  have hclear : p.clearReports.raster = p.raster := by rw [clearReports_eq p]
  have hwork : (if p.mask.rendering && p.clearReports.raster.fetches then
      p.clearReports.renderDot mem else (p.clearReports, mem)).1 = p.composing mem := by
    rw [hclear, composing]
    split <;> rfl
  have hpixel (q : Ppu) : (if q.raster.writes then q.pixelDot else q).raster = q.raster := by
    split <;> rfl
  unfold tick finished
  dsimp only
  rw [hmask]
  generalize (if p.mask.rendering && p.clearReports.raster.fetches then
    p.clearReports.renderDot mem else (p.clearReports, mem)) = r at hwork
  rw [← hwork, beginBlanking_raster]
  change { beginBlanking (if r.1.raster.writes then r.1.pixelDot else r.1) with
    raster := (if r.1.raster.writes then r.1.pixelDot else r.1).raster.next p.mask.rendering } = _
  rw [hpixel]

/-- **Whatever the memory, a dot moves the beam by one.** -/
theorem tick_raster (p : Ppu) (mem : μ) :
    (p.tick mem).1.raster = p.raster.next p.mask.rendering := by
  obtain ⟨_, _, _, _, _, hc⟩ := composing_reach p mem
  rw [tick_fst, hc]
  rfl

/-! ## 4. Registers -/

/-- Reading another register than that of data does not reach the memory. -/
theorem readRegister_memory (p : Ppu) {a : UInt16} (h : a.toNat % 8 ≠ 7) (mem : μ) :
    (p.readRegister a mem).2.2 = mem := by
  unfold readRegister
  dsimp only
  split
  · rfl
  · rfl
  · exact absurd ‹_› h
  · rfl

/-- Writing another register than that of data does not reach the memory. -/
theorem writeRegister_memory (p : Ppu) {a : UInt16} (h : a.toNat % 8 ≠ 7) (v : UInt8) (mem : μ) :
    (p.writeRegister a v mem).2 = mem := by
  have hlt : a.toNat % 8 < 8 := Nat.mod_lt _ (by decide)
  unfold writeRegister
  dsimp only
  generalize a.toNat % 8 = register at h hlt
  interval_cases register <;> first | rfl | exact absurd rfl h

/-- What the unit's clock drives. -/
structure Clockwork where
  raster : Raster
  sprites : Sprites
  frame : Memory 61440
  frameComplete : Bool
  hit : Bool
  overflow : Bool

/-- The clockwork of a unit. -/
def clockwork (p : Ppu) : Clockwork :=
  ⟨p.raster, p.sprites, p.frame, p.frameComplete, p.status.hit, p.status.overflow⟩

/-- **No register reaches the clockwork.** -/
theorem readRegister_clockwork (p : Ppu) (a : UInt16) (mem : μ) :
    (p.readRegister a mem).2.1.clockwork = p.clockwork := by
  have hdata : (p.readData mem).2.1.clockwork = p.clockwork := by
    unfold readData
    dsimp only
    split <;> rfl
  unfold readRegister
  dsimp only
  split
  case h_3 => exact hdata
  all_goals rfl

theorem writeRegister_clockwork (p : Ppu) (a : UInt16) (v : UInt8) (mem : μ) :
    (p.writeRegister a v mem).1.clockwork = p.clockwork := by
  have hscroll (q : Ppu) : (q.writeScroll v).clockwork = q.clockwork := by
    unfold writeScroll
    split <;> rfl
  have haddress (q : Ppu) : (q.writeAddress v).clockwork = q.clockwork := by
    unfold writeAddress
    split <;> rfl
  have hdata (q : Ppu) : (q.writeData v mem).1.clockwork = q.clockwork := by
    unfold writeData
    dsimp only
    split <;> rfl
  unfold writeRegister
  dsimp only
  split
  case h_6 => exact hscroll _
  case h_7 => exact haddress _
  case h_8 => exact hdata _
  all_goals rfl

theorem readRegister_raster (p : Ppu) (a : UInt16) (mem : μ) :
    (p.readRegister a mem).2.1.raster = p.raster :=
  congrArg Clockwork.raster (readRegister_clockwork p a mem)

theorem writeRegister_raster (p : Ppu) (a : UInt16) (v : UInt8) (mem : μ) :
    (p.writeRegister a v mem).1.raster = p.raster :=
  congrArg Clockwork.raster (writeRegister_clockwork p a v mem)

end Bus

end Ppu

end Famicom
