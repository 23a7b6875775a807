/-
# Counting lines

A program that wants an interrupt at a line of the picture keeps backgrounds in one pattern table
and sprites in the other, so that the watched line goes from one level to the other and back once in
a line.  The counter counts a rise if the line was low at three accesses before it.

**Sprites above.**  While the picture is drawn every access is low, and the first pattern of a
sprite, at dot 261, is a rise.  From then on the sprites' fetches alternate, two accesses low and
two high, and none of their rises counts.  So the counter is clocked **once in a line, at dot 261**,
and 241 times in a frame (`clocked_once_in_a_line`).

**Backgrounds above.**  It is the sprites' fetches that are low now, and the first pattern of the
next line's tiles, at dot 325, is a rise.  But three more accesses are low where two lines meet: the
first of a tile that is never fetched to its end (337), and the two that nothing uses (338 and 340);
and a line begins without the first access of its own tile, with one of colours (3).  So dot 5 is
a rise that counts as well, and **the counter is clocked twice from one line to the next**
(`clocked_twice_in_a_line`); without the last dot of an odd frame's rehearsal line it is the same.
-/
import Famicom.Proofs.Scanlines.Levels

namespace Famicom

open ScanlineCounter Ppu

/-! ## 1. Along a line -/

section Dots

variable {background sprite : Bool} {dot run : Nat}

theorem dotLevels_tile (h : 2 ≤ dot ∧ dot ≤ 256 ∨ 321 ≤ dot ∧ dot ≤ 337) :
    dotLevels background sprite dot = fetchLevels background ((dot - 1) % 8) := by
  rw [dotLevels, if_pos ((fetchesTile_iff dot).mpr (by omega)), if_neg (by omega), List.append_nil]

theorem dotLevels_sprite (h : 258 ≤ dot ∧ dot ≤ 320) :
    dotLevels background sprite dot = fetchLevels sprite ((dot - 1) % 8) := by
  rw [dotLevels, if_neg (by rw [fetchesTile_iff]; omega), if_neg (by omega), if_pos (by omega),
    List.nil_append]

theorem dotLevels_extra (h : dot = 338 ∨ dot = 340) :
    dotLevels background sprite dot = [false] := by
  rw [dotLevels, if_neg (by rw [fetchesTile_iff]; omega), if_pos h, if_neg (by omega),
    List.append_nil]

theorem dotLevels_none (h : dot ≤ 1 ∨ dot = 339 ∨ 341 ≤ dot) :
    dotLevels background sprite dot = [] := by
  rw [dotLevels, if_neg (by rw [fetchesTile_iff]; omega), if_neg (by omega), if_neg (by omega),
    List.append_nil]

/-- A fetch from the lower table is never counted, and every second dot makes the line low for
longer. -/
theorem fetch_low (dot run : Nat) :
    risesAlong run (fetchLevels false ((dot - 1) % 8)) = 0 ∧
      (fetchLevels false ((dot - 1) % 8)).foldl runAfter run =
        run + (1 - (dot - 1) % 8 % 2) := by
  have hp : (dot - 1) % 8 < 8 := Nat.mod_lt _ (by decide)
  generalize (dot - 1) % 8 = phase at hp
  interval_cases phase <;> exact ⟨rfl, rfl⟩

/-- A high level is counted after three low ones. -/
theorem counts_high (run : Nat) : counts run true = decide (3 ≤ run) := Bool.true_and _

/-- A fetch from the upper table takes the line down twice and up twice. -/
theorem fetch_high (run : Nat) {phase : Nat} (hp : phase < 8) :
    risesAlong run (fetchLevels true phase) =
        (if (phase = 4 ∨ phase = 6) ∧ 3 ≤ run then 1 else 0) ∧
      (fetchLevels true phase).foldl runAfter run =
        if phase = 0 ∨ phase = 2 then run + 1 else if phase = 4 ∨ phase = 6 then 0 else run := by
  have hrise : risesAlong run [true] = if 3 ≤ run then 1 else 0 := by
    rw [risesAlong, counts_high]
    split
    · next h => rw [decide_eq_true h]; rfl
    · next h => rw [decide_eq_false h]; rfl
  match phase, hp with
  | 4, _ | 6, _ => exact ⟨by simp [fetchLevels, hrise], rfl⟩
  | 0, _ | 1, _ | 2, _ | 3, _ | 5, _ | 7, _ => exact ⟨rfl, rfl⟩
  | n + 8, h => omega

/-- In the middle of fetches from the upper table the line has been low at two accesses at most. -/
def Interleaved (dot run : Nat) : Prop :=
  2 * run ≤ (dot - 1) % 8 + 1 ∧ (5 ≤ (dot - 1) % 8 → run = 0)

/-- **Among fetches from the upper table nothing is counted.** -/
theorem Interleaved.fetch (h : Interleaved dot run) (hd : 1 ≤ dot) :
    risesAlong run (fetchLevels true ((dot - 1) % 8)) = 0 ∧
      Interleaved (dot + 1) ((fetchLevels true ((dot - 1) % 8)).foldl runAfter run) := by
  obtain ⟨hlow, hzero⟩ := h
  obtain ⟨hrises, hrun⟩ := fetch_high run (Nat.mod_lt (dot - 1) (by decide : 0 < 8))
  rw [hrises, hrun, Interleaved]
  refine ⟨if_neg (by omega), ?_⟩
  split
  · omega
  · split <;> omega

end Dots

/-! ## 2. Sprites above -/

/-- **Between two dots of a line, with the sprites' patterns above**: the line is low from the first
tile on, for three accesses at least when the first sprite is fetched; and from there on it goes up
and down with each sprite. -/
structure SpritesAbove (dot run : Nat) : Prop where
  tiles : 2 ≤ dot ∧ dot ≤ 261 → min 3 ((dot - 2) / 2) ≤ run
  sprites : 262 ≤ dot ∧ dot ≤ 320 → Interleaved dot run

/-- One dot is counted, that of the first sprite's pattern. -/
theorem SpritesAbove.step {dot run : Nat} (h : SpritesAbove dot run) :
    risesAlong run (dotLevels false true dot) = (dot == 261).toNat ∧
      SpritesAbove (dot + 1) ((dotLevels false true dot).foldl runAfter run) := by
  obtain ⟨htiles, hsprites⟩ := h
  have hregion : (dot ≤ 1 ∨ dot = 339 ∨ 341 ≤ dot) ∨ (2 ≤ dot ∧ dot ≤ 256 ∨ 321 ≤ dot ∧ dot ≤ 337) ∨
      dot = 257 ∨ (258 ≤ dot ∧ dot ≤ 260) ∨ dot = 261 ∨ (262 ≤ dot ∧ dot ≤ 320) ∨
      (dot = 338 ∨ dot = 340) := by omega
  have hquiet (h : dot ≠ 261) : (dot == 261).toNat = 0 := by
    rw [beq_eq_false_iff_ne.mpr h]
    rfl
  obtain ⟨hrises, hrun⟩ := fetch_high run (Nat.mod_lt (dot - 1) (by decide : 0 < 8))
  rcases hregion with hd | hd | rfl | hd | rfl | hd | hd
  · rw [dotLevels_none hd, hquiet (by omega)]
    exact ⟨rfl, by omega, by omega⟩
  · -- Tiles are fetched from below: every second dot is low, and none is counted.
    obtain ⟨hnone, hlow⟩ := fetch_low dot run
    rw [dotLevels_tile hd, hnone, hlow, hquiet (by omega)]
    exact ⟨rfl, by omega, by omega⟩
  · -- Both the tile after the last and the first sprite are asked for at this dot.
    have hrun' : (dotLevels false true 257).foldl runAfter run = run + 2 := rfl
    rw [hrun']
    exact ⟨rfl, by omega, by omega⟩
  · rw [dotLevels_sprite (by omega), hrises, hrun, hquiet (by omega), if_neg (by omega)]
    split
    · exact ⟨rfl, by omega, by omega⟩
    · rw [if_neg (by omega)]
      exact ⟨rfl, by omega, by omega⟩
  · have hlow : 3 ≤ run := by omega
    rw [dotLevels_sprite (by omega), hrises, hrun, if_pos ⟨.inl rfl, hlow⟩]
    exact ⟨rfl, by omega, fun _ => ⟨Nat.zero_le _, fun _ => rfl⟩⟩
  · obtain ⟨hnone, hnext⟩ := (hsprites hd).fetch (by omega)
    rw [dotLevels_sprite (by omega), hnone, hquiet (by omega)]
    exact ⟨rfl, by omega, fun _ => hnext⟩
  · rw [dotLevels_extra hd, hquiet (by omega)]
    exact ⟨rfl, by omega, by omega⟩

/-- On the lines on which the unit works, dot 261 is counted. -/
def countedSprites (r : Raster) : Bool := r.fetches && r.dot == 261

theorem timetable_spritesAbove :
    Timetable (isHigh 0x0000) (isHigh 0x1000) countedSprites
      fun r run => r.fetches = true → SpritesAbove r.dot run where
  drawing r run hl hI := by
    obtain ⟨hrises, hnext⟩ := (hI hl).step
    refine ⟨hrises.trans (by rw [countedSprites, hl, Bool.true_and]), fun _ => ?_⟩
    obtain hsame | ⟨-, hzero⟩ := r.next_cases
    · rw [hsame]
      exact hnext
    · rw [hzero]
      exact ⟨by omega, by omega⟩
  blank r run hl _ := by
    refine ⟨by rw [countedSprites, hl, Bool.false_and], fun hnext => ?_⟩
    obtain hsame | ⟨-, hzero⟩ := r.next_cases
    · rw [hsame] at hnext
      exact absurd hnext (by rw [Bool.not_eq_true]; exact hl)
    · rw [hzero]
      exact ⟨by omega, by omega⟩

/-- A line that is worked on has one dot that is counted. -/
theorem countedSprites_line {r : Raster} (hd : r.dot = 0) :
    ((r.rasters r.lineDots).filter countedSprites).map Raster.place =
      if r.fetches then [(r.line, 261)] else [] := by
  have hfilter : (List.range' 0 r.lineDots).filter (fun d => d == 261) = [261] := by
    obtain h | h := r.lineDots_eq <;> rw [h] <;> decide
  have hplaces := Raster.places_within (r := r) (n := r.lineDots) (by omega) (fun d => d == 261)
  rw [hd, hfilter] at hplaces
  exact hplaces

/-- Dots of a frame while the unit draws. -/
def frameDots (odd : Bool) : Nat := 341 * 261 + rehearsalDots odd

/-- The lines of the picture have it one after the other, and those of blanking have none. -/
theorem countedSprites_lines (odd : Bool) (frames : Nat) :
    ∀ k, k ≤ 261 → (⟨0, 0, odd, frames⟩ : Raster).later (341 * k) = ⟨k, 0, odd, frames⟩ ∧
      (((⟨0, 0, odd, frames⟩ : Raster).rasters (341 * k)).filter countedSprites).map Raster.place =
        (List.range (min k 240)).map fun line => (line, 261)
  | 0, _ => ⟨rfl, rfl⟩
  | k + 1, hk => by
    obtain ⟨hlater, hplaces⟩ := countedSprites_lines odd frames k (by omega)
    have hdots : (⟨k, 0, odd, frames⟩ : Raster).lineDots = 341 := by
      rw [Raster.lineDots, if_neg]
      rw [Raster.isPreRender_iff]
      exact (by omega : k ≠ 261)
    have hnext : (⟨k, 0, odd, frames⟩ : Raster).later 341 = ⟨k + 1, 0, odd, frames⟩ := by
      rw [← hdots, Raster.later_lineDots rfl, Raster.nextLine]
      exact if_pos (by change k + 1 < 262; omega)
    have hline := countedSprites_line (r := ⟨k, 0, odd, frames⟩) rfl
    rw [hdots] at hline
    rw [Nat.mul_succ, Raster.later_add, Raster.rasters_add, hlater, List.filter_append,
      List.map_append, hplaces, hnext, hline]
    refine ⟨rfl, ?_⟩
    by_cases h240 : k < 240
    · have hl : (⟨k, 0, odd, frames⟩ : Raster).fetches = true :=
        (Raster.fetches_iff _).mpr (.inl h240)
      rw [if_pos hl, Nat.min_eq_left (by omega), Nat.min_eq_left (by omega), List.range_succ,
        List.map_append]
      rfl
    · have hl : ¬(⟨k, 0, odd, frames⟩ : Raster).fetches = true := by
        rw [Raster.fetches_iff]
        exact (by omega : ¬(k < 240 ∨ k = 261))
      rw [if_neg hl, List.append_nil, Nat.min_eq_right (by omega), Nat.min_eq_right (by omega)]

/-- **A frame has 241 of them**, one on each line of the picture and one on the rehearsal line. -/
theorem countedSprites_frame {r : Raster} (hline : r.line = 0) (hd : r.dot = 0) :
    ((r.rasters (frameDots r.odd)).filter countedSprites).map Raster.place =
      (List.range 240 ++ [261]).map fun line => (line, 261) := by
  obtain ⟨line, dot, odd, frames⟩ := r
  obtain rfl : line = 0 := hline
  obtain rfl : dot = 0 := hd
  obtain ⟨hlater, hplaces⟩ := countedSprites_lines odd frames 261 (Nat.le_refl _)
  have hlast := countedSprites_line (r := ⟨261, 0, odd, frames⟩) rfl
  have hdots : (⟨261, 0, odd, frames⟩ : Raster).lineDots = rehearsalDots odd := rfl
  rw [hdots] at hlast
  rw [frameDots, Raster.rasters_add, hlater, List.filter_append, List.map_append, hplaces, hlast,
    List.map_append]
  rfl

namespace Mainboard

/-- **With sprites above, lines are counted.**  From the start of a line, a run in which the layout is
in force and the data port is left alone clocks the counter once if it lasts for a line on which the
unit works, and it does so at dot 261.  If it lasts for a frame, every line of the picture has one
clock and so has the rehearsal line, which makes 241.  It does not matter how long the watched line
had been low before, what the memories hold, or what else happens between the dots. -/
theorem clocked_once_in_a_line {m : Mainboard} {es : List Activity}
    (hchip : m.video.counter?.isSome = true) (hstart : m.ppu.raster.dot = 0)
    (hsteady : Along (Steady 0x0000 0x1000) m es) :
    (m.ppu.raster.fetches = true → es.count .dot = m.ppu.raster.lineDots →
        m.clockPlaces es = [(m.ppu.raster.line, 261)]) ∧
      (m.ppu.raster.line = 0 → es.count .dot = frameDots m.ppu.raster.odd →
        m.clockPlaces es = ((List.range 240 ++ [261]).map fun line => (line, 261)) ∧
          (m.clockPlaces es).length = 241) := by
  obtain ⟨run, hrun⟩ := m.video.lowRun?_of_chip hchip
  have hI : m.ppu.raster.fetches = true → SpritesAbove m.ppu.raster.dot run := fun _ => by
    rw [hstart]
    exact ⟨by omega, by omega⟩
  obtain ⟨-, hplaces⟩ := timetable_spritesAbove.run hrun hI hsteady
  refine ⟨fun hl hdots => ?_, fun hline hdots => ?_⟩
  · rw [hplaces, hdots, countedSprites_line hstart, if_pos hl]
  · rw [hplaces, hdots, countedSprites_frame hline hstart]
    exact ⟨rfl, by simp⟩

/-- An MMC3 in the slot, and the picture unit drawing at some place of the raster. -/
def drawing (control : UInt8) (raster : Raster) : Mainboard where
  ppu := { control := ⟨control⟩, mask := ⟨0x18⟩, raster }
  video :=
    { slot := some
        { header :=
            { isVersion2 := false, mapper := 4, prgRom := 0x8000, chrRom := 0x2000, prgRam := 0x2000,
              mirroring := .vertical, battery := false, trainer := false, pal := false }
          board :=
            .mmc3 (.ofImages (Chip.blank 0x8000) (Chip.blank 0x2000) false 0x2000) .vertical } }

theorem layout_drawing (control : UInt8) (raster : Raster)
    (hsmall : (⟨control⟩ : Control).spriteHeight = 8) :
    Layout (⟨control⟩ : Control).backgroundTable (⟨control⟩ : Control).spriteTable
      (drawing control raster).ppu where
  rendering := (rfl : (⟨0x18⟩ : Mask).rendering = true)
  small := hsmall
  background := rfl
  sprite := rfl

/-- On the short rehearsal line of an odd frame, after a program has set the latch; and in a frame
that ends with it. -/
theorem clocked_once_in_a_line_rehearsal :
    (drawing 0x08 { line := 261, odd := true }).clockPlaces
        (.access (.write 0xC000 7) :: List.replicate 340 .dot) = [(261, 261)] ∧
    ((drawing 0x08 { line := 0, odd := true }).clockPlaces (List.replicate 89341 .dot)).length =
      241 := by
  have hlayout (raster : Raster) : Layout 0x0000 0x1000 (drawing 0x08 raster).ppu :=
    layout_drawing 0x08 raster rfl
  have hdevice : device 0xC000 = .cartridge := by decide
  have hline : Along (Steady 0x0000 0x1000) (drawing 0x08 { line := 261, odd := true })
      (.access (.write 0xC000 7) :: List.replicate 340 .dot) := by
    refine ⟨⟨fun hport => ?_, nofun⟩, steady_dots ?_ 340⟩
    · exact Device.noConfusion (hdevice.symm.trans hport.1)
    · have hppu := write_ppu (m := drawing 0x08 { line := 261, odd := true }) (v := 7)
        (by rw [hdevice]; nofun)
      rw [after, BusCycle.after]
      exact hppu ▸ hlayout _
  have hframe : Along (Steady 0x0000 0x1000) (drawing 0x08 { line := 0, odd := true })
      (List.replicate 89341 .dot) := steady_dots (hlayout _) 89341
  refine ⟨(clocked_once_in_a_line rfl rfl hline).1 rfl ?_,
    ((clocked_once_in_a_line rfl rfl hframe).2 rfl ?_).2⟩
  · rw [List.count_cons_of_ne (by decide), List.count_replicate_self]
    rfl
  · rw [List.count_replicate_self]
    exact (by decide : 89341 = frameDots true)

end Mainboard

/-! ## 3. Backgrounds above -/

/-- **Between two dots of a line, with the background's patterns above**: where two lines meet the
line gets low, for three accesses when the pattern of its third tile is fetched; it goes up and down
with the tiles; and the sprites' fetches leave it low again. -/
structure BackgroundsAbove (dot run : Nat) : Prop where
  meeting : dot ≤ 3 ∨ 339 ≤ dot → 2 ≤ run
  first : dot = 4 ∨ dot = 5 → 3 ≤ run
  tiles : 6 ≤ dot ∧ dot ≤ 257 ∨ 326 ≤ dot ∧ dot ≤ 337 → Interleaved dot run
  sprites : 300 ≤ dot ∧ dot ≤ 325 → min 3 ((dot - 300) / 2) ≤ run
  last : dot = 338 → 1 ≤ run

/-- Two dots are counted, of which one fetches for the next line and one for the present. -/
theorem BackgroundsAbove.step {dot run : Nat} (h : BackgroundsAbove dot run) :
    risesAlong run (dotLevels true false dot) = (dot == 5 || dot == 325).toNat ∧
      BackgroundsAbove (dot + 1) ((dotLevels true false dot).foldl runAfter run) := by
  obtain ⟨hmeeting, hfirst, htiles, hsprites, hlast⟩ := h
  have hregion : (dot ≤ 1 ∨ dot = 339 ∨ 341 ≤ dot) ∨ (2 ≤ dot ∧ dot ≤ 4 ∨ 321 ≤ dot ∧ dot ≤ 324) ∨
      (dot = 5 ∨ dot = 325) ∨ (6 ≤ dot ∧ dot ≤ 256 ∨ 326 ≤ dot ∧ dot ≤ 336) ∨ dot = 257 ∨
      (258 ≤ dot ∧ dot ≤ 320) ∨ (dot = 337 ∨ dot = 338 ∨ dot = 340) := by omega
  have hquiet (h : dot ≠ 5 ∧ dot ≠ 325) : (dot == 5 || dot == 325).toNat = 0 := by
    rw [beq_eq_false_iff_ne.mpr h.1, beq_eq_false_iff_ne.mpr h.2]
    rfl
  obtain ⟨hrises, hrun⟩ := fetch_high run (Nat.mod_lt (dot - 1) (by decide : 0 < 8))
  rcases hregion with hd | hd | hd | hd | rfl | hd | hd
  · rw [dotLevels_none hd, hquiet (by omega)]
    exact ⟨rfl, fun _ => hmeeting (by omega), by omega, by omega, by omega, by omega⟩
  · -- The first half of a tile that comes after low accesses, at either end of the line.
    rw [dotLevels_tile (by omega), hrises, hrun, hquiet (by omega), if_neg (by omega)]
    refine ⟨rfl, ?_⟩
    split
    · exact ⟨by omega, by omega, by omega, by omega, by omega⟩
    · rw [if_neg (by omega)]
      exact ⟨by omega, by omega, by omega, by omega, by omega⟩
  · -- Its second half, from above.
    have hlow : 3 ≤ run := by omega
    have hcounted : (dot == 5 || dot == 325).toNat = 1 := by
      obtain rfl | rfl := hd <;> rfl
    rw [dotLevels_tile (by omega), hrises, hrun, hcounted, if_pos (by omega), if_neg (by omega),
      if_pos (by omega)]
    exact ⟨rfl, by omega, by omega, fun _ => ⟨Nat.zero_le _, fun _ => rfl⟩, by omega, by omega⟩
  · obtain ⟨hnone, hnext⟩ := (htiles (by omega)).fetch (by omega)
    rw [dotLevels_tile (by omega), hnone, hquiet (by omega)]
    exact ⟨rfl, by omega, by omega, fun _ => hnext, by omega, by omega⟩
  · exact ⟨rfl, by omega, by omega, by omega, by omega, by omega⟩
  · obtain ⟨hnone, hlow⟩ := fetch_low dot run
    rw [dotLevels_sprite hd, hnone, hlow, hquiet (by omega)]
    exact ⟨rfl, by omega, by omega, by omega, by omega, by omega⟩
  · have hlevels : dotLevels true false dot = [false] := by
      obtain rfl | h := hd
      · rfl
      · exact dotLevels_extra h
    rw [hlevels, hquiet (by omega)]
    refine ⟨rfl, ?_⟩
    change BackgroundsAbove (dot + 1) (run + 1)
    exact ⟨by omega, by omega, by omega, by omega, by omega⟩

/-- A line may begin as soon as the watched line was low at two accesses. -/
theorem backgroundsAbove_zero {run : Nat} (h : 2 ≤ run) : BackgroundsAbove 0 run :=
  ⟨fun _ => h, by omega, by omega, by omega, by omega⟩

/-- On the lines on which the unit works, dots 5 and 325 are counted. -/
def countedBackgrounds (r : Raster) : Bool := r.fetches && (r.dot == 5 || r.dot == 325)

/-- From line to line the watched line stays low, also across the lines of blanking. -/
theorem timetable_backgroundsAbove :
    Timetable (isHigh 0x1000) (isHigh 0x0000) countedBackgrounds fun r run =>
      (r.fetches = true → BackgroundsAbove r.dot run) ∧ (r.fetches = false → 2 ≤ run) where
  drawing r run hl hI := by
    obtain ⟨hrises, hnext⟩ := (hI.1 hl).step
    refine ⟨hrises.trans (by rw [countedBackgrounds, hl, Bool.true_and]), ?_⟩
    obtain hsame | ⟨hlate, hzero⟩ := r.next_cases
    · rw [hsame]
      exact ⟨fun _ => hnext, fun hn => absurd (hl.symm.trans hn) (by decide)⟩
    · have hlow := hnext.meeting (by omega)
      rw [hzero]
      exact ⟨fun _ => backgroundsAbove_zero hlow, fun _ => hlow⟩
  blank r run hl hI := by
    refine ⟨by rw [countedBackgrounds, hl, Bool.false_and], fun hnext => ?_, fun _ => hI.2 hl⟩
    obtain hsame | ⟨-, hzero⟩ := r.next_cases
    · rw [hsame] at hnext
      exact absurd (hl.symm.trans hnext) (by decide)
    · rw [hzero]
      exact backgroundsAbove_zero (hI.2 hl)

/-- From dot 300 of a line to dot 300 of the next, two dots are counted. -/
theorem countedBackgrounds_line {r : Raster} (hl : r.fetches = true)
    (hnext : r.nextLine.fetches = true) (hd : r.dot = 300) :
    ((r.rasters r.lineDots).filter countedBackgrounds).map Raster.place =
      [(r.line, 325), (r.nextLine.line, 5)] := by
  have hdots := r.lineDots_eq
  have hrest : r.lineDots = (r.lineDots - 300) + 300 := by omega
  have hlater : r.later (r.lineDots - 300) = r.nextLine := by
    rw [← hd]
    exact Raster.later_line (by omega)
  have hzero : r.nextLine.dot = 0 := by
    unfold Raster.nextLine
    split <;> rfl
  have hfilter : (List.range' 300 (r.lineDots - 300)).filter (fun d => d == 5 || d == 325) =
      [325] := by
    obtain h | h := hdots <;> rw [h] <;> decide
  have hnextDots := r.nextLine.lineDots_eq
  have hhere := Raster.places_within (r := r) (n := r.lineDots - 300) (by omega)
    (fun d => d == 5 || d == 325)
  have hthere := Raster.places_within (r := r.nextLine) (n := 300) (by omega)
    (fun d => d == 5 || d == 325)
  have hfirst : (List.range' 0 300).filter (fun d => d == 5 || d == 325) = [5] := by decide
  rw [hd, hfilter, if_pos hl] at hhere
  rw [hzero, hfirst, if_pos hnext] at hthere
  rw [hrest, Raster.rasters_add, hlater, List.filter_append, List.map_append]
  exact congrArg₂ (· ++ ·) hhere hthere

namespace Mainboard

/-- **With backgrounds above, the counter is clocked twice from line to line.**  From dot 300 of a
line to dot 300 of the next, both of them lines on which the unit works, a run in which the layout
is in force and the data port is left alone clocks the counter at dot 325, by the first pattern of
the next line, and again at dot 5 of that line, by its third. -/
theorem clocked_twice_in_a_line {m : Mainboard} {es : List Activity}
    (hchip : m.video.counter?.isSome = true) (hstart : m.ppu.raster.dot = 300)
    (hl : m.ppu.raster.fetches = true) (hnext : m.ppu.raster.nextLine.fetches = true)
    (hsteady : Along (Steady 0x1000 0x0000) m es) (hdots : es.count .dot = m.ppu.raster.lineDots) :
    m.clockPlaces es = [(m.ppu.raster.line, 325), (m.ppu.raster.nextLine.line, 5)] := by
  obtain ⟨run, hrun⟩ := m.video.lowRun?_of_chip hchip
  have hI : (m.ppu.raster.fetches = true → BackgroundsAbove m.ppu.raster.dot run) ∧
      (m.ppu.raster.fetches = false → 2 ≤ run) := by
    rw [hl, hstart]
    exact ⟨fun _ => ⟨by omega, by omega, by omega, by omega, by omega⟩, nofun⟩
  obtain ⟨-, hplaces⟩ := timetable_backgroundsAbove.run hrun hI hsteady
  rw [hplaces, hdots, countedBackgrounds_line hl hnext hstart]

/-- From line 10 to line 11. -/
theorem clocked_twice_in_a_line_ten :
    (drawing 0x10 { line := 10, dot := 300 }).clockPlaces (List.replicate 341 .dot) =
      [(10, 325), (11, 5)] :=
  clocked_twice_in_a_line rfl rfl rfl rfl (steady_dots (layout_drawing 0x10 _ rfl) 341)
    List.count_replicate_self

/-- With backgrounds above the counter does not count lines. -/
theorem not_clocked_once_in_a_line :
    ¬((drawing 0x10 { line := 10, dot := 300 }).clockPlaces (List.replicate 341 .dot)).length = 1 := by
  have hrun : (drawing 0x10 { line := 10, dot := 300 }).video.lowRun? = some 0 := rfl
  have hI : BackgroundsAbove 300 0 := ⟨by omega, by omega, by omega, by omega, by omega⟩
  obtain ⟨-, hplaces⟩ := timetable_backgroundsAbove.run hrun ⟨fun _ => hI, nofun⟩
    (steady_dots (layout_drawing 0x10 _ rfl) 341)
  rw [List.count_replicate_self] at hplaces
  have hline : ((Raster.rasters 341 { line := 10, dot := 300 }).filter countedBackgrounds).map
      Raster.place = [(10, 325), (11, 5)] := countedBackgrounds_line rfl rfl rfl
  rw [hplaces]
  exact fun h => absurd ((congrArg List.length hline).symm.trans h) (by decide)

end Mainboard

end Famicom
