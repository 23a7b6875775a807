/-
# The watched line along the raster

The scanline counter watches the line of the address bus that tells the two pattern tables apart.
While a program leaves the tables where they are and its sprites are small, **the level of that line
is a function of the dot and of nothing else** (`levels_of_layout`): nametables lie in the lower
half, patterns in the half of their table, and no tile number, scroll or sprite can carry an address
from one half into the other.

So what the counter is told in a stretch of dots is a matter of the raster.  A `Timetable` says on
which dots it is clocked, with what has to hold between two dots for that; and if one step of the
beam keeps to it, then **so does every run**, whatever else happens on the mainboard meanwhile
(`Timetable.run`).

`rasters` is where the beam is in a number of dots, and section 4 cuts it into lines.
-/
import Famicom.Proofs.Bits
import Famicom.Proofs.Ppu.BackgroundLine
import Famicom.Proofs.Ppu.PositionWord
import Famicom.Proofs.Scanlines.Activities
import Mathlib.Data.List.Iterate

namespace Famicom

open ScanlineCounter

/-! ## 1. Levels of addresses -/

namespace ScanlineCounter

theorem isHigh_ofNat {n : Nat} (h : n < 65536) :
    isHigh (.ofNat n) = decide (n / 4096 % 2 = 1) := by
  have hn : (UInt16.ofNat n).toNat = n := UInt16.toNat_ofNat_of_lt' h
  rw [Bool.eq_iff_iff, isHigh_iff, hn, decide_eq_true_iff]

theorem isHigh_low {n : Nat} (h : 0x2000 ≤ n ∧ n < 0x3000) : isHigh (.ofNat n) = false := by
  rw [isHigh_ofNat (by omega), decide_eq_false_iff_not]
  omega

end ScanlineCounter

theorem VramAddress.isHigh_tileAddress (v : VramAddress) : isHigh v.tileAddress = false := by
  have hn := v.nametable_lt
  have hrow := v.row.isLt
  have hcolumn := v.column.isLt
  exact isHigh_low (by omega)

theorem VramAddress.isHigh_attributeAddress (v : VramAddress) :
    isHigh v.attributeAddress = false := by
  have hn := v.nametable_lt
  have hrow := v.row.isLt
  have hcolumn := v.column.isLt
  exact isHigh_low (by omega)

namespace Ppu

/-- One of the two pattern tables. -/
def IsTable (table : UInt16) : Prop := table = 0x0000 ∨ table = 0x1000

/-- A pattern stays in its table. -/
theorem isHigh_pattern {table : UInt16} (h : IsTable table) {n : Nat} (hn : n < 4096) :
    isHigh (table + .ofNat n) = isHigh table := by
  obtain rfl | rfl := h
  · rw [UInt16.zero_add, isHigh_ofNat (by omega), decide_eq_false (by omega)]
    rfl
  · have hadd : (0x1000 : UInt16) + .ofNat n = .ofNat (4096 + n) := UInt16.ofNat_add 4096 n |>.symm
    rw [hadd, isHigh_ofNat (by omega), decide_eq_true (by omega)]
    rfl

/-- So do both of its planes. -/
theorem isHigh_planes {table : UInt16} (h : IsTable table) {n : Nat} (hn : n + 8 < 4096) :
    isHigh (table + .ofNat n) = isHigh table ∧ isHigh (table + .ofNat n + 8) = isHigh table := by
  have hadd : table + .ofNat n + 8 = table + .ofNat (n + 8) := by
    rw [UInt16.ofNat_add, UInt16.add_assoc]
    rfl
  exact ⟨isHigh_pattern h (by omega), by rw [hadd, isHigh_pattern h hn]⟩

theorem Control.isTable_backgroundTable (c : Control) : IsTable c.backgroundTable := by
  unfold Control.backgroundTable
  split
  · exact .inr rfl
  · exact .inl rfl

theorem Control.isTable_spriteTable (c : Control) : IsTable c.spriteTable := by
  unfold Control.spriteTable
  split
  · exact .inr rfl
  · exact .inl rfl

theorem isHigh_backgroundPattern (c : Control) (b : Background) (line : Fin 8) :
    isHigh (b.patternAddress c.backgroundTable line) = isHigh c.backgroundTable ∧
      isHigh (b.patternAddress c.backgroundTable line + 8) = isHigh c.backgroundTable := by
  have ht := b.latch.tile.toNat_lt
  have hl := line.isLt
  exact isHigh_planes c.isTable_backgroundTable (by omega)

theorem isHigh_spritePattern {c : Control} (h : c.spriteHeight = 8) (s : Sprites) (line : Nat)
    (slot : Fin 8) :
    isHigh (s.patternAddress c line slot) = isHigh c.spriteTable ∧
      isHigh (s.patternAddress c line slot + 8) = isHigh c.spriteTable := by
  have ht := (s.secondary.read (slot * 4 + 1)).toNat_lt
  obtain ⟨row, hrow, ha⟩ : ∃ row < 8, s.patternAddress c line slot =
      c.spriteTable + .ofNat ((s.secondary.read (slot * 4 + 1)).toNat * 16 + row) := by
    simp only [Sprites.patternAddress, h]
    refine ⟨_, ?_, rfl⟩
    split <;> omega
  rw [ha]
  exact isHigh_planes c.isTable_spriteTable (by omega)

/-! ## 2. Levels of dots -/

/-- The unit is drawing, with small sprites and its patterns in these tables. -/
structure Layout (backgrounds sprites : UInt16) (p : Ppu) : Prop where
  rendering : p.mask.rendering = true
  small : p.control.spriteHeight = 8
  background : p.control.backgroundTable = backgrounds
  sprite : p.control.spriteTable = sprites

/-- It is a matter of what a program has set. -/
theorem Layout.of_settings {backgrounds sprites : UInt16} {p q : Ppu}
    (h : Layout backgrounds sprites q) (hs : p.settings = q.settings) :
    Layout backgrounds sprites p := by
  have hcontrol : p.control = q.control := congrArg Settings.control hs
  have hmask : p.mask = q.mask := congrArg Settings.mask hs
  exact ⟨by rw [hmask, h.rendering], by rw [hcontrol, h.small], by rw [hcontrol, h.background],
    by rw [hcontrol, h.sprite]⟩

/-- The levels of a dot of fetching something from a table. -/
def fetchLevels (table : Bool) (phase : Nat) : List Bool :=
  match phase with
  | 0 | 2 => [false]
  | 4 | 6 => [table]
  | _ => []

/-- **The levels of a dot**, with the tables of background and sprites as given. -/
def dotLevels (background sprite : Bool) (dot : Nat) : List Bool :=
  (if fetchesTile dot then fetchLevels background ((dot - 1) % 8)
    else if dot = 338 ∨ dot = 340 then [false] else []) ++
  if 257 ≤ dot ∧ dot ≤ 320 then fetchLevels sprite ((dot - 1) % 8) else []

theorem levels_tileFetches (p : Ppu) :
    p.tileFetches.map isHigh =
      fetchLevels (isHigh p.control.backgroundTable) ((p.raster.dot - 1) % 8) := by
  have hplanes := isHigh_backgroundPattern p.control p.background p.v.line
  have hp : (p.raster.dot - 1) % 8 < 8 := Nat.mod_lt _ (by decide)
  unfold tileFetches
  generalize (p.raster.dot - 1) % 8 = phase at hp
  interval_cases phase <;> simp only [fetchLevels, List.map_cons, List.map_nil,
    VramAddress.isHigh_tileAddress, VramAddress.isHigh_attributeAddress, hplanes]

theorem levels_spriteFetches {p : Ppu} (h : p.control.spriteHeight = 8)
    (hdot : 257 ≤ p.raster.dot) (v : VramAddress) :
    (p.spriteFetches v).map isHigh =
      fetchLevels (isHigh p.control.spriteTable) ((p.raster.dot - 1) % 8) := by
  have hplanes := isHigh_spritePattern h p.sprites p.raster.line
  have hphase : (p.raster.dot - 257) % 8 = (p.raster.dot - 1) % 8 := by omega
  have hp : (p.raster.dot - 1) % 8 < 8 := Nat.mod_lt _ (by decide)
  unfold spriteFetches
  dsimp only
  rw [hphase]
  generalize (p.raster.dot - 1) % 8 = phase at hp
  interval_cases phase <;> simp only [fetchLevels, List.map_cons, List.map_nil,
    VramAddress.isHigh_tileAddress, hplanes]

/-- **In a layout the levels of a dot depend on the dot alone.** -/
theorem levels_of_layout {backgrounds sprites : UInt16} {p : Ppu} (h : Layout backgrounds sprites p)
    (hl : p.raster.fetches = true) :
    p.fetches.map isHigh = dotLevels (isHigh backgrounds) (isHigh sprites) p.raster.dot := by
  have hbackground : p.backgroundFetches.map isHigh =
      if fetchesTile p.raster.dot then
        fetchLevels (isHigh backgrounds) ((p.raster.dot - 1) % 8)
      else if p.raster.dot = 338 ∨ p.raster.dot = 340 then [false] else [] := by
    unfold backgroundFetches
    split
    · rw [levels_tileFetches, h.background]
    · split
      · rw [List.map_cons, VramAddress.isHigh_tileAddress, List.map_nil]
      · rfl
  rw [fetches, h.rendering, hl, if_pos (by rfl), renderFetches, List.map_append, hbackground,
    dotLevels]
  congr 1
  split
  · next hdot => rw [levels_spriteFetches h.small hdot.1, h.sprite]
  · rfl

/-! ## 3. Places of the beam -/

namespace Raster

/-- Where the beam is in so many dots, while the unit draws. -/
def rasters (n : Nat) (r : Raster) : List Raster := List.iterate (·.next true) r n

/-- Where the beam is after them. -/
def later (n : Nat) (r : Raster) : Raster := (·.next true)^[n] r

/-- Line and dot. -/
def place (r : Raster) : Nat × Nat := (r.line, r.dot)

theorem rasters_add (m n : Nat) (r : Raster) :
    r.rasters (m + n) = r.rasters m ++ (r.later m).rasters n := List.iterate_add _ r m n

theorem later_add (m n : Nat) (r : Raster) : r.later (m + n) = (r.later m).later n := by
  rw [later, Nat.add_comm, Function.iterate_add_apply]
  rfl

/-- Where nothing is fetched, it does not matter whether anything is shown. -/
theorem next_of_not_fetches {r : Raster} (h : r.fetches = false) (rendering : Bool) :
    r.next rendering = r.next true := by
  have hn : r.isPreRender = false := (Bool.or_eq_false_iff.mp h).2
  simp only [next, hn, Bool.false_and]

/-- Dots of a line while the unit draws. -/
def lineDots (r : Raster) : Nat := if r.isPreRender then rehearsalDots r.odd else 341

/-- The start of the next line. -/
def nextLine (r : Raster) : Raster :=
  if r.line + 1 < linesPerFrame then { r with line := r.line + 1, dot := 0 }
  else { line := 0, dot := 0, odd := !r.odd, frames := r.frames + 1 }

/-- The beam goes along a line and then to the next. -/
theorem next_eq (r : Raster) :
    r.next true = if r.dot + 1 < r.lineDots then { r with dot := r.dot + 1 } else r.nextLine := by
  have hdots : r.lineDots = (if r.isPreRender && r.odd && true then 339 else 340) + 1 := by
    unfold lineDots rehearsalDots
    cases r.isPreRender <;> cases r.odd <;> rfl
  unfold next nextLine
  simp only [hdots, Nat.add_lt_add_iff_right]

theorem lineDots_eq (r : Raster) : r.lineDots = 340 ∨ r.lineDots = 341 := by
  unfold lineDots rehearsalDots
  split
  · split
    · exact .inl rfl
    · exact .inr rfl
  · exact .inr rfl

/-- A line ends after dot 339 or 340, and the next one begins with dot 0. -/
theorem next_cases (r : Raster) :
    r.next true = { r with dot := r.dot + 1 } ∨ 339 ≤ r.dot ∧ (r.next true).dot = 0 := by
  rw [next_eq]
  split
  · exact .inl rfl
  · refine .inr ⟨?_, ?_⟩
    · have := r.lineDots_eq
      omega
    · unfold nextLine
      split <;> rfl

theorem later_within {r : Raster} : ∀ {n : Nat}, r.dot + n < r.lineDots →
    r.later n = { r with dot := r.dot + n }
  | 0, _ => rfl
  | n + 1, h => by
    have hn : r.dot + n < r.lineDots := by omega
    rw [later, Function.iterate_succ_apply', ← later, later_within hn, next_eq]
    exact if_pos h

/-- After what is left of a line the next one begins. -/
theorem later_line {r : Raster} (h : r.dot < r.lineDots) :
    r.later (r.lineDots - r.dot) = r.nextLine := by
  obtain ⟨n, hn⟩ : ∃ n, r.lineDots - r.dot = n + 1 := ⟨r.lineDots - r.dot - 1, by omega⟩
  rw [hn, later, Function.iterate_succ_apply', ← later, later_within (by omega), next_eq]
  exact if_neg (show ¬r.dot + n + 1 < r.lineDots by omega)

/-- From its start, after all of it. -/
theorem later_lineDots {r : Raster} (hd : r.dot = 0) : r.later r.lineDots = r.nextLine := by
  have hpos : r.dot < r.lineDots := by
    have := r.lineDots_eq
    omega
  rw [← later_line hpos, hd, Nat.sub_zero]

/-- Along a line the beam does one dot after the other. -/
theorem rasters_within {r : Raster} {n : Nat} (h : r.dot + n ≤ r.lineDots) :
    r.rasters n = (List.range' r.dot n).map fun d => { r with dot := d } := by
  refine List.ext_getElem ?_ fun i hi _ => ?_
  · simp [rasters]
  · have hin : i < n := by simpa [rasters] using hi
    have hlater := later_within (r := r) (n := i) (by omega)
    simp only [rasters, List.getElem_iterate, List.getElem_map, List.getElem_range', Nat.one_mul]
    exact hlater

/-- Those of its dots that meet a condition, on a line on which the unit works. -/
theorem places_within {r : Raster} {n : Nat} (h : r.dot + n ≤ r.lineDots) (met : Nat → Bool) :
    ((r.rasters n).filter fun s => s.fetches && met s.dot).map place =
      if r.fetches then ((List.range' r.dot n).filter met).map fun d => (r.line, d) else [] := by
  have hmet : (fun s : Raster => s.fetches && met s.dot) ∘ (fun d => { r with dot := d }) =
      fun d => r.fetches && met d := rfl
  rw [rasters_within h, List.filter_map, hmet, List.map_map]
  cases r.fetches with
  | true => rfl
  | false =>
    simp only [Bool.false_and, List.filter_false]
    rfl

end Raster

end Ppu

/-! ## 4. Timetables -/

open Ppu

namespace Mainboard

/-- A program leaves the data port alone, and whenever the unit does a dot of a line on which it
works, the layout is in force. -/
def Steady (backgrounds sprites : UInt16) (m : Mainboard) (e : Activity) : Prop :=
  ¬m.UsesDataPort e ∧
    (e = .dot → m.ppu.raster.fetches = true → Layout backgrounds sprites m.ppu)

/-- **A layout stays in force** while nobody but the picture unit is at work. -/
theorem steady_dots {backgrounds sprites : UInt16} {m : Mainboard}
    (h : Layout backgrounds sprites m.ppu) (n : Nat) :
    Along (Steady backgrounds sprites) m (List.replicate n .dot) := by
  induction n generalizing m with
  | zero => trivial
  | succ n ih =>
    have hsettings : (m.after .dot).ppu.settings = m.ppu.settings := by
      rw [after_dot_eq]
      exact tick_settings m.ppu m.video
    have hnext : Layout backgrounds sprites (m.after .dot).ppu := h.of_settings hsettings
    rw [List.replicate_succ, Along]
    exact ⟨⟨id, fun _ _ => h⟩, ih hnext⟩

end Mainboard

/-- **A timetable of the scanline counter**: in a layout it is clocked once where `counted` says so
and nowhere else, as long as `I` holds between two dots, of the beam and of how long the line has
been low; and `I` is kept by every dot. -/
structure Timetable (background sprite : Bool) (counted : Raster → Bool) (I : Raster → Nat → Prop) :
    Prop where
  drawing : ∀ r run, r.fetches = true → I r run →
    risesAlong run (dotLevels background sprite r.dot) = (counted r).toNat ∧
      I (r.next true) ((dotLevels background sprite r.dot).foldl runAfter run)
  blank : ∀ r run, r.fetches = false → I r run → counted r = false ∧ I (r.next true) run

namespace Timetable

variable {backgrounds sprites : UInt16} {counted : Raster → Bool} {I : Raster → Nat → Prop}
  (h : Timetable (isHigh backgrounds) (isHigh sprites) counted I)

include h

/-- One dot keeps to the timetable. -/
theorem dot {m : Mainboard} {run : Nat} (hrun : m.video.lowRun? = some run)
    (hI : I m.ppu.raster run) (hs : m.Steady backgrounds sprites .dot) :
    m.clockings .dot = (counted m.ppu.raster).toNat ∧
      (m.after .dot).ppu.raster = m.ppu.raster.next true ∧
      ∃ run', (m.after .dot).video.lowRun? = some run' ∧ I (m.after .dot).ppu.raster run' := by
  obtain ⟨hraster, hlow⟩ := m.after_dot
  rw [hrun, Option.map_some] at hlow
  obtain ⟨c, hc, rfl⟩ := Option.map_eq_some_iff.mp hrun
  rw [Mainboard.clockings_dot hc, clockings_eq, hlow, hraster]
  cases hl : m.ppu.raster.fetches with
  | true =>
    have hlayout := hs.2 rfl hl
    obtain ⟨hcount, hnext⟩ := h.drawing _ _ hl hI
    rw [levels_of_layout hlayout hl, hlayout.rendering]
    exact ⟨hcount, rfl, _, rfl, hnext⟩
  | false =>
    have hnone : m.ppu.fetches = [] := by
      rw [fetches, hl, Bool.and_false]
      rfl
    obtain ⟨hcount, hnext⟩ := h.blank _ _ hl hI
    rw [hnone, hcount, Raster.next_of_not_fetches hl]
    exact ⟨rfl, rfl, _, rfl, hnext⟩

/-- **A run keeps to the timetable**: the counter is clocked at the places that the beam passes and
that are counted, and nothing that happens between the dots changes them. -/
theorem run : ∀ {es : List Mainboard.Activity} {m : Mainboard} {run : Nat},
    m.video.lowRun? = some run → I m.ppu.raster run →
    Mainboard.Along (Mainboard.Steady backgrounds sprites) m es →
    (m.run es).ppu.raster = m.ppu.raster.later (es.count .dot) ∧
      m.clockPlaces es =
        ((m.ppu.raster.rasters (es.count .dot)).filter counted).map Raster.place
  | [], m, _, _, _, _ => ⟨rfl, rfl⟩
  | e :: es, m, run, hrun, hI, ⟨hs, hes⟩ => by
    -- By what happens first: a dot goes by the timetable, and nothing else reaches the counter.
    by_cases he : e = .dot
    · subst he
      obtain ⟨hclock, hraster, run', hrun', hI'⟩ := h.dot hrun hI hs
      obtain ⟨hlast, hplaces⟩ := Timetable.run hrun' hI' hes
      rw [List.count_cons_self, Nat.add_comm, Raster.later_add, Raster.rasters_add]
      rw [hraster] at hlast hplaces
      have hone : List.replicate (counted m.ppu.raster).toNat m.ppu.raster.place =
          ((m.ppu.raster.rasters 1).filter counted).map Raster.place := by
        change _ = ([m.ppu.raster].filter counted).map Raster.place
        cases hc : counted m.ppu.raster
        · rw [List.filter_cons_of_neg (by rw [hc]; decide)]
          rfl
        · rw [List.filter_cons_of_pos hc]
          rfl
      rw [List.filter_append, List.map_append, ← hone, Mainboard.clockPlaces, hclock, hplaces]
      exact ⟨hlast, rfl⟩
    · obtain hquiet := Mainboard.unheard he hs.1
      rw [← hquiet.raster] at hI
      rw [← hquiet.lowRun?] at hrun
      obtain ⟨hlast, hplaces⟩ := Timetable.run hrun hI hes
      rw [hquiet.raster] at hlast hplaces
      rw [List.count_cons_of_ne he, Mainboard.clockPlaces, hquiet.clockings, hplaces]
      exact ⟨hlast, rfl⟩

end Timetable
end Famicom
