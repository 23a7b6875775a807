/-
# The sprites of a line

What a line shows of the sprites is decided on the line before, by what sprite memory holds then.
This file says in plain numbers what that is, and that the units draw it.

* `spritePixelAt` is the pixel of one sprite at a column: which row of its pattern it is, flipped or
  not, out of a tile or out of two, and which bit of that row.
* `shownSprite` is the sprite of a column: of the first eight in range the lowest-numbered one whose
  pixel there is not transparent.
* `ready_line`: **from one line to the next the units become ready** to draw the sprites chosen.
* `front_at_column`: **at each column the foremost unit is that of the sprite shown there**, and it
  counts as sprite 0 exactly if it is sprite 0.
-/
import Famicom.Proofs.Ppu.SpriteUnits

namespace Famicom.Ppu

/-! ## 1. What a line shows -/

section Spec

/-- Which bit of its row a sprite shows so many columns from its own: a sprite may be the other way
round. -/
def flipped (attributes : UInt8) (column : Nat) : Nat :=
  if attributes &&& 0x40 != 0 then 7 - column else column

variable (f : UInt16 → UInt8) (control : Control) (oam : Memory 256) (line : Nat)

/-- The row of its pattern that a sprite in range shows on the line after `line`. -/
def spriteRow (i : Nat) : Nat :=
  let row := line - (oam.read (i * 4)).toNat
  if oam.read (i * 4 + 2) &&& 0x80 != 0 then control.spriteHeight - 1 - row else row

/-- Where the low plane of that row lies.  A tall sprite is two tiles, one below the other, and the
lowest bit of its tile number picks the table. -/
def spriteRowAddress (i : Nat) : Nat :=
  let tile := (oam.read (i * 4 + 1)).toNat
  let row := spriteRow control oam line i
  if control.spriteHeight = 16 then
    tile % 2 * 0x1000 + (tile / 2 * 2 + row / 8) * 16 + row % 8
  else control.spriteTable.toNat + tile * 16 + row

/-- The two bits of a sprite's pixel at a column of the line after `line`; 0 is transparent, and so
is everything beside the sprite. -/
def spritePixelAt (i x : Nat) : Nat :=
  let column := x - (oam.read (i * 4 + 3)).toNat
  let bit := flipped (oam.read (i * 4 + 2)) column
  if (oam.read (i * 4 + 3)).toNat ≤ x ∧ column < 8 then
    rowBit (f (.ofNat (spriteRowAddress control oam line i + 8))) bit * 2 +
      rowBit (f (.ofNat (spriteRowAddress control oam line i))) bit
  else 0

/-- The sprite shown at a column of the line after `line`. -/
def shownSprite (x : Nat) : Option Nat :=
  (chosen oam line control.spriteHeight).find? fun i => spritePixelAt f control oam line i x != 0

/-- What composing a pixel needs of a sprite. -/
structure SpritePixel where
  pixel : Nat
  palette : Nat
  isBehind : Bool
  deriving DecidableEq, Repr

/-- A sprite at a column. -/
def spriteAt (i x : Nat) : SpritePixel where
  pixel := spritePixelAt f control oam line i x
  palette := (oam.read (i * 4 + 2) &&& 0x03).toNat
  isBehind := oam.read (i * 4 + 2) &&& 0x20 != 0

end Spec

/-- What composing a pixel takes from a unit. -/
def SpriteUnit.shown (u : SpriteUnit) : SpritePixel := ⟨u.pixel.toNat, u.palette.toNat, u.isBehind⟩

variable {f : UInt16 → UInt8} {σ : Settings} {p : Ppu} {line : Nat}

/-! ## 2. The row of a unit -/

theorem spriteHeight_eq (control : Control) :
    control.spriteHeight = 8 ∨ control.spriteHeight = 16 := by
  unfold Control.spriteHeight
  split
  · exact .inr rfl
  · exact .inl rfl

theorem inRange_iff {height : Nat} {y : UInt8} :
    inRange line height y = true ↔ y.toNat ≤ line ∧ line - y.toNat < height := by
  rw [inRange, Bool.and_eq_true, decide_eq_true_eq, decide_eq_true_eq]

/-- **The row fetched for a place of the list** is that of the sprite whose bytes it holds. -/
theorem listAddress_eq {control : Control} {oam : Memory 256} {list : Memory 32} {slot : Fin 8}
    {i : Nat} (hr : isInRange oam line control.spriteHeight i = true)
    (hlist : ∀ b < 4, list.read (slot * 4 + b) = oam.read (i * 4 + b)) :
    listAddress control line list slot = .ofNat (spriteRowAddress control oam line i) := by
  obtain ⟨hy, hrow⟩ := inRange_iff.mp hr
  have hyb := (oam.read (i * 4)).toNat_lt
  have h0 : list.read (slot * 4) = oam.read (i * 4) := hlist 0 (by decide)
  have h1 := hlist 1 (by decide)
  have h2 := hlist 2 (by decide)
  have hmod : (line + 256 - (oam.read (i * 4)).toNat) % control.spriteHeight =
      line - (oam.read (i * 4)).toNat := by
    rcases spriteHeight_eq control with h | h
    · rw [h] at hrow ⊢
      omega
    · rw [h] at hrow ⊢
      omega
  unfold listAddress Sprites.patternAddress spriteRowAddress spriteRow
  dsimp only
  rw [h0, h1, h2, hmod]
  split
  · rfl
  · rw [Nat.add_assoc, UInt16.ofNat_add control.spriteTable.toNat, UInt16.ofNat_toNat]

theorem attributes_unitOf (control : Control) (list : Memory 32) (count : Nat) (slot : Fin 8) :
    (unitOf f control line list count slot).attributes = list.read (slot * 4 + 2) := by
  unfold unitOf readyUnit
  dsimp only
  split
  · rfl
  · split <;> rfl

theorem x_unitOf (control : Control) (list : Memory 32) (count : Nat) (slot : Fin 8) :
    (unitOf f control line list count slot).x = list.read (slot * 4 + 3) := by
  unfold unitOf readyUnit
  dsimp only
  split
  · rfl
  · split <;> rfl

/-- A unit beyond the last sprite found shows nothing anywhere. -/
theorem pixelAt_blank {control : Control} {list : Memory 32} {count : Nat} {slot : Fin 8}
    (h : count ≤ slot) (x : Nat) :
    (unitOf f control line list count slot).pixelAt x = 0 := by
  unfold unitOf readyUnit SpriteUnit.pixelAt
  dsimp only
  rw [if_pos h]
  dsimp only
  rw [leftBit_zero]
  split <;> rfl

theorem flipped_lt (attributes : UInt8) {column : Nat} (h : column < 8) :
    flipped attributes column < 8 := by
  unfold flipped
  split <;> omega

/-- The two rows of a unit in use, flipped or not. -/
theorem leftBit_unitOf {control : Control} {list : Memory 32} {count : Nat} {slot : Fin 8}
    (h : slot.val < count) {column : Nat} (hc : column < 8) :
    leftBit (unitOf f control line list count slot).low column =
        leftBit (f (listAddress control line list slot))
          (flipped (list.read (slot * 4 + 2)) column) ∧
      leftBit (unitOf f control line list count slot).high column =
        leftBit (f (listAddress control line list slot + 8))
          (flipped (list.read (slot * 4 + 2)) column) := by
  unfold unitOf readyUnit flipped
  dsimp only
  rw [if_neg (Nat.not_le_of_lt h)]
  split
  · exact ⟨leftBit_reverseBits _ hc, leftBit_reverseBits _ hc⟩
  · exact ⟨rfl, rfl⟩

/-- **The pixel of a unit is the pixel of its sprite.** -/
theorem pixelAt_unitOf {control : Control} {oam : Memory 256} {list : Memory 32} {count : Nat}
    {slot : Fin 8} {i : Nat} (h : slot.val < count)
    (hr : isInRange oam line control.spriteHeight i = true)
    (hlist : ∀ b < 4, list.read (slot * 4 + b) = oam.read (i * 4 + b)) (x : Nat) :
    ((unitOf f control line list count slot).pixelAt x).toNat =
      spritePixelAt f control oam line i x := by
  have h2 := hlist 2 (by decide)
  have h3 := hlist 3 (by decide)
  have haddress := listAddress_eq hr hlist
  have hhigh : listAddress control line list slot + 8 =
      .ofNat (spriteRowAddress control oam line i + 8) := by
    rw [UInt16.ofNat_add, haddress]
    rfl
  unfold SpriteUnit.pixelAt spritePixelAt
  dsimp only
  rw [x_unitOf, h3]
  by_cases hle : (oam.read (i * 4 + 3)).toNat ≤ x
  · rw [if_pos hle]
    by_cases hc : x - (oam.read (i * 4 + 3)).toNat < 8
    · have hbit := flipped_lt (oam.read (i * 4 + 2)) hc
      rw [if_pos ⟨hle, hc⟩, (leftBit_unitOf h hc).1, (leftBit_unitOf h hc).2, h2, hhigh, haddress,
        toNat_two_planes, rowBit_eq _ hbit, rowBit_eq _ hbit]
    · rw [if_neg (fun hand => hc hand.2), leftBit_of_le _ (by omega), leftBit_of_le _ (by omega)]
      rfl
  · rw [if_neg hle, if_neg (fun hand => hle hand.1)]
    rfl

/-! ## 3. Sprite 0 among the chosen -/

section Zero

variable {oam : Memory 256} {height : Nat}

/-- Every chosen sprite is in range. -/
theorem isInRange_of_mem_chosen {i : Nat} (h : i ∈ chosen oam line height) :
    isInRange oam line height i = true :=
  (mem_seen.mp (List.mem_of_mem_take h)).2

/-- Sprite 0, if it is in range, is the first of the chosen, and occurs once. -/
theorem chosen_of_zero (h : isInRange oam line height 0 = true) :
    ∃ rest, chosen oam line height = 0 :: rest ∧ 0 ∉ rest := by
  have hseen : seen oam line height 64 =
      0 :: ((List.range 63).map Nat.succ).filter (isInRange oam line height) := by
    rw [seen, List.range_succ_eq_map, List.filter_cons, if_pos h]
  refine ⟨(((List.range 63).map Nat.succ).filter (isInRange oam line height)).take 7, ?_, ?_⟩
  · rw [chosen, hseen]
    rfl
  · intro hmem
    obtain ⟨j, -, hj⟩ := List.mem_map.mp (List.mem_filter.mp (List.mem_of_mem_take hmem)).1
    exact Nat.succ_ne_zero j hj

/-- The place of sprite 0 among the chosen is the first, and only sprite 0 can have it if it is in
range. -/
theorem zero_place {k i : Nat} (h : (chosen oam line height)[k]? = some i) :
    k = 0 ∧ isInRange oam line height 0 = true ↔ i = 0 := by
  constructor
  · rintro ⟨rfl, h0⟩
    obtain ⟨rest, hrest, -⟩ := chosen_of_zero h0
    rw [hrest] at h
    exact (Option.some.inj h).symm
  · rintro rfl
    have h0 : isInRange oam line height 0 = true :=
      isInRange_of_mem_chosen (List.mem_of_getElem? h)
    refine ⟨?_, h0⟩
    obtain ⟨rest, hrest, hnot⟩ := chosen_of_zero h0
    rw [hrest] at h
    cases k with
    | zero => rfl
    | succ k =>
      rw [List.getElem?_cons_succ] at h
      exact absurd (List.mem_of_getElem? h) hnot

/-- Sprite 0 is shown wherever it is in range and not transparent: nothing is before it. -/
theorem shownSprite_zero (control : Control) (x : Nat) :
    shownSprite f control oam line x = some 0 ↔
      isInRange oam line control.spriteHeight 0 = true ∧
        spritePixelAt f control oam line 0 x ≠ 0 := by
  constructor
  · intro h
    unfold shownSprite at h
    have hpixel := List.find?_some h
    exact ⟨isInRange_of_mem_chosen (List.mem_of_find?_eq_some h), bne_iff_ne.mp hpixel⟩
  · rintro ⟨h0, hpixel⟩
    obtain ⟨rest, hrest, -⟩ := chosen_of_zero h0
    rw [shownSprite, hrest]
    exact List.find?_cons_of_pos (bne_iff_ne.mpr hpixel)

end Zero

/-! ## 4. From line to line -/

/-- The units stand ready to draw the sprites chosen on a line: each of the first is a sprite's, and
the others show nothing. -/
structure Ready (f : UInt16 → UInt8) (σ : Settings) (line : Nat) (o : Output) : Prop where
  count : o.count = (chosen σ.oam line σ.control.spriteHeight).length
  zeroInLine : o.zeroInLine = isInRange σ.oam line σ.control.spriteHeight 0
  attributes : ∀ (j : Fin 8) (i : Nat),
    (chosen σ.oam line σ.control.spriteHeight)[j.val]? = some i →
      (o.units.get j).attributes = σ.oam.read (i * 4 + 2)
  pixel : ∀ (j : Fin 8) (i : Nat),
    (chosen σ.oam line σ.control.spriteHeight)[j.val]? = some i →
      ∀ x, ((o.units.get j).pixelAt x).toNat = spritePixelAt f σ.control σ.oam line i x
  blank : ∀ j : Fin 8, (chosen σ.oam line σ.control.spriteHeight).length ≤ j.val →
    ∀ x, (o.units.get j).pixelAt x = 0

theorem length_chosen_le (oam : Memory 256) (line height : Nat) :
    (chosen oam line height).length ≤ 8 :=
  List.length_take_le ..

/-- Units that hold the rows of the list are ready once the search was over. -/
theorem Loaded.ready {l : Listing} {s : Sprites} (h : Loaded f σ.control line l 8 s)
    (hl : Finished σ.oam line σ.control.spriteHeight l) : Ready f σ line s.output := by
  have hc8 := length_chosen_le σ.oam line σ.control.spriteHeight
  have hcount : s.count = (chosen σ.oam line σ.control.spriteHeight).length := by
    rw [h.count, hl.found, Nat.min_eq_left hc8]
  have hunit : ∀ j : Fin 8,
      s.output.units.get j = unitOf f σ.control line l.list s.count j :=
    fun j => h.units j j.isLt
  refine ⟨hcount, h.zeroInLine.trans hl.hasZero, fun j i hj => ?_, fun j i hj x => ?_,
    fun j hj x => ?_⟩
  · rw [hunit j, attributes_unitOf]
    exact hl.holds j i hj 2 (by decide)
  · obtain ⟨hlt, -⟩ := List.getElem?_eq_some_iff.mp hj
    rw [hunit j]
    exact pixelAt_unitOf (by omega) (isInRange_of_mem_chosen (List.mem_of_getElem? hj))
      (hl.holds j i hj) x
  · rw [hunit j]
    exact pixelAt_blank (by omega) x

/-- **From the first dot of one line to the first of the next**: the search, the fetches, and the
units are ready. -/
theorem ready_line (hs : σ.mask.sprites = true) (hp : p.settings = σ) (hat : At line 1 p)
    (hl : line < 239) :
    At (line + 1) 1 ((dot f)^[341] p) ∧ Ready f σ line ((dot f)^[341] p).sprites.output := by
  have hat257 : At line 257 ((dot f)^[256] p) := hat.run (n := 256) (by omega)
  have hat321 : At line 321 ((dot f)^[64] ((dot f)^[256] p)) := hat257.run (n := 64) (by omega)
  have hp257 : ((dot f)^[256] p).settings = σ := by rw [dots_settings, hp]
  have hp321 : ((dot f)^[64] ((dot f)^[256] p)).settings = σ := by rw [dots_settings, hp257]
  have hsearch := line_searched (f := f) hs hp hat (by omega)
  have hloaded := units_loaded (f := f) hs hp257 hat257 (by omega)
  obtain ⟨hnext, hout⟩ := output_to_next_line (f := f) hs hp321 hat321 hl
  have hgo : (dot f)^[341] p = (dot f)^[21] ((dot f)^[64] ((dot f)^[256] p)) := by
    rw [← Function.iterate_add_apply, ← Function.iterate_add_apply]
  rw [hgo, hout]
  exact ⟨hnext, hloaded.ready hsearch⟩

/-! ## 5. A column -/

section Column

variable {o : Output} (h : Ready f σ line o) {s : Sprites} {x : Nat}
  (hs : s.output = Output.step^[x] o)

include h hs

/-- The units in use have moved, and the others have not. -/
theorem units_at_column (j : Fin 8) :
    s.units.get j =
      if j.val < (chosen σ.oam line σ.control.spriteHeight).length
      then SpriteUnit.step^[x] (o.units.get j) else o.units.get j := by
  obtain ⟨-, -, hunits⟩ := output_steps o x
  rw [← h.count, ← hunits j, ← hs]
  rfl

/-- A unit in use shows the pixel of its sprite. -/
theorem unit_at_column {j : Fin 8} {i : Nat}
    (hj : (chosen σ.oam line σ.control.spriteHeight)[j.val]? = some i) :
    (s.units.get j).shows = (spritePixelAt f σ.control σ.oam line i x != 0) ∧
      ((s.units.get j).shows = true →
        (s.units.get j).shown = spriteAt f σ.control σ.oam line i x) := by
  obtain ⟨hlt, -⟩ := List.getElem?_eq_some_iff.mp hj
  obtain ⟨hshows, hpixel⟩ := shows_iterate (o.units.get j) x
  obtain ⟨-, hattributes, -⟩ := step_iterate (o.units.get j) x
  rw [units_at_column h hs j, if_pos hlt]
  refine ⟨?_, fun hshow => ?_⟩
  · rw [hshows, ← h.pixel j i hj x, Bool.eq_iff_iff, bne_iff_ne, bne_iff_ne, ne_eq, ne_eq,
      ← UInt8.toNat_inj]
    rfl
  · rw [SpriteUnit.shown, SpriteUnit.palette, SpriteUnit.isBehind, hpixel hshow, hattributes,
      h.pixel j i hj, h.attributes j i hj]
    rfl

/-- A unit that is not in use shows nothing. -/
theorem blank_at_column {j : Fin 8}
    (hj : (chosen σ.oam line σ.control.spriteHeight).length ≤ j.val) :
    (s.units.get j).shows = false := by
  have hstill : (o.units.get j).shows = ((o.units.get j).pixelAt 0 != 0) :=
    (shows_iterate (o.units.get j) 0).1
  rw [units_at_column h hs j, if_neg (by omega), hstill, h.blank j hj]
  rfl

/-- **The foremost unit at a column** is that of the sprite shown there, and it is in the first
place with sprite 0 in the line exactly if that sprite is sprite 0. -/
theorem front_at_column :
    s.front.map (fun u => u.2.shown) =
        (shownSprite f σ.control σ.oam line x).map (spriteAt f σ.control σ.oam line · x) ∧
      ∀ u, s.front = some u →
        (u.1 = 0 ∧ s.zeroInLine = true ↔ shownSprite f σ.control σ.oam line x = some 0) := by
  obtain ⟨hcount, hzero, -⟩ := output_steps o x
  have hsc : s.count = (chosen σ.oam line σ.control.spriteHeight).length :=
    (congrArg Output.count hs).trans (hcount.trans h.count)
  have hsz : s.zeroInLine = isInRange σ.oam line σ.control.spriteHeight 0 :=
    (congrArg Output.zeroInLine hs).trans (hzero.trans h.zeroInLine)
  obtain ⟨hnone, hsome⟩ := front_of_list s _ _ hsc (length_chosen_le ..)
    (fun _ _ hj => (unit_at_column h hs hj).1) (fun _ hj => blank_at_column h hs hj)
  cases hfind : shownSprite f σ.control σ.oam line x with
  | none =>
    rw [hnone hfind]
    exact ⟨rfl, fun _ hu => nomatch hu⟩
  | some i =>
    obtain ⟨j, hj, hfront⟩ := hsome i hfind
    obtain ⟨hshows, hshown⟩ := unit_at_column h hs hj
    have hpixel : (s.units.get j).shows = true := by
      rw [hshows]
      exact List.find?_some (p := fun i => spritePixelAt f σ.control σ.oam line i x != 0) hfind
    rw [hfront]
    refine ⟨congrArg some (hshown hpixel), fun u hu => ?_⟩
    rw [← Option.some.inj hu, hsz, Option.some_inj]
    exact zero_place hj

end Column

end Famicom.Ppu
