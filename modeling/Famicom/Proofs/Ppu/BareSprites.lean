/-
# The sprites in bare words

The search for sprites and their fetches go by what they find: the places that a search has reached,
how many it has found, how many were found on the line before.  A program may turn rendering on in
the middle of a line and make sprites taller at any dot, so all of it may be left over from some
other line, and no dot can count on what an earlier dot of its line has done.

What a dot needs is less.  The place of the search is a sprite and one of its four bytes, as its
types say.  **With the beam in its frame, and no more than eight sprites found and eight units in
use** (`Within`), a dot of the sprites in bare words has a result (`spriteDot_bare`), whatever else
is left over; and a dot keeps that bound.

The difference between a line and a sprite's place is meant to wrap.  Above the sprite it is large,
and so not in range (`inRange_bare`); where a pattern is fetched all the same, a mask keeps the row
within the sprite (`line_sub_and`).
-/
import Famicom.Proofs.Ppu.BareBackground
import Famicom.Proofs.Ppu.SpriteLine

namespace Famicom.Ppu

variable {μ : Type} [AddressBus μ]

/-! ## 1. The steps of the search -/

section Search

variable (e : SpriteSearch)

theorem nextSprite_bare : Bare.nextSprite e.bare = some e.next.bare := by
  have hlt := e.sprite.isLt
  have hsum : add8 e.bare.sprite 1 = some (.ofNat (e.sprite + 1)) := add8_ofNat (n := 1) (by omega)
  have hword : (UInt8.ofNat (e.sprite + 1)).toNat = e.sprite + 1 :=
    UInt8.toNat_ofNat_of_lt' (show _ < 256 by omega)
  unfold Bare.nextSprite SpriteSearch.next
  rw [hsum, Option.bind_eq_bind, Option.bind_some, hword]
  by_cases hlast : e.sprite = 63
  · rw [if_pos (by rw [hlast]; decide), hlast]
    simp only [SpriteSearch.bare, beq_self_eq_true, Bool.or_true]
    rfl
  · have hnext : (e.sprite + 1).val = e.sprite + 1 := (Fin.val_add_one _).trans (if_neg hlast)
    have hmore := (e.sprite + 1).isLt
    rw [if_neg (by omega), beq_false_of_ne hlast, Bool.or_false]
    simp only [SpriteSearch.bare, hnext]

theorem collect_bare (hfound : e.found < 8) (inRange : Bool) :
    Bare.collect e.bare inRange = some (e.collect inRange).bare := by
  have hbyte : ∀ n m : Fin 4, UInt8.ofNat n = .ofNat m ↔ n = m := by decide
  have h0 : e.bare.byte = 0 ↔ e.byte = 0 := hbyte e.byte 0
  have h3 : e.bare.byte = 3 ↔ e.byte = 3 := hbyte e.byte 3
  have hsprite : ∀ n : Fin 64, (UInt8.ofNat n == 0) = (n == 0) := by decide
  have hzero : (e.bare.sprite == 0) = (e.sprite == 0) := hsprite e.sprite
  unfold Bare.collect SpriteSearch.collect
  simp only [h0, h3, hzero]
  split
  · split
    · rfl
    · exact nextSprite_bare e
  split
  · have hsum : add8 e.bare.found 1 = some (.ofNat (e.found + 1)) := add8_ofNat (n := 1) (by omega)
    rw [hsum, Option.bind_eq_bind, Option.bind_some]
    exact nextSprite_bare { e with byte := 0, found := e.found + 1 }
  · next hlast =>
    have hnext : (e.byte + 1).val = e.byte + 1 := (Fin.val_add_one _).trans (if_neg hlast)
    have hsum : add8 e.bare.byte 1 = some (.ofNat (e.byte + 1).val) := by
      rw [hnext]
      exact add8_ofNat (n := 1) (by omega)
    rw [hsum, Option.bind_eq_bind, Option.bind_some]
    rfl

theorem walk_bare (inRange : Bool) : Bare.walk e.bare inRange = some (e.walk inRange).bare := by
  have hmask : ∀ n : Fin 4, UInt8.ofNat (n.val + 1) &&& 3 = .ofNat (n + 1).val := by decide
  unfold Bare.walk SpriteSearch.walk
  split
  · rfl
  · have hsum : add8 e.bare.byte 1 = some (.ofNat (e.byte + 1)) := add8_ofNat (n := 1) (by omega)
    rw [hsum, Option.bind_eq_bind, Option.bind_some, hmask]
    exact nextSprite_bare { e with byte := e.byte + 1 }

end Search

/-! ## 2. What the types do not bound -/

/-- No more sprites are found, and no more units are in use, than there are units. -/
structure Sprites.Bounded (s : Sprites) : Prop where
  found : s.search.found ≤ 8
  count : s.count ≤ 8

/-- What the types of a unit do not bound. -/
structure Within (p : Ppu) : Prop where
  raster : p.raster.InFrame
  sprites : p.sprites.Bounded

/-! ## 3. Addresses of patterns -/

/-- The line of its pattern that a sprite shows, in numbers. -/
def rowOf (height line : Nat) (y attributes : UInt8) : Nat :=
  let row := (line + 256 - y.toNat) % height
  if attributes &&& 0x80 != 0 then height - 1 - row else row

theorem rowOf_lt {height : Nat} (hh : 0 < height) (line : Nat) (y attributes : UInt8) :
    rowOf height line y attributes < height := by
  have hmod := Nat.mod_lt (line + 256 - y.toNat) hh
  unfold rowOf
  dsimp only
  split <;> omega

/-- The lowest bit of a tile's number, which picks the table of a tall sprite. -/
theorem tallTable_eq (tile : UInt8) :
    (tile &&& 0x01).toUInt16 * 0x1000 = .ofNat (tile.toNat % 2 * 0x1000) := by
  have hbit : (tile &&& 0x01).toUInt16 = .ofNat (tile.toNat % 2) := by
    rw [← UInt16.toNat_inj, UInt8.toNat_toUInt16, UInt8.toNat_and,
      UInt16.toNat_ofNat_of_lt' (show _ < 65536 by omega)]
    exact Nat.and_one_is_mod _
  rw [hbit, UInt16.ofNat_mul]
  rfl

theorem tallUpper_eq (tile : UInt8) :
    (tile &&& 0xFE).toUInt16 = .ofNat (tile.toNat / 2 * 2) := by
  have hlt := tile.toNat_lt
  rw [← UInt16.toNat_inj, UInt8.toNat_toUInt16, UInt8.toNat_and,
    UInt16.toNat_ofNat_of_lt' (show _ < 65536 by omega)]
  change tile.toNat &&& (2 ^ 7 - 1) * 2 ^ 1 = _
  rw [and_shifted_mask]
  omega

theorem tallAddress_eq (tile : UInt8) {row : Nat} (hrow : row < 16) :
    Bare.tallAddress tile (.ofNat row) =
      some (.ofNat (tile.toNat % 2 * 0x1000 + (tile.toNat / 2 * 2 + row / 8) * 16 + row % 8)) := by
  have hlt := tile.toNat_lt
  have hword : (UInt16.ofNat row).toNat = row := UInt16.toNat_ofNat_of_lt' (show _ < 65536 by omega)
  unfold Bare.tallAddress
  rw [tallTable_eq, tallUpper_eq, hword]
  dsimp only
  split
  · have hlower : add16 (.ofNat (tile.toNat / 2 * 2)) 1 = some (.ofNat (tile.toNat / 2 * 2 + 1)) :=
      add16_ofNat (n := 1) (by omega)
    have hline : sub16 (.ofNat row) 8 = some (.ofNat (row - 8)) :=
      sub16_ofNat (n := 8) (by omega) ‹_›
    rw [hlower, hline]
    simp only [Option.bind_eq_bind, Option.bind_some]
    rw [tile_shiftLeft (by omega), add16_ofNat (by omega), Option.bind_some, add16_ofNat (by omega)]
    congr 2
    omega
  · rw [tile_shiftLeft (by omega), add16_ofNat (by omega), Option.bind_eq_bind, Option.bind_some,
      add16_ofNat (by omega)]
    congr 2
    omega

/-- The address of a sprite's pattern, by the line of it that is shown. -/
theorem patternAddress_eq (s : Sprites) (control : Control) (line : Nat) (slot : Fin 8) :
    s.patternAddress control line slot =
      let tile := (s.secondary.read (slot * 4 + 1)).toNat
      let row := rowOf control.spriteHeight line (s.secondary.read (slot * 4))
        (s.secondary.read (slot * 4 + 2))
      if control.spriteHeight = 16 then
        .ofNat (tile % 2 * 0x1000 + (tile / 2 * 2 + row / 8) * 16 + row % 8)
      else control.spriteTable + .ofNat (tile * 16 + row) := rfl

theorem isLowPlane_sprite (s : Sprites) (control : Control) (line : Nat) (slot : Fin 8) :
    IsLowPlane (s.patternAddress control line slot) := by
  have htile := (s.secondary.read (slot * 4 + 1)).toNat_lt
  rw [patternAddress_eq]
  dsimp only
  rcases spriteHeight_eq control with h8 | h16
  · rw [h8, if_neg (by decide)]
    exact isLowPlane_pattern (toNat_spriteTable control) htile (rowOf_lt (by decide) _ _ _)
  · rw [h16, if_pos rfl]
    have hrow := rowOf_lt (show 0 < 16 by decide) line (s.secondary.read (slot * 4))
      (s.secondary.read (slot * 4 + 2))
    generalize rowOf 16 line _ _ = row at hrow
    rw [IsLowPlane, UInt16.toNat_ofNat_of_lt' (show _ < 65536 by omega)]
    omega

/-! ## 4. The dots of the search -/

/-- A ninth sprite is noted in the status. -/
theorem bits_overflow (s : Status) (ninth : Bool) :
    { s with overflow := s.overflow || ninth }.bits =
      if ninth then s.bits ||| 0x20 else s.bits := by
  obtain ⟨overflow, hit, vblank⟩ := s
  cases overflow <;> cases hit <;> cases vblank <;> cases ninth <;> rfl

theorem act_eq (s : Sprites) (line height : Nat) :
    s.act line height =
      if s.search.done then (s, false)
      else if s.search.found < 8 then
        ({ s with
            search := s.search.collect (inRange line height s.search.latch)
            secondary := s.secondary.write s.search.target s.search.latch }, false)
      else
        ({ s with search := s.search.walk (inRange line height s.search.latch) },
          inRange line height s.search.latch) := rfl

section Sprites

variable {p : Ppu} (h : p.Within)

include h

/-- The line of the beam less the place of a sprite, whose difference wraps. -/
theorem toNat_line_sub (y : UInt8) :
    (p.bare.line - y.toUInt16).toNat = (65536 - y.toNat + p.raster.line) % 65536 := by
  rw [UInt16.toNat_sub, UInt8.toNat_toUInt16, toNat_bare_line h.raster]

/-- Above the first line of a sprite the difference wraps, and is no less than its height. -/
theorem inRange_bare (y : UInt8) :
    p.bare.inRange y = inRange p.raster.line p.control.spriteHeight y := by
  have hline := h.raster.line
  have hy := y.toNat_lt
  have hheight := spriteHeight_eq p.control
  have hcontrol : p.bare.control = p.control := rfl
  unfold Bare.inRange inRange
  rw [toNat_line_sub h, hcontrol, ← Bool.decide_and, decide_eq_decide]
  omega

theorem toNat_bare_found : p.bare.search.found.toNat = p.sprites.search.found :=
  UInt8.toNat_ofNat_of_lt' (h.sprites.found.trans_lt (by decide))

theorem toNat_bare_count : p.bare.count.toNat = p.sprites.count :=
  UInt8.toNat_ofNat_of_lt' (h.sprites.count.trans_lt (by decide))

theorem searchDot_bare : p.bare.searchDot = some p.searchDot.bare := by
  have hsprite := p.sprites.search.sprite.isLt
  have hbyte := p.sprites.search.byte.isLt
  have hspriteNat : p.bare.search.sprite.toNat = p.sprites.search.sprite :=
    UInt8.toNat_ofNat_of_lt' (hsprite.trans (by decide))
  have hbyteNat : p.bare.search.byte.toNat = p.sprites.search.byte :=
    UInt8.toNat_ofNat_of_lt' (hbyte.trans (by decide))
  unfold Bare.searchDot searchDot
  rw [toNat_bare_dot h.raster]
  dsimp only
  split
  -- A sprite and one of its bytes are the eight bits of a place: the mask takes nothing.
  · have hplace : (p.sprites.search.sprite.val * 4 + p.sprites.search.byte.val) &&& 0xFF =
        p.sprites.search.place := by
      refine Nat.and_two_pow_sub_one_of_lt_two_pow (n := 8) ?_
      omega
    have hlook : p.bare.oam[p.sprites.search.place]? =
        some (p.oam.read p.sprites.search.place) := by
      refine getElem?_eq_read p.oam ?_
      unfold SpriteSearch.place
      omega
    rw [hspriteNat, hbyteNat, hplace, hlook]
    rfl
  · have hdone : p.bare.search.done = p.sprites.search.done := rfl
    have hlatch : p.bare.search.latch = p.sprites.search.latch := rfl
    rw [act_eq, hdone, toNat_bare_found h, hbyteNat, hlatch, inRange_bare h]
    generalize hr : inRange p.raster.line p.control.spriteHeight p.sprites.search.latch = hit
    split
    · rw [Bool.or_false]
    split
    -- While fewer than eight are found there is room in the list, also for the bytes of a sprite
    -- that another line began to copy.
    · next hfound =>
      have hput : put? p.bare.secondary (p.sprites.search.found * 4 + p.sprites.search.byte)
          p.sprites.search.latch = some (p.sprites.secondary.write p.sprites.search.target
            p.sprites.search.latch) := by
        refine put?_eq_write p.sprites.secondary ?_ _
        omega
      have hcollect : Bare.collect p.bare.search hit = _ := collect_bare p.sprites.search hfound hit
      rw [hput, hcollect, Bool.or_false]
      rfl
    · have hwalk : Bare.walk p.bare.search hit = _ := walk_bare p.sprites.search hit
      have hstatus : (if hit then p.bare.status ||| 0x20 else p.bare.status) = _ :=
        (bits_overflow p.status hit).symm
      rw [hwalk, Option.bind_eq_bind, Option.bind_some, hstatus]
      rfl

/-! ## 5. The dots of the fetches -/

/-- The height of a sprite is a power of two, so that a mask takes the remainder. -/
theorem line_sub_and {k : Nat} (hk : k ≤ 8) (y : UInt8) :
    (p.bare.line - y.toUInt16) &&& .ofNat (2 ^ k - 1) =
      .ofNat ((p.raster.line + 256 - y.toNat) % 2 ^ k) := by
  have hline := h.raster.line
  have hy := y.toNat_lt
  have hpow : 2 ^ k ≤ 2 ^ 8 := Nat.pow_le_pow_right (by decide) hk
  have hmod := Nat.mod_lt (p.raster.line + 256 - y.toNat) (Nat.two_pow_pos k)
  obtain ⟨c, hc⟩ := Nat.pow_dvd_pow 2 hk
  have hturns : 65536 - y.toNat + p.raster.line =
      p.raster.line + 256 - y.toNat + 2 ^ k * (c * 255) := by
    rw [← Nat.mul_assoc, ← hc]
    omega
  have hdvd : 2 ^ k ∣ 65536 := Nat.pow_dvd_pow 2 (hk.trans (by decide : 8 ≤ 16))
  rw [← UInt16.toNat_inj, UInt16.toNat_and, toNat_line_sub h,
    UInt16.toNat_ofNat_of_lt' (show 2 ^ k - 1 < 65536 by omega),
    UInt16.toNat_ofNat_of_lt' (show _ < 65536 by omega), Nat.and_two_pow_sub_one_eq_mod,
    Nat.mod_mod_of_dvd _ hdvd, hturns, Nat.add_mul_mod_self_left]

theorem spriteRow_bare (y attributes : UInt8) :
    p.bare.spriteRow y attributes =
      some (.ofNat (rowOf p.control.spriteHeight p.raster.line y attributes)) := by
  have hcontrol : p.bare.control = p.control := rfl
  have hrow : (p.bare.line - y.toUInt16) &&& .ofNat (p.control.spriteHeight - 1) =
      .ofNat ((p.raster.line + 256 - y.toNat) % p.control.spriteHeight) := by
    rcases spriteHeight_eq p.control with h8 | h16
    · rw [h8]
      exact line_sub_and h (k := 3) (by decide) y
    · rw [h16]
      exact line_sub_and h (k := 4) (by decide) y
  have hheight : 1 ≤ p.control.spriteHeight ∧ p.control.spriteHeight < 65536 := by
    rcases spriteHeight_eq p.control with h8 | h16
    · rw [h8]
      decide
    · rw [h16]
      decide
  have hlast : sub16 (.ofNat p.control.spriteHeight) 1 =
      some (.ofNat (p.control.spriteHeight - 1)) :=
    sub16_ofNat (n := 1) hheight.2 hheight.1
  have hmod := Nat.mod_lt (p.raster.line + 256 - y.toNat) hheight.1
  unfold Bare.spriteRow rowOf
  rw [hcontrol, hlast, Option.bind_eq_bind, Option.bind_some, hrow]
  dsimp only
  split
  · exact sub16_ofNat (by omega) (by omega)
  · rfl

theorem spriteAddress_bare (slot : Fin 8) :
    p.bare.spriteAddress slot = some (p.sprites.patternAddress p.control p.raster.line slot) := by
  have hslot := slot.isLt
  have hread {i : Nat} (hi : i < 32) : p.bare.secondary[i]? = some (p.sprites.secondary.read i) :=
    getElem?_eq_read p.sprites.secondary hi
  have hcontrol : p.bare.control = p.control := rfl
  unfold Bare.spriteAddress
  rw [patternAddress_eq, hread (by omega), hread (by omega), hread (by omega), hcontrol]
  simp only [Option.bind_eq_bind, Option.bind_some, spriteRow_bare h]
  rcases spriteHeight_eq p.control with h8 | h16
  · have htile := (p.sprites.secondary.read (slot * 4 + 1)).toNat_lt
    rw [h8, if_neg (by decide), if_neg (by decide), toUInt16_eq_ofNat,
      tile_shiftLeft (htile.trans (by decide))]
    exact add16_pattern (toNat_spriteTable p.control) htile (rowOf_lt (by decide) _ _ _)
  · rw [h16, if_pos rfl, if_pos rfl]
    exact tallAddress_eq _ (rowOf_lt (by decide) _ _ _)

variable (mem : μ)

theorem spriteFetchDot_bare (hfrom : 257 ≤ p.raster.dot) (hto : p.raster.dot ≤ 320) :
    p.bare.spriteFetchDot mem = some (lowered (p.spriteFetchDot mem)) := by
  have hoffset : sub16 p.bare.dot 257 = some (.ofNat (p.raster.dot - 257)) :=
    sub16_bare_dot h.raster hfrom
  have hslot : (p.raster.dot - 257) / 8 = (Fin.ofNat 8 ((p.raster.dot - 257) / 8)).val := by
    rw [Fin.val_ofNat]
    omega
  unfold Bare.spriteFetchDot spriteFetchDot
  rw [hoffset, Option.bind_eq_bind, Option.bind_some, toNat_dot_sub h.raster]
  dsimp only
  generalize Fin.ofNat 8 ((p.raster.dot - 257) / 8) = slot at hslot
  have hphase : (p.raster.dot - 257) % 8 < 8 := Nat.mod_lt _ (by decide)
  rw [hslot]
  generalize (p.raster.dot - 257) % 8 = phase at hphase
  have hheld : ({ p with oamAddress := 0 } : Ppu).Within := ⟨h.raster, h.sprites⟩
  have htable : Bare.readTable (Position.tileAddress p.bare.v) mem = _ := readTable_tile p.v mem
  have haddress : ({ p.bare with oamAddress := 0 } : Bare).spriteAddress slot =
      some (p.sprites.patternAddress p.control p.raster.line slot) := spriteAddress_bare hheld slot
  have hlow := isLowPlane_sprite p.sprites p.control p.raster.line slot
  have hunit : p.bare.units[slot.val]? = some p.sprites.units[slot] :=
    Vector.getElem?_eq_getElem slot.isLt
  have hput (u : SpriteUnit) : put? p.bare.units slot.val u = some (p.sprites.units.set slot u) :=
    put?_of_lt _ slot.isLt u
  have hattributes : p.bare.secondary[slot.val * 4 + 2]? =
      some (p.sprites.secondary.read (slot * 4 + 2)) := getElem?_eq_read _ (by omega)
  have hcolumn : p.bare.secondary[slot.val * 4 + 3]? =
      some (p.sprites.secondary.read (slot * 4 + 3)) := getElem?_eq_read _ (by omega)
  interval_cases phase
  · have hcount : (if p.bare.search.found.toNat < 8 then p.bare.search.found else 8) =
        .ofNat (min p.sprites.search.found 8) := by
      rw [toNat_bare_found h]
      split
      · rw [Nat.min_eq_left (by omega)]
        rfl
      · rw [Nat.min_eq_right (by omega)]
        rfl
    simp only [htable, hcount, Option.bind_eq_bind, Option.bind_some]
    have hfirst : slot.val = 0 ↔ slot = 0 := (Fin.ext_iff (b := 0)).symm
    simp only [hfirst]
    split <;> rfl
  · rfl
  · simp only [htable, Option.bind_eq_bind, Option.bind_some]
    rfl
  · rfl
  · simp only [haddress, readPattern_low hlow, hunit, hput, Option.bind_eq_bind, Option.bind_some]
    rfl
  · rfl
  · simp only [haddress, add16_high hlow, readPattern_high hlow, hattributes, hcolumn, hunit, hput,
      toNat_bare_count h, Option.bind_eq_bind, Option.bind_some]
    rfl
  · rfl

theorem spriteDot_bare : p.bare.spriteDot mem = some (lowered (p.spriteDot mem)) := by
  have hdot := h.raster.dot
  unfold Bare.spriteDot spriteDot
  rw [toNat_bare_dot h.raster, toNat_bare_line h.raster, searchDot_bare h, Option.map_some]
  dsimp only
  split
  · rfl
  split
  · rfl
  split
  · split
    · have hhalf : p.bare.dot / 2 = .ofNat (p.raster.dot / 2) := by
        rw [← UInt16.toNat_inj, UInt16.toNat_div, toNat_bare_dot h.raster,
          UInt16.toNat_ofNat_of_lt' (show _ < 65536 by omega)]
        rfl
      have hplace : sub16 (p.bare.dot / 2) 1 = some (.ofNat (p.raster.dot / 2 - 1)) := by
        rw [hhalf]
        exact sub16_ofNat (n := 1) (by omega) (by omega)
      have hnumber : (UInt16.ofNat (p.raster.dot / 2 - 1)).toNat = p.raster.dot / 2 - 1 :=
        UInt16.toNat_ofNat_of_lt' (show _ < 65536 by omega)
      have hput : put? p.bare.secondary (p.raster.dot / 2 - 1) 0xFF =
          some (p.sprites.secondary.write (p.raster.dot / 2 - 1) 0xFF) :=
        put?_eq_write _ (by omega) _
      rw [hplace, Option.bind_eq_bind, Option.bind_some, hnumber, hput]
      rfl
    · rfl
  split
  · simp only [Raster.isVisible_iff]
    split <;> rfl
  split
  · exact spriteFetchDot_bare h mem (by omega) (by omega)
  · rfl

end Sprites

/-! ## 6. The units -/

/-- One dot of a unit always has a result: a column counts down only while it is not over. -/
theorem stepUnit_eq (units : Vector SpriteUnit 8) {i : Nat} (hi : i < 8) :
    Bare.stepUnit units i = some (units.set i units[i].step) := by
  have hunit : units[i]? = some units[i] := Vector.getElem?_eq_getElem hi
  unfold Bare.stepUnit SpriteUnit.step
  rw [hunit, Option.bind_eq_bind, Option.bind_some]
  by_cases hx : (units[i].x != 0) = true
  · have hpos : (1 : UInt8).toNat ≤ units[i].x.toNat := by
      have hne : units[i].x.toNat ≠ 0 := fun h => bne_iff_ne.mp hx (UInt8.toNat_inj.mp h)
      exact Nat.one_le_iff_ne_zero.mpr hne
    have hdown : sub8 units[i].x 1 = some (units[i].x - 1) := if_pos hpos
    rw [if_pos hx, if_pos hx, hdown, Option.bind_eq_bind, Option.bind_some, put?_of_lt _ hi]
  · rw [if_neg hx, if_neg hx, put?_of_lt _ hi]

/-- The units below a place make their dot one after the other. -/
theorem foldlM_stepUnit (units : Vector SpriteUnit 8) {n : Nat} (hn : n ≤ 8) :
    (List.range n).foldlM Bare.stepUnit units =
      some (units.mapFinIdx fun i u _ => if i < n then u.step else u) := by
  induction n with
  | zero =>
    have hnone : (units.mapFinIdx fun i u _ => if i < 0 then u.step else u) = units := by
      ext1 i hi
      rw [Vector.getElem_mapFinIdx, if_neg (Nat.not_lt_zero i)]
    rw [hnone]
    rfl
  | succ n ih =>
    rw [List.range_succ, List.foldlM_append, ih (by omega), Option.bind_eq_bind, Option.bind_some,
      List.foldlM_cons, stepUnit_eq _ (by omega)]
    refine congrArg some ?_
    ext1 i hi
    rw [Vector.getElem_set, Vector.getElem_mapFinIdx, Vector.getElem_mapFinIdx,
      Vector.getElem_mapFinIdx, if_neg (Nat.lt_irrefl n)]
    by_cases heq : n = i
    · subst heq
      rw [if_pos rfl, if_pos (Nat.lt_succ_self n)]
    · rw [if_neg heq]
      by_cases hlt : i < n
      · rw [if_pos hlt, if_pos (by omega)]
      · rw [if_neg hlt, if_neg (by omega)]

theorem stepUnits_bare {p : Ppu} (h : p.Within) :
    p.bare.stepUnits = some { p with sprites := p.sprites.step }.bare := by
  have hunits : (List.range p.bare.count.toNat).foldlM Bare.stepUnit p.bare.units = _ :=
    foldlM_stepUnit p.sprites.units (toNat_bare_count h ▸ h.sprites.count)
  unfold Bare.stepUnits Sprites.step
  rw [hunits, toNat_bare_count h, Option.bind_eq_bind, Option.bind_some]
  split
  · next hnone =>
    have hsame :
        (p.sprites.units.mapFinIdx fun i u _ => if i < p.sprites.count then u.step else u) =
          p.sprites.units := by
      ext1 i hi
      rw [Vector.getElem_mapFinIdx, hnone, if_neg (Nat.not_lt_zero i)]
    rw [hsame]
    rfl
  · rfl

/-! ## 7. What the sprites keep of the bounds -/

theorem found_collect {e : SpriteSearch} (h : e.found < 8) (inRange : Bool) :
    (e.collect inRange).found ≤ 8 := by
  unfold SpriteSearch.collect
  split
  · split
    · exact h.le
    · exact h.le
  split
  · exact h
  · exact h.le

theorem found_walk (e : SpriteSearch) (inRange : Bool) : (e.walk inRange).found = e.found := by
  unfold SpriteSearch.walk
  split <;> rfl

namespace Sprites.Bounded

variable {s : Sprites} (h : s.Bounded)

include h

theorem act (line height : Nat) : (s.act line height).1.Bounded := by
  obtain ⟨hfound, hcount⟩ := h
  rw [act_eq]
  split
  · exact ⟨hfound, hcount⟩
  split
  · next hmore => exact ⟨found_collect hmore _, hcount⟩
  · exact ⟨(found_walk _ _).trans_le hfound, hcount⟩

theorem step : s.step.Bounded := by
  obtain ⟨hfound, hcount⟩ := h
  unfold Sprites.step
  split
  · exact ⟨hfound, hcount⟩
  · exact ⟨hfound, hcount⟩

end Sprites.Bounded

section Bounded

variable {p : Ppu} (h : p.sprites.Bounded)

include h

theorem searchDot_bounded : p.searchDot.sprites.Bounded := by
  unfold searchDot
  split
  · exact ⟨h.found, h.count⟩
  · exact h.act _ _

theorem spriteFetchDot_bounded (mem : μ) : (p.spriteFetchDot mem).1.sprites.Bounded := by
  unfold spriteFetchDot
  dsimp only
  split
  · dsimp only
    split
    · exact ⟨h.found, Nat.min_le_right _ _⟩
    · exact h
  all_goals exact ⟨h.found, h.count⟩

theorem spriteDot_bounded (mem : μ) : (p.spriteDot mem).1.sprites.Bounded := by
  unfold spriteDot
  dsimp only
  split
  · exact h
  split
  · exact ⟨Nat.zero_le 8, h.count⟩
  split
  · dsimp only
    split
    · exact ⟨h.found, h.count⟩
    · exact h
  split
  · dsimp only
    split
    · exact searchDot_bounded h
    · exact h
  split
  · exact spriteFetchDot_bounded h mem
  · exact h

end Bounded

namespace Within

variable {p : Ppu} (h : p.Within) (mem : μ)

include h

theorem backgroundDot : (p.backgroundDot mem).1.Within := by
  obtain ⟨_, hreads⟩ := backgroundDot_reads p mem
  rw [hreads]
  exact ⟨h.raster, h.sprites⟩

theorem spriteDot : (p.spriteDot mem).1.Within := by
  refine ⟨?_, spriteDot_bounded h.sprites mem⟩
  obtain ⟨_, _, _, hparts⟩ := spriteDot_parts p mem
  rw [hparts]
  exact h.raster

end Within

/-! ## 8. The working part of a dot -/

/-- The last step of the working part of a dot. -/
def shifted (s : Ppu × μ) : Ppu × μ :=
  if s.1.mask.sprites && 2 ≤ s.1.raster.dot && s.1.raster.dot ≤ 257 then
    ({ s.1 with sprites := s.1.sprites.step }, s.2)
  else s

omit [AddressBus μ] in
theorem shifted_bare {s : Ppu × μ} (h : s.1.Within) :
    s.1.bare.shifted s.2 = some (lowered (shifted s)) := by
  have hmask : s.1.bare.mask = s.1.mask := rfl
  unfold Bare.shifted shifted
  rw [toNat_bare_dot h.raster, hmask, stepUnits_bare h, Option.map_some]
  split <;> rfl

theorem renderDot_eq_shifted (p : Ppu) (mem : μ) :
    p.renderDot mem = shifted ((p.backgroundDot mem).1.spriteDot (p.backgroundDot mem).2) := rfl

theorem renderDot_bare {p : Ppu} (h : p.Within) (mem : μ) :
    p.bare.renderDot mem = some (lowered (p.renderDot mem)) := by
  have hfirst := h.backgroundDot mem
  have hsprites :
      (lowered (p.backgroundDot mem)).1.spriteDot (lowered (p.backgroundDot mem)).2 = _ :=
    spriteDot_bare hfirst (p.backgroundDot mem).2
  have hsecond := hfirst.spriteDot (p.backgroundDot mem).2
  unfold Bare.renderDot
  rw [backgroundDot_bare p mem h.raster, Option.bind_eq_bind, Option.bind_some, hsprites,
    Option.bind_some, renderDot_eq_shifted]
  exact shifted_bare hsecond

theorem Within.renderDot {p : Ppu} (h : p.Within) (mem : μ) : (p.renderDot mem).1.Within := by
  have hsecond := (h.backgroundDot mem).spriteDot (p.backgroundDot mem).2
  rw [renderDot_eq_shifted, shifted]
  split
  · exact ⟨hsecond.raster, hsecond.sprites.step⟩
  · exact hsecond

end Famicom.Ppu
