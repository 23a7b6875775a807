/-
# The background in bare words

A dot of the background fetches at most one byte, from a place made of the position and of the
number of a tile.  In bare words every sum on the way to that place may overflow, the place may lie
in the wrong part of memory, and the byte that comes may be shifted out of itself.  **None of it
happens, whatever the position, the tile and the table** (`backgroundDot_bare`).

Two facts carry this.  Tiles and colours lie in the nametables, since a position has no more rows
and columns than they (`inTables_tileAddress`, `inTables_attributeAddress`).  And a line of a
pattern is two bytes eight apart, of which the first is never among the last eight of the tables
(`IsLowPlane`), so that the second is in them too.
-/
import Famicom.Proofs.Ppu.Bare
import Famicom.Proofs.Ppu.Walk

namespace Famicom.Ppu

variable {μ : Type} [AddressBus μ]

/-! ## 1. Numbers that are words -/

section Numbers

variable {p : Ppu} (h : p.raster.InFrame)

include h

theorem toNat_bare_line : p.bare.line.toNat = p.raster.line :=
  UInt16.toNat_ofNat_of_lt' (h.line.trans_lt (by decide))

theorem toNat_bare_dot : p.bare.dot.toNat = p.raster.dot :=
  UInt16.toNat_ofNat_of_lt' (h.dot.trans_lt (by decide))

/-- What is left of the number of a dot. -/
theorem sub16_bare_dot {n : Nat} (hn : n ≤ p.raster.dot) :
    sub16 p.bare.dot (.ofNat n) = some (.ofNat (p.raster.dot - n)) :=
  sub16_ofNat (h.dot.trans_lt (by decide)) hn

theorem toNat_dot_sub (n : Nat) : (UInt16.ofNat (p.raster.dot - n)).toNat = p.raster.dot - n :=
  UInt16.toNat_ofNat_of_lt' ((Nat.sub_le _ _).trans_lt (h.dot.trans_lt (by decide)))

end Numbers

/-! ## 2. Addresses of the background -/

theorem toNat_tileAddress (v : VramAddress) :
    v.tileAddress.toNat = 0x2000 + v.nametable * 0x400 + v.row * 32 + v.column := by
  have hn := v.nametable_lt
  have hr := v.row.isLt
  have hc := v.column.isLt
  exact UInt16.toNat_ofNat_of_lt' (show _ < 65536 by omega)

theorem toNat_attributeAddress (v : VramAddress) :
    v.attributeAddress.toNat = 0x23C0 + v.nametable * 0x400 + v.row / 4 * 8 + v.column / 4 := by
  have hn := v.nametable_lt
  have hr := v.row.isLt
  have hc := v.column.isLt
  exact UInt16.toNat_ofNat_of_lt' (show _ < 65536 by omega)

/-- An address in the nametables. -/
def InTables (a : UInt16) : Prop := 0x2000 ≤ a ∧ a < 0x3000

theorem inTables_of_toNat {a : UInt16} (hlow : 0x2000 ≤ a.toNat) (hhigh : a.toNat < 0x3000) :
    InTables a :=
  ⟨UInt16.le_iff_toNat_le.mpr hlow, UInt16.lt_iff_toNat_lt.mpr hhigh⟩

theorem inTables_tileAddress (v : VramAddress) : InTables v.tileAddress := by
  have hn := v.nametable_lt
  have hr := v.row.isLt
  have hc := v.column.isLt
  have hat := toNat_tileAddress v
  exact inTables_of_toNat (by omega) (by omega)

theorem inTables_attributeAddress (v : VramAddress) : InTables v.attributeAddress := by
  have hn := v.nametable_lt
  have hr := v.row.isLt
  have hc := v.column.isLt
  have hat := toNat_attributeAddress v
  exact inTables_of_toNat (by omega) (by omega)

/-- A tile is fetched from the nametables. -/
theorem readTable_tile (v : VramAddress) (mem : μ) :
    Bare.readTable (Position.tileAddress v.bits) mem =
      some (AddressBus.read v.tileAddress mem) := by
  rw [Position.tileAddress_bits]
  exact if_pos (inTables_tileAddress v)

/-- So are its colours. -/
theorem readTable_attribute (v : VramAddress) (mem : μ) :
    Bare.readTable (Position.attributeAddress v.bits) mem =
      some (AddressBus.read v.attributeAddress mem) := by
  rw [Position.attributeAddress_bits]
  exact if_pos (inTables_attributeAddress v)

/-- The two bits of a tile's colours are within their byte. -/
theorem shiftRight8_attribute (v : VramAddress) (b : UInt8) :
    Bare.shiftRight8 b (Position.attributeShift v.bits) = some (b >>> .ofNat v.attributeShift) := by
  have hshift := Position.toNat_attributeShift v
  have hlt : v.attributeShift < 8 := by
    unfold VramAddress.attributeShift
    omega
  have hbyte : (Position.attributeShift v.bits).toUInt8 = .ofNat v.attributeShift := by
    rw [← UInt8.toNat_inj, UInt16.toNat_toUInt8, hshift, UInt8.toNat_ofNat']
  rw [Bare.shiftRight8, if_pos (hshift ▸ hlt), hbyte]

/-! ## 3. Addresses of patterns -/

/-- The first line of a tile's pattern, in numbers. -/
theorem tile_shiftLeft {tile : Nat} (h : tile < 4096) :
    UInt16.ofNat tile <<< (4 : UInt16) = .ofNat (tile * 16) := by
  refine shiftLeft_ofNat (s := 4) (by decide) ?_
  change tile * 16 < 65536
  omega

/-- A line of a tile in a table is reached by two sums. -/
theorem add16_pattern {table : UInt16} (ht : table.toNat ≤ 0x1000) {tile line : Nat}
    (htile : tile < 256) (hline : line < 8) :
    (add16 table (.ofNat (tile * 16))).bind (fun a => add16 a (.ofNat line)) =
      some (table + .ofNat (tile * 16 + line)) := by
  have hn := UInt16.ofNat_toNat (x := table)
  rw [← hn, add16_ofNat (by omega), Option.bind_some, add16_ofNat (by omega), ← UInt16.ofNat_add,
    Nat.add_assoc]

/-- The low plane of a line of a pattern, of which the high plane is eight further on. -/
def IsLowPlane (a : UInt16) : Prop := a.toNat < 0x1FF8

theorem isLowPlane_pattern {table : UInt16} (ht : table.toNat ≤ 0x1000) {tile line : Nat}
    (htile : tile < 256) (hline : line < 8) : IsLowPlane (table + .ofNat (tile * 16 + line)) := by
  have hn : (UInt16.ofNat (tile * 16 + line)).toNat = tile * 16 + line :=
    UInt16.toNat_ofNat_of_lt' (show _ < 65536 by omega)
  rw [IsLowPlane, UInt16.toNat_add, hn, Nat.mod_eq_of_lt (by omega)]
  omega

section Planes

variable {a : UInt16} (h : IsLowPlane a)

include h

theorem IsLowPlane.lt : a < 0x2000 :=
  UInt16.lt_iff_toNat_lt.mpr (Nat.lt_trans h (by decide))

theorem IsLowPlane.high_lt : a + 8 < 0x2000 := by
  have hsum : (a + 8).toNat = a.toNat + 8 := by
    unfold IsLowPlane at h
    rw [UInt16.toNat_add]
    exact Nat.mod_eq_of_lt (show a.toNat + 8 < 65536 by omega)
  exact UInt16.lt_iff_toNat_lt.mpr (hsum ▸ Nat.add_lt_add_right h 8)

theorem add16_high : add16 a 8 = some (a + 8) :=
  if_pos (Nat.lt_trans (Nat.add_lt_add_right h 8) (by decide))

theorem readPattern_low (mem : μ) : Bare.readPattern a mem = some (AddressBus.read a mem) :=
  if_pos h.lt

theorem readPattern_high (mem : μ) :
    Bare.readPattern (a + 8) mem = some (AddressBus.read (a + 8) mem) := if_pos h.high_lt

end Planes

theorem toNat_backgroundTable (c : Control) : c.backgroundTable.toNat ≤ 0x1000 := by
  unfold Control.backgroundTable
  split <;> decide

theorem toNat_spriteTable (c : Control) : c.spriteTable.toNat ≤ 0x1000 := by
  unfold Control.spriteTable
  split <;> decide

section Background

variable (p : Ppu)

theorem isLowPlane_background :
    IsLowPlane (p.background.patternAddress p.control.backgroundTable p.v.line) :=
  isLowPlane_pattern (toNat_backgroundTable _) p.background.latch.tile.toNat_lt p.v.line.isLt

theorem backgroundAddress_bare :
    p.bare.backgroundAddress =
      some (p.background.patternAddress p.control.backgroundTable p.v.line) := by
  have hline : Position.line p.bare.v = .ofNat p.v.line := Position.line_bits p.v
  have htile := p.background.latch.tile.toNat_lt
  have hshift : p.bare.background.latch.tile.toUInt16 <<< (4 : UInt16) =
      .ofNat (p.background.latch.tile.toNat * 16) := by
    rw [toUInt16_eq_ofNat]
    exact tile_shiftLeft (htile.trans (by decide))
  rw [Bare.backgroundAddress, hline, hshift]
  exact add16_pattern (toNat_backgroundTable _) htile p.v.line.isLt

/-! ## 4. The background -/

variable (mem : μ)

theorem fetchTile_bare : p.bare.fetchTile mem = some (lowered (p.fetchTile mem)) := by
  have hread : Bare.readTable (Position.tileAddress p.bare.v) mem = _ := readTable_tile p.v mem
  rw [Bare.fetchTile, hread]
  rfl

theorem tileDot_bare (h : p.raster.InFrame) (hdot : 1 ≤ p.raster.dot) :
    p.bare.tileDot mem = some (lowered (p.tileDot mem)) := by
  have hbefore : sub16 p.bare.dot 1 = some (.ofNat (p.raster.dot - 1)) := sub16_bare_dot h hdot
  have haddress := backgroundAddress_bare p
  have hlow := isLowPlane_background p
  have hphase : (p.raster.dot - 1) % 8 < 8 := Nat.mod_lt _ (by decide)
  unfold Bare.tileDot tileDot
  rw [hbefore, Option.bind_eq_bind, Option.bind_some, toNat_dot_sub h]
  generalize (p.raster.dot - 1) % 8 = phase at hphase
  interval_cases phase
  · exact fetchTile_bare { p with background := p.background.load } mem
  · rfl
  · have hread : Bare.readTable (Position.attributeAddress p.bare.v) mem = _ :=
      readTable_attribute p.v mem
    have hshift : Bare.shiftRight8 (AddressBus.read p.v.attributeAddress mem).1
        (Position.attributeShift p.bare.v) = _ := shiftRight8_attribute p.v _
    simp only [hread, hshift, Option.bind_eq_bind, Option.bind_some]
    rfl
  · rfl
  · simp only [haddress, readPattern_low hlow, Option.bind_eq_bind, Option.bind_some]
    rfl
  · rfl
  · simp only [haddress, add16_high hlow, readPattern_high hlow, Option.bind_eq_bind,
      Option.bind_some]
    rfl
  · have hstep : Position.incrementX p.bare.v = _ := Position.incrementX_bits p.v
    simp only [hstep, Option.bind_some]
    rfl

theorem positionDot_bare (h : p.raster.InFrame) :
    p.bare.positionDot mem = some (lowered (p.positionDot mem)) := by
  have hdown : Position.incrementY p.bare.v = _ := Position.incrementY_bits p.v
  have hhorizontal : Position.copyHorizontal p.bare.v p.bare.t = _ :=
    Position.copyHorizontal_bits p.v p.t
  have hvertical : Position.copyVertical p.bare.v p.bare.t = _ :=
    Position.copyVertical_bits p.v p.t
  unfold Bare.positionDot positionDot
  rw [toNat_bare_dot h, toNat_bare_line h, hdown, hhorizontal, hvertical, Option.map_some,
    fetchTile_bare]
  dsimp only
  split
  · rfl
  split
  · rfl
  split
  · rfl
  · change (if _ && p.raster.isPreRender then _ else _) = _
    split <;> rfl

theorem backgroundDot_bare (h : p.raster.InFrame) :
    p.bare.backgroundDot mem = some (lowered (p.backgroundDot mem)) := by
  unfold Bare.backgroundDot backgroundDot
  rw [toNat_bare_dot h]
  by_cases hfetches : fetchesTile p.raster.dot = true
  · rw [if_pos hfetches, if_pos hfetches]
    have hshift : (if p.bare.mask.background then
          { p.bare with background := p.bare.background.shift } else p.bare) =
        (if p.mask.background then { p with background := p.background.shift } else p).bare := by
      change (if p.mask.background then _ else _) = _
      split <;> rfl
    have hraster :
        (if p.mask.background then { p with background := p.background.shift } else p).raster =
          p.raster := by
      split <;> rfl
    dsimp only
    rw [hshift]
    generalize (if p.mask.background then { p with background := p.background.shift } else p) = q
      at hraster
    rw [← hraster] at h hfetches
    obtain ⟨_, hreads⟩ := tileDot_reads q mem
    rw [tileDot_bare q mem h (by rw [fetchesTile_iff] at hfetches; omega), Option.bind_eq_bind,
      Option.bind_some]
    exact positionDot_bare (q.tileDot mem).1 (q.tileDot mem).2 (by rw [hreads]; exact h)
  · rw [if_neg hfetches, if_neg hfetches]
    exact positionDot_bare p mem h

end Background

end Famicom.Ppu
