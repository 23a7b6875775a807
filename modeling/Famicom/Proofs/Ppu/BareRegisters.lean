/-
# The registers in bare words

A program writes bytes, and cuts them up by shifts and masks: a tile and a pixel within it, the high
and the low part of an address.  What it reads and writes behind the data register lies where
fourteen bits of the position say, and that may be a palette, which is not on the bus; on the bus a
nametable is `$1000` below (`sub16_beneath`).

With the dots this is all that is done to a unit.  **An operation in bare words has a result, and it
is that of the operation** (`after_bare`); and it keeps the bounds (`Within.after`).
-/
import Famicom.Proofs.Ppu.BareDot
import Famicom.Proofs.Ppu.DataPort

namespace Famicom.Ppu

/-! ## 1. Bits of registers -/

/-- The register behind an address is told by three of its bits. -/
theorem toNat_and_seven (a : UInt16) : (a &&& 0x7).toNat = a.toNat % 8 := by
  rw [UInt16.toNat_and]
  exact Nat.and_two_pow_sub_one_eq_mod a.toNat 3

theorem toNat_shiftRight_three (b : UInt8) : (b >>> 3).toNat = b.toNat / 8 :=
  (UInt8.toNat_shiftRight b 3).trans (Nat.shiftRight_eq_div_pow b.toNat 3)

/-- A pixel within a tile. -/
theorem and_seven_eq (b : UInt8) : b &&& 0x07 = .ofNat (Fin.ofNat 8 b.toNat) := by
  have hlt := Nat.mod_lt b.toNat (show 0 < 8 by decide)
  rw [← UInt8.toNat_inj, UInt8.toNat_and, Fin.val_ofNat,
    UInt8.toNat_ofNat_of_lt' (hlt.trans (by decide))]
  exact Nat.and_two_pow_sub_one_eq_mod b.toNat 3

theorem busAddress_bits (v : VramAddress) : v.bits &&& 0x3FFF = v.busAddress := by
  have hlt := Nat.mod_lt v.raw (show 0 < 0x4000 by decide)
  rw [← UInt16.toNat_inj, UInt16.toNat_and, v.toNat_bits, VramAddress.busAddress,
    UInt16.toNat_ofNat_of_lt' (hlt.trans (by decide))]
  exact Nat.and_two_pow_sub_one_eq_mod v.raw 14

theorem increment_lt (c : Control) : c.increment < 0x8000 := by
  unfold Control.increment
  split <;> decide

theorem bits_vblank_read (s : Status) : (s.bits &&& 0x80 != 0) = s.vblank := by
  obtain ⟨overflow, hit, vblank⟩ := s
  cases overflow <;> cases hit <;> cases vblank <;> rfl

/-- Reading the status ends the report of blanking. -/
theorem bits_noticed (s : Status) : s.bits &&& ~~~0x80 = { s with vblank := false }.bits := by
  obtain ⟨overflow, hit, vblank⟩ := s
  cases overflow <;> cases hit <;> cases vblank <;> rfl

/-! ## 2. Picture memory -/

section Data

variable {μ : Type} [AddressBus μ]

theorem readBelow_of_lt {a : UInt16} (h : a < paletteStart) (mem : μ) :
    Bare.readBelow a mem = some (AddressBus.read a mem) := if_pos h

/-- Behind the palettes lie nametables. -/
theorem sub16_beneath {a : UInt16} (h : paletteStart ≤ a) : sub16 a 0x1000 = some (a - 0x1000) := by
  have hle : (0x1000 : UInt16) ≤ a := UInt16.le_trans (by decide) h
  exact if_pos (UInt16.le_iff_toNat_le.mp hle)

theorem writeOam_bare (p : Ppu) (b : UInt8) : p.bare.writeOam b = some (p.writeOam b).bare := by
  have hput : put? p.bare.oam p.bare.oamAddress.toNat b = _ :=
    put?_eq_write p.oam p.oamAddress.toNat_lt b
  rw [Bare.writeOam, hput]
  rfl

variable {p : Ppu} (h : p.Within)

include h

/-- The step that follows an access always has a result. -/
theorem nextPosition_bare : p.bare.nextPosition = some p.nextPosition.bits := by
  have hmask : p.bare.mask = p.mask := rfl
  have hright : Position.incrementX p.bare.v = _ := Position.incrementX_bits p.v
  have halong : Position.advance p.bare.v (.ofNat p.bare.control.increment) = _ :=
    Position.advance_bits p.v (increment_lt p.control)
  unfold Bare.nextPosition nextPosition
  rw [fetches_bare h, hmask, hright, halong, Option.bind_eq_bind, Option.bind_some,
    Position.incrementY_bits]
  split <;> rfl

variable (mem : μ)

theorem readData_bare :
    p.bare.readData mem = some ((p.readData mem).1, lowered (p.readData mem).2) := by
  have haddress : p.bare.v &&& 0x3FFF = p.v.busAddress := busAddress_bits p.v
  have hfetch := fetchAddress_lt p.v.busAddress_lt
  unfold Bare.readData readData
  rw [haddress]
  dsimp only
  rw [colour_bare, nextPosition_bare h]
  split
  · next hpalette =>
    have habove : ¬p.v.busAddress < 0x3F00 := UInt16.not_lt.mpr hpalette
    rw [fetchAddress, if_neg habove] at hfetch
    simp only [sub16_beneath hpalette, readBelow_of_lt hfetch, Option.bind_eq_bind,
      Option.bind_some]
    rfl
  · next hbelow =>
    simp only [readBelow_of_lt (UInt16.not_le.mp hbelow), Option.bind_eq_bind, Option.bind_some]
    rfl

theorem writeData_bare (b : UInt8) :
    p.bare.writeData b mem = some (lowered (p.writeData b mem)) := by
  have haddress : p.bare.v &&& 0x3FFF = p.v.busAddress := busAddress_bits p.v
  have hput : put? p.bare.palette (Palette.cell p.v.busAddress) (b &&& 0x3F) = _ :=
    put?_eq_write p.palette.cells (Palette.cell_lt _) _
  unfold Bare.writeData writeData
  rw [haddress]
  dsimp only
  rw [paletteIndex_eq, hput, nextPosition_bare h]
  split
  · rfl
  · next hbelow =>
    rw [Bare.writeBelow, if_pos (UInt16.not_le.mp hbelow)]
    rfl

end Data

/-! ## 3. Registers -/

section Registers

variable {μ : Type} [AddressBus μ]

theorem writeControl_bare (p : Ppu) (b : UInt8) :
    p.bare.writeControl b = (p.writeControl b).bare := by
  have ht : Position.setNametable p.bare.t b = _ := Position.setNametable_bits p.t b
  have hvblank : (p.bare.status &&& 0x80 != 0) = p.status.vblank := bits_vblank_read p.status
  unfold Bare.writeControl
  rw [ht, hvblank]
  rfl

theorem writeScroll_bare (p : Ppu) (b : UInt8) : p.bare.writeScroll b = (p.writeScroll b).bare := by
  have hline : Position.setLine p.bare.t b = _ := Position.setLine_bits p.t b
  have hcolumn : Position.setColumn p.bare.t (b >>> 3) = _ := Position.setColumn_bits p.t (b >>> 3)
  have htoggle : p.bare.toggle = p.toggle := rfl
  unfold Bare.writeScroll writeScroll
  rw [hline, Position.setRow_bits, hcolumn, toNat_shiftRight_three, and_seven_eq, htoggle]
  split <;> rfl

theorem writeAddress_bare (p : Ppu) (b : UInt8) :
    p.bare.writeAddress b = (p.writeAddress b).bare := by
  have hlow : Position.setLow p.bare.t b = _ := Position.setLow_bits p.t b
  have hhigh : Position.setHigh p.bare.t b = _ := Position.setHigh_bits p.t b
  have htoggle : p.bare.toggle = p.toggle := rfl
  unfold Bare.writeAddress writeAddress
  rw [hlow, hhigh, htoggle]
  split <;> rfl

variable {p : Ppu} (h : p.Within)

include h

theorem readRegister_bare (a : UInt16) (mem : μ) :
    p.bare.readRegister a mem =
      some ((p.readRegister a mem).1, lowered (p.readRegister a mem).2) := by
  have hstatus : p.bare.status &&& ~~~0x80 = _ := bits_noticed p.status
  have hoam : p.bare.oam[p.bare.oamAddress.toNat]? = some (p.oam.read p.oamAddress.toNat) :=
    getElem?_eq_read p.oam p.oamAddress.toNat_lt
  have hlt : a.toNat % 8 < 8 := Nat.mod_lt _ (by decide)
  unfold Bare.readRegister readRegister
  rw [toNat_and_seven, hstatus, hoam, readData_bare h]
  generalize a.toNat % 8 = register at hlt
  interval_cases register <;> rfl

theorem writeRegister_bare (a : UInt16) (b : UInt8) (mem : μ) :
    p.bare.writeRegister a b mem = some (lowered (p.writeRegister a b mem)) := by
  have hlatched : ({ p with ioLatch := b } : Ppu).Within := ⟨h.raster, h.sprites⟩
  have hx : ({ p.bare with ioLatch := b } : Bare) = ({ p with ioLatch := b } : Ppu).bare := rfl
  have hlt : a.toNat % 8 < 8 := Nat.mod_lt _ (by decide)
  unfold Bare.writeRegister writeRegister
  dsimp only
  rw [toNat_and_seven, hx, writeControl_bare, writeOam_bare, writeScroll_bare, writeAddress_bare,
    writeData_bare hlatched]
  generalize a.toNat % 8 = register at hlt
  interval_cases register <;> rfl

end Registers

/-! ## 4. Operations -/

section Operations

variable {μ : Type} [AddressBus μ]

/-- What an operation keeps. -/
theorem Within.after {s : Ppu × μ} (h : s.1.Within) (op : Operation μ) : (after s op).1.Within := by
  obtain ⟨p, mem⟩ := s
  -- No register reaches what drives the beam and the search.
  have hclockwork {q : Ppu} (hq : q.clockwork = p.clockwork) : q.Within := by
    have hraster : q.raster = p.raster := congrArg Clockwork.raster hq
    have hsprites : q.sprites = p.sprites := congrArg Clockwork.sprites hq
    exact ⟨hraster ▸ h.raster, hsprites ▸ h.sprites⟩
  cases op with
  | tick => exact (tick_bare h mem).2
  | readRegister a => exact hclockwork (readRegister_clockwork p a mem)
  | writeRegister a b => exact hclockwork (writeRegister_clockwork p a b mem)
  | takeFrameComplete =>
    change p.takeFrameComplete.2.Within
    unfold takeFrameComplete
    split
    · exact ⟨h.raster, h.sprites⟩
    · exact h
  | takeNmiRequest =>
    change p.takeNmiRequest.2.Within
    unfold takeNmiRequest
    split
    · exact ⟨h.raster, h.sprites⟩
    · exact h
  | clearCartridgeState => exact ⟨h.raster, h.sprites.found, Nat.zero_le 8⟩
  | reset => exact ⟨⟨le_rfl, Nat.zero_le 340⟩, Nat.zero_le 8, Nat.zero_le 8⟩
  | writeOam b => exact ⟨h.raster, h.sprites⟩
  | pokeOam i b => exact ⟨h.raster, h.sprites⟩
  | elsewhere mem' => exact h

theorem reset_bare (p : Ppu) : p.bare.reset = p.reset.bare := by
  unfold Bare.reset reset bare
  dsimp only
  congr 1

/-- **An operation on a unit in bare words has a result**, and it is that of the unit. -/
theorem after_bare {s : Ppu × μ} (h : s.1.Within) (op : Operation μ) :
    Bare.after (lowered s) op = some (lowered (after s op)) := by
  obtain ⟨p, mem⟩ := s
  cases op with
  | tick => exact (tick_bare h mem).1
  | readRegister a =>
    change (p.bare.readRegister a mem).map _ = _
    rw [readRegister_bare h]
    rfl
  | writeRegister a b => exact writeRegister_bare h a b mem
  | writeOam b =>
    change (p.bare.writeOam b).map _ = _
    rw [writeOam_bare]
    rfl
  | pokeOam i b =>
    have hlow : i &&& 0xFF = i % 256 := Nat.and_two_pow_sub_one_eq_mod i 8
    have hput : put? p.oam (i % 256) b = some (p.oam.write i b) :=
      put?_of_lt p.oam (Nat.mod_lt i (by decide)) b
    change (put? p.oam (i &&& 0xFF) b).map _ = _
    rw [hlow, hput]
    rfl
  | takeFrameComplete =>
    change _ = some (p.takeFrameComplete.2.bare, mem)
    unfold takeFrameComplete
    cases hcomplete : p.frameComplete with
    | true => rfl
    | false =>
      change some ({ p with frameComplete := false }.bare, mem) = some (p.bare, mem)
      rw [← hcomplete]
  | takeNmiRequest =>
    change _ = some (p.takeNmiRequest.2.bare, mem)
    unfold takeNmiRequest
    cases hrequest : p.nmiRequest with
    | true => rfl
    | false =>
      change some ({ p with nmiRequest := false }.bare, mem) = some (p.bare, mem)
      rw [← hrequest]
  | reset => exact congrArg (fun x => some (x, mem)) (reset_bare p)
  | _ => rfl

end Operations

end Famicom.Ppu
