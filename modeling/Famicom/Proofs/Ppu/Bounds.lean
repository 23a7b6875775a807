/-
# The bounds of a picture unit

A picture unit that was new once never leaves its bounds, whatever is done to it and in whatever
order: dots with rendering on or off, registers read and written in the middle of a line, resets,
changes of cartridges, and any memory on its bus (`bounds_of_new_unit`).

* **No calculation fails.**  The same history of a unit in bytes and words always has a result, and
  it is the unit's: no sum or difference overflows, no table is left, and tiles, colours and
  patterns are fetched from where they lie.
* **Every number is in its range** (`Bare.Bounded`), and every colour that is kept, in the picture
  or in palette memory, is one of the 64.
* **The palettes are not on the bus.**  An operation puts on the bus only addresses below `$3F00`,
  and a dot only such as lie in pattern tables and nametables.

Each is an invariant of single operations, and holds of a new unit.
-/
import Famicom.Proofs.Ppu.BareRegisters
import Famicom.Proofs.Ppu.Frames

namespace Famicom

/-- What holds of a byte and of every cell holds of every cell after the byte is written. -/
theorem Memory.forall_mem_write {n : Nat} [Size n] {P : UInt8 → Prop} {m : Memory n}
    (h : ∀ c ∈ m, P c) (i : Nat) {b : UInt8} (hb : P b) : ∀ c ∈ m.write i b, P c := by
  intro c hc
  obtain hc | rfl := Vector.mem_or_eq_of_mem_set hc
  · exact h c hc
  · exact hb

namespace Ppu

variable {μ : Type}

/-! ## 1. Numbers -/

/-- The numbers of a unit in bare words are in their ranges. -/
structure Bare.Bounded (x : Bare) : Prop where
  line : x.line ≤ 261
  dot : x.dot ≤ 340
  v : x.v < 0x8000
  t : x.t < 0x8000
  fineX : x.fineX ≤ 7
  sprite : x.search.sprite ≤ 63
  byte : x.search.byte ≤ 3
  found : x.search.found ≤ 8
  count : x.count ≤ 8
  /-- Only the three top bits are there. -/
  status : x.status &&& 0x1F = 0
  frame : ∀ c ∈ x.frame, c < 64
  palette : ∀ c ∈ x.palette, c < 64

/-- Every colour that is kept is one of the 64. -/
structure Coloured (p : Ppu) : Prop where
  frame : ∀ c ∈ p.frame, c < 64
  palette : ∀ c ∈ p.palette.cells, c < 64

theorem bits_and_low (s : Status) : s.bits &&& 0x1F = 0 := by
  obtain ⟨overflow, hit, vblank⟩ := s
  cases overflow <;> cases hit <;> cases vblank <;> rfl

theorem bits_lt (v : VramAddress) : v.bits < 0x8000 := by
  rw [UInt16.lt_iff_toNat_lt, v.toNat_bits]
  exact v.raw_lt

/-- A number that is no greater than a byte is no greater when it is one. -/
theorem byte_le {n k : Nat} (hk : k < 256) (h : n ≤ k) : UInt8.ofNat n ≤ .ofNat k := by
  rw [UInt8.le_iff_toNat_le, UInt8.toNat_ofNat_of_lt' (h.trans_lt hk), UInt8.toNat_ofNat_of_lt' hk]
  exact h

theorem bounded_bare {p : Ppu} (h : p.Within) (hc : p.Coloured) : p.bare.Bounded where
  line := by
    rw [UInt16.le_iff_toNat_le, toNat_bare_line h.raster]
    exact h.raster.line
  dot := by
    rw [UInt16.le_iff_toNat_le, toNat_bare_dot h.raster]
    exact h.raster.dot
  v := bits_lt p.v
  t := bits_lt p.t
  fineX := byte_le (by decide) (Nat.le_of_lt_succ p.fineX.isLt)
  sprite := byte_le (by decide) (Nat.le_of_lt_succ p.sprites.search.sprite.isLt)
  byte := byte_le (by decide) (Nat.le_of_lt_succ p.sprites.search.byte.isLt)
  found := byte_le (by decide) h.sprites.found
  count := byte_le (by decide) h.sprites.count
  status := bits_and_low p.status
  frame := hc.frame
  palette := hc.palette

/-! ## 2. Colours -/

section Bus

variable [AddressBus μ]

theorem and_colour_lt (b : UInt8) : b &&& 0x3F < 64 := by
  rw [UInt8.lt_iff_toNat_lt, UInt8.toNat_and]
  exact Nat.and_lt_two_pow (n := 6) b.toNat (by decide)

theorem palette_readRegister (p : Ppu) (a : UInt16) (mem : μ) :
    (p.readRegister a mem).2.1.palette = p.palette := by
  have hdata : (p.readData mem).2.1.palette = p.palette := by rw [readData_snd]
  unfold readRegister
  dsimp only
  split
  case h_3 => exact hdata
  all_goals rfl

/-- A register that is written changes no colour, or it is that of data and keeps six bits. -/
theorem palette_writeRegister (p : Ppu) (a : UInt16) (b : UInt8) (mem : μ) :
    (p.writeRegister a b mem).1.palette = p.palette ∨
      (p.writeRegister a b mem).1.palette = p.palette.write p.v.busAddress b := by
  have hscroll (q : Ppu) : (q.writeScroll b).palette = q.palette := by
    unfold writeScroll
    split <;> rfl
  have haddress (q : Ppu) : (q.writeAddress b).palette = q.palette := by
    unfold writeAddress
    split <;> rfl
  unfold writeRegister
  dsimp only
  split
  case h_6 => exact .inl (hscroll _)
  case h_7 => exact .inl (haddress _)
  case h_8 =>
    unfold writeData
    dsimp only
    split
    · exact .inr rfl
    · exact .inl rfl
  all_goals exact .inl rfl

theorem Coloured.after {s : Ppu × μ} (h : s.1.Coloured) (op : Operation μ) :
    (after s op).1.Coloured := by
  obtain ⟨p, mem⟩ := s
  constructor
  · have hframe : (Ppu.after (p, mem) op).1.frame = drawing p.frame (pixel? (p, mem) op) :=
      congrArg Screen.frame (after_screen (p, mem) op)
    rw [hframe]
    cases op with
    | tick =>
      unfold pixel?
      dsimp only
      split
      · exact Memory.forall_mem_write h.frame _ (UInt8.lt_iff_toNat_lt.mpr (toNat_shade_lt _ _))
      · exact h.frame
    | _ => exact h.frame
  · cases op with
    | tick =>
      have hpalette : (p.tick mem).1.palette = p.palette :=
        congrArg Settings.palette (tick_settings p mem)
      exact hpalette ▸ h.palette
    | readRegister a => exact palette_readRegister p a mem ▸ h.palette
    | writeRegister a b =>
      change ∀ c ∈ (p.writeRegister a b mem).1.palette.cells, c < 64
      obtain hsame | hwrite := palette_writeRegister p a b mem
      · rw [hsame]
        exact h.palette
      · rw [hwrite]
        exact Memory.forall_mem_write h.palette _ (and_colour_lt b)
    | takeFrameComplete =>
      change ∀ c ∈ p.takeFrameComplete.2.palette.cells, c < 64
      unfold takeFrameComplete
      split <;> exact h.palette
    | takeNmiRequest =>
      change ∀ c ∈ p.takeNmiRequest.2.palette.cells, c < 64
      unfold takeNmiRequest
      split <;> exact h.palette
    | _ => exact h.palette

/-! ## 3. Addresses -/

/-- The addresses that an operation puts on the bus, in order. -/
def reached (p : Ppu) : Operation μ → List UInt16
  | .tick => p.fetches
  | .readRegister a => if a.toNat % 8 = 7 then [fetchAddress p.v.busAddress] else []
  | .writeRegister a _ =>
    if a.toNat % 8 = 7 ∧ p.v.busAddress < paletteStart then [p.v.busAddress] else []
  | _ => []

/-- Behind the patterns lie the nametables. -/
theorem lt_of_pattern {a : UInt16} (h : a < 0x2000) : a < 0x3000 := UInt16.lt_trans h (by decide)

theorem tileFetches_lt (p : Ppu) : ∀ a ∈ p.tileFetches, a < 0x3000 := by
  have hlow := isLowPlane_background p
  unfold tileFetches
  intro a ha
  split at ha
  · exact List.mem_singleton.mp ha ▸ (inTables_tileAddress p.v).2
  · exact List.mem_singleton.mp ha ▸ (inTables_attributeAddress p.v).2
  · exact List.mem_singleton.mp ha ▸ lt_of_pattern hlow.lt
  · exact List.mem_singleton.mp ha ▸ lt_of_pattern hlow.high_lt
  · exact absurd ha List.not_mem_nil

theorem spriteFetches_lt (p : Ppu) (v : VramAddress) : ∀ a ∈ p.spriteFetches v, a < 0x3000 := by
  have hlow := isLowPlane_sprite p.sprites p.control p.raster.line
    (.ofNat 8 ((p.raster.dot - 257) / 8))
  unfold spriteFetches
  dsimp only
  intro a ha
  split at ha
  · exact List.mem_singleton.mp ha ▸ (inTables_tileAddress v).2
  · exact List.mem_singleton.mp ha ▸ (inTables_tileAddress v).2
  · exact List.mem_singleton.mp ha ▸ lt_of_pattern hlow.lt
  · exact List.mem_singleton.mp ha ▸ lt_of_pattern hlow.high_lt
  · exact absurd ha List.not_mem_nil

/-- **A dot reaches patterns and nametables**, and nothing behind them. -/
theorem fetches_lt (p : Ppu) : ∀ a ∈ p.fetches, a < 0x3000 := by
  intro a ha
  unfold fetches renderFetches backgroundFetches at ha
  split at ha
  · rw [List.mem_append] at ha
    obtain ha | ha := ha
    · split_ifs at ha
      · exact tileFetches_lt p a ha
      · exact List.mem_singleton.mp ha ▸ (inTables_tileAddress p.v).2
      · exact absurd ha List.not_mem_nil
    · split at ha
      · exact spriteFetches_lt p _ a ha
      · exact absurd ha List.not_mem_nil
  · exact absurd ha List.not_mem_nil

omit [AddressBus μ] in
theorem reached_lt (p : Ppu) (op : Operation μ) : ∀ a ∈ p.reached op, a < paletteStart := by
  intro a ha
  unfold reached at ha
  split at ha
  · exact UInt16.lt_trans (fetches_lt p a ha) (by decide)
  · split at ha
    · exact List.mem_singleton.mp ha ▸ fetchAddress_lt p.v.busAddress_lt
    · exact absurd ha List.not_mem_nil
  · split at ha
    · next hbelow => exact List.mem_singleton.mp ha ▸ hbelow.2
    · exact absurd ha List.not_mem_nil
  · exact absurd ha List.not_mem_nil

/-- **What an operation leaves in a log** is the addresses that it reaches. -/
theorem after_log (p : Ppu) (r : Recorded μ) {op : Operation (Recorded μ)}
    (hop : ∀ other, op ≠ .elsewhere other) :
    (after (p, r) op).2.log.toList.map Access.address =
      r.log.toList.map Access.address ++ p.reached op := by
  cases op with
  | tick => exact tick_log p r
  | readRegister a =>
    change (p.readRegister a r).2.2.log.toList.map _ = _ ++ if _ then _ else _
    by_cases ha : a.toNat % 8 = 7
    · have hdata : (p.readRegister a r).2.2 = (p.readData r).2.2 := by
        unfold readRegister
        rw [ha]
        rfl
      rw [hdata, readData_snd, if_pos ha, Recorded.read_snd, Array.toList_push, List.map_append]
      rfl
    · rw [readRegister_memory p ha, if_neg ha, List.append_nil]
  | writeRegister a b =>
    change (p.writeRegister a b r).2.log.toList.map _ = _ ++ if _ then _ else _
    by_cases ha : a.toNat % 8 = 7
    · have hdata : (p.writeRegister a b r).2 = ({ p with ioLatch := b }.writeData b r).2 := by
        unfold writeRegister
        rw [ha]
        rfl
      rw [hdata]
      unfold writeData
      dsimp only
      by_cases hpalette : paletteStart ≤ p.v.busAddress
      · rw [if_pos hpalette, if_neg fun h => UInt16.not_lt.mpr hpalette h.2, List.append_nil]
      · rw [if_neg hpalette, if_pos ⟨ha, UInt16.not_le.mp hpalette⟩, Recorded.write_eq,
          Array.toList_push, List.map_append]
        rfl
    · rw [writeRegister_memory p ha, if_neg fun h => ha h.1, List.append_nil]
  | elsewhere other => exact absurd rfl (hop other)
  -- Nothing else reaches the bus.
  | _ => exact (List.append_nil _).symm

/-! ## 4. Histories -/

theorem run_bare {s : Ppu × μ} (h : s.1.Within) (history : List (Operation μ)) :
    Bare.run (lowered s) history = some (lowered (run s history)) := by
  induction history generalizing s with
  | nil => rfl
  | cons op history ih =>
    rw [Bare.run, List.foldlM_cons, after_bare h, Option.bind_eq_bind, Option.bind_some]
    exact ih (h.after op)

theorem within_new : ({} : Ppu).Within := ⟨⟨le_rfl, Nat.zero_le 340⟩, Nat.zero_le 8, Nat.zero_le 8⟩

theorem coloured_new : ({} : Ppu).Coloured where
  frame c hc := by
    rw [Vector.eq_of_mem_replicate hc]
    decide
  palette c hc := by
    rw [Vector.eq_of_mem_replicate hc]
    decide

theorem bare_new : ({} : Ppu).bare = {} := rfl

/-- **A unit that was new once never leaves its bounds**: in bare words nothing of its history
fails, its numbers and colours are in their ranges, and whatever is done next, the bus that records
it is asked for nothing at the palettes. -/
theorem bounds_of_new_unit (mem : μ) (history : List (Operation μ)) :
    let s := run (({} : Ppu), mem) history
    Bare.run ({}, mem) history = some (lowered s) ∧ s.1.Within ∧ s.1.bare.Bounded ∧
      ∀ (log : Array Access) (op : Operation (Recorded μ)), (∀ other, op ≠ .elsewhere other) →
        ∃ added,
          (after (s.1, ⟨s.2, log⟩) op).2.log.toList.map Access.address =
              log.toList.map Access.address ++ added ∧
            (∀ a ∈ added, a < 0x3F00) ∧ (op = .tick → ∀ a ∈ added, a < 0x3000) := by
  intro s
  have hnew : lowered (({} : Ppu), mem) = ({}, mem) := congrArg (·, mem) bare_new
  have hwithin : s.1.Within :=
    run_invariant (I := fun s => s.1.Within) (fun _ op h => h.after op) within_new history
  have hcoloured : s.1.Coloured :=
    run_invariant (I := fun s => s.1.Coloured) (fun _ op h => h.after op) coloured_new history
  rw [← hnew]
  refine ⟨run_bare within_new history, hwithin, bounded_bare hwithin hcoloured, ?_⟩
  intro log op hop
  refine ⟨s.1.reached op, after_log s.1 _ hop, reached_lt s.1 op, ?_⟩
  rintro rfl
  exact fetches_lt s.1

end Bus

end Ppu

end Famicom
