/-
# The stream of tiles

The registers of the background hold two tiles side by side, and the fetches run one tile ahead of
them.  Seen over a line this is a stream: tile after tile enters on the right, and every dot it
moves up by one pixel.

`Streaming f table S n v b` says where the stream stands `n` dots after its first fetch, for tiles
taken from the position `S` on, and `Streaming.step` that **every dot of fetching moves it on by
one**.  Once two tiles have been fetched the registers hold the row of both (`Streaming.pixel`):
the bit that fine scrolling picks is the one that many pixels further down the row.
-/
import Famicom.Proofs.Bits
import Famicom.Proofs.Ppu.Beam

namespace Famicom

/-- The position a number of tiles to the right. -/
def VramAddress.tiles (v : VramAddress) (k : Nat) : VramAddress := incrementX^[k] v

theorem VramAddress.tiles_succ (v : VramAddress) (k : Nat) :
    v.tiles (k + 1) = (v.tiles k).incrementX :=
  Function.iterate_succ_apply' incrementX k v

namespace Ppu.Background

/-! ## 1. One register -/

/-- A register that held two bytes, after some dots. -/
def stream (near far : UInt8) (j : Nat) : UInt16 := word far near <<< .ofNat j

/-- Two rows side by side. -/
def twoRows (near far : UInt8) (i : Nat) : Bool :=
  if i < 8 then leftBit near i else leftBit far (i - 8)

theorem toNat_stream (near far : UInt8) {j : Nat} (hj : j ≤ 8) :
    (stream near far j).toNat = (word far near).toNat <<< j % 2 ^ 16 := by
  have hm : (UInt16.ofNat j).toNat % 16 = j := by
    rw [UInt16.toNat_ofNat_of_lt' (Nat.lt_of_le_of_lt hj (by decide))]
    omega
  rw [stream, UInt16.toNat_shiftLeft, hm]

theorem stream_shift (near far : UInt8) {j : Nat} (hj : j < 8) :
    stream near far j <<< 1 = stream near far (j + 1) := by
  apply UInt16.toNat_inj.mp
  have h1 : (1 : UInt16).toNat % 16 = 1 := rfl
  rw [UInt16.toNat_shiftLeft, h1, toNat_stream _ _ (by omega), toNat_stream _ _ (by omega)]
  simp only [Nat.shiftLeft_eq, Nat.mod_mul_mod, Nat.mul_assoc, Nat.pow_succ, Nat.pow_zero,
    Nat.one_mul]

/-- Replacing the low byte keeps the high one. -/
theorem withLow_eq (register : UInt16) (b : UInt8) :
    withLow register b = stream (highByte register) b 0 := by
  apply UInt16.toNat_inj.mp
  have hlt := (word b (highByte register)).toNat_lt
  rw [toNat_stream _ _ (by omega), withLow, Nat.shiftLeft_zero, Nat.mod_eq_of_lt hlt]

/-- After eight dots the far byte has become the near one. -/
theorem withLow_stream (near far b : UInt8) : withLow (stream near far 8) b = stream far b 0 := by
  have hh : highByte (stream near far 8) = far := by
    have hn := near.toNat_lt
    have hf := far.toNat_lt
    apply UInt8.toNat_inj.mp
    rw [toNat_highByte, toNat_stream _ _ (by omega), toNat_word, Nat.shiftLeft_eq]
    omega
  rw [withLow_eq, hh]

theorem testBit_word (low high : UInt8) (i : Nat) :
    (word low high).toNat.testBit i =
      if i < 8 then low.toNat.testBit i else high.toNat.testBit (i - 8) := by
  rw [toNat_word, Nat.mul_comm]
  exact Nat.testBit_two_pow_mul_add high.toNat low.toNat_lt i

theorem tap_eq (register : UInt16) (fineX : Fin 8) :
    tap register fineX = bitOf (register.toNat.testBit (15 - fineX)) := by
  have hf := fineX.isLt
  have hm : ((0x8000 : UInt16) >>> UInt16.ofNat fineX).toNat = 2 ^ (15 - fineX.val) := by
    have h15 : (0x8000 : UInt16).toNat = 2 ^ 15 := rfl
    have hi : (UInt16.ofNat fineX).toNat % 16 = fineX := by
      rw [UInt16.toNat_ofNat_of_lt' (Nat.lt_trans hf (by decide))]
      omega
    rw [UInt16.toNat_shiftRight, hi, h15, Nat.shiftRight_eq_div_pow,
      Nat.pow_div (by omega) (by decide)]
  have hb : (register &&& (0x8000 : UInt16) >>> UInt16.ofNat fineX != 0) =
      register.toNat.testBit (15 - fineX) := by
    rw [Bool.eq_iff_iff, bne_iff_ne, ne_eq, ← UInt16.toNat_inj, UInt16.toNat_and, hm,
      UInt16.toNat_zero, and_two_pow_eq_zero_iff, Bool.not_eq_false]
  rw [tap, hb]

/-- **The bit under the beam** is that of the two rows, as far down as they have moved and the fine
scroll says. -/
theorem tap_stream (near far : UInt8) {j : Nat} (hj : j < 8) (fineX : Fin 8) :
    tap (stream near far j) fineX = bitOf (twoRows near far (j + fineX)) := by
  have hf := fineX.isLt
  have hs : 15 - fineX - j = 15 - (j + fineX) := by omega
  rw [tap_eq, toNat_stream _ _ (by omega), Nat.testBit_mod_two_pow, Nat.testBit_shiftLeft,
    decide_eq_true (by omega : 15 - fineX.val < 16), decide_eq_true (by omega : 15 - fineX.val ≥ j),
    Bool.true_and, Bool.true_and, testBit_word, hs, twoRows]
  by_cases h : j + fineX < 8
  · have hi : 15 - (j + fineX) - 8 = 7 - (j + fineX) := by omega
    rw [if_neg (by omega), if_pos h, hi, leftBit_of_lt _ h]
  · have hi : 15 - (j + fineX) = 7 - (j + fineX - 8) := by omega
    rw [if_pos (by omega), if_neg h, hi, leftBit_of_lt _ (by omega)]

/-! ## 2. All four registers -/

/-- The bytes of a tile that enter the registers. -/
structure Rows where
  low : UInt8
  high : UInt8
  paletteLow : UInt8
  paletteHigh : UInt8

/-- The bytes with which a fetched tile enters the registers. -/
def rows (l : TileLatch) : Rows where
  low := l.low
  high := l.high
  paletteLow := spread (l.palette &&& 0x01 != 0)
  paletteHigh := spread (l.palette &&& 0x02 != 0)

/-- Registers that held two tiles, after some dots. -/
def holding (near far : Rows) (latch : TileLatch) (j : Nat) : Background where
  latch
  low := stream near.low far.low j
  high := stream near.high far.high j
  paletteLow := stream near.paletteLow far.paletteLow j
  paletteHigh := stream near.paletteHigh far.paletteHigh j

theorem shift_holding (near far : Rows) (latch : TileLatch) {j : Nat} (hj : j < 8) :
    (holding near far latch j).shift = holding near far latch (j + 1) := by
  simp only [shift, holding, stream_shift _ _ hj]

/-- After eight dots the fetched tile enters behind the far one. -/
theorem load_holding (near far : Rows) (latch : TileLatch) :
    (holding near far latch 8).load = holding far (rows latch) latch 0 := by
  simp only [load, holding, withLow_stream, rows]

/-- Whatever the registers held, after loading the far tile is the fetched one. -/
theorem load_eq (b : Background) : ∃ near, b.load = holding near (rows b.latch) b.latch 0 :=
  ⟨⟨highByte b.low, highByte b.high, highByte b.paletteLow, highByte b.paletteHigh⟩, by
    simp only [load, holding, withLow_eq, rows]⟩

/-! ## 3. Fetching a tile -/

section Fetch

variable (f : UInt16 → UInt8) (table : UInt16)

/-- The tile at a position, as its four fetches bring it. -/
def tileAt (v : VramAddress) : TileLatch where
  tile := f v.tileAddress
  palette := (f v.attributeAddress >>> .ofNat v.attributeShift) &&& 0x03
  low := f (table + .ofNat ((f v.tileAddress).toNat * 16 + v.line))
  high := f (table + .ofNat ((f v.tileAddress).toNat * 16 + v.line) + 8)

/-- What the latch holds of the tile at a position after so many dots of fetching it. -/
structure Fetching (v : VramAddress) (j : Nat) (l : TileLatch) : Prop where
  tile : l.tile = (tileAt f table v).tile
  palette : 2 ≤ j → l.palette = (tileAt f table v).palette
  low : 4 ≤ j → l.low = (tileAt f table v).low
  high : 6 ≤ j → l.high = (tileAt f table v).high

variable {f table} {v : VramAddress} {b : Background}

/-- After the fourth fetch the latch holds the tile. -/
theorem Fetching.complete {j : Nat} (hj : 6 ≤ j) {l : TileLatch} (h : Fetching f table v j l) :
    l = tileAt f table v := by
  obtain ⟨tile, palette, low, high⟩ := l
  have ht := h.tile
  have hp := h.palette (by omega)
  have hl := h.low (by omega)
  have hh := h.high hj
  dsimp only at ht hp hl hh
  rw [ht, hp, hl, hh]

theorem Fetching.start (b : Background) : Fetching f table v 0 (b.fetched f table 0 v).latch where
  tile := rfl
  palette h := absurd h (by decide)
  low h := absurd h (by decide)
  high h := absurd h (by decide)

/-- One more dot of fetching. -/
theorem Fetching.step {j : Nat} (hj : j < 7) (h : Fetching f table v j b.latch) :
    Fetching f table v (j + 1) (b.fetched f table (j + 1) v).latch := by
  obtain ⟨ht, hp, hl, hh⟩ := h
  have ha : b.patternAddress table v.line =
      table + .ofNat ((f v.tileAddress).toNat * 16 + v.line) := by
    rw [patternAddress, ht]
    rfl
  interval_cases j
  · exact ⟨ht, by omega, by omega, by omega⟩
  · exact ⟨ht, fun _ => rfl, by omega, by omega⟩
  · exact ⟨ht, fun _ => hp (by omega), by omega, by omega⟩
  · exact ⟨ht, fun _ => hp (by omega), fun _ => congrArg f ha, by omega⟩
  · exact ⟨ht, fun _ => hp (by omega), fun _ => hl (by omega), by omega⟩
  · exact ⟨ht, fun _ => hp (by omega), fun _ => hl (by omega), fun _ => congrArg (f <| · + 8) ha⟩
  · exact ⟨ht, fun _ => hp (by omega), fun _ => hl (by omega), fun _ => hh (by omega)⟩

/-- All dots of fetching but the first leave the registers alone. -/
theorem fetched_holding {near far : Rows} {latch : TileLatch} {i j : Nat} (hj : 0 < j) :
    (holding near far latch i).fetched f table j v =
      holding near far ((holding near far latch i).fetched f table j v).latch i := by
  unfold fetched
  split
  · omega
  all_goals rfl

/-! ## 4. The stream -/

/-- Where the stream stands, so many dots after the first fetch of the tile at `S`.  The position
and the latch belong to the tile being fetched; the registers hold the two before it. -/
structure Streaming (f : UInt16 → UInt8) (table : UInt16) (S : VramAddress) (n : Nat)
    (v : VramAddress) (b : Background) : Prop where
  position : v = S.tiles ((n + 1) / 8)
  fetching : Fetching f table (S.tiles (n / 8)) (n % 8) b.latch
  registers : 8 ≤ n →
    ∃ near, b = holding near (rows (tileAt f table (S.tiles (n / 8 - 1)))) b.latch (n % 8) ∧
      (16 ≤ n → near = rows (tileAt f table (S.tiles (n / 8 - 2))))

variable {S : VramAddress} {n : Nat}

/-- The first fetch of a stream, whatever the registers hold. -/
theorem Streaming.start (S : VramAddress) (b : Background) :
    Streaming f table S 0 (S.stepped 0) (b.fetched f table 0 S) :=
  ⟨rfl, .start b, fun h => absurd h (by decide)⟩

/-- Within a tile: its bytes arrive, and the registers move. -/
theorem Streaming.step_within (h : Streaming f table S n v b) (hj : n % 8 < 7) :
    Streaming f table S (n + 1) (v.stepped (n % 8 + 1))
      (b.shift.fetched f table (n % 8 + 1) v) := by
  obtain ⟨hv, hf, hr⟩ := h
  have hk : (n + 1) / 8 = n / 8 := by omega
  have hm : (n + 1) % 8 = n % 8 + 1 := by omega
  rw [hk] at hv
  refine ⟨?_, ?_, fun hn => ?_⟩
  · by_cases h6 : n % 8 = 6
    · have hk' : (n + 1 + 1) / 8 = n / 8 + 1 := by omega
      rw [hk', hv, h6, VramAddress.tiles_succ]
      rfl
    · have hk' : (n + 1 + 1) / 8 = n / 8 := by omega
      rw [hk', VramAddress.stepped, if_neg (by omega), hv]
  · rw [hk, hm, ← hv]
    rw [← hv] at hf
    exact Fetching.step (b := b.shift) hj hf
  · obtain ⟨near, hb, hnear⟩ := hr (by omega)
    refine ⟨near, ?_, fun h => ?_⟩
    · have hs : b.shift = holding near (rows (tileAt f table (S.tiles (n / 8 - 1)))) b.latch
          (n % 8 + 1) := by rw [hb, shift_holding _ _ _ (by omega)]; rfl
      rw [hk, hm, hs]
      exact fetched_holding (by omega)
    · rw [hk]
      exact hnear (by omega)

/-- From tile to tile: the fetched tile enters the registers, and the next one begins. -/
theorem Streaming.step_across (h : Streaming f table S n v b) (hj : n % 8 = 7) :
    Streaming f table S (n + 1) (v.stepped 0) (b.shift.fetched f table 0 v) := by
  obtain ⟨hv, hf, hr⟩ := h
  have hk : (n + 1) / 8 = n / 8 + 1 := by omega
  have hk' : (n + 1 + 1) / 8 = (n + 1) / 8 := by omega
  have hm : (n + 1) % 8 = 0 := by omega
  rw [hj] at hf hr
  have hlatch : b.latch = tileAt f table (S.tiles (n / 8)) := hf.complete (by omega)
  refine ⟨by rw [hk', ← hv]; rfl, ?_, fun _ => ?_⟩
  · rw [hm, ← hv]
    exact .start _
  · have hn1 : (n + 1) / 8 - 1 = n / 8 := by omega
    have hn2 : (n + 1) / 8 - 2 = n / 8 - 1 := by omega
    rw [hn1, hn2, hm, ← hlatch]
    by_cases hn : 8 ≤ n
    · obtain ⟨near, hb, -⟩ := hr hn
      have hs : b.shift.load = holding (rows (tileAt f table (S.tiles (n / 8 - 1)))) (rows b.latch)
          b.latch 0 := by
        rw [hb, shift_holding _ _ _ (by omega), load_holding]
        rfl
      refine ⟨_, ?_, fun _ => rfl⟩
      rw [fetched, hs]
      rfl
    · obtain ⟨near, hs⟩ := load_eq b.shift
      refine ⟨near, ?_, fun h => absurd h (by omega)⟩
      rw [fetched, hs]
      rfl

/-- **Every dot of fetching moves the stream on by one.** -/
theorem Streaming.step (h : Streaming f table S n v b) :
    Streaming f table S (n + 1) (v.stepped ((n + 1) % 8))
      (b.shift.fetched f table ((n + 1) % 8) v) := by
  by_cases hj : n % 8 = 7
  · have hm : (n + 1) % 8 = 0 := by omega
    rw [hm]
    exact h.step_across hj
  · have hm : (n + 1) % 8 = n % 8 + 1 := by omega
    rw [hm]
    exact h.step_within (by omega)

/-! ## 5. The pixel under the beam -/

/-- The two bits of a palette number, put together again. -/
theorem palette_bits {q : UInt8} (hq : q.toNat < 4) :
    bitOf (q &&& 0x02 != 0) * 2 + bitOf (q &&& 0x01 != 0) = q := by
  obtain ⟨n, hn⟩ : ∃ n, q.toNat = n := ⟨_, rfl⟩
  have hqn : q = UInt8.ofNat n := by rw [← hn, UInt8.ofNat_toNat]
  rw [hn] at hq
  rw [hqn]
  interval_cases n <;> rfl

theorem palette_tileAt_lt (v : VramAddress) : (tileAt f table v).palette.toNat < 4 := by
  have h : (tileAt f table v).palette.toNat ≤ 3 := by
    rw [tileAt, UInt8.toNat_and]
    exact Nat.and_le_right
  omega

/-- The pixel and the palette of the registers' bytes at one of their eight columns. -/
def Rows.pixel (r : Rows) (column : Nat) : UInt8 × UInt8 :=
  (bitOf (leftBit r.high column) * 2 + bitOf (leftBit r.low column),
    bitOf (leftBit r.paletteHigh column) * 2 + bitOf (leftBit r.paletteLow column))

/-- The pixel and the palette of a tile at one of its eight columns. -/
def tilePixel (t : TileLatch) (column : Nat) : UInt8 × UInt8 :=
  (bitOf (leftBit t.high column) * 2 + bitOf (leftBit t.low column), t.palette)

theorem leftBit_spread (bit : Bool) {i : Nat} (hi : i < 8) : leftBit (spread bit) i = bit := by
  cases bit <;> interval_cases i <;> rfl

theorem pixel_rows {t : TileLatch} (ht : t.palette.toNat < 4) {column : Nat} (hc : column < 8) :
    (rows t).pixel column = tilePixel t column := by
  simp only [Rows.pixel, rows, tilePixel, leftBit_spread _ hc, palette_bits ht]

theorem pixel_holding (near far : Rows) (latch : TileLatch) {j : Nat} (hj : j < 8)
    (fineX : Fin 8) :
    (holding near far latch j).pixel fineX =
      if j + fineX < 8 then near.pixel (j + fineX) else far.pixel (j + fineX - 8) := by
  simp only [pixel, holding, tap_stream _ _ hj, twoRows]
  split <;> rfl

/-- **The pixel under the beam** when two tiles stand in the registers: from the start of the
first, as many pixels on as the stream has moved and the fine scroll says. -/
theorem Streaming.pixel {x : Nat} (h : Streaming f table S (x + 16) v b) (fineX : Fin 8) :
    b.pixel fineX = tilePixel (tileAt f table (S.tiles ((x + fineX) / 8))) ((x + fineX) % 8) := by
  have hf := fineX.isLt
  obtain ⟨near, hb, hnear⟩ := h.registers (by omega)
  have hk1 : (x + 16) / 8 - 1 = x / 8 + 1 := by omega
  have hk2 : (x + 16) / 8 - 2 = x / 8 := by omega
  have hm : (x + 16) % 8 = x % 8 := by omega
  rw [hk1, hm, hnear (by omega), hk2] at hb
  rw [hb, pixel_holding _ _ _ (by omega)]
  by_cases hi : x % 8 + fineX < 8
  · have hq : (x + fineX) / 8 = x / 8 := by omega
    have hr : (x + fineX) % 8 = x % 8 + fineX := by omega
    rw [if_pos hi, hq, hr, pixel_rows (palette_tileAt_lt _) hi]
  · have hq : (x + fineX) / 8 = x / 8 + 1 := by omega
    have hr : (x + fineX) % 8 = x % 8 + fineX - 8 := by omega
    rw [if_neg hi, hq, hr, pixel_rows (palette_tileAt_lt _) (by omega)]

end Fetch

end Ppu.Background

end Famicom
