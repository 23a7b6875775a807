/-
# A line of background

Where nothing but the background is shown, a line is drawn out of two streams of tiles.  The one
that draws it began on the line before, at dot 321, and has two tiles in the registers when the line
begins.  The line's own fetches carry it on to the last column.  Then the position goes one line
down and back to where lines begin, and at dot 321 the stream of the next line begins there.

* `Scan` is what holds along a line: the stream stands where the dots so far have brought it.
* `Scan.column`: **at column `x` of the line the stream has moved by `x`**, so the pixel composed
  there is the one that many pixels to the right of where the line begins.
* `Scan.next_line`: the next line begins with two tiles of its own position in the registers.
-/
import Famicom.Proofs.Ppu.Plane

namespace Famicom.Ppu

open Background

variable {f : UInt16 → UInt8} {σ : Settings} {S : VramAddress} {p : Ppu} {line d n : Nat}

/-! ## 1. What a dot does while the background is drawn -/

/-- The background alone is shown, in all columns and with its hues. -/
def Settings.OnlyBackground (σ : Settings) : Prop := σ.mask = ⟨0x0A⟩

/-- The two parts of a dot that drawing the background is about. -/
theorem drawing_dot (hσ : σ.OnlyBackground) (hp : p.settings = σ) (hat : At line d p)
    (hl : line < 240 ∨ line = 261) :
    (p.dot f).v = movedPosition p.v d (line == 261) σ.t ∧
      (p.dot f).background = p.background.part f σ.control.backgroundTable true d p.v := by
  subst hp
  have hm : p.mask = ⟨0x0A⟩ := hσ
  have hr : p.mask.rendering := by rw [hm]; rfl
  have hb : p.mask.background = true := by rw [hm]; rfl
  have hf : p.raster.fetches := by
    rw [Raster.fetches_iff, hat.onLine]
    exact hl
  refine ⟨?_, ?_⟩
  · rw [dot_v hr hf, hat.atDot, Raster.isPreRender, hat.onLine]
    rfl
  · rw [dot_background hr hf, hat.atDot, hb]
    rfl

/-- A dot of fetching a tile, but for the one that ends a line. -/
theorem fetching_dot (hσ : σ.OnlyBackground) (hp : p.settings = σ) (hat : At line d p)
    (hl : line < 240 ∨ line = 261) (hd : 2 ≤ d ∧ d ≤ 255 ∨ 321 ≤ d ∧ d ≤ 337) :
    (p.dot f).v = p.v.stepped ((d - 1) % 8) ∧
      (p.dot f).background =
        p.background.shift.fetched f σ.control.backgroundTable ((d - 1) % 8) p.v := by
  obtain ⟨hv, hb⟩ := drawing_dot (f := f) hσ hp hat hl
  have hft : fetchesTile d := by
    rw [fetchesTile_iff]
    omega
  refine ⟨?_, ?_⟩
  · rw [hv, movedPosition, if_pos hft, VramAddress.relocated, if_neg (by omega), if_neg (by omega),
      if_neg (by omega)]
  · rw [hb, part, if_pos hft, if_pos rfl]

/-! ## 2. The stream along a line -/

/-- The stream of the tiles from `S` on stands where `n` dots bring it. -/
structure Scan (f : UInt16 → UInt8) (σ : Settings) (S : VramAddress) (n : Nat) (p : Ppu) :
    Prop where
  shown : σ.OnlyBackground
  settings : p.settings = σ
  stream : Streaming f σ.control.backgroundTable S n p.v p.background

/-- A dot of fetching moves the stream on. -/
theorem Scan.step (h : Scan f σ S n p) (hat : At line d p) (hl : line < 240 ∨ line = 261)
    (hd : 2 ≤ d ∧ d ≤ 255 ∨ 322 ≤ d ∧ d ≤ 337) (hn : (d - 1) % 8 = (n + 1) % 8) :
    Scan f σ S (n + 1) (p.dot f) := by
  obtain ⟨hv, hb⟩ := fetching_dot (f := f) h.shown h.settings hat hl (by omega)
  refine ⟨h.shown, by rw [dot_settings, h.settings], ?_⟩
  rw [hv, hb, hn]
  exact h.stream.step

/-- Fetching the number of a tile once more changes nothing. -/
theorem withTile_eq {v : VramAddress} {b : Background} (h : b.latch.tile = f v.tileAddress) :
    b.withTile f v = b := by
  rw [withTile, ← h]

/-- Between the last fetch of one line and the first of the next the stream stands still: what is
fetched there is the number of the tile that it already holds. -/
theorem Scan.idle (h : Scan f σ S 16 p) (hat : At line d p) (hl : line < 240 ∨ line = 261)
    (hd : d ≤ 1 ∨ 338 ≤ d) : Scan f σ S 16 (p.dot f) := by
  obtain ⟨hv, hb⟩ := drawing_dot (f := f) h.shown h.settings hat hl
  have hft : ¬fetchesTile d = true := by
    rw [fetchesTile_iff]
    omega
  have hv' : (p.dot f).v = p.v := by
    rw [hv, movedPosition, if_neg hft, VramAddress.relocated, if_neg (by omega), if_neg (by omega),
      if_neg (by omega)]
  have hb' : (p.dot f).background = p.background := by
    have ht : p.background.latch.tile = f p.v.tileAddress := by
      rw [h.stream.position]
      exact h.stream.fetching.tile
    rw [hb, part, if_neg hft, withTile_eq ht, ite_self]
  refine ⟨h.shown, by rw [dot_settings, h.settings], ?_⟩
  rw [hv', hb']
  exact h.stream

/-- The last dot of fetching on a line, which also goes one line down. -/
theorem Scan.last (h : Scan f σ S 270 p) (hat : At line 256 p) (hl : line < 240 ∨ line = 261) :
    (p.dot f).v = (S.tiles 34).incrementY ∧
      Streaming f σ.control.backgroundTable S 271 (S.tiles 34) (p.dot f).background := by
  obtain ⟨hv, hb⟩ := drawing_dot (f := f) h.shown h.settings hat hl
  have hs := h.stream.step
  have hv' : p.v.stepped 7 = S.tiles 34 := hs.position
  rw [hb]
  refine ⟨by rw [hv, ← hv']; rfl, ?_⟩
  rw [← hv']
  exact hs

/-! ## 3. From column to column -/

/-- From dot 1 of a line on, before column 255 is drawn. -/
theorem Scan.run (h : Scan f σ S 16 p) (hat : At line 1 p) (hl : line < 240) :
    ∀ {x : Nat}, x ≤ 254 → Scan f σ S (16 + x) ((dot f)^[1 + x] p)
  | 0, _ => h.idle hat (.inl hl) (by omega)
  | x + 1, hx => by
    have hx1 : 1 + (x + 1) = 1 + x + 1 := by omega
    have hat' : At line (1 + (1 + x)) ((dot f)^[1 + x] p) := hat.run (by omega)
    rw [hx1, Function.iterate_succ_apply']
    exact (h.run hat hl (by omega)).step hat' (.inl hl) (by omega) (by omega)

/-- **The registers as a column is drawn.** -/
theorem Scan.column (h : Scan f σ S 16 p) (hat : At line 1 p) (hl : line < 240) {x : Nat}
    (hx : x < 256) :
    ∃ v, Streaming f σ.control.backgroundTable S (x + 16) v ((dot f)^[x + 1] p).background := by
  by_cases hx' : x ≤ 254
  · refine ⟨((dot f)^[1 + x] p).v, ?_⟩
    rw [Nat.add_comm x 16, Nat.add_comm x 1]
    exact (h.run hat hl hx').stream
  · have h255 : x = 255 := by omega
    have hat' : At line 256 ((dot f)^[255] p) := hat.run (n := 255) (by omega)
    refine ⟨S.tiles 34, ?_⟩
    rw [h255, Function.iterate_succ_apply']
    exact ((h.run hat hl (x := 254) (by omega)).last hat' (.inl hl)).2

/-! ## 4. Between two lines -/

/-- What the dots do to the position after the pixels and before the next line's fetches. -/
theorem movedPosition_between (v t : VramAddress) (isPreRender : Bool) (hd : 257 ≤ d ∧ d ≤ 320) :
    movedPosition v d isPreRender t =
      if d = 257 then v.copyHorizontal t
      else if 280 ≤ d ∧ d ≤ 304 ∧ isPreRender then v.copyVertical t
      else v := by
  by_cases h257 : d = 257
  · subst h257
    rfl
  · have hft : ¬fetchesTile d = true := by
      rw [fetchesTile_iff]
      omega
    rw [movedPosition, if_neg hft, VramAddress.relocated, if_neg (by omega)]

/-- The position from one line of the picture to the next. -/
theorem between_dot (hσ : σ.OnlyBackground) (hp : p.settings = σ) (hat : At line d p)
    (hl : line < 240) (hd : 257 ≤ d ∧ d ≤ 320) :
    (p.dot f).v = if d = 257 then p.v.copyHorizontal σ.t else p.v := by
  obtain ⟨hv, -⟩ := drawing_dot (f := f) hσ hp hat (.inl hl)
  have hpre : (line == 261) = false := by
    rw [beq_eq_false_iff_ne]
    omega
  rw [hv, movedPosition_between _ _ _ hd, hpre]
  simp only [Bool.false_eq_true, and_false, if_false]

/-- The stream of the next line, from its first fetch on. -/
theorem Scan.refill (hσ : σ.OnlyBackground) (hp : p.settings = σ) (hat : At line 321 p)
    (hl : line < 240 ∨ line = 261) :
    ∀ {n : Nat}, n ≤ 16 → Scan f σ p.v n ((dot f)^[1 + n] p)
  | 0, _ => by
    obtain ⟨hv, hb⟩ := fetching_dot (f := f) hσ hp hat hl (by omega)
    refine ⟨hσ, by rw [dots_settings, hp], ?_⟩
    change Streaming _ _ _ _ (p.dot f).v (p.dot f).background
    rw [hv, hb]
    exact .start _ _
  | n + 1, hn => by
    have hn1 : 1 + (n + 1) = 1 + n + 1 := by omega
    have hat' : At line (321 + (1 + n)) ((dot f)^[1 + n] p) := hat.run (by omega)
    rw [hn1, Function.iterate_succ_apply']
    exact (Scan.refill hσ hp hat hl (by omega)).step hat' hl (by omega) (by omega)

/-- After the last column: the position goes one line down, and back to where lines begin. -/
theorem Scan.turn (h : Scan f σ S 16 p) (hat : At line 1 p) (hl : line < 240) :
    ((dot f)^[320] p).v = ((S.tiles 34).incrementY).copyHorizontal σ.t := by
  have h256 : ((dot f)^[256] p).v = (S.tiles 34).incrementY := by
    have hat' : At line 256 ((dot f)^[255] p) := hat.run (n := 255) (by omega)
    rw [Function.iterate_succ_apply']
    exact ((h.run hat hl (x := 254) (by omega)).last hat' (.inl hl)).1
  have hsettings : ∀ k, ((dot f)^[k] p).settings = σ := fun k => by rw [dots_settings, h.settings]
  have hgo : ∀ k, k ≤ 63 →
      ((dot f)^[257 + k] p).v = ((S.tiles 34).incrementY).copyHorizontal σ.t := by
    intro k hk
    induction k with
    | zero =>
      have hat' : At line 257 ((dot f)^[256] p) := hat.run (n := 256) (by omega)
      rw [Function.iterate_succ_apply', between_dot h.shown (hsettings _) hat' hl (by omega),
        if_pos rfl, h256]
    | succ k ih =>
      have hat' : At line (1 + (257 + k)) ((dot f)^[257 + k] p) := hat.run (by omega)
      have hk1 : 257 + (k + 1) = 257 + k + 1 := by omega
      rw [hk1, Function.iterate_succ_apply', between_dot h.shown (hsettings _) hat' hl (by omega),
        if_neg (by omega), ih (by omega)]
  exact hgo 63 (by omega)

/-- Going down and back leaves the horizontal position where the line began. -/
theorem turn_eq {t : VramAddress} (hc : S.column = t.column) (hr : S.right = t.right) (k : Nat) :
    ((S.tiles k).incrementY).copyHorizontal t = S.incrementY := by
  obtain ⟨hrow, hlower, hline⟩ := S.tiles_vertical k
  unfold VramAddress.copyHorizontal VramAddress.incrementY
  rw [hrow, hlower, hline, ← hc, ← hr]
  split
  · split <;> rfl
  · rfl

/-- The dots that only finish a line, after the refill. -/
theorem Scan.finish (h : Scan f σ S 16 p) (hat : At line 338 p) (hl : line < 240) :
    At (line + 1) 0 ((dot f)^[3] p) ∧ Scan f σ S 16 ((dot f)^[3] p) := by
  have h339 := hat.step (f := f) (by omega)
  have h340 := h339.step_visible (f := f) hl (by omega)
  have s339 := h.idle hat (.inl hl) (by omega)
  have s340 := s339.idle h339 (.inl hl) (by omega)
  exact ⟨h340.step_last hl, s340.idle h340 (.inl hl) (by omega)⟩

/-- **From line to line**: the next line begins as this one did, one line further down. -/
theorem Scan.next_line (h : Scan f σ S 16 p) (hat : At line 0 p) (hl : line < 240)
    (hc : S.column = σ.t.column) (hr : S.right = σ.t.right) :
    At (line + 1) 0 ((dot f)^[341] p) ∧ Scan f σ S.incrementY 16 ((dot f)^[341] p) := by
  have h1 : Scan f σ S 16 (p.dot f) := h.idle hat (.inl hl) (by omega)
  have hat1 : At line 1 (p.dot f) := hat.step (by omega)
  have h321 : ((dot f)^[320] (p.dot f)).v = S.incrementY := by
    rw [h1.turn hat1 hl, turn_eq hc hr]
  have hat321 : At line 321 ((dot f)^[320] (p.dot f)) := hat1.run (n := 320) (by omega)
  have h338 := Scan.refill (f := f) (n := 16) h.shown (by rw [dots_settings, h1.settings]) hat321
    (.inl hl) (by omega)
  rw [h321] at h338
  have hat338 : At line 338 ((dot f)^[1 + 16] ((dot f)^[320] (p.dot f))) :=
    hat321.run (n := 17) (by omega)
  have hgo : (dot f)^[341] p = (dot f)^[3] ((dot f)^[1 + 16] ((dot f)^[320] (p.dot f))) := by
    rw [← Function.iterate_add_apply, ← Function.iterate_add_apply,
      ← Function.iterate_succ_apply]
  rw [hgo]
  exact h338.finish hat338 hl

/-! ## 5. The rehearsal line -/

/-- Where the position stands on the rehearsal line: it goes back to where lines begin, and then to
the top. -/
structure Rehearsed (σ : Settings) (d : Nat) (p : Ppu) : Prop where
  settings : p.settings = σ
  onLine : At 261 d p
  horizontal : 258 ≤ d → p.v.column = σ.t.column ∧ p.v.right = σ.t.right
  vertical : 281 ≤ d → p.v.row = σ.t.row ∧ p.v.lower = σ.t.lower ∧ p.v.line = σ.t.line

theorem Rehearsed.step (hσ : σ.OnlyBackground) (hd : d < 321) (h : Rehearsed σ d p) :
    Rehearsed σ (d + 1) (p.dot f) := by
  obtain ⟨hv, -⟩ := drawing_dot (f := f) hσ h.settings h.onLine (.inr rfl)
  refine ⟨by rw [dot_settings, h.settings], h.onLine.step (by omega), fun hd' => ?_, fun hd' => ?_⟩
  · rw [hv, movedPosition_between _ _ _ (by omega)]
    split
    · exact ⟨rfl, rfl⟩
    split
    · exact h.horizontal (by omega)
    · exact h.horizontal (by omega)
  · rw [hv, movedPosition_between _ _ _ (by omega), if_neg (by omega)]
    split
    · exact ⟨rfl, rfl, rfl⟩
    · rename_i hn
      have hn' : 304 < d := by
        by_contra hlt
        exact hn ⟨by omega, by omega, rfl⟩
      exact h.vertical (by omega)

/-- **On the rehearsal line the position becomes the one a program has set.** -/
theorem rehearsed_v (hσ : σ.OnlyBackground) (hp : p.settings = σ) (hat : At 261 0 p) :
    ((dot f)^[321] p).v = σ.t := by
  have h0 : Rehearsed σ 0 p := ⟨hp, hat, by omega, by omega⟩
  have h : Rehearsed σ (0 + 321) ((dot f)^[321] p) :=
    dots_induction (I := Rehearsed σ) (fun _ _ _ hd h => h.step hσ hd) h0 321 (Nat.le_refl _)
  obtain ⟨hc, hr⟩ := h.horizontal (by omega)
  obtain ⟨hrow, hlower, hline⟩ := h.vertical (by omega)
  generalize ((dot f)^[321] p).v = v at hc hr hrow hlower hline
  obtain ⟨column, row, right, lower, line⟩ := v
  dsimp only at hc hr hrow hlower hline
  rw [hc, hr, hrow, hlower, hline]

/-- Dots of the rehearsal line; an odd frame is a dot shorter. -/
def rehearsalDots (odd : Bool) : Nat := if odd then 340 else 341

/-- At the end of the rehearsal line the beam goes back to the top. -/
theorem At.wrap (h : At 261 d p) (hr : p.mask.rendering = true)
    (hd : d + 1 = rehearsalDots p.raster.odd) : At 0 0 (p.dot f) := by
  have hpre : p.raster.isPreRender = true := (Raster.isPreRender_iff _).mpr h.onLine
  have hdot := h.atDot
  have hn : (p.dot f).raster =
      { line := 0, dot := 0, odd := !p.raster.odd, frames := p.raster.frames + 1 } := by
    rw [dot_raster, hr, Raster.next, hpre, h.onLine]
    unfold rehearsalDots at hd
    cases hodd : p.raster.odd
    · rw [hodd, if_neg Bool.false_ne_true] at hd
      exact if_neg (by simp; omega)
    · rw [hodd, if_pos rfl] at hd
      exact if_neg (by simp; omega)
  exact ⟨by rw [hn], by rw [hn]⟩

/-- In an even frame the rehearsal line has its last dot. -/
theorem At.step_even (h : At 261 339 p) (hodd : p.raster.odd = false) :
    At 261 340 (p.dot f) ∧ (p.dot f).raster.odd = false := by
  have hn : (p.dot f).raster = { p.raster with dot := p.raster.dot + 1 } := by
    have hlt : p.raster.dot < 340 := by
      rw [h.atDot]
      omega
    rw [dot_raster]
    simp only [Raster.next, hodd, Bool.and_false, Bool.false_and, Bool.false_eq_true, if_false,
      if_pos hlt]
  exact ⟨⟨by rw [hn, h.onLine], by rw [hn, h.atDot]⟩, by rw [hn, hodd]⟩

/-- **The picture begins** with two tiles of the program's position in the registers, whether or
not the frame was a dot shorter. -/
theorem Scan.first_line (hσ : σ.OnlyBackground) (hp : p.settings = σ) (hat : At 261 0 p) :
    At 0 0 ((dot f)^[rehearsalDots p.raster.odd] p) ∧
      Scan f σ σ.t 16 ((dot f)^[rehearsalDots p.raster.odd] p) := by
  have hsettings : ∀ k, ((dot f)^[k] p).settings = σ := fun k => by rw [dots_settings, hp]
  have hr : ∀ k, ((dot f)^[k] p).mask.rendering = true := fun k => by
    have hm : ((dot f)^[k] p).mask = σ.mask := congrArg Settings.mask (hsettings k)
    rw [hm, hσ]
    rfl
  have hat321 : At 261 321 ((dot f)^[321] p) := hat.run (n := 321) (by omega)
  have hat338 : At 261 338 ((dot f)^[338] p) := hat.run (n := 338) (by omega)
  have hat339 : At 261 339 ((dot f)^[339] p) := hat.run (n := 339) (by omega)
  have h338 : Scan f σ σ.t 16 ((dot f)^[338] p) := by
    have h := Scan.refill (f := f) (n := 16) hσ (hsettings 321) hat321 (.inr rfl) (by omega)
    rwa [rehearsed_v hσ hp hat, ← Function.iterate_add_apply] at h
  have h339 : Scan f σ σ.t 16 ((dot f)^[339] p) := by
    rw [Function.iterate_succ_apply']
    exact h338.idle hat338 (.inr rfl) (by omega)
  have h340 : Scan f σ σ.t 16 ((dot f)^[340] p) := by
    rw [Function.iterate_succ_apply']
    exact h339.idle hat339 (.inr rfl) (by omega)
  have hodd339 : ((dot f)^[339] p).raster.odd = p.raster.odd := by
    rw [raster_run (by rw [hat.atDot])]
  cases hodd : p.raster.odd
  · obtain ⟨hat340, hodd340⟩ := hat339.step_even (f := f) (hodd339.trans hodd)
    rw [← Function.iterate_succ_apply' (dot f) 339] at hat340 hodd340
    refine ⟨?_, ?_⟩
    · change At 0 0 ((dot f)^[341] p)
      rw [Function.iterate_succ_apply']
      exact hat340.wrap (hr 340) (by rw [hodd340]; rfl)
    · change Scan f σ σ.t 16 ((dot f)^[341] p)
      rw [Function.iterate_succ_apply']
      exact h340.idle hat340 (.inr rfl) (by omega)
  · refine ⟨?_, h340⟩
    change At 0 0 ((dot f)^[340] p)
    rw [Function.iterate_succ_apply']
    exact hat339.wrap (hr 339) (by rw [hodd339, hodd]; rfl)

end Famicom.Ppu
