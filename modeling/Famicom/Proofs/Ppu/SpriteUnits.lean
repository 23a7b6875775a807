/-
# The units that draw sprites

Between two lines the eight units take over what the search has found.  Each gets a block of eight
dots in which the two planes of its sprite's row arrive, and at the end of its block it is ready:
`units_loaded` says that **after the eight blocks every unit holds the row of its place in the
list**, and that no unit beyond the last sprite found holds anything.

On the line itself a unit waits as many dots as its sprite's column says, and then shifts its row
out.  So **at column `x` a unit is at pixel `x - X` of its row** (`shows_iterate`), and the
foremost unit is the first in use with a pixel there that is not transparent (`front_of_list`).
-/
import Famicom.Proofs.Bits
import Famicom.Proofs.Ppu.SpriteSearch

namespace Famicom.Ppu

variable {f : UInt16 → UInt8} {σ : Settings} {p : Ppu} {line d : Nat}

/-! ## 1. A unit that is ready -/

/-- The address of the low plane for a place of a list. -/
def listAddress (control : Control) (line : Nat) (list : Memory 32) (slot : Fin 8) : UInt16 :=
  ({ secondary := list } : Sprites).patternAddress control line slot

/-- A unit once both planes have arrived. -/
def readyUnit (list : Memory 32) (count : Nat) (slot : Fin 8) (low high : UInt8) : SpriteUnit :=
  let attributes := list.read (slot * 4 + 2)
  let x := list.read (slot * 4 + 3)
  if count ≤ slot then { attributes, x }
  else if attributes &&& 0x40 != 0 then
    { low := reverseBits low, high := reverseBits high, attributes, x }
  else { low, high, attributes, x }

theorem loadHigh_loadLow (s : Sprites) (slot : Fin 8) (low high : UInt8) :
    (s.loadLow slot low).loadHigh slot high =
      { s with
        units := s.units.set slot (readyUnit s.secondary s.count slot low high) slot.isLt } := by
  obtain ⟨search, secondary, units, count, zeroInLine⟩ := s
  unfold Sprites.loadLow Sprites.loadHigh readyUnit
  simp only [Fin.getElem_fin, Vector.getElem_set_self, Vector.set_set]

/-! ## 2. The fetches -/

/-- Of the eight dots of a block, five do nothing to the sprites. -/
theorem fetched_idle (control : Control) (s : Sprites) (slot : Fin 8) {i : Nat} (hi : i < 8)
    (h : i ≠ 0 ∧ i ≠ 4 ∧ i ≠ 6) :
    s.fetched f control line (8 * slot + i) = s := by
  have hm : (8 * slot.val + i) % 8 = i := by omega
  unfold Sprites.fetched
  rw [hm]
  dsimp only
  split
  · exact absurd rfl h.1
  · exact absurd rfl h.2.1
  · exact absurd rfl h.2.2
  · rfl

theorem slot_of_offset (slot : Fin 8) {i : Nat} (hi : i < 8) :
    Fin.ofNat 8 ((8 * slot.val + i) / 8) = slot := by
  have hs := slot.isLt
  apply Fin.ext
  rw [Fin.val_ofNat]
  omega

theorem fetched_low (control : Control) (s : Sprites) (slot : Fin 8) :
    s.fetched f control line (8 * slot + 4) =
      s.loadLow slot (f (listAddress control line s.secondary slot)) := by
  have hm : (8 * slot.val + 4) % 8 = 4 := by omega
  unfold Sprites.fetched
  rw [slot_of_offset slot (by decide), hm]
  rfl

theorem fetched_high (control : Control) (s : Sprites) (slot : Fin 8) :
    s.fetched f control line (8 * slot + 6) =
      s.loadHigh slot (f (listAddress control line s.secondary slot + 8)) := by
  have hm : (8 * slot.val + 6) % 8 = 6 := by omega
  unfold Sprites.fetched
  rw [slot_of_offset slot (by decide), hm]
  rfl

theorem fetched_first (control : Control) (s : Sprites) (slot : Fin 8) :
    s.fetched f control line (8 * slot) = if slot = 0 then s.adopt else s := by
  have hm : 8 * slot.val % 8 = 0 := by omega
  unfold Sprites.fetched
  rw [hm, ← Nat.add_zero (8 * slot.val), slot_of_offset slot (by decide)]
  rfl

/-- What a dot of fetching does to the sprites. -/
theorem fetch_dot (hs : σ.mask.sprites = true) (hp : p.settings = σ) {o : Nat}
    (hat : At line (257 + o) p) (hl : line < 240) (ho : o < 64) :
    (p.dot f).sprites = (p.sprites.fetched f σ.control line o).moved true (257 + o) := by
  have hsub : 257 + o - 257 = o := by omega
  rw [sprites_dot hs hp hat hl, Sprites.part, if_neg (by omega), if_neg (by omega),
    if_neg (by omega), if_neg (by omega), if_pos (by omega), hsub]

theorem moved_of_lt (s : Sprites) (h : 257 < d) : s.moved true d = s :=
  if_neg (by omega)

/-- **A block of eight dots** makes one unit ready. -/
theorem fetch_block (hs : σ.mask.sprites = true) (hp : p.settings = σ) (slot : Fin 8)
    (hat : At line (257 + 8 * slot) p) (hl : line < 240) :
    ((dot f)^[8] p).sprites =
      ((p.dot f).sprites.loadLow slot
          (f (listAddress σ.control line (p.dot f).sprites.secondary slot))).loadHigh slot
        (f (listAddress σ.control line (p.dot f).sprites.secondary slot + 8)) := by
  have hslot := slot.isLt
  have hdot : ∀ i, 1 ≤ i → i < 8 → ((dot f)^[i + 1] p).sprites =
      ((dot f)^[i] p).sprites.fetched f σ.control line (8 * slot + i) := by
    intro i hi hi8
    have hat' : At line (257 + (8 * slot + i)) ((dot f)^[i] p) := by
      rw [← Nat.add_assoc]
      exact hat.run (by omega)
    rw [Function.iterate_succ_apply', fetch_dot hs (by rw [dots_settings, hp]) hat' hl (by omega),
      moved_of_lt _ (by omega)]
  have hidle : ∀ i, 1 ≤ i → i < 8 → i ≠ 4 → i ≠ 6 →
      ((dot f)^[i + 1] p).sprites = ((dot f)^[i] p).sprites := by
    intro i hi hi8 h4 h6
    rw [hdot i hi hi8, fetched_idle _ _ _ hi8 ⟨by omega, h4, h6⟩]
  rw [hidle 7 (by decide) (by decide) (by decide) (by decide),
    hdot 6 (by decide) (by decide), fetched_high,
    hidle 5 (by decide) (by decide) (by decide) (by decide),
    hdot 4 (by decide) (by decide), fetched_low,
    hidle 3 (by decide) (by decide) (by decide) (by decide),
    hidle 2 (by decide) (by decide) (by decide) (by decide),
    hidle 1 (by decide) (by decide) (by decide) (by decide)]
  rfl

/-- The unit of a place of the list, with the row that is fetched for it. -/
def unitOf (f : UInt16 → UInt8) (control : Control) (line : Nat) (list : Memory 32) (count : Nat)
    (slot : Fin 8) : SpriteUnit :=
  readyUnit list count slot (f (listAddress control line list slot))
    (f (listAddress control line list slot + 8))

/-- The first `k` units are ready. -/
structure Loaded (f : UInt16 → UInt8) (control : Control) (line : Nat) (l : Listing) (k : Nat)
    (s : Sprites) : Prop where
  listing : s.listing = l
  count : s.count = min l.search.found 8
  zeroInLine : s.zeroInLine = l.search.hasZero
  units : ∀ j : Fin 8, j.val < k → s.units.get j = unitOf f control line l.list s.count j

/-- A block makes the unit of its place ready, and leaves the others alone. -/
theorem Loaded.block {l : Listing} {s : Sprites} (slot : Fin 8)
    (h : Loaded f σ.control line l slot s) :
    Loaded f σ.control line l (slot + 1)
      ((s.loadLow slot (f (listAddress σ.control line s.secondary slot))).loadHigh slot
        (f (listAddress σ.control line s.secondary slot + 8))) := by
  have hlist : s.secondary = l.list := congrArg Listing.list h.listing
  rw [loadHigh_loadLow]
  refine ⟨h.listing, h.count, h.zeroInLine, fun j hj => ?_⟩
  change (s.units.set slot _ slot.isLt)[j.val] = _
  rw [Vector.getElem_set]
  by_cases hjs : slot.val = j.val
  · rw [if_pos hjs, hlist, Fin.ext hjs]
    rfl
  · rw [if_neg hjs]
    exact h.units j (by omega)

/-- The units take over what the search has found, before the first block. -/
theorem loaded_zero (hs : σ.mask.sprites = true) (hp : p.settings = σ) (hat : At line 257 p)
    (hl : line < 240) :
    Loaded f σ.control line p.sprites.listing 0 (p.dot f).sprites := by
  have hstep : ∀ s : Sprites, s.step.count = s.count ∧ s.step.zeroInLine = s.zeroInLine := by
    intro s
    unfold Sprites.step
    split <;> exact ⟨rfl, rfl⟩
  rw [fetch_dot (o := 0) hs hp hat hl (by decide)]
  have hfirst : p.sprites.fetched f σ.control line 0 = p.sprites.adopt :=
    fetched_first σ.control p.sprites 0
  rw [hfirst]
  change Loaded _ _ _ _ _ p.sprites.adopt.step
  obtain ⟨hcount, hzero⟩ := hstep p.sprites.adopt
  exact ⟨listing_step _, hcount, hzero, fun j hj => absurd hj (Nat.not_lt_zero _)⟩

/-- The blocks, one after the other. -/
theorem loaded_blocks (hs : σ.mask.sprites = true) (hp : p.settings = σ) (hat : At line 257 p)
    (hl : line < 240) :
    ∀ {k : Nat}, k < 8 →
      Loaded f σ.control line p.sprites.listing (k + 1) ((dot f)^[8 * (k + 1)] p).sprites
  | 0, _ => by
    change Loaded _ _ _ _ _ ((dot f)^[8] p).sprites
    rw [fetch_block hs hp 0 hat hl]
    exact (loaded_zero hs hp hat hl).block 0
  | k + 1, hk => by
    have ih := loaded_blocks hs hp hat hl (k := k) (by omega)
    have hk1 : 8 * (k + 1 + 1) = 8 + 8 * (k + 1) := by omega
    have hat' : At line (257 + 8 * (k + 1)) ((dot f)^[8 * (k + 1)] p) := hat.run (by omega)
    have hp' : ((dot f)^[8 * (k + 1)] p).settings = σ := by rw [dots_settings, hp]
    have hfirst : (((dot f)^[8 * (k + 1)] p).dot f).sprites =
        ((dot f)^[8 * (k + 1)] p).sprites := by
      have hslot : (⟨k + 1, hk⟩ : Fin 8) ≠ 0 := fun h => by
        have hv := congrArg Fin.val h
        exact Nat.succ_ne_zero k hv
      rw [fetch_dot hs hp' hat' hl (by omega), moved_of_lt _ (by omega)]
      exact (fetched_first σ.control _ ⟨k + 1, hk⟩).trans (if_neg hslot)
    rw [hk1, Function.iterate_add_apply, fetch_block hs hp' ⟨k + 1, hk⟩ hat' hl, hfirst]
    exact ih.block ⟨k + 1, hk⟩

/-- **Between two lines** the units become ready, and the next line begins with them. -/
theorem units_loaded (hs : σ.mask.sprites = true) (hp : p.settings = σ) (hat : At line 257 p)
    (hl : line < 240) :
    Loaded f σ.control line p.sprites.listing 8 ((dot f)^[64] p).sprites :=
  loaded_blocks hs hp hat hl (k := 7) (by decide)

/-! ## 3. The units on a line -/

/-- What draws sprites: the units, how many are in use, and whether the first draws sprite 0. -/
structure Output where
  units : Vector SpriteUnit 8
  count : Nat
  zeroInLine : Bool

/-- What draws sprites, among the rest of them. -/
def Sprites.output (s : Sprites) : Output := ⟨s.units, s.count, s.zeroInLine⟩

/-- One dot of every unit in use. -/
def Output.step (o : Output) : Output :=
  { o with units := o.units.mapFinIdx fun i u _ => if i < o.count then u.step else u }

theorem output_step (s : Sprites) : s.step.output = s.output.step := by
  unfold Sprites.step
  split
  · rename_i h0
    have hid : s.units.mapFinIdx (fun i u _ => if i < s.count then u.step else u) = s.units := by
      apply Vector.ext
      intro i hi
      rw [Vector.getElem_mapFinIdx, if_neg (by omega)]
    rw [Output.step, Sprites.output, hid]
  · rfl

/-- Searching and clearing the list do not reach the units. -/
theorem output_part (s : Sprites) (hd : d ≤ 256 ∨ 321 ≤ d) :
    (s.part f σ.control σ.oam line d).output = s.output := by
  unfold Sprites.part
  split
  · rfl
  split
  · rfl
  split
  · split <;> rfl
  split
  · split
    · unfold Sprites.searched
      split
      · rfl
      · unfold Sprites.act
        dsimp only
        split
        · rfl
        · split <;> rfl
    · rfl
  split
  · omega
  · rfl

/-- A dot on which the units do not move. -/
theorem output_still (hs : σ.mask.sprites = true) (hp : p.settings = σ) (hat : At line d p)
    (hl : line < 240) (hd : d ≤ 1 ∨ 321 ≤ d) : (p.dot f).sprites.output = p.sprites.output := by
  rw [sprites_dot hs hp hat hl, Sprites.moved, if_neg (by omega), output_part _ (by omega)]

/-- From the last fetch of a line to the first dot of the next the units stand still. -/
theorem output_to_next_line (hs : σ.mask.sprites = true) (hp : p.settings = σ)
    (hat : At line 321 p) (hl : line < 239) :
    At (line + 1) 1 ((dot f)^[21] p) ∧ ((dot f)^[21] p).sprites.output = p.sprites.output := by
  have hgo : ∀ k, k ≤ 19 → At line (321 + k) ((dot f)^[k] p) ∧
      ((dot f)^[k] p).sprites.output = p.sprites.output := by
    intro k hk
    induction k with
    | zero => exact ⟨hat, rfl⟩
    | succ k ih =>
      obtain ⟨hat', hout⟩ := ih (by omega)
      rw [Function.iterate_succ_apply']
      refine ⟨hat'.step_visible (by omega) (by omega), ?_⟩
      rw [output_still hs (by rw [dots_settings, hp]) hat' (by omega) (by omega), hout]
  obtain ⟨hat340, hout340⟩ := hgo 19 (by decide)
  have hat0 : At (line + 1) 0 ((dot f)^[20] p) := by
    rw [Function.iterate_succ_apply']
    exact hat340.step_last (by omega)
  have hout0 : ((dot f)^[20] p).sprites.output = p.sprites.output := by
    rw [Function.iterate_succ_apply',
      output_still hs (by rw [dots_settings, hp]) hat340 (by omega) (by omega), hout340]
  rw [Function.iterate_succ_apply']
  refine ⟨hat0.step (by omega), ?_⟩
  rw [output_still hs (by rw [dots_settings, hp]) hat0 (by omega) (by omega), hout0]

/-- **As a column is drawn** the units have moved as many dots. -/
theorem output_column (hs : σ.mask.sprites = true) (hp : p.settings = σ) (hat : At line 1 p)
    (hl : line < 240) :
    ∀ {x : Nat}, x < 256 →
      ((dot f)^[x + 1] p).sprites.output = Output.step^[x] p.sprites.output
  | 0, _ => output_still hs hp hat hl (by omega)
  | x + 1, hx => by
    have hat' : At line (1 + (x + 1)) ((dot f)^[x + 1] p) := hat.run (by omega)
    rw [Function.iterate_succ_apply', Function.iterate_succ_apply' Output.step,
      sprites_dot hs (by rw [dots_settings, hp]) hat' hl, Sprites.moved,
      if_pos ⟨rfl, by omega, by omega⟩, output_step, output_part _ (by omega),
      output_column hs hp hat hl (by omega)]

/-- A column is composed after its dot has moved the units. -/
theorem output_composing (hs : σ.mask.sprites = true) (hp : p.settings = σ) (hat : At line 1 p)
    (hl : line < 240) {x : Nat} (hx : x < 256) :
    (((dot f)^[x] p).composing (⟨f⟩ : Answers)).sprites.output =
      Output.step^[x] p.sprites.output := by
  rw [(composing_parts _).2, ← Function.iterate_succ_apply' (dot f)]
  exact output_column hs hp hat hl hx

theorem output_steps (o : Output) (n : Nat) :
    (Output.step^[n] o).count = o.count ∧ (Output.step^[n] o).zeroInLine = o.zeroInLine ∧
      ∀ j : Fin 8, (Output.step^[n] o).units.get j =
        if j.val < o.count then SpriteUnit.step^[n] (o.units.get j) else o.units.get j := by
  induction n with
  | zero => exact ⟨rfl, rfl, fun j => (ite_self _).symm⟩
  | succ n ih =>
    obtain ⟨hcount, hzero, hunits⟩ := ih
    rw [Function.iterate_succ_apply']
    refine ⟨hcount, hzero, fun j => ?_⟩
    have hj : (Output.step^[n] o).step.units.get j =
        if j.val < o.count then ((Output.step^[n] o).units.get j).step
        else (Output.step^[n] o).units.get j := by
      rw [← hcount]
      exact Vector.getElem_mapFinIdx ..
    rw [hj, hunits j, Function.iterate_succ_apply']
    split <;> rfl

/-! ## 4. One unit -/

/-- The counter of a unit runs down, and then its row moves up. -/
theorem step_iterate (u : SpriteUnit) (n : Nat) :
    (SpriteUnit.step^[n] u).x.toNat = u.x.toNat - n ∧
      (SpriteUnit.step^[n] u).attributes = u.attributes ∧
      ∀ i, leftBit (SpriteUnit.step^[n] u).low i = leftBit u.low (i + (n - u.x.toNat)) ∧
        leftBit (SpriteUnit.step^[n] u).high i = leftBit u.high (i + (n - u.x.toNat)) := by
  induction n with
  | zero => exact ⟨rfl, rfl, fun i => by rw [Nat.zero_sub]; exact ⟨rfl, rfl⟩⟩
  | succ n ih =>
    obtain ⟨hx, ha, hrows⟩ := ih
    rw [Function.iterate_succ_apply']
    generalize SpriteUnit.step^[n] u = w at hx ha hrows
    unfold SpriteUnit.step
    by_cases h0 : w.x = 0
    · have hle : u.x.toNat ≤ n := by
        rw [h0, UInt8.toNat_zero] at hx
        omega
      rw [if_neg (by rw [h0]; decide)]
      refine ⟨by rw [h0, UInt8.toNat_zero]; omega, ha, fun i => ?_⟩
      have hi : i + (n + 1 - u.x.toNat) = i + 1 + (n - u.x.toNat) := by omega
      rw [leftBit_shiftLeft, leftBit_shiftLeft, hi]
      exact hrows (i + 1)
    · have hne : w.x.toNat ≠ 0 := fun h => h0 (UInt8.toNat_inj.mp h)
      have hsub : (w.x - 1).toNat = w.x.toNat - 1 :=
        UInt8.toNat_sub_of_le _ _ (UInt8.le_iff_toNat_le.mpr (Nat.one_le_iff_ne_zero.mpr hne))
      rw [if_pos (bne_iff_ne.mpr h0)]
      refine ⟨by rw [hsub]; omega, ha, fun i => ?_⟩
      have hi : n + 1 - u.x.toNat = n - u.x.toNat := by omega
      rw [hi]
      exact hrows i

/-- The pixel of a unit at a column of the line, nothing before the unit's own column. -/
def SpriteUnit.pixelAt (u : SpriteUnit) (x : Nat) : UInt8 :=
  if u.x.toNat ≤ x then
    bitOf (leftBit u.high (x - u.x.toNat)) * 2 + bitOf (leftBit u.low (x - u.x.toNat))
  else 0

/-- **At column `x` a unit shows the pixel that far from its own column.** -/
theorem shows_iterate (u : SpriteUnit) (x : Nat) :
    (SpriteUnit.step^[x] u).shows = (u.pixelAt x != 0) ∧
      ((SpriteUnit.step^[x] u).shows = true → (SpriteUnit.step^[x] u).pixel = u.pixelAt x) := by
  obtain ⟨hx, -, hrows⟩ := step_iterate u x
  obtain ⟨hlow, hhigh⟩ := hrows 0
  rw [Nat.zero_add] at hlow hhigh
  generalize SpriteUnit.step^[x] u = w at hx hlow hhigh
  have hpixel : w.pixel =
      bitOf (leftBit u.high (x - u.x.toNat)) * 2 + bitOf (leftBit u.low (x - u.x.toNat)) := by
    rw [SpriteUnit.pixel, SpriteUnit.topBit, SpriteUnit.topBit, shiftRight_seven, shiftRight_seven,
      hlow, hhigh]
  unfold SpriteUnit.shows SpriteUnit.pixelAt
  by_cases hle : u.x.toNat ≤ x
  · have hx0 : (w.x == 0) = true := by
      rw [beq_iff_eq, ← UInt8.toNat_inj, hx, UInt8.toNat_zero]
      omega
    rw [if_pos hle, hx0, hpixel, Bool.true_and]
    exact ⟨rfl, fun _ => rfl⟩
  · have hx0 : (w.x == 0) = false := by
      rw [beq_eq_false_iff_ne, ne_eq, ← UInt8.toNat_inj, hx, UInt8.toNat_zero]
      omega
    rw [if_neg hle, hx0, Bool.false_and]
    exact ⟨rfl, fun h => absurd h Bool.false_ne_true⟩

/-! ## 5. The foremost unit -/

/-- Where no unit shows anything there is no foremost one. -/
theorem front_eq_none {s : Sprites} (h : ∀ j : Fin 8, (s.units.get j).shows = false) :
    s.front = none := by
  have hno : s.units.findFinIdx? SpriteUnit.shows = none := by
    rw [Vector.findFinIdx?_eq_none_iff]
    intro u hu
    obtain ⟨j, hj, rfl⟩ := Vector.getElem_of_mem hu
    rw [Bool.not_eq_true]
    exact h ⟨j, hj⟩
  rw [Sprites.front, hno]

/-- A unit in use that shows something is foremost if none before it does. -/
theorem front_eq_some {s : Sprites} {k : Fin 8} (hk : k.val < s.count)
    (hshows : (s.units.get k).shows = true) (hbefore : ∀ j : Fin 8, j < k → (s.units.get j).shows = false) :
    s.front = some (k.val, s.units.get k) := by
  have hfind : s.units.findFinIdx? SpriteUnit.shows = some k := by
    rw [Vector.findFinIdx?, Option.map_eq_some_iff]
    refine ⟨⟨k.val, by rw [Vector.size_toArray]; exact k.isLt⟩, ?_, rfl⟩
    rw [Array.findFinIdx?_eq_some_iff]
    refine ⟨hshows, fun j hj => ?_⟩
    have hj8 : j.val < 8 := Nat.lt_trans hj k.isLt
    have hs : s.units[j.val].shows = false := hbefore ⟨j.val, hj8⟩ hj
    exact fun hshow => Bool.false_ne_true (hs.symm.trans hshow)
  rw [Sprites.front, hfind]
  exact if_pos hk

/-- **The foremost unit** is that of the first member of a list that shows something, where the
units in use answer to its members and the others show nothing. -/
theorem front_of_list (s : Sprites) (listed : List Nat) (P : Nat → Bool)
    (hcount : s.count = listed.length) (h8 : listed.length ≤ 8)
    (hshows : ∀ (j : Fin 8) (i : Nat), listed[j.val]? = some i → (s.units.get j).shows = P i)
    (hblank : ∀ j : Fin 8, listed.length ≤ j.val → (s.units.get j).shows = false) :
    (listed.find? P = none → s.front = none) ∧
      ∀ i, listed.find? P = some i →
        ∃ j : Fin 8, listed[j.val]? = some i ∧ s.front = some (j.val, s.units.get j) := by
  refine ⟨fun hnone => front_eq_none fun j => ?_, fun i hsome => ?_⟩
  · by_cases hj : j.val < listed.length
    · rw [hshows j _ (List.getElem?_eq_getElem hj)]
      exact Bool.eq_false_iff.mpr (List.find?_eq_none.mp hnone _ (List.getElem_mem hj))
    · exact hblank j (Nat.le_of_not_lt hj)
  · obtain ⟨hPi, k, hk, rfl, hbefore⟩ := List.find?_eq_some_iff_getElem.mp hsome
    have hk8 : k < 8 := by omega
    refine ⟨⟨k, hk8⟩, List.getElem?_eq_getElem hk, front_eq_some (by rw [hcount]; exact hk) ?_ ?_⟩
    · rw [hshows ⟨k, hk8⟩ _ (List.getElem?_eq_getElem hk), hPi]
    · intro j hj
      have hjl : j.val < listed.length := Nat.lt_trans hj hk
      have hP := hbefore j.val hj
      rw [Bool.not_eq_true'] at hP
      rw [hshows j _ (List.getElem?_eq_getElem hjl), hP]

end Famicom.Ppu
