/-
# The search and its walk for a ninth sprite

After the eighth sprite in range the search goes on as if for a ninth, but from sprite to sprite it
also goes from byte to byte: of the sprite `j` places behind the next one it takes the byte
`j % 4`, be it a position, a tile or a column.  `meetsNinth` says whether one of these bytes is in
range, which is all that the report of a ninth sprite tells.

A search is at a sprite, in the middle of one it copies, on the walk, or over (`Stage`).  **Each
byte that is taken leaves one less of what the search may still need** (`Stage.take`): one for each
sprite to come, and three more for each place that is free.  At the beginning these are 88, and the
dots 65 to 256 of a line take 96 bytes.

So what a line's search comes to is settled by sprite memory, the height of sprites and the line
(`search_of_line`): it does not matter what the unit held before, or what a program does meanwhile,
as long as the unit renders and these stay what they are.
-/
import Famicom.Proofs.Ppu.Frames
import Famicom.Proofs.Ppu.SpriteSearch

namespace Famicom.Ppu

/-! ## 1. What is reported of a ninth sprite -/

/-- The byte that the walk takes in its turn `j`, behind the eighth sprite. -/
def walked (oam : Memory 256) (eighth j : Nat) : UInt8 :=
  oam.read ((eighth + 1 + j) * 4 + j % 4)

/-- Whether the walk meets a byte that is in range as a position. -/
def meetsNinth (oam : Memory 256) (line height : Nat) : Bool :=
  match (chosen oam line height)[7]? with
  | some eighth => (List.range (63 - eighth)).any fun j => inRange line height (walked oam eighth j)
  | none => false

/-- A search, with the report of a ninth sprite. -/
structure Hunt where
  listing : Listing
  overflow : Bool

/-- The search of a unit. -/
def hunt (p : Ppu) : Hunt := ⟨p.sprites.listing, p.status.overflow⟩

/-- A ninth sprite is seen as the byte is acted on. -/
def Listing.ninth (line height : Nat) (l : Listing) : Bool :=
  !l.search.done && decide (8 ≤ l.search.found) && inRange line height l.search.latch

theorem act_ninth (s : Sprites) (line height : Nat) :
    (s.act line height).2 = s.listing.ninth line height := by
  obtain ⟨search, secondary, units, count, zeroInLine⟩ := s
  unfold Sprites.act Listing.ninth Sprites.listing
  dsimp only
  cases search.done with
  | true => rfl
  | false =>
    by_cases hroom : search.found < 8
    · rw [if_neg Bool.false_ne_true, if_pos hroom, decide_eq_false (by omega)]
      rfl
    · rw [if_neg Bool.false_ne_true, if_neg hroom, decide_eq_true (by omega)]
      rfl

namespace Hunt

/-- The byte at the current place is looked at. -/
def look (oam : Memory 256) (h : Hunt) : Hunt := { h with listing := h.listing.look oam }

/-- The byte is acted on. -/
def act (line height : Nat) (h : Hunt) : Hunt :=
  ⟨h.listing.act line height, h.overflow || h.listing.ninth line height⟩

/-- Two dots of the search. -/
def take (oam : Memory 256) (line height : Nat) (h : Hunt) : Hunt := (h.look oam).act line height

end Hunt

variable {oam : Memory 256} {line height : Nat} {l : Listing} {h : Hunt}

/-- With room for a sprite none is a ninth. -/
theorem Hunt.take_overflow (hroom : h.listing.search.found < 8) :
    (h.take oam line height).overflow = h.overflow := by
  have hninth : (h.listing.look oam).ninth line height = false := by
    have hfull : decide (8 ≤ (h.listing.look oam).search.found) = false :=
      decide_eq_false (Nat.not_le.mpr hroom)
    rw [Listing.ninth, hfull, Bool.and_false, Bool.false_and]
  change (h.overflow || (h.listing.look oam).ninth line height) = h.overflow
  rw [hninth, Bool.or_false]

theorem Hunt.listing_takes (m : Nat) (h : Hunt) :
    ((Hunt.take oam line height)^[m] h).listing =
      (Listing.take oam line height)^[m] h.listing := by
  have htake : Function.Semiconj Hunt.listing (Hunt.take oam line height)
      (Listing.take oam line height) := fun _ => rfl
  exact htake.iterate_right m h

/-! ## 2. The places that stay empty -/

/-- Behind the place of the next byte, only positions have been written. -/
def Blank (l : Listing) : Prop :=
  ∀ j < 32, l.search.target ≤ j → j % 4 ≠ 0 → l.list.read j = 0xFF

/-- The place of the next byte goes on by one, or stays where a position was written. -/
theorem collect_target (e : SpriteSearch) (hit : Bool) :
    (e.collect hit).target = e.target + 1 ∨ (e.collect hit).target = e.target ∧ e.byte.val = 0 := by
  unfold SpriteSearch.collect
  split
  · next h0 =>
    split
    · left
      rw [SpriteSearch.target, SpriteSearch.target, h0]
      rfl
    · exact .inr ⟨rfl, congrArg Fin.val h0⟩
  · next h0 =>
    left
    split
    · next h3 =>
      rw [SpriteSearch.target, SpriteSearch.target, h3]
      exact Nat.add_mul e.found 1 4
    · next h3 =>
      have hlast : e.byte.val ≠ 3 := fun hv => h3 (Fin.ext hv)
      have hnext : (e.byte + 1).val = e.byte.val + 1 := by
        rw [Fin.val_add]
        exact Nat.mod_eq_of_lt (by have := e.byte.isLt; change e.byte.val + 1 < 4; omega)
      rw [SpriteSearch.target, SpriteSearch.target, hnext]
      rfl

theorem walk_found (e : SpriteSearch) (hit : Bool) : (e.walk hit).found = e.found := by
  unfold SpriteSearch.walk
  split <;> rfl

theorem Blank.take (hb : Blank l) : Blank (l.take oam line height) := by
  cases hdone : l.search.done with
  | true =>
    rw [take_of_done hdone]
    exact hb
  | false =>
    by_cases hroom : l.search.found < 8
    · rw [take_of_room hdone hroom]
      intro j hj hle hpos
      have htarget : l.search.target = l.search.found * 4 + l.search.byte.val := rfl
      have hbyte := l.search.byte.isLt
      dsimp only at hle ⊢
      rcases collect_target { l.search with latch := oam.read l.search.place }
        (inRange line height (oam.read l.search.place)) with hnext | ⟨hstay, h0⟩
      · rw [hnext] at hle
        change l.search.target + 1 ≤ j at hle
        rw [Memory.read_write, if_neg (by omega)]
        exact hb j hj (by omega) hpos
      · rw [hstay] at hle
        change l.search.target ≤ j at hle
        change l.search.byte.val = 0 at h0
        rw [Memory.read_write, if_neg (by omega)]
        exact hb j hj hle hpos
    · intro j hj hle
      rw [take_of_full hdone (by omega), SpriteSearch.target, walk_found] at hle
      exact absurd hle (by dsimp only; omega)

/-! ## 3. The walk -/

/-- Where the walk is after so many turns, none of which has met anything. -/
structure Walking (oam : Memory 256) (line height eighth j : Nat) (l : Listing) : Prop where
  sprite : l.search.sprite.val = eighth + 1 + j
  byte : l.search.byte.val = j % 4
  done : l.search.done = false
  full : 8 ≤ l.search.found
  isEighth : (chosen oam line height)[7]? = some eighth
  missed : ∀ i < j, inRange line height (walked oam eighth i) = false

section Walk

variable {eighth j : Nat} (hw : Walking oam line height eighth j h.listing)

include hw

theorem Walking.lt : j < 63 - eighth := by
  have hsprite := hw.sprite
  have hlt := h.listing.search.sprite.isLt
  omega

theorem Walking.place : h.listing.search.place = (eighth + 1 + j) * 4 + j % 4 := by
  rw [SpriteSearch.place, hw.sprite, hw.byte]

theorem Walking.take_listing :
    (h.take oam line height).listing =
      ⟨({ h.listing.search with latch := walked oam eighth j } : SpriteSearch).walk
          (inRange line height (walked oam eighth j)), h.listing.list⟩ := by
  change h.listing.take oam line height = _
  rw [take_of_full hw.done hw.full, hw.place]
  rfl

theorem Walking.take_overflow :
    (h.take oam line height).overflow =
      (h.overflow || inRange line height (walked oam eighth j)) := by
  have hlatch : (h.listing.look oam).search.latch = walked oam eighth j :=
    congrArg oam.read hw.place
  have hdone : (h.listing.look oam).search.done = false := hw.done
  have hfull : decide (8 ≤ (h.listing.look oam).search.found) = true := decide_eq_true hw.full
  change (h.overflow || (h.listing.look oam).ninth line height) = _
  rw [Listing.ninth, hlatch, hdone, hfull]
  rfl

/-- What the walk meets settles the report. -/
theorem Walking.meets (hit : inRange line height (walked oam eighth j) = true) :
    meetsNinth oam line height = true := by
  rw [meetsNinth, hw.isEighth]
  exact List.any_eq_true.mpr ⟨j, List.mem_range.mpr hw.lt, hit⟩

section Miss

variable (hmiss : inRange line height (walked oam eighth j) = false)

include hmiss

/-- With the last sprite the walk has met nothing. -/
theorem Walking.misses (hlast : eighth + 1 + j = 63) : meetsNinth oam line height = false := by
  rw [meetsNinth, hw.isEighth]
  refine List.any_eq_false.mpr fun i hi => ?_
  rw [List.mem_range] at hi
  rw [Bool.not_eq_true]
  by_cases hij : i = j
  · rw [hij, hmiss]
  · exact hw.missed i (by omega)

theorem Walking.take_of_miss :
    (h.take oam line height).listing =
      ⟨({ h.listing.search with
          latch := walked oam eighth j, byte := h.listing.search.byte + 1 } : SpriteSearch).next,
        h.listing.list⟩ := by
  rw [hw.take_listing, hmiss, SpriteSearch.walk, if_neg Bool.false_ne_true]

theorem Walking.done_of_miss :
    (h.take oam line height).listing.search.done = decide (eighth + 1 + j = 63) := by
  rw [hw.take_of_miss hmiss]
  dsimp only
  rw [next_done, hw.done, hw.sprite, Bool.false_or]

/-- Without meeting anything the walk takes another turn. -/
theorem Walking.step (hend : eighth + 1 + j ≠ 63) :
    Walking oam line height eighth (j + 1) (h.take oam line height).listing := by
  have hlt := hw.lt
  have htake := hw.take_of_miss hmiss
  have hdone := hw.done_of_miss hmiss
  rw [decide_eq_false hend] at hdone
  refine ⟨?_, ?_, hdone, ?_, hw.isEighth, fun i hi => ?_⟩
  · rw [htake]
    dsimp only
    rw [next_sprite, hw.sprite]
    omega
  · rw [htake]
    change (h.listing.search.byte + 1).val = (j + 1) % 4
    rw [Fin.val_add, hw.byte]
    exact Nat.mod_add_mod j 4 1
  · rw [htake]
    exact hw.full
  · by_cases hij : i = j
    · rw [hij, hmiss]
    · exact hw.missed i (by omega)

end Miss

end Walk

/-! ## 4. The budget -/

/-- Where a search is that may need so many bytes yet. -/
inductive Stage (oam : Memory 256) (line height : Nat) (before : Bool) (left : Nat) (h : Hunt) :
    Prop where
  | searching {n : Nat} (here : Active oam line height n h.listing) (quiet : h.overflow = before)
    (budget : 64 - n + 3 * (8 - h.listing.search.found) ≤ left)
  | copying {n b : Nat} (here : Copying oam line height n b h.listing) (hb : 1 ≤ b) (hb3 : b ≤ 3)
    (quiet : h.overflow = before)
    (budget : 4 - b + (63 - n) + 3 * (7 - h.listing.search.found) ≤ left)
  | walking {eighth j : Nat} (here : Walking oam line height eighth j h.listing)
    (quiet : h.overflow = before) (budget : 63 - eighth - j ≤ left)
  | ended (done : h.listing.search.done = true)
    (whole : h.listing.search.found < 8 → h.listing.search.byte = 0)
    (report : h.overflow = (before || meetsNinth oam line height))

variable {before : Bool} {left n : Nat}

section Past

variable (hp : Past oam line height n h.listing) (hn : n < 64)
  (hlast : h.listing.search.found = 8 → isInRange oam line height n = true)

include hp hn hlast

/-- If the list is full, the sprite behind is the eighth. -/
theorem Past.eighth (hfull : h.listing.search.found = 8) :
    (chosen oam line height)[7]? = some n := by
  have hseen : seen oam line height (n + 1) = seen oam line height n ++ [n] := by
    rw [seen_succ, if_pos (hlast hfull)]
  have hlength := hp.found
  rw [hfull, hseen, List.length_append, List.length_singleton] at hlength
  rw [hp.chosen_eq hn (.inr hfull), hseen, List.getElem?_append_right (by omega)]
  have h0 : 7 - (seen oam line height n).length = 0 := by omega
  rw [h0]
  rfl

/-- Past the last sprite there is nothing to walk along. -/
theorem Past.misses (h63 : n = 63) : meetsNinth oam line height = false := by
  have hle := hp.atMost
  by_cases hfull : h.listing.search.found = 8
  · rw [meetsNinth, hp.eighth hn hlast hfull, h63]
    rfl
  · have hchosen : (chosen oam line height).length = h.listing.search.found := by
      rw [hp.chosen_eq hn (.inl h63), hp.found]
    rw [meetsNinth, List.getElem?_eq_none (by omega)]

/-- Past a sprite, the search is at the next, on the walk, or over. -/
theorem Past.stage (quiet : h.overflow = before)
    (budget : 63 - n + 3 * (8 - h.listing.search.found) ≤ left) :
    Stage oam line height before left h := by
  have hle := hp.atMost
  have hdone := hp.done
  by_cases h63 : n = 63
  · rw [decide_eq_true h63] at hdone
    exact .ended hdone (fun _ => hp.byte) (by rw [hp.misses hn hlast h63, Bool.or_false, quiet])
  rw [decide_eq_false h63] at hdone
  by_cases hfull : h.listing.search.found = 8
  · have hsprite : h.listing.search.sprite.val = n + 1 + 0 := by
      rw [hp.sprite]
      omega
    exact .walking (j := 0)
      ⟨hsprite, congrArg Fin.val hp.byte, hdone, hfull.ge, hp.eighth hn hlast hfull,
        fun i hi => absurd hi (Nat.not_lt_zero i)⟩
      quiet (by omega)
  · exact .searching (hp.active (by omega) (by omega)) quiet (by omega)

end Past

theorem Walking.stage {eighth j : Nat} (hw : Walking oam line height eighth j h.listing)
    (quiet : h.overflow = before) (budget : 63 - eighth - j ≤ left + 1) :
    Stage oam line height before left (h.take oam line height) := by
  have hreport := hw.take_overflow
  have hfull : ¬(h.take oam line height).listing.search.found < 8 := by
    rw [hw.take_listing, walk_found]
    exact Nat.not_lt.mpr hw.full
  cases hit : inRange line height (walked oam eighth j) with
  | true =>
    rw [hit, quiet] at hreport
    refine .ended ?_ (absurd · hfull) (by rw [hreport, hw.meets hit])
    rw [hw.take_listing, hit]
    rfl
  | false =>
    rw [hit, quiet, Bool.or_false] at hreport
    by_cases hend : eighth + 1 + j = 63
    · refine .ended ?_ (absurd · hfull) (by rw [hreport, hw.misses hit hend, Bool.or_false])
      rw [hw.done_of_miss hit, decide_eq_true hend]
    · exact .walking (hw.step hit hend) hreport (by omega)

theorem Active.stage (ha : Active oam line height n h.listing) (quiet : h.overflow = before)
    (budget : 64 - n + 3 * (8 - h.listing.search.found) ≤ left + 1) :
    Stage oam line height before left (h.take oam line height) := by
  have hn : n < 64 := ha.sprite ▸ h.listing.search.sprite.isLt
  have hroom := ha.room
  have hquiet : (h.take oam line height).overflow = before := (Hunt.take_overflow hroom).trans quiet
  cases hr : isInRange oam line height n with
  | false =>
    obtain ⟨hpast, hfound⟩ := ha.pass hr
    refine Past.stage hpast hn (fun h8 => absurd (hfound.symm.trans h8) hroom.ne) hquiet ?_
    change 63 - n + 3 * (8 - (h.listing.take oam line height).search.found) ≤ left
    omega
  | true =>
    obtain ⟨hcopying, hfound⟩ := ha.start hr
    refine .copying hcopying (by omega) (by omega) hquiet ?_
    change 4 - 1 + (63 - n) + 3 * (7 - (h.listing.take oam line height).search.found) ≤ left
    omega

theorem Copying.stage {b : Nat} (hc : Copying oam line height n b h.listing) (hb : 1 ≤ b)
    (hb3 : b ≤ 3) (quiet : h.overflow = before)
    (budget : 4 - b + (63 - n) + 3 * (7 - h.listing.search.found) ≤ left + 1) :
    Stage oam line height before left (h.take oam line height) := by
  have hn : n < 64 := hc.sprite ▸ h.listing.search.sprite.isLt
  have hroom := hc.room
  have hquiet : (h.take oam line height).overflow = before := (Hunt.take_overflow hroom).trans quiet
  obtain hlt | rfl := Nat.lt_or_eq_of_le hb3
  · obtain ⟨hcopying, hfound⟩ := hc.step hb hlt
    refine .copying hcopying (by omega) (by omega) hquiet ?_
    change 4 - (b + 1) + (63 - n) + 3 * (7 - (h.listing.take oam line height).search.found) ≤ left
    omega
  · obtain ⟨hpast, hfound⟩ := hc.last
    refine Past.stage hpast hn (fun _ => hc.isInRange) hquiet ?_
    change 63 - n + 3 * (8 - (h.listing.take oam line height).search.found) ≤ left
    omega

/-- **A byte that is taken leaves one less to take.** -/
theorem Stage.take (hs : Stage oam line height before (left + 1) h) :
    Stage oam line height before left (h.take oam line height) := by
  cases hs with
  | searching here quiet budget => exact here.stage quiet budget
  | copying here hb hb3 quiet budget => exact here.stage hb hb3 quiet budget
  | walking here quiet budget => exact here.stage quiet budget
  | ended done whole report =>
    have hlisting : (h.take oam line height).listing = h.listing.look oam := take_of_done done
    have hdone : (h.listing.look oam).search.done = true := done
    have hninth : (h.listing.look oam).ninth line height = false := by
      rw [Listing.ninth, hdone]
      rfl
    refine .ended (by rw [hlisting, hdone]) (by rw [hlisting]; exact whole) ?_
    change (h.overflow || (h.listing.look oam).ninth line height) = _
    rw [hninth, Bool.or_false, report]

theorem Stage.takes (m : Nat) (hs : Stage oam line height before (left + m) h) :
    Stage oam line height before left ((Hunt.take oam line height)^[m] h) := by
  induction m generalizing h with
  | zero => exact hs
  | succ m ih => exact ih hs.take

/-! ## 5. What the search comes to -/

/-- What a unit has after the search of a line, where a ninth sprite had been reported or not. -/
structure Searched (oam : Memory 256) (line height : Nat) (before : Bool) (p : Ppu) : Prop where
  found : p.sprites.search.found = min 8 (seen oam line height 64).length
  /-- The list holds the first eight sprites in range, in their order, -/
  holds : Holds oam p.sprites.secondary (chosen oam line height)
  /-- and of the other places all but the position is empty. -/
  blank : ∀ k < 8, p.sprites.search.found ≤ k → ∀ b, 1 ≤ b → b < 4 →
    p.sprites.secondary.read (k * 4 + b) = 0xFF
  hasZero : p.sprites.search.hasZero = isInRange oam line height 0
  overflow : p.status.overflow = (before || meetsNinth oam line height)
  done : p.sprites.search.done = true

/-- A search that takes no more bytes is over. -/
theorem Stage.ended_of_zero (hs : Stage oam line height before 0 h) :
    h.listing.search.done = true ∧
      (h.listing.search.found < 8 → h.listing.search.byte = 0) ∧
      h.overflow = (before || meetsNinth oam line height) := by
  cases hs with
  | searching here _ budget =>
    have hsprite := here.sprite
    have hlt := h.listing.search.sprite.isLt
    omega
  | copying => omega
  | walking here _ budget =>
    have hlt := here.lt
    omega
  | ended done whole report => exact ⟨done, whole, report⟩

/-- **The search of a line**, on a list that has been cleared. -/
theorem searched_of_takes {p : Ppu} {list : Memory 32} (hlist : ∀ j < 32, list.read j = 0xFF)
    (hp : p.hunt = (Hunt.take oam line height)^[96] ⟨⟨{}, list⟩, before⟩) :
    Searched oam line height before p := by
  have hstart : Stage oam line height before (0 + 96) ⟨⟨{}, list⟩, before⟩ :=
    .searching (active_zero list) rfl (show 64 - 0 + 3 * (8 - 0) ≤ 0 + 96 by decide)
  obtain ⟨hdone, hwhole, hreport⟩ := (hstart.takes 96).ended_of_zero
  rw [← hp] at hdone hwhole hreport
  have hlisting : p.sprites.listing = (Listing.take oam line height)^[96] ⟨{}, list⟩ :=
    (congrArg Hunt.listing hp).trans (Hunt.listing_takes 96 _)
  have hfinished : Finished oam line height p.sprites.listing := hlisting ▸ found_chosen list
  have hblank : Blank p.sprites.listing := by
    have hclear : Blank ⟨{}, list⟩ := fun j hj _ _ => hlist j hj
    rw [hlisting]
    exact Function.Iterate.rec Blank hclear (fun _ hb => Blank.take hb) 96
  refine ⟨hfinished.found.trans List.length_take, hfinished.holds, fun k hk hle b hb hb4 => ?_,
    hfinished.hasZero, hreport, hdone⟩
  -- With an empty place left, the search stands at the start of it.
  have hbyte : p.sprites.search.byte = 0 := hwhole (by change p.sprites.search.found < 8; omega)
  have htarget : p.sprites.listing.search.target = p.sprites.search.found * 4 := by
    change p.sprites.search.found * 4 + p.sprites.search.byte.val = _
    rw [hbyte]
    rfl
  exact hblank (k * 4 + b) (by omega) (by omega) (by omega)

/-! ## 6. The dots of the search -/

/-- What a dot up to 256 of a line of the picture does to the search. -/
def Hunt.part (oam : Memory 256) (line height dot : Nat) (h : Hunt) : Hunt :=
  if dot = 1 then { h with listing := { h.listing with search := {} } }
  else if dot ≤ 64 then
    if dot % 2 = 0 then
      { h with listing := { h.listing with list := h.listing.list.write (dot / 2 - 1) 0xFF } }
    else h
  else if dot % 2 = 1 then h.look oam
  else h.act line height

/-- The first 64 dots clear the list. -/
structure Cleared (before : Bool) (dot : Nat) (h : Hunt) : Prop where
  search : h.listing.search = {}
  list : ∀ j < dot / 2, h.listing.list.read j = 0xFF
  overflow : h.overflow = before

theorem cleared_parts (h : Hunt) : ∀ {n : Nat}, n ≤ 63 →
    Cleared h.overflow (n + 1)
      ((List.range' 1 (n + 1)).foldl (fun h dot => h.part oam line height dot) h)
  | 0, _ => ⟨rfl, fun j hj => absurd hj (by omega), rfl⟩
  | n + 1, hn => by
    have ih := cleared_parts h (n := n) (by omega)
    have hdot : 1 + 1 * (n + 1) = n + 2 := by omega
    rw [List.range'_concat, List.foldl_append, List.foldl_cons, List.foldl_nil, hdot, Hunt.part,
      if_neg (by omega), if_pos (by omega)]
    split
    · refine ⟨ih.search, fun j hj => ?_, ih.overflow⟩
      dsimp only
      rw [Memory.read_write]
      split
      · rfl
      · exact ih.list j (by omega)
    · exact ⟨ih.search, fun j hj => ih.list j (by omega), ih.overflow⟩

/-- From then on two dots take a byte. -/
theorem take_parts (m : Nat) {d : Nat} (hd : 65 ≤ d) (hodd : d % 2 = 1) (h : Hunt) :
    (List.range' d (2 * m)).foldl (fun h dot => h.part oam line height dot) h =
      (Hunt.take oam line height)^[m] h := by
  induction m generalizing d h with
  | zero => rfl
  | succ m ih =>
    have hlook : h.part oam line height d = h.look oam := by
      rw [Hunt.part, if_neg (by omega), if_neg (by omega), if_pos hodd]
    have hact (h : Hunt) : h.part oam line height (d + 1) = h.act line height := by
      rw [Hunt.part, if_neg (by omega), if_neg (by omega), if_neg (by omega)]
    have hsucc : 2 * (m + 1) = 2 * m + 1 + 1 := by omega
    rw [hsucc, List.range'_succ, List.range'_succ, List.foldl_cons, List.foldl_cons, hlook, hact,
      ih (by omega) (by omega), Function.iterate_succ_apply]
    rfl

section Bus

variable {μ : Type} [AddressBus μ] {p : Ppu}

theorem searchDot_hunt (h64 : 64 < p.raster.dot) :
    p.searchDot.hunt =
      p.hunt.part p.oam p.raster.line p.control.spriteHeight p.raster.dot := by
  rw [Hunt.part, if_neg (by omega), if_neg (by omega), searchDot]
  split
  · rfl
  · change Hunt.mk (p.sprites.act p.raster.line p.control.spriteHeight).1.listing
      (p.status.overflow || (p.sprites.act p.raster.line p.control.spriteHeight).2) = _
    rw [listing_act, act_ninth]
    rfl

theorem spriteDot_hunt (hv : p.raster.line < 240) (h1 : 1 ≤ p.raster.dot)
    (h256 : p.raster.dot ≤ 256) (mem : μ) :
    (p.spriteDot mem).1.hunt =
      p.hunt.part p.oam p.raster.line p.control.spriteHeight p.raster.dot := by
  have hvisible : p.raster.isVisible = true := p.raster.isVisible_iff.mpr hv
  unfold spriteDot
  dsimp only
  rw [if_neg (by omega)]
  by_cases hdot : p.raster.dot = 1
  · rw [if_pos hdot, Hunt.part, if_pos hdot]
    rfl
  rw [if_neg hdot]
  by_cases h64 : p.raster.dot ≤ 64
  · rw [if_pos h64, Hunt.part, if_neg hdot, if_pos h64]
    dsimp only
    split <;> rfl
  · rw [if_neg h64, if_pos h256, if_pos hvisible]
    exact searchDot_hunt (by omega)

theorem finished_hunt (p : Ppu) : p.finished.hunt = p.hunt := by
  have hblanking (q : Ppu) : q.beginBlanking.hunt = q.hunt := by
    unfold beginBlanking
    split <;> rfl
  change (beginBlanking (if p.raster.writes then p.pixelDot else p)).hunt = _
  rw [hblanking]
  split <;> rfl

/-- **What a dot does to the search**, whatever the memory. -/
theorem tick_hunt (hv : p.raster.line < 240) (h1 : 1 ≤ p.raster.dot) (h256 : p.raster.dot ≤ 256)
    (hr : p.mask.rendering = true) (mem : μ) :
    (p.tick mem).1.hunt =
      p.hunt.part p.oam p.raster.line p.control.spriteHeight p.raster.dot := by
  have hvisible : p.raster.isVisible = true := p.raster.isVisible_iff.mpr hv
  have hfetches : (p.mask.rendering && p.raster.fetches) = true := by
    rw [hr, Raster.fetches, hvisible]
    rfl
  obtain ⟨background, hb⟩ := backgroundDot_reads p mem
  have hsprites := spriteDot_hunt (p := (p.backgroundDot mem).1) (by rw [hb]; exact hv)
    (by rw [hb]; exact h1) (by rw [hb]; exact h256) (p.backgroundDot mem).2
  have hrender : (p.renderDot mem).1.hunt =
      ((p.backgroundDot mem).1.spriteDot (p.backgroundDot mem).2).1.hunt := by
    unfold renderDot
    dsimp only
    split
    · exact congrArg (Hunt.mk · _) (listing_step _)
    · rfl
  rw [tick_fst, finished_hunt, composing, if_pos hfetches, clearReports_of_isVisible hvisible,
    hrender, hsprites, hb]
  rfl

/-! ## 7. The search in a history -/

/-- Between the dots nothing reaches the search, short of a reset. -/
theorem after_hunt (s : Ppu × μ) {op : Operation μ} (htick : op ≠ .tick) (hreset : op ≠ .reset) :
    (after s op).1.hunt = s.1.hunt := by
  obtain ⟨p, mem⟩ := s
  cases op with
  | tick => exact absurd rfl htick
  | reset => exact absurd rfl hreset
  | readRegister a =>
    exact congrArg (fun c => Hunt.mk c.sprites.listing c.overflow) (readRegister_clockwork p a mem)
  | writeRegister a v =>
    exact congrArg (fun c => Hunt.mk c.sprites.listing c.overflow)
      (writeRegister_clockwork p a v mem)
  | takeFrameComplete =>
    change p.takeFrameComplete.2.hunt = p.hunt
    unfold takeFrameComplete
    split <;> rfl
  | takeNmiRequest =>
    change p.takeNmiRequest.2.hunt = p.hunt
    unfold takeNmiRequest
    split <;> rfl
  | _ => rfl

/-- A unit renders, with this sprite memory and sprites of this height. -/
structure Looking (oam : Memory 256) (height : Nat) (p : Ppu) : Prop where
  rendering : p.mask.rendering = true
  oam_eq : p.oam = oam
  height_eq : p.control.spriteHeight = height

/-- At every dot of a history it does. -/
def Looks (oam : Memory 256) (height : Nat) (s : Ppu × μ) (history : List (Operation μ)) : Prop :=
  ∀ before later, history = before ++ .tick :: later → Looking oam height (run s before).1

theorem looks_ticking (s : Ppu × μ) (hr : s.1.mask.rendering = true) (n : Nat) :
    Looks s.1.oam s.1.control.spriteHeight s (ticking n) := by
  intro before later he
  have hsettings : (run s before).1.settings = s.1.settings := by
    rw [ticking_of_append he, settings_ticking]
  have hmask := congrArg Settings.mask hsettings
  have hcontrol := congrArg Settings.control hsettings
  exact ⟨(congrArg Mask.rendering hmask).trans hr, congrArg Settings.oam hsettings,
    congrArg Control.spriteHeight hcontrol⟩

/-- Between the dots the beam stays where it is, short of a reset. -/
theorem At.after {s : Ppu × μ} {d : Nat} (hat : At line d s.1) {op : Operation μ}
    (htick : op ≠ .tick) (hreset : op ≠ .reset) : At line d (after s op).1 := by
  have hstay : (Ppu.after s op).1.raster = s.1.raster := by
    rw [after_raster]
    cases op with
    | tick => exact absurd rfl htick
    | reset => exact absurd rfl hreset
    | _ => rfl
  exact ⟨by rw [hstay, hat.onLine], by rw [hstay, hat.atDot]⟩

/-- A dot of the search. -/
theorem Looking.after_tick {s : Ppu × μ} (hlooking : Looking oam height s.1) {d : Nat}
    (hline : line < 240) (hat : At line d s.1) (hd : 1 ≤ d) (hd' : d ≤ 256) :
    At line (d + 1) (after s .tick).1 ∧
      (after s .tick).1.hunt = s.1.hunt.part oam line height d := by
  obtain ⟨hrendering, rfl, rfl⟩ := hlooking
  obtain ⟨rfl, rfl⟩ := hat
  have hraster : (after s .tick).1.raster = { s.1.raster with dot := s.1.raster.dot + 1 } := by
    rw [after_raster]
    dsimp only
    rw [Raster.next_visible _ _ hline, if_pos (by omega)]
  exact ⟨⟨by rw [hraster], by rw [hraster]⟩, tick_hunt hline hd hd' hrendering s.2⟩

/-- **The search goes on dot by dot**, whatever is done between them. -/
theorem hunt_run {s : Ppu × μ} {d : Nat} (hline : line < 240) (hat : At line d s.1) (hd : 1 ≤ d)
    {history : List (Operation μ)} (hreset : .reset ∉ history) (hend : d + dots history ≤ 257)
    (hlooks : Looks oam height s history) :
    At line (d + dots history) (run s history).1 ∧
      (run s history).1.hunt =
        (List.range' d (dots history)).foldl (fun h dot => h.part oam line height dot)
          s.1.hunt := by
  induction history generalizing s d with
  | nil => exact ⟨hat, rfl⟩
  | cons op history ih =>
    rw [List.mem_cons, not_or] at hreset
    have hrest : Looks oam height (after s op) history := fun before later he =>
      hlooks (op :: before) later (by rw [he]; rfl)
    by_cases htick : op = .tick
    · subst htick
      have hdots : dots (.tick :: history : List (Operation μ)) = dots history + 1 :=
        List.countP_cons_of_pos rfl
      rw [hdots] at hend ⊢
      have hfirst : Looking oam height s.1 := hlooks [] history rfl
      obtain ⟨hnext, hpart⟩ := hfirst.after_tick hline hat hd (by omega)
      obtain ⟨hat', hhunt⟩ := ih hnext (by omega) hreset.2 (by omega) hrest
      rw [hpart] at hhunt
      rw [List.range'_succ, List.foldl_cons, ← hhunt, Nat.add_comm (dots history) 1,
        ← Nat.add_assoc]
      exact ⟨hat', rfl⟩
    · have hnot : ¬op.isTick = true := by
        cases op with
        | tick => exact absurd rfl htick
        | _ => exact Bool.false_ne_true
      have hdots : dots (op :: history) = dots history := List.countP_cons_of_neg hnot
      rw [hdots] at hend ⊢
      have hstay : op ≠ .reset := Ne.symm hreset.1
      have hrun := ih (hat.after htick hstay) hd hreset.2 hend hrest
      rwa [after_hunt s htick hstay] at hrun

/-- **What the search of a line comes to**, whatever the unit held before and whatever a program
does between the dots, as long as the unit renders and neither sprite memory nor the height of
sprites changes. -/
theorem search_of_line {s : Ppu × μ} (hline : line < 240) (hat : At line 1 s.1)
    {history : List (Operation μ)} (hreset : .reset ∉ history) (hdots : dots history = 256)
    (hlooks : Looks oam height s history) :
    At line 257 (run s history).1 ∧
      Searched oam line height s.1.status.overflow (run s history).1 := by
  obtain ⟨hend, hhunt⟩ :=
    hunt_run hline hat (Nat.le_refl 1) hreset (by rw [hdots]) hlooks
  rw [hdots] at hend hhunt
  have hsplit : List.range' 1 256 = List.range' 1 64 ++ List.range' 65 (2 * 96) := rfl
  rw [hsplit, List.foldl_append, take_parts 96 (Nat.le_refl 65) rfl] at hhunt
  have hcleared : Cleared s.1.hunt.overflow 64
      ((List.range' 1 64).foldl (fun h dot => h.part oam line height dot) s.1.hunt) :=
    cleared_parts s.1.hunt (Nat.le_refl 63)
  generalize (List.range' 1 64).foldl (fun h dot => h.part oam line height dot) s.1.hunt = cleared
    at hhunt hcleared
  obtain ⟨⟨search, list⟩, overflow⟩ := cleared
  obtain ⟨rfl, hlist, rfl⟩ := hcleared
  exact ⟨hend, searched_of_takes (fun j hj => hlist j hj) hhunt⟩

end Bus

/-- A unit that shows everything, at the beginning of its picture. -/
def showing : Ppu := { mask := ⟨0x18⟩, raster := { line := 0, dot := 1 } }

theorem searched_showing :
    At 0 1 showing ∧ showing.mask.rendering = true ∧
      Searched showing.oam 0 8 false (run (showing, (⟨fun _ => 0⟩ : Answers)) (ticking 256)).1 := by
  have hat : At 0 1 showing := ⟨rfl, rfl⟩
  have hr : showing.mask.rendering = true := by decide
  have hlooks := looks_ticking (showing, (⟨fun _ => 0⟩ : Answers)) hr 256
  exact ⟨hat, hr, (search_of_line (by decide) hat (reset_not_mem_ticking 256)
    (dots_ticking 256) hlooks).2⟩

/-- A ninth sprite that is missed: between the eight and it stands one out of range, so what is
taken for its position is its tile. -/
example :
    let sprite (y : UInt8) : List UInt8 := [y, 0xFF, 0xFF, 0xFF]
    let oam := (Memory.filled 256 0xFF).load 0
      ((List.replicate 8 (sprite 0)).flatten ++ sprite 0xFF ++ sprite 0)
    (seen oam 0 8 64).length = 9 ∧ meetsNinth oam 0 8 = false := by
  decide +kernel

end Famicom.Ppu
