/-
# The search for sprites

On the dots 65 to 256 of a line the search takes a byte of sprite memory and acts on it, ninety-six
times.  A sprite out of range costs one of them and a sprite in range four, and at most eight are
copied, so **the search is over in time**: 64 + 3 * 8 is less than 96.

What it then has is what the next line needs.  `seen` are the sprites in range, in the order of
sprite memory, and `chosen` the first eight of them: `found_chosen` says that the list holds the
bytes of exactly these, one after the other, whatever it held before and whatever the walk for a
ninth sprite does afterwards.
-/
import Famicom.Proofs.Ppu.Beam

namespace Famicom.Ppu

/-! ## 1. The sprites of a line -/

section Spec

variable (oam : Memory 256) (line height : Nat)

/-- Whether a sprite is in range of the search on a line. -/
def isInRange (i : Nat) : Bool := inRange line height (oam.read (i * 4))

/-- The sprites in range among the first `n`. -/
def seen (n : Nat) : List Nat := (List.range n).filter (isInRange oam line height)

/-- The sprites the next line shows: the first eight in range. -/
def chosen : List Nat := (seen oam line height 64).take 8

end Spec

variable {oam : Memory 256} {line height : Nat}

theorem seen_succ (n : Nat) :
    seen oam line height (n + 1) =
      if isInRange oam line height n then seen oam line height n ++ [n]
      else seen oam line height n := by
  unfold seen
  rw [List.range_succ, List.filter_append, List.filter_cons, List.filter_nil]
  split
  · rfl
  · exact List.append_nil _

/-- Looking on only adds sprites at the end. -/
theorem seen_append {m n : Nat} (h : m ≤ n) :
    ∃ rest, seen oam line height n = seen oam line height m ++ rest := by
  induction n, h using Nat.le_induction with
  | base => exact ⟨[], (List.append_nil _).symm⟩
  | succ n _ ih =>
    obtain ⟨rest, hrest⟩ := ih
    rw [seen_succ]
    split
    · exact ⟨rest ++ [n], by rw [hrest, List.append_assoc]⟩
    · exact ⟨rest, hrest⟩

theorem mem_seen {n i : Nat} :
    i ∈ seen oam line height n ↔ i < n ∧ isInRange oam line height i := by
  rw [seen, List.mem_filter, List.mem_range]

/-- Once eight are seen, they are the chosen ones. -/
theorem chosen_eq_seen {n : Nat} (hn : n ≤ 64) (h : (seen oam line height n).length = 8 ∨ n = 64)
    (h8 : (seen oam line height n).length ≤ 8) :
    chosen oam line height = seen oam line height n := by
  obtain ⟨rest, hrest⟩ : ∃ rest, seen oam line height 64 = seen oam line height n ++ rest :=
    seen_append hn
  rw [chosen]
  rcases h with h | rfl
  · rw [hrest, List.take_append_of_le_length (by omega), ← h, List.take_length]
  · exact List.take_of_length_le h8

/-! ## 2. Taking a byte -/

/-- The part of the sprites that the search is about. -/
structure Listing where
  search : SpriteSearch
  list : Memory 32

namespace Listing

/-- The byte at the current place is looked at. -/
def look (oam : Memory 256) (l : Listing) : Listing :=
  { l with search := { l.search with latch := oam.read l.search.place } }

/-- The byte is acted on. -/
def act (line height : Nat) (l : Listing) : Listing :=
  if l.search.done then l
  else if l.search.found < 8 then
    ⟨l.search.collect (inRange line height l.search.latch),
      l.list.write l.search.target l.search.latch⟩
  else ⟨l.search.walk (inRange line height l.search.latch), l.list⟩

/-- Two dots of the search. -/
def take (oam : Memory 256) (line height : Nat) (l : Listing) : Listing :=
  (l.look oam).act line height

end Listing

/-- The search among the sprites. -/
def Sprites.listing (s : Sprites) : Listing := ⟨s.search, s.secondary⟩

theorem listing_look (s : Sprites) : (s.look oam).listing = s.listing.look oam := rfl

theorem listing_act (s : Sprites) : (s.act line height).1.listing = s.listing.act line height := by
  obtain ⟨search, secondary, units, count, zeroInLine⟩ := s
  unfold Sprites.act Listing.act Sprites.listing
  dsimp only
  split
  · rfl
  · split <;> rfl

/-! ## 3. Sprite by sprite -/

/-- The list holds the bytes of these sprites, one after the other. -/
def Holds (oam : Memory 256) (list : Memory 32) (sprites : List Nat) : Prop :=
  ∀ k i, sprites[k]? = some i → ∀ b < 4, list.read (k * 4 + b) = oam.read (i * 4 + b)

/-- What is written behind the sprites of the list does not reach them. -/
theorem Holds.write {list : Memory 32} {sprites : List Nat} (h : Holds oam list sprites) {j : Nat}
    (hj : sprites.length * 4 ≤ j) (hj' : j < 32) (v : UInt8) :
    Holds oam (list.write j v) sprites := by
  intro k i hk b hb
  obtain ⟨hlt, -⟩ := List.getElem?_eq_some_iff.mp hk
  rw [Memory.read_write, if_neg (by omega)]
  exact h k i hk b hb

/-- Four bytes behind the sprites of the list make one more sprite. -/
theorem Holds.snoc {list : Memory 32} {sprites : List Nat} (h : Holds oam list sprites) {n : Nat}
    (hn : ∀ b < 4, list.read (sprites.length * 4 + b) = oam.read (n * 4 + b)) :
    Holds oam list (sprites ++ [n]) := by
  intro k i hk b hb
  by_cases hlt : k < sprites.length
  · rw [List.getElem?_append_left hlt] at hk
    exact h k i hk b hb
  · rw [List.getElem?_append_right (by omega)] at hk
    obtain ⟨hk1, hi⟩ := List.getElem?_eq_some_iff.mp hk
    have hk0 : k = sprites.length := by
      rw [List.length_singleton] at hk1
      omega
    rw [List.getElem_singleton] at hi
    rw [hk0, ← hi]
    exact hn b hb

variable {n : Nat} {l : Listing}

/-- The search has come to a sprite. -/
structure Active (oam : Memory 256) (line height n : Nat) (l : Listing) : Prop where
  sprite : l.search.sprite.val = n
  byte : l.search.byte = 0
  done : l.search.done = false
  found : l.search.found = (seen oam line height n).length
  room : l.search.found < 8
  hasZero : l.search.hasZero = decide (0 ∈ seen oam line height n)
  holds : Holds oam l.list (seen oam line height n)

/-- The search copies a sprite in range, and has come to one of its bytes. -/
structure Copying (oam : Memory 256) (line height n b : Nat) (l : Listing) : Prop where
  isInRange : isInRange oam line height n = true
  sprite : l.search.sprite.val = n
  byte : l.search.byte.val = b
  done : l.search.done = false
  found : l.search.found = (seen oam line height n).length
  room : l.search.found < 8
  hasZero : l.search.hasZero = decide (0 ∈ seen oam line height (n + 1))
  holds : Holds oam l.list (seen oam line height n)
  copied : ∀ c < b, l.list.read (l.search.found * 4 + c) = oam.read (n * 4 + c)

/-- The search is over: the list holds the chosen sprites. -/
structure Finished (oam : Memory 256) (line height : Nat) (l : Listing) : Prop where
  ended : l.search.done = true ∨ 8 ≤ l.search.found
  found : l.search.found = (chosen oam line height).length
  hasZero : l.search.hasZero = isInRange oam line height 0
  holds : Holds oam l.list (chosen oam line height)

/-- A sprite is done with, and the search goes to the next one or ends. -/
inductive Reached (oam : Memory 256) (line height n : Nat) (l : Listing) : Prop where
  | active (h : Active oam line height n l) (hn : n < 64)
  | finished (h : Finished oam line height l)

/-- What the search has as it is done with a sprite. -/
structure Past (oam : Memory 256) (line height n : Nat) (l : Listing) : Prop where
  sprite : l.search.sprite.val = (n + 1) % 64
  byte : l.search.byte = 0
  done : l.search.done = decide (n = 63)
  found : l.search.found = (seen oam line height (n + 1)).length
  atMost : l.search.found ≤ 8
  hasZero : l.search.hasZero = decide (0 ∈ seen oam line height (n + 1))
  holds : Holds oam l.list (seen oam line height (n + 1))

/-- Past a sprite the search comes to the next, while there is one and room for it. -/
theorem Past.active (h : Past oam line height n l) (hn : n < 63) (hroom : l.search.found < 8) :
    Active oam line height (n + 1) l where
  sprite := by
    rw [h.sprite]
    omega
  byte := h.byte
  done := by
    rw [h.done]
    exact decide_eq_false (by omega)
  found := h.found
  room := hroom
  hasZero := h.hasZero
  holds := h.holds

/-- Past the last sprite, or with eight of them, it has the chosen ones. -/
theorem Past.chosen_eq (h : Past oam line height n l) (hn : n < 64)
    (hover : n = 63 ∨ l.search.found = 8) :
    chosen oam line height = seen oam line height (n + 1) := by
  have hle := h.atMost
  rw [h.found] at hle hover
  exact chosen_eq_seen (by omega) (by omega) hle

theorem Past.reached (h : Past oam line height n l) (hn : n < 64) :
    Reached oam line height (n + 1) l := by
  have hle := h.atMost
  by_cases hover : n = 63 ∨ l.search.found = 8
  · have hchosen := h.chosen_eq hn hover
    refine .finished ⟨?_, by rw [hchosen, h.found], ?_, by rw [hchosen]; exact h.holds⟩
    · rcases hover with h63 | h8
      · exact .inl (by rw [h.done, h63]; rfl)
      · exact .inr (by omega)
    · rw [h.hasZero, Bool.eq_iff_iff, decide_eq_true_eq, mem_seen]
      exact ⟨fun h0 => h0.2, fun h0 => ⟨by omega, h0⟩⟩
  · exact .active (h.active (by omega) (by omega)) (by omega)

/-- What the search does with a byte while it has room. -/
theorem take_of_room (hdone : l.search.done = false) (hroom : l.search.found < 8) :
    l.take oam line height =
      ⟨({ l.search with latch := oam.read l.search.place } : SpriteSearch).collect
          (inRange line height (oam.read l.search.place)),
        l.list.write l.search.target (oam.read l.search.place)⟩ := by
  unfold Listing.take Listing.act Listing.look
  dsimp only
  rw [if_neg (by rw [hdone]; exact Bool.false_ne_true), if_pos hroom]
  rfl

/-- With eight sprites it walks on. -/
theorem take_of_full (hdone : l.search.done = false) (hfull : 8 ≤ l.search.found) :
    l.take oam line height =
      ⟨({ l.search with latch := oam.read l.search.place } : SpriteSearch).walk
          (inRange line height (oam.read l.search.place)),
        l.list⟩ := by
  unfold Listing.take Listing.act Listing.look
  dsimp only
  rw [if_neg (by rw [hdone]; exact Bool.false_ne_true), if_neg (by omega)]

/-- Once it is over it does no more than take the byte. -/
theorem take_of_done (hdone : l.search.done = true) : l.take oam line height = l.look oam :=
  if_pos hdone

theorem next_sprite (e : SpriteSearch) : e.next.sprite.val = (e.sprite.val + 1) % 64 :=
  Fin.val_add e.sprite 1

theorem next_done (e : SpriteSearch) : e.next.done = (e.done || decide (e.sprite.val = 63)) := by
  have hlast : (e.sprite == 63) = decide (e.sprite.val = 63) := by
    rw [Bool.eq_iff_iff, beq_iff_eq, decide_eq_true_eq, Fin.ext_iff]
    rfl
  rw [← hlast]
  rfl

theorem Active.place (h : Active oam line height n l) : l.search.place = n * 4 := by
  rw [SpriteSearch.place, h.sprite, h.byte]
  rfl

/-- A sprite out of range costs one byte. -/
theorem Active.pass (h : Active oam line height n l)
    (hr : isInRange oam line height n = false) :
    Past oam line height n (l.take oam line height) ∧
      (l.take oam line height).search.found = l.search.found := by
  have hseen : seen oam line height (n + 1) = seen oam line height n := by
    rw [seen_succ, if_neg (by rw [hr]; exact Bool.false_ne_true)]
  have htarget : l.search.target = l.search.found * 4 := by
    rw [SpriteSearch.target, h.byte]
    rfl
  have htake : l.take oam line height =
      ⟨({ l.search with latch := oam.read (n * 4) } : SpriteSearch).next,
        l.list.write (l.search.found * 4) (oam.read (n * 4))⟩ := by
    have hr' : inRange line height (oam.read (n * 4)) = false := hr
    rw [take_of_room h.done h.room, h.place, htarget, hr', SpriteSearch.collect, if_pos h.byte,
      if_neg Bool.false_ne_true]
  have hroom := h.room
  rw [htake]
  refine ⟨⟨?_, h.byte, ?_, ?_, Nat.le_of_lt h.room, ?_, ?_⟩, rfl⟩
  · dsimp only
    rw [next_sprite, h.sprite]
  · dsimp only
    rw [next_done, h.done, h.sprite, Bool.false_or]
  · rw [hseen]
    exact h.found
  · rw [hseen]
    exact h.hasZero
  · rw [hseen]
    exact h.holds.write (by rw [h.found]) (by omega) _

/-- A sprite in range begins to be copied. -/
theorem Active.start (h : Active oam line height n l)
    (hr : isInRange oam line height n = true) :
    Copying oam line height n 1 (l.take oam line height) ∧
      (l.take oam line height).search.found = l.search.found := by
  have htarget : l.search.target = l.search.found * 4 := by
    rw [SpriteSearch.target, h.byte]
    rfl
  have htake : l.take oam line height =
      ⟨{ l.search with
          latch := oam.read (n * 4), byte := 1
          hasZero := l.search.hasZero || l.search.sprite == 0 },
        l.list.write (l.search.found * 4) (oam.read (n * 4))⟩ := by
    have hr' : inRange line height (oam.read (n * 4)) = true := hr
    rw [take_of_room h.done h.room, h.place, htarget, hr', SpriteSearch.collect, if_pos h.byte,
      if_pos rfl]
  have hroom := h.room
  rw [htake]
  refine ⟨⟨hr, h.sprite, rfl, h.done, h.found, h.room, ?_, ?_, ?_⟩, rfl⟩
  · have hzero : (l.search.sprite == 0) = decide (n = 0) := by
      rw [Bool.eq_iff_iff, beq_iff_eq, decide_eq_true_eq, Fin.ext_iff, h.sprite]
      rfl
    dsimp only
    rw [h.hasZero, hzero, Bool.eq_iff_iff, Bool.or_eq_true, decide_eq_true_eq, decide_eq_true_eq,
      decide_eq_true_eq, mem_seen, mem_seen]
    constructor
    · rintro (⟨h0, h0r⟩ | rfl)
      · exact ⟨by omega, h0r⟩
      · exact ⟨by omega, hr⟩
    · rintro ⟨-, h0r⟩
      by_cases h0 : n = 0
      · exact .inr h0
      · exact .inl ⟨by omega, h0r⟩
  · exact h.holds.write (by rw [h.found]) (by omega) _
  · intro c hc
    have hc0 : c = 0 := by omega
    dsimp only
    rw [hc0, Nat.add_zero, Memory.read_write_self]
    rfl

/-- What a byte that is copied does to the list. -/
theorem Copying.take_eq {b : Nat} (h : Copying oam line height n b l) (hb : 1 ≤ b) :
    ∃ latch, l.take oam line height =
      ⟨if b = 3 then
          ({ l.search with latch, byte := 0, found := l.search.found + 1 } : SpriteSearch).next
        else { l.search with latch, byte := l.search.byte + 1 },
        l.list.write (l.search.found * 4 + b) (oam.read (n * 4 + b))⟩ := by
  have hplace : l.search.place = n * 4 + b := by rw [SpriteSearch.place, h.sprite, h.byte]
  have htarget : l.search.target = l.search.found * 4 + b := by rw [SpriteSearch.target, h.byte]
  have hb0 : ¬l.search.byte = 0 := fun h0 => by
    have hv := h.byte
    rw [h0] at hv
    exact absurd hv (by change ¬(0 = b); omega)
  have hb3 : l.search.byte = 3 ↔ b = 3 := by
    rw [Fin.ext_iff, h.byte]
    rfl
  refine ⟨oam.read (n * 4 + b), ?_⟩
  rw [take_of_room h.done h.room, hplace, htarget, SpriteSearch.collect, if_neg hb0]
  simp only [hb3]

/-- The bytes copied so far, and one more. -/
theorem Copying.copied_succ {b : Nat} (h : Copying oam line height n b l) (hb : b < 4) :
    ∀ c < b + 1,
      (l.list.write (l.search.found * 4 + b) (oam.read (n * 4 + b))).read (l.search.found * 4 + c) =
        oam.read (n * 4 + c) := by
  intro c hc
  have hroom := h.room
  rw [Memory.read_write]
  by_cases hcb : c = b
  · rw [if_pos (by rw [hcb]), hcb]
  · rw [if_neg (by omega)]
    exact h.copied c (by omega)

/-- The next byte of a sprite is copied. -/
theorem Copying.step {b : Nat} (h : Copying oam line height n b l) (hb : 1 ≤ b) (hb3 : b < 3) :
    Copying oam line height n (b + 1) (l.take oam line height) ∧
      (l.take oam line height).search.found = l.search.found := by
  obtain ⟨latch, htake⟩ := h.take_eq hb
  have hroom := h.room
  rw [if_neg (by omega)] at htake
  rw [htake]
  refine ⟨⟨h.isInRange, h.sprite, ?_, h.done, h.found, h.room, h.hasZero, ?_,
    h.copied_succ (by omega)⟩, rfl⟩
  · dsimp only
    rw [Fin.val_add, h.byte]
    exact Nat.mod_eq_of_lt (by omega)
  · exact h.holds.write (by rw [h.found]; omega) (by omega) _

/-- The last byte of a sprite is copied, and the sprite is done with. -/
theorem Copying.last (h : Copying oam line height n 3 l) :
    Past oam line height n (l.take oam line height) ∧
      (l.take oam line height).search.found = l.search.found + 1 := by
  obtain ⟨latch, htake⟩ := h.take_eq (by omega)
  have hroom := h.room
  rw [if_pos rfl] at htake
  have hseen : seen oam line height (n + 1) = seen oam line height n ++ [n] := by
    rw [seen_succ, if_pos h.isInRange]
  rw [htake]
  refine ⟨⟨?_, rfl, ?_, ?_, ?_, h.hasZero, ?_⟩, rfl⟩
  · dsimp only
    rw [next_sprite, h.sprite]
  · dsimp only
    rw [next_done, h.done, h.sprite, Bool.false_or]
  · rw [hseen, List.length_append, ← h.found]
    rfl
  · exact Nat.succ_le_of_lt h.room
  · rw [hseen]
    refine (h.holds.write (by rw [h.found]; omega) (by omega) _).snoc fun b hb => ?_
    rw [← h.found]
    exact h.copied_succ (by omega) b hb

/-! ## 4. The whole search -/

/-- Once it is over the search changes nothing that counts. -/
theorem Finished.take (h : Finished oam line height l) :
    Finished oam line height (l.take oam line height) := by
  cases hdone : l.search.done with
  | true =>
    rw [take_of_done hdone]
    exact ⟨.inl hdone, h.found, h.hasZero, h.holds⟩
  | false =>
    have hfull : 8 ≤ l.search.found :=
      h.ended.resolve_left (by rw [hdone]; exact Bool.false_ne_true)
    rw [take_of_full hdone hfull]
    unfold SpriteSearch.walk
    split
    · exact ⟨.inl rfl, h.found, h.hasZero, h.holds⟩
    · exact ⟨.inr hfull, h.found, h.hasZero, h.holds⟩

theorem Finished.takes (h : Finished oam line height l) (m : Nat) :
    Finished oam line height ((Listing.take oam line height)^[m] l) := by
  induction m with
  | zero => exact h
  | succ m ih =>
    rw [Function.iterate_succ_apply']
    exact ih.take

/-- A sprite costs one byte, and three more if it is copied. -/
theorem Active.sprite_done (h : Active oam line height n l) (hn : n < 64) :
    ∃ k, Reached oam line height (n + 1) ((Listing.take oam line height)^[k] l) ∧
      k + 3 * (8 - ((Listing.take oam line height)^[k] l).search.found) =
        1 + 3 * (8 - l.search.found) := by
  cases hr : isInRange oam line height n with
  | false =>
    obtain ⟨hpast, hfound⟩ := h.pass hr
    refine ⟨1, hpast.reached hn, ?_⟩
    rw [Function.iterate_one, hfound]
  | true =>
    obtain ⟨h1, f1⟩ := h.start hr
    obtain ⟨h2, f2⟩ := h1.step (by omega) (by omega)
    obtain ⟨h3, f3⟩ := h2.step (by omega) (by omega)
    obtain ⟨hpast, f4⟩ := h3.last
    refine ⟨4, hpast.reached hn, ?_⟩
    have hfound : ((Listing.take oam line height)^[4] l).search.found = l.search.found + 1 := by
      change (((((l.take oam line height).take oam line height).take oam line height).take oam line
        height).search.found = _)
      rw [f4, f3, f2, f1]
    have hroom := h.room
    rw [hfound]
    omega

/-- **The search is over in time**: with a byte for each sprite to come and three for each place
that is free. -/
theorem Reached.finishes (h : Reached oam line height n l) (hn : n ≤ 64) {m : Nat}
    (hm : 64 - n + 3 * (8 - l.search.found) ≤ m) :
    Finished oam line height ((Listing.take oam line height)^[m] l) := by
  obtain ⟨left, hleft⟩ : ∃ left, 64 - n = left := ⟨_, rfl⟩
  induction left generalizing n l m with
  | zero =>
    cases h with
    | active h hlt => omega
    | finished h => exact h.takes m
  | succ left ih =>
    cases h with
    | finished h => exact h.takes m
    | active h hlt =>
      obtain ⟨k, hreached, hcost⟩ := h.sprite_done hlt
      have hsplit : m = m - k + k := by omega
      rw [hsplit, Function.iterate_add_apply]
      exact ih hreached (by omega) (by omega) (by omega)

/-- The search as it begins. -/
theorem active_zero (list : Memory 32) : Active oam line height 0 ⟨{}, list⟩ where
  sprite := rfl
  byte := rfl
  done := rfl
  found := rfl
  room := Nat.zero_lt_succ 7
  hasZero := rfl
  holds k i hk := by
    rw [seen, List.range_zero, List.filter_nil] at hk
    cases hk

/-- **What a line's search finds**: the chosen sprites, whatever the list held before. -/
theorem found_chosen (list : Memory 32) :
    Finished oam line height ((Listing.take oam line height)^[96] ⟨{}, list⟩) :=
  (Reached.active (active_zero list) (by decide)).finishes (by decide)
    (show 64 - 0 + 3 * (8 - 0) ≤ 96 by decide)

/-! ## 5. The dots of the search -/

section Dots

variable {f : UInt16 → UInt8} {σ : Settings} {p : Ppu} {d : Nat}

theorem rendering_of_sprites {m : Mask} (h : m.sprites = true) : m.rendering = true := by
  have hand : m.bits &&& 0x10 = (m.bits &&& 0x18) &&& 0x10 := by
    rw [UInt8.and_assoc]
    rfl
  rw [Mask.sprites, bne_iff_ne] at h
  rw [Mask.rendering, bne_iff_ne]
  intro h0
  rw [hand, h0] at h
  exact h rfl

/-- What a dot of a line of the picture does to the sprites, where sprites are shown. -/
theorem sprites_dot (hs : σ.mask.sprites = true) (hp : p.settings = σ) (hat : At line d p)
    (hl : line < 240) :
    (p.dot f).sprites = (p.sprites.part f σ.control σ.oam line d).moved true d := by
  subst hp
  have hm : p.mask.sprites = true := hs
  have hf : p.raster.fetches := by
    rw [Raster.fetches_iff, hat.onLine]
    exact .inl hl
  rw [dot_sprites (rendering_of_sprites hm) hf, hat.onLine, hat.atDot, hm]
  rfl

theorem listing_step (s : Sprites) : s.step.listing = s.listing := by
  unfold Sprites.step
  split <;> rfl

theorem listing_moved (s : Sprites) (shown : Bool) : (s.moved shown d).listing = s.listing := by
  unfold Sprites.moved
  split
  · exact listing_step s
  · rfl

/-- Before the search begins it stands at its start. -/
theorem search_ready (hs : σ.mask.sprites = true) (hp : p.settings = σ) (hat : At line 1 p)
    (hl : line < 240) :
    ∀ {n : Nat}, n ≤ 63 → ((dot f)^[1 + n] p).sprites.listing.search = {}
  | 0, _ => by
    change (p.dot f).sprites.listing.search = {}
    rw [sprites_dot hs hp hat hl, listing_moved]
    rfl
  | n + 1, hn => by
    have hn1 : 1 + (n + 1) = 1 + n + 1 := by omega
    have hat' : At line (1 + (1 + n)) ((dot f)^[1 + n] p) := hat.run (by omega)
    rw [hn1, Function.iterate_succ_apply', sprites_dot hs (by rw [dots_settings, hp]) hat' hl,
      listing_moved, Sprites.part, if_neg (by omega), if_neg (by omega), if_pos (by omega)]
    have ih := search_ready hs hp hat hl (n := n) (by omega)
    split
    · exact ih
    · exact ih

/-- Two dots of the search take a byte. -/
theorem listing_two_dots (hs : σ.mask.sprites = true) (hp : p.settings = σ) (hat : At line d p)
    (hl : line < 240) (hd : 65 ≤ d) (hd' : d ≤ 255) (hodd : d % 2 = 1) :
    ((p.dot f).dot f).sprites.listing =
      p.sprites.listing.take σ.oam line σ.control.spriteHeight := by
  have hv : line < Ppu.height := hl
  rw [sprites_dot hs (by rw [dot_settings, hp]) (hat.step (by omega)) hl, listing_moved,
    Sprites.part, if_neg (by omega), if_neg (by omega), if_neg (by omega), if_pos (by omega),
    if_pos hv, Sprites.searched, if_neg (by omega), listing_act,
    sprites_dot hs hp hat hl, listing_moved,
    Sprites.part, if_neg (by omega), if_neg (by omega), if_neg (by omega), if_pos (by omega),
    if_pos hv, Sprites.searched, if_pos (by omega), listing_look]
  rfl

/-- The bytes taken along a line. -/
theorem listing_run (hs : σ.mask.sprites = true) (hp : p.settings = σ) (hat : At line 65 p)
    (hl : line < 240) :
    ∀ {m : Nat}, m ≤ 96 →
      ((dot f)^[2 * m] p).sprites.listing =
        (Listing.take σ.oam line σ.control.spriteHeight)^[m] p.sprites.listing
  | 0, _ => rfl
  | m + 1, hm => by
    have hat' : At line (65 + 2 * m) ((dot f)^[2 * m] p) := hat.run (by omega)
    have hm1 : 2 * (m + 1) = 2 * m + 1 + 1 := by omega
    rw [hm1, Function.iterate_succ_apply', Function.iterate_succ_apply',
      Function.iterate_succ_apply',
      listing_two_dots hs (by rw [dots_settings, hp]) hat' hl (by omega) (by omega) (by omega),
      listing_run hs hp hat hl (by omega)]

/-- **After the search of a line** the list holds the sprites that the next line shows. -/
theorem line_searched (hs : σ.mask.sprites = true) (hp : p.settings = σ) (hat : At line 1 p)
    (hl : line < 240) :
    Finished σ.oam line σ.control.spriteHeight ((dot f)^[256] p).sprites.listing := by
  have hat65 : At line 65 ((dot f)^[64] p) := hat.run (n := 64) (by omega)
  have hready : ((dot f)^[64] p).sprites.listing = ⟨{}, ((dot f)^[64] p).sprites.secondary⟩ := by
    have h := search_ready (f := f) hs hp hat hl (n := 63) (by omega)
    change _ = Listing.mk {} _
    rw [← h]
    rfl
  have hrun := listing_run (f := f) hs (by rw [dots_settings, hp]) hat65 hl (m := 96) (by omega)
  rw [← Function.iterate_add_apply, hready] at hrun
  have hgo : (dot f)^[256] p = (dot f)^[2 * 96 + 64] p := rfl
  rw [hgo, hrun]
  exact found_chosen _

end Dots

end Famicom.Ppu
