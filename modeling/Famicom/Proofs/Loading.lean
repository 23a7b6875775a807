/-
# Which images load

An image tells how it is laid out.  Its header of sixteen bytes counts the units of program memory
and of patterns, says whether a trainer lies between, and gives the number of the board; all that is
counted has to be there.  `layout` reads this off byte by byte.

Seven things can be wrong with an image, and `faults` lists them in the order of the layout.
**Loading fails with the first of them, and with none it yields the cartridge that the image
describes** (`ofImage_eq`): the program and the patterns are the slices at their places, and neither
the trainer nor whatever follows the patterns has a part in it (`described_congr`).
-/
import Famicom.Cartridge
import Famicom.Proofs.Bits
import Famicom.Proofs.Board.PowerOn

namespace Famicom

/-! ## 1. The layout of an image -/

namespace Board

/-- The kind of board with a number; those that boards have are 0, 1, 2 and 4. -/
def Kind.ofNumber : Nat → Kind
  | 0 => .nrom
  | 1 => .mmc1
  | 2 => .uxrom
  | _ => .mmc3

theorem Kind.ofNumber_eq_nrom {n : Nat} : ofNumber n = .nrom ↔ n = 0 := by
  unfold ofNumber
  split <;> simp_all

theorem Kind.ofNumber_eq_uxrom {n : Nat} : ofNumber n = .uxrom ↔ n = 2 := by
  unfold ofNumber
  split <;> simp_all

theorem number_powerOn {n : Nat} (h : n ∈ [0, 1, 2, 4]) (chips : Chips) (wired : Mirroring) :
    (powerOn (.ofNumber n) chips wired).mapper.number = n := by
  simp only [List.mem_cons, List.not_mem_nil, or_false] at h
  obtain rfl | rfl | rfl | rfl := h <;> rfl

/-- Power-on takes the memories as they are, but one kind of board has no work memory. -/
theorem chips_powerOn (kind : Kind) (chips : Chips) (wired : Mirroring) :
    (powerOn kind chips wired).chips =
      { chips with ram := if kind = .uxrom then #[] else chips.ram } := by
  cases kind <;> rfl

end Board

namespace Image

/-- The byte at a place of an image, and 0 behind its end. -/
def byteAt (image : Chip) (i : Nat) : UInt8 := image.getD i 0

/-- The first four bytes of an image. -/
def start (image : Chip) : List UInt8 := (image.extract 0 4).toList

/-- What an image says of its layout. -/
structure Layout where
  /-- Units of 16 KiB. -/
  programUnits : Nat
  /-- Units of 8 KiB. -/
  patternUnits : Nat
  hasTrainer : Bool
  /-- The number of the board. -/
  board : Nat

def layout (image : Chip) : Layout where
  programUnits := (byteAt image 4).toNat
  patternUnits := (byteAt image 5).toNat
  hasTrainer := (byteAt image 6).toNat.testBit 2
  board := (byteAt image 7 &&& (0xF0 : UInt8) ||| byteAt image 6 >>> (4 : UInt8)).toNat

namespace Layout

/-- Where program memory begins: behind the header and the trainer. -/
def programStart (l : Layout) : Nat := 16 + if l.hasTrainer then 512 else 0

/-- Where patterns begin. -/
def patternStart (l : Layout) : Nat := l.programStart + 16384 * l.programUnits

/-- Where patterns end. -/
def size (l : Layout) : Nat := l.patternStart + 8192 * l.patternUnits

theorem programStart_le (l : Layout) : l.programStart ≤ l.patternStart := Nat.le_add_right _ _

theorem patternStart_le (l : Layout) : l.patternStart ≤ l.size := Nat.le_add_right _ _

theorem header_le (l : Layout) : 16 ≤ l.programStart := Nat.le_add_right _ _

theorem trainer_le {l : Layout} (h : l.hasTrainer = true) : l.programStart = 16 + 512 := by
  rw [programStart, if_pos h]

end Layout

/-- What can be wrong with an image, and whether it is, in the order in which it is found. -/
def faults (image : Chip) : List (Bool × LoadError) :=
  let l := layout image
  [(image.size < 16, .truncated .header 16 image.size),
    (start image ≠ [0x4E, 0x45, 0x53, 0x1A], .invalidMagic (start image)),
    (l.programUnits = 0, .missingPrgRom),
    (l.hasTrainer && image.size < 16 + 512, .truncated .trainer 512 (image.size - 16)),
    (image.size < l.patternStart,
      .truncated .prgRom (16384 * l.programUnits) (image.size - l.programStart)),
    (image.size < l.size,
      .truncated .chrRom (8192 * l.patternUnits) (image.size - l.patternStart)),
    (l.board ∉ [0, 1, 2, 4], .unsupportedMapper l.board)]

/-- The first thing that is wrong with an image. -/
def firstFault (image : Chip) : Option LoadError :=
  ((faults image).find? fun fault => fault.1).map Prod.snd

/-- An image with nothing wrong. -/
structure WellFormed (image : Chip) : Prop where
  header : 16 ≤ image.size
  start : start image = [0x4E, 0x45, 0x53, 0x1A]
  program : 1 ≤ (layout image).programUnits
  size : (layout image).size ≤ image.size
  board : (layout image).board ∈ [0, 1, 2, 4]

theorem firstFault_eq_none_iff {image : Chip} : firstFault image = none ↔ WellFormed image := by
  have hle := (layout image).patternStart_le
  have hstart := (layout image).programStart_le
  simp only [firstFault, faults, Option.map_eq_none_iff, List.find?_eq_none, List.forall_mem_cons,
    List.not_mem_nil, false_implies, implies_true, and_true, Bool.and_eq_true, decide_eq_true_eq,
    not_and, Nat.not_lt, Decidable.not_not]
  constructor
  · rintro ⟨h1, h2, h3, -, -, h6, h7⟩
    exact ⟨h1, h2, Nat.pos_of_ne_zero h3, h6, h7⟩
  · rintro ⟨h1, h2, h3, h6, h7⟩
    refine ⟨h1, h2, Nat.pos_iff_ne_zero.mp h3, fun ht => ?_, hle.trans h6, h6, h7⟩
    rw [← Layout.trainer_le ht]
    exact (hstart.trans hle).trans h6

/-! ## 2. The cartridge that an image describes -/

/-- What the header of an image declares. -/
def header (image : Chip) : Header := .ofBytes (byteAt image)

/-- The memories that an image describes: its slices, and 8 KiB of zeros that can be written where
it counts no patterns. -/
def chips (image : Chip) : Chips where
  prg := image.extract (layout image).programStart (layout image).patternStart
  ram := Chip.blank (header image).prgRam
  chr :=
    if (layout image).patternUnits = 0 then Chip.blank 8192
    else image.extract (layout image).patternStart (layout image).size
  chrWritable := (layout image).patternUnits = 0

/-- The cartridge that an image describes, just powered on. -/
def described (image : Chip) : Cartridge where
  header := header image
  board := .powerOn (.ofNumber (layout image).board) (chips image) (header image).mirroring

/-- Two images agree in all that counts: the header, the program and the patterns. -/
structure Agree (image other : Chip) : Prop where
  size : (layout image).size ≤ other.size
  header : ∀ i < 16, other[i]? = image[i]?
  contents : ∀ i, (layout image).programStart ≤ i → i < (layout image).size →
    other[i]? = image[i]?

theorem ofBytes_congr {f g : Nat → UInt8} (h : ∀ i < 16, f i = g i) :
    Header.ofBytes f = Header.ofBytes g := by
  simp only [Header.ofBytes, h 4 (by decide), h 5 (by decide), h 6 (by decide), h 7 (by decide),
    h 8 (by decide), h 9 (by decide)]

/-- A slice is as it is in another image that agrees there. -/
theorem extract_congr {image other : Chip} {first last : Nat} (hi : last ≤ image.size)
    (ho : last ≤ other.size) (h : ∀ i, first ≤ i → i < last → other[i]? = image[i]?) :
    other.extract first last = image.extract first last := by
  apply Array.ext_getElem?
  intro i
  rw [Array.getElem?_extract, Array.getElem?_extract, Nat.min_eq_left hi, Nat.min_eq_left ho]
  split
  · exact h _ (Nat.le_add_right _ _) (by omega)
  · rfl

section Agree

variable {image other : Chip}

theorem Agree.byteAt (h : Agree image other) {i : Nat} (hi : i < 16) :
    byteAt other i = byteAt image i := by
  rw [Image.byteAt, Image.byteAt, Array.getD_eq_getD_getElem?, h.header i hi,
    Array.getD_eq_getD_getElem?]

theorem Agree.layout (h : Agree image other) : layout other = layout image := by
  simp only [Image.layout, h.byteAt (by decide : 4 < 16), h.byteAt (by decide : 5 < 16),
    h.byteAt (by decide : 6 < 16), h.byteAt (by decide : 7 < 16)]

variable (hw : WellFormed image) (h : Agree image other)

include hw h

theorem Agree.wellFormed : WellFormed other := by
  have h4 : 16 ≤ (Image.layout image).size :=
    (Layout.header_le _).trans ((Layout.programStart_le _).trans (Layout.patternStart_le _))
  have hstart : start other = start image :=
    congrArg Array.toList (extract_congr (by have := hw.header; omega)
      (by have := h.size; omega) fun i _ hi => h.header i (by omega))
  refine ⟨h4.trans h.size, hstart.trans hw.start, ?_, ?_, ?_⟩ <;> rw [h.layout]
  exacts [hw.program, h.size, hw.board]

/-- **Neither the trainer nor what follows the patterns has a part in the cartridge.** -/
theorem described_congr : described other = described image := by
  have hheader : header other = header image := ofBytes_congr fun i hi => h.byteAt hi
  have hprogram := extract_congr ((Layout.patternStart_le _).trans hw.size)
    ((Layout.patternStart_le _).trans h.size)
    fun i hi hlt => h.contents i hi (hlt.trans_le (Layout.patternStart_le _))
  have hpatterns := extract_congr hw.size h.size
    fun i hi hlt => h.contents i ((Layout.programStart_le _).trans hi) hlt
  have hchips : chips other = chips image := by
    rw [chips, chips, h.layout, hheader, hprogram, hpatterns]
  rw [described, described, h.layout, hheader, hchips]

end Agree

/-! ## 3. What loading makes of an image -/

section Header

variable {image : Chip}

theorem read_eq {i : Nat} (hi : i < image.size) : image.read i = byteAt image i := by
  rw [Chip.read, Nat.mod_eq_of_lt hi, byteAt]

/-- The number of the board is in the upper halves of two bytes. -/
theorem board_eq (low high : UInt8) :
    high.toNat / 16 * 16 + low.toNat / 16 =
      (high &&& (0xF0 : UInt8) ||| low >>> (4 : UInt8)).toNat := by
  have hlow : low.toNat / 16 < 2 ^ 4 := by have := low.toNat_lt; omega
  have hhigh : (high &&& 0xF0).toNat = (high.toNat / 16) <<< 4 :=
    forall_byte high (by decide +kernel)
  have hshift : (low >>> 4).toNat = low.toNat / 16 := by
    rw [UInt8.toNat_shiftRight]
    exact Nat.shiftRight_eq_div_pow low.toNat 4
  rw [UInt8.toNat_or, hhigh, hshift, ← Nat.shiftLeft_add_eq_or_of_lt hlow, Nat.shiftLeft_eq]

theorem header_mapper : (header image).mapper = (layout image).board :=
  board_eq _ _

theorem header_prgRom : (header image).prgRom = 16384 * (layout image).programUnits :=
  Nat.mul_comm _ _

theorem header_chrRom : (header image).chrRom = 8192 * (layout image).patternUnits :=
  Nat.mul_comm _ _

theorem header_chrIsRam : (header image).chrIsRam = decide ((layout image).patternUnits = 0) := by
  rw [Header.chrIsRam, header_chrRom, beq_eq_decide]
  exact decide_eq_decide.mpr (by omega)

theorem header_trainer : (header image).trainer = (layout image).hasTrainer := by
  change (byteAt image 6 &&& 0x04 != 0) = (byteAt image 6).toNat.testBit 2
  rw [Bool.eq_iff_iff, bne_iff_ne, ne_eq, ← UInt8.toNat_inj, UInt8.toNat_and]
  change ¬(byteAt image 6).toNat &&& 2 ^ 2 = 0 ↔ _
  rw [and_two_pow_eq_zero_iff, Bool.not_eq_false]

/-- Parsing a header finds the first two faults. -/
theorem parse_eq (image : Chip) :
    Header.parse image =
      if image.size < 16 then .error (.truncated .header 16 image.size)
      else if start image ≠ [0x4E, 0x45, 0x53, 0x1A] then .error (.invalidMagic (start image))
      else .ok (header image) := by
  unfold Header.parse
  by_cases hsize : image.size < 16
  · rw [if_pos hsize]
    exact if_pos hsize
  have hread : ∀ i < 16, image.read i = byteAt image i := fun i hi => read_eq (by omega)
  have hfound : (List.range 4).map image.read = start image := by
    have hfour : (start image).length = 4 := by
      rw [start, Array.length_toList, Array.size_extract]
      omega
    refine List.ext_getElem (by simp [hfour]) fun i hi _ => ?_
    rw [List.length_map, List.length_range] at hi
    have hin : i < image.size := by omega
    rw [List.getElem_map, List.getElem_range, hread i (by omega), byteAt,
      Array.getD_eq_getD_getElem?, Array.getElem?_eq_getElem hin, Option.getD_some]
    simp [start]
  have hheader : Header.ofBytes image.read = header image := ofBytes_congr hread
  rw [if_neg hsize, hfound, hheader]
  exact if_neg hsize

/-- The board of a known number is powered on, and others are refused. -/
theorem board?_eq (h : Header) (prg chr : Chip) :
    Cartridge.board? h prg chr =
      if h.mapper ∈ [0, 1, 2, 4] then
        .ok (.powerOn (.ofNumber h.mapper) (.ofImages prg chr h.chrIsRam h.prgRam) h.mirroring)
      else .error (.unsupportedMapper h.mapper) := by
  unfold Cartridge.board?
  dsimp only
  split
  case h_5 n h0 h1 h2 h4 =>
    have hn : h.mapper ∉ [0, 1, 2, 4] := by
      simp only [List.mem_cons, List.not_mem_nil, or_false, not_or]
      exact ⟨h0, h1, h2, h4⟩
    rw [if_neg hn]
  all_goals
    rename_i hn
    rw [hn]
    rfl

/-- The memories of the board are the slices that were taken. -/
theorem chips_eq (hsize : (layout image).size ≤ image.size) :
    Chips.ofImages (image.extract (layout image).programStart (layout image).patternStart)
      (image.extract (layout image).patternStart (layout image).size) (header image).chrIsRam
      (header image).prgRam = chips image := by
  have hempty : (image.extract (layout image).patternStart (layout image).size).isEmpty =
      decide ((layout image).patternUnits = 0) := by
    have hpatterns : (layout image).size =
      (layout image).patternStart + 8192 * (layout image).patternUnits := rfl
    change decide (Array.size _ = 0) = _
    rw [Array.size_extract, decide_eq_decide]
    omega
  rw [Chips.ofImages, hempty, header_chrIsRam, chips]
  simp [Chips.blankPatterns]

/-- A part of an image is taken if it is all there. -/
theorem take_bind {α : Type} (part : Section) {first last length : Nat}
    (hlast : last = first + length) (k : Chip → Except LoadError α) :
    (Cartridge.take image part first length >>= k) =
      if image.size < last then .error (.truncated part length (image.size - first))
      else k (image.extract first last) := by
  rw [Cartridge.take, hlast]
  split <;> rfl

/-- Behind a header that counts some program memory come the parts of the image, one by one. -/
theorem ofImage_of_parse (h : Header.parse image = .ok (header image))
    (hp : (layout image).programUnits ≠ 0) :
    Cartridge.ofImage image =
      (Cartridge.take image .trainer 16 (if (layout image).hasTrainer then 512 else 0) >>= fun _ =>
        Cartridge.take image .prgRom (layout image).programStart
            (16384 * (layout image).programUnits) >>= fun prg =>
          Cartridge.take image .chrRom (layout image).patternStart
              (8192 * (layout image).patternUnits) >>= fun chr =>
            Cartridge.board? (header image) prg chr >>= fun board =>
              .ok { header := header image, board }) := by
  have hrom : ¬(header image).prgRom = 0 := by rw [header_prgRom]; omega
  unfold Cartridge.ofImage
  rw [h]
  simp only [bind, Except.bind, if_neg hrom, header_trainer]
  rw [header_prgRom, header_chrRom]
  rfl

end Header

/-- The first fault by cases.  An image without a trainer that is long enough for its header is long
enough for its trainer. -/
theorem firstFault_eq (image : Chip) :
    firstFault image =
      if image.size < 16 then some (.truncated .header 16 image.size)
      else if start image ≠ [0x4E, 0x45, 0x53, 0x1A] then some (.invalidMagic (start image))
      else if (layout image).programUnits = 0 then some .missingPrgRom
      else if image.size < (layout image).programStart then
        some (.truncated .trainer (if (layout image).hasTrainer then 512 else 0) (image.size - 16))
      else if image.size < (layout image).patternStart then
        some (.truncated .prgRom (16384 * (layout image).programUnits)
          (image.size - (layout image).programStart))
      else if image.size < (layout image).size then
        some (.truncated .chrRom (8192 * (layout image).patternUnits)
          (image.size - (layout image).patternStart))
      else if (layout image).board ∉ [0, 1, 2, 4] then
        some (.unsupportedMapper (layout image).board)
      else none := by
  have htrainer (hs : ¬image.size < 16) :
      image.size < (layout image).programStart ↔
        (layout image).hasTrainer = true ∧ image.size < 16 + 512 := by
    unfold Layout.programStart
    split
    · next h => simp [h]
    · next h => simp [h, hs]
  split_ifs with h1 h2 h3 h4 h4' h5 h6 h7 <;> simp_all [firstFault, faults]

/-- **Loading yields the first fault of an image, or the cartridge that it describes.** -/
theorem ofImage_eq (image : Chip) :
    Cartridge.ofImage image =
      match firstFault image with
      | some e => .error e
      | none => .ok (described image) := by
  have hparse := parse_eq image
  rw [firstFault_eq]
  by_cases hsize : image.size < 16
  · rw [if_pos hsize] at hparse
    simp [Cartridge.ofImage, hparse, hsize]
    rfl
  by_cases hstart : start image ≠ [0x4E, 0x45, 0x53, 0x1A]
  · rw [if_neg hsize, if_pos hstart] at hparse
    simp [Cartridge.ofImage, hparse, hsize, hstart]
    rfl
  rw [if_neg hsize, if_neg hstart] at hparse
  rw [if_neg hsize, if_neg hstart]
  by_cases hprogram : (layout image).programUnits = 0
  · have hrom : (header image).prgRom = 0 := by rw [header_prgRom, hprogram]
    rw [if_pos hprogram, Cartridge.ofImage, hparse]
    change (if (header image).prgRom = 0 then _ else _) = _
    rw [if_pos hrom]
    rfl
  rw [if_neg hprogram, ofImage_of_parse hparse hprogram, take_bind _ rfl, take_bind _ rfl,
    take_bind _ rfl, board?_eq, header_mapper]
  change (if image.size < (layout image).programStart then _ else
    if image.size < (layout image).patternStart then _ else
      if image.size < (layout image).size then _ else _) = _
  by_cases htrainer : image.size < (layout image).programStart
  · rw [if_pos htrainer, if_pos htrainer]
  rw [if_neg htrainer, if_neg htrainer]
  by_cases hprg : image.size < (layout image).patternStart
  · rw [if_pos hprg, if_pos hprg]
  rw [if_neg hprg, if_neg hprg]
  by_cases hchr : image.size < (layout image).size
  · rw [if_pos hchr, if_pos hchr]
  rw [if_neg hchr, if_neg hchr]
  by_cases hboard : (layout image).board ∈ [0, 1, 2, 4]
  · rw [if_pos hboard, if_neg (not_not_intro hboard), described, ← chips_eq (Nat.not_lt.mp hchr)]
    rfl
  · rw [if_neg hboard, if_pos hboard]
    rfl

/-! ## 4. What loads, and what is wrong with the rest -/

/-- The board of a cartridge is of the kind that an image names and holds its program and its
patterns. -/
structure Holds (image : Chip) (c : Cartridge) : Prop where
  number : c.board.mapper.number = (layout image).board
  program : c.board.chips.prg =
    image.extract (layout image).programStart (layout image).patternStart
  patterns : c.board.chips.chr =
    if (layout image).patternUnits = 0 then Chip.blank 8192
    else image.extract (layout image).patternStart (layout image).size
  writable : c.board.chips.chrWritable = decide ((layout image).patternUnits = 0)

theorem described_holds {image : Chip} (h : WellFormed image) : Holds image (described image) := by
  refine ⟨Board.number_powerOn h.board _ _, ?_, ?_, ?_⟩ <;>
  · rw [described, Board.chips_powerOn]
    rfl

/-- **An image loads exactly if it is well formed**; its cartridge then holds the program and the
patterns, and any other image that agrees in them makes the same.  Every other image fails with the
first of its faults. -/
theorem loads_or_first_fault (image : Chip) :
    ((∃ c, Cartridge.ofImage image = .ok c) ↔ WellFormed image) ∧
      (∀ c, Cartridge.ofImage image = .ok c →
        Holds image c ∧ ∀ other, Agree image other → Cartridge.ofImage other = .ok c) ∧
      ∀ e, Cartridge.ofImage image = .error e ↔ firstFault image = some e := by
  have hload {image : Chip} (h : WellFormed image) :
      Cartridge.ofImage image = .ok (described image) := by
    rw [ofImage_eq, firstFault_eq_none_iff.mpr h]
  have hfail {e : LoadError} (h : firstFault image = some e) :
      Cartridge.ofImage image = .error e := by
    rw [ofImage_eq, h]
  cases hfault : firstFault image with
  | some e =>
    have hw : ¬WellFormed image := by
      rw [← firstFault_eq_none_iff, hfault]
      nofun
    have hne (c : Cartridge) : Cartridge.ofImage image ≠ .ok c := by
      rw [hfail hfault]
      exact nofun
    refine ⟨iff_of_false (fun ⟨c, hc⟩ => hne c hc) hw, fun c hc => absurd hc (hne c), fun e' => ?_⟩
    rw [hfail hfault, Except.error.injEq, Option.some.injEq]
  | none =>
    have hw := firstFault_eq_none_iff.mp hfault
    have hok := hload hw
    refine ⟨iff_of_true ⟨_, hok⟩ hw, fun c hc => ?_, fun e => ?_⟩
    · have hc : described image = c := Except.ok.inj (hok.symm.trans hc)
      rw [← hc]
      refine ⟨described_holds hw, fun other hagree => ?_⟩
      rw [hload (hagree.wellFormed hw), described_congr hw hagree]
    · rw [hok]
      exact iff_of_false nofun nofun

/-- A header alone, with a trainer, program memory and a board of number 5: all three are wrong, and
the trainer comes first. -/
example : firstFault #[0x4E, 0x45, 0x53, 0x1A, 1, 1, 0x54, 0, 0, 0, 0, 0, 0, 0, 0, 0] =
    some (.truncated .trainer 512 0) := by decide

end Image
end Famicom
