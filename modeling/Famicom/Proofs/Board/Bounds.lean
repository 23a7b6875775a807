/-
# The bounds of a board

A board that was powered on once never leaves its memories, whatever is done to it: with a program
of any length but none, patterns of any length, any work memory, and any banks in its registers.
**In bare memories its accesses have the results that they have in folded ones**, at every address
(`accesses_inside`).

Where a memory is a whole number of its banks, more can be said.  A board shows it in windows of one
size, side by side.  `programBanks` and `patternBanks` are tables of the banks in them, and then **a
byte is at its place in the bank of its window**, the bank counted modulo those that there are
(`shownPlace`).  A program without any logic is no exception: it is two banks in two windows, and if
there is one bank only, it is in both.
-/
import Famicom.Proofs.Board.Bare
import Famicom.Proofs.Board.Rises
import Famicom.Proofs.Board.WindowExchanges

namespace Famicom

/-! ## 1. Tables of banks -/

namespace Mapper

/-- The banks in the windows of the program, where there are `count`. -/
def programBanks (m : Mapper) (count : Nat) : List Nat :=
  match m with
  | nrom _ => [0, 1]
  | mmc1 r =>
    let bank := r.prg.toNat % 16
    match r.control.toNat / 4 % 4 with
    | 0 | 1 => [bank / 2 * 2, bank / 2 * 2 + 1]
    | 2 => [0, bank]
    | _ => [bank, count - 1]
  | uxrom _ bank => [bank.toNat, count - 1]
  | mmc3 r =>
    let bank6 := (r.banks.read 6).toNat % 64
    let bank7 := (r.banks.read 7).toNat % 64
    if r.select.toNat.testBit 6 then [count - 2, bank7, bank6, count - 1]
    else [bank6, bank7, count - 2, count - 1]

/-- The banks in the windows of the patterns. -/
def patternBanks : Mapper → List Nat
  | nrom _ | uxrom .. => [0]
  | mmc1 r =>
    let pair := r.chr0.toNat / 2 % 16
    if r.control.toNat.testBit 4 then [r.chr0.toNat, r.chr1.toNat] else [2 * pair, 2 * pair + 1]
  | mmc3 r =>
    let bank (i : Nat) : Nat := (r.banks.read i).toNat
    let pairs := [2 * (bank 0 / 2), 2 * (bank 0 / 2) + 1, 2 * (bank 1 / 2), 2 * (bank 1 / 2) + 1]
    let singles := [bank 2, bank 3, bank 4, bank 5]
    if r.select.toNat.testBit 7 then singles ++ pairs else pairs ++ singles

end Mapper

namespace Board

/-- The place that an address shows, where windows side by side fill `space` bytes, these banks are
in them, and `count` banks are all of the memory. -/
def shownPlace (space : Nat) (banks : List Nat) (count : Nat) (a : UInt16) : Option Nat :=
  let bankSize := space / banks.length
  (banks[a.toNat / bankSize % banks.length]?).map fun bank =>
    bank % count * bankSize + a.toNat % bankSize

section Whole

variable {size bankSize n : Nat} (hsize : 0 < size) (hn : size = n * bankSize)

include hsize hn

/-- A memory that holds a byte and is whole banks has as many as it is cut into. -/
theorem count_whole : 0 < bankSize ∧ 0 < n ∧ size / bankSize = n := by
  have hb : 0 < bankSize := Nat.pos_of_ne_zero (by rintro rfl; omega)
  have hn0 : 0 < n := Nat.pos_of_ne_zero (by rintro rfl; omega)
  exact ⟨hb, hn0, by rw [hn, Nat.mul_div_cancel _ hb]⟩

/-- **In a memory of whole banks a folded place is one of its bank.** -/
theorem bankedOffset_whole (bank offset : Nat) :
    bankedOffset size bank bankSize offset % size =
      bank % n * bankSize + offset % bankSize := by
  obtain ⟨hb, hn0, hcount⟩ := count_whole hsize hn
  have hle : bankSize ≤ size := hn ▸ Nat.le_mul_of_pos_left _ hn0
  rw [Nat.mod_eq_of_lt (bankedOffset_lt bank offset hb hle), bankedOffset, hcount,
    Nat.max_eq_left hn0]

/-- A folded place is the one that is shown, if the table has its bank, or one that is as good. -/
theorem shownPlace_eq {space bank shown : Nat} {banks : List Nat} {a : UInt16}
    (hspace : space / banks.length = bankSize)
    (hshown : banks[a.toNat / bankSize % banks.length]? = some shown)
    (hbank : shown % n = bank % n) :
    shownPlace space banks n a = some (bankedOffset size bank bankSize a.toNat % size) := by
  rw [shownPlace, hspace, hshown, bankedOffset_whole hsize hn, Option.map_some, hbank]

end Whole

end Board

/-! ## 2. Program -/

section Program

variable {size n : Nat} {a : UInt16}

/-- A space in two halves shows the one below `$C000` and the other from there on. -/
theorem half_of_program (ha : 0x8000 ≤ a) (low high : Nat) :
    [low, high][a.toNat / 0x4000 % 2]? = some (if a < 0xC000 then low else high) := by
  have hprogram : 0x8000 ≤ a.toNat := UInt16.le_iff_toNat_le.mp ha
  have hlt := a.toNat_lt
  split
  · next h =>
    have hhalf : a.toNat < 0xC000 := UInt16.lt_iff_toNat_lt.mp h
    rw [(by omega : a.toNat / 0x4000 % 2 = 0)]
    rfl
  · next h =>
    have hhalf : 0xC000 ≤ a.toNat := UInt16.le_iff_toNat_le.mp (UInt16.not_lt.mp h)
    rw [(by omega : a.toNat / 0x4000 % 2 = 1)]
    rfl

/-- **A program that is not switched is two banks side by side**, or one bank twice. -/
theorem unswitched_place (hsize : 0 < size) (hn : size = n * 0x4000) (ha : 0x8000 ≤ a) :
    (a.toNat - 0x8000) % size =
      bankedOffset size (if a < 0xC000 then 0 else 1) 0x4000 a.toNat % size := by
  have hprogram : 0x8000 ≤ a.toNat := UInt16.le_iff_toNat_le.mp ha
  have hlt : a.toNat < 0x10000 := a.toNat_lt
  rw [Board.bankedOffset_whole hsize hn]
  obtain rfl | hmany : n = 1 ∨ 2 ≤ n := by omega
  · rw [Nat.mod_one, hn]
    omega
  · rw [Nat.mod_eq_of_lt (by omega : a.toNat - 0x8000 < size)]
    split
    · next h =>
      have hhalf : a.toNat < 0xC000 := UInt16.lt_iff_toNat_lt.mp h
      rw [Nat.zero_mod]
      omega
    · next h =>
      have hhalf : 0xC000 ≤ a.toNat := UInt16.le_iff_toNat_le.mp (UInt16.not_lt.mp h)
      rw [Nat.mod_eq_of_lt (by omega : 1 < n)]
      omega

/-- The table of an MMC1 has what its registers select. -/
theorem Mmc1.programBanks_eq (r : Mmc1) (hcount : max (size / 0x4000) 1 = n) :
    (Mapper.mmc1 r).programBanks n = [(r.prgBanks size).1, (r.prgBanks size).2] := by
  have hbank : (r.prg &&& 0x0F).toNat = r.prg.toNat % 16 := by
    rw [UInt8.toNat_and]
    exact Nat.and_two_pow_sub_one_eq_mod _ 4
  have hbits (v : UInt8) : ((v >>> 2) &&& 0x03).toNat = v.toNat / 4 % 4 :=
    forall_byte v (by decide +kernel)
  have hmode : r.prgMode.toNat = r.control.toNat / 4 % 4 := hbits r.control
  unfold Mapper.programBanks prgBanks
  dsimp only
  rw [hcount, hbank, hmode]
  match r.control.toNat / 4 % 4 with
  | 0 | 1 | 2 | _ + 3 => rfl

/-- The table of an MMC3 has the banks of its windows. -/
theorem Mmc3.programBanks_getElem? (r : Mmc3) {window : Nat} (h : window < 4) :
    ((Mapper.mmc3 r).programBanks n)[window]? = some (r.windowBank n window) := by
  have hbank (v : UInt8) : (v &&& 0x3F).toNat = v.toNat % 64 := by
    rw [UInt8.toNat_and]
    exact Nat.and_two_pow_sub_one_eq_mod _ 6
  have hexchanged : r.prgExchanged = r.select.toNat.testBit 6 := and_mask_ne_zero r.select rfl
  unfold Mapper.programBanks windowBank
  dsimp only
  rw [hexchanged, hbank, hbank]
  interval_cases window <;> split <;> rfl

/-- Where there is one bank only, it is of no account that two are counted. -/
theorem Mmc3.windowBank_mod (r : Mmc3) (hn : 0 < n) (window : Nat) :
    r.windowBank n window % n = r.windowBank (max n 2) window % n := by
  obtain rfl | hmany : n = 1 ∨ 2 ≤ n := by omega
  · rw [Nat.mod_one, Nat.mod_one]
  · rw [Nat.max_eq_left hmany]

/-- **A program of whole banks is read in the bank of its window.** -/
theorem Mapper.programPlace_shown (m : Mapper) (hsize : 0 < size)
    (hn : size = n * (0x8000 / (m.programBanks n).length)) (ha : 0x8000 ≤ a) :
    Board.shownPlace 0x8000 (m.programBanks n) n a = some (m.prgOffset size a % size) := by
  have hhalf : 0x8000 / 2 = 0x4000 := by decide
  cases m with
  | nrom w =>
    have hlength : ((nrom w).programBanks n).length = 2 := rfl
    rw [hlength, hhalf] at hn
    change _ = some ((a.toNat - 0x8000) % size)
    rw [unswitched_place hsize hn ha]
    exact Board.shownPlace_eq hsize hn hhalf (half_of_program ha 0 1) rfl
  | mmc1 r =>
    have hlength : ((mmc1 r).programBanks n).length = 2 := by
      unfold programBanks
      dsimp only
      split <;> rfl
    rw [hlength, hhalf] at hn
    obtain ⟨-, hn0, hcount⟩ := Board.count_whole hsize hn
    rw [r.programBanks_eq (by omega : max (size / 0x4000) 1 = n)]
    exact Board.shownPlace_eq hsize hn hhalf (half_of_program ha _ _) rfl
  | uxrom w bank =>
    have hlength : ((uxrom w bank).programBanks n).length = 2 := rfl
    rw [hlength, hhalf] at hn
    obtain ⟨-, hn0, hcount⟩ := Board.count_whole hsize hn
    have hlast : n - 1 = Uxrom.bankCount size - 1 := by
      rw [Uxrom.bankCount]
      omega
    rw [programBanks, hlast]
    exact Board.shownPlace_eq hsize hn hhalf (half_of_program ha _ _) rfl
  | mmc3 r =>
    have hlength : ((mmc3 r).programBanks n).length = 4 := by
      unfold programBanks
      dsimp only
      split <;> rfl
    have hquarter : 0x8000 / 4 = 0x2000 := by decide
    rw [hlength, hquarter] at hn
    obtain ⟨-, hn0, hcount⟩ := Board.count_whole hsize hn
    have hwindow : a.toNat / 0x2000 % 4 < 4 := Nat.mod_lt _ (by decide)
    change _ = some (r.prgOffset size a % size)
    rw [Mmc3.prgOffset, Mmc3.prgBank_eq, hcount]
    refine Board.shownPlace_eq hsize hn (by rw [hlength, hquarter]) ?_ (r.windowBank_mod hn0 _)
    rw [hlength]
    exact r.programBanks_getElem? hwindow

end Program

/-! ## 3. Patterns -/

section Patterns

variable {size n : Nat} (a : UInt16)

/-- The pattern space in two halves. -/
theorem half_of_patterns (low high : Nat) :
    [low, high][a.toNat / 0x1000 % 2]? = some (if a &&& 0x1000 == 0 then low else high) := by
  have hzero : (a &&& 0x1000 == 0) = !ScanlineCounter.isHigh a := by
    rw [ScanlineCounter.isHigh, bne, Bool.not_not]
  rw [hzero]
  cases hhigh : ScanlineCounter.isHigh a with
  | true =>
    rw [(ScanlineCounter.isHigh_iff a).mp hhigh]
    rfl
  | false =>
    have hne : a.toNat / 0x1000 % 2 ≠ 1 := fun h =>
      absurd ((ScanlineCounter.isHigh_iff a).mpr h) (Bool.eq_false_iff.mp hhigh)
    rw [(Nat.mod_two_eq_zero_or_one _).resolve_right hne]
    rfl

/-- The table of an MMC1 has what its registers select. -/
theorem Mmc1.patternBanks_eq (r : Mmc1) :
    (Mapper.mmc1 r).patternBanks = [r.chrBanks.1, r.chrBanks.2] := by
  have hpair (v : UInt8) : (v &&& 0x1E).toNat = 2 * (v.toNat / 2 % 16) :=
    forall_byte v (by decide +kernel)
  have hmode : (r.control &&& 0x10 != 0) = r.control.toNat.testBit 4 := and_mask_ne_zero _ rfl
  unfold Mapper.patternBanks chrBanks
  dsimp only
  rw [hmode, hpair]
  split <;> rfl

/-- The table of an MMC3 has what belongs to the places of the pattern space. -/
theorem Mmc3.patternBanks_getElem? (r : Mmc3) :
    (Mapper.mmc3 r).patternBanks[a.toNat / 0x400 % 8]? = some (r.chrBank a) := by
  have hexchanged : r.chrExchanged = r.select.toNat.testBit 7 := and_mask_ne_zero r.select rfl
  obtain ⟨h0, h1⟩ := Board.bankAt_pair r.banks (by decide : 0 < 2)
  obtain ⟨h2, h3⟩ := Board.bankAt_pair r.banks (by decide : 1 < 2)
  have hslot : a.toNat / 0x400 % 8 < 8 := Nat.mod_lt _ (by decide)
  rw [chrBank_eq, place, hexchanged]
  unfold Mapper.patternBanks
  dsimp only
  rw [← h1, ← h0, ← h3, ← h2]
  generalize a.toNat / 0x400 % 8 = slot at hslot ⊢
  interval_cases slot <;> split <;> rfl

/-- **Patterns of whole banks are in the bank of their window.** -/
theorem Mapper.patternPlace_shown (m : Mapper) (hsize : 0 < size)
    (hn : size = n * (0x2000 / m.patternBanks.length)) :
    Board.shownPlace 0x2000 m.patternBanks n a = some (m.chrOffset size a % size) := by
  have hone : 0x2000 / 1 = 0x2000 := by decide
  cases m with
  | nrom w =>
    have hlength : (nrom w).patternBanks.length = 1 := rfl
    rw [hlength, hone] at hn
    exact Board.shownPlace_eq hsize hn hone (by rw [hlength, Nat.mod_one]; rfl) rfl
  | uxrom w bank =>
    have hlength : (uxrom w bank).patternBanks.length = 1 := rfl
    rw [hlength, hone] at hn
    exact Board.shownPlace_eq hsize hn hone (by rw [hlength, Nat.mod_one]; rfl) rfl
  | mmc1 r =>
    have hhalf : 0x2000 / 2 = 0x1000 := by decide
    rw [r.patternBanks_eq] at hn ⊢
    rw [List.length_cons, List.length_singleton, hhalf] at hn
    exact Board.shownPlace_eq hsize hn hhalf (half_of_patterns a _ _) rfl
  | mmc3 r =>
    have hlength : (mmc3 r).patternBanks.length = 8 := by
      unfold patternBanks
      dsimp only
      split <;> rfl
    have heighth : 0x2000 / 8 = 0x400 := by decide
    rw [hlength, heighth] at hn
    refine Board.shownPlace_eq hsize hn (by rw [hlength, heighth]) ?_ rfl
    rw [hlength]
    exact r.patternBanks_getElem? a

end Patterns

/-! ## 4. Histories -/

namespace Board

/-- What an operation can do to the logic. -/
theorem mapper_after (b : Board) (op : Operation) :
    (b.after op).mapper = b.mapper ∨
      (∃ a v, (b.after op).mapper = b.mapper.write b.chips.prg.size a v) ∨
        (∃ a, (b.after op).mapper = b.mapper.observe a) ∨
          (b.after op).mapper = b.mapper.reset := by
  obtain ⟨chips, m⟩ := b
  cases op with
  | cpuWrite a v =>
    unfold after cpuWrite
    dsimp only
    split
    · exact .inl rfl
    split
    · split <;> exact .inl rfl
    · exact .inr (.inl ⟨a, v, rfl⟩)
  | ppuWrite a v => exact .inl rfl
  | observe a => exact .inr (.inr (.inl ⟨a, rfl⟩))
  | reset => exact .inr (.inr (.inr rfl))

/-- **The fifth bit never stays under way.** -/
theorem waits_after {b : Board} (h : Waits b.mapper) (op : Operation) :
    Waits (b.after op).mapper := by
  obtain hsame | ⟨a, v, hwrite⟩ | ⟨a, hobserve⟩ | hreset := b.mapper_after op
  · exact hsame.symm ▸ h
  · rw [hwrite]
    cases hm : b.mapper with
    | mmc1 r => exact r.pending_write a v (hm ▸ h : Waits (.mmc1 r))
    | _ => trivial
  · rw [hobserve]
    cases hm : b.mapper with
    | mmc1 r => exact (hm ▸ h : Waits (.mmc1 r))
    | _ => trivial
  · rw [hreset]
    cases b.mapper with
    | mmc1 r => exact Nat.zero_lt_succ 4
    | _ => trivial

/-- No operation makes pattern memory larger or smaller. -/
theorem chr_size_after (b : Board) (op : Operation) :
    (b.after op).chips.chr.size = b.chips.chr.size := by
  obtain ⟨⟨prg, ram, chr, writable⟩, m⟩ := b
  cases op with
  | cpuWrite a v =>
    unfold after cpuWrite
    dsimp only
    split
    · rfl
    split
    · split <;> rfl
    · rfl
  | ppuWrite a v =>
    cases writable with
    | false => rfl
    | true => exact Chip.size_write ..
  | observe a => rfl
  | reset => rfl

theorem Within.after {b : Board} (h : b.Within) (op : Operation) : (b.after op).Within where
  program := (b.prg_after op).symm ▸ h.program
  patterns := (b.chr_size_after op).symm ▸ h.patterns
  serial := waits_after h.serial op

/-- **No history fails in bare memories**, and its result is the board's. -/
theorem run_bare {b : Board} (h : b.Within) (history : List Operation) :
    b.bare.run history = some (b.run history).bare ∧ (b.run history).Within ∧
      (b.run history).chips.chr.size = b.chips.chr.size := by
  induction history generalizing b with
  | nil => exact ⟨rfl, h, rfl⟩
  | cons op history ih =>
    obtain ⟨hrun, hwithin, hsize⟩ := ih (h.after op)
    rw [Bare.run, List.foldlM_cons, after_bare h, Option.bind_eq_bind, Option.bind_some]
    exact ⟨hrun, hwithin, hsize.trans (b.chr_size_after op)⟩

/-- A board whose image has no patterns is given 8 KiB. -/
theorem chr_size_ofImages (prg chr : Chip) (writable : Bool) (ramSize : Nat) :
    (Chips.ofImages prg chr writable ramSize).chr.size =
      if chr.size = 0 then 0x2000 else chr.size := by
  by_cases h : chr.size = 0
  · rw [Chips.ofImages, if_pos (Array.isEmpty_iff_size_eq_zero.mpr h), if_pos h]
    exact Array.size_replicate
  · rw [Chips.ofImages, if_neg (mt Array.isEmpty_iff_size_eq_zero.mp h), if_neg h]

/-- A board whose image has a program is within its bounds when it is powered on. -/
theorem within_powerOn (kind : Kind) {prg : Chip} (hprg : 0 < prg.size) (chr : Chip)
    (writable : Bool) (ramSize : Nat) (wired : Mirroring) :
    (powerOn kind (.ofImages prg chr writable ramSize) wired).Within := by
  have hchr : 0 < (Chips.ofImages prg chr writable ramSize).chr.size := by
    rw [chr_size_ofImages]
    split <;> omega
  cases kind with
  | mmc1 => exact ⟨hprg, hchr, Nat.zero_lt_succ 4⟩
  | _ => exact ⟨hprg, hchr, trivial⟩

/-- The accesses of a board have their results in bare memories too, and where the memories are
whole banks they go to the banks in its windows. -/
structure Inside (b : Board) : Prop where
  /-- Every read is of a byte that is there, -/
  reads : ∀ a, b.bare.cpuRead a = some (b.cpuRead a) ∧ b.bare.ppuRead a = some (b.ppuRead a)
  /-- and so is every write, whatever else it does. -/
  operations : ∀ op, b.bare.after op = some (b.after op).bare
  /-- What is read of the program is at a place of it: in whole banks, that of the window's bank. -/
  program : ∀ a, 0x8000 ≤ a → ∃ i < b.chips.prg.size,
    b.bare.logic.programPlace b.chips.prg.size a = some i ∧
      b.chips.prg[i]? = some (b.cpuRead a) ∧
        ∀ n, b.chips.prg.size = n * (0x8000 / (b.mapper.programBanks n).length) →
          shownPlace 0x8000 (b.mapper.programBanks n) n a = some i
  /-- What is read or written of the patterns is at a place of them, found in the same way. -/
  patterns : ∀ a, ∃ i < b.chips.chr.size,
    b.bare.logic.patternPlace b.chips.chr.size a = some i ∧
      b.chips.chr[i]? = some (b.ppuRead a) ∧
        (∀ v, (b.ppuWrite a v).chips.chr =
          if b.chips.chrWritable then b.chips.chr.setIfInBounds i v else b.chips.chr) ∧
          ∀ n, b.chips.chr.size = n * (0x2000 / b.mapper.patternBanks.length) →
            shownPlace 0x2000 b.mapper.patternBanks n a = some i

theorem Within.inside {b : Board} (h : b.Within) : b.Inside where
  reads a := ⟨cpuRead_bare h a, ppuRead_bare h a⟩
  operations := after_bare h
  program a ha := by
    have hread : b.cpuRead a = b.chips.prg.read (b.mapper.prgOffset b.chips.prg.size a) := by
      obtain ⟨h6, h8⟩ := not_lt_of_program ha
      rw [cpuRead, if_neg h6, if_neg h8]
    refine ⟨_, Nat.mod_lt _ h.program, programPlace_bare h.program b.mapper ha, ?_, ?_⟩
    · rw [hread, Chip.getElem?_mod _ h.program]
    · exact fun n hn => b.mapper.programPlace_shown h.program hn ha
  patterns a := by
    refine ⟨_, Nat.mod_lt _ h.patterns, patternPlace_bare h.patterns b.mapper _ a, ?_, ?_, ?_⟩
    · exact Chip.getElem?_mod _ h.patterns _
    · intro v
      obtain ⟨⟨prg, ram, chr, writable⟩, m⟩ := b
      cases writable <;> rfl
    · exact fun n hn => b.mapper.patternPlace_shown a h.patterns hn

/-- **Accesses never leave their memories.**  A board of any kind, with a program of any length but
none, any patterns, any work memory and any wiring, has no history that fails in bare memories; and
after it every access, at every address, is inside. -/
theorem accesses_inside (kind : Kind) {prg : Chip} (hprg : 0 < prg.size) (chr : Chip)
    (writable : Bool) (ramSize : Nat) (wired : Mirroring) (history : List Operation) :
    let chips := Chips.ofImages prg chr writable ramSize
    let b := (powerOn kind chips wired).run history
    (Bare.powerOn kind chips wired).bind (·.run history) = some b.bare ∧ b.Inside ∧
      b.chips.prg = prg ∧ b.chips.chr.size = if chr.size = 0 then 0x2000 else chr.size := by
  intro chips b
  have hnew : (powerOn kind chips wired).Within :=
    within_powerOn kind hprg chr writable ramSize wired
  obtain ⟨hrun, hwithin, hsize⟩ := run_bare hnew history
  have hchips : (powerOn kind chips wired).chips.prg = prg ∧
      (powerOn kind chips wired).chips.chr = chips.chr := by
    cases kind <;> exact ⟨rfl, rfl⟩
  refine ⟨?_, hwithin.inside, (prg_run _ history).trans hchips.1, ?_⟩
  · rw [powerOn_bare, Option.bind_some, hrun]
  · rw [hsize, hchips.2, chr_size_ofImages]

/-- An MMC3 with three bytes of program, patterns that it is given, and five bytes of work memory.
Both exchanges are on, and R7 names a bank far behind the last. -/
theorem accesses_inside_three_bytes :
    let prg : Chip := #[1, 2, 3]
    let history : List Operation :=
      [.cpuWrite 0x8000 0xC7, .cpuWrite 0x8001 0xFF, .cpuWrite 0x7FFF 9, .ppuWrite 0xFFFF 4,
        .observe 0x1000]
    let chips := Chips.ofImages prg #[] true 5
    let b := (powerOn .mmc3 chips .fourScreen).run history
    0 < prg.size ∧
      (Bare.powerOn .mmc3 chips .fourScreen).bind (·.run history) = some b.bare ∧ b.Inside ∧
        b.chips.prg = prg ∧ b.chips.chr.size = 0x2000 := by
  intro prg history chips b
  have hprg : 0 < prg.size := by decide
  exact ⟨hprg, accesses_inside .mmc3 hprg #[] true 5 .fourScreen history⟩

end Board
end Famicom
