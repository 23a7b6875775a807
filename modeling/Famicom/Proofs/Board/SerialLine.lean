/-
# The serial line of an MMC1

The registers of an MMC1 are loaded one bit per write, and everything that a program does to them is
a list of writes: any addresses, any values, loads that are begun and abandoned, fives whose writes
go to different addresses.  The chip keeps the bits under way in a register of its own; what it
keeps can be told from the list instead.

Of all writes the chip sees those from `$8000` on.  `loading` are the writes seen since the last one
with the top bit set, and `waiting` those of them behind the last complete five.  **The chip holds
the bits of the writes that are waiting** (`pending_registers`), so a write completes a value exactly
if four are waiting, and `Advances` says what becomes of the four registers.  `serial_protocol` is
this for every history; it adds that the processor and the picture unit see nothing of the bits
under way.
-/
import Famicom.Proofs.Bits
import Famicom.Proofs.Board.Operations
import Mathlib.Data.List.DropRight
import Mathlib.Data.List.GetD

namespace Famicom

namespace Mmc1

/-! ## 1. Registers by name -/

/-- The four registers. -/
inductive Register where
  | control
  | chr0
  | chr1
  | prg
  deriving DecidableEq, Repr

/-- The contents of a register. -/
def register (r : Mmc1) : Register → UInt8
  | .control => r.control
  | .chr0 => r.chr0
  | .chr1 => r.chr1
  | .prg => r.prg

/-- The register that bits 13 and 14 of an address select. -/
def Register.ofAddress (a : UInt16) : Register :=
  match a.toNat.testBit 14, a.toNat.testBit 13 with
  | false, false => control
  | false, true => chr0
  | true, false => chr1
  | true, true => prg

/-- **A complete value goes into the register of its address** and leaves the others alone. -/
theorem register_commit (r : Mmc1) (a : UInt16) (v : UInt8) (k : Register) :
    (r.commit a v).register k = if k = .ofAddress a then v else r.register k := by
  have h14 := Nat.testBit_eq_decide_div_mod_eq (x := a.toNat) (i := 14)
  have h13 := Nat.testBit_eq_decide_div_mod_eq (x := a.toNat) (i := 13)
  rw [commit, Register.ofAddress, h14, h13]
  -- The selector is two bits, so its value says what each of them is.
  have hcases : a.toNat / 0x2000 % 4 = 2 * (a.toNat / 2 ^ 14 % 2) + a.toNat / 2 ^ 13 % 2 := by omega
  rw [hcases]
  obtain h | h := Nat.mod_two_eq_zero_or_one (a.toNat / 2 ^ 14) <;>
    obtain h' | h' := Nat.mod_two_eq_zero_or_one (a.toNat / 2 ^ 13) <;>
    rw [h, h'] <;> cases k <;> rfl

theorem pending_commit (r : Mmc1) (a : UInt16) (v : UInt8) :
    (r.commit a v).pending = r.pending := by
  simp only [commit]
  split <;> rfl

/-! ## 2. Numbers out of bits -/

theorem toNat_ofBits_cons (b : Bool) {rest : List Bool} (h : (ofBits rest).toNat < 128) :
    (ofBits (b :: rest)).toNat = 2 * (ofBits rest).toNat + b.toNat := by
  have hb := Bool.toNat_lt b
  rw [ofBits, UInt8.toNat_add, UInt8.toNat_mul, toNat_bitOf]
  change (b.toNat + 2 * (ofBits rest).toNat % 256) % 256 = _
  omega

theorem ofBits_lt : ∀ {bits : List Bool}, bits.length ≤ 8 →
    (ofBits bits).toNat < 2 ^ bits.length
  | [], _ => by decide
  | b :: rest, h => by
    have hrest : rest.length ≤ 7 := Nat.le_of_succ_le_succ h
    have hlt : (ofBits rest).toNat < 2 ^ rest.length := ofBits_lt (by omega)
    have hpow : 2 ^ rest.length ≤ 2 ^ 7 := Nat.pow_le_pow_right (by decide) hrest
    have hb := Bool.toNat_lt b
    rw [toNat_ofBits_cons b (by omega), List.length_cons, Nat.pow_succ]
    omega

/-- **Bit `i` of the value is the `i`-th bit to arrive.** -/
theorem testBit_ofBits : ∀ {bits : List Bool}, bits.length ≤ 8 → ∀ i,
    (ofBits bits).toNat.testBit i = bits.getD i false
  | [], _, i => by simp [ofBits]
  | b :: rest, h, i => by
    have hrest : rest.length ≤ 7 := Nat.le_of_succ_le_succ h
    have hlt : (ofBits rest).toNat < 2 ^ rest.length := ofBits_lt (by omega)
    have hpow : 2 ^ rest.length ≤ 2 ^ 7 := Nat.pow_le_pow_right (by decide) hrest
    have hb := Bool.toNat_lt b
    rw [toNat_ofBits_cons b (by omega)]
    cases i with
    | zero =>
      rw [Nat.testBit_zero, List.getD_cons_zero]
      cases b <;> simp
    | succ i =>
      rw [Nat.testBit_succ, List.getD_cons_succ, ← testBit_ofBits (by omega) i]
      congr 1
      omega

end Mmc1

/-- A mask of one bit asks for that bit. -/
theorem and_mask_ne_zero (v : UInt8) {mask : UInt8} {k : Nat} (h : mask.toNat = 2 ^ k) :
    (v &&& mask != 0) = v.toNat.testBit k := by
  have hbyte : v &&& mask = 0 ↔ v.toNat.testBit k = false := by
    rw [← and_two_pow_eq_zero_iff, ← h, ← UInt8.toNat_and, ← UInt8.toNat_inj]
    rfl
  cases hbit : v.toNat.testBit k with
  | false => simp [hbyte.mpr hbit]
  | true =>
    have hne : v &&& mask ≠ 0 := by simp [hbyte, hbit]
    simp [hne]

/-! ## 3. Histories of writes -/

/-- A write of the processor. -/
structure Store where
  address : UInt16
  value : UInt8
  deriving DecidableEq, Repr

namespace Store

/-- The chip sees the writes from `$8000` on. -/
def isSeen (s : Store) : Bool := decide (0x8000 ≤ s.address)

theorem isSeen_iff (s : Store) : s.isSeen = true ↔ 0x8000 ≤ s.address := by
  simp only [isSeen, decide_eq_true_eq]

/-- The top bit is set: what has arrived is abandoned. -/
def abandons (s : Store) : Bool := s.value.toNat.testBit 7

/-- The bit that the write brings. -/
def bit (s : Store) : Bool := s.value.toNat.testBit 0

theorem abandons_eq (s : Store) : s.abandons = (s.value &&& 0x80 != 0) :=
  (and_mask_ne_zero s.value rfl).symm

theorem bit_eq (s : Store) : s.bit = (s.value &&& 1 != 0) := (and_mask_ne_zero s.value rfl).symm

end Store

namespace Mmc1

/-- The registers after a history of writes that the chip sees. -/
def registers (history : List Store) : Mmc1 :=
  history.foldl (fun r s => r.write s.address s.value) {}

theorem registers_concat (history : List Store) (s : Store) :
    registers (history ++ [s]) = (registers history).write s.address s.value :=
  List.foldl_concat ..

/-- The writes since the last one that abandoned what had arrived. -/
def loading (history : List Store) : List Store := history.rtakeWhile (!·.abandons)

/-- The writes whose bits are under way: those that have come behind the last complete five. -/
def waiting (history : List Store) : List Store :=
  (loading history).drop ((loading history).length / 5 * 5)

theorem length_waiting (history : List Store) :
    (waiting history).length = (loading history).length % 5 := by
  rw [waiting, List.length_drop]
  omega

/-- A write that abandons leaves nothing waiting, and so does the fifth of a five. -/
theorem waiting_concat (history : List Store) (s : Store) :
    waiting (history ++ [s]) =
      if s.abandons = true ∨ (waiting history).length = 4 then [] else waiting history ++ [s] := by
  rw [length_waiting]
  cases h : s.abandons with
  | true =>
    have hnone : loading (history ++ [s]) = [] := List.rtakeWhile_concat_neg _ _ _ (by simp [h])
    simp [waiting, hnone]
  | false =>
    have hmore : loading (history ++ [s]) = loading history ++ [s] :=
      List.rtakeWhile_concat_pos _ _ _ (by simp [h])
    rw [waiting, hmore, List.length_append, List.length_singleton, waiting]
    simp only [Bool.false_eq_true, false_or]
    by_cases hfour : (loading history).length % 5 = 4
    · have hall : ((loading history).length + 1) / 5 * 5 = (loading history).length + 1 := by omega
      rw [if_pos hfour, hall]
      simp
    · have hsame : ((loading history).length + 1) / 5 * 5 = (loading history).length / 5 * 5 := by
        omega
      rw [if_neg hfour, hsame, List.drop_append_of_le_length (by omega)]

/-- **The chip holds the bits of the writes that are waiting.** -/
theorem pending_registers (history : List Store) :
    (registers history).pending = (waiting history).map Store.bit := by
  induction history using List.reverseRecOn with
  | nil => rfl
  | append_singleton history s ih =>
    rw [registers_concat, waiting_concat, write, ← s.abandons_eq, ← s.bit_eq, ih]
    cases h : s.abandons with
    | true => simp
    | false =>
      by_cases hfour : (waiting history).length = 4
      · simp [hfour, pending_commit]
      · simp [hfour]

/-- What one more write does to the registers. -/
structure Advances (history : List Store) (s : Store) (r r' : Mmc1) : Prop where
  /-- A write that abandons what has arrived sets two bits of the control register. -/
  abandoned : s.abandons = true →
    ∀ k, r'.register k = if k = .control then r.register k ||| 0x0C else r.register k
  /-- The fifth of a five stores it in the register that its own address selects. -/
  completed : s.abandons = false → (waiting history).length = 4 →
    (∀ k, k ≠ .ofAddress s.address → r'.register k = r.register k) ∧
      ∀ i, (r'.register (.ofAddress s.address)).toNat.testBit i =
        ((waiting history ++ [s]).map Store.bit).getD i false
  /-- Any other changes no register. -/
  awaited : s.abandons = false → (waiting history).length ≠ 4 →
    ∀ k, r'.register k = r.register k

/-- **A write does to the registers what the history before it says.** -/
theorem advances_registers (history : List Store) (s : Store) :
    Advances history s (registers history) (registers (history ++ [s])) := by
  have hwrite := registers_concat history s
  have hbits : ((waiting history ++ [s]).map Store.bit).length = (waiting history).length + 1 := by
    simp
  rw [write, ← s.abandons_eq, ← s.bit_eq, pending_registers] at hwrite
  refine ⟨fun h => ?_, fun h hfour => ?_, fun h hfour => ?_⟩
  · intro k
    rw [hwrite, if_pos h]
    cases k <;> rfl
  · have hcommit : registers (history ++ [s]) =
        commit { registers history with pending := [] } s.address
          (ofBits ((waiting history ++ [s]).map Store.bit)) := by
      rw [hwrite, if_neg (by simp [h]), List.map_append, List.map_singleton,
        if_pos (by simp [hfour])]
    refine ⟨fun k hk => ?_, fun i => ?_⟩
    · rw [hcommit, register_commit, if_neg hk]
      cases k <;> rfl
    · rw [hcommit, register_commit, if_pos rfl, testBit_ofBits (by omega)]
  · intro k
    rw [hwrite, if_neg (by simp [h]), if_neg (by simp [hfour])]
    cases k <;> rfl

/-- The registers have five bits. -/
theorem register_lt (history : List Store) (k : Register) :
    ((registers history).register k).toNat < 32 := by
  induction history using List.reverseRecOn with
  | nil => cases k <;> decide
  | append_singleton history s ih =>
    have hstep := advances_registers history s
    cases h : s.abandons with
    | true =>
      rw [hstep.abandoned h]
      split
      · rw [UInt8.toNat_or]
        exact Nat.or_lt_two_pow (n := 5) ih (by decide)
      · exact ih
    | false =>
      by_cases hfour : (waiting history).length = 4
      · obtain ⟨hothers, hvalue⟩ := hstep.completed h hfour
        by_cases hk : k = .ofAddress s.address
        · subst hk
          refine Nat.lt_pow_two_of_testBit (n := 5) _ fun i hi => ?_
          rw [hvalue]
          refine List.getD_eq_default _ _ ?_
          rw [List.length_map, List.length_append, hfour]
          exact hi
        · rw [hothers k hk]
          exact ih
      · rw [hstep.awaited h hfour]
        exact ih

end Mmc1

/-! ## 4. Boards -/

namespace Board

/-- The board after a history of writes of the processor. -/
def stored (b : Board) (history : List Store) : Board :=
  history.foldl (fun b s => b.cpuWrite s.address s.value) b

theorem stored_concat (b : Board) (history : List Store) (s : Store) :
    b.stored (history ++ [s]) = (b.stored history).cpuWrite s.address s.value :=
  List.foldl_concat ..

theorem seen_concat (history : List Store) (s : Store) :
    (history ++ [s]).filter Store.isSeen =
      if s.isSeen then history.filter Store.isSeen ++ [s] else history.filter Store.isSeen := by
  cases h : s.isSeen <;> simp [List.filter_append, h]

/-- From `$8000` on is neither below `$6000` nor in the window of work memory. -/
theorem not_lt_of_program {a : UInt16} (h : 0x8000 ≤ a) : ¬a < 0x6000 ∧ ¬a < 0x8000 := by
  have hnat : 0x8000 ≤ a.toNat := UInt16.le_iff_toNat_le.mp h
  constructor
  · intro hlow
    have : a.toNat < 0x6000 := UInt16.lt_iff_toNat_lt.mp hlow
    omega
  · intro hlow
    have : a.toNat < 0x8000 := UInt16.lt_iff_toNat_lt.mp hlow
    omega

/-- Such a write goes to the chip. -/
theorem cpuWrite_program {a : UInt16} (h : 0x8000 ≤ a) (chips : Chips) (r : Mmc1) (v : UInt8) :
    cpuWrite ⟨chips, .mmc1 r⟩ a v = ⟨chips, .mmc1 (r.write a v)⟩ := by
  obtain ⟨h6, h8⟩ := not_lt_of_program h
  rw [cpuWrite, if_neg h6, if_neg h8]
  rfl

/-- Any other can only reach work memory. -/
theorem cpuWrite_below {a : UInt16} (h : ¬0x8000 ≤ a) (chips : Chips) (r : Mmc1) (v : UInt8) :
    let b := cpuWrite ⟨chips, .mmc1 r⟩ a v
    b.mapper = .mmc1 r ∧ b.chips.prg = chips.prg ∧ b.chips.chr = chips.chr := by
  obtain ⟨prg, ram, chr, writable⟩ := chips
  by_cases h6 : a < 0x6000
  · rw [cpuWrite, if_pos h6]
    exact ⟨rfl, rfl, rfl⟩
  · rw [cpuWrite, if_neg h6, if_pos (UInt16.not_le.mp h)]
    cases hram : (Mapper.mmc1 r).ramWritable <;> exact ⟨rfl, rfl, rfl⟩

/-- **Only the writes that the chip sees reach its registers**, and none reaches program or pattern
memory. -/
theorem stored_mmc1 (chips : Chips) (history : List Store) :
    let b := (mmc1 chips).stored history
    b.mapper = .mmc1 (Mmc1.registers (history.filter Store.isSeen)) ∧
      b.chips.prg = chips.prg ∧ b.chips.chr = chips.chr := by
  induction history using List.reverseRecOn with
  | nil => exact ⟨rfl, rfl, rfl⟩
  | append_singleton history s ih =>
    rw [stored_concat, seen_concat]
    generalize (mmc1 chips).stored history = b at ih ⊢
    obtain ⟨held, mapper⟩ := b
    obtain ⟨hmapper, hprg, hchr⟩ := ih
    obtain rfl : mapper = _ := hmapper
    by_cases h : s.isSeen = true
    · rw [if_pos h, Mmc1.registers_concat, cpuWrite_program (s.isSeen_iff.mp h)]
      exact ⟨rfl, hprg, hchr⟩
    · rw [if_neg h]
      obtain ⟨hkept, hprg', hchr'⟩ := cpuWrite_below (mt s.isSeen_iff.mpr h) held
        (Mmc1.registers (history.filter Store.isSeen)) s.value
      exact ⟨hkept, hprg'.trans hprg, hchr'.trans hchr⟩

/-- Two boards show the same to the console, work memory apart. -/
structure DecodeAlike (b b' : Board) : Prop where
  program : ∀ a, 0x8000 ≤ a → b.cpuRead a = b'.cpuRead a
  patterns : ∀ a, b.ppuRead a = b'.ppuRead a
  workMemory : b.mapper.ramReadable = b'.mapper.ramReadable ∧
    b.mapper.ramWritable = b'.mapper.ramWritable
  mirroring : b.mirroring = b'.mirroring

/-- **What the console sees of an MMC1 is decided by its four registers and its images**, and so not
by the bits under way. -/
theorem decodeAlike_of_registers {b b' : Board} {r r' : Mmc1} (hb : b.mapper = .mmc1 r)
    (hb' : b'.mapper = .mmc1 r') (hregisters : ∀ k, r.register k = r'.register k)
    (hprg : b.chips.prg = b'.chips.prg) (hchr : b.chips.chr = b'.chips.chr) :
    DecodeAlike b b' := by
  have hr : r' = { r with pending := r'.pending } := by
    have h : r.control = r'.control ∧ r.chr0 = r'.chr0 ∧ r.chr1 = r'.chr1 ∧ r.prg = r'.prg :=
      ⟨hregisters .control, hregisters .chr0, hregisters .chr1, hregisters .prg⟩
    obtain ⟨hcontrol, hchr0, hchr1, hprg⟩ := h
    rw [hcontrol, hchr0, hchr1, hprg]
  refine ⟨fun a ha => ?_, fun a => ?_, ?_, ?_⟩
  · obtain ⟨h6, h8⟩ := not_lt_of_program ha
    rw [cpuRead, cpuRead, if_neg h6, if_neg h8, if_neg h6, if_neg h8, hb, hb', hr, hprg]
    rfl
  · rw [ppuRead, ppuRead, hb, hb', hr, hchr]
    rfl
  · rw [hb, hb', hr]
    exact ⟨rfl, rfl⟩
  · rw [Board.mirroring, Board.mirroring, hb, hb', hr]
    rfl

/-- **The serial line of an MMC1, after whatever writes of the processor.**  Of the history the
board keeps what the writes from `$8000` on have brought.

* So many bits are under way as writes are waiting, never five, and the registers have five bits.
* They are those of power-on before the first write, and each write does to them what the history
  before it says; a write that the chip does not see does nothing.
* Program, patterns and mirroring are decoded from the registers and the images alone: another board
  with these images shows the same after any history that leads to the same registers. -/
theorem serial_protocol (chips : Chips) (history : List Store) :
    let seen := history.filter Store.isSeen
    ∃ r, ((mmc1 chips).stored history).mapper = .mmc1 r ∧
      r.pending.length = (Mmc1.waiting seen).length ∧ r.pending.length ≤ 4 ∧
      (∀ k, (r.register k).toNat < 32) ∧
      (seen = [] → ∀ k, r.register k = if k = .control then 0x0C else 0) ∧
      (∀ s, ∃ r', ((mmc1 chips).stored (history ++ [s])).mapper = .mmc1 r' ∧
        (s.isSeen = true → Mmc1.Advances seen s r r') ∧ (s.isSeen = false → r' = r)) ∧
      ∀ (chips' : Chips) (history' : List Store) (r' : Mmc1),
        chips'.prg = chips.prg → chips'.chr = chips.chr →
        ((mmc1 chips').stored history').mapper = .mmc1 r' →
        (∀ k, r'.register k = r.register k) →
          DecodeAlike ((mmc1 chips').stored history') ((mmc1 chips).stored history) := by
  intro seen
  obtain ⟨hmapper, hprg, hchr⟩ := stored_mmc1 chips history
  have hpending : (Mmc1.registers seen).pending.length = (Mmc1.waiting seen).length := by
    rw [Mmc1.pending_registers, List.length_map]
  refine ⟨Mmc1.registers seen, hmapper, hpending, ?_, Mmc1.register_lt seen, ?_, ?_, ?_⟩
  · rw [hpending, Mmc1.length_waiting]
    omega
  · intro hnone k
    rw [hnone]
    cases k <;> rfl
  · intro s
    refine ⟨_, (stored_mmc1 chips (history ++ [s])).1, fun h => ?_, fun h => ?_⟩
    · rw [seen_concat, if_pos h]
      exact Mmc1.advances_registers seen s
    · rw [seen_concat, if_neg (by simp [h])]
  · intro chips' history' r' hprg' hchr' hmapper' hregisters
    obtain ⟨-, hprg'', hchr''⟩ := stored_mmc1 chips' history'
    refine decodeAlike_of_registers hmapper' hmapper hregisters ?_ ?_
    · rw [hprg'', hprg', hprg]
    · rw [hchr'', hchr', hchr]

end Board

end Famicom
