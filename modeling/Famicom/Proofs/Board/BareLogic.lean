/-
# The logic of a board with steps that can fail

The logic of a board takes differences and looks into tables without asking, and the memories fold
whatever place comes of it.  Here is the same logic again, **with steps that can fail**.  There is
no result

* where more is to be taken away than there is;
* where a remainder is asked for and there is nothing to divide by;
* where a table has no such entry, or a byte is shifted by more bits than it has.

Each chip counts the banks of the program once and keeps the count; `bare` writes a chip so.

**None of the steps fails.**  Whatever is in its registers, a chip selects a bank (`prgBanks_bare`,
`prgBank_bare`, `chrBank_bare`), and whatever bank it is, a memory that holds a byte at all has a
place for it (`bankedPlace_eq`).  A write is taken as well (`write_bare`); only the serial line of
the MMC1 has to be told that fewer than five bits are under way.
-/
import Famicom.Proofs.Board.SerialLine
import Famicom.Proofs.Board.Windows
import Famicom.Proofs.Words

namespace Famicom

/-! ## 1. What can fail -/

/-- What is left of a number, where it is enough. -/
def subNat (m n : Nat) : Option Nat := if n ≤ m then some (m - n) else none

/-- A remainder, where there is something to divide by. -/
def modNat (m n : Nat) : Option Nat := if 0 < n then some (m % n) else none

/-- A byte shifted to the left, by no more bits than it has. -/
def shiftLeft8 (b s : UInt8) : Option UInt8 := if s.toNat < 8 then some (b <<< s) else none

/-- A chip with one byte changed, where it has that byte. -/
def Chip.put? (c : Chip) (i : Nat) (b : UInt8) : Option Chip :=
  if h : i < c.size then some (c.set i b h) else none

theorem subNat_of_le {m n : Nat} (h : n ≤ m) : subNat m n = some (m - n) := if_pos h

theorem modNat_of_pos (m : Nat) {n : Nat} (h : 0 < n) : modNat m n = some (m % n) := if_pos h

namespace Chip

variable (chip : Chip) (h : 0 < chip.size) (i : Nat)

include h

/-- A place that is folded is there. -/
theorem getElem?_mod : chip[i % chip.size]? = some (chip.read i) := by
  have hi := Nat.mod_lt i h
  rw [Array.getElem?_eq_getElem hi, Chip.read, Array.getD, dif_pos hi]
  rfl

theorem put?_mod (b : UInt8) : chip.put? (i % chip.size) b = some (chip.write i b) := by
  have hi := Nat.mod_lt i h
  rw [put?, dif_pos hi, Chip.write, Array.setIfInBounds, dif_pos hi]

end Chip

/-- The place of the byte that bank number `bank` shows at `offset`, in a memory of `size` bytes. -/
def bankedPlace (size bank bankSize offset : Nat) : Option Nat := do
  let mask ← subNat bankSize 1
  let bank ← modNat bank (max (size / bankSize) 1)
  modNat (bank * bankSize + (offset &&& mask)) (max size 1)

/-- **In a memory that holds a byte a banked place is there**, and is the folded one. -/
theorem bankedPlace_eq {size bankSize k : Nat} (h : 0 < size) (hk : bankSize = 2 ^ k)
    (bank offset : Nat) :
    bankedPlace size bank bankSize offset =
      some (bankedOffset size bank bankSize offset % size) := by
  have hone : 1 ≤ bankSize := hk ▸ Nat.two_pow_pos k
  have hmask : offset &&& (bankSize - 1) = offset % bankSize := by
    rw [hk, Nat.and_two_pow_sub_one_eq_mod]
  simp only [bankedPlace, subNat_of_le hone, Option.bind_eq_bind, Option.bind_some,
    modNat_of_pos _ (by omega : 0 < max (size / bankSize) 1), hmask,
    Nat.max_eq_left (by omega : 1 ≤ size), modNat_of_pos _ h, bankedOffset]

/-! ## 2. The MMC1 -/

/-- An MMC1 in bytes: the bits under way are one, and their count is another. -/
structure Mmc1.Bare where
  control : UInt8 := 0x0C
  chr0 : UInt8 := 0
  chr1 : UInt8 := 0
  prg : UInt8 := 0
  shift : UInt8 := 0
  count : UInt8 := 0
  /-- The 16 KiB banks of program. -/
  banks : Nat

namespace Mmc1.Bare

def commit (r : Mmc1.Bare) (a : UInt16) (v : UInt8) : Mmc1.Bare :=
  match a.toNat / 0x2000 % 4 with
  | 0 => { r with control := v }
  | 1 => { r with chr0 := v }
  | 2 => { r with chr1 := v }
  | _ => { r with prg := v }

def write (r : Mmc1.Bare) (a : UInt16) (v : UInt8) : Option Mmc1.Bare :=
  if v &&& 0x80 != 0 then some { r with shift := 0, count := 0, control := r.control ||| 0x0C }
  else do
    let bit ← shiftLeft8 (v &&& 1) r.count
    let shift := r.shift ||| bit
    let count ← add8 r.count 1
    if count = 5 then some ({ r with shift := 0, count := 0 }.commit a (shift &&& 0x1F))
    else some { r with shift, count }

/-- The program banks at `$8000` and `$C000`. -/
def prgBanks (r : Mmc1.Bare) : Option (Nat × Nat) := do
  let bank := (r.prg &&& 0x0F).toNat
  let last ← subNat r.banks 1
  match ((r.control >>> 2) &&& 0x03).toNat with
  | 0 | 1 => some (bank / 2 * 2, bank / 2 * 2 + 1)
  | 2 => some (0, bank)
  | _ => some (bank, last)

/-- The pattern banks at `$0000` and `$1000`. -/
def chrBanks (r : Mmc1.Bare) : Nat × Nat :=
  if r.control &&& 0x10 != 0 then (r.chr0.toNat, r.chr1.toNat)
  else ((r.chr0 &&& 0x1E).toNat, (r.chr0 &&& 0x1E).toNat ||| 1)

def reset (r : Mmc1.Bare) : Mmc1.Bare := { banks := r.banks }

end Mmc1.Bare

namespace Mmc1

/-- The chip in bytes, on a board with `size` bytes of program. -/
def bare (size : Nat) (r : Mmc1) : Mmc1.Bare where
  control := r.control
  chr0 := r.chr0
  chr1 := r.chr1
  prg := r.prg
  shift := ofBits r.pending
  count := .ofNat r.pending.length
  banks := max (size / 0x4000) 1

/-- **The next bit goes above those that have arrived.** -/
theorem ofBits_concat {bits : List Bool} (h : bits.length < 8) (b : Bool) :
    ofBits (bits ++ [b]) = ofBits bits ||| (bitOf b <<< UInt8.ofNat bits.length) := by
  have hcount : (UInt8.ofNat bits.length).toNat % 8 = bits.length := by
    rw [UInt8.toNat_ofNat_of_lt' (by change _ < 256; omega), Nat.mod_eq_of_lt h]
  have hlength : (bits ++ [b]).length ≤ 8 := by
    rw [List.length_append]
    exact h
  apply UInt8.toNat_inj.mp
  apply Nat.eq_of_testBit_eq
  intro i
  rw [testBit_ofBits hlength, UInt8.toNat_or, UInt8.toNat_shiftLeft, hcount, Nat.testBit_or,
    testBit_ofBits (by omega), Nat.testBit_mod_two_pow, Nat.testBit_shiftLeft, toNat_bitOf]
  -- The new bit is at place `bits.length`; above it neither number has any.
  obtain hi | rfl | hi := Nat.lt_trichotomy i bits.length
  · rw [List.getD_append _ _ _ _ hi, decide_eq_false (by omega : ¬i ≥ bits.length)]
    simp
  · rw [List.getD_append_right _ _ _ _ le_rfl, Nat.sub_self, decide_eq_true h,
      List.getD_eq_default bits false le_rfl]
    cases b <;> simp
  · have hpow : 2 ^ 1 ≤ 2 ^ (i - bits.length) := Nat.pow_le_pow_right (by decide) (by omega)
    have hzero : b.toNat.testBit (i - bits.length) = false :=
      Nat.testBit_lt_two_pow ((Bool.toNat_lt b).trans_le hpow)
    rw [List.getD_eq_default _ _ (by simp; omega), List.getD_eq_default bits false hi.le, hzero]
    simp

theorem commit_bare (size : Nat) (r : Mmc1) (a : UInt16) (v : UInt8) :
    (r.bare size).commit a v = (r.commit a v).bare size := by
  unfold Bare.commit Mmc1.commit
  match a.toNat / 0x2000 % 4 with
  | 0 | 1 | 2 | _ + 3 => rfl

/-- The bits of a value are all that it has. -/
theorem ofBits_and_mask {bits : List Bool} (h : bits.length = 5) :
    ofBits bits &&& 0x1F = ofBits bits := by
  have hlt : (ofBits bits).toNat < 2 ^ 5 := h ▸ ofBits_lt (by omega)
  apply UInt8.toNat_inj.mp
  rw [UInt8.toNat_and]
  exact (Nat.and_two_pow_sub_one_eq_mod _ 5).trans (Nat.mod_eq_of_lt hlt)

theorem write_bare (size : Nat) {r : Mmc1} (h : r.pending.length < 5) (a : UInt16) (v : UInt8) :
    (r.bare size).write a v = some ((r.write a v).bare size) := by
  have hbit : v &&& 1 = bitOf (v &&& 1 != 0) := forall_byte v (by decide +kernel)
  have hlength : (UInt8.ofNat r.pending.length).toNat = r.pending.length :=
    UInt8.toNat_ofNat_of_lt' (by change _ < 256; omega)
  have hshift : shiftLeft8 (v &&& 1) (.ofNat r.pending.length) =
      some (bitOf (v &&& 1 != 0) <<< UInt8.ofNat r.pending.length) := by
    rw [shiftLeft8, hlength, if_pos (by omega), ← hbit]
  have hcount : add8 (.ofNat r.pending.length) 1 = some (.ofNat (r.pending.length + 1)) :=
    add8_ofNat (n := 1) (by omega)
  have hfive : UInt8.ofNat (r.pending.length + 1) = 5 ↔ r.pending.length + 1 = 5 := by
    rw [← UInt8.toNat_inj, UInt8.toNat_ofNat_of_lt' (by change _ < 256; omega)]
    rfl
  have hbits := ofBits_concat (by omega : r.pending.length < 8) (v &&& 1 != 0)
  unfold Bare.write Mmc1.write
  by_cases htop : (v &&& 0x80 != 0) = true
  · rw [if_pos htop, if_pos htop]
    rfl
  · rw [if_neg htop, if_neg htop]
    simp only [bare, hshift, hcount, Option.bind_eq_bind, Option.bind_some, ← hbits, hfive,
      List.length_append, List.length_singleton]
    split
    · next hlast =>
      rw [ofBits_and_mask (by rw [List.length_append]; exact hlast)]
      exact congrArg some (commit_bare size { r with pending := [] } a _)
    · simp only [List.length_append, List.length_singleton]

theorem prgBanks_bare (size : Nat) (r : Mmc1) :
    (r.bare size).prgBanks = some (r.prgBanks size) := by
  have hlast := subNat_of_le (Nat.le_max_right (size / 0x4000) 1)
  unfold Bare.prgBanks Mmc1.prgBanks prgMode
  simp only [bare, hlast, Option.bind_eq_bind, Option.bind_some]
  rcases ((r.control >>> 2) &&& 0x03).toNat with _ | _ | _ | mode <;> rfl

theorem chrBanks_bare (size : Nat) (r : Mmc1) : (r.bare size).chrBanks = r.chrBanks := by
  have hpair : (r.chr0 &&& 0x1E).toNat ||| 1 = (r.chr0 &&& 0x1E).toNat + 1 :=
    forall_byte r.chr0 (by decide +kernel)
  unfold Bare.chrBanks Mmc1.chrBanks
  dsimp only [bare]
  rw [hpair]
  rfl

end Mmc1

/-! ## 3. The UxROM latch -/

/-- The logic of a UxROM board with what it has counted. -/
structure Uxrom.Bare where
  mirroring : Mirroring
  bank : UInt8 := 0
  mask : UInt8
  last : Nat

/-- The logic after power-on, on a board with `size` bytes of program. -/
def Uxrom.Bare.powerOn (size : Nat) (wired : Mirroring) : Option Uxrom.Bare := do
  let count := max (size / 0x4000) 1
  let mask ← subNat (Nat.nextPowerOfTwo count) 1
  let last ← subNat count 1
  some { mirroring := wired, mask := .ofNat (min mask 0xFF), last }

/-- The logic of such a board with this in its latch. -/
def Uxrom.bare (size : Nat) (wired : Mirroring) (bank : UInt8) : Uxrom.Bare where
  mirroring := wired
  bank
  mask := bankMask size
  last := bankCount size - 1

theorem Uxrom.powerOn_bare (size : Nat) (wired : Mirroring) :
    Bare.powerOn size wired = some (bare size wired 0) := by
  have hpower : 1 ≤ Nat.nextPowerOfTwo (max (size / 0x4000) 1) :=
    Nat.pos_of_isPowerOfTwo (Nat.isPowerOfTwo_nextPowerOfTwo _)
  simp only [Bare.powerOn, subNat_of_le hpower, subNat_of_le (Nat.le_max_right (size / 0x4000) 1),
    Option.bind_eq_bind, Option.bind_some]
  rfl

/-! ## 4. The MMC3 -/

/-- One counted rise, with a difference that may fail. -/
def ScanlineCounter.clockBare (c : ScanlineCounter) : Option ScanlineCounter := do
  let counter ← if c.counter == 0 || c.reload then some c.latch else sub8 c.counter 1
  some { c with counter, reload := false, pending := c.pending || (counter == 0 && c.enabled) }

def ScanlineCounter.observeBare (c : ScanlineCounter) (a : UInt16) : Option ScanlineCounter :=
  if a &&& 0x1000 != 0 then
    if filterLength ≤ c.lowRun then c.clockBare.map ({ · with lowRun := 0 })
    else some { c with lowRun := 0 }
  else some { c with lowRun := c.lowRun + 1 }

/-- An MMC3 with what it has counted. -/
structure Mmc3.Bare where
  chip : Mmc3
  /-- The 8 KiB banks of program, and two if there are fewer. -/
  banks : Nat

namespace Mmc3.Bare

/-- A write to the chip.  That of a bank number looks for its place in the table of them. -/
def write (r : Mmc3.Bare) (a : UInt16) (v : UInt8) : Option Mmc3.Bare :=
  if a.toNat / 0x2000 % 4 = 0 ∧ a.toNat % 2 ≠ 0 then do
    let banks ← put? r.chip.banks (r.chip.select &&& 0x07).toNat v
    some { r with chip := { r.chip with banks } }
  else some { r with chip := r.chip.write a v }

def observe (r : Mmc3.Bare) (a : UInt16) : Option Mmc3.Bare := do
  let counter ← r.chip.counter.observeBare a
  some { r with chip := { r.chip with counter } }

/-- The program bank behind an address. -/
def prgBank (r : Mmc3.Bare) (a : UInt16) : Option Nat := do
  let last ← subNat r.banks 1
  let beforeLast ← subNat r.banks 2
  let r6 ← r.chip.banks[6]?
  let r7 ← r.chip.banks[7]?
  match a.toNat / 0x2000 % 4, r.chip.prgExchanged with
  | 0, false => some (r6 &&& 0x3F).toNat
  | 0, true => some beforeLast
  | 1, _ => some (r7 &&& 0x3F).toNat
  | 2, false => some beforeLast
  | 2, true => some (r6 &&& 0x3F).toNat
  | _, _ => some last

/-- The pattern bank behind an address. -/
def chrBank (r : Mmc3.Bare) (a : UInt16) : Option Nat := do
  let slot := a.toNat / 0x400 % 8
  let bank ← match if r.chip.chrExchanged then slot ^^^ 4 else slot with
    | 0 => r.chip.banks[0]?.map (· &&& 0xFE)
    | 1 => r.chip.banks[0]?.map (· ||| 0x01)
    | 2 => r.chip.banks[1]?.map (· &&& 0xFE)
    | 3 => r.chip.banks[1]?.map (· ||| 0x01)
    | s => do
      let i ← subNat s 2
      r.chip.banks[i]?
  some bank.toNat

def reset (r : Mmc3.Bare) : Mmc3.Bare := { r with chip := r.chip.reset }

end Mmc3.Bare

theorem ScanlineCounter.clock_bare (c : ScanlineCounter) : c.clockBare = some c.clock := by
  unfold clockBare clock
  by_cases h : (c.counter == 0 || c.reload) = true
  · rw [if_pos h, if_pos h]
    rfl
  · have hne : c.counter ≠ 0 := by
      intro hzero
      rw [hzero] at h
      exact h rfl
    have hpos : (1 : UInt8).toNat ≤ c.counter.toNat :=
      Nat.pos_of_ne_zero fun hzero => hne (UInt8.toNat_inj.mp hzero)
    rw [if_neg h, if_neg h, sub8, if_pos hpos]
    rfl

theorem ScanlineCounter.observe_bare (c : ScanlineCounter) (a : UInt16) :
    c.observeBare a = some (c.observe a) := by
  unfold observeBare observe
  rw [clock_bare]
  split
  · split <;> rfl
  · rfl

namespace Mmc3

/-- The chip on a board with `size` bytes of program. -/
def bare (size : Nat) (r : Mmc3) : Mmc3.Bare where
  chip := r
  banks := max (size / 0x2000) 2

theorem write_bare (size : Nat) (r : Mmc3) (a : UInt16) (v : UInt8) :
    (r.bare size).write a v = some ((r.write a v).bare size) := by
  have hplace : (r.select &&& 0x07).toNat < 8 := by
    rw [UInt8.toNat_and]
    exact Nat.and_lt_two_pow (n := 3) _ (by decide)
  unfold Bare.write
  split
  · next h =>
    have hwrite : r.write a v = { r with banks := r.banks.write (r.select &&& 0x07).toNat v } := by
      obtain ⟨n, hn⟩ := Nat.exists_eq_succ_of_ne_zero h.2
      rw [Mmc3.write, h.1, hn]
      rfl
    rw [hwrite]
    change (put? r.banks (r.select &&& 0x07).toNat v).bind _ = _
    rw [put?_eq_write _ hplace]
    rfl
  · rfl

theorem observe_bare (size : Nat) (r : Mmc3) (a : UInt16) :
    (r.bare size).observe a = some ((r.observe a).bare size) := by
  rw [Bare.observe]
  change (r.counter.observeBare a).bind _ = _
  rw [ScanlineCounter.observe_bare]
  rfl

theorem prgBank_bare (size : Nat) (r : Mmc3) (a : UInt16) :
    (r.bare size).prgBank a = some (r.prgBank size a) := by
  have htwo : 2 ≤ max (size / 0x2000) 2 := Nat.le_max_right _ _
  unfold Bare.prgBank Mmc3.prgBank
  simp only [bare, subNat_of_le htwo, subNat_of_le (Nat.le_of_succ_le htwo),
    getElem?_eq_read r.banks (by decide : 6 < 8), getElem?_eq_read r.banks (by decide : 7 < 8),
    Option.bind_eq_bind, Option.bind_some]
  rcases a.toNat / 0x2000 % 4 with _ | _ | _ | window <;> cases r.prgExchanged <;> rfl

theorem chrBank_bare (size : Nat) (r : Mmc3) (a : UInt16) :
    (r.bare size).chrBank a = some (r.chrBank a) := by
  have hbit : ∀ slot < 8, slot ^^^ 4 = (slot + 4) % 8 := by decide
  have hplace : (if (r.bare size).chip.chrExchanged then a.toNat / 0x400 % 8 ^^^ 4
      else a.toNat / 0x400 % 8) = r.place a := by
    rw [hbit _ (Nat.mod_lt _ (by decide)), place]
    rfl
  have hread {i : Nat} (hi : i < 8) : (r.bare size).chip.banks[i]? = some (r.banks.read i) :=
    getElem?_eq_read _ hi
  have hlt := r.place_lt a
  rw [chrBank_eq]
  unfold Bare.chrBank
  dsimp only
  rw [hplace, hread (by decide : 0 < 8), hread (by decide : 1 < 8)]
  -- The four halves of pairs are written out; a single bank has its register two below its place.
  generalize r.place a = slot at hlt ⊢
  rcases slot with _ | _ | _ | _ | s
  iterate 4 · rfl
  · change ((subNat (s + 4) 2).bind fun i => (r.bare size).chip.banks[i]?).bind _ = _
    rw [subNat_of_le (by omega), Option.bind_some, hread (by omega)]
    rfl

end Mmc3
end Famicom
