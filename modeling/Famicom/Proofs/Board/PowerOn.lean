/-
# A board after a reset

A reset leaves the memories of a board as they are and is meant to bring its logic back to where
power-on leaves it.  Whether it does can be asked of the board from outside: two boards are *alike*
if nothing that can be seen of them differs, and *indistinguishable* if they stay alike whatever is
done to both.

Three of the four kinds come back to the state of power-on, registers and all
(`reset_eq_powerOn`).  **The MMC3 does not.**  After power-on its bank registers are all 0; a reset
gives them the values with which every window shows a bank of its own, in order, and it leaves the
mirroring as a program has chosen it.  `reset_indistinguishable_iff` says when that goes unnoticed:

* the two boards are alike at once, so the mirroring is as it is wired, and the banks that a reset
  brings to the windows hold what the banks of power-on hold;
* and if patterns are RAM, there is so little of it that all banks are one.  With more of it a byte
  that is written shows in one window of the one board and in several of the other.

Both boards then carry different numbers in their registers, and may do so for ever: a program that
names one of them gives it the same value on both, and the others show the same (`Twin`).
-/
import Famicom.Proofs.Board.Operations
import Famicom.Proofs.Board.Windows
import Mathlib.Tactic.IntervalCases

namespace Famicom

/-! ## 1. What is soldered -/

theorem Mmc3.write_fourScreen (r : Mmc3) (a : UInt16) (v : UInt8) :
    (r.write a v).fourScreen = r.fourScreen := by
  unfold Mmc3.write
  dsimp only
  split <;> rfl

namespace Board

/-- The four kinds of boards. -/
inductive Kind where
  | nrom
  | mmc1
  | uxrom
  | mmc3
  deriving DecidableEq, Repr

/-- A board of a kind after power-on, with its memories and the mirroring that it is wired for. -/
def powerOn : Kind → Chips → Mirroring → Board
  | .nrom, chips, wired => nrom chips wired
  | .mmc1, chips, _ => mmc1 chips
  | .uxrom, chips, wired => uxrom chips wired
  | .mmc3, chips, wired => mmc3 chips wired

/-- The logic of a board of a kind, wired for a mirroring, with anything in its registers. -/
inductive Soldered (wired : Mirroring) : Kind → Mapper → Prop
  | nrom : Soldered wired .nrom (.nrom wired)
  | mmc1 (r : Mmc1) : Soldered wired .mmc1 (.mmc1 r)
  | uxrom (bank : UInt8) : Soldered wired .uxrom (.uxrom wired bank)
  | mmc3 (r : Mmc3) (h : r.fourScreen = (wired == .fourScreen)) : Soldered wired .mmc3 (.mmc3 r)

section Soldered

variable {kind : Kind} {wired : Mirroring} {m : Mapper}

theorem Soldered.write (h : Soldered wired kind m) (size : Nat) (a : UInt16) (v : UInt8) :
    Soldered wired kind (m.write size a v) := by
  cases h with
  | nrom => exact .nrom
  | mmc1 r => exact .mmc1 _
  | uxrom bank => exact .uxrom _
  | mmc3 r hr => exact .mmc3 _ ((r.write_fourScreen a v).trans hr)

theorem Soldered.observe (h : Soldered wired kind m) (a : UInt16) :
    Soldered wired kind (m.observe a) := by
  cases h with
  | nrom => exact .nrom
  | mmc1 r => exact .mmc1 r
  | uxrom bank => exact .uxrom bank
  | mmc3 r hr => exact .mmc3 _ hr

theorem Soldered.reset (h : Soldered wired kind m) : Soldered wired kind m.reset := by
  cases h with
  | nrom => exact .nrom
  | mmc1 r => exact .mmc1 _
  | uxrom bank => exact .uxrom _
  | mmc3 r hr => exact .mmc3 _ hr

end Soldered

/-- A board of a kind; one kind has no work memory. -/
structure IsOf (kind : Kind) (wired : Mirroring) (b : Board) : Prop where
  logic : Soldered wired kind b.mapper
  ram : kind = .uxrom → b.chips.ram = #[]

theorem isOf_powerOn (kind : Kind) (chips : Chips) (wired : Mirroring) :
    IsOf kind wired (powerOn kind chips wired) := by
  cases kind with
  | nrom => exact ⟨.nrom, nofun⟩
  | mmc1 => exact ⟨.mmc1 _, nofun⟩
  | uxrom => exact ⟨.uxrom _, fun _ => rfl⟩
  | mmc3 => exact ⟨.mmc3 _ rfl, nofun⟩

theorem writeRam_ram {chips : Chips} (h : chips.ram = #[]) (a : UInt16) (v : UInt8) :
    (chips.writeRam a v).ram = #[] := by
  have hsize : (chips.writeRam a v).ram.size = chips.ram.size := by
    obtain ⟨prg, ram, chr, writable⟩ := chips
    exact ram.size_write _ v
  exact Array.eq_empty_of_size_eq_zero (by rw [hsize, h]; rfl)

theorem writeChr_ram (chips : Chips) (i : Nat) (v : UInt8) :
    (chips.writeChr i v).ram = chips.ram := by
  obtain ⟨prg, ram, chr, writable⟩ := chips
  cases writable <;> rfl

/-- **No operation turns one kind of board into another**, or rewires it. -/
theorem IsOf.after {kind : Kind} {wired : Mirroring} {b : Board} (h : IsOf kind wired b)
    (op : Operation) : IsOf kind wired (b.after op) := by
  obtain ⟨hlogic, hram⟩ := h
  obtain ⟨chips, m⟩ := b
  cases op with
  | cpuWrite a v =>
    unfold Board.after cpuWrite
    dsimp only
    split
    · exact ⟨hlogic, hram⟩
    split
    · split
      · exact ⟨hlogic, fun hk => writeRam_ram (hram hk) a v⟩
      · exact ⟨hlogic, hram⟩
    · exact ⟨hlogic.write _ a v, hram⟩
  | ppuWrite a v => exact ⟨hlogic, fun hk => (writeChr_ram chips _ v).trans (hram hk)⟩
  | observe a => exact ⟨hlogic.observe a, hram⟩
  | reset => exact ⟨hlogic.reset, hram⟩

theorem IsOf.run {kind : Kind} {wired : Mirroring} {b : Board} (h : IsOf kind wired b)
    (history : List Operation) : IsOf kind wired (b.run history) := by
  induction history generalizing b with
  | nil => exact h
  | cons op history ih => exact ih (h.after op)

/-- **But for an MMC3, a reset leaves a board as power-on does.** -/
theorem reset_eq_powerOn {kind : Kind} {wired : Mirroring} {b : Board} (h : IsOf kind wired b)
    (hkind : kind ≠ .mmc3) : b.reset = powerOn kind b.chips wired := by
  obtain ⟨hlogic, hram⟩ := h
  obtain ⟨chips, m⟩ := b
  cases hlogic with
  | nrom => rfl
  | mmc1 r => rfl
  | uxrom bank =>
    obtain ⟨prg, ram, chr, writable⟩ := chips
    obtain rfl : ram = #[] := hram rfl
    rfl
  | mmc3 r hr => exact absurd rfl hkind

/-! ## 2. Boards from outside -/

/-- Nothing that can be seen of two boards differs. -/
structure Alike (b c : Board) : Prop where
  cpuRead : ∀ a, b.cpuRead a = c.cpuRead a
  ppuRead : ∀ a, b.ppuRead a = c.ppuRead a
  mirroring : b.mirroring = c.mirroring
  irq : b.irq = c.irq

/-- **Two boards cannot be told apart**, whatever is done to both. -/
def Indistinguishable (b c : Board) : Prop := ∀ ops, Alike (b.run ops) (c.run ops)

theorem Indistinguishable.refl (b : Board) : Indistinguishable b b :=
  fun _ => ⟨fun _ => rfl, fun _ => rfl, rfl, rfl⟩

/-- It is enough that boards in some relation are alike and that every operation keeps it. -/
theorem Indistinguishable.of_relation {R : Board → Board → Prop}
    (halike : ∀ b c, R b c → Alike b c)
    (hafter : ∀ b c op, R b c → R (b.after op) (c.after op)) {b c : Board} (h : R b c) :
    Indistinguishable b c := by
  intro ops
  induction ops generalizing b c with
  | nil => exact halike b c h
  | cons op ops ih => exact ih (hafter b c op h)

end Board

/-! ## 3. Bank registers -/

namespace Mmc3

/-- The bank registers after power-on. -/
def powerOnBanks : Memory 8 := (powerOn .vertical).banks

/-- The bank registers after a reset. -/
def resetBanks : Memory 8 := (powerOn .vertical).reset.banks

/-- After a reset every place of the pattern space has a bank of its own, in order. -/
theorem bankAt_resetBanks {place : Nat} (h : place < 8) :
    (bankAt resetBanks place).toNat = place := by
  interval_cases place <;> rfl

/-- The bank that power-on brings to a place. -/
def firstBank (place : Nat) : Nat := if place < 4 then place % 2 else 0

theorem bankAt_powerOnBanks {place : Nat} (h : place < 8) :
    (bankAt powerOnBanks place).toNat = firstBank place := by
  interval_cases place <;> rfl

/-- **Registers that a program has named hold the same**, and those that it has not hold what a reset
gives them, or power-on. -/
def Twins (banks fresh : Memory 8) : Prop :=
  ∀ i < 8, banks.read i = fresh.read i ∨
    banks.read i = resetBanks.read i ∧ fresh.read i = powerOnBanks.read i

theorem Twins.write {banks fresh : Memory 8} (h : Twins banks fresh) (i : Nat) (v : UInt8) :
    Twins (banks.write i v) (fresh.write i v) := by
  intro j hj
  rw [Memory.read_write, Memory.read_write]
  split
  · exact .inl rfl
  · exact h j hj

/-- A write to the chip names one of them at most. -/
theorem Twins.chipWrite {r : Mmc3} {fresh : Memory 8} (h : Twins r.banks fresh) (a : UInt16)
    (v : UInt8) :
    ∃ fresh', { r with banks := fresh }.write a v = { r.write a v with banks := fresh' } ∧
      Twins (r.write a v).banks fresh' := by
  obtain ⟨select, banks, mirroring, fourScreen, ramEnabled, ramProtected, counter⟩ := r
  unfold Mmc3.write
  dsimp only
  split
  case h_2 => exact ⟨_, rfl, h.write _ v⟩
  all_goals exact ⟨_, rfl, h⟩

/-- At every place twins show the same bank, or the one its own and the other that of power-on. -/
theorem Twins.bank {banks fresh : Memory 8} (h : Twins banks fresh) {place : Nat}
    (hp : place < 8) :
    bankAt banks place = bankAt fresh place ∨
      (bankAt banks place).toNat = place ∧ (bankAt fresh place).toNat = firstBank place := by
  -- A place depends on one register, and on its value alone.
  have hregister : ∃ i < 8, ∃ f : UInt8 → UInt8, ∀ m, bankAt m place = f (m.read i) := by
    interval_cases place
    · exact ⟨0, by decide, (· &&& 0xFE), fun _ => rfl⟩
    · exact ⟨0, by decide, (· ||| 0x01), fun _ => rfl⟩
    · exact ⟨1, by decide, (· &&& 0xFE), fun _ => rfl⟩
    · exact ⟨1, by decide, (· ||| 0x01), fun _ => rfl⟩
    all_goals exact ⟨_, by decide, id, fun _ => rfl⟩
  obtain ⟨i, hi, f, hf⟩ := hregister
  obtain hsame | ⟨hreset, hpower⟩ := h i hi
  · exact .inl (by rw [hf, hf, hsame])
  · refine .inr ⟨?_, ?_⟩
    · rw [hf, hreset, ← hf, bankAt_resetBanks hp]
    · rw [hf, hpower, ← hf, bankAt_powerOnBanks hp]

end Mmc3

/-! ## 4. Twin boards -/

/-- Memories that hide the difference between the registers of a reset and those of power-on. -/
structure Blurred (c : Chips) : Prop where
  program : ∀ i, c.prg.read (bankedOffset c.prg.size 1 0x2000 i) =
    c.prg.read (bankedOffset c.prg.size 0 0x2000 i)
  patterns : ∀ place < 8, ∀ i, c.chr.read (bankedOffset c.chr.size place 0x400 i) =
    c.chr.read (bankedOffset c.chr.size (Mmc3.firstBank place) 0x400 i)
  small : c.chrWritable = true → c.chr.size < 0x800

/-- In a small pattern memory all banks are one. -/
theorem bankedOffset_small {size : Nat} (h : size < 0x800) (bank bank' i : Nat) :
    bankedOffset size bank 0x400 i = bankedOffset size bank' 0x400 i := by
  have hone : max (size / 0x400) 1 = 1 := by omega
  unfold bankedOffset
  rw [hone, Nat.mod_one, Nat.mod_one]

namespace Blurred

variable {c : Chips} {r : Mmc3} {fresh : Memory 8}

/-- Only the window at `$A000` can tell of the registers, and what it shows does not. -/
theorem prgRead (hc : Blurred c) (h : Mmc3.Twins r.banks fresh) (a : UInt16) :
    c.prg.read (r.prgOffset c.prg.size a) =
      c.prg.read ({ r with banks := fresh }.prgOffset c.prg.size a) := by
  -- R6 is 0 after both.
  have h6 : r.banks.read 6 = fresh.read 6 := by
    obtain hsame | ⟨hreset, hpower⟩ := h 6 (by decide)
    · exact hsame
    · rw [hreset, hpower]
      rfl
  have hwindow : r.prgBank c.prg.size a = { r with banks := fresh }.prgBank c.prg.size a ∨
      r.prgBank c.prg.size a = 1 ∧ { r with banks := fresh }.prgBank c.prg.size a = 0 := by
    unfold Mmc3.prgBank
    dsimp only
    split
    · exact .inl (by rw [h6]; rfl)
    · obtain hsame | ⟨hreset, hpower⟩ := h 7 (by decide)
      · exact .inl (by rw [hsame])
      · refine .inr ⟨?_, ?_⟩
        · rw [hreset]
          rfl
        · rw [hpower]
          rfl
    · exact .inl (by rw [h6]; rfl)
    · exact .inl rfl
  unfold Mmc3.prgOffset
  obtain hsame | ⟨hone, hzero⟩ := hwindow
  · rw [hsame]
  · rw [hone, hzero, hc.program]

theorem chrRead (hc : Blurred c) (h : Mmc3.Twins r.banks fresh) (a : UInt16) :
    c.chr.read (r.chrOffset c.chr.size a) =
      c.chr.read ({ r with banks := fresh }.chrOffset c.chr.size a) := by
  unfold Mmc3.chrOffset
  rw [Mmc3.chrBank_eq, Mmc3.chrBank_eq]
  have hplace : { r with banks := fresh }.place a = r.place a := rfl
  rw [hplace]
  obtain hsame | ⟨hown, hfirst⟩ := h.bank (r.place_lt a)
  · rw [hsame]
  · rw [hown, hfirst, hc.patterns _ (r.place_lt a)]

/-- Work memory is no part of it. -/
theorem writeRam (hc : Blurred c) (a : UInt16) (v : UInt8) : Blurred (c.writeRam a v) := by
  obtain ⟨prg, ram, chr, writable⟩ := c
  exact ⟨hc.program, hc.patterns, hc.small⟩

/-- Where patterns can be written, all banks are one before and after. -/
theorem writeChr (hc : Blurred c) (i : Nat) (v : UInt8) : Blurred (c.writeChr i v) := by
  obtain ⟨prg, ram, chr, writable⟩ := c
  cases writable with
  | false => exact hc
  | true =>
    have hsmall : (chr.write i v).size < 0x800 := by
      rw [Chip.size_write]
      exact hc.small rfl
    change Blurred ⟨prg, ram, chr.write i v, true⟩
    refine ⟨hc.program, fun place _ j => ?_, fun _ => hsmall⟩
    rw [bankedOffset_small hsmall]

/-- A byte written to patterns goes to the same place. -/
theorem writeChr_eq (hc : Blurred c) (a : UInt16) (v : UInt8) :
    c.writeChr (r.chrOffset c.chr.size a) v =
      c.writeChr ({ r with banks := fresh }.chrOffset c.chr.size a) v := by
  obtain ⟨prg, ram, chr, writable⟩ := c
  cases writable with
  | false =>
    have hdrop (i : Nat) : (⟨prg, ram, chr, false⟩ : Chips).writeChr i v = ⟨prg, ram, chr, false⟩ :=
      rfl
    rw [hdrop, hdrop]
  | true =>
    unfold Mmc3.chrOffset
    rw [bankedOffset_small (hc.small rfl) (r.chrBank a) ({ r with banks := fresh }.chrBank a)]

end Blurred

namespace Board

/-- Two boards with an MMC3 that differ in bank registers at most, as after a reset and after
power-on, and whose memories do not show it. -/
inductive Twin : Board → Board → Prop
  | mk {chips : Chips} {r : Mmc3} {fresh : Memory 8} (blurred : Blurred chips)
      (twins : Mmc3.Twins r.banks fresh) :
      Twin ⟨chips, .mmc3 r⟩ ⟨chips, .mmc3 { r with banks := fresh }⟩

theorem Twin.alike {b c : Board} (h : Twin b c) : Alike b c := by
  obtain ⟨hblurred, htwins⟩ := h
  refine ⟨fun a => ?_, hblurred.chrRead htwins, rfl, rfl⟩
  unfold cpuRead
  split
  · rfl
  split
  · rfl
  · exact hblurred.prgRead htwins a

/-- **Every operation leaves twins twins.** -/
theorem Twin.after {b c : Board} (h : Twin b c) (op : Operation) :
    Twin (b.after op) (c.after op) := by
  obtain @⟨chips, r, fresh, hblurred, htwins⟩ := h
  cases op with
  | cpuWrite a v =>
    unfold Board.after cpuWrite
    dsimp only
    split
    · exact ⟨hblurred, htwins⟩
    split
    · have hram : Mapper.ramWritable (.mmc3 { r with banks := fresh }) =
          Mapper.ramWritable (.mmc3 r) := rfl
      rw [hram]
      split
      · exact ⟨hblurred.writeRam a v, htwins⟩
      · exact ⟨hblurred, htwins⟩
    · obtain ⟨fresh', hwrite, htwins'⟩ := htwins.chipWrite a v
      unfold Mapper.write
      dsimp only
      rw [hwrite]
      exact ⟨hblurred, htwins'⟩
  | ppuWrite a v =>
    change Twin ⟨chips.writeChr (r.chrOffset chips.chr.size a) v, .mmc3 r⟩
      ⟨chips.writeChr ({ r with banks := fresh }.chrOffset chips.chr.size a) v,
        .mmc3 { r with banks := fresh }⟩
    rw [← @Blurred.writeChr_eq chips r fresh hblurred a v]
    exact ⟨hblurred.writeChr _ v, htwins⟩
  | observe a => exact ⟨hblurred, htwins⟩
  | reset => exact ⟨hblurred, fun _ _ => .inl rfl⟩

theorem Twin.indistinguishable {b c : Board} (h : Twin b c) : Indistinguishable b c :=
  .of_relation (fun _ _ => Twin.alike) (fun _ _ op h => h.after op) h

/-! ## 5. When a reset goes unnoticed -/

section Windows

variable (chips : Chips) {r : Mmc3}

/-- While the halves of the pattern space are not exchanged, every place is where it belongs. -/
theorem chrOffset_place (h : r.select = 0) {place : Nat} (hp : place < 8) (size i : Nat) :
    r.chrOffset size (.ofNat (place * 0x400 + i % 0x400)) =
      bankedOffset size (Mmc3.bankAt r.banks place).toNat 0x400 i := by
  have hexchanged : r.chrExchanged = false := by
    rw [Mmc3.chrExchanged, h]
    rfl
  have haddress : r.placeAddress place i = .ofNat (place * 0x400 + i % 0x400) := by
    rw [Mmc3.placeAddress, hexchanged]
    rfl
  rw [← haddress, r.chrOffset_placeAddress hp]

/-- What a place shows after a byte was written to the first. -/
theorem ppuRead_ppuWrite (h : r.select = 0) (hfirst : Mmc3.bankAt r.banks 0 = 0)
    (hwritable : chips.chrWritable = true) (hsize : 0 < chips.chr.size) (v : UInt8) {place : Nat}
    (hp : place < 8) :
    ((⟨chips, .mmc3 r⟩ : Board).ppuWrite 0 v).ppuRead (.ofNat (place * 0x400)) =
      if bankedOffset chips.chr.size (Mmc3.bankAt r.banks place).toNat 0x400 0 % chips.chr.size = 0
      then v
      else chips.chr.read
        (bankedOffset chips.chr.size (Mmc3.bankAt r.banks place).toNat 0x400 0) := by
  obtain ⟨prg, ram, chr, writable⟩ := chips
  obtain rfl : writable = true := hwritable
  have hzero : r.chrOffset chr.size 0 = 0 := by
    refine (chrOffset_place h (by decide : 0 < 8) chr.size 0).trans ?_
    rw [hfirst, bankedOffset, UInt8.toNat_zero, Nat.zero_mod, Nat.zero_mul]
  change (chr.write (r.chrOffset chr.size 0) v).read
    (r.chrOffset (chr.write (r.chrOffset chr.size 0) v).size (.ofNat (place * 0x400))) = _
  have hoffset := chrOffset_place h hp chr.size 0
  rw [Nat.zero_mod, Nat.add_zero] at hoffset
  rw [hzero, Chip.size_write, hoffset, Chip.read_write _ _ _ _ hsize, Nat.zero_mod]
  exact if_congr eq_comm rfl rfl

end Windows

section Unnoticed

variable {chips : Chips} {r : Mmc3} {wired : Mirroring}

/-- If a reset board looks like a new one, its memories hide what the registers hold. -/
theorem blurred_of_alike
    (h : Alike ⟨chips, .mmc3 r.reset⟩ ⟨chips, .mmc3 (.powerOn wired)⟩)
    (hsmall : chips.chrWritable = true → chips.chr.size < 0x800) : Blurred chips where
  program i := by
    have hown : (r.reset.banks.read 7 &&& 0x3F).toNat = 1 :=
      (by decide : (Mmc3.resetBanks.read 7 &&& 0x3F).toNat = 1)
    have hzero : ((Mmc3.powerOn wired).banks.read 7 &&& 0x3F).toNat = 0 :=
      (by decide : (Mmc3.powerOnBanks.read 7 &&& 0x3F).toNat = 0)
    have hwindow := h.cpuRead (windowAddress 1 i)
    rwa [cpuRead_window _ _ (by decide), cpuRead_window _ _ (by decide), Mmc3.windowBank,
      Mmc3.windowBank, hown, hzero] at hwindow
  patterns place hp i := by
    have hplace := h.ppuRead (.ofNat (place * 0x400 + i % 0x400))
    change chips.chr.read (r.reset.chrOffset chips.chr.size _) =
      chips.chr.read ((Mmc3.powerOn wired).chrOffset chips.chr.size _) at hplace
    have hown : (Mmc3.bankAt r.reset.banks place).toNat = place := Mmc3.bankAt_resetBanks hp
    have hfirst : (Mmc3.bankAt (Mmc3.powerOn wired).banks place).toNat = Mmc3.firstBank place :=
      Mmc3.bankAt_powerOnBanks hp
    rwa [chrOffset_place rfl hp, chrOffset_place rfl hp, hown, hfirst] at hplace
  small := hsmall

/-- Then it stays so. -/
theorem twin_of_alike (hsoldered : r.fourScreen = (wired == .fourScreen))
    (h : Alike ⟨chips, .mmc3 r.reset⟩ ⟨chips, .mmc3 (.powerOn wired)⟩)
    (hsmall : chips.chrWritable = true → chips.chr.size < 0x800) :
    Twin ⟨chips, .mmc3 r.reset⟩ ⟨chips, .mmc3 (.powerOn wired)⟩ := by
  have hmirroring : r.mirroring = wired := h.mirroring
  have hfresh : Mmc3.powerOn wired = { r.reset with banks := Mmc3.powerOnBanks } := by
    rw [Mmc3.powerOn, Mmc3.reset, hmirroring, hsoldered]
    rfl
  rw [hfresh]
  exact ⟨blurred_of_alike h hsmall, fun _ _ => .inr ⟨rfl, rfl⟩⟩

/-- With two banks or more, some place shows the first after power-on and another after a reset. -/
theorem exists_other_bank {size : Nat} (h : 0x800 ≤ size) :
    ∃ place < 8, Mmc3.firstBank place = 0 ∧ bankedOffset size place 0x400 0 % size ≠ 0 := by
  have hcount : 2 ≤ size / 0x400 := by omega
  -- No number of banks but one divides both 4 and 5.
  obtain ⟨place, hp, hfirst, hbank⟩ : ∃ place < 8, Mmc3.firstBank place = 0 ∧
      place % (size / 0x400) ≠ 0 := by
    by_cases h4 : 4 % (size / 0x400) = 0
    · refine ⟨5, by decide, rfl, fun h5 => ?_⟩
      have hdvd := Nat.dvd_sub (Nat.dvd_of_mod_eq_zero h5) (Nat.dvd_of_mod_eq_zero h4)
      have := Nat.le_of_dvd (by decide) hdvd
      omega
    · exact ⟨4, by decide, rfl, h4⟩
  have hmax : max (size / 0x400) 1 = size / 0x400 := by omega
  have hin := bankedOffset_lt place 0 (by decide : 0 < 0x400) (by omega : 0x400 ≤ size)
  refine ⟨place, hp, hfirst, ?_⟩
  rw [Nat.mod_eq_of_lt hin, bankedOffset, hmax]
  omega

/-- **With more pattern RAM than one bank a reset can be noticed**: a byte written to the first bank
shows after power-on where another bank shows after a reset. -/
theorem small_of_indistinguishable
    (h : Indistinguishable ⟨chips, .mmc3 r.reset⟩ ⟨chips, .mmc3 (.powerOn wired)⟩)
    (hwritable : chips.chrWritable = true) : chips.chr.size < 0x800 := by
  by_contra hlarge
  have hpos : 0 < chips.chr.size := by omega
  obtain ⟨place, hp, hfirst, hother⟩ := exists_other_bank (Nat.not_lt.mp hlarge)
  obtain ⟨v, hv⟩ : ∃ v, chips.chr.read (bankedOffset chips.chr.size place 0x400 0) ≠ v := by
    generalize chips.chr.read (bankedOffset chips.chr.size place 0x400 0) = x
    by_cases hx : x = 0
    · exact ⟨1, by rw [hx]; decide⟩
    · exact ⟨0, hx⟩
  have hown : (Mmc3.bankAt r.reset.banks place).toNat = place := Mmc3.bankAt_resetBanks hp
  have hzero : (Mmc3.bankAt (Mmc3.powerOn wired).banks place).toNat = 0 :=
    (Mmc3.bankAt_powerOnBanks hp).trans hfirst
  have hsame : bankedOffset chips.chr.size 0 0x400 0 % chips.chr.size = 0 := by
    rw [bankedOffset, Nat.zero_mod, Nat.zero_mul, Nat.zero_mod]
  have hread := (h [.ppuWrite 0 v]).ppuRead (.ofNat (place * 0x400))
  have hreset := ppuRead_ppuWrite chips (r := r.reset) rfl
    (by decide : Mmc3.bankAt Mmc3.resetBanks 0 = 0) hwritable hpos v hp
  have hpower := ppuRead_ppuWrite chips (r := Mmc3.powerOn wired) rfl
    (by decide : Mmc3.bankAt Mmc3.powerOnBanks 0 = 0) hwritable hpos v hp
  rw [hown, if_neg hother] at hreset
  rw [hzero, if_pos hsame] at hpower
  exact hv (hreset.symm.trans (hread.trans hpower))

end Unnoticed

/-- **When a reset is like power-on.**  After any history a board that is reset cannot be told from
one of its kind that has just been powered on with the same memories, unless it has an MMC3.  With
an MMC3 it cannot be told exactly if it looks the same at once and any pattern RAM it has is smaller
than two banks. -/
theorem reset_indistinguishable_iff (kind : Kind) (chips : Chips) (wired : Mirroring)
    (history : List Operation) :
    let b := (powerOn kind chips wired).run history
    Indistinguishable b.reset (powerOn kind b.chips wired) ↔
      (kind = .mmc3 → Alike b.reset (powerOn .mmc3 b.chips wired) ∧
        (b.chips.chrWritable = true → b.chips.chr.size < 0x800)) := by
  intro b
  have hb : IsOf kind wired b := (isOf_powerOn kind chips wired).run history
  clear_value b
  by_cases hkind : kind = .mmc3
  · subst hkind
    obtain ⟨hlogic, -⟩ := hb
    obtain ⟨chips', m⟩ := b
    cases hlogic with
    | mmc3 r hr =>
      constructor
      · exact fun h _ => ⟨h [], small_of_indistinguishable h⟩
      · intro h
        obtain ⟨halike, hsmall⟩ := h rfl
        exact (twin_of_alike hr halike hsmall).indistinguishable
  · rw [reset_eq_powerOn hb hkind]
    exact iff_of_true (.refl _) (fun h => absurd h hkind)

/-- Two banks of program memory, one of zeros and one of ones. -/
def twoBanks : Chips where
  prg := Chip.blank 0x2000 ++ Array.replicate 0x2000 1
  chr := Chip.blank 0x2000

theorem twoBanks_read {i : Nat} (h : i < 0x4000) :
    twoBanks.prg.read i = if i < 0x2000 then 0 else 1 := by
  have hsize : twoBanks.prg.size = 0x4000 := by simp [twoBanks, Chip.blank]
  rw [Chip.read, hsize, Nat.mod_eq_of_lt h, Array.getD_eq_getD_getElem?]
  simp only [twoBanks, Chip.blank, Array.getElem?_append, Array.size_replicate,
    Array.getElem?_replicate]
  split
  · rfl
  · rw [if_pos (by omega)]
    rfl

/-- An MMC3 that is reset as soon as it is powered on shows the second of them at `$A000`, where it
showed the first. -/
theorem reset_ne_powerOn_in_window :
    ¬Indistinguishable (powerOn .mmc3 twoBanks .vertical).reset
      (powerOn .mmc3 twoBanks .vertical) := by
  intro h
  have hsize : twoBanks.prg.size = 0x4000 := by simp [twoBanks, Chip.blank]
  have hblurred : Blurred twoBanks := blurred_of_alike (r := .powerOn .vertical) (h []) nofun
  have hprogram := hblurred.program 0
  have hone : bankedOffset 0x4000 1 0x2000 0 = 0x2000 := by decide
  have hzero : bankedOffset 0x4000 0 0x2000 0 = 0 := by decide
  rw [hsize, hone, hzero, twoBanks_read (by decide), twoBanks_read (by decide)] at hprogram
  exact absurd hprogram (by decide)

end Board
end Famicom
