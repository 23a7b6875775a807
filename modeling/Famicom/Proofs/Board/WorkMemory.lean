/-
# What work memory keeps

Work memory is at `$6000`, and what a program stores there a battery may have to keep.  On two of
the boards it stands behind a gate.  The program register of an MMC1 shuts it to both directions; an
MMC3 has a register for it, with one bit that shuts it and one that only keeps writes out.

Whether a write is taken depends on how the gate stands when it comes, and that on all that came
before: on which write completed a five, on bits under way that were abandoned, on a reset.
`gate kind history` tells it from the history, as the last operation has left it of which
`gateSetting` says anything.  **A byte of work memory is what the last write brought that fell on it
while the gate let writes in** (`cpuRead_workMemory`), on every board that has any, however much of
it there is; no other operation changes one.
-/
import Famicom.Proofs.Histories
import Famicom.Proofs.Board.PowerOn
import Famicom.Proofs.Board.SerialLine

namespace Famicom

/-! ## 1. The gate -/

/-- How work memory stands.  After power-on it is open. -/
structure Gate where
  /-- It answers. -/
  readable : Bool := true
  /-- It takes writes. -/
  writable : Bool := true
  deriving DecidableEq, Repr

/-- The gate of a board with this logic. -/
def Mapper.gate (m : Mapper) : Gate := ⟨m.ramReadable, m.ramWritable⟩

/-- **The fifth write of a five for the program register opens the gate of an MMC1 or shuts it**: it
brings bit 4.  `seen` are the writes that the chip has seen before. -/
def Mmc1.gateSetting (seen : List Store) (s : Store) : Option Gate :=
  if s.isSeen ∧ ¬s.abandons ∧ (Mmc1.waiting seen).length = 4 ∧
      Mmc1.Register.ofAddress s.address = .prg then
    some ⟨!s.bit, !s.bit⟩
  else none

/-- The register of the gate of an MMC3 is at the odd addresses from `$A000` to `$BFFF`: the top bit
opens it, and the next one keeps writes out. -/
def Mmc3.gateSetting (s : Store) : Option Gate :=
  if 0xA000 ≤ s.address ∧ s.address < 0xC000 ∧ s.address.toNat % 2 = 1 then
    some ⟨s.value.toNat.testBit 7, s.value.toNat.testBit 7 && !s.value.toNat.testBit 6⟩
  else none

namespace Board

/-- The write of the processor that an operation is. -/
def Operation.asStore : Operation → Option Store
  | .cpuWrite a v => some ⟨a, v⟩
  | _ => none

/-- The writes that the logic has seen since it was reset last. -/
def seenSinceReset (history : List Operation) : List Store :=
  ((history.rtakeWhile (· != .reset)).filterMap Operation.asStore).filter Store.isSeen

/-- What an operation says of the gate of a board, after the operations `before`.  A reset opens
it. -/
def gateSetting (kind : Kind) (before : List Operation) (op : Operation) : Option Gate :=
  match op, kind with
  | .reset, _ => some {}
  | .cpuWrite a v, .mmc1 => Mmc1.gateSetting (seenSinceReset before) ⟨a, v⟩
  | .cpuWrite a v, .mmc3 => Mmc3.gateSetting ⟨a, v⟩
  | _, _ => none

/-- The gate after a history. -/
def gate (kind : Kind) (history : List Operation) : Gate :=
  (latest (gateSetting kind) history).getD {}

/-- An operation sets the gate, or it stays. -/
theorem gate_concat (kind : Kind) (history : List Operation) (op : Operation) :
    gate kind (history ++ [op]) = (gateSetting kind history op).getD (gate kind history) := by
  rw [gate, latest_concat, gate]
  cases gateSetting kind history op <;> rfl

/-! ## 2. The gate as the logic has it -/

theorem seenSinceReset_concat (history : List Operation) (op : Operation) :
    seenSinceReset (history ++ [op]) =
      if op = .reset then []
      else seenSinceReset history ++ op.asStore.toList.filter Store.isSeen := by
  by_cases h : op = .reset
  · subst h
    have hnone : (history ++ [Operation.reset]).rtakeWhile (· != .reset) = [] :=
      List.rtakeWhile_concat_neg _ _ _ (by simp)
    rw [if_pos rfl, seenSinceReset, hnone]
    rfl
  · have hmore : (history ++ [op]).rtakeWhile (· != .reset) =
        history.rtakeWhile (· != .reset) ++ [op] :=
      List.rtakeWhile_concat_pos _ _ _ (by simpa using h)
    rw [if_neg h, seenSinceReset, hmore, List.filterMap_append, List.filter_append, seenSinceReset]
    cases op <;> rfl

end Board

/-- Bit 4 of the program register shuts the gate. -/
theorem Mmc1.gate_eq (r : Mmc1) :
    (Mapper.mmc1 r).gate = ⟨!r.prg.toNat.testBit 4, !r.prg.toNat.testBit 4⟩ := by
  have hbit : (r.prg &&& 0x10 != 0) = r.prg.toNat.testBit 4 := and_mask_ne_zero r.prg rfl
  have h : r.ramEnabled = !r.prg.toNat.testBit 4 := by
    rw [← hbit, bne, Bool.not_not]
    rfl
  rw [← h]
  rfl

/-- **Nothing but the fifth write of a five for the program register sets the gate of an MMC1.** -/
theorem Mmc1.gate_registers_concat (seen : List Store) {s : Store} (h : s.isSeen = true) :
    (Mapper.mmc1 (registers (seen ++ [s]))).gate =
      (gateSetting seen s).getD (Mapper.mmc1 (registers seen)).gate := by
  have hstep := advances_registers seen s
  rw [gate_eq, gate_eq, gateSetting]
  cases habandons : s.abandons with
  | true =>
    have hprg : (registers (seen ++ [s])).prg = (registers seen).prg :=
      hstep.abandoned habandons .prg
    simp [hprg]
  | false =>
    by_cases hfour : (waiting seen).length = 4
    · obtain ⟨hothers, hvalue⟩ := hstep.completed habandons hfour
      by_cases haddress : Register.ofAddress s.address = .prg
      · have hbit : (registers (seen ++ [s])).prg.toNat.testBit 4 = s.bit := by
          rw [haddress] at hvalue
          refine (hvalue 4).trans ?_
          simp [List.getD_eq_getElem?_getD, hfour]
        simp [h, hfour, haddress, hbit]
      · have hprg : (registers (seen ++ [s])).prg = (registers seen).prg :=
          hothers .prg (Ne.symm haddress)
        simp [haddress, hprg]
    · have hprg : (registers (seen ++ [s])).prg = (registers seen).prg :=
        hstep.awaited habandons hfour .prg
      simp [hfour, hprg]

/-- **Nothing but a write to its register sets the gate of an MMC3.** -/
theorem Mmc3.gate_write (r : Mmc3) {a : UInt16} (h : 0x8000 ≤ a) (v : UInt8) :
    (Mapper.mmc3 (r.write a v)).gate = (gateSetting ⟨a, v⟩).getD (Mapper.mmc3 r).gate := by
  have hprogram : 0x8000 ≤ a.toNat := UInt16.le_iff_toNat_le.mp h
  have hlt : a.toNat < 0x10000 := a.toNat_lt
  have hregister : (0xA000 ≤ a ∧ a < 0xC000 ∧ a.toNat % 2 = 1) ↔
      a.toNat / 0x2000 % 4 = 1 ∧ a.toNat % 2 = 1 := by
    rw [UInt16.le_iff_toNat_le, UInt16.lt_iff_toNat_lt]
    change 0xA000 ≤ a.toNat ∧ a.toNat < 0xC000 ∧ _ ↔ _
    omega
  have h7 : (v &&& 0x80 != 0) = v.toNat.testBit 7 := and_mask_ne_zero v rfl
  have h6 : (v &&& 0x40 != 0) = v.toNat.testBit 6 := and_mask_ne_zero v rfl
  rw [gateSetting, ← h7, ← h6]
  dsimp only
  by_cases hit : a.toNat / 0x2000 % 4 = 1 ∧ a.toNat % 2 = 1
  · rw [if_pos (hregister.mpr hit), write, hit.1, hit.2]
    rfl
  · rw [if_neg (mt hregister.mp hit), write]
    split
    all_goals first | rfl | skip
    -- Of the eight registers the one of the gate is left.
    next hblock hodd =>
      have : a.toNat % 2 ≠ 0 := by simpa using hodd
      exact absurd ⟨hblock, by omega⟩ hit

namespace Board

/-- What a history tells of the logic of a board: the registers of an MMC1 are those that the writes
since the last reset have brought, and of the other kinds it is enough to know the gate. -/
structure Follows (kind : Kind) (wired : Mirroring) (history : List Operation) (m : Mapper) :
    Prop where
  soldered : Soldered wired kind m
  registers : kind = .mmc1 → m = .mmc1 (Mmc1.registers (seenSinceReset history))
  gate : m.gate = gate kind history

section Follows

variable {kind : Kind} {wired : Mirroring} {history : List Operation}

theorem follows_powerOn (kind : Kind) (chips : Chips) (wired : Mirroring) :
    Follows kind wired [] (powerOn kind chips wired).mapper := by
  refine ⟨(isOf_powerOn kind chips wired).logic, ?_, ?_⟩
  · rintro rfl
    rfl
  · cases kind <;> rfl

/-- A write below `$8000` does not reach the logic. -/
theorem mapper_cpuWrite_of_not {a : UInt16} (h : ¬0x8000 ≤ a) (b : Board) (v : UInt8) :
    (b.cpuWrite a v).mapper = b.mapper := by
  have h8 : a < 0x8000 := UInt16.not_le.mp h
  rw [cpuWrite, if_pos h8]
  split
  · rfl
  · split <;> rfl

/-- Any other goes there. -/
theorem cpuWrite_of_program {a : UInt16} (h : 0x8000 ≤ a) (b : Board) (v : UInt8) :
    b.cpuWrite a v = ⟨b.chips, b.mapper.write b.chips.prg.size a v⟩ := by
  obtain ⟨h6, h8⟩ := not_lt_of_program h
  rw [cpuWrite, if_neg h6, if_neg h8]

theorem gateSetting_of_not {a : UInt16} (h : ¬0x8000 ≤ a) (v : UInt8) :
    gateSetting kind history (.cpuWrite a v) = none := by
  have hA : ¬0xA000 ≤ a := fun hle => h (UInt16.le_trans (by decide) hle)
  cases kind with
  | nrom => rfl
  | uxrom => rfl
  | mmc1 => exact if_neg fun hset => h ((Store.isSeen_iff _).mp hset.1)
  | mmc3 => exact if_neg fun hset => hA hset.1

/-- An operation that does not reach the logic. -/
theorem Follows.passed {m m' : Mapper} (h : Follows kind wired history m) {op : Operation}
    (hm : Soldered wired kind m') (hr : kind = .mmc1 → m' = m) (hgate : m'.gate = m.gate)
    (hset : gateSetting kind history op = none) (hne : op ≠ .reset)
    (hseen : op.asStore.toList.filter Store.isSeen = []) :
    Follows kind wired (history ++ [op]) m' := by
  refine ⟨hm, fun hk => ?_, ?_⟩
  · rw [seenSinceReset_concat, if_neg hne, hseen, List.append_nil, hr hk]
    exact h.registers hk
  · rw [gate_concat, hset, hgate]
    exact h.gate

/-- A write that reaches the logic. -/
theorem Follows.write {m : Mapper} (h : Follows kind wired history m) (size : Nat) {a : UInt16}
    (ha : 0x8000 ≤ a) (v : UInt8) :
    Follows kind wired (history ++ [.cpuWrite a v]) (m.write size a v) := by
  have hseen : (⟨a, v⟩ : Store).isSeen = true := (Store.isSeen_iff _).mpr ha
  have hmore :
      seenSinceReset (history ++ [.cpuWrite a v]) = seenSinceReset history ++ [⟨a, v⟩] := by
    rw [seenSinceReset_concat, if_neg (by simp), Operation.asStore]
    simp [hseen]
  obtain ⟨hsoldered, hregisters, hgate⟩ := h
  have hsoldered' := hsoldered.write size a v
  cases hsoldered with
  | nrom => exact ⟨hsoldered', nofun, by rw [gate_concat, ← hgate]; rfl⟩
  | uxrom bank => exact ⟨hsoldered', nofun, by rw [gate_concat, ← hgate]; rfl⟩
  | mmc1 r =>
    obtain rfl : r = _ := Mapper.mmc1.inj (hregisters rfl)
    have hwritten : (Mapper.mmc1 (Mmc1.registers (seenSinceReset history))).write size a v =
        .mmc1 (Mmc1.registers (seenSinceReset history ++ [⟨a, v⟩])) := by
      rw [Mmc1.registers_concat]
      rfl
    refine ⟨hsoldered', fun _ => by rw [hmore, hwritten], ?_⟩
    rw [gate_concat, ← hgate, hwritten, Mmc1.gate_registers_concat _ hseen]
    rfl
  | mmc3 r _ =>
    refine ⟨hsoldered', nofun, ?_⟩
    rw [gate_concat, ← hgate]
    exact r.gate_write ha v

/-- The step of the induction over histories: one case for each operation. -/
theorem Follows.after {b : Board} (h : Follows kind wired history b.mapper) (op : Operation) :
    Follows kind wired (history ++ [op]) (b.after op).mapper := by
  cases op with
  | cpuWrite a v =>
    by_cases ha : 0x8000 ≤ a
    · rw [Board.after, cpuWrite_of_program ha]
      exact h.write _ ha v
    · have hseen : (⟨a, v⟩ : Store).isSeen = false := by
        simpa using mt (Store.isSeen_iff ⟨a, v⟩).mp ha
      rw [Board.after, mapper_cpuWrite_of_not ha]
      exact h.passed h.soldered (fun _ => rfl) rfl (gateSetting_of_not ha v) (by simp)
        (by simp [Operation.asStore, hseen])
  | ppuWrite a v =>
    exact h.passed h.soldered (fun _ => rfl) rfl (by cases kind <;> rfl) (by simp) rfl
  | observe a =>
    obtain ⟨chips, m⟩ := b
    refine h.passed (h.soldered.observe a) (fun hk => ?_) ?_ (by cases kind <;> rfl) (by simp) rfl
    · rw [show m = _ from h.registers hk]
      rfl
    · cases m <;> rfl
  | reset =>
    obtain ⟨chips, m⟩ := b
    refine ⟨h.soldered.reset, fun hk => ?_, ?_⟩
    · rw [seenSinceReset_concat, if_pos rfl]
      change m.reset = _
      rw [show m = _ from h.registers hk]
      rfl
    · rw [gate_concat]
      cases m <;> rfl

/-- **The gate of a board is the one that its history tells.** -/
theorem follows_run (kind : Kind) (chips : Chips) (wired : Mirroring) (history : List Operation) :
    Follows kind wired history ((powerOn kind chips wired).run history).mapper := by
  induction history using List.reverseRecOn with
  | nil => exact follows_powerOn kind chips wired
  | append_singleton history op ih =>
    rw [run_concat]
    exact ih.after op

end Follows

/-! ## 3. The bytes behind it -/

/-- The byte that an operation stores where `a` is, on a board with `size` bytes of work memory,
after the operations `before`: it is a write into the window, the window repeats the memory, and the
gate lets it in. -/
def storedAt (kind : Kind) (size : Nat) (a : UInt16) (before : List Operation) :
    Operation → Option UInt8
  | .cpuWrite b v =>
    if 0x6000 ≤ b ∧ b < 0x8000 ∧ (b.toNat - 0x6000) % size = (a.toNat - 0x6000) % size ∧
        (gate kind before).writable then
      some v
    else none
  | _ => none

/-- What a history tells of work memory. -/
structure Keeps (kind : Kind) (size : Nat) (history : List Operation) (ram : Chip) : Prop where
  size_eq : ram.size = size
  bytes : ∀ a : UInt16,
    ram.read (a.toNat - 0x6000) = (latest (storedAt kind size a) history).getD 0

/-- **Only a write of the processor that the gate lets in changes work memory.** -/
theorem ram_cpuWrite (b : Board) (a : UInt16) (v : UInt8) :
    (b.cpuWrite a v).chips.ram =
      if 0x6000 ≤ a ∧ a < 0x8000 ∧ b.mapper.gate.writable then
        b.chips.ram.write (a.toNat - 0x6000) v
      else b.chips.ram := by
  obtain ⟨⟨prg, ram, chr, writable⟩, m⟩ := b
  rw [cpuWrite]
  by_cases h6 : a < 0x6000
  · rw [if_pos h6, if_neg fun h => UInt16.not_le.mpr h6 h.1]
  · rw [if_neg h6]
    by_cases h8 : a < 0x8000
    · rw [if_pos h8]
      have hlow : 0x6000 ≤ a := UInt16.not_lt.mp h6
      by_cases hgate : m.ramWritable = true
      · rw [if_pos hgate, if_pos ⟨hlow, h8, hgate⟩]
        rfl
      · rw [if_neg hgate, if_neg fun h => hgate h.2.2]
    · rw [if_neg h8, if_neg fun h => h8 h.2.1]

section Keeps

variable {kind : Kind} {wired : Mirroring} {size : Nat} {history : List Operation}

theorem keeps_powerOn (hkind : kind ≠ .uxrom) (prg chr : Chip) (chrWritable : Bool) :
    Keeps kind size [] (powerOn kind (.ofImages prg chr chrWritable size) wired).chips.ram := by
  have hram : (powerOn kind (.ofImages prg chr chrWritable size) wired).chips.ram =
      Chip.blank size := by
    cases kind with
    | uxrom => exact absurd rfl hkind
    | _ => rfl
  rw [hram]
  refine ⟨Array.size_replicate, fun a => ?_⟩
  simp only [Chip.read, Chip.blank, Array.getD_eq_getD_getElem?, Array.getElem?_replicate]
  split <;> rfl

/-- The step of the induction over histories, for the bytes. -/
theorem Keeps.after {b : Board} (h : Keeps kind size history b.chips.ram)
    (hfollows : Follows kind wired history b.mapper) (hsize : 0 < size) (op : Operation) :
    Keeps kind size (history ++ [op]) (b.after op).chips.ram := by
  -- Other operations than a write of the processor neither store a byte nor are said to.
  have hkept : ∀ op : Operation, op.asStore = none → (b.after op).chips.ram = b.chips.ram →
      Keeps kind size (history ++ [op]) (b.after op).chips.ram := by
    intro op hop hram
    refine ⟨hram ▸ h.size_eq, fun a => ?_⟩
    have hnone : storedAt kind size a history op = none := by
      cases op with
      | cpuWrite => exact nomatch hop
      | _ => rfl
    rw [hram, latest_concat, hnone]
    exact h.bytes a
  cases op with
  | observe a => exact hkept _ rfl rfl
  | reset => exact hkept _ rfl rfl
  | ppuWrite a v => exact hkept _ rfl (writeChr_ram _ _ _)
  | cpuWrite c v =>
    have hram := ram_cpuWrite b c v
    rw [hfollows.gate] at hram
    have hstored (a : UInt16) : storedAt kind size a history (.cpuWrite c v) =
        if 0x6000 ≤ c ∧ c < 0x8000 ∧ (c.toNat - 0x6000) % size = (a.toNat - 0x6000) % size ∧
          (gate kind history).writable then some v else none := rfl
    by_cases htaken : 0x6000 ≤ c ∧ c < 0x8000 ∧ (gate kind history).writable = true
    · rw [if_pos htaken] at hram
      refine ⟨?_, fun a => ?_⟩
      · rw [Board.after, hram, Chip.size_write, h.size_eq]
      · obtain ⟨hlow, hhigh, hgate⟩ := htaken
        rw [Board.after, hram, Chip.read_write _ _ _ _ (h.size_eq.symm ▸ hsize), h.size_eq,
          latest_concat, hstored]
        by_cases hsame : (c.toNat - 0x6000) % size = (a.toNat - 0x6000) % size
        · rw [if_pos hsame, if_pos ⟨hlow, hhigh, hsame, hgate⟩]
          rfl
        · rw [if_neg hsame, if_neg fun hall => hsame hall.2.2.1]
          exact h.bytes a
    · rw [if_neg htaken] at hram
      refine ⟨hram ▸ h.size_eq, fun a => ?_⟩
      rw [Board.after, hram, latest_concat, hstored,
        if_neg fun hall => htaken ⟨hall.1, hall.2.1, hall.2.2.2⟩]
      exact h.bytes a

theorem keeps_run (hkind : kind ≠ .uxrom) (hsize : 0 < size) (prg chr : Chip)
    (chrWritable : Bool) (wired : Mirroring) (history : List Operation) :
    Keeps kind size history
      ((powerOn kind (.ofImages prg chr chrWritable size) wired).run history).chips.ram := by
  induction history using List.reverseRecOn with
  | nil => exact keeps_powerOn hkind prg chr chrWritable
  | append_singleton history op ih =>
    rw [run_concat]
    exact ih.after (follows_run kind _ wired history) hsize op

/-- **Work memory keeps what was written while its gate let writes in.**  Of a board with `size`
bytes of it, after whatever was done to it, a read of the window brings the byte of the last write
that the gate let in and that fell on this byte of the memory, or 0 if there was none; and while the
gate is shut it brings 0.  The history before it says how the gate stands at each write. -/
theorem cpuRead_workMemory (hkind : kind ≠ .uxrom) (hsize : 0 < size) (prg chr : Chip)
    (chrWritable : Bool) (wired : Mirroring) (history : List Operation) {a : UInt16}
    (hlow : 0x6000 ≤ a) (hhigh : a < 0x8000) :
    ((powerOn kind (.ofImages prg chr chrWritable size) wired).run history).cpuRead a =
      if (gate kind history).readable then (latest (storedAt kind size a) history).getD 0
      else 0 := by
  have hbytes := (keeps_run hkind hsize prg chr chrWritable wired history).bytes a
  have hgate := (follows_run kind (.ofImages prg chr chrWritable size) wired history).gate
  rw [cpuRead, if_neg (UInt16.not_lt.mpr hlow), if_pos hhigh, ← hgate, ← hbytes]
  rfl

/-- Four bytes behind an MMC1.  Five writes shut the gate, a sixth and a seventh begin a value that
is never completed, and a reset opens the gate again: of the two bytes that were sent to the second
cell the first is still there. -/
theorem cpuRead_workMemory_shut_in_between :
    Kind.mmc1 ≠ .uxrom ∧ 0 < 4 ∧ (0x6000 : UInt16) ≤ 0x6001 ∧ (0x6001 : UInt16) < 0x8000 ∧
      ((powerOn .mmc1 (.ofImages #[] #[] true 4) .vertical).run
        ([.cpuWrite 0x6005 7] ++ List.replicate 5 (.cpuWrite 0xE000 1) ++ [.cpuWrite 0x6001 9] ++
          List.replicate 2 (.cpuWrite 0x8000 1) ++ [.ppuWrite 0x6001 3, .reset])).cpuRead 0x6001 =
        7 :=
  ⟨by decide, by decide, by decide, by decide,
    (cpuRead_workMemory (by decide) (by decide) #[] #[] true .vertical _ (by decide)
      (by decide)).trans (by decide)⟩

end Keeps

end Board

end Famicom
