/-
# The stages of a transfer

A sprite transfer passes through few kinds of state: it waits for its place (`waiting`), then it has
handed over some bytes and wants the next (`handed`), or holds a byte that it has read (`holding`).
`next` and `advance` take it from one to the other, so **what a transfer asks for is known
beforehand**, but for the bytes: the places of a page in ascending order, and after each the byte
that was found there.

Section 2 is about its length.  `SpriteDma.remaining` promises how many cycles the processor will
stand still, and each cycle takes one of them away (`remaining_advance`).  So anything that
advances a transfer cycle by cycle, and does nothing else to it, is done after as many cycles as
were promised at the start (`remaining_run`).

Section 3 gives the transfer a cycle of the mainboard's.  **A read, whatever it is answered by, does
not reach what the transfer writes**: sprite memory and the place in it stay as they were
(`read_port`).
-/
import Famicom.Mainboard
import Mathlib.Logic.Function.Iterate

namespace Famicom

/-! ## 1. Stages -/

/-- The place of a byte in a page. -/
def byteAddress (page : UInt8) (i : Nat) : UInt16 := .ofNat (page.toNat * 256 + i)

theorem word_add_ofNat (page : UInt8) (i : Nat) :
    word 0 page + .ofNat i = byteAddress page i := by
  apply UInt16.toNat_inj.mp
  rw [UInt16.toNat_add, toNat_word, byteAddress, UInt16.toNat_ofNat', UInt16.toNat_ofNat',
    UInt8.toNat_zero]
  omega

namespace SpriteDma

/-- A transfer with some cycles to wait. -/
def waiting (page : UInt8) (cycles : Nat) : SpriteDma :=
  { active := true, source := word 0 page, alignment := cycles }

/-- A transfer that has handed over `index` bytes, the last of them `latch`. -/
def handed (page : UInt8) (index : Nat) (latch : UInt8) : SpriteDma :=
  { active := index < length, source := word 0 page, index, latch }

/-- A transfer that has read the byte behind those that it has handed over. -/
def holding (page : UInt8) (index : Nat) (latch : UInt8) : SpriteDma :=
  { active := true, source := word 0 page, index, loaded := true, latch }

theorem start_eq (page : UInt8) (cycle : Nat) : start page cycle = waiting page (1 + cycle % 2) :=
  rfl

/-- Whatever a transfer asks for, it is running. -/
theorem active_of_next_ne_idle {d : SpriteDma} (h : d.next ≠ .idle) : d.active = true := by
  cases ha : d.active with
  | true => rfl
  | false => exact absurd (by rw [next, ha]; rfl) h

theorem next_waiting (page : UInt8) (n : Nat) : (waiting page (n + 1)).next = .align := rfl

theorem next_handed (page : UInt8) {i : Nat} (hi : i < 256) (latch : UInt8) :
    (handed page i latch).next = .read (byteAddress page i) := by
  have ha : decide (i < length) = true := decide_eq_true hi
  simp [next, handed, ha, word_add_ofNat]

theorem next_holding (page : UInt8) (i : Nat) (v : UInt8) : (holding page i v).next = .write v :=
  rfl

theorem advance_waiting (page : UInt8) (n : Nat) (v : UInt8) :
    (waiting page (n + 1)).advance v = waiting page n := rfl

theorem advance_handed (page : UInt8) {i : Nat} (hi : i < 256) (latch v : UInt8) :
    (handed page i latch).advance v = holding page i v := by
  have ha : decide (i < length) = true := decide_eq_true hi
  rw [advance, next_handed page hi]
  simp [handed, holding, ha]

theorem advance_holding (page : UInt8) (i : Nat) (v w : UInt8) :
    (holding page i v).advance w = handed page (i + 1) v := rfl

/-! ## 2. Length -/

/-- The bytes handed over are counted up to a page. -/
def Bounded (d : SpriteDma) : Prop := d.active = true → d.index < length

theorem bounded_start (page : UInt8) (cycle : Nat) : (start page cycle).Bounded := by
  intro _
  exact Nat.zero_lt_succ _

theorem remaining_start (page : UInt8) (cycle : Nat) :
    (start page cycle).remaining = 513 + cycle % 2 := by
  simp only [remaining, start, if_true, Bool.false_eq_true, if_false, length]
  omega

/-- **Every cycle of a transfer takes one away from those that remain.** -/
theorem remaining_advance {d : SpriteDma} (hb : d.Bounded) (ha : d.active = true) (v : UInt8) :
    (d.advance v).Bounded ∧ (d.advance v).remaining + 1 = d.remaining := by
  obtain ⟨active, source, index, loaded, latch, alignment⟩ := d
  have hi : index < length := hb ha
  obtain rfl : active = true := ha
  cases alignment with
  | succ n =>
    have hstep : advance ⟨true, source, index, loaded, latch, n + 1⟩ v =
        ⟨true, source, index, loaded, latch, n⟩ := rfl
    rw [hstep]
    refine ⟨hb, ?_⟩
    simp only [remaining, if_true]
    omega
  | zero =>
    cases loaded with
    | false =>
      have hstep : advance ⟨true, source, index, false, latch, 0⟩ v =
          ⟨true, source, index, true, v, 0⟩ := rfl
      rw [hstep]
      refine ⟨hb, ?_⟩
      simp only [remaining, if_true, Bool.false_eq_true, if_false]
      omega
    | true =>
      have hstep : advance ⟨true, source, index, true, latch, 0⟩ v =
          ⟨decide (index + 1 < length), source, index + 1, false, latch, 0⟩ := rfl
      rw [hstep]
      refine ⟨fun h => of_decide_eq_true h, ?_⟩
      by_cases hl : index + 1 < length
      · simp only [remaining, decide_eq_true hl, if_true, Bool.false_eq_true, if_false]
        omega
      · simp only [remaining, decide_eq_false hl, if_true, Bool.false_eq_true, if_false]
        omega

/-- Cycles remain just as long as the transfer runs. -/
theorem active_iff_remaining {d : SpriteDma} (hb : d.Bounded) :
    d.active = true ↔ 0 < d.remaining := by
  constructor
  · intro ha
    have := (remaining_advance hb ha 0).2
    omega
  · intro h
    by_cases ha : d.active = true
    · exact ha
    · rw [remaining, if_neg ha] at h
      exact absurd h (Nat.lt_irrefl 0)

/-- **A transfer that is given a cycle at a time lasts as long as it promised.**  `f` is whatever
gives it a cycle, and `dma` is where it is found. -/
theorem remaining_run {α : Type} (f : α → α) (dma : α → SpriteDma)
    (hf : ∀ x, (dma x).active = true → ∃ v, dma (f x) = (dma x).advance v)
    {x : α} (hb : (dma x).Bounded) :
    ∀ k, k ≤ (dma x).remaining →
      (dma (f^[k] x)).Bounded ∧ (dma (f^[k] x)).remaining = (dma x).remaining - k
  | 0, _ => ⟨hb, rfl⟩
  | k + 1, hk => by
    obtain ⟨hbk, hrk⟩ := remaining_run f dma hf hb k (by omega)
    have ha : (dma (f^[k] x)).active = true := (active_iff_remaining hbk).mpr (by omega)
    obtain ⟨v, hv⟩ := hf _ ha
    obtain ⟨hbn, hrn⟩ := remaining_advance hbk ha v
    rw [Function.iterate_succ_apply', hv]
    exact ⟨hbn, by omega⟩

/-- A transfer from its start: it runs for 513 cycles or 514, and then no longer. -/
theorem active_run {α : Type} (f : α → α) (dma : α → SpriteDma)
    (hf : ∀ x, (dma x).active = true → ∃ v, dma (f x) = (dma x).advance v)
    {x : α} {page : UInt8} {cycle : Nat} (hx : dma x = start page cycle) {k : Nat}
    (hk : k ≤ 513 + cycle % 2) :
    (dma (f^[k] x)).active = true ↔ k < 513 + cycle % 2 := by
  have hr : (dma x).remaining = 513 + cycle % 2 := by rw [hx, remaining_start]
  have hb : (dma x).Bounded := by
    rw [hx]
    exact bounded_start page cycle
  obtain ⟨hbk, hrk⟩ := remaining_run f dma hf hb k (by omega)
  rw [active_iff_remaining hbk]
  omega

end SpriteDma

/-! ## 3. A cycle of the mainboard -/

namespace Ppu

/-- What a transfer writes, and what decides whether dots disturb it. -/
structure Port where
  mask : Mask
  oam : Memory 256
  oamAddress : UInt8
  raster : Raster

/-- The unit as a transfer finds it. -/
def port (p : Ppu) : Port := ⟨p.mask, p.oam, p.oamAddress, p.raster⟩

theorem mask_of_port {p : Ppu} {q : Port} (h : p.port = q) : p.mask = q.mask :=
  congrArg Port.mask h

theorem oam_of_port {p : Ppu} {q : Port} (h : p.port = q) : p.oam = q.oam := congrArg Port.oam h

theorem oamAddress_of_port {p : Ppu} {q : Port} (h : p.port = q) : p.oamAddress = q.oamAddress :=
  congrArg Port.oamAddress h

theorem raster_of_port {p : Ppu} {q : Port} (h : p.port = q) : p.raster = q.raster :=
  congrArg Port.raster h

section Bus

variable {μ : Type} [AddressBus μ]

theorem readData_port (p : Ppu) (mem : μ) : (p.readData mem).2.1.port = p.port := by
  unfold readData
  dsimp only
  split <;> rfl

theorem readRegister_port (p : Ppu) (a : UInt16) (mem : μ) :
    (p.readRegister a mem).2.1.port = p.port := by
  unfold readRegister
  dsimp only
  split
  · rfl
  · rfl
  · exact readData_port p mem
  · rfl

end Bus

end Ppu

namespace Mainboard

/-- **A read does not reach what a transfer writes.** -/
theorem read_port (m : Mainboard) (a : UInt16) : (m.read a).2.ppu.port = m.ppu.port := by
  cases hd : device a with
  | ppu =>
    have hread : (m.read a).2.ppu = (m.ppu.readRegister a m.video).2.1 := by
      simp only [read, hd]
    rw [hread, Ppu.readRegister_port]
  | _ => simp only [read, hd]

/-- The same mainboard with a transfer at another stage. -/
def withDma (m : Mainboard) (d : SpriteDma) : Mainboard := { m with dma := d }

@[simp] theorem withDma_dma (m : Mainboard) (d : SpriteDma) : (m.withDma d).dma = d := rfl

@[simp] theorem withDma_withDma (m : Mainboard) (d e : SpriteDma) :
    (m.withDma d).withDma e = m.withDma e := rfl

/-- A read neither asks what the transfer is doing nor changes it. -/
theorem read_withDma (m : Mainboard) (d : SpriteDma) (a : UInt16) :
    (m.withDma d).read a = ((m.read a).1, (m.read a).2.withDma d) := by
  cases hd : device a with
  | _ => simp only [read, hd, withDma]

theorem read_dma (m : Mainboard) (a : UInt16) : (m.read a).2.dma = m.dma := by
  exact congrArg (fun r => r.2.dma) (read_withDma m m.dma a)

theorem stepDma_align {m : Mainboard} (h : m.dma.next = .align) :
    m.stepDma = (true, m.withDma (m.dma.advance 0)) := by
  simp only [stepDma, h, withDma]

theorem stepDma_read {m : Mainboard} {a : UInt16} (h : m.dma.next = .read a) :
    m.stepDma = (true, (m.read a).2.withDma (m.dma.advance (m.read a).1)) := by
  simp only [stepDma, h, read_dma, withDma]

theorem stepDma_write {m : Mainboard} {v : UInt8} (h : m.dma.next = .write v) :
    m.stepDma = (true, { m with ppu := m.ppu.writeOam v }.withDma (m.dma.advance 0)) := by
  simp only [stepDma, h, withDma]

/-- Whatever the cycle needs, the transfer advances by it. -/
theorem stepDma_dma (m : Mainboard) : ∃ v, m.stepDma.2.dma = m.dma.advance v := by
  cases h : m.dma.next with
  | idle =>
    refine ⟨0, ?_⟩
    simp only [stepDma, SpriteDma.advance, h]
  | align => exact ⟨0, by rw [stepDma_align h, withDma_dma]⟩
  | read a => exact ⟨(m.read a).1, by rw [stepDma_read h, withDma_dma]⟩
  | write v => exact ⟨0, by rw [stepDma_write h, withDma_dma]⟩

end Mainboard

end Famicom
