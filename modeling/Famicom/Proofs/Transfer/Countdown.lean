/-
# The countdown of a transfer

A transfer may be started at any time, in the middle of another too, and reset at any time.  In
whatever state that leaves it, it promises how many cycles the processor will still stand still
(`SpriteDma.remaining`), and keeps the promise to the cycle.

The promise is a formula over the stage that the transfer is at.  What it is held against are the
`answers` of the cycles that follow: whether the processor stood still in each.  Which bytes the
reads bring, and from what memory, makes no difference, so a cycle is given any byte.  **The answers
are as many times yes as was promised, and from then on no** (`answers_eq`), on a mainboard as well
(`dmaAnswers_eq`).

All that this asks of a transfer is that it has not handed over a whole page while it runs
(`SpriteDma.Bounded`), which no operation can break.  For the same reason the byte that it is at is
in the page of the last start, and never behind it.
-/
import Famicom.Proofs.Histories
import Famicom.Proofs.Transfer.Stages

namespace Famicom

namespace SpriteDma

/-! ## 1. Cycles -/

/-- The processor stands still in the next cycle. -/
def stalls (d : SpriteDma) : Bool := d.next != .idle

theorem stalls_eq (d : SpriteDma) : d.stalls = d.active := by
  cases ha : d.active with
  | false => simp [stalls, next, ha]
  | true =>
    have hnext : d.next ≠ .idle := by
      unfold next
      rw [ha]
      split
      · contradiction
      split
      · simp
      split <;> simp
    simp [stalls, hnext]

/-- A cycle leaves a transfer alone that does not run. -/
theorem advance_of_idle {d : SpriteDma} (h : d.active = false) (v : UInt8) : d.advance v = d := by
  have hnext : d.next = .idle := by
    rw [next, h]
    rfl
  rw [advance, hnext]

theorem Bounded.advance {d : SpriteDma} (h : d.Bounded) (v : UInt8) : (d.advance v).Bounded := by
  cases ha : d.active with
  | false => exact (advance_of_idle ha v).symm ▸ h
  | true => exact (remaining_advance h ha v).1

/-- A cycle does not move the page. -/
theorem source_advance (d : SpriteDma) (v : UInt8) : (d.advance v).source = d.source := by
  unfold SpriteDma.advance
  split <;> rfl

/-- Whether the processor stands still, cycle for cycle.  Each is given the byte that a read would
bring. -/
def answers : SpriteDma → List UInt8 → List Bool
  | _, [] => []
  | d, v :: values => d.stalls :: answers (d.advance v) values

/-- So often yes, and from then on no. -/
def yesThenNo (yes cycles : Nat) : List Bool :=
  List.replicate (min cycles yes) true ++ List.replicate (cycles - yes) false

theorem yesThenNo_zero (yes : Nat) : yesThenNo yes 0 = [] := by
  rw [yesThenNo, Nat.zero_min, Nat.zero_sub]
  rfl

theorem yesThenNo_succ (yes cycles : Nat) :
    yesThenNo (yes + 1) (cycles + 1) = true :: yesThenNo yes cycles := by
  rw [yesThenNo, Nat.add_min_add_right, Nat.add_sub_add_right, List.replicate_succ]
  rfl

theorem yesThenNo_none (cycles : Nat) : yesThenNo 0 (cycles + 1) = false :: yesThenNo 0 cycles := by
  rw [yesThenNo, yesThenNo, Nat.min_zero, Nat.min_zero, Nat.sub_zero, Nat.sub_zero,
    List.replicate_succ]
  rfl

/-- What remains is nothing exactly if the transfer does not run. -/
theorem remaining_eq_zero_iff {d : SpriteDma} (h : d.Bounded) :
    d.remaining = 0 ↔ d.active = false := by
  rw [← Bool.not_eq_true, active_iff_remaining h, Nat.not_lt, Nat.le_zero]

/-- **A transfer stops the processor for as long as it promised**, whatever bytes it reads. -/
theorem answers_eq {d : SpriteDma} (h : d.Bounded) (values : List UInt8) :
    answers d values = yesThenNo d.remaining values.length := by
  induction values generalizing d with
  | nil => exact (yesThenNo_zero _).symm
  | cons v values ih =>
    rw [answers, ih (h.advance v), stalls_eq, List.length_cons]
    cases ha : d.active with
    | false => rw [advance_of_idle ha, (remaining_eq_zero_iff h).mpr ha, yesThenNo_none]
    | true => rw [← (remaining_advance h ha v).2, yesThenNo_succ]

/-! ## 2. Histories -/

/-- What is done to a transfer. -/
inductive Operation where
  | start (page : UInt8) (cycle : Nat)
  | reset
  /-- It is given a cycle, and if it reads, this byte. -/
  | cycle (value : UInt8)
  deriving DecidableEq, Repr

/-- The transfer after an operation. -/
def after (d : SpriteDma) : Operation → SpriteDma
  | .start page cycle => start page cycle
  | .reset => {}
  | .cycle v => d.advance v

/-- The transfer after a history. -/
def run (history : List Operation) : SpriteDma := history.foldl after {}

theorem run_concat (history : List Operation) (op : Operation) :
    run (history ++ [op]) = (run history).after op := List.foldl_concat ..

theorem Bounded.after {d : SpriteDma} (h : d.Bounded) (op : Operation) : (d.after op).Bounded := by
  cases op with
  | start page cycle => exact bounded_start page cycle
  | reset => exact nofun
  | cycle v => exact h.advance v

theorem bounded_run (history : List Operation) : (run history).Bounded := by
  induction history using List.reverseRecOn with
  | nil => exact nofun
  | append_singleton history op ih => exact run_concat history op ▸ ih.after op

/-- The page that a start is for. -/
def Operation.page? : Operation → Option UInt8
  | .start page _ => some page
  | _ => none

/-- The page of the last start. -/
def lastPage (history : List Operation) : Option UInt8 := latest (fun _ => Operation.page?) history

/-- **A transfer that runs is about the page of the last start**, and has been since. -/
theorem source_run (history : List Operation) (ha : (run history).active = true) :
    ∃ page, lastPage history = some page ∧ (run history).source = word 0 page := by
  induction history using List.reverseRecOn with
  | nil => exact absurd ha nofun
  | append_singleton history op ih =>
    rw [run_concat] at ha ⊢
    rw [lastPage, latest_concat]
    cases op with
    | start page cycle => exact ⟨page, rfl, rfl⟩
    | reset => exact absurd ha nofun
    | cycle v =>
      change ((run history).advance v).active = true at ha
      change ∃ page, lastPage history = some page ∧ ((run history).advance v).source = _
      rw [source_advance]
      apply ih
      cases hbefore : (run history).active with
      | true => rfl
      | false => rwa [advance_of_idle hbefore, hbefore] at ha

/-- A byte lies in its page. -/
theorem highByte_byteAddress (page : UInt8) {i : Nat} (hi : i < 256) :
    highByte (word 0 page + .ofNat i) = page := by
  have hpage := page.toNat_lt
  have haddress : (byteAddress page i).toNat = page.toNat * 256 + i :=
    UInt16.toNat_ofNat_of_lt' (by change _ < 65536; omega)
  apply UInt8.toNat_inj.mp
  rw [word_add_ofNat, toNat_highByte, haddress]
  omega

end SpriteDma

/-! ## 3. On a mainboard -/

namespace Mainboard

/-- Whether the processor has to stand still, in so many cycles that are offered to the transfer. -/
def dmaAnswers : Mainboard → Nat → List Bool
  | _, 0 => []
  | m, cycles + 1 => m.stepDma.1 :: dmaAnswers m.stepDma.2 cycles

theorem stepDma_fst (m : Mainboard) : m.stepDma.1 = m.dma.stalls := by
  unfold stepDma SpriteDma.stalls
  split <;> simp [*]

/-- **On a mainboard a transfer stops the processor for as long as it promised.** -/
theorem dmaAnswers_eq {m : Mainboard} (h : m.dma.Bounded) (cycles : Nat) :
    m.dmaAnswers cycles = SpriteDma.yesThenNo m.dma.remaining cycles := by
  -- The bytes that the reads bring on this mainboard are some bytes.
  obtain ⟨values, rfl, hvalues⟩ : ∃ values : List UInt8,
      values.length = cycles ∧ m.dmaAnswers cycles = m.dma.answers values := by
    clear h
    induction cycles generalizing m with
    | zero => exact ⟨[], rfl, rfl⟩
    | succ cycles ih =>
      obtain ⟨v, hv⟩ := m.stepDma_dma
      obtain ⟨values, hlength, hvalues⟩ := @ih m.stepDma.2
      refine ⟨v :: values, congrArg Nat.succ hlength, ?_⟩
      rw [dmaAnswers, SpriteDma.answers, stepDma_fst, hvalues, hv]
  rw [hvalues, SpriteDma.answers_eq h]

end Mainboard

namespace SpriteDma

/-- **The countdown is exact.**  After any history of starts, resets and cycles

* the cycles that follow stop the processor as often as the transfer promises, and no longer,
  whatever the reads bring, and on whatever mainboard;
* each of these takes one away from the promise, and a cycle after them changes nothing;
* nothing is promised exactly if the transfer does not run;
* and one that runs is at a byte of the page of the last start. -/
theorem countdown_exact (history : List Operation) :
    let d := run history
    (∀ values, d.answers values = yesThenNo d.remaining values.length) ∧
      (∀ (m : Mainboard) (cycles : Nat),
        (m.withDma d).dmaAnswers cycles = yesThenNo d.remaining cycles) ∧
      (∀ v, if d.stalls then (d.advance v).remaining + 1 = d.remaining else d.advance v = d) ∧
      (d.remaining = 0 ↔ d.active = false) ∧
      (d.active = true → d.index < 256 ∧ ∃ page,
        lastPage history = some page ∧ highByte d.source = page ∧
          highByte (d.source + .ofNat d.index) = page ∧
            ∀ a, d.next = .read a → a = d.source + .ofNat d.index) := by
  intro d
  have hbounded : d.Bounded := bounded_run history
  refine ⟨answers_eq hbounded, ?_, ?_, remaining_eq_zero_iff hbounded, ?_⟩
  · intro m cycles
    exact Mainboard.dmaAnswers_eq (m := m.withDma d) hbounded cycles
  · intro v
    rw [stalls_eq]
    split
    · next ha => exact (remaining_advance hbounded ha v).2
    · next ha => exact advance_of_idle (Bool.eq_false_iff.mpr ha) v
  · intro ha
    have hindex : d.index < 256 := hbounded ha
    obtain ⟨page, hpage, hsource⟩ := source_run history ha
    refine ⟨hindex, page, hpage, ?_, ?_, ?_⟩
    · rw [hsource, highByte_word]
    · rw [hsource, highByte_byteAddress page hindex]
    · intro a hread
      unfold next at hread
      split_ifs at hread
      exact (Cycle.read.inj hread).symm

end SpriteDma

end Famicom
