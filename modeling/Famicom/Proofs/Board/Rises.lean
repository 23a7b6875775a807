/-
# Rises and the scanline counter

The counter of an MMC3 knows nothing of scanlines.  It knows one line of the picture unit's address
bus, high at an address or low, and of a stream of addresses it counts the *rises*: those at which
the line is high after it was low at three or more in a row.

`IsRise` says so of an address and those seen before it, with no counting in it, and `rises` is how
many there are in a stream.  A program restarts the counter by four writes: a latch value, the
restart itself, and its interrupt released and enabled.  From then on, **whatever is seen and however
often the program acknowledges an interrupt**,

* the counter has run down from the latch by one at every rise, and round again (`Restarted`);
* the interrupt line is asserted exactly if a rise has come, since the last acknowledgement, whose
  number is a multiple of the latch plus one (`Due`).

`irq_of_rises` is the two together, from any history of a board.
-/
import Famicom.Proofs.Bits
import Famicom.Proofs.Board.Operations
import Mathlib.Data.List.Basic
import Mathlib.Data.List.Induction

namespace Famicom

namespace ScanlineCounter

/-! ## 1. The watched line -/

/-- Whether the watched line is high at an address. -/
def isHigh (a : UInt16) : Bool := a &&& 0x1000 != 0

theorem isHigh_iff (a : UInt16) : isHigh a = true ↔ a.toNat / 4096 % 2 = 1 := by
  have hand : (a &&& 0x1000).toNat = a.toNat &&& 2 ^ 12 := UInt16.toNat_and a 0x1000
  rw [isHigh, bne_iff_ne, ne_eq, ← UInt16.toNat_inj, hand, UInt16.toNat_zero,
    and_two_pow_eq_zero_iff, Bool.not_eq_false, Nat.testBit_eq_decide_div_mod_eq,
    decide_eq_true_iff]

/-- How long the line has been low after one more access, at which it is high or not. -/
def runAfter (run : Nat) (high : Bool) : Nat := if high then 0 else run + 1

/-- Whether an access is counted, at which the line is high or not after it has been low for some
time. -/
def counts (run : Nat) (high : Bool) : Bool := high && decide (filterLength ≤ run)

/-- **An address steps the counter if it is counted**, and in any case it is seen. -/
theorem observe_eq (c : ScanlineCounter) (a : UInt16) :
    c.observe a =
      { (if counts c.lowRun (isHigh a) then c.clock else c) with
        lowRun := runAfter c.lowRun (isHigh a) } := by
  unfold observe counts runAfter
  change (if isHigh a then _ else _) = _
  cases isHigh a with
  | false => rfl
  | true =>
    by_cases h : filterLength ≤ c.lowRun
    · simp only [h, if_true, decide_true, Bool.and_self]
    · simp only [h, if_true, if_false, decide_false, Bool.and_false, Bool.false_eq_true]

/-- How long the line has been low after some addresses. -/
def runOf (past : List UInt16) : Nat := past.foldl (fun run a => runAfter run (isHigh a)) 0

theorem runOf_concat (past : List UInt16) (a : UInt16) :
    runOf (past ++ [a]) = runAfter (runOf past) (isHigh a) := List.foldl_concat ..

/-- The line has been low for some time if it was low at as many addresses in a row, up to the
last. -/
theorem le_runOf_iff {n : Nat} {past : List UInt16} :
    n ≤ runOf past ↔ ∃ lows, n ≤ lows.length ∧ lows <:+ past ∧ ∀ x ∈ lows, isHigh x = false := by
  induction past using List.reverseRecOn generalizing n with
  | nil =>
    constructor
    · intro h
      exact ⟨[], h, List.suffix_refl [], by simp⟩
    · rintro ⟨lows, hn, hs, -⟩
      rwa [List.suffix_nil.mp hs] at hn
  | append_singleton past a ih =>
    rw [runOf_concat]
    cases ha : isHigh a with
    | true =>
      constructor
      · intro h
        exact ⟨[], h, List.nil_suffix, by simp⟩
      · rintro ⟨lows, hn, hs, hlow⟩
        obtain rfl | ⟨rest, rfl, -⟩ := List.suffix_concat_iff.mp hs
        · exact hn
        · -- The line would have to be low at `a`, the last address.
          have := hlow a (by simp)
          rw [ha] at this
          exact absurd this (by decide)
    | false =>
      have hrun : runAfter (runOf past) false = runOf past + 1 := rfl
      have hpred : n ≤ runOf past + 1 ↔ n - 1 ≤ runOf past := by omega
      rw [hrun, hpred, ih]
      constructor
      · rintro ⟨lows, hn, hs, hlow⟩
        refine ⟨lows ++ [a], by simp; omega, List.suffix_concat_iff.mpr (.inr ⟨lows, rfl, hs⟩), ?_⟩
        intro x hx
        obtain hx | hx := List.mem_append.mp hx
        · exact hlow x hx
        · rwa [List.mem_singleton.mp hx]
      · rintro ⟨lows, hn, hs, hlow⟩
        obtain rfl | ⟨rest, rfl, hrest⟩ := List.suffix_concat_iff.mp hs
        · exact ⟨[], by rw [List.length_nil] at hn ⊢; omega, List.nil_suffix, by simp⟩
        · refine ⟨rest, ?_, hrest, fun x hx => hlow x (List.mem_append_left _ hx)⟩
          rw [List.length_append, List.length_singleton] at hn
          omega

/-- **A rise**: the line is high at an address, and at three or more immediately before it the line
was low. -/
def IsRise (past : List UInt16) (a : UInt16) : Prop :=
  isHigh a = true ∧ ∃ lows, 3 ≤ lows.length ∧ lows <:+ past ∧ ∀ x ∈ lows, isHigh x = false

/-- The counter's filter lets rises through and nothing else. -/
theorem counts_iff_isRise {past : List UInt16} {a : UInt16} :
    counts (runOf past) (isHigh a) = true ↔ IsRise past a := by
  rw [counts, Bool.and_eq_true, decide_eq_true_iff, IsRise, ← le_runOf_iff]
  rfl

instance (past : List UInt16) (a : UInt16) : Decidable (IsRise past a) :=
  decidable_of_iff _ counts_iff_isRise

/-- How many rises there are among `stream`, seen after `past`. -/
def rises (past : List UInt16) : List UInt16 → Nat
  | [] => 0
  | a :: stream => (if IsRise past a then 1 else 0) + rises (past ++ [a]) stream

theorem rises_concat (past stream : List UInt16) (a : UInt16) :
    rises past (stream ++ [a]) =
      rises past stream + if IsRise (past ++ stream) a then 1 else 0 := by
  induction stream generalizing past with
  | nil => simp [rises]
  | cons b stream ih =>
    rw [List.cons_append, rises, rises, ih, List.append_assoc, List.singleton_append,
      Nat.add_assoc]

/-- Two low accesses from before and one more make a rise of the next; the one after is none. -/
example : rises [0x2000, 0x0008] [0x2000, 0x1000, 0x1008] = 1 := by decide

/-! ## 2. The counter from rise to rise -/

/-- What a counter shows that was restarted from `latch`, so many rises ago. -/
def countAfter (latch rises : Nat) : Nat :=
  if rises = 0 then 0 else latch - (rises - 1) % (latch + 1)

theorem succ_mod_succ (n m : Nat) :
    (n + 1) % (m + 1) = if n % (m + 1) = m then 0 else n % (m + 1) + 1 := by
  have hlt : n % (m + 1) < m + 1 := Nat.mod_lt _ (Nat.succ_pos m)
  by_cases h : n % (m + 1) = m
  · rw [if_pos h]
    exact Nat.succ_mod_succ_eq_zero_iff.mpr h
  · rw [if_neg h, ← Nat.mod_add_mod, Nat.mod_eq_of_lt (by omega)]

/-- At a rise the counter steps down, and from zero it goes back to the latch. -/
theorem countAfter_succ (latch n : Nat) :
    countAfter latch (n + 1) =
      if countAfter latch n = 0 then latch else countAfter latch n - 1 := by
  cases n with
  | zero => simp [countAfter]
  | succ n =>
    have hlt : n % (latch + 1) < latch + 1 := Nat.mod_lt _ (Nat.succ_pos latch)
    simp only [countAfter, Nat.succ_ne_zero, if_false, Nat.add_sub_cancel, succ_mod_succ]
    split <;> split <;> omega

/-- A rise leaves the counter at zero if its number is a multiple of the latch plus one. -/
theorem countAfter_succ_eq_zero_iff (latch n : Nat) :
    countAfter latch (n + 1) = 0 ↔ latch + 1 ∣ n + 1 := by
  have hlt : n % (latch + 1) < latch + 1 := Nat.mod_lt _ (Nat.succ_pos latch)
  rw [countAfter, if_neg (Nat.succ_ne_zero n), Nat.add_sub_cancel, Nat.dvd_iff_mod_eq_zero,
    Nat.succ_mod_succ_eq_zero_iff]
  omega

/-- A counter that was restarted from a latch value, so many rises ago, and may interrupt. -/
structure Restarted (value : UInt8) (rises : Nat) (c : ScanlineCounter) : Prop where
  latch : c.latch = value
  enabled : c.enabled = true
  reload : c.reload = decide (rises = 0)
  counter : c.counter.toNat = countAfter value.toNat rises

/-- **One rise**: the counter steps, and it asks for an interrupt at every multiple of the latch
plus one. -/
theorem Restarted.clock {value : UInt8} {n : Nat} {c : ScanlineCounter}
    (h : Restarted value n c) :
    Restarted value (n + 1) c.clock ∧
      (c.clock.pending = true ↔ c.pending = true ∨ value.toNat + 1 ∣ n + 1) := by
  have hzero : (c.counter == 0 || c.reload) = true ↔ countAfter value.toNat n = 0 := by
    rw [← h.counter, h.reload, Bool.or_eq_true, beq_iff_eq, decide_eq_true_iff,
      ← UInt8.toNat_inj, UInt8.toNat_zero]
    refine or_iff_left_of_imp fun hn => ?_
    rw [h.counter, hn]
    rfl
  have hcount : c.clock.counter.toNat = countAfter value.toNat (n + 1) := by
    have hc : c.clock.counter = if c.counter == 0 || c.reload then c.latch else c.counter - 1 := rfl
    rw [hc, countAfter_succ]
    by_cases hz : countAfter value.toNat n = 0
    · rw [if_pos hz, if_pos (hzero.mpr hz), h.latch]
    · have hpos : 1 ≤ c.counter.toNat := by rw [h.counter]; omega
      rw [if_neg hz, if_neg (mt hzero.mp hz), UInt8.toNat_sub_of_le _ _ hpos, h.counter]
      rfl
  refine ⟨⟨h.latch, h.enabled, rfl, hcount⟩, ?_⟩
  have hp : c.clock.pending = (c.pending || (c.clock.counter == 0 && c.enabled)) := rfl
  rw [hp, h.enabled, Bool.and_true, Bool.or_eq_true, beq_iff_eq, ← countAfter_succ_eq_zero_iff,
    ← hcount, ← UInt8.toNat_inj, UInt8.toNat_zero]

end ScanlineCounter

open ScanlineCounter

/-! ## 3. The counter on a board -/

theorem Mmc3.write_lowRun (r : Mmc3) (a : UInt16) (v : UInt8) :
    (r.write a v).counter.lowRun = r.counter.lowRun := by
  unfold Mmc3.write
  dsimp only
  split <;> rfl

namespace Mapper

/-- The counter of the logic, if there is one. -/
def counter? : Mapper → Option ScanlineCounter
  | mmc3 r => some r.counter
  | _ => none

/-- How long the line has been low, where it is watched. -/
def lowRun? (m : Mapper) : Option Nat := m.counter?.map ScanlineCounter.lowRun

theorem counter?_observe (m : Mapper) (a : UInt16) :
    (m.observe a).counter? = m.counter?.map (·.observe a) := by
  cases m <;> rfl

theorem counter?_reset (m : Mapper) : m.reset.counter? = m.counter?.map fun _ => {} := by
  cases m <;> rfl

/-- No write makes the logic forget for how long the line has been low. -/
theorem lowRun?_write (m : Mapper) (size : Nat) (a : UInt16) (v : UInt8) :
    (m.write size a v).lowRun? = m.lowRun? := by
  cases m with
  | mmc3 r => exact congrArg some (r.write_lowRun a v)
  | _ => rfl

theorem irq_eq {m : Mapper} {c : ScanlineCounter} (h : m.counter? = some c) :
    m.irq = c.pending := by
  cases m with
  | mmc3 r => exact congrArg ScanlineCounter.pending (Option.some.inj h)
  | _ => nomatch h

theorem lowRun?_observe (m : Mapper) (a : UInt16) :
    (m.observe a).lowRun? = m.lowRun?.map (runAfter · (isHigh a)) := by
  rw [lowRun?, lowRun?, counter?_observe, Option.map_map, Option.map_map]
  refine congrArg (Option.map · m.counter?) (funext fun c => ?_)
  exact congrArg ScanlineCounter.lowRun (observe_eq c a)

end Mapper

namespace Board

theorem lowRun?_cpuWrite (b : Board) (a : UInt16) (v : UInt8) :
    (b.cpuWrite a v).mapper.lowRun? = b.mapper.lowRun? := by
  obtain ⟨chips, mapper⟩ := b
  unfold cpuWrite
  dsimp only
  split
  · rfl
  split
  · split <;> rfl
  · exact mapper.lowRun?_write _ a v

/-- The addresses that a board has seen since it was started, by power-on or by a reset. -/
def seen (history : List Operation) : List UInt16 :=
  history.foldl (fun past op =>
    match op with
    | .observe a => past ++ [a]
    | .reset => []
    | _ => past) []

/-- **The filter knows how long the line has been low** at the addresses it has seen. -/
theorem lowRun?_run (chips : Chips) (wired : Mirroring) (history : List Operation) :
    ((mmc3 chips wired).run history).mapper.lowRun? = some (runOf (seen history)) := by
  induction history using List.reverseRecOn with
  | nil => rfl
  | append_singleton history op ih =>
    rw [run_concat, seen, List.foldl_concat, ← seen]
    generalize (mmc3 chips wired).run history = b at ih
    cases op with
    | cpuWrite a v => exact (lowRun?_cpuWrite b a v).trans ih
    | ppuWrite a v => exact ih
    | observe a =>
      calc (b.observe a).mapper.lowRun?
          = b.mapper.lowRun?.map (runAfter · (isHigh a)) := b.mapper.lowRun?_observe a
        _ = some (runAfter (runOf (seen history)) (isHigh a)) := by rw [ih]; rfl
        _ = some (runOf (seen history ++ [a])) := by rw [runOf_concat]
    | reset =>
      obtain ⟨c, hc, -⟩ := Option.map_eq_some_iff.mp ih
      rw [after, reset, Mapper.lowRun?, Mapper.counter?_reset, hc]
      rfl

/-! ## 4. The stream -/

/-- What a restarted chip meets: an address of the picture unit, or a program that releases the
interrupt line and enables the interrupt again. -/
inductive StreamEvent where
  | address (a : UInt16)
  | acknowledge (released enabled : UInt8)
  deriving DecidableEq, Repr

namespace StreamEvent

/-- The address of an event, if it is one. -/
def address? : StreamEvent → Option UInt16
  | address a => some a
  | acknowledge .. => none

/-- What an event does to the board. -/
def operations : StreamEvent → List Operation
  | address a => [.observe a]
  | acknowledge v w => [.cpuWrite 0xE000 v, .cpuWrite 0xE001 w]

end StreamEvent

/-- The addresses in a stream. -/
def addresses (stream : List StreamEvent) : List UInt16 := stream.filterMap StreamEvent.address?

/-- The four writes that restart the counter from a latch value and let it interrupt. -/
def restart (value v w x : UInt8) : List Operation :=
  [.cpuWrite 0xC000 value, .cpuWrite 0xC001 v, .cpuWrite 0xE000 w, .cpuWrite 0xE001 x]

/-- **An interrupt is due**: since the last acknowledgement in the stream there was a rise whose
number, counted through the whole stream, is a multiple of the latch plus one. -/
def Due (past : List UInt16) (value : UInt8) (stream : List StreamEvent) : Prop :=
  ∃ earlier a later, stream = earlier ++ .address a :: later ∧
    (∀ e ∈ later, e.address?.isSome) ∧ IsRise (past ++ addresses earlier) a ∧
    value.toNat + 1 ∣ rises past (addresses earlier) + 1

/-- One event more: a rise may be due by itself, and an acknowledgement lets nothing stand. -/
theorem due_concat {past : List UInt16} {value : UInt8} {stream : List StreamEvent}
    {e : StreamEvent} :
    Due past value (stream ++ [e]) ↔
      e.address?.isSome ∧ Due past value stream ∨
        ∃ a, e = .address a ∧ IsRise (past ++ addresses stream) a ∧
          value.toNat + 1 ∣ rises past (addresses stream) + 1 := by
  constructor
  · rintro ⟨earlier, a, later, hsplit, hlater, hrise, hdvd⟩
    obtain rfl | ⟨rest, last, rfl⟩ := later.eq_nil_or_concat'
    · obtain ⟨rfl, he⟩ := List.append_inj' hsplit rfl
      exact .inr ⟨a, (List.cons.inj he).1, hrise, hdvd⟩
    · rw [← List.cons_append, ← List.append_assoc] at hsplit
      obtain ⟨rfl, he⟩ := List.append_inj' hsplit rfl
      obtain rfl := (List.cons.inj he).1
      refine .inl ⟨hlater e (by simp), earlier, a, rest, rfl, fun x hx => ?_, hrise, hdvd⟩
      exact hlater x (List.mem_append_left _ hx)
  · rintro (⟨he, earlier, a, later, rfl, hlater, hrise, hdvd⟩ | ⟨a, rfl, hrise, hdvd⟩)
    · refine ⟨earlier, a, later ++ [e], by simp, fun x hx => ?_, hrise, hdvd⟩
      obtain hx | hx := List.mem_append.mp hx
      · exact hlater x hx
      · rwa [List.mem_singleton.mp hx]
    · exact ⟨stream, a, [], rfl, by simp, hrise, hdvd⟩

/-- A board in the middle of a stream, since its counter was restarted. -/
structure Following (past : List UInt16) (value : UInt8) (stream : List StreamEvent)
    (c : ScanlineCounter) : Prop where
  lowRun : c.lowRun = runOf (past ++ addresses stream)
  restarted : Restarted value (rises past (addresses stream)) c
  pending : c.pending = true ↔ Due past value stream

section Following

variable {past : List UInt16} {value : UInt8} {stream : List StreamEvent} {b : Board}
  {c : ScanlineCounter}

/-- **An address on the stream**: it may be a rise, and then the counter steps. -/
theorem Following.address (h : Following past value stream c) (a : UInt16) :
    Following past value (stream ++ [.address a]) (c.observe a) := by
  have haddresses : addresses (stream ++ [.address a]) = addresses stream ++ [a] := by
    rw [addresses, List.filterMap_append]
    rfl
  have hcounts : counts c.lowRun (isHigh a) = true ↔ IsRise (past ++ addresses stream) a := by
    rw [h.lowRun, counts_iff_isRise]
  have hrun : runAfter c.lowRun (isHigh a) = runOf (past ++ (addresses stream ++ [a])) := by
    rw [← List.append_assoc, runOf_concat, h.lowRun]
  rw [observe_eq]
  by_cases hrise : IsRise (past ++ addresses stream) a
  · rw [if_pos (hcounts.mpr hrise)]
    obtain ⟨hrestarted, hpending⟩ := h.restarted.clock
    have hn : rises past (addresses stream ++ [a]) = rises past (addresses stream) + 1 := by
      rw [rises_concat, if_pos hrise]
    refine ⟨?_, ?_, ?_⟩
    · rw [haddresses, ← hrun]
    · rw [haddresses, hn]
      exact ⟨hrestarted.latch, hrestarted.enabled, hrestarted.reload, hrestarted.counter⟩
    · rw [due_concat]
      refine hpending.trans ?_
      rw [h.pending]
      simp [hrise, StreamEvent.address?]
  · rw [if_neg (mt hcounts.mp hrise)]
    have hn : rises past (addresses stream ++ [a]) = rises past (addresses stream) := by
      rw [rises_concat, if_neg hrise, Nat.add_zero]
    refine ⟨?_, ?_, ?_⟩
    · rw [haddresses, ← hrun]
    · rw [haddresses, hn]
      exact ⟨h.restarted.latch, h.restarted.enabled, h.restarted.reload, h.restarted.counter⟩
    · rw [due_concat]
      refine h.pending.trans ?_
      simp [hrise, StreamEvent.address?]

/-- **An acknowledgement** lets the line go, and the counter does not see it. -/
theorem Following.acknowledge (h : Following past value stream c) (v w : UInt8) :
    Following past value (stream ++ [.acknowledge v w]) c.disable.enable := by
  have haddresses : addresses (stream ++ [.acknowledge v w]) = addresses stream := by
    rw [addresses, List.filterMap_append]
    exact List.append_nil _
  refine ⟨?_, ?_, ?_⟩
  · rw [haddresses]
    exact h.lowRun
  · rw [haddresses]
    exact ⟨h.restarted.latch, rfl, h.restarted.reload, h.restarted.counter⟩
  · rw [due_concat]
    simp [StreamEvent.address?, disable, enable]

end Following

/-- What an event does to a board with a counter. -/
def StreamEvent.applied (c : ScanlineCounter) : StreamEvent → ScanlineCounter
  | .address a => c.observe a
  | .acknowledge .. => c.disable.enable

theorem counter?_operations {b : Board} {c : ScanlineCounter} (h : b.mapper.counter? = some c)
    (e : StreamEvent) : (b.run e.operations).mapper.counter? = some (e.applied c) := by
  obtain ⟨chips, mapper⟩ := b
  cases mapper with
  | mmc3 r =>
    obtain rfl : r.counter = c := Option.some.inj h
    cases e <;> rfl
  | _ => nomatch h

theorem counter?_restart {b : Board} {c : ScanlineCounter} (h : b.mapper.counter? = some c)
    (value v w x : UInt8) :
    (b.run (restart value v w x)).mapper.counter? =
      some (((c.setLatch value).requestReload.disable).enable) := by
  obtain ⟨chips, mapper⟩ := b
  cases mapper with
  | mmc3 r =>
    obtain rfl : r.counter = c := Option.some.inj h
    rfl
  | _ => nomatch h

/-- The counter starts anew, and the filter goes on as it was. -/
theorem following_restart {past : List UInt16} {c : ScanlineCounter} (h : c.lowRun = runOf past)
    (value : UInt8) :
    Following past value [] ((c.setLatch value).requestReload.disable).enable where
  lowRun := by
    rw [addresses, List.filterMap_nil, List.append_nil]
    exact h
  restarted := ⟨rfl, rfl, rfl, rfl⟩
  pending := by
    refine iff_of_false Bool.false_ne_true ?_
    rintro ⟨earlier, a, later, hsplit, -⟩
    exact List.append_ne_nil_of_right_ne_nil earlier (List.cons_ne_nil _ later) hsplit.symm

theorem following_run {past : List UInt16} {value : UInt8} {b : Board} {c : ScanlineCounter}
    (hb : b.mapper.counter? = some c) (h : Following past value [] c) (stream : List StreamEvent) :
    ∃ c', (b.run (stream.flatMap StreamEvent.operations)).mapper.counter? = some c' ∧
      Following past value stream c' := by
  induction stream using List.reverseRecOn with
  | nil => exact ⟨c, hb, h⟩
  | append_singleton stream e ih =>
    obtain ⟨c', hc, hfollow⟩ := ih
    refine ⟨e.applied c', ?_, ?_⟩
    · rw [List.flatMap_append, run_append, List.flatMap_singleton]
      exact counter?_operations hc e
    · cases e with
      | address a => exact hfollow.address a
      | acknowledge v w => exact hfollow.acknowledge v w

/-- **The interrupt of a counter on a stream of addresses.**  From every history of a board a
program restarts the counter.  Whatever the picture unit then does, and wherever the program
acknowledges, the interrupt line is asserted exactly if a rise has come since the last
acknowledgement whose number is a multiple of the latch plus one; and the counter has run down from
the latch at every rise, and round again.  What was low before the restart still counts. -/
theorem irq_of_rises (chips : Chips) (wired : Mirroring) (history : List Operation)
    (value v w x : UInt8) (stream : List StreamEvent) :
    let past := seen history
    let n := rises past (addresses stream)
    let b := (mmc3 chips wired).run
      (history ++ restart value v w x ++ stream.flatMap StreamEvent.operations)
    (b.irq = true ↔ Due past value stream) ∧
      b.mapper.counter?.map (fun c => c.counter.toNat) =
        some (if n = 0 then 0 else value.toNat - (n - 1) % (value.toNat + 1)) := by
  intro past n b
  obtain ⟨c, hc, hrun⟩ := Option.map_eq_some_iff.mp (lowRun?_run chips wired history)
  obtain ⟨c', hc', hfollow⟩ := following_run (counter?_restart hc value v w x)
    (following_restart hrun value) stream
  have hb : b.mapper.counter? = some c' := by
    rw [← hc', ← run_append, ← run_append, ← List.append_assoc]
  refine ⟨?_, ?_⟩
  · rw [Board.irq, Mapper.irq_eq hb, hfollow.pending]
  · rw [hb]
    exact congrArg some hfollow.restarted.counter

end Board

end Famicom
