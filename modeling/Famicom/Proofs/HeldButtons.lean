/-
# The buttons that a controller reports

While its strobe is high a controller answers every read with the button A as it is, and a peek
always announces the answer of the next read.  Once the strobe has fallen, the reads shift out eight
held bits and then ones, whatever is pressed or peeked at meanwhile.  The question is which buttons
are held.

**They are those that the register took last** (`exists_lastTaken`), and it takes them when the
strobe is written high and when it is read while high.  The write that drops the strobe takes
nothing.  So a controller reports the buttons held when the strobe falls exactly if they are what
the register took last (`reports_held_iff`): a button that is pressed under a high strobe and not
taken before it falls goes unreported (`not_reports_button_pressed_late`).
-/
import Famicom.Controller
import Mathlib.Data.List.Induction

namespace Famicom.Controller

/-! ## 1. What is done to a controller -/

/-- What is done to a controller. -/
inductive Operation where
  | setButtons (buttons : UInt8)
  | setButton (mask : UInt8) (pressed : Bool)
  | strobe (value : UInt8)
  | read
  | peek
  deriving DecidableEq, Repr

/-- The controller after an operation. -/
def after (c : Controller) : Operation → Controller
  | .setButtons buttons => c.setButtons buttons
  | .setButton mask pressed => c.setButton mask pressed
  | .strobe v => c.writeStrobe v
  | .read => c.read.2
  | .peek => c

/-- The controller after a history. -/
def run (c : Controller) (history : List Operation) : Controller := history.foldl after c

theorem run_append (c : Controller) (first second : List Operation) :
    c.run (first ++ second) = (c.run first).run second := List.foldl_append

theorem run_concat (c : Controller) (history : List Operation) (op : Operation) :
    c.run (history ++ [op]) = (c.run history).after op := run_append c history [op]

/-- The operation writes a high strobe. -/
def Operation.raises : Operation → Bool
  | strobe v => v &&& 1 != 0
  | _ => false

/-- The operation changes buttons, or looks without reading. -/
def Operation.isQuiet : Operation → Bool
  | setButtons _ | setButton .. | peek => true
  | strobe _ | read => false

/-- In this operation the register takes the buttons. -/
def takes (c : Controller) (op : Operation) : Bool :=
  op.raises || (c.strobe && op == .read)

/-! ## 2. Reads with the strobe low -/

/-- The answer of a read that so many others have gone before, while these buttons are held. -/
def serialBit (buttons : UInt8) (n : Nat) : UInt8 :=
  if n < 8 then bitOf (buttons.toNat.testBit n) else 1

theorem shiftRight_and_one (b : UInt8) {n : Nat} (hn : n < 8) :
    (b >>> .ofNat n) &&& 1 = bitOf (b.toNat.testBit n) := by
  have hshift : (UInt8.ofNat n).toNat % 8 = n := by
    rw [UInt8.toNat_ofNat', Nat.mod_eq_of_lt (by omega : n < 2 ^ 8), Nat.mod_eq_of_lt hn]
  apply UInt8.toNat_inj.mp
  rw [UInt8.toNat_and, UInt8.toNat_shiftRight, hshift, Nat.shiftRight_eq_div_pow,
    Nat.testBit_eq_decide_div_mod_eq]
  change b.toNat / 2 ^ n &&& 1 = _
  rw [Nat.and_one_is_mod]
  by_cases h : b.toNat / 2 ^ n % 2 = 1
  · rw [h, decide_eq_true rfl]
    rfl
  · rw [decide_eq_false h]
    change _ = 0
    omega

/-- The register shifts out its bits from the lowest on, and then ones. -/
theorem shifted_eq (c : Controller) : c.shifted = serialBit c.shift c.index := by
  rw [shifted, serialBit]
  by_cases h : c.index < 8
  · rw [if_neg (by omega), if_pos h, shiftRight_and_one c.shift h]
  · rw [if_pos (by omega), if_neg h]

/-- The strobe is low, these buttons are held, and so many of them have been read. -/
structure Holding (buttons : UInt8) (n : Nat) (c : Controller) : Prop where
  low : c.strobe = false
  held : c.shift = buttons
  index : c.index = min n 8

namespace Holding

variable {buttons : UInt8} {n : Nat} {c : Controller}

theorem read_fst (h : Holding buttons n c) : c.read.1 = serialBit buttons n := by
  rw [Controller.read_fst, peek, h.low, if_neg Bool.false_ne_true, shifted_eq, h.held, h.index,
    serialBit, serialBit]
  by_cases hn : n < 8
  · rw [Nat.min_eq_left (by omega)]
  · rw [Nat.min_eq_right (by omega), if_neg hn, if_neg (by decide)]

/-- A read moves on by one bit. -/
theorem read_snd (h : Holding buttons n c) : Holding buttons (n + 1) c.read.2 := by
  have hindex := h.index
  have hlow : ¬c.strobe = true := by simp [h.low]
  rw [Controller.read, if_neg hlow]
  by_cases hend : 8 ≤ c.index
  · rw [if_pos hend]
    refine ⟨h.low, h.held, ?_⟩
    change c.index = _
    omega
  · rw [if_neg hend]
    refine ⟨h.low, h.held, ?_⟩
    change c.index + 1 = _
    omega

/-- Only a high strobe ends it. -/
theorem after (h : Holding buttons n c) {op : Operation} (hop : op.raises = false) :
    Holding buttons (n + [op].count .read) (c.after op) := by
  cases op with
  | setButtons b => exact ⟨h.low, h.held, h.index⟩
  | setButton mask pressed => exact ⟨h.low, h.held, h.index⟩
  | strobe v =>
    have hv : (v &&& 1 != 0) = false := hop
    simp only [Controller.after, writeStrobe, hv, Bool.false_eq_true, if_false]
    exact ⟨rfl, h.held, h.index⟩
  | read => exact h.read_snd
  | peek => exact h

theorem run (h : Holding buttons n c) {later : List Operation}
    (hlater : ∀ op ∈ later, op.raises = false) :
    Holding buttons (n + later.count .read) (c.run later) := by
  induction later generalizing n c with
  | nil => exact h
  | cons op later ih =>
    obtain ⟨hop, hrest⟩ := List.forall_mem_cons.mp hlater
    have hcount : (op :: later).count .read = [op].count .read + later.count .read := by
      rw [← List.singleton_append, List.count_append]
    rw [hcount, ← Nat.add_assoc]
    exact ih (h.after hop) hrest

end Holding

/-- Until the strobe is high again, the reads of this controller answer with these buttons in turn,
and then with ones. -/
def Reports (c : Controller) (buttons : UInt8) : Prop :=
  ∀ later : List Operation, (∀ op ∈ later, op.raises = false) →
    (c.run later).read.1 = serialBit buttons (later.count .read)

theorem Holding.reports {buttons : UInt8} {c : Controller} (h : Holding buttons 0 c) :
    c.Reports buttons := by
  intro later hlater
  rw [(h.run hlater).read_fst, Nat.zero_add]

/-- Eight reads tell the buttons apart. -/
theorem Reports.unique {c : Controller} {a b : UInt8} (ha : c.Reports a) (hb : c.Reports b) :
    a = b := by
  have hbit : ∀ n, n < 8 → a.toNat.testBit n = b.toNat.testBit n := by
    intro n hn
    have hquiet : ∀ op ∈ List.replicate n Operation.read, op.raises = false := by
      intro op hop
      rw [(List.mem_replicate.mp hop).2]
      rfl
    have hsame := (ha _ hquiet).symm.trans (hb _ hquiet)
    rw [List.count_replicate_self, serialBit, serialBit, if_pos hn, if_pos hn] at hsame
    revert hsame
    cases a.toNat.testBit n <;> cases b.toNat.testBit n <;> decide
  apply UInt8.toNat_inj.mp
  apply Nat.eq_of_testBit_eq
  intro n
  by_cases hn : n < 8
  · exact hbit n hn
  · have hlarge : 2 ^ 8 ≤ 2 ^ n := Nat.pow_le_pow_right (by decide) (by omega)
    rw [Nat.testBit_lt_two_pow (Nat.lt_of_lt_of_le a.toNat_lt hlarge),
      Nat.testBit_lt_two_pow (Nat.lt_of_lt_of_le b.toNat_lt hlarge)]

/-! ## 3. What the register took last -/

/-- These are the buttons that the register took last: an operation of the history took them, and
behind it nothing was strobed or read. -/
def LastTaken (history : List Operation) (buttons : UInt8) : Prop :=
  ∃ first op quiet, history = first ++ op :: quiet ∧ takes (run {} first) op = true ∧
    (∀ x ∈ quiet, x.isQuiet = true) ∧ (run {} (first ++ [op])).buttons = buttons

theorem after_takes {c : Controller} {op : Operation} (h : takes c op = true) :
    (c.after op).shift = (c.after op).buttons ∧ (c.after op).index = 0 := by
  cases op with
  | strobe v =>
    have hv : (v &&& 1 != 0) = true := by simpa [takes, Operation.raises] using h
    simp only [after, writeStrobe, hv, if_true, take, and_self]
  | read =>
    have hhigh : c.strobe = true := by simpa [takes, Operation.raises] using h
    simp only [after, read, hhigh, if_true, take, and_self]
  | _ => simp [takes, Operation.raises] at h

/-- An operation that takes nothing and leaves the strobe high has found it high, and is quiet. -/
theorem after_not_takes {c : Controller} {op : Operation} (h : takes c op = false)
    (hhigh : (c.after op).strobe = true) :
    c.strobe = true ∧ op.isQuiet = true ∧ (c.after op).shift = c.shift ∧
      (c.after op).index = c.index := by
  cases op with
  | strobe v =>
    have hv : (v &&& 1 != 0) = false := by simpa [takes, Operation.raises] using h
    simp [after, writeStrobe, hv] at hhigh
  | read =>
    have hlow : c.strobe = false := by simpa [takes, Operation.raises] using h
    have hkept : c.read.2.strobe = c.strobe := by
      simp only [read, hlow, Bool.false_eq_true, if_false]
      split <;> simp [hlow]
    have : c.read.2.strobe = true := hhigh
    rw [hkept, hlow] at this
    cases this
  | setButtons b => exact ⟨hhigh, rfl, rfl, rfl⟩
  | setButton mask pressed => exact ⟨hhigh, rfl, rfl, rfl⟩
  | peek => exact ⟨hhigh, rfl, rfl, rfl⟩

/-- **With the strobe high the register holds the buttons that it took last**, and has shifted none
of them out. -/
theorem exists_lastTaken {history : List Operation} (hhigh : (run {} history).strobe = true) :
    LastTaken history (run {} history).shift ∧ (run {} history).index = 0 := by
  induction history using List.reverseRecOn with
  | nil => cases hhigh
  | append_singleton history op ih =>
    rw [run_concat] at hhigh ⊢
    by_cases htakes : takes (run {} history) op = true
    · obtain ⟨hshift, hindex⟩ := after_takes htakes
      refine ⟨⟨history, op, [], rfl, htakes, by simp, ?_⟩, hindex⟩
      rw [run_concat, hshift]
    · obtain ⟨hbefore, hquiet, hshift, hindex⟩ :=
        after_not_takes (Bool.not_eq_true _ |>.mp htakes) hhigh
      obtain ⟨⟨first, last, quiet, hsplit, hlast, hall, hbuttons⟩, hzero⟩ := ih hbefore
      rw [hshift, hindex]
      refine ⟨⟨first, last, quiet ++ [op], ?_, hlast, ?_, hbuttons⟩, hzero⟩
      · rw [hsplit, List.append_assoc, List.cons_append]
      · intro x hx
        obtain hx | hx := List.mem_append.mp hx
        · exact hall x hx
        · rw [List.mem_singleton.mp hx, hquiet]

/-- The write that drops the strobe takes nothing. -/
theorem holding_fall {c : Controller} (hindex : c.index = 0) {v : UInt8} (hv : v &&& 1 = 0) :
    Holding c.shift 0 (c.after (.strobe v)) := by
  have hlow : (v &&& 1 != 0) = false := by rw [hv]; rfl
  simp only [after, writeStrobe, hlow, Bool.false_eq_true, if_false]
  exact ⟨rfl, rfl, hindex⟩

/-! ## 4. All histories -/

/-- **What a controller reports, after whatever history.**

* A peek announces the answer of the next read.
* With the strobe high a read answers with the button A as it is.
* From where the strobe falls, the reads report the buttons that the register took last.  These are
  the buttons held where it falls exactly if the reads report those. -/
theorem reports_held_iff (history : List Operation) :
    let c := run {} history
    c.peek = c.read.1 ∧
      (c.strobe = true →
        c.read.1 = serialBit c.buttons 0 ∧
          ∃ taken, LastTaken history taken ∧
            ∀ v, v &&& 1 = 0 →
              (c.after (.strobe v)).Reports taken ∧
                ((c.after (.strobe v)).Reports c.buttons ↔ taken = c.buttons)) := by
  intro c
  refine ⟨(read_fst c).symm, fun hhigh => ⟨?_, c.shift, ?_⟩⟩
  · rw [read_fst, peek, hhigh, if_pos rfl]
    exact shiftRight_and_one c.buttons (n := 0) (by decide)
  · obtain ⟨htaken, hindex⟩ := exists_lastTaken hhigh
    refine ⟨htaken, fun v hv => ?_⟩
    have hreports : (c.after (.strobe v)).Reports c.shift := (holding_fall hindex hv).reports
    refine ⟨hreports, fun hheld => hreports.unique hheld, fun hsame => ?_⟩
    rw [← hsame]
    exact hreports

/-- A button that is pressed under a high strobe, and not taken before the strobe falls, is held
where it falls and goes unreported. -/
theorem not_reports_button_pressed_late :
    let c := run {} [.strobe 1, .setButtons 1]
    c.strobe = true ∧ c.buttons = 1 ∧ (c.after (.strobe 0)).read.1 = 0 ∧
      ¬(c.after (.strobe 0)).Reports c.buttons := by
  intro c
  refine ⟨by decide, by decide, by decide, fun h => ?_⟩
  exact absurd (h [] (by simp)) (by decide)

end Famicom.Controller
