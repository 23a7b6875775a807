/-
# What was said last

What a device keeps can often be told from its history: a byte is what the last write brought to it,
and a gate stands as the last write to its register has left it.  Which write that is may depend on
when it comes.  One and the same write is taken at one time and dropped at another, so it is asked
about together with what came before it.

`moments` are the entries of a history, each with what came before it, and `latest f` is what `f`
says of the last of them of which it says anything.  **One more entry overrides what was said before
it, or leaves that standing** (`latest_concat`).
-/
import Mathlib.Data.List.Basic
import Mathlib.Data.List.Induction

namespace Famicom

variable {α β : Type}

/-- The entries of a history, each with what came before it. -/
def moments : List α → List (List α × α)
  | [] => []
  | x :: later => ([], x) :: (moments later).map fun m => (x :: m.1, m.2)

theorem moments_concat (history : List α) (x : α) :
    moments (history ++ [x]) = moments history ++ [(history, x)] := by
  induction history with
  | nil => rfl
  | cons y history ih => simp [moments, ih]

/-- What `f` says of the last entry of which it says anything.  It is told what came before the
entry. -/
def latest (f : List α → α → Option β) (history : List α) : Option β :=
  ((moments history).filterMap fun m => f m.1 m.2).getLast?

variable {f : List α → α → Option β}

@[simp] theorem latest_nil : latest f [] = none := rfl

/-- **The last entry overrides what was said before it**, if anything is said of it. -/
theorem latest_concat (history : List α) (x : α) :
    latest f (history ++ [x]) = (f history x).or (latest f history) := by
  rw [latest, moments_concat, List.filterMap_append]
  cases h : f history x <;> simp [latest, h]

/-- Of a write that counts only at times, the last that counted is what stands. -/
example : latest (fun before n => if before.length % 2 = 0 then some n else none) [5, 6, 7, 8] =
    some 7 := by decide

end Famicom
