/-
# Why a file cannot be read

The system refuses with a number, and the number stands for a cause.  A message gives both: the
words for the cause, and then the number, so that an unusual one can be looked up.

The words for the causes that a path can bring about are fixed here.  For any other number the
system's own words are taken (`FileError.ofCode`).
-/

namespace Famicom

/-- A refusal of the system: its number, and the words for it. -/
structure FileError where
  code : Nat
  words : String
  deriving DecidableEq, Repr

namespace FileError

/-! ## 1. Causes -/

/-- The path leads nowhere. -/
def missing : FileError := ⟨2, "No such file or directory"⟩

/-- The reader has no right to the file. -/
def permissionDenied : FileError := ⟨13, "Permission denied"⟩

/-- The path goes on past a file. -/
def notDirectory : FileError := ⟨20, "Not a directory"⟩

/-- The path ends at a directory. -/
def isDirectory : FileError := ⟨21, "Is a directory"⟩

/-- The path, or a name in it, is longer than the system takes. -/
def nameTooLong : FileError := ⟨36, "File name too long"⟩

/-- The path goes round in links. -/
def tooManyLinks : FileError := ⟨40, "Too many levels of symbolic links"⟩

/-- The causes whose words are fixed. -/
def known : List FileError :=
  [missing, permissionDenied, notDirectory, isDirectory, nameTooLong, tooManyLinks]

/-- The refusal of a given number; `words` serve if the number is not a known one. -/
def ofCode (code : Nat) (words : String) : FileError :=
  (known.find? (·.code = code)).getD ⟨code, words⟩

/-! ## 2. Words -/

/-- The words for a refusal. -/
def message (e : FileError) : String := e.words ++ " (os error " ++ toString e.code ++ ")"

/-- The number that was asked for is the number that is reported. -/
theorem code_ofCode (code : Nat) (words : String) : (ofCode code words).code = code := by
  simp only [ofCode]
  cases h : known.find? (·.code = code) with
  | none => rfl
  | some e => simpa using List.find?_some h

end FileError

end Famicom
