/-
# Hexadecimal text

Addresses and bytes are written with a fixed number of upper-case digits, leading zeros included:
two digits for a byte and four for a word.  Listings, error messages and the register line of the
command line all use these two forms.
-/

namespace Famicom.Hex

/-- The digit for a value below sixteen. -/
def digit (n : Nat) : Char := (Nat.digitChar n).toUpper

/-- The two digits of a byte. -/
def byte (b : UInt8) : String :=
  String.ofList [digit (b.toNat / 16), digit (b.toNat % 16)]

/-- The four digits of a word. -/
def word (w : UInt16) : String :=
  byte (w >>> 8).toUInt8 ++ byte w.toUInt8

end Famicom.Hex
