/-
# The program

Reads the file that the arguments name, and writes out what `CommandLine` makes of it.
-/
import Famicom.CommandLine

namespace Famicom.Main

/-- Why a file could not be read.  The runtime hands some of the system's numbers on with their sign
changed, as words of 32 bits. -/
def refusal : IO.Error → FileError
  | .alreadyExists _ code words | .invalidArgument _ code words | .permissionDenied _ code words
  | .resourceExhausted _ code words | .inappropriateType _ code words
  | .noSuchThing _ code words | .interrupted _ code words | .noFileOrDirectory _ code words
  | .otherError code words | .resourceBusy code words | .resourceVanished code words
  | .unsupportedOperation code words | .hardwareFault code words
  | .unsatisfiedConstraints code words | .illegalOperation code words
  | .protocolError code words | .timeExpired code words =>
    .ofCode (if code < 0x80000000 then code else 0 - code).toNat words
  | .unexpectedEof => .ofCode 0 "unexpected end of file"
  | .userError words => .ofCode 0 words

/-- The bytes of a file, or why there are none. -/
def readImage (path : String) : IO (Except FileError Chip) := do
  match ← (IO.FS.readBinFile path).toBaseIO with
  | .ok bytes => return .ok bytes.data
  | .error e => return .error (refusal e)

end Famicom.Main

open Famicom in
def main (args : List String) : IO UInt32 := do
  let outcome ← match CommandLine.parse args with
    | .error e => pure (CommandLine.refuse e)
    | .ok o => pure (CommandLine.execute o (← Main.readImage o.rom))
  IO.print outcome.stdout
  IO.eprint outcome.stderr
  return .ofNat outcome.exit
