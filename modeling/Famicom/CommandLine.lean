/-
# The command line

The program loads a cartridge image, runs it without a screen for a number of frames, and says where
the processor has got to.  On request it first lists the routine at the reset vector.

    -r, --rom PATH            the image; it must be given
    -f, --frames COUNT        frames to run, 60 if not given
    -d, --disassemble COUNT   instructions to list before running
    -l, --log-level LEVEL     error, warn, info, debug or trace
    -s, --screenshot PATH     where to write the last frame

A value follows its option, or is attached to it: `-f 2`, `-f2`, `--frames=2`.  The argument `--`
ends the options, and nothing may come after it.  Pictures cannot be written; asking for one runs
the program and then fails.

Everything here is a function of the arguments and of the one file they name, so the whole program
is its `Outcome`.
-/
import Famicom.Console
import Famicom.Description

namespace Famicom.CommandLine

/-! ## 1. Options -/

/-- What the arguments ask for. -/
structure Options where
  rom : String
  frames : Nat
  listing : Option Nat
  screenshot : Option String
  deriving DecidableEq, Repr

/-- The options there are. -/
inductive Key where
  | rom
  | frames
  | logLevel
  | disassemble
  | screenshot
  deriving DecidableEq, Repr

namespace Key

/-- The option a letter names. -/
def ofLetter? : Char → Option Key
  | 'r' => some rom
  | 'f' => some frames
  | 'l' => some logLevel
  | 'd' => some disassemble
  | 's' => some screenshot
  | _ => none

/-- The option a word names. -/
def ofWord? : String → Option Key
  | "rom" => some rom
  | "frames" => some frames
  | "log-level" => some logLevel
  | "disassemble" => some disassemble
  | "screenshot" => some screenshot
  | _ => none

/-- The word that names an option. -/
def word : Key → String
  | rom => "--rom"
  | frames => "--frames"
  | logLevel => "--log-level"
  | disassemble => "--disassemble"
  | screenshot => "--screenshot"

end Key

/-- Why arguments cannot be understood. -/
inductive UsageError where
  | unexpectedArgument (argument : String)
  | missingValue (key : Key)
  | invalidValue (key : Key) (value : String)
  | repeated (key : Key)
  | missing (key : Key)
  deriving DecidableEq, Repr

/-- The words for a usage error. -/
def UsageError.message : UsageError → String
  | unexpectedArgument argument => "unexpected argument: " ++ argument
  | missingValue key => "a value is required for " ++ key.word
  | invalidValue key value => "invalid value for " ++ key.word ++ ": " ++ value
  | repeated key => key.word ++ " was given more than once"
  | missing key => key.word ++ " is required"

/-- An option and the value attached to it, if one is. -/
def splitArgument (arg : String) : Option (Key × Option String) :=
  match arg.toList with
  | '-' :: '-' :: word =>
    let name := word.takeWhile (· != '=')
    let value := match word.dropWhile (· != '=') with
      | _ :: rest => some (String.ofList rest)
      | [] => none
    (Key.ofWord? (String.ofList name)).map (·, value)
  | '-' :: letter :: attached =>
    let value := match attached with
      | [] => none
      | '=' :: rest => some (String.ofList rest)
      | rest => some (String.ofList rest)
    (Key.ofLetter? letter).map (·, value)
  | _ => none

/-- True of an argument that cannot be the value of the option before it.  A lone hyphen can. -/
def isHyphenated (arg : String) : Bool :=
  match arg.toList with
  | '-' :: _ :: _ => true
  | _ => false

/-- The argument that ends the options. -/
def endOfOptions : String := "--"

/-- The options given, in order, each with its value. -/
def gather : List String → Except UsageError (List (Key × String))
  | [] => .ok []
  | arg :: rest =>
    match splitArgument arg with
    | none =>
      if arg = endOfOptions then
        match rest with
        | [] => .ok []
        | extra :: _ => .error (.unexpectedArgument extra)
      else .error (.unexpectedArgument arg)
    | some (key, some value) => return (key, value) :: (← gather rest)
    | some (key, none) =>
      match rest with
      | [] => .error (.missingValue key)
      | value :: rest =>
        if isHyphenated value then .error (.missingValue key)
        else return (key, value) :: (← gather rest)

/-- A count that fits in 64 bits, with an optional plus sign. -/
def count? (text : String) : Option Nat :=
  let digits := match text.toList with
    | '+' :: rest => rest
    | all => all
  if digits.isEmpty || !digits.all Char.isDigit then none
  else
    let n := digits.foldl (fun n c => n * 10 + (c.toNat - '0'.toNat)) 0
    if n < UInt64.size then some n else none

/-- The names of the log levels, of which none changes what the program writes. -/
def logLevels : List String := ["error", "warn", "info", "debug", "trace"]

/-- The value of an option, which may be given once. -/
def single (given : List (Key × String)) (key : Key) : Except UsageError (Option String) :=
  match given.filter (·.1 = key) with
  | [] => .ok none
  | [(_, value)] => .ok (some value)
  | _ => .error (.repeated key)

/-- The count an option asks for, if it is given. -/
def counted (given : List (Key × String)) (key : Key) : Except UsageError (Option Nat) := do
  let some value ← single given key | return none
  let some n := count? value | throw (.invalidValue key value)
  return some n

/-- The path an option names, if it is given. -/
def path (given : List (Key × String)) (key : Key) : Except UsageError (Option String) := do
  let some value ← single given key | return none
  if value.isEmpty then throw (.invalidValue key value)
  return some value

/-- Frames to run if the arguments do not say. -/
def defaultFrames : Nat := 60

/-- Reads the arguments. -/
def parse (args : List String) : Except UsageError Options := do
  let given ← gather args
  let some rom ← path given .rom | throw (.missing .rom)
  let frames ← counted given .frames
  let listing ← counted given .disassemble
  let screenshot ← path given .screenshot
  if let some level ← single given .logLevel then
    if !logLevels.contains level then throw (.invalidValue .logLevel level)
  return { rom, frames := frames.getD defaultFrames, listing, screenshot }

/-! ## 2. The program -/

/-- What a run of the program leaves. -/
structure Outcome where
  exit : Nat
  stdout : String
  stderr : String
  deriving DecidableEq, Repr

/-- A run that ended in an error. -/
def failure (exit : Nat) (stdout message : String) : Outcome :=
  { exit, stdout, stderr := "error: " ++ message ++ "\n" }

/-- A text of several lines. -/
def lines (ls : List String) : String := String.join (ls.map (· ++ "\n"))

/-- What is said about a cartridge. -/
def cartridgeReport (path : String) (c : Cartridge) : String :=
  lines
    ["Loaded " ++ path ++ ":",
     "  Mapper:    " ++ toString c.header.mapper,
     "  Mirroring: " ++ Description.mirroring c.mirroring,
     "  Battery:   " ++ Description.bool c.header.battery]

/-- The listing of the routine at the reset vector. -/
def listingReport (c : Console Unit) (count : Nat) : String :=
  let start := c.board.peekWord Cpu.resetVector
  lines ("" :: "Reset routine:" :: (c.listing start count).map ("  " ++ ·))

/-- Where the processor has got to. -/
def finalReport (frames : Nat) (cpu : Cpu) : String :=
  let r := cpu.regs
  lines
    (["", "Completed " ++ toString frames ++ " frames.",
      "  PC: $" ++ Hex.word r.pc ++ "  A: $" ++ Hex.byte r.a ++ "  X: $" ++ Hex.byte r.x
        ++ "  Y: $" ++ Hex.byte r.y ++ "  SP: $" ++ Hex.byte r.sp ++ "  P: $"
        ++ Hex.byte r.status,
      "  CPU cycles: " ++ toString cpu.cycles]
      ++ if cpu.isJammed then ["  CPU is jammed"] else [])

/-- Why a picture is not written. -/
def noScreenshot (path : String) : String :=
  "cannot write " ++ path ++ ": built without the " ++ "\x60screenshot\x60 feature"

/-- The program, once its options are known: `file` is what reading the image brought, the bytes or
the reason why there are none. -/
def execute (o : Options) (file : Except FileError Chip) : Outcome :=
  let loaded := match file with
    | .ok image => Cartridge.ofImage image
    | .error reason => .error (.unreadable o.rom reason)
  match loaded with
  | .error e => failure 1 "" e.message
  | .ok cartridge =>
    let console := Console.withCartridge () cartridge
    let listing := (o.listing.map (listingReport console)).getD ""
    let console := console.runFrames o.frames
    let stdout := cartridgeReport o.rom cartridge ++ listing ++ finalReport o.frames console.cpu
    match o.screenshot with
    | some path => failure 1 stdout (noScreenshot path)
    | none => { exit := 0, stdout, stderr := "" }

/-- The program, given arguments that cannot be understood. -/
def refuse (e : UsageError) : Outcome := failure 2 "" e.message

/-- The whole program, given what each path holds. -/
def run (files : String → Except FileError Chip) (args : List String) : Outcome :=
  match parse args with
  | .error e => refuse e
  | .ok o => execute o (files o.rom)

end Famicom.CommandLine
