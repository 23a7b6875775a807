/-
# Cartridges and their images

A cartridge image is a sixteen-byte header, perhaps a 512-byte trainer that nothing here uses, the
program memory, and the pattern memory.  The header counts program memory in units of 16 KiB and
patterns in units of 8 KiB; an image that counts no patterns belongs to a board with pattern RAM.

Loading either yields a complete cartridge or the *first* thing that is wrong, in the order in
which the image is laid out: a header cut short, other magic bytes than the format's, no program
memory, a trainer, program or patterns cut short, and last a board that is not known.  Bytes after
the patterns are ignored.
-/
import Famicom.Board
import Famicom.FileError
import Famicom.Hex

namespace Famicom

/-! ## 1. What can be wrong with an image -/

/-- The parts of an image that can be cut short. -/
inductive Section where
  | header
  | trainer
  | prgRom
  | chrRom
  deriving DecidableEq, Repr

namespace Section

def name : Section → String
  | header => "header"
  | trainer => "trainer"
  | prgRom => "PRG ROM"
  | chrRom => "CHR ROM"

end Section

/-- Why an image cannot be made into a cartridge. -/
inductive LoadError where
  /-- The image does not start as the format does; `found` is how it starts. -/
  | invalidMagic (found : List UInt8)
  /-- A part of the image is shorter than declared. -/
  | truncated (part : Section) (needed available : Nat)
  /-- The header counts no program memory. -/
  | missingPrgRom
  /-- No board of this number is known. -/
  | unsupportedMapper (number : Nat)
  /-- The image cannot be read at all. -/
  | unreadable (path : String) (reason : FileError)
  deriving DecidableEq, Repr

/-- The words for a load error. -/
def LoadError.message : LoadError → String
  | invalidMagic found =>
    "invalid iNES magic, expected NES<1A> but found [" ++ ", ".intercalate (found.map Hex.byte)
      ++ "]"
  | truncated part needed available =>
    "image truncated: " ++ part.name ++ " needs " ++ toString needed ++ " bytes, only "
      ++ toString available ++ " available"
  | missingPrgRom => "image declares no PRG ROM"
  | unsupportedMapper number =>
    "unsupported mapper " ++ toString number
      ++ " (supported: 0 NROM, 1 MMC1, 2 UxROM, 4 MMC3)"
  | unreadable path reason => "error reading cartridge file " ++ path ++ ": " ++ reason.message

/-! ## 2. The header -/

/-- What a header declares. -/
structure Header where
  /-- Whether the header is of the second version; its extra fields are not read. -/
  isVersion2 : Bool
  mapper : Nat
  /-- Sizes in bytes. -/
  prgRom : Nat
  chrRom : Nat
  prgRam : Nat
  mirroring : Mirroring
  battery : Bool
  trainer : Bool
  pal : Bool
  deriving DecidableEq, Repr

namespace Header

def length : Nat := 16
def trainerLength : Nat := 512
def prgUnit : Nat := 16384
def chrUnit : Nat := 8192
def ramUnit : Nat := 8192

/-- How every image starts. -/
def magic : List UInt8 := [0x4E, 0x45, 0x53, 0x1A]

/-- The board has pattern RAM when the image counts no patterns. -/
def chrIsRam (h : Header) : Bool := h.chrRom == 0

/-- The fields of a header.  Its byte 8 counts work memory, and 0 there means one unit: images older
than that field leave it so. -/
def ofBytes (bytes : Nat → UInt8) : Header :=
  let flags6 := bytes 6
  let flags7 := bytes 7
  { isVersion2 := flags7 &&& 0x0C == 0x08
    mapper := flags7.toNat / 16 * 16 + flags6.toNat / 16
    prgRom := (bytes 4).toNat * prgUnit
    chrRom := (bytes 5).toNat * chrUnit
    prgRam := max (bytes 8).toNat 1 * ramUnit
    mirroring :=
      if flags6 &&& 0x08 != 0 then .fourScreen
      else if flags6 &&& 0x01 != 0 then .vertical
      else .horizontal
    battery := flags6 &&& 0x02 != 0
    trainer := flags6 &&& 0x04 != 0
    pal := bytes 9 &&& 0x01 != 0 }

/-- Reads the header of an image. -/
def parse (image : Chip) : Except LoadError Header :=
  if image.size < length then .error (.truncated .header length image.size)
  else
    let found := (List.range 4).map image.read
    if found ≠ magic then .error (.invalidMagic found)
    else .ok (ofBytes image.read)

end Header

/-! ## 3. Loading -/

/-- A cartridge: what its header declared, and its board. -/
structure Cartridge where
  header : Header
  board : Board

namespace Cartridge

/-- The `length` bytes of an image from `offset` on. -/
def take (image : Chip) (part : Section) (offset length : Nat) : Except LoadError Chip :=
  if image.size < offset + length then
    .error (.truncated part length (image.size - offset))
  else .ok (image.extract offset (offset + length))

/-- The board of a given number. -/
def board? (h : Header) (prg chr : Chip) : Except LoadError Board :=
  let chips := Chips.ofImages prg chr h.chrIsRam h.prgRam
  match h.mapper with
  | 0 => .ok (.nrom chips h.mirroring)
  | 1 => .ok (.mmc1 chips)
  | 2 => .ok (.uxrom chips h.mirroring)
  | 4 => .ok (.mmc3 chips h.mirroring)
  | n => .error (.unsupportedMapper n)

/-- Makes a cartridge of an image, or says what is wrong with it first. -/
def ofImage (image : Chip) : Except LoadError Cartridge := do
  let h ← Header.parse image
  if h.prgRom = 0 then throw .missingPrgRom
  let trainer := if h.trainer then Header.trainerLength else 0
  let _ ← take image .trainer Header.length trainer
  let prgStart := Header.length + trainer
  let prg ← take image .prgRom prgStart h.prgRom
  let chr ← take image .chrRom (prgStart + h.prgRom) h.chrRom
  let board ← board? h prg chr
  return { header := h, board }

/-- The mirroring the board has chosen by now. -/
@[inline] def mirroring (c : Cartridge) : Mirroring := c.board.mirroring

/-- The cartridge after a reset of its board. -/
def reset (c : Cartridge) : Cartridge := { c with board := c.board.reset }

end Cartridge

end Famicom
