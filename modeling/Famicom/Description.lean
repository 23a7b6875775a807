/-
# Descriptions for diagnosis

When something goes wrong on a console one wants to see a device whole.  These functions write a
device out on one line, in a fixed form: the name of the device and its fields between braces.
Numbers are decimal.  A byte of flags is written as the names of those that are set, and whatever
bits have no name as one number at the end.
-/
import Famicom.Mainboard

namespace Famicom.Description

/-- A device and its fields, with the last of the parts left open if `more` is set. -/
def device (name : String) (fields : List (String × String)) (more : Bool) : String :=
  let parts := fields.map fun (n, v) => n ++ ": " ++ v
  let parts := if more then parts ++ [".."] else parts
  name ++ " \x7b " ++ ", ".intercalate parts ++ " \x7d"

/-- A list of descriptions. -/
def list (items : List String) : String := "[" ++ ", ".intercalate items ++ "]"

/-- A number in lower-case hexadecimal, without leading zeros. -/
def hexNumber (n : Nat) : String := "0x" ++ String.ofList (Nat.toDigits 16 n)

/-- The names of the set bits, bit 0 first, and then the unnamed rest; `0x0` when nothing is set.
An empty name marks a bit without one. -/
def flags (type : String) (names : List String) (bits : UInt8) : String :=
  let isSet (i : Nat) : Bool := bits.toNat.testBit i
  let named := names.zipIdx.filter fun (n, i) => !n.isEmpty && isSet i
  let rest := names.zipIdx.foldl
    (fun r (n, i) => if n.isEmpty && isSet i then r + 1 <<< i else r) 0
  let parts := named.map (·.1) ++ (if rest = 0 then [] else [hexNumber rest])
  type ++ "(" ++ (if parts.isEmpty then "0x0" else " | ".intercalate parts) ++ ")"

/-- A truth value in words. -/
def bool (b : Bool) : String := if b then "true" else "false"

/-- An optional description. -/
def option : Option String → String
  | none => "None"
  | some d => "Some(" ++ d ++ ")"

/-! ## Devices -/

def mirroring : Mirroring → String
  | .horizontal => "Horizontal"
  | .vertical => "Vertical"
  | .singleLower => "SingleScreenLower"
  | .singleUpper => "SingleScreenUpper"
  | .fourScreen => "FourScreen"

def header (h : Header) : String :=
  device "InesHeader"
    [("version", if h.isVersion2 then "Ines2" else "Ines1"), ("mapper_id", toString h.mapper),
     ("prg_rom_len", toString h.prgRom), ("chr_rom_len", toString h.chrRom),
     ("prg_ram_len", toString h.prgRam), ("mirroring", mirroring h.mirroring),
     ("battery", bool h.battery), ("has_trainer", bool h.trainer), ("pal", bool h.pal)] false

def cartridge (c : Cartridge) : String :=
  device "Cartridge" [("header", header c.header), ("mirroring", mirroring c.mirroring)] false

def buttons (bits : UInt8) : String := flags "Buttons" Controller.buttonNames bits

def controller (c : Controller) : String :=
  device "Controller"
    [("buttons", buttons c.buttons), ("shift", toString c.shift.toNat),
     ("strobe", bool c.strobe), ("index", toString c.index)] false

def sound (s : SoundRegisters) : String :=
  device "Apu"
    [("regs", list (s.channels.toList.map fun b => toString b.toNat)),
     ("enabled", toString s.enabled.toNat), ("frame_counter", toString s.frameCounter.toNat)] false

def spriteDma (d : SpriteDma) : String :=
  device "DmaController"
    [("active", bool d.active), ("src_addr", toString d.source.toNat),
     ("index", toString d.index), ("phase", if d.loaded then "Write" else "Read"),
     ("latch", toString d.latch.toNat), ("align_cycles", toString d.alignment)] false

def workRam : String := device "Ram" [("len", "2048")] false

def nametables : String := device "NametableRam" [] true

def control (bits : UInt8) : String := flags "PpuCtrl" Ppu.Control.names bits

def mask (bits : UInt8) : String := flags "PpuMask" Ppu.Mask.names bits

def status (bits : UInt8) : String := flags "PpuStatus" Ppu.Status.names bits

def vramAddress (v : VramAddress) : String := "VramAddr(" ++ toString v.raw ++ ")"

def ppu (p : Ppu) : String :=
  device "Ppu"
    [("ctrl", control p.control.bits), ("mask", mask p.mask.bits), ("status", status p.status.bits),
     ("v", vramAddress p.v), ("t", vramAddress p.t), ("fine_x", toString p.fineX.val),
     ("scanline", toString p.raster.line), ("dot", toString p.raster.dot),
     ("frame_count", toString p.raster.frames)] true

def mainboard (m : Mainboard) : String :=
  device "Bus"
    [("ram", workRam), ("ppu", ppu m.ppu), ("vram", nametables), ("apu", sound m.sound),
     ("controllers", list [controller m.pad0, controller m.pad1]),
     ("cartridge", option (m.video.slot.map cartridge)), ("dma", spriteDma m.dma),
     ("cpu_cycle", toString m.cycle)] false

end Famicom.Description
