import Octet.Terminal.Basic
import Octet.Text.Column

/-!
# Register tables

The registers and flags of a processor, in a framed table, or as one plain line each in minimal
mode.
-/
namespace Octet

open Text (padLeft padRight hexByte)

/-- A byte as a character, three columns wide. Characters that do not print have a name or a dimmed
dash. -/
def byteGlyph (byte : UInt8) : String :=
  match byte.toNat with
  | 0x00 => "NUL"
  | 0x09 => "HT "
  | 0x0a => "LF "
  | 0x0d => "CR "
  | 0x7f => "DEL"
  | 0x20 => "[_]"
  | n =>
    if n < 0x20 then "\x1b[2m───\x1b[0m"
    else if n < 0x7f then padRight 3 ' ' (String.ofList [Char.ofNat n])
    else "\x1b[2m┄┄┄\x1b[0m"

/-- A flag as one digit. -/
def flagDigit (flag : Bool) : String := if flag then "1" else "0"

namespace Terminal

/-- Print texts one after the other. -/
def printAll (terminal : Terminal) (channel : Channel) (texts : List String) : Terminal :=
  texts.foldl (·.print channel ·) terminal

/-- The pieces in which a byte is printed: as hexadecimal and decimal number and as character. -/
def integerPieces (minimal : Bool) (byte : UInt8) : List String :=
  if minimal then [toString byte.toNat]
  else
    ["0x" ++ hexByte byte.toNat ++ "  ", padLeft 4 ' ' (toString byte.toNat) ++ "  ",
      byteGlyph byte]

def printInteger (terminal : Terminal) (channel : Channel) (byte : UInt8) : Terminal :=
  terminal.printAll channel (integerPieces terminal.minimal byte)

/-- One line for each register, and the flags as two digits. -/
def plainLines (cpu : Cpu) : List String :=
  (cpu.general.toList.zipIdx.map fun (byte, i) => s!"R{i} {byte}\n") ++
    [s!"SP {cpu.sp}\n", s!"IP {cpu.ip}\n", s!"ZC {flagDigit cpu.zero}{flagDigit cpu.carry}\n"]

/-- A row of the table that shows a byte under a name. -/
def tableRow (name : String) (byte : UInt8) : List String :=
  ["\x1b[2m│\x1b[0m", s!" \x1b[1m{name}\x1b[0m  "] ++ integerPieces false byte ++
    [" \x1b[2m│\x1b[0m\n"]

def tablePieces (cpu : Cpu) : List String :=
  ["\x1b[2m┌───────────────────────────┐\x1b[0m\n",
    "\x1b[2m│        \x1b[3mhex  uint  char\x1b[0m\x1b[2m    │\x1b[0m\n"] ++
  (cpu.general.toList.zipIdx.flatMap fun (byte, i) => tableRow s!"R{i}" byte) ++
  tableRow "SP" (UInt8.ofNat cpu.sp) ++
  ["\x1b[2m│\x1b[0m", " \x1b[1mIP\x1b[0m  0x" ++ hexByte cpu.ip,
    s!"      \x1b[1mZ\x1b[0m {flagDigit cpu.zero} \x1b[1mC\x1b[0m {flagDigit cpu.carry}",
    "  \x1b[2m│\x1b[0m\n", "\x1b[2m└───────────────────────────┘\x1b[0m\n"]

/-- Show the registers on lines of their own. -/
def printRegisters (terminal : Terminal) (channel : Channel) (cpu : Cpu) : Terminal :=
  let terminal := terminal.startLine channel
  terminal.printAll channel (if terminal.minimal then plainLines cpu else tablePieces cpu)

end Terminal

end Octet
