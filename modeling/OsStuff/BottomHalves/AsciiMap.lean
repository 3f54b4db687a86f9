import Mathlib.Tactic

/-!
# Scancodes of the two keyboard modules

`ascii_map` and the masks, which `tasklet/main.c` and `wq/main.c` share word for
word.  A key is the text that is printed for it.
-/

namespace OsStuff
namespace BottomHalves

abbrev Scancode := BitVec 8

def irqNumber : Int := 1

def kbdStatusMask : Scancode := 0x80
def kbdScancodeMask : Scancode := 0x7f

def asciiMap : List String :=
  ["[ESC]", "1", "2", "3", "4", "5", "6", "7", "8", "9", "0", "-", "=", "[BACKSPACE]",
    "[Tab]", "Q", "W", "E", "R", "T", "Y", "U", "I", "O", "P", "[", "]", "[Enter]", "[CTRL]",
    "A", "S", "D", "F", "G", "H", "J", "K", "L", ";", "'", "`", "[LShift]", "\\",
    "Z", "X", "C", "V", "B", "N", "M", ",", ".", "/",
    "[RShift]", "[PrtSc]", "[Alt]", "[SPACE]", "[Caps]",
    "F1", "F2", "F3", "F4", "F5", "F6", "F7", "F8", "F9", "F10", "[Num]", "[Scroll]", "[Home(7)]",
    "[Up(8)]", "[PgUp(9)]", "-", "[Left(4)]", "[Center(5)]", "[Right(6)]", "+",
    "[End(1)]", "[Down(2)]", "[PgDn(3)]", "[Ins]", "[Del]"]

/-- `ascii_map[index]`, or nothing outside the table. -/
def asciiMapAt (index : Int) : Option String :=
  if 0 ≤ index then asciiMap[index.toNat]? else none

/-- The text for a scancode. -/
def key (scancode : Scancode) : Option String :=
  asciiMapAt ((scancode &&& kbdScancodeMask).toNat - 1)

/-- The scancode of a press. -/
def isPress (scancode : Scancode) : Bool :=
  scancode &&& kbdStatusMask = 0

/-- The scancodes that the table covers. -/
def Covered (scancode : Scancode) : Prop :=
  1 ≤ (scancode &&& kbdScancodeMask).toNat ∧ (scancode &&& kbdScancodeMask).toNat ≤ 83

end BottomHalves
end OsStuff
