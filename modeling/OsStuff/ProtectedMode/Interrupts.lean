import Mathlib.Tactic

/-!
# `protected_mode.asm`: `new_08` and `new_09`

The interrupt handlers.  The code segments have 16-bit operands, so an
instruction writes the low half of a register.  Both handlers push `AX` and `BX`
first and pop them last; these two are local values here.  An interrupt gate
clears the interrupt flag, so a handler is not interrupted.

`stores` records what the handlers store through `ES:DI`, whose segment is the
video memory.
-/

namespace OsStuff
namespace ProtectedMode

abbrev Byte := BitVec 8
abbrev Word := BitVec 16

/-- The general registers; the stack pointer is the depth of the stack. -/
structure Registers where
  eax : BitVec 32
  ebx : BitVec 32
  ecx : BitVec 32
  edx : BitVec 32
  esi : BitVec 32
  edi : BitVec 32
  ebp : BitVec 32
  deriving DecidableEq, Repr

/-- `AX` of `EAX`, and so on. -/
def low (reg : BitVec 32) : Word := reg.extractLsb' 0 16

/-- Write `AX` of `EAX`, and so on. -/
def setLow (reg : BitVec 32) (word : Word) : BitVec 32 :=
  reg.extractLsb' 16 16 ++ word

/-- The variables of the handlers. -/
structure Variables where
  exitFlag : Byte
  timerOutput : Word
  timerSymbol : Byte
  timerCount : Byte
  keyboardColor : Byte
  keyboardShift : Byte
  keyboardOutput : Word
  deriving DecidableEq, Repr

/-- The values in the data segment. -/
def Variables.initial : Variables where
  exitFlag := 0
  timerOutput := 158
  timerSymbol := 0x2F
  timerCount := 0
  keyboardColor := 0x20
  keyboardShift := 0
  keyboardOutput := 480

/-- What the handlers find. -/
structure Machine where
  regs : Registers
  vars : Variables
  video : Nat → Byte
  stores : List Nat

/-- The limit of the descriptor `gdt_screen32`. -/
def screenLimit : Nat := 3999

def asciiMap : List Byte :=
  [0, 0, 0x31, 0x32, 0x33, 0x34, 0x35, 0x36, 0x37, 0x38, 0x39, 0x30, 0x2d, 0x2b, 0,
    0, 0x51, 0x57, 0x45, 0x52, 0x54, 0x59, 0x55, 0x49, 0x4F, 0x50, 0x5B, 0x5D, 0, 0,
    0x41, 0x53, 0x44, 0x46, 0x47, 0x48, 0x4A, 0x4B, 0x4C, 0x3b, 0x27, 0,
    0, 0, 0x5A, 0x58, 0x43, 0x56, 0x42, 0x4E, 0x4D, 0x2C, 0x2E, 0x2F, 0,
    0, 0, 0x20]

/-- The scancodes with an entry in `ascii_map`, caps lock, which is ignored, and
the releases. -/
abbrev Scancode := { code : Byte // code < 0x3B ∨ 0x80 < code }

/-- Put a word on the screen, the low byte first. -/
def storeWord (video : Nat → Byte) (offset : Nat) (word : Word) : Nat → Byte :=
  fun x =>
    if x = offset then word.extractLsb' 0 8
    else if x = offset + 1 then word.extractLsb' 8 8
    else video x

namespace Machine

def di (m : Machine) : Word := low m.regs.edi

def movDi (m : Machine) (word : Word) : Machine :=
  { m with regs := { m.regs with edi := setLow m.regs.edi word } }

/-- `stosw` with `AX` equal to `word`. -/
def stosw (m : Machine) (word : Word) : Machine :=
  { m with
    video := storeWord m.video m.di.toNat word
    regs := { m.regs with edi := setLow m.regs.edi (m.di + 2) }
    stores := m.stores ++ [m.di.toNat] }

def setVars (m : Machine) (vars : Variables) : Machine :=
  { m with vars := vars }

end Machine

/-- The symbol that follows in `timer_first_line`, `timer_second_line` and
`timer_third_line`; any other one falls through to the first. -/
def nextTimerSymbol (symbol : Byte) : Byte :=
  if symbol = 0x2F then 0x7C
  else if symbol = 0x7C then 0x5C
  else if symbol = 0x5C then 0x2F
  else 0x7C

/-- The part of `new_08` from the test of `timer_count` to `skip`. -/
def timerDraw (m : Machine) : Machine :=
  if m.vars.timerCount &&& 0b00000011 ≠ 0 then m
  else
    let al := nextTimerSymbol m.vars.timerSymbol
    let m := (m.movDi m.vars.timerOutput).stosw ((0xF0 : Byte) ++ al)
    m.setVars { m.vars with timerSymbol := al }

def new08 (m : Machine) : Machine :=
  let m := timerDraw m
  m.setVars { m.vars with timerCount := m.vars.timerCount + 1 }

/-- `kb_ctrl`: the new colour. -/
def kbCtrl (color : Byte) : Byte :=
  let bl := (color >>> 4) + 1
  let bl := if bl &&& 0b00000111 = 0 then (bl - 1) &&& 0b11111000 else bl
  bl <<< 4

/-- `kb_alt`: the new colour. -/
def kbAlt (color : Byte) : Byte :=
  let bl := color + 1
  if bl &&& 0b00001111 = 0 then (bl - 1) &&& 0b11110000 else bl

def flashWord : Word := 0x8F5F

def kbFlashLine (m : Machine) : Machine :=
  m.stosw flashWord

def kbBackspace (m : Machine) : Machine :=
  let m := m.movDi m.vars.keyboardOutput
  if m.di = 0 then kbFlashLine m
  else
    let m := m.stosw 0
    let m := m.movDi (m.di - 4)
    kbFlashLine (m.setVars { m.vars with keyboardOutput := m.di })

/-- The character of a key; codes behind `ascii_map` are not looked at. -/
def asciiOf (code : Byte) : Byte :=
  (asciiMap[code.toNat]?).getD 0

def shifted (shift al : Byte) : Byte :=
  if shift = 0 then al
  else if al < 0x41 then al
  else if 0x5A < al then al
  else al + 0x20

def normalKey (code : Byte) (m : Machine) : Machine :=
  let al := asciiOf code
  if al = 0 then m
  else
    let al := shifted m.vars.keyboardShift al
    let m := (m.movDi m.vars.keyboardOutput).stosw (m.vars.keyboardColor ++ al)
    kbFlashLine (m.setVars { m.vars with keyboardOutput := m.di })

/-- `new_09`; `code` is what port 60h has. -/
def new09 (code : Byte) (m : Machine) : Machine :=
  if code = 0xAA ∨ code = 0xB6 then m.setVars { m.vars with keyboardShift := 0 }
  else if 0x80 < code then m
  else if code = 0x3A then m
  else if code = 0x2A ∨ code = 0x36 then m.setVars { m.vars with keyboardShift := 1 }
  else if code = 0x1D then
    m.setVars { m.vars with keyboardColor := kbCtrl m.vars.keyboardColor }
  else if code = 0x38 then
    m.setVars { m.vars with keyboardColor := kbAlt m.vars.keyboardColor }
  else if code = 0x0E then kbBackspace m
  else if code = 0x01 then m.setVars { m.vars with exitFlag := 1 }
  else normalKey code m

end ProtectedMode
end OsStuff
