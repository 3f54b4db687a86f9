import OsStuff.ProtectedMode.Interrupts

/-!
# `protected_mode.asm`: the program behind `sti`

The instructions from `sti` to `home`, one constructor of `Pc` for each, with the
procedures they call.  An interrupt can come between any two of them.  The memory
behind the first megabyte, which the program counts, is apart from its own.

The program gets the base of its stack wrong: `StackSegment` are the values of `SS`
for which the stack is not in the memory that is counted, where the calls and the
interrupts would write over the bytes under test.
-/

namespace OsStuff
namespace ProtectedMode

/-- The instruction to be executed; the names are those of the labels. -/
inductive Pc
  -- behind `sti`
  | xorEbx | movAx40 | movGs
  -- `count_memory`
  | loadOld | loadSign | storeSign | cmpSign | jnePrint | storeOld | incEbx | jmpCount
  -- `print_memory_count`
  | addEbx | storeCount | loadCount | xorEdx | movEbxMega | divEbx
  | movSiLow | callLow | shrEax | movSiHigh | callHigh
  | movSiStr | movCxLen | movAhAttr | movDiOutput
  -- `mem_scrn`
  | lodsb | stosw | loopScrn
  -- `endless_loop`
  | cmpExit | jeHome | jmpEndless
  | home
  -- `wrd_asc`
  | pusha | movBx | movDl | movCx4
  | pushCx | pushAx | andAx | movCl | shrAx | callBin | storeDigit | incSi | popAx
  | shrBx | subDl | popCx | loopCccc | popa | retWrd
  -- `bin_asc`
  | cmpNine | jaLettr | addDigit | jmpOk | addLetter | retBin
  deriving DecidableEq, Repr

/-- What is on the stack: a word, a return address, or the stack pointer that
`pusha` saves and `popa` skips. -/
inductive Slot
  | word (value : Word)
  | address (pc : Pc)
  | stackPointer
  deriving DecidableEq, Repr

def megabyte : BitVec 32 := 0x100000

/-- The limit of `gdt_stack` and one. -/
def stackSize : Nat := 256

def memorySign : Byte := 0x45
def memoryStrOutput : Word := 3840

/-- The offset of `memory_str` in the data segment. -/
def memoryStrOffset : Word := 431

/-- `Memory amount - **** ****h` -/
def memoryStrText : List Byte :=
  [0x4D, 0x65, 0x6D, 0x6F, 0x72, 0x79, 0x20, 0x61, 0x6D, 0x6F, 0x75, 0x6E, 0x74, 0x20,
    0x2D, 0x20, 0x2A, 0x2A, 0x2A, 0x2A, 0x20, 0x2A, 0x2A, 0x2A, 0x2A, 0x68]

def memoryStrLen : Nat := 26

/-- The program's own part of the state.  The flags are the ones that the jumps
read; `memoryStr` is indexed with the offsets of the data segment. -/
structure Core where
  regs : Registers
  pc : Pc
  stack : List Slot
  zf : Bool
  cf : Bool
  gs : Word
  extended : BitVec 32 → Byte
  memoryCount : BitVec 32
  memoryStr : Nat → Byte
  video : Nat → Byte

def lowByte (reg : BitVec 32) : Byte := reg.extractLsb' 0 8
def highByte (reg : BitVec 32) : Byte := reg.extractLsb' 8 8

/-- The base that `main` puts into `gdt_stack`.  The processor takes the low five bits of
the count of `shr EAX, 32`, so that `base_m` gets the low byte of the address again. -/
def stackBase (ss : Word) : Nat :=
  let eax : BitVec 32 := ss.setWidth 32 <<< 4
  let baseL := low eax
  let baseM := lowByte (eax >>> (32 % 32))
  baseM.toNat * 2 ^ 16 + baseL.toNat

/-- A value of `SS` for which the stack lies below the first megabyte. -/
structure StackSegment where
  ss : Word
  below : stackBase ss + stackSize ≤ megabyte.toNat

theorem stackBase_eq (ss : Word) :
    stackBase ss = ss.toNat % 16 * 2 ^ 20 + ss.toNat * 16 % 2 ^ 16 := by
  have hlt := ss.isLt
  have heax : (ss.setWidth 32 <<< 4 : BitVec 32).toNat = ss.toNat * 16 := by
    rw [BitVec.toNat_shiftLeft, BitVec.toNat_setWidth, Nat.shiftLeft_eq]
    omega
  simp only [stackBase, low, lowByte, BitVec.extractLsb'_toNat, BitVec.toNat_ushiftRight,
    heax, Nat.shiftRight_eq_div_pow, Nat.mod_self, pow_zero, Nat.div_one]
  omega

/-- One value of `SS` in sixteen is of this kind. -/
theorem stackBase_below_iff (ss : Word) :
    stackBase ss + stackSize ≤ megabyte.toNat ↔ ss.toNat % 16 = 0 := by
  have hmegabyte : megabyte.toNat = 2 ^ 20 := rfl
  rw [stackBase_eq, hmegabyte, stackSize]
  omega

/-- The segment `200h` is of this kind; the base for `201h` is `102010h`. -/
def lowSegment : StackSegment where
  ss := 0x200
  below := by decide

example : stackBase 0x201 = 0x102010 := by decide

def setLowByte (reg : BitVec 32) (byte : Byte) : BitVec 32 :=
  reg.extractLsb' 8 24 ++ byte

def setHighByte (reg : BitVec 32) (byte : Byte) : BitVec 32 :=
  reg.extractLsb' 16 16 ++ byte ++ reg.extractLsb' 0 8

/-- Quotient and remainder of `high:low`; a quotient of more than 32 bits is an
exception. -/
def quotient (high low divisor : BitVec 32) : Option (BitVec 32 × BitVec 32) :=
  let dividend := high.toNat * 2 ^ 32 + low.toNat
  if divisor.toNat = 0 ∨ 2 ^ 32 ≤ dividend / divisor.toNat then none
  else
    some (BitVec.ofNat 32 (dividend / divisor.toNat),
      BitVec.ofNat 32 (dividend % divisor.toNat))

namespace Core

/-- Go on with the instruction at `pc`. -/
def jump (c : Core) (pc : Pc) : Core := { c with pc := pc }

def setEax (c : Core) (value : BitVec 32) : Core :=
  { c with regs := { c.regs with eax := value } }
def setEbx (c : Core) (value : BitVec 32) : Core :=
  { c with regs := { c.regs with ebx := value } }
def setEcx (c : Core) (value : BitVec 32) : Core :=
  { c with regs := { c.regs with ecx := value } }
def setEdx (c : Core) (value : BitVec 32) : Core :=
  { c with regs := { c.regs with edx := value } }
def setEsi (c : Core) (value : BitVec 32) : Core :=
  { c with regs := { c.regs with esi := value } }
def setEdi (c : Core) (value : BitVec 32) : Core :=
  { c with regs := { c.regs with edi := value } }

def setGs (c : Core) (value : Word) : Core := { c with gs := value }
def setMemoryCount (c : Core) (value : BitVec 32) : Core := { c with memoryCount := value }

def push (c : Core) (slot : Slot) : Core := { c with stack := slot :: c.stack }

/-- `cmp`: the flags of `x - y`. -/
def compare (c : Core) (x y : Byte) : Core :=
  { c with zf := decide (x = y), cf := decide (x < y) }

/-- `call` -/
def call (c : Core) (procedure back : Pc) : Core :=
  (c.push (.address back)).jump procedure

/-- `ret` -/
def ret (c : Core) : Option Core :=
  match c.stack with
  | .address pc :: stack => some { c with stack := stack, pc := pc }
  | _ => none

/-- `pop` of a register that `set` writes. -/
def pop (c : Core) (set : Core → Word → Core) : Option Core :=
  match c.stack with
  | .word value :: stack => some (set { c with stack := stack } value)
  | _ => none

/-- `loop` -/
def loop (c : Core) (target next : Pc) : Core :=
  let cx := low c.regs.ecx - 1
  (c.setEcx (setLow c.regs.ecx cx)).jump (if cx = 0 then next else target)

def pushAll (c : Core) : Core :=
  { c with
    stack :=
      .word (low c.regs.edi) :: .word (low c.regs.esi) :: .word (low c.regs.ebp) ::
        .stackPointer :: .word (low c.regs.ebx) :: .word (low c.regs.edx) ::
          .word (low c.regs.ecx) :: .word (low c.regs.eax) :: c.stack }

def popAll (c : Core) : Option Core :=
  match c.stack with
  | .word di :: .word si :: .word bp :: _ :: .word bx :: .word dx :: .word cx ::
      .word ax :: stack =>
      some { c with
        stack := stack
        regs :=
          { eax := setLow c.regs.eax ax
            ebx := setLow c.regs.ebx bx
            ecx := setLow c.regs.ecx cx
            edx := setLow c.regs.edx dx
            esi := setLow c.regs.esi si
            edi := setLow c.regs.edi di
            ebp := setLow c.regs.ebp bp } }
  | _ => none

/-- `div EBX` -/
def divide (c : Core) : Option Core :=
  (quotient c.regs.edx c.regs.eax c.regs.ebx).map fun result =>
    (c.setEax result.1).setEdx result.2

/-- Put a byte into the string. -/
def storeStr (c : Core) (offset : Nat) (byte : Byte) : Core :=
  { c with memoryStr := fun x => if x = offset then byte else c.memoryStr x }

/-- Put a byte into extended memory, which keeps it where there is memory. -/
def storeExtended (writable : BitVec 32 → Bool) (c : Core) (address : BitVec 32)
    (byte : Byte) : Core :=
  { c with
    extended := fun x =>
      if x = address ∧ writable x = true then byte else c.extended x }

/-- One instruction; `none` when control leaves the program. -/
def step (writable : BitVec 32 → Bool) (exitFlag : Byte) (c : Core) : Option Core :=
  match c.pc with
  | .xorEbx => some ((c.setEbx 0).jump .movAx40)
  | .movAx40 => some ((c.setEax (setLow c.regs.eax 40)).jump .movGs)
  | .movGs => some ((c.setGs (low c.regs.eax)).jump .loadOld)
  | .loadOld =>
      some ((c.setEax (setLowByte c.regs.eax (c.extended c.regs.ebx))).jump .loadSign)
  | .loadSign => some ((c.setEax (setHighByte c.regs.eax memorySign)).jump .storeSign)
  | .storeSign =>
      some ((c.storeExtended writable c.regs.ebx (highByte c.regs.eax)).jump .cmpSign)
  | .cmpSign =>
      some ((c.compare (c.extended c.regs.ebx) (highByte c.regs.eax)).jump .jnePrint)
  | .jnePrint => some (c.jump (if c.zf = true then .storeOld else .addEbx))
  | .storeOld =>
      some ((c.storeExtended writable c.regs.ebx (lowByte c.regs.eax)).jump .incEbx)
  | .incEbx => some ((c.setEbx (c.regs.ebx + 1)).jump .jmpCount)
  | .jmpCount => some (c.jump .loadOld)
  | .addEbx => some ((c.setEbx (c.regs.ebx + megabyte)).jump .storeCount)
  | .storeCount => some ((c.setMemoryCount c.regs.ebx).jump .loadCount)
  | .loadCount => some ((c.setEax c.memoryCount).jump .xorEdx)
  | .xorEdx => some ((c.setEdx 0).jump .movEbxMega)
  | .movEbxMega => some ((c.setEbx megabyte).jump .divEbx)
  | .divEbx => c.divide.map fun c => c.jump .movSiLow
  | .movSiLow =>
      some ((c.setEsi (setLow c.regs.esi (memoryStrOffset + 21))).jump .callLow)
  | .callLow => some (c.call .pusha .shrEax)
  | .shrEax => some ((c.setEax (c.regs.eax >>> 16)).jump .movSiHigh)
  | .movSiHigh =>
      some ((c.setEsi (setLow c.regs.esi (memoryStrOffset + 16))).jump .callHigh)
  | .callHigh => some (c.call .pusha .movSiStr)
  | .movSiStr => some ((c.setEsi (setLow c.regs.esi memoryStrOffset)).jump .movCxLen)
  | .movCxLen =>
      some ((c.setEcx (setLow c.regs.ecx (BitVec.ofNat 16 memoryStrLen))).jump .movAhAttr)
  | .movAhAttr => some ((c.setEax (setHighByte c.regs.eax 0x40)).jump .movDiOutput)
  | .movDiOutput => some ((c.setEdi (setLow c.regs.edi memoryStrOutput)).jump .lodsb)
  | .lodsb =>
      some (((c.setEax
          (setLowByte c.regs.eax (c.memoryStr (low c.regs.esi).toNat))).setEsi
        (setLow c.regs.esi (low c.regs.esi + 1))).jump .stosw)
  | .stosw =>
      some (({ c with
          video := storeWord c.video (low c.regs.edi).toNat (low c.regs.eax) }.setEdi
        (setLow c.regs.edi (low c.regs.edi + 2))).jump .loopScrn)
  | .loopScrn => some (c.loop .lodsb .cmpExit)
  | .cmpExit => some ((c.compare exitFlag 1).jump .jeHome)
  | .jeHome => some (c.jump (if c.zf = true then .home else .jmpEndless))
  | .jmpEndless => some (c.jump .cmpExit)
  | .home => none
  | .pusha => some (c.pushAll.jump .movBx)
  | .movBx => some ((c.setEbx (setLow c.regs.ebx 0xF000)).jump .movDl)
  | .movDl => some ((c.setEdx (setLowByte c.regs.edx 12)).jump .movCx4)
  | .movCx4 => some ((c.setEcx (setLow c.regs.ecx 4)).jump .pushCx)
  | .pushCx => some ((c.push (.word (low c.regs.ecx))).jump .pushAx)
  | .pushAx => some ((c.push (.word (low c.regs.eax))).jump .andAx)
  | .andAx =>
      some ((c.setEax
        (setLow c.regs.eax (low c.regs.eax &&& low c.regs.ebx))).jump .movCl)
  | .movCl => some ((c.setEcx (setLowByte c.regs.ecx (lowByte c.regs.edx))).jump .shrAx)
  | .shrAx =>
      -- The processor takes the low five bits of the count.
      some ((c.setEax (setLow c.regs.eax
        (low c.regs.eax >>> ((lowByte c.regs.ecx).toNat % 32)))).jump .callBin)
  | .callBin => some (c.call .cmpNine .storeDigit)
  | .storeDigit =>
      some ((c.storeStr (low c.regs.esi).toNat (lowByte c.regs.eax)).jump .incSi)
  | .incSi => some ((c.setEsi (setLow c.regs.esi (low c.regs.esi + 1))).jump .popAx)
  | .popAx =>
      c.pop fun c value => (c.setEax (setLow c.regs.eax value)).jump .shrBx
  | .shrBx => some ((c.setEbx (setLow c.regs.ebx (low c.regs.ebx >>> 4))).jump .subDl)
  | .subDl => some ((c.setEdx (setLowByte c.regs.edx (lowByte c.regs.edx - 4))).jump .popCx)
  | .popCx =>
      c.pop fun c value => (c.setEcx (setLow c.regs.ecx value)).jump .loopCccc
  | .loopCccc => some (c.loop .pushCx .popa)
  | .popa => c.popAll.map fun c => c.jump .retWrd
  | .retWrd => c.ret
  | .cmpNine => some ((c.compare (lowByte c.regs.eax) 9).jump .jaLettr)
  | .jaLettr =>
      some (c.jump (if c.cf = false ∧ c.zf = false then .addLetter else .addDigit))
  | .addDigit =>
      some ((c.setEax (setLowByte c.regs.eax (lowByte c.regs.eax + 0x30))).jump .jmpOk)
  | .jmpOk => some (c.jump .retBin)
  | .addLetter =>
      some ((c.setEax (setLowByte c.regs.eax (lowByte c.regs.eax + 0x37))).jump .retBin)
  | .retBin => c.ret

end Core

/-! ### Interrupts -/

/-- The program with the variables of the handlers. -/
structure State where
  segment : StackSegment
  core : Core
  vars : Variables
  stores : List Nat

inductive Event
  | instr
  | timer
  | key (code : Scancode)
  deriving DecidableEq, Repr

/-- What the handlers see of the state. -/
def State.machine (s : State) : Machine where
  regs := s.core.regs
  vars := s.vars
  video := s.core.video
  stores := s.stores

/-- The state behind a handler. -/
def State.resume (s : State) (m : Machine) : State where
  segment := s.segment
  core := { s.core with regs := m.regs, video := m.video }
  vars := m.vars
  stores := m.stores

/-- One instruction, or an interrupt in front of it.  No interrupt comes in front
of the instruction behind `sti`. -/
def exec (writable : BitVec 32 → Bool) (s : State) : Event → Option State
  | .instr => (s.core.step writable s.vars.exitFlag).map fun c => { s with core := c }
  | .timer =>
      if s.core.pc = .xorEbx then none else some (s.resume (new08 s.machine))
  | .key code =>
      if s.core.pc = .xorEbx then none else some (s.resume (new09 code.1 s.machine))

/-- The state at `sti`: `welcome_scrn` has left `DI` behind its 25 characters. -/
def State.start (segment : StackSegment) (regs : Registers) (stack : List Slot)
    (extended : BitVec 32 → Byte) (video : Nat → Byte) : State where
  segment := segment
  core :=
    { regs := { regs with edi := setLow regs.edi 210 }
      pc := .xorEbx
      stack := stack
      zf := false
      cf := false
      gs := 0
      extended := extended
      memoryCount := 0
      memoryStr := fun x =>
        if x < memoryStrOffset.toNat then 0
        else (memoryStrText[x - memoryStrOffset.toNat]?).getD 0
      video := video }
  vars := Variables.initial
  stores := []

end ProtectedMode
end OsStuff
