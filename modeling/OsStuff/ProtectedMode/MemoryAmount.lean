import OsStuff.Library.Steps
import OsStuff.ProtectedMode.InterruptedRuns

/-!
# The memory amount on the screen

The program between `sti` and `endless_loop`, run without interrupts: it looks
for the first byte of extended memory that does not keep what is written to it,
turns its address into megabytes, puts the digits into `memory_str` and copies the
string to the last line of the screen.
-/

namespace OsStuff
namespace ProtectedMode

open Library

variable {writable : BitVec 32 → Bool} {exitFlag : Byte} {c c' : Core}

/-! ## Halves of a register -/

theorem lowByte_setHighByte (reg : BitVec 32) (byte : Byte) :
    lowByte (setHighByte reg byte) = lowByte reg := by
  ext i hi
  simp only [lowByte, setHighByte, BitVec.getElem_extractLsb', BitVec.getLsbD_append]
  simp [hi]

@[simp] theorem setLow_setLow (reg : BitVec 32) (word word' : Word) :
    setLow (setLow reg word) word' = setLow reg word' := by
  unfold setLow
  rw [BitVec.extractLsb'_append_eq_left]

@[simp] theorem setLow_setLowByte (reg : BitVec 32) (byte : Byte) (word : Word) :
    setLow (setLowByte reg byte) word = setLow reg word := by
  unfold setLow
  congr 1
  ext i hi
  have hlow : ¬ 16 + i < 8 := by omega
  have hin : 16 + i - 8 < 24 := by omega
  have hback : 8 + (16 + i - 8) = 16 + i := by omega
  simp only [setLowByte, BitVec.getElem_extractLsb', BitVec.getLsbD_append,
    BitVec.getLsbD_extractLsb', if_neg hlow, hin, hback]
  simp

@[simp] theorem setLow_low (reg : BitVec 32) : setLow reg (low reg) = reg := by
  have h : reg.extractLsb' 16 16 ++ reg.extractLsb' 0 16 =
      (reg.extractLsb' 0 (16 + 16)).cast rfl :=
    BitVec.extractLsb'_append_extractLsb'_eq_extractLsb' (by rfl)
  rw [setLow, low, h]
  exact BitVec.extractLsb'_eq_self

theorem lowByte_setLow (reg : BitVec 32) (word : Word) :
    lowByte (setLow reg word) = word.extractLsb' 0 8 := by
  ext i hi
  have hin : i < 16 := by omega
  simp only [lowByte, setLow, BitVec.getElem_extractLsb', BitVec.getLsbD_append]
  simp [hin]

@[simp] theorem setLowByte_setLowByte (reg : BitVec 32) (byte byte' : Byte) :
    setLowByte (setLowByte reg byte) byte' = setLowByte reg byte' := by
  unfold setLowByte
  rw [BitVec.extractLsb'_append_eq_left]

/-- Execution of some instructions, without interrupts. -/
def Goes (writable : BitVec 32 → Bool) (exitFlag : Byte) : Core → Core → Prop :=
  Reaches (Core.step writable exitFlag)

/-! ## `bin_asc` and `wrd_asc` -/

section

variable {eax ebx ecx edx esi edi ebp : BitVec 32} {stack : List Slot} {zf cf : Bool}
  {gs : Word} {extended : BitVec 32 → Byte} {memoryCount : BitVec 32}
  {memoryStr video : Nat → Byte} {back : Pc}

/-- `bin_asc`: the character for a digit. -/
def binAsc (digit : Byte) : Byte :=
  if digit ≤ 9 then digit + 0x30 else digit + 0x37

theorem goes_binAsc :
    ∃ zf' cf', Goes writable exitFlag
      ⟨⟨eax, ebx, ecx, edx, esi, edi, ebp⟩, .cmpNine, .address back :: stack, zf, cf, gs,
        extended, memoryCount, memoryStr, video⟩
      ⟨⟨setLowByte eax (binAsc (lowByte eax)), ebx, ecx, edx, esi, edi, ebp⟩, back, stack,
        zf', cf', gs, extended, memoryCount, memoryStr, video⟩ := by
  refine ⟨decide (lowByte eax = 9), decide (lowByte eax < 9), ?_⟩
  by_cases hdigit : lowByte eax ≤ 9
  · have hjump : ¬ (decide (lowByte eax < 9) = false ∧ decide (lowByte eax = 9) = false) := by
      rintro ⟨hless, hnine⟩
      have hge := BitVec.not_lt.mp (of_decide_eq_false hless)
      exact of_decide_eq_false hnine (BitVec.le_antisymm hdigit hge)
    refine ⟨5, ?_⟩
    simp only [steps, Core.step, Core.compare, Core.jump, Core.setEax, Core.ret,
      Option.bind_some, hjump, if_false]
    rw [binAsc, if_pos hdigit]
  · have hjump : decide (lowByte eax < 9) = false ∧ decide (lowByte eax = 9) = false := by
      constructor
      · exact decide_eq_false fun hless => hdigit (BitVec.le_of_lt hless)
      · exact decide_eq_false fun hnine => hdigit (hnine ▸ BitVec.le_refl _)
    refine ⟨4, ?_⟩
    simp only [steps, Core.step, Core.compare, Core.jump, Core.setEax, Core.ret,
      Option.bind_some, hjump, and_self, if_true]
    rw [binAsc, if_neg hdigit]

/-- The digit that `wrd_asc` cuts out of `AX` with the mask in `BX` and the shift in
`DL`. -/
def cutDigit (ax mask : Word) (shift : Byte) : Byte :=
  ((ax &&& mask) >>> (shift.toNat % 32)).extractLsb' 0 8

/-- Put a byte into a string. -/
def putByte (memoryStr : Nat → Byte) (offset : Nat) (byte : Byte) : Nat → Byte :=
  fun x => if x = offset then byte else memoryStr x

variable {ax cx : Word}

/-- `wrd_asc` up to the call of `bin_asc`. -/
theorem goes_toBinAsc :
    Goes writable exitFlag
      ⟨⟨eax, ebx, ecx, edx, esi, edi, ebp⟩, .pushCx, stack, zf, cf, gs, extended,
        memoryCount, memoryStr, video⟩
      ⟨⟨setLow eax ((low eax &&& low ebx) >>> ((lowByte edx).toNat % 32)), ebx,
          setLowByte ecx (lowByte edx), edx, esi, edi, ebp⟩,
        .cmpNine, .address .storeDigit :: .word (low eax) :: .word (low ecx) :: stack,
        zf, cf, gs, extended, memoryCount, memoryStr, video⟩ := by
  have hsteps : steps (Core.step writable exitFlag) 6
      ⟨⟨eax, ebx, ecx, edx, esi, edi, ebp⟩, .pushCx, stack, zf, cf, gs, extended,
        memoryCount, memoryStr, video⟩ =
      some ⟨⟨setLow (setLow eax (low eax &&& low ebx))
            (low (setLow eax (low eax &&& low ebx)) >>>
              ((lowByte (setLowByte ecx (lowByte edx))).toNat % 32)), ebx,
          setLowByte ecx (lowByte edx), edx, esi, edi, ebp⟩,
        .cmpNine, .address .storeDigit :: .word (low eax) :: .word (low ecx) :: stack,
        zf, cf, gs, extended, memoryCount, memoryStr, video⟩ := rfl
  rw [setLow_setLow, low_setLow, lowByte_setLowByte] at hsteps
  exact ⟨6, hsteps⟩

/-- The round of `wrd_asc` behind the call. -/
theorem goes_fromBinAsc :
    Goes writable exitFlag
      ⟨⟨eax, ebx, ecx, edx, esi, edi, ebp⟩, .storeDigit, .word ax :: .word cx :: stack,
        zf, cf, gs, extended, memoryCount, memoryStr, video⟩
      ⟨⟨setLow eax ax, setLow ebx (low ebx >>> 4), setLow ecx (cx - 1),
          setLowByte edx (lowByte edx - 4), setLow esi (low esi + 1), edi, ebp⟩,
        if cx - 1 = 0 then .popa else .pushCx, stack, zf, cf, gs, extended, memoryCount,
        putByte memoryStr (low esi).toNat (lowByte eax), video⟩ := by
  have hsteps : steps (Core.step writable exitFlag) 7
      ⟨⟨eax, ebx, ecx, edx, esi, edi, ebp⟩, .storeDigit, .word ax :: .word cx :: stack,
        zf, cf, gs, extended, memoryCount, memoryStr, video⟩ =
      some ⟨⟨setLow eax ax, setLow ebx (low ebx >>> 4),
          setLow (setLow ecx cx) (low (setLow ecx cx) - 1),
          setLowByte edx (lowByte edx - 4), setLow esi (low esi + 1), edi, ebp⟩,
        if low (setLow ecx cx) - 1 = 0 then .popa else .pushCx, stack, zf, cf, gs, extended,
        memoryCount, putByte memoryStr (low esi).toNat (lowByte eax), video⟩ := rfl
  rw [setLow_setLow, low_setLow] at hsteps
  exact ⟨7, hsteps⟩

/-- One digit: the registers have moved on to the next one. -/
theorem goes_digit :
    ∃ zf' cf', Goes writable exitFlag
      ⟨⟨eax, ebx, ecx, edx, esi, edi, ebp⟩, .pushCx, stack, zf, cf, gs, extended,
        memoryCount, memoryStr, video⟩
      ⟨⟨eax, setLow ebx (low ebx >>> 4), setLow ecx (low ecx - 1),
          setLowByte edx (lowByte edx - 4), setLow esi (low esi + 1), edi, ebp⟩,
        if low ecx - 1 = 0 then .popa else .pushCx, stack, zf', cf', gs, extended,
        memoryCount,
        putByte memoryStr (low esi).toNat
          (binAsc (cutDigit (low eax) (low ebx) (lowByte edx))), video⟩ := by
  obtain ⟨zf', cf', hcall⟩ := @goes_binAsc writable exitFlag
    (setLow eax ((low eax &&& low ebx) >>> ((lowByte edx).toNat % 32))) ebx
    (setLowByte ecx (lowByte edx)) edx esi edi ebp
    (.word (low eax) :: .word (low ecx) :: stack) zf cf gs extended memoryCount memoryStr
    video .storeDigit
  refine ⟨zf', cf', ?_⟩
  have hround := (goes_toBinAsc.trans hcall).trans goes_fromBinAsc
  rw [setLow_setLowByte, setLow_setLow, setLow_low, setLow_setLowByte, lowByte_setLowByte,
    lowByte_setLow] at hround
  exact hround

/-- The string behind `wrd_asc`. -/
def putDigits (memoryStr : Nat → Byte) (si ax : Word) : Nat → Byte :=
  putByte (putByte (putByte (putByte memoryStr
    si.toNat (binAsc (cutDigit ax 0xF000 12)))
    (si + 1).toNat (binAsc (cutDigit ax 0xF00 8)))
    (si + 1 + 1).toNat (binAsc (cutDigit ax 0xF0 4)))
    (si + 1 + 1 + 1).toNat (binAsc (cutDigit ax 0xF 0))

/-- What `pusha` saves. -/
def saved (eax ebx ecx edx esi edi ebp : BitVec 32) (stack : List Slot) : List Slot :=
  .word (low edi) :: .word (low esi) :: .word (low ebp) :: .stackPointer ::
    .word (low ebx) :: .word (low edx) :: .word (low ecx) :: .word (low eax) :: stack

/-- The four digits. -/
theorem goes_digits :
    ∃ zf' cf', Goes writable exitFlag
      ⟨⟨eax, setLow ebx 0xF000, setLow ecx 4, setLowByte edx 12, esi, edi, ebp⟩, .pushCx,
        stack, zf, cf, gs, extended, memoryCount, memoryStr, video⟩
      ⟨⟨eax, setLow ebx 0, setLow ecx 0, setLowByte edx 252,
          setLow esi (low esi + 1 + 1 + 1 + 1), edi, ebp⟩, .popa, stack, zf', cf', gs,
        extended, memoryCount, putDigits memoryStr (low esi) (low eax), video⟩ := by
  obtain ⟨zf₁, cf₁, h₁⟩ := @goes_digit writable exitFlag eax (setLow ebx 0xF000)
    (setLow ecx 4) (setLowByte edx 12) esi edi ebp stack zf cf gs extended memoryCount
    memoryStr video
  rw [low_setLow, low_setLow, setLow_setLow, setLow_setLow, lowByte_setLowByte,
    setLowByte_setLowByte] at h₁
  obtain ⟨zf₂, cf₂, h₂⟩ := @goes_digit writable exitFlag eax (setLow ebx 0xF00)
    (setLow ecx 3) (setLowByte edx 8) (setLow esi (low esi + 1)) edi ebp stack zf₁ cf₁ gs
    extended memoryCount _ video
  rw [low_setLow, low_setLow, low_setLow, setLow_setLow, setLow_setLow, setLow_setLow,
    lowByte_setLowByte, setLowByte_setLowByte] at h₂
  obtain ⟨zf₃, cf₃, h₃⟩ := @goes_digit writable exitFlag eax (setLow ebx 0xF0)
    (setLow ecx 2) (setLowByte edx 4) (setLow esi (low esi + 1 + 1)) edi ebp stack zf₂ cf₂ gs
    extended memoryCount _ video
  rw [low_setLow, low_setLow, low_setLow, setLow_setLow, setLow_setLow, setLow_setLow,
    lowByte_setLowByte, setLowByte_setLowByte] at h₃
  obtain ⟨zf₄, cf₄, h₄⟩ := @goes_digit writable exitFlag eax (setLow ebx 0xF)
    (setLow ecx 1) (setLowByte edx 0) (setLow esi (low esi + 1 + 1 + 1)) edi ebp stack
    zf₃ cf₃ gs extended memoryCount _ video
  rw [low_setLow, low_setLow, low_setLow, setLow_setLow, setLow_setLow, setLow_setLow,
    lowByte_setLowByte, setLowByte_setLowByte] at h₄
  exact ⟨zf₄, cf₄, ((h₁.trans h₂).trans h₃).trans h₄⟩

/-- `wrd_asc` puts the digits of `AX` into the string and the registers back. -/
theorem goes_wrdAsc :
    ∃ zf' cf', Goes writable exitFlag
      ⟨⟨eax, ebx, ecx, edx, esi, edi, ebp⟩, .pusha, .address back :: stack, zf, cf, gs,
        extended, memoryCount, memoryStr, video⟩
      ⟨⟨eax, ebx, ecx, edx, esi, edi, ebp⟩, back, stack, zf', cf', gs, extended,
        memoryCount, putDigits memoryStr (low esi) (low eax), video⟩ := by
  have hfront : Goes writable exitFlag
      ⟨⟨eax, ebx, ecx, edx, esi, edi, ebp⟩, .pusha, .address back :: stack, zf, cf, gs,
        extended, memoryCount, memoryStr, video⟩
      ⟨⟨eax, setLow ebx 0xF000, setLow ecx 4, setLowByte edx 12, esi, edi, ebp⟩, .pushCx,
        saved eax ebx ecx edx esi edi ebp (.address back :: stack), zf, cf, gs, extended,
        memoryCount, memoryStr, video⟩ := ⟨4, rfl⟩
  obtain ⟨zf', cf', hdigits⟩ := @goes_digits writable exitFlag eax ebx ecx edx esi edi ebp
    (saved eax ebx ecx edx esi edi ebp (.address back :: stack)) zf cf gs extended
    memoryCount memoryStr video
  have hback : steps (Core.step writable exitFlag) 2
      ⟨⟨eax, setLow ebx 0, setLow ecx 0, setLowByte edx 252,
          setLow esi (low esi + 1 + 1 + 1 + 1), edi, ebp⟩, .popa,
        saved eax ebx ecx edx esi edi ebp (.address back :: stack), zf', cf', gs, extended,
        memoryCount, putDigits memoryStr (low esi) (low eax), video⟩ =
      some ⟨⟨setLow eax (low eax), setLow (setLow ebx 0) (low ebx),
          setLow (setLow ecx 0) (low ecx), setLow (setLowByte edx 252) (low edx),
          setLow (setLow esi (low esi + 1 + 1 + 1 + 1)) (low esi), setLow edi (low edi),
          setLow ebp (low ebp)⟩, back, stack, zf', cf', gs, extended, memoryCount,
        putDigits memoryStr (low esi) (low eax), video⟩ := rfl
  simp only [setLow_setLow, setLow_setLowByte, setLow_low] at hback
  exact ⟨zf', cf', (hfront.trans hdigits).trans ⟨2, hback⟩⟩

/-! ## The digits -/

/-- `0123456789ABCDEF` -/
def hexDigits : List Byte :=
  [0x30, 0x31, 0x32, 0x33, 0x34, 0x35, 0x36, 0x37, 0x38, 0x39, 0x41, 0x42, 0x43, 0x44,
    0x45, 0x46]

/-- The character for a digit. -/
def hexDigit (digit : Nat) : Byte :=
  (hexDigits[digit]?).getD 0

/-- Four hexadecimal digits. -/
def hexWord (n : Nat) : List Byte :=
  [hexDigit (n / 2 ^ 12 % 16), hexDigit (n / 2 ^ 8 % 16), hexDigit (n / 2 ^ 4 % 16),
    hexDigit (n / 2 ^ 0 % 16)]

theorem binAsc_eq {digit : Byte} (hdigit : digit.toNat < 16) :
    binAsc digit = hexDigit digit.toNat := by
  have hall : ∀ d < 16, binAsc (BitVec.ofNat 8 d) = hexDigit d := by decide
  have h := hall digit.toNat hdigit
  rwa [BitVec.ofNat_toNat, BitVec.setWidth_eq] at h

theorem cutDigit_toNat {mask : Word} {shift : Byte} (hshift : shift.toNat < 32)
    (hmask : mask.toNat >>> shift.toNat = 2 ^ 4 - 1) :
    (cutDigit ax mask shift).toNat = ax.toNat / 2 ^ shift.toNat % 16 := by
  unfold cutDigit
  rw [BitVec.extractLsb'_toNat, BitVec.toNat_ushiftRight, BitVec.toNat_and,
    Nat.mod_eq_of_lt hshift, Nat.shiftRight_and_distrib, hmask,
    Nat.and_two_pow_sub_one_eq_mod, Nat.shiftRight_eq_div_pow]
  omega

theorem binAsc_cutDigit {mask : Word} {shift : Byte} (hshift : shift.toNat < 32)
    (hmask : mask.toNat >>> shift.toNat = 2 ^ 4 - 1) :
    binAsc (cutDigit ax mask shift) = hexDigit (ax.toNat / 2 ^ shift.toNat % 16) := by
  have hcut := @cutDigit_toNat ax mask shift hshift hmask
  rw [binAsc_eq (by omega), hcut]

theorem toNat_next {si : Word} {k : Nat} (hsi : si.toNat + 4 ≤ 2 ^ 16) (hk : k < 3)
    {word : Word} (hword : word.toNat = si.toNat + k) :
    (word + 1).toNat = si.toNat + (k + 1) := by
  rw [BitVec.toNat_add, hword]
  simp
  omega

/-- The digits are in their places, and the string is as before outside. -/
theorem putDigits_eq {si : Word} (hsi : si.toNat + 4 ≤ 2 ^ 16) (x : Nat) :
    putDigits memoryStr si ax x =
      if si.toNat ≤ x then ((hexWord ax.toNat)[x - si.toNat]?).getD (memoryStr x)
      else memoryStr x := by
  have h1 := toNat_next hsi (k := 0) (by decide) rfl
  have h2 := toNat_next hsi (by decide) h1
  have h3 := toNat_next hsi (by decide) h2
  have hdigits : ∀ k < 4, ((hexWord ax.toNat)[k]?).getD (memoryStr (si.toNat + k)) =
      hexDigit (ax.toNat / 2 ^ (12 - 4 * k) % 16) := by
    intro k hk
    interval_cases k <;> rfl
  unfold putDigits putByte
  rw [h1, h2, h3, binAsc_cutDigit (by decide) (by decide), binAsc_cutDigit (by decide) (by decide),
    binAsc_cutDigit (by decide) (by decide), binAsc_cutDigit (by decide) (by decide)]
  by_cases hx : si.toNat ≤ x
  · obtain ⟨k, rfl⟩ := Nat.exists_eq_add_of_le hx
    rw [if_pos hx, Nat.add_sub_cancel_left]
    by_cases hk : k < 4
    · rw [hdigits k hk]
      interval_cases k <;> simp
    · rw [List.getElem?_eq_none (by simp [hexWord]; omega), if_neg (by omega),
        if_neg (by omega), if_neg (by omega), if_neg (by omega)]
      rfl
  · rw [if_neg hx, if_neg (by omega), if_neg (by omega), if_neg (by omega), if_neg (by omega)]

/-! ## `count_memory` -/

/-- The byte does not show the sign that was written to it. -/
def Stops (writable : BitVec 32 → Bool) (extended : BitVec 32 → Byte) (a : BitVec 32) :
    Prop :=
  writable a = false ∧ extended a ≠ memorySign

/-- Extended memory after a write, which is kept where there is memory. -/
def writeTo (writable : BitVec 32 → Bool) (extended : BitVec 32 → Byte) (a : BitVec 32)
    (byte : Byte) : BitVec 32 → Byte :=
  fun x => if x = a ∧ writable x = true then byte else extended x

theorem writeTo_self {a : BitVec 32} :
    writeTo writable extended a memorySign a = memorySign ↔ ¬ Stops writable extended a := by
  unfold writeTo Stops
  cases hwritable : writable a with
  | true => simp
  | false => simp

/-- The old byte is put back. -/
theorem writeTo_back {a : BitVec 32} (byte : Byte) :
    writeTo writable (writeTo writable extended a byte) a (extended a) = extended := by
  funext x
  unfold writeTo
  by_cases hx : x = a ∧ writable x = true
  · rw [if_pos hx, hx.1]
  · rw [if_neg hx, if_neg hx]

/-- The sign has been written, and the flags tell whether it is there. -/
theorem steps_writeSign :
    steps (Core.step writable exitFlag) 4
      ⟨⟨eax, ebx, ecx, edx, esi, edi, ebp⟩, .loadOld, stack, zf, cf, gs, extended,
        memoryCount, memoryStr, video⟩ =
      some ⟨⟨setHighByte (setLowByte eax (extended ebx)) memorySign, ebx, ecx, edx, esi, edi,
          ebp⟩, .jnePrint, stack,
        decide (writeTo writable extended ebx memorySign ebx = memorySign),
        decide (writeTo writable extended ebx memorySign ebx < memorySign), gs,
        writeTo writable extended ebx memorySign, memoryCount, memoryStr, video⟩ := by
  have hsteps : steps (Core.step writable exitFlag) 4
      ⟨⟨eax, ebx, ecx, edx, esi, edi, ebp⟩, .loadOld, stack, zf, cf, gs, extended,
        memoryCount, memoryStr, video⟩ =
      some ⟨⟨setHighByte (setLowByte eax (extended ebx)) memorySign, ebx, ecx, edx, esi, edi,
          ebp⟩, .jnePrint, stack,
        decide (writeTo writable extended ebx
          (highByte (setHighByte (setLowByte eax (extended ebx)) memorySign)) ebx =
            highByte (setHighByte (setLowByte eax (extended ebx)) memorySign)),
        decide (writeTo writable extended ebx
          (highByte (setHighByte (setLowByte eax (extended ebx)) memorySign)) ebx <
            highByte (setHighByte (setLowByte eax (extended ebx)) memorySign)), gs,
        writeTo writable extended ebx
          (highByte (setHighByte (setLowByte eax (extended ebx)) memorySign)), memoryCount,
        memoryStr, video⟩ := rfl
  rwa [highByte_setHighByte] at hsteps

/-- A byte that shows the sign gets its old value back, and the next one is looked
at. -/
theorem steps_count (hgoes : ¬ Stops writable extended ebx) :
    ∃ eax' zf' cf', steps (Core.step writable exitFlag) 8
      ⟨⟨eax, ebx, ecx, edx, esi, edi, ebp⟩, .loadOld, stack, zf, cf, gs, extended,
        memoryCount, memoryStr, video⟩ =
      some ⟨⟨eax', ebx + 1, ecx, edx, esi, edi, ebp⟩, .loadOld, stack, zf', cf', gs,
        extended, memoryCount, memoryStr, video⟩ := by
  have hshown := writeTo_self.mpr hgoes
  refine ⟨setHighByte (setLowByte eax (extended ebx)) memorySign, true, false, ?_⟩
  have hback : steps (Core.step writable exitFlag) 4
      ⟨⟨setHighByte (setLowByte eax (extended ebx)) memorySign, ebx, ecx, edx, esi, edi,
          ebp⟩, .jnePrint, stack, true, false, gs,
        writeTo writable extended ebx memorySign, memoryCount, memoryStr, video⟩ =
      some ⟨⟨setHighByte (setLowByte eax (extended ebx)) memorySign, ebx + 1, ecx, edx, esi,
          edi, ebp⟩, .loadOld, stack, true, false, gs,
        writeTo writable (writeTo writable extended ebx memorySign) ebx
          (lowByte (setHighByte (setLowByte eax (extended ebx)) memorySign)), memoryCount,
        memoryStr, video⟩ := rfl
  rw [lowByte_setHighByte, lowByte_setLowByte, writeTo_back] at hback
  rw [show 8 = 4 + 4 from rfl, steps_add, steps_writeSign, Option.bind_some, hshown]
  exact hback

/-- The first byte that does not show it ends the count. -/
theorem goes_countEnd (hstops : Stops writable extended ebx) :
    ∃ eax' zf' cf', Goes writable exitFlag
      ⟨⟨eax, ebx, ecx, edx, esi, edi, ebp⟩, .loadOld, stack, zf, cf, gs, extended,
        memoryCount, memoryStr, video⟩
      ⟨⟨eax', ebx, ecx, edx, esi, edi, ebp⟩, .addEbx, stack, zf', cf', gs, extended,
        memoryCount, memoryStr, video⟩ := by
  have hnot : decide (writeTo writable extended ebx memorySign ebx = memorySign) = false :=
    decide_eq_false fun hshown => writeTo_self.mp hshown hstops
  have hkeep : writeTo writable extended ebx memorySign = extended := by
    funext x
    unfold writeTo
    by_cases hx : x = ebx
    · rw [if_neg]
      rintro ⟨-, hwritable⟩
      rw [hx, hstops.1] at hwritable
      exact Bool.noConfusion hwritable
    · rw [if_neg fun h => hx h.1]
  have hfront := @steps_writeSign writable exitFlag eax ebx ecx edx esi edi ebp stack zf cf gs
    extended memoryCount memoryStr video
  rw [hnot, hkeep] at hfront
  exact ⟨_, _, _, Reaches.trans ⟨4, hfront⟩ ⟨1, rfl⟩⟩

/-- The count comes to the first byte that does not show the sign. -/
theorem goes_countTo {a : BitVec 32} (hleast : ∀ b < a, ¬ Stops writable extended b) :
    ∃ eax' zf' cf', Goes writable exitFlag
      ⟨⟨eax, 0, ecx, edx, esi, edi, ebp⟩, .loadOld, stack, zf, cf, gs, extended,
        memoryCount, memoryStr, video⟩
      ⟨⟨eax', a, ecx, edx, esi, edi, ebp⟩, .loadOld, stack, zf', cf', gs, extended,
        memoryCount, memoryStr, video⟩ := by
  obtain ⟨c, hgoes, eax', b, zf', cf', hb, rfl⟩ := @Reaches.loop _
    (Core.step writable exitFlag) _ a.toNat
    (fun k c => ∃ (eax' b : BitVec 32) (zf' cf' : Bool), b.toNat + k = a.toNat ∧
      c = ⟨⟨eax', b, ecx, edx, esi, edi, ebp⟩, .loadOld, stack, zf', cf', gs, extended,
        memoryCount, memoryStr, video⟩)
    (by
      rintro k c ⟨eax', b, zf', cf', hb, rfl⟩
      have hless : b < a := BitVec.lt_def.mpr (by omega)
      obtain ⟨eax'', zf'', cf'', hsteps⟩ := steps_count (hleast b hless)
      have hnext : (b + 1).toNat = b.toNat + 1 := by
        rw [BitVec.toNat_add]
        simp
        omega
      exact ⟨_, ⟨8, hsteps⟩, eax'', b + 1, zf'', cf'', by omega, rfl⟩)
    ⟨eax, 0, zf, cf, by simp, rfl⟩
  obtain rfl : b = a := BitVec.eq_of_toNat_eq hb
  exact ⟨eax', zf', cf', hgoes⟩

/-! ## `print_memory_count` -/

/-- The megabytes of a number of bytes. -/
def megabytes (count : BitVec 32) : BitVec 32 :=
  BitVec.ofNat 32 (count.toNat / 2 ^ 20)

theorem toNat_megabytes (count : BitVec 32) :
    (megabytes count).toNat = count.toNat / 2 ^ 20 := by
  have hlt := count.isLt
  rw [megabytes, BitVec.toNat_ofNat]
  omega

theorem quotient_megabyte (count : BitVec 32) :
    quotient 0 count megabyte =
      some (megabytes count, BitVec.ofNat 32 (count.toNat % 2 ^ 20)) := by
  have hmega : megabyte.toNat = 2 ^ 20 := rfl
  have hzero : (0 : BitVec 32).toNat * 2 ^ 32 + count.toNat = count.toNat := by simp
  have hlt := count.isLt
  have hsmall : ¬ (megabyte.toNat = 0 ∨ 2 ^ 32 ≤ count.toNat / megabyte.toNat) := by
    rw [hmega]
    omega
  unfold quotient
  dsimp only
  rw [hzero, if_neg hsmall, hmega]
  rfl

/-- From the end of the count to the call of `wrd_asc`. -/
theorem goes_divide :
    Goes writable exitFlag
      ⟨⟨eax, ebx, ecx, edx, esi, edi, ebp⟩, .addEbx, stack, zf, cf, gs, extended,
        memoryCount, memoryStr, video⟩
      ⟨⟨megabytes (ebx + megabyte), megabyte, ecx,
          BitVec.ofNat 32 ((ebx + megabyte).toNat % 2 ^ 20),
          setLow esi (memoryStrOffset + 21), edi, ebp⟩, .pusha,
        .address .shrEax :: stack, zf, cf, gs, extended, ebx + megabyte, memoryStr, video⟩ := by
  have hfront : Goes writable exitFlag
      ⟨⟨eax, ebx, ecx, edx, esi, edi, ebp⟩, .addEbx, stack, zf, cf, gs, extended,
        memoryCount, memoryStr, video⟩
      ⟨⟨ebx + megabyte, megabyte, ecx, 0, esi, edi, ebp⟩, .divEbx, stack, zf, cf, gs,
        extended, ebx + megabyte, memoryStr, video⟩ := ⟨5, rfl⟩
  have hdivide : Core.step writable exitFlag
      ⟨⟨ebx + megabyte, megabyte, ecx, 0, esi, edi, ebp⟩, .divEbx, stack, zf, cf, gs,
        extended, ebx + megabyte, memoryStr, video⟩ =
      some ⟨⟨megabytes (ebx + megabyte), megabyte, ecx,
          BitVec.ofNat 32 ((ebx + megabyte).toNat % 2 ^ 20), esi, edi, ebp⟩, .movSiLow,
        stack, zf, cf, gs, extended, ebx + megabyte, memoryStr, video⟩ := by
    simp only [Core.step, Core.divide, quotient_megabyte, Option.map_some]
    rfl
  have hcall : Goes writable exitFlag
      ⟨⟨megabytes (ebx + megabyte), megabyte, ecx,
          BitVec.ofNat 32 ((ebx + megabyte).toNat % 2 ^ 20), esi, edi, ebp⟩, .movSiLow,
        stack, zf, cf, gs, extended, ebx + megabyte, memoryStr, video⟩
      ⟨⟨megabytes (ebx + megabyte), megabyte, ecx,
          BitVec.ofNat 32 ((ebx + megabyte).toNat % 2 ^ 20),
          setLow esi (memoryStrOffset + 21), edi, ebp⟩, .pusha,
        .address .shrEax :: stack, zf, cf, gs, extended, ebx + megabyte, memoryStr, video⟩ :=
    ⟨2, rfl⟩
  exact (hfront.trans (Reaches.of_step hdivide)).trans hcall

/-- The string with the digits of both halves. -/
def amountStr (memoryStr : Nat → Byte) (amount : BitVec 32) : Nat → Byte :=
  putDigits (putDigits memoryStr (memoryStrOffset + 21) (low amount)) (memoryStrOffset + 16)
    (low (amount >>> 16))

/-- Up to the loop that prints the string. -/
theorem goes_toPrint :
    ∃ (regs : Registers) (zf' cf' : Bool), (low regs.ecx).toNat = memoryStrLen ∧
      Goes writable exitFlag
      ⟨⟨eax, ebx, ecx, edx, esi, edi, ebp⟩, .addEbx, stack, zf, cf, gs, extended,
        memoryCount, memoryStr, video⟩
      ⟨regs, .lodsb, stack, zf', cf', gs, extended, ebx + megabyte,
        amountStr memoryStr (megabytes (ebx + megabyte)), video⟩ := by
  obtain ⟨zf₁, cf₁, hlow⟩ := @goes_wrdAsc writable exitFlag
    (megabytes (ebx + megabyte)) megabyte ecx
    (BitVec.ofNat 32 ((ebx + megabyte).toNat % 2 ^ 20)) (setLow esi (memoryStrOffset + 21))
    edi ebp stack zf cf gs extended (ebx + megabyte) memoryStr video .shrEax
  have hnext : Goes writable exitFlag
      ⟨⟨megabytes (ebx + megabyte), megabyte, ecx,
          BitVec.ofNat 32 ((ebx + megabyte).toNat % 2 ^ 20),
          setLow esi (memoryStrOffset + 21), edi, ebp⟩, .shrEax, stack, zf₁, cf₁, gs,
        extended, ebx + megabyte,
        putDigits memoryStr (low (setLow esi (memoryStrOffset + 21)))
          (low (megabytes (ebx + megabyte))), video⟩
      ⟨⟨megabytes (ebx + megabyte) >>> 16, megabyte, ecx,
          BitVec.ofNat 32 ((ebx + megabyte).toNat % 2 ^ 20),
          setLow (setLow esi (memoryStrOffset + 21)) (memoryStrOffset + 16), edi, ebp⟩,
        .pusha, .address .movSiStr :: stack, zf₁, cf₁, gs, extended, ebx + megabyte,
        putDigits memoryStr (low (setLow esi (memoryStrOffset + 21)))
          (low (megabytes (ebx + megabyte))), video⟩ := ⟨3, rfl⟩
  obtain ⟨zf₂, cf₂, hhigh⟩ := @goes_wrdAsc writable exitFlag
    (megabytes (ebx + megabyte) >>> 16) megabyte ecx
    (BitVec.ofNat 32 ((ebx + megabyte).toNat % 2 ^ 20))
    (setLow (setLow esi (memoryStrOffset + 21)) (memoryStrOffset + 16)) edi ebp stack zf₁ cf₁
    gs extended (ebx + megabyte)
    (putDigits memoryStr (low (setLow esi (memoryStrOffset + 21)))
      (low (megabytes (ebx + megabyte)))) video .movSiStr
  have hdivide := @goes_divide writable exitFlag eax ebx ecx edx esi edi ebp stack zf cf gs
    extended memoryCount memoryStr video
  have hgoes := ((hdivide.trans hlow).trans hnext).trans hhigh
  rw [low_setLow, low_setLow, setLow_setLow] at hgoes
  have hlast : Goes writable exitFlag
      ⟨⟨megabytes (ebx + megabyte) >>> 16, megabyte, ecx,
          BitVec.ofNat 32 ((ebx + megabyte).toNat % 2 ^ 20),
          setLow esi (memoryStrOffset + 16), edi, ebp⟩, .movSiStr, stack, zf₂, cf₂, gs,
        extended, ebx + megabyte, amountStr memoryStr (megabytes (ebx + megabyte)), video⟩
      ⟨⟨setHighByte (megabytes (ebx + megabyte) >>> 16) 0x40, megabyte,
          setLow ecx (BitVec.ofNat 16 memoryStrLen),
          BitVec.ofNat 32 ((ebx + megabyte).toNat % 2 ^ 20),
          setLow (setLow esi (memoryStrOffset + 16)) memoryStrOffset,
          setLow edi memoryStrOutput, ebp⟩, .lodsb, stack, zf₂, cf₂, gs, extended,
        ebx + megabyte, amountStr memoryStr (megabytes (ebx + megabyte)), video⟩ := ⟨4, rfl⟩
  refine ⟨_, zf₂, cf₂, ?_, hgoes.trans hlast⟩
  rw [low_setLow]
  rfl

end

/-! ## `mem_scrn` -/

/-- `mem_scrn` with `k` characters before it, or past it. -/
structure Printing (start : Core) (k : Nat) (c : Core) : Prop where
  pc : c.pc = if k = 0 then .cmpExit else .lodsb
  located : Located c
  count : k ≠ 0 → (low c.regs.ecx).toNat = k
  memoryStr : c.memoryStr = start.memoryStr
  stack : c.stack = start.stack
  extended : c.extended = start.extended
  memoryCount : c.memoryCount = start.memoryCount
  outside : ∀ o, o < memoryStrOutput.toNat ∨
    memoryStrOutput.toNat + 2 * memoryStrLen ≤ o → c.video o = start.video o

theorem storeWord_outside {video : Nat → Byte} {o x : Nat} {word : Word}
    (hx : x < o ∨ o + 2 ≤ x) : storeWord video o word x = video x := by
  unfold storeWord
  rw [if_neg (by omega), if_neg (by omega)]

theorem Printing.round {start : Core} {k : Nat} (h : Printing start (k + 1) c) :
    ∃ c', Goes writable exitFlag c c' ∧ Printing start k c' := by
  have hpc : c.pc = .lodsb := by simpa using h.pc
  have hcount := h.count (Nat.succ_ne_zero k)
  obtain ⟨j, hj, hdi⟩ : ∃ j < memoryStrLen, di c = memoryStrOutput.toNat + 2 * j := by
    have hlocated := h.located
    simp only [Located, hpc] at hlocated
    obtain ⟨j, hj, -, -, hdi⟩ := hlocated
    exact ⟨j, hj, hdi⟩
  have hmemory := h.memoryStr
  have hstack := h.stack
  have hextended := h.extended
  have htotal := h.memoryCount
  have houtside := h.outside
  have hlocated := h.located
  obtain ⟨⟨eax, ebx, ecx, edx, esi, edi, ebp⟩, pc, stack, zf, cf, gs, extended, memoryCount,
    memoryStr, video⟩ := c
  obtain rfl : pc = .lodsb := hpc
  have hsteps : steps (Core.step writable exitFlag) 3
      ⟨⟨eax, ebx, ecx, edx, esi, edi, ebp⟩, .lodsb, stack, zf, cf, gs, extended,
        memoryCount, memoryStr, video⟩ =
      some ⟨⟨setLowByte eax (memoryStr (low esi).toNat), ebx, setLow ecx (low ecx - 1), edx,
          setLow esi (low esi + 1), setLow edi (low edi + 2), ebp⟩,
        if low ecx - 1 = 0 then .cmpExit else .lodsb, stack, zf, cf, gs, extended,
        memoryCount, memoryStr,
        storeWord video (low edi).toNat
          (low (setLowByte eax (memoryStr (low esi).toNat)))⟩ := rfl
  have hgoes : Goes writable exitFlag _ _ := ⟨3, hsteps⟩
  have hless : (low ecx - 1).toNat = k := by
    change (low ecx).toNat = k + 1 at hcount
    have hlt := (low ecx).isLt
    rw [BitVec.toNat_sub, hcount]
    simp
    omega
  have hzero : low ecx - 1 = 0 ↔ k = 0 := by
    rw [← hless]
    constructor
    · intro hend
      rw [hend]
      rfl
    · intro hend
      exact BitVec.eq_of_toNat_eq hend
  refine ⟨_, hgoes, ?_⟩
  exact
    { pc := by
        dsimp only
        by_cases hk : k = 0
        · rw [if_pos (hzero.mpr hk), if_pos hk]
        · rw [if_neg fun hend => hk (hzero.mp hend), if_neg hk]
      located := hgoes.keep (fun _ _ hs hstep => located_step hs hstep) hlocated
      count := by
        intro _
        change (low (setLow ecx (low ecx - 1))).toNat = k
        rw [low_setLow]
        exact hless
      memoryStr := hmemory
      stack := hstack
      extended := hextended
      memoryCount := htotal
      outside := by
        intro o ho
        change (low edi).toNat = _ at hdi
        change storeWord video (low edi).toNat _ o = start.video o
        rw [hdi, storeWord_outside (by omega)]
        exact houtside o ho }

/-! ## The whole way -/

/-- `memory_str` in the data segment. -/
def startStr : Nat → Byte := fun x =>
  if x < memoryStrOffset.toNat then 0
  else (memoryStrText[x - memoryStrOffset.toNat]?).getD 0

/-- `Memory amount - HHHH HHHHh` -/
def amountText (n : Nat) : List Byte :=
  memoryStrText.take 16 ++ hexWord (n / 2 ^ 16) ++ [0x20] ++ hexWord (n % 2 ^ 16) ++ [0x68]

theorem amountStr_eq (amount : BitVec 32) {i : Nat} (hi : i < memoryStrLen) :
    amountStr startStr amount (memoryStrOffset.toNat + i) =
      ((amountText amount.toNat)[i]?).getD 0 := by
  have hlow : (low amount).toNat = amount.toNat % 2 ^ 16 := by
    simp [low]
  have hhigh : (low (amount >>> 16)).toNat = amount.toNat / 2 ^ 16 := by
    have hlt := amount.isLt
    simp only [low, BitVec.extractLsb'_toNat, BitVec.toNat_ushiftRight,
      Nat.shiftRight_eq_div_pow]
    omega
  unfold amountStr
  rw [putDigits_eq (by decide), putDigits_eq (by decide), hlow, hhigh]
  unfold memoryStrLen at hi
  interval_cases i <;> rfl

variable (writable) in
theorem goes_start (segment : StackSegment) (regs : Registers) (stack : List Slot)
    (extended : BitVec 32 → Byte) (video : Nat → Byte) :
    steps (Core.step writable exitFlag) 3 (State.start segment regs stack extended video).core =
      some ⟨⟨setLow regs.eax 40, 0, regs.ecx, regs.edx, regs.esi, setLow regs.edi 210,
          regs.ebp⟩, .loadOld, stack, false, false, low (setLow regs.eax 40), extended, 0,
        startStr, video⟩ := rfl

variable (segment : StackSegment) (regs : Registers) (stack : List Slot)
  (extended : BitVec 32 → Byte) (video : Nat → Byte)

theorem exists_least {extended : BitVec 32 → Byte} (hsome : ∃ a, Stops writable extended a) :
    ∃ a, Stops writable extended a ∧ ∀ b < a, ¬ Stops writable extended b := by
  classical
  have hexists : ∃ (n : Nat) (a : BitVec 32), Stops writable extended a ∧ a.toNat = n := by
    obtain ⟨a, ha⟩ := hsome
    exact ⟨a.toNat, a, ha, rfl⟩
  obtain ⟨a, hstops, ha⟩ := Nat.find_spec hexists
  refine ⟨a, hstops, fun b hless hb => ?_⟩
  have hle := Nat.find_min' hexists ⟨b, hb, rfl⟩
  have hlt := BitVec.lt_def.mp hless
  omega

/-- The count ends at the first byte that does not show the sign. -/
theorem goes_countOver {a : BitVec 32} (hstops : Stops writable extended a)
    (hleast : ∀ b < a, ¬ Stops writable extended b) :
    ∃ (eax : BitVec 32) (zf cf : Bool), Goes writable exitFlag
      (State.start segment regs stack extended video).core
      ⟨⟨eax, a, regs.ecx, regs.edx, regs.esi, setLow regs.edi 210, regs.ebp⟩, .addEbx, stack,
        zf, cf, low (setLow regs.eax 40), extended, 0, startStr, video⟩ := by
  obtain ⟨eax₁, zf₁, cf₁, hcount⟩ := @goes_countTo writable exitFlag (setLow regs.eax 40)
    regs.ecx regs.edx regs.esi (setLow regs.edi 210) regs.ebp stack false false
    (low (setLow regs.eax 40)) extended 0 startStr video a hleast
  obtain ⟨eax₂, zf₂, cf₂, hend⟩ := @goes_countEnd writable exitFlag eax₁ a regs.ecx regs.edx
    regs.esi (setLow regs.edi 210) regs.ebp stack zf₁ cf₁ (low (setLow regs.eax 40)) extended
    0 startStr video hstops
  exact ⟨eax₂, zf₂, cf₂,
    (Reaches.trans ⟨3, goes_start writable segment regs stack extended video⟩ hcount).trans hend⟩

/-- As long as every byte shows the sign the program goes on counting. -/
theorem never_counted (hnone : ∀ a, ¬ Stops writable extended a)
    (hgoes : Goes writable exitFlag (State.start segment regs stack extended video).core c) :
    c.pc ≠ .addEbx := by
  obtain ⟨n, hn⟩ := hgoes
  by_cases hshort : n < 3
  · interval_cases n
    all_goals
      obtain rfl := Option.some.inj hn
      exact Pc.noConfusion
  obtain ⟨k, rfl⟩ : ∃ k, n = 3 + k := ⟨n - 3, by omega⟩
  rw [steps_add, goes_start, Option.bind_some] at hn
  -- Eight instructions lead from one byte to the next.
  apply @never_left _ (Core.step writable exitFlag) _ c
    (fun c => ∃ (eax b : BitVec 32) (zf cf : Bool),
      c = ⟨⟨eax, b, regs.ecx, regs.edx, regs.esi, setLow regs.edi 210, regs.ebp⟩, .loadOld,
        stack, zf, cf, low (setLow regs.eax 40), extended, 0, startStr, video⟩)
    (fun c => c.pc ≠ .addEbx) 8 (by decide) _ _ ⟨_, _, _, _, rfl⟩ ⟨k, hn⟩
  · rintro _ ⟨eax, b, zf, cf, rfl⟩
    obtain ⟨eax', zf', cf', hsteps⟩ := steps_count (hnone b)
    exact ⟨_, hsteps, eax', b + 1, zf', cf', rfl⟩
  · rintro _ ⟨eax, b, zf, cf, rfl⟩ m hm t ht
    have hshown := writeTo_self.mpr (hnone b)
    by_cases hfront : m < 5
    · interval_cases m
      all_goals
        obtain rfl := Option.some.inj ht
        exact Pc.noConfusion
    · obtain ⟨j, rfl⟩ : ∃ j, m = 4 + j := ⟨m - 4, by omega⟩
      rw [steps_add, steps_writeSign, Option.bind_some, hshown] at ht
      have hj : j < 4 := by omega
      have hpos : 0 < j := by omega
      interval_cases j
      all_goals
        obtain rfl := Option.some.inj ht
        exact Pc.noConfusion

/-- Instructions without interrupts are a run of the program. -/
theorem run_instr {s : State} {n : Nat}
    (hsteps : steps (Core.step writable s.vars.exitFlag) n s.core = some c) :
    run (exec writable) s (List.replicate n .instr) = some { s with core := c } := by
  induction n generalizing s with
  | zero =>
      rw [steps, Option.some.injEq] at hsteps
      subst hsteps
      rfl
  | succ n ih =>
      obtain ⟨next, hnext, hrest⟩ := Option.bind_eq_some_iff.mp hsteps
      have hinstr : exec writable s .instr = some { s with core := next } := by
        rw [exec, hnext]
        rfl
      rw [List.replicate_succ, run_cons]
      exact ⟨_, hinstr, ih hrest⟩

/-- With the stack below the first megabyte, the program comes out of its count
exactly when some byte of extended memory does not show the sign that is written to it.  When `a` is the first such byte, the
program comes to `endless_loop` with extended memory as it was, and the last line of
the screen says in megabytes how much memory there is below `a` and a megabyte. -/
theorem memory_amount_shown :
    ((∃ c, Goes writable 0 (State.start segment regs stack extended video).core c ∧
        c.pc = .addEbx) ↔ ∃ a, Stops writable extended a) ∧
    ∀ a, Stops writable extended a → (∀ b < a, ¬ Stops writable extended b) →
      ∃ n s, run (exec writable) (State.start segment regs stack extended video)
          (List.replicate n .instr) = some s ∧
        s.core.pc = .cmpExit ∧ s.core.stack = stack ∧ s.core.extended = extended ∧
        s.core.memoryCount = a + megabyte ∧
        (∀ i < memoryStrLen, cellAt s.core.video (memoryStrOutput.toNat + 2 * i) =
          (0x40 : Byte) ++
            ((amountText ((a + megabyte).toNat / 2 ^ 20))[i]?).getD 0) ∧
        ∀ o, o < memoryStrOutput.toNat ∨ memoryStrOutput.toNat + 2 * memoryStrLen ≤ o →
          s.core.video o = video o := by
  constructor
  · constructor
    · rintro ⟨c, hgoes, hpc⟩
      by_contra hnone
      push Not at hnone
      exact never_counted segment regs stack extended video hnone hgoes hpc
    · rintro ⟨a, ha⟩
      obtain ⟨b, hstops, hleast⟩ := exists_least ⟨a, ha⟩
      obtain ⟨eax, zf, cf, hgoes⟩ := @goes_countOver writable 0 segment regs stack extended video b
        hstops hleast
      exact ⟨_, hgoes, rfl⟩
  · intro a hstops hleast
    obtain ⟨eax, zf, cf, hcount⟩ := @goes_countOver writable 0 segment regs stack extended video a
      hstops hleast
    obtain ⟨regs', zf', cf', hcx, hprint⟩ := @goes_toPrint writable 0 eax a regs.ecx regs.edx
      regs.esi (setLow regs.edi 210) regs.ebp stack zf cf (low (setLow regs.eax 40)) extended 0
      startStr video
    have hgoes := hcount.trans hprint
    have hlocated := hgoes.keep (fun _ _ hs hstep => located_step hs hstep)
      (located_start segment regs stack extended video)
    have hprinting : Printing _ memoryStrLen _ :=
      { pc := rfl
        located := hlocated
        count := fun _ => hcx
        memoryStr := rfl
        stack := rfl
        extended := rfl
        memoryCount := rfl
        outside := fun _ _ => rfl }
    obtain ⟨c, hscreen, hdone⟩ := @Reaches.loop _ (Core.step writable 0) _ memoryStrLen
      (Printing _) (fun _ _ h => h.round) hprinting
    obtain ⟨n, hn⟩ := hgoes.trans hscreen
    refine ⟨n, _, @run_instr writable c (State.start segment regs stack extended video) n hn,
      hdone.pc, hdone.stack, hdone.extended, hdone.memoryCount, ?_, hdone.outside⟩
    have hcopied := hdone.located
    simp only [Located, hdone.pc, if_true] at hcopied
    intro i hi
    change cellAt c.video _ = _
    have hchar : c.memoryStr (memoryStrOffset.toNat + i) =
        ((amountText ((a + megabyte).toNat / 2 ^ 20))[i]?).getD 0 := by
      rw [hdone.memoryStr, ← toNat_megabytes]
      exact amountStr_eq _ hi
    rw [hcopied.1 i hi, stringCell, hchar]

/-- A machine with sixteen megabytes. -/
theorem memory_amount_shown_sixteen :
    ∃ n s, run (exec fun a => decide (a < 0xF00000))
        (State.start lowSegment ⟨0, 0, 0, 0, 0, 0, 0⟩ [] (fun _ => 0) fun _ => 0)
          (List.replicate n .instr) = some s ∧
      s.core.memoryCount = 0x1000000 ∧
      cellAt s.core.video (memoryStrOutput.toNat + 2 * 23) = 0x4031 := by
  have hstops : Stops (fun a => decide (a < 0xF00000)) (fun _ => 0) 0xF00000 := by
    constructor
    · decide
    · decide
  have hleast : ∀ b < (0xF00000 : BitVec 32),
      ¬ Stops (fun a => decide (a < 0xF00000)) (fun _ => 0) b := by
    rintro b hless ⟨hwritable, -⟩
    exact of_decide_eq_false hwritable hless
  obtain ⟨n, s, hrun, -, -, -, hcount, hcells, -⟩ :=
    (memory_amount_shown lowSegment ⟨0, 0, 0, 0, 0, 0, 0⟩ [] (fun _ => 0) fun _ => 0).2
      0xF00000 hstops hleast
  refine ⟨n, s, hrun, hcount, ?_⟩
  rw [hcells 23 (by decide)]
  rfl

end ProtectedMode
end OsStuff
