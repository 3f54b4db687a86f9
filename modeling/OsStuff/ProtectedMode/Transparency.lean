import OsStuff.Library.Run
import OsStuff.ProtectedMode.LineEditor
import OsStuff.ProtectedMode.MemoryProgram

/-!
# Interrupts in the running program

Both handlers put `AX` and `BX` back, but not `DI`.  Where the program is, the
value of `DI` is known (`Located`): `welcome_scrn` leaves it behind its text, and
`mem_scrn` moves it along the last line of the screen.  A handler that writes to
the screen leaves another one.
-/

namespace OsStuff
namespace ProtectedMode

open Library

variable {writable : BitVec 32 → Bool} {exitFlag : Byte} {c c' : Core} {k : Nat}

/-! ### The position of the program -/

/-- `pusha` has saved `DI`, and the return address is below it, under `depth`
more words. -/
def Framed (depth : Nat) (stack : List Slot) : Prop :=
  stack[depth]? = some (.word 210) ∧
    (stack[depth + 8]? = some (.address .shrEax) ∨
      stack[depth + 8]? = some (.address .movSiStr))

/-- The return address of `wrd_asc` is on top. -/
def Returning (stack : List Slot) : Prop :=
  stack[0]? = some (.address .shrEax) ∨ stack[0]? = some (.address .movSiStr)

/-- The cell that `mem_scrn` makes of a character of the string. -/
def stringCell (memoryStr : Nat → Byte) (i : Nat) : Word :=
  (0x40 : Byte) ++ memoryStr (memoryStrOffset.toNat + i)

/-- The first `k` characters are on the screen. -/
def Copied (k : Nat) (c : Core) : Prop :=
  ∀ i < k, cellAt c.video (memoryStrOutput.toNat + 2 * i) = stringCell c.memoryStr i

def di (c : Core) : Nat := (low c.regs.edi).toNat

/-- `mem_scrn` has `count` characters before it. -/
structure Copying (count : Nat) (c : Core) : Prop where
  cx : (low c.regs.ecx).toNat = count
  si : (low c.regs.esi).toNat = memoryStrOffset.toNat + (memoryStrLen - count)
  attr : highByte c.regs.eax = 0x40

/-- What is known at each instruction. -/
def Located (c : Core) : Prop :=
  match c.pc with
  | .xorEbx | .movAx40 | .movGs | .loadOld | .loadSign | .storeSign | .cmpSign
  | .jnePrint | .storeOld | .incEbx | .jmpCount | .addEbx | .storeCount | .loadCount
  | .xorEdx | .movEbxMega | .divEbx | .movSiLow | .callLow | .shrEax | .movSiHigh
  | .callHigh | .movSiStr => di c = 210
  | .movCxLen => di c = 210 ∧ low c.regs.esi = memoryStrOffset
  | .movAhAttr =>
      di c = 210 ∧ low c.regs.esi = memoryStrOffset ∧
        (low c.regs.ecx).toNat = memoryStrLen
  | .movDiOutput => di c = 210 ∧ Copying memoryStrLen c
  | .lodsb =>
      ∃ k < memoryStrLen, Copying (memoryStrLen - k) c ∧ Copied k c ∧
        di c = memoryStrOutput.toNat + 2 * k
  | .stosw =>
      ∃ k < memoryStrLen, (low c.regs.ecx).toNat = memoryStrLen - k ∧
        (low c.regs.esi).toNat = memoryStrOffset.toNat + (k + 1) ∧
        low c.regs.eax = stringCell c.memoryStr k ∧ Copied k c ∧
        di c = memoryStrOutput.toNat + 2 * k
  | .loopScrn =>
      ∃ k < memoryStrLen, (low c.regs.ecx).toNat = memoryStrLen - k ∧
        (low c.regs.esi).toNat = memoryStrOffset.toNat + (k + 1) ∧
        highByte c.regs.eax = 0x40 ∧ Copied (k + 1) c ∧
        di c = memoryStrOutput.toNat + 2 * (k + 1)
  | .cmpExit | .jeHome | .jmpEndless | .home =>
      Copied memoryStrLen c ∧ di c = memoryStrOutput.toNat + 2 * memoryStrLen
  | .pusha | .retWrd => di c = 210 ∧ Returning c.stack
  | .movBx | .movDl | .movCx4 | .pushCx | .loopCccc | .popa =>
      di c = 210 ∧ Framed 0 c.stack
  | .pushAx | .shrBx | .subDl | .popCx => di c = 210 ∧ Framed 1 c.stack
  | .andAx | .movCl | .shrAx | .callBin | .storeDigit | .incSi | .popAx =>
      di c = 210 ∧ Framed 2 c.stack
  | .cmpNine | .jaLettr | .addDigit | .jmpOk | .addLetter | .retBin =>
      di c = 210 ∧ Framed 3 c.stack ∧ c.stack[0]? = some (.address .storeDigit)

/-! ### What an instruction leaves alone -/

section

variable (value : BitVec 32) (word : Word) (byte x y : Byte) (offset : Nat) (pc : Pc)
  (slot : Slot)

@[simp] theorem pc_jump : (c.jump pc).pc = pc := rfl
@[simp] theorem stack_jump : (c.jump pc).stack = c.stack := rfl
@[simp] theorem stack_setEax : (c.setEax value).stack = c.stack := rfl
@[simp] theorem stack_setEbx : (c.setEbx value).stack = c.stack := rfl
@[simp] theorem stack_setEcx : (c.setEcx value).stack = c.stack := rfl
@[simp] theorem stack_setEdx : (c.setEdx value).stack = c.stack := rfl
@[simp] theorem stack_setEsi : (c.setEsi value).stack = c.stack := rfl
@[simp] theorem stack_compare : (c.compare x y).stack = c.stack := rfl
@[simp] theorem stack_storeStr : (c.storeStr offset byte).stack = c.stack := rfl

@[simp] theorem di_jump : di (c.jump pc) = di c := rfl
@[simp] theorem di_setEax : di (c.setEax value) = di c := rfl
@[simp] theorem di_setEbx : di (c.setEbx value) = di c := rfl
@[simp] theorem di_setEcx : di (c.setEcx value) = di c := rfl
@[simp] theorem di_setEdx : di (c.setEdx value) = di c := rfl
@[simp] theorem di_setEsi : di (c.setEsi value) = di c := rfl
@[simp] theorem di_setGs : di (c.setGs word) = di c := rfl
@[simp] theorem di_setMemoryCount : di (c.setMemoryCount value) = di c := rfl
@[simp] theorem di_compare : di (c.compare x y) = di c := rfl
@[simp] theorem di_storeStr : di (c.storeStr offset byte) = di c := rfl
@[simp] theorem di_storeExtended :
    di (c.storeExtended writable value byte) = di c := rfl

@[simp] theorem copied_jump : Copied k (c.jump pc) ↔ Copied k c := Iff.rfl
@[simp] theorem copied_compare : Copied k (c.compare x y) ↔ Copied k c := Iff.rfl

end

theorem di_of_divide (hdiv : c.divide = some c') : di c' = di c := by
  rw [Core.divide, Option.map_eq_some_iff] at hdiv
  obtain ⟨result, -, rfl⟩ := hdiv
  rfl

/-! ### The stack -/

theorem Framed.push {depth : Nat} {stack : List Slot} (h : Framed depth stack)
    (slot : Slot) : Framed (depth + 1) (slot :: stack) := by
  have hback : depth + 1 + 8 = depth + 8 + 1 := by omega
  unfold Framed
  rw [hback, List.getElem?_cons_succ, List.getElem?_cons_succ]
  exact h

theorem Framed.pop {depth : Nat} {slot : Slot} {stack : List Slot}
    (h : Framed (depth + 1) (slot :: stack)) : Framed depth stack := by
  have hback : depth + 1 + 8 = depth + 8 + 1 := by omega
  unfold Framed at h
  rw [hback, List.getElem?_cons_succ, List.getElem?_cons_succ] at h
  exact h

theorem ret_eq_some (hret : c.ret = some c') :
    ∃ pc, c.stack[0]? = some (.address pc) ∧
      c' = { c with stack := c.stack.tail, pc := pc } := by
  unfold Core.ret at hret
  split at hret
  · next pc stack hstack =>
      refine ⟨pc, by rw [hstack]; rfl, ?_⟩
      rw [hstack]
      exact (Option.some.inj hret).symm
  · exact absurd hret (by simp)

theorem pop_eq_some {set : Core → Word → Core} (hpop : c.pop set = some c') :
    ∃ value stack, c.stack = .word value :: stack ∧
      c' = set { c with stack := stack } value := by
  unfold Core.pop at hpop
  split at hpop
  · next value stack hstack => exact ⟨value, stack, hstack, (Option.some.inj hpop).symm⟩
  · exact absurd hpop (by simp)

theorem popAll_eq_some (hpop : c.popAll = some c') :
    ∃ value, c.stack[0]? = some (.word value) ∧ low c'.regs.edi = value ∧
      c'.stack = c.stack.drop 8 := by
  unfold Core.popAll at hpop
  split at hpop
  · next di _ _ _ _ _ _ _ _ hstack =>
      obtain rfl := Option.some.inj hpop
      exact ⟨di, by rw [hstack]; rfl, low_setLow _ _, by rw [hstack]; rfl⟩
  · exact absurd hpop (by simp)

/-! ### Bytes of a register -/

theorem lowByte_setLowByte (reg : BitVec 32) (byte : Byte) :
    lowByte (setLowByte reg byte) = byte :=
  BitVec.extractLsb'_append_eq_right

theorem highByte_setLowByte (reg : BitVec 32) (byte : Byte) :
    highByte (setLowByte reg byte) = highByte reg := by
  ext i hi
  have hlow : ¬ 8 + i < 8 := by omega
  have hin : i < 24 := by omega
  simp only [highByte, setLowByte, BitVec.getElem_extractLsb', BitVec.getLsbD_append,
    BitVec.getLsbD_extractLsb', if_neg hlow]
  simp [hin]

theorem highByte_setHighByte (reg : BitVec 32) (byte : Byte) :
    highByte (setHighByte reg byte) = byte := by
  ext i hi
  have hlow : ¬ 8 + i < 8 := by omega
  simp only [highByte, setHighByte, BitVec.getElem_extractLsb', BitVec.getLsbD_append,
    BitVec.getLsbD_extractLsb', if_neg hlow]
  simp [hi]

theorem low_eq_bytes (reg : BitVec 32) : low reg = highByte reg ++ lowByte reg := by
  have h : reg.extractLsb' 8 8 ++ reg.extractLsb' 0 8 =
      (reg.extractLsb' 0 (8 + 8)).cast rfl :=
    BitVec.extractLsb'_append_extractLsb'_eq_extractLsb' (by rfl)
  exact h.symm

/-! ### One instruction -/

theorem located_lodsb (hpc : c.pc = .lodsb) (h : Located c)
    (hstep : c.step writable exitFlag = some c') : Located c' := by
  simp only [Located, hpc] at h
  simp only [Core.step, hpc, Option.some.injEq] at hstep
  obtain ⟨k, hk, hcopying, hcopied, hdi⟩ := h
  have hsi := hcopying.si
  have hlen : memoryStrLen - (memoryStrLen - k) = k := by omega
  rw [hlen] at hsi
  subst hstep
  refine ⟨k, hk, hcopying.cx, ?_, ?_, hcopied, hdi⟩
  · change (low (setLow c.regs.esi (low c.regs.esi + 1))).toNat = _
    rw [low_setLow, BitVec.toNat_add, hsi]
    simp [memoryStrOffset, memoryStrLen] at hk ⊢
    omega
  · change low (setLowByte c.regs.eax (c.memoryStr (low c.regs.esi).toNat)) =
      stringCell c.memoryStr k
    rw [low_eq_bytes, highByte_setLowByte, lowByte_setLowByte, hcopying.attr, hsi]
    rfl

theorem located_stosw (hpc : c.pc = .stosw) (h : Located c)
    (hstep : c.step writable exitFlag = some c') : Located c' := by
  simp only [Located, hpc] at h
  simp only [Core.step, hpc, Option.some.injEq] at hstep
  obtain ⟨k, hk, hcx, hsi, hax, hcopied, hdi⟩ := h
  have hattr : highByte c.regs.eax = 0x40 := by
    have h := congrArg (BitVec.extractLsb' 8 8) hax
    rw [low_eq_bytes, stringCell, BitVec.extractLsb'_append_eq_left,
      BitVec.extractLsb'_append_eq_left] at h
    exact h
  subst hstep
  refine ⟨k, hk, hcx, hsi, hattr, ?_, ?_⟩
  · intro i hi
    change cellAt (storeWord c.video (di c) (low c.regs.eax)) _ = stringCell c.memoryStr i
    rw [hdi, hax]
    by_cases hlast : i = k
    · rw [hlast]
      exact cellAt_storeWord_same
    · rw [cellAt_storeWord_of_ne (by omega) (by omega)]
      exact hcopied i (by omega)
  · change (low (setLow c.regs.edi (low c.regs.edi + 2))).toNat = _
    change (low c.regs.edi).toNat = _ at hdi
    rw [low_setLow, BitVec.toNat_add, hdi]
    simp [memoryStrOutput, memoryStrLen] at hk ⊢
    omega

theorem located_loopScrn (hpc : c.pc = .loopScrn) (h : Located c)
    (hstep : c.step writable exitFlag = some c') : Located c' := by
  simp only [Located, hpc] at h
  simp only [Core.step, hpc, Option.some.injEq] at hstep
  obtain ⟨k, hk, hcx, hsi, hattr, hcopied, hdi⟩ := h
  have hcount : (low c.regs.ecx - 1).toNat = memoryStrLen - (k + 1) := by
    rw [BitVec.toNat_sub, hcx]
    simp [memoryStrLen] at hk ⊢
    omega
  subst hstep
  unfold Core.loop
  dsimp only
  split_ifs with hzero
  · have hlast : k + 1 = memoryStrLen := by
      rw [hzero] at hcount
      simp at hcount
      omega
    rw [hlast] at hcopied hdi
    exact ⟨hcopied, hdi⟩
  · have hmore : k + 1 < memoryStrLen := by
      by_contra hge
      apply hzero
      apply BitVec.eq_of_toNat_eq
      rw [hcount]
      simp
      omega
    refine ⟨k + 1, hmore, ⟨?_, ?_, hattr⟩, hcopied, hdi⟩
    · change (low (setLow c.regs.ecx (low c.regs.ecx - 1))).toNat = _
      rw [low_setLow]
      exact hcount
    · have hlen : memoryStrLen - (memoryStrLen - (k + 1)) = k + 1 := by omega
      rw [hlen]
      exact hsi

theorem located_popa (hpc : c.pc = .popa) (h : Located c)
    (hstep : c.step writable exitFlag = some c') : Located c' := by
  simp only [Located, hpc] at h
  simp only [Core.step, hpc, Option.map_eq_some_iff] at hstep
  obtain ⟨c'', hpop, rfl⟩ := hstep
  obtain ⟨-, hsaved, hback⟩ := h
  obtain ⟨value, htop, hdi, hstack⟩ := popAll_eq_some hpop
  rw [hsaved] at htop
  obtain rfl := Slot.word.inj (Option.some.inj htop)
  refine ⟨?_, ?_⟩
  · change (low c''.regs.edi).toNat = 210
    rw [hdi]
    rfl
  · change Returning c''.stack
    rw [hstack, Returning, List.getElem?_drop]
    exact hback

theorem located_retWrd (hpc : c.pc = .retWrd) (h : Located c)
    (hstep : c.step writable exitFlag = some c') : Located c' := by
  simp only [Located, hpc] at h
  simp only [Core.step, hpc] at hstep
  obtain ⟨hdi, hback⟩ := h
  obtain ⟨pc, htop, rfl⟩ := ret_eq_some hstep
  rcases hback with hback | hback
  · rw [hback] at htop
    obtain rfl := Slot.address.inj (Option.some.inj htop)
    exact hdi
  · rw [hback] at htop
    obtain rfl := Slot.address.inj (Option.some.inj htop)
    exact hdi

theorem located_retBin (hpc : c.pc = .retBin) (h : Located c)
    (hstep : c.step writable exitFlag = some c') : Located c' := by
  simp only [Located, hpc] at h
  simp only [Core.step, hpc] at hstep
  obtain ⟨hdi, hframed, hback⟩ := h
  obtain ⟨pc, htop, rfl⟩ := ret_eq_some hstep
  rw [hback] at htop
  obtain rfl := Slot.address.inj (Option.some.inj htop)
  cases hstack : c.stack with
  | nil =>
      rw [hstack] at hback
      exact absurd hback (by simp)
  | cons slot stack =>
      rw [hstack] at hframed
      refine ⟨hdi, ?_⟩
      exact hframed.pop

theorem located_pop (hstep : c.step writable exitFlag = some c')
    (hpc : c.pc = .popAx ∨ c.pc = .popCx) (h : Located c) : Located c' := by
  rcases hpc with hpc | hpc
  · simp only [Located, hpc] at h
    simp only [Core.step, hpc] at hstep
    obtain ⟨value, stack, hstack, rfl⟩ := pop_eq_some hstep
    rw [hstack] at h
    exact ⟨h.1, h.2.pop⟩
  · simp only [Located, hpc] at h
    simp only [Core.step, hpc] at hstep
    obtain ⟨value, stack, hstack, rfl⟩ := pop_eq_some hstep
    rw [hstack] at h
    exact ⟨h.1, h.2.pop⟩

/-- The program keeps to its positions. -/
theorem located_step (h : Located c) (hstep : c.step writable exitFlag = some c') :
    Located c' := by
  cases hpc : c.pc with
  | lodsb => exact located_lodsb hpc h hstep
  | stosw => exact located_stosw hpc h hstep
  | loopScrn => exact located_loopScrn hpc h hstep
  | popa => exact located_popa hpc h hstep
  | retWrd => exact located_retWrd hpc h hstep
  | retBin => exact located_retBin hpc h hstep
  | popAx => exact located_pop hstep (Or.inl hpc) h
  | popCx => exact located_pop hstep (Or.inr hpc) h
  | home =>
      rw [Core.step, hpc] at hstep
      exact absurd hstep (by simp)
  -- The others read or write the registers that the position speaks of, or jump.
  | divEbx =>
      simp only [Located, hpc] at h
      simp only [Core.step, hpc, Option.map_eq_some_iff] at hstep
      obtain ⟨c'', hdiv, rfl⟩ := hstep
      change di c'' = 210
      rw [di_of_divide hdiv]
      exact h
  | addEbx =>
      simp only [Located, hpc] at h
      simp only [Core.step, hpc, Option.some.injEq] at hstep
      subst hstep
      change di ((c.setEbx (c.regs.ebx + megabyte)).jump .storeCount) = 210
      rw [di_jump, di_setEbx]
      exact h
  | callLow =>
      simp only [Located, hpc] at h
      simp only [Core.step, hpc, Option.some.injEq] at hstep
      subst hstep
      exact ⟨h, Or.inl rfl⟩
  | callHigh =>
      simp only [Located, hpc] at h
      simp only [Core.step, hpc, Option.some.injEq] at hstep
      subst hstep
      exact ⟨h, Or.inr rfl⟩
  | pusha =>
      simp only [Located, hpc] at h
      simp only [Core.step, hpc, Option.some.injEq] at hstep
      subst hstep
      have hdi : low c.regs.edi = 210 := BitVec.eq_of_toNat_eq h.1
      refine ⟨h.1, ?_, h.2⟩
      change some (Slot.word (low c.regs.edi)) = _
      rw [hdi]
  | pushCx | pushAx =>
      simp only [Located, hpc] at h
      simp only [Core.step, hpc, Option.some.injEq] at hstep
      subst hstep
      exact ⟨h.1, h.2.push _⟩
  | callBin =>
      simp only [Located, hpc] at h
      simp only [Core.step, hpc, Option.some.injEq] at hstep
      subst hstep
      exact ⟨h.1, h.2.push _, rfl⟩
  | jnePrint | jaLettr | jeHome =>
      simp only [Located, hpc] at h
      simp only [Core.step, hpc, Option.some.injEq] at hstep
      subst hstep
      split_ifs
      · simpa [Located] using h
      · simpa [Located] using h
  | loopCccc =>
      simp only [Located, hpc] at h
      simp only [Core.step, hpc, Option.some.injEq, Core.loop] at hstep
      subst hstep
      split_ifs
      · simpa [Located] using h
      · simpa [Located] using h
  | movSiStr =>
      simp only [Located, hpc] at h
      simp only [Core.step, hpc, Option.some.injEq] at hstep
      subst hstep
      exact ⟨h, low_setLow _ _⟩
  | movCxLen =>
      simp only [Located, hpc] at h
      simp only [Core.step, hpc, Option.some.injEq] at hstep
      subst hstep
      refine ⟨h.1, h.2, ?_⟩
      change (low (setLow c.regs.ecx (BitVec.ofNat 16 memoryStrLen))).toNat = _
      rw [low_setLow]
      rfl
  | movAhAttr =>
      simp only [Located, hpc] at h
      simp only [Core.step, hpc, Option.some.injEq] at hstep
      subst hstep
      obtain ⟨hdi, hsi, hcx⟩ := h
      refine ⟨hdi, hcx, ?_, highByte_setHighByte _ _⟩
      change (low c.regs.esi).toNat = _
      rw [hsi]
      rfl
  | movDiOutput =>
      simp only [Located, hpc] at h
      simp only [Core.step, hpc, Option.some.injEq] at hstep
      subst hstep
      refine ⟨0, by decide, ⟨h.2.cx, h.2.si, h.2.attr⟩, ?_, ?_⟩
      · intro i hi
        omega
      · change (low (setLow c.regs.edi memoryStrOutput)).toNat = _
        rw [low_setLow]
        rfl
  -- These go on to the next instruction and touch nothing of the position.
  | xorEbx | movAx40 | movGs | loadOld | loadSign | storeSign | cmpSign | storeOld
  | incEbx | jmpCount | storeCount | loadCount | xorEdx | movEbxMega | movSiLow
  | shrEax | movSiHigh | cmpExit | jmpEndless | movBx | movDl | movCx4 | andAx | movCl
  | shrAx | storeDigit | incSi | shrBx | subDl | cmpNine | addDigit | jmpOk
  | addLetter =>
      simp only [Located, hpc] at h
      simp only [Core.step, hpc, Option.some.injEq] at hstep
      subst hstep
      simpa [Located] using h

end ProtectedMode
end OsStuff
