import OsStuff.ProtectedMode.Transparency

/-!
# Interrupted runs

A run is transparent when every handler puts the registers back and `mem_scrn`
does what it does without interrupts.  The first timer interrupt always draws,
and a printable key or a backspace always writes, so a run is transparent exactly
when it has none of them.
-/

namespace OsStuff
namespace ProtectedMode

open Library

variable {writable : BitVec 32 → Bool} {exitFlag exitFlag' : Byte} {c c' : Core}
  {m : Machine} {s s' p : State} {event : Event}

/-- The program is behind `mem_scrn`. -/
def Past (pc : Pc) : Prop :=
  pc = .cmpExit ∨ pc = .jeHome ∨ pc = .jmpEndless ∨ pc = .home

/-- Every handler puts the registers back, and at the end of `mem_scrn` the
characters of the string are on the screen as they are after the same
instructions without interrupts. -/
structure Transparent (writable : BitVec 32 → Bool) (start : State)
    (events : List Event) : Prop where
  registers : ∀ front event back state next, events = front ++ event :: back →
    run (exec writable) start front = some state →
      exec writable state event = some next → event ≠ .instr →
        next.core.regs = state.core.regs
  screen : ∀ front back state, events = front ++ back →
    run (exec writable) start front = some state → Past state.core.pc →
      ∃ plain, run (exec writable) start (front.filter fun e => e = .instr) = some plain ∧
        Past plain.core.pc ∧
        ∀ i < memoryStrLen,
          cellAt state.core.video (memoryStrOutput.toNat + 2 * i) =
              stringCell state.core.memoryStr i ∧
            cellAt plain.core.video (memoryStrOutput.toNat + 2 * i) =
              cellAt state.core.video (memoryStrOutput.toNat + 2 * i)

/-- Events that write nothing to the screen from a handler. -/
def Quiet : Event → Prop
  | .instr => True
  | .timer => False
  | .key code => ¬ code.key.Edits

/-- The variables on which the values of `DI` in the handlers depend are those of
the data segment. -/
structure Untouched (vars : Variables) : Prop where
  timerCount : vars.timerCount = 0
  timerOutput : vars.timerOutput = 158
  keyboardOutput : vars.keyboardOutput = 480

/-! ### Handlers that write nothing -/

theorem new09_quiet {code : Byte} (hquiet : ¬ (keyOf code).Edits) :
    (new09 code m).regs = m.regs ∧ (new09 code m).video = m.video ∧
      (Untouched m.vars → Untouched (new09 code m).vars) := by
  rw [new09_eq]
  cases hkey : keyOf code with
  | typed char =>
      rw [hkey] at hquiet
      exact absurd trivial hquiet
  | backspace =>
      rw [hkey] at hquiet
      exact absurd trivial hquiet
  | shiftDown | shiftUp | ctrl | alt | escape =>
      exact ⟨rfl, rfl, fun h => ⟨h.timerCount, h.timerOutput, h.keyboardOutput⟩⟩
  | other => exact ⟨rfl, rfl, id⟩

theorem exec_quiet (hquiet : Quiet event) (hevent : event ≠ .instr)
    (hexec : exec writable s event = some s') :
    s'.core = s.core ∧ (Untouched s.vars → Untouched s'.vars) := by
  cases event with
  | instr => exact absurd rfl hevent
  | timer => exact absurd hquiet id
  | key code =>
      rw [exec] at hexec
      split at hexec
      · exact absurd hexec (by simp)
      · obtain rfl := Option.some.inj hexec
        obtain ⟨hregs, hvideo, hvars⟩ := new09_quiet (m := s.machine) hquiet
        refine ⟨?_, hvars⟩
        unfold State.resume
        dsimp only
        rw [hregs, hvideo]
        rfl

/-! ### Handlers that write -/

theorem di_new08 (h : Untouched m.vars) : (new08 m).di = 160 := by
  have hcount : ¬ (m.vars.timerCount &&& 0b00000011 ≠ 0) := by
    rw [h.timerCount]
    decide
  unfold new08 timerDraw
  rw [if_neg hcount]
  simp [h.timerOutput]

theorem di_typeChar (h : Untouched m.vars) (char : Byte) :
    (typeChar char m).di = 484 := by
  simp [typeChar, kbFlashLine, h.keyboardOutput]

theorem di_kbBackspace (h : Untouched m.vars) : (kbBackspace m).di = 480 := by
  have hzero : m.vars.keyboardOutput ≠ 0 := by
    rw [h.keyboardOutput]
    decide
  simp only [kbBackspace, Machine.di_movDi, Machine.vars_movDi]
  rw [if_neg hzero]
  simp [kbFlashLine, h.keyboardOutput]

/-- The values of `DI` in the program. -/
theorem Located.di_eq (h : Located c) : di c = 210 ∨ memoryStrOutput.toNat ≤ di c := by
  cases hpc : c.pc with
  | lodsb =>
      simp only [Located, hpc] at h
      obtain ⟨k, -, -, -, hdi⟩ := h
      omega
  | stosw =>
      simp only [Located, hpc] at h
      obtain ⟨k, -, -, -, -, -, hdi⟩ := h
      omega
  | loopScrn =>
      simp only [Located, hpc] at h
      obtain ⟨k, -, -, -, -, -, hdi⟩ := h
      omega
  | cmpExit | jeHome | jmpEndless | home =>
      simp only [Located, hpc] at h
      omega
  | xorEbx | movAx40 | movGs | loadOld | loadSign | storeSign | cmpSign | jnePrint
  | storeOld | incEbx | jmpCount | addEbx | storeCount | loadCount | xorEdx | movEbxMega
  | divEbx | movSiLow | callLow | shrEax | movSiHigh | callHigh | movSiStr =>
      simp only [Located, hpc] at h
      exact Or.inl h
  | movCxLen | movAhAttr | movDiOutput | pusha | movBx | movDl | movCx4 | pushCx | pushAx
  | andAx | movCl | shrAx | callBin | storeDigit | incSi | popAx | shrBx | subDl | popCx
  | loopCccc | popa | retWrd | cmpNine | jaLettr | addDigit | jmpOk | addLetter
  | retBin =>
      simp only [Located, hpc] at h
      exact Or.inl h.1

/-- The value that a handler leaves is never the one it has found. -/
theorem regs_ne_of_di (h : Located s.core) {value : Word} (hm : m.di = value)
    (hvalue : value.toNat ≠ 210) (hlow : value.toNat < memoryStrOutput.toNat) :
    (s.resume m).core.regs ≠ s.core.regs := by
  intro heq
  have hregs : m.regs = s.core.regs := heq
  have hdi : di s.core = value.toNat := by
    rw [di, ← hregs]
    exact congrArg BitVec.toNat hm
  have hlocated := h.di_eq
  omega

theorem exec_noisy (h : Located s.core) (hvars : Untouched s.vars)
    (hnoisy : ¬ Quiet event) (hexec : exec writable s event = some s') :
    s'.core.regs ≠ s.core.regs := by
  cases event with
  | instr => exact absurd trivial hnoisy
  | timer =>
      rw [exec] at hexec
      split at hexec
      · exact absurd hexec (by simp)
      · obtain rfl := Option.some.inj hexec
        exact regs_ne_of_di h (di_new08 (m := s.machine) hvars) (by decide) (by decide)
  | key code =>
      rw [exec] at hexec
      split at hexec
      · exact absurd hexec (by simp)
      · obtain rfl := Option.some.inj hexec
        have hedits : (keyOf code.1).Edits := Classical.not_not.mp hnoisy
        rw [new09_eq]
        cases hkey : keyOf code.1 with
        | typed char =>
            exact regs_ne_of_di h (di_typeChar (m := s.machine) hvars char) (by decide)
              (by decide)
        | backspace =>
            exact regs_ne_of_di h (di_kbBackspace (m := s.machine) hvars) (by decide)
              (by decide)
        | shiftDown | shiftUp | ctrl | alt | escape | other =>
            rw [hkey] at hedits
            exact absurd hedits id

/-! ### The same run without interrupts -/

/-- The program reads `exit_flag` in one instruction only. -/
theorem step_exitFlag (hpc : c.pc ≠ .cmpExit) :
    c.step writable exitFlag = c.step writable exitFlag' := by
  unfold Core.step
  split
  all_goals first | rfl | exact absurd ‹c.pc = .cmpExit› hpc

/-- The program comes to `endless_loop` at its first instruction. -/
theorem step_enters (h : Located c) (hbefore : ¬ Past c.pc)
    (hstep : c.step writable exitFlag = some c') : ¬ Past c'.pc ∨ c'.pc = .cmpExit := by
  cases hpc : c.pc with
  | cmpExit | jeHome | jmpEndless | home =>
      rw [hpc] at hbefore
      exact absurd (by simp [Past]) hbefore
  | loopScrn =>
      simp only [Core.step, hpc, Option.some.injEq, Core.loop] at hstep
      subst hstep
      split_ifs
      · exact Or.inr rfl
      · exact Or.inl (by simp [Past])
  | loopCccc =>
      simp only [Core.step, hpc, Option.some.injEq, Core.loop] at hstep
      subst hstep
      left
      split_ifs
      · simp [Past]
      · simp [Past]
  | jnePrint | jaLettr =>
      simp only [Core.step, hpc, Option.some.injEq] at hstep
      subst hstep
      left
      split_ifs
      · simp [Past]
      · simp [Past]
  | retWrd =>
      simp only [Located, hpc] at h
      simp only [Core.step, hpc] at hstep
      obtain ⟨pc, htop, rfl⟩ := ret_eq_some hstep
      left
      -- The position tells which of the two calls the subroutine returns to; both are
      -- before the loop.
      rcases h.2 with hback | hback
      · rw [hback] at htop
        obtain rfl := Slot.address.inj (Option.some.inj htop)
        simp [Past]
      · rw [hback] at htop
        obtain rfl := Slot.address.inj (Option.some.inj htop)
        simp [Past]
  | retBin =>
      simp only [Located, hpc] at h
      simp only [Core.step, hpc] at hstep
      obtain ⟨pc, htop, rfl⟩ := ret_eq_some hstep
      rw [h.2.2] at htop
      obtain rfl := Slot.address.inj (Option.some.inj htop)
      exact Or.inl (by simp [Past])
  | popAx | popCx =>
      simp only [Core.step, hpc] at hstep
      obtain ⟨value, stack, -, rfl⟩ := pop_eq_some hstep
      exact Or.inl (by simp [Past])
  | divEbx | popa =>
      simp only [Core.step, hpc, Option.map_eq_some_iff] at hstep
      obtain ⟨c'', -, rfl⟩ := hstep
      exact Or.inl (by simp [Past])
  | callLow | callHigh | callBin =>
      simp only [Core.step, hpc, Option.some.injEq, Core.call] at hstep
      subst hstep
      exact Or.inl (by simp [Past])
  | xorEbx | movAx40 | movGs | loadOld | loadSign | storeSign | cmpSign | storeOld
  | incEbx | jmpCount | addEbx | storeCount | loadCount | xorEdx | movEbxMega | movSiLow
  | shrEax | movSiHigh | movSiStr | movCxLen | movAhAttr | movDiOutput | lodsb | stosw
  | pusha | movBx | movDl | movCx4 | pushCx | pushAx | andAx | movCl | shrAx | storeDigit
  | incSi | shrBx | subDl | cmpNine | addDigit | jmpOk | addLetter =>
      simp only [Core.step, hpc, Option.some.injEq] at hstep
      subst hstep
      exact Or.inl (by simp [Past])

/-- The program waits in `endless_loop`. -/
def Looping (c : Core) : Prop :=
  c.pc = .cmpExit ∨ (c.pc = .jeHome ∧ c.zf = false) ∨ c.pc = .jmpEndless

theorem Looping.past (h : Looping c) : Past c.pc := by
  rcases h with h | h | h
  · exact Or.inl h
  · exact Or.inr (Or.inl h.1)
  · exact Or.inr (Or.inr (Or.inl h))

theorem Looping.step (h : Looping c) :
    ∃ c', c.step writable 0 = some c' ∧ Looping c' ∧ c'.video = c.video := by
  rcases h with h | ⟨h, hzf⟩ | h
  · refine ⟨(c.compare 0 1).jump .jeHome, by rw [Core.step, h], ?_, rfl⟩
    exact Or.inr (Or.inl ⟨rfl, rfl⟩)
  · refine ⟨c.jump .jmpEndless, ?_, Or.inr (Or.inr rfl), rfl⟩
    rw [Core.step, h, hzf]
    rfl
  · exact ⟨c.jump .cmpExit, by rw [Core.step, h], Or.inl rfl, rfl⟩

/-- Behind `mem_scrn` the program does not write to the screen. -/
theorem past_step (h : Past c.pc) (hstep : c.step writable exitFlag = some c') :
    Past c'.pc ∧ c'.video = c.video := by
  rcases h with h | h | h | h
  · simp only [Core.step, h, Option.some.injEq] at hstep
    subst hstep
    exact ⟨Or.inr (Or.inl rfl), rfl⟩
  · simp only [Core.step, h, Option.some.injEq] at hstep
    subst hstep
    split_ifs
    · exact ⟨Or.inr (Or.inr (Or.inr rfl)), rfl⟩
    · exact ⟨Or.inr (Or.inr (Or.inl rfl)), rfl⟩
  · simp only [Core.step, h, Option.some.injEq] at hstep
    subst hstep
    exact ⟨Or.inl rfl, rfl⟩
  · rw [Core.step, h] at hstep
    exact absurd hstep (by simp)

/-- `p` is where the program is without the interrupts of `s`: at the same place
with the same values, or both are behind `mem_scrn`. -/
structure Follows (s p : State) : Prop where
  flag : p.vars.exitFlag = 0
  together : (s.core = p.core ∧ ¬ Past s.core.pc) ∨
    (Past s.core.pc ∧ Looping p.core ∧ p.core.video = s.core.video)

theorem Follows.instr (h : Follows s p) (hlocated : Located s.core)
    (hexec : exec writable s .instr = some s') :
    ∃ p', exec writable p .instr = some p' ∧ Follows s' p' := by
  rw [exec, Option.map_eq_some_iff] at hexec
  obtain ⟨c, hstep, rfl⟩ := hexec
  rcases h.together with ⟨hsame, hbefore⟩ | ⟨hpast, hloop, hvideo⟩
  · have hpc : s.core.pc ≠ .cmpExit := fun heq => hbefore (Or.inl heq)
    have hplain : p.core.step writable p.vars.exitFlag = some c := by
      rw [← hsame, ← hstep]
      exact step_exitFlag hpc
    refine ⟨{ p with core := c }, ?_, h.flag, ?_⟩
    · rw [exec, hplain]
      rfl
    · rcases step_enters hlocated hbefore hstep with hnext | hnext
      · exact Or.inl ⟨rfl, hnext⟩
      · exact Or.inr ⟨Or.inl hnext, Or.inl hnext, rfl⟩
  · obtain ⟨hpast', hvideo'⟩ := past_step hpast hstep
    obtain ⟨c', hplain, hloop', hsame'⟩ := hloop.step
    refine ⟨{ p with core := c' }, ?_, h.flag, Or.inr ⟨hpast', hloop', ?_⟩⟩
    · rw [exec, h.flag, hplain]
      rfl
    · exact hsame'.trans (hvideo.trans hvideo'.symm)

theorem exec_located (h : Located s.core) (hquiet : Quiet event)
    (hexec : exec writable s event = some s') : Located s'.core := by
  by_cases hevent : event = .instr
  · rw [hevent, exec, Option.map_eq_some_iff] at hexec
    obtain ⟨c, hstep, rfl⟩ := hexec
    exact located_step h hstep
  · rw [(exec_quiet hquiet hevent hexec).1]
    exact h

/-- A run without noise has a run without interrupts beside it. -/
theorem Follows.run {events : List Event} (h : Follows s p) (hlocated : Located s.core)
    (hquiet : ∀ event ∈ events, Quiet event)
    (hrun : Library.run (exec writable) s events = some s') :
    Located s'.core ∧
      ∃ p', Library.run (exec writable) p (events.filter fun e => e = .instr) = some p' ∧
        Follows s' p' := by
  induction events generalizing s p with
  | nil =>
      rw [run_nil, Option.some.injEq] at hrun
      subst hrun
      exact ⟨hlocated, p, rfl, h⟩
  | cons event events ih =>
      obtain ⟨next, hnext, hrest⟩ := run_cons.mp hrun
      have hnow := hquiet event List.mem_cons_self
      have hlater : ∀ e ∈ events, Quiet e := fun e he =>
        hquiet e (List.mem_cons_of_mem _ he)
      have hlocated' := exec_located hlocated hnow hnext
      by_cases hevent : event = .instr
      · subst hevent
        obtain ⟨p', hplain, hfollows⟩ := h.instr hlocated hnext
        obtain ⟨hend, p'', hrun', hfollows'⟩ := ih hfollows hlocated' hlater hrest
        refine ⟨hend, p'', ?_, hfollows'⟩
        rw [List.filter_cons_of_pos (by simp)]
        exact run_cons.mpr ⟨p', hplain, hrun'⟩
      · have hcore := (exec_quiet hnow hevent hnext).1
        have hfollows : Follows next p := by
          refine ⟨h.flag, ?_⟩
          rw [hcore]
          exact h.together
        rw [List.filter_cons_of_neg (by simpa using hevent)]
        exact ih hfollows hlocated' hlater hrest

/-! ### Transparent runs -/

section

variable (segment : StackSegment) (regs : Registers) (stack : List Slot)
  (extended : BitVec 32 → Byte) (video : Nat → Byte)

theorem located_start : Located (State.start segment regs stack extended video).core := by
  change (low (setLow regs.edi 210)).toNat = 210
  rw [low_setLow]
  rfl

theorem untouched_start : Untouched (State.start segment regs stack extended video).vars :=
  ⟨rfl, rfl, rfl⟩

theorem follows_start :
    Follows (State.start segment regs stack extended video)
      (State.start segment regs stack extended video) :=
  ⟨rfl, Or.inl ⟨rfl, by simp [State.start, Past]⟩⟩

end

/-- A run in which every handler puts the registers back has no noise. -/
theorem quiet_of_registers {events : List Event} (hlocated : Located s.core)
    (hvars : Untouched s.vars) (hrun : (run (exec writable) s events).isSome)
    (hregs : ∀ front event back state next, events = front ++ event :: back →
      run (exec writable) s front = some state →
        exec writable state event = some next → event ≠ .instr →
          next.core.regs = state.core.regs) :
    ∀ event ∈ events, Quiet event := by
  induction events generalizing s with
  | nil =>
      intro event hmem
      exact absurd hmem (by simp)
  | cons event events ih =>
      obtain ⟨final, hfinal⟩ := Option.isSome_iff_exists.mp hrun
      obtain ⟨next, hnext, hrest⟩ := run_cons.mp hfinal
      have hnow : Quiet event := by
        by_contra hnoisy
        apply exec_noisy hlocated hvars hnoisy hnext
        apply hregs [] event events s next rfl rfl hnext
        rintro rfl
        exact hnoisy trivial
      have hvars' : Untouched next.vars := by
        by_cases hevent : event = .instr
        · rw [hevent, exec, Option.map_eq_some_iff] at hnext
          obtain ⟨c, -, rfl⟩ := hnext
          exact hvars
        · exact (exec_quiet hnow hevent hnext).2 hvars
      have hlater := ih (exec_located hlocated hnow hnext) hvars'
        (Option.isSome_iff_exists.mpr ⟨final, hrest⟩)
        fun front event' back state next' hsplit hfront =>
          hregs (event :: front) event' back state next' (by rw [hsplit]; rfl)
            (run_cons.mpr ⟨next, hnext, hfront⟩)
      intro event' hmem
      rcases List.mem_cons.mp hmem with rfl | hmem
      · exact hnow
      · exact hlater event' hmem

/-- With the stack below the first megabyte, interrupts are transparent exactly when
there is no timer interrupt, no printable key and no backspace among them. -/
theorem interrupts_transparent_iff (writable : BitVec 32 → Bool) (segment : StackSegment)
    (regs : Registers) (stack : List Slot) (extended : BitVec 32 → Byte)
    (video : Nat → Byte) (events : List Event)
    (hrun : (run (exec writable) (State.start segment regs stack extended video) events).isSome) :
    Transparent writable (State.start segment regs stack extended video) events ↔
      ∀ event ∈ events, Quiet event := by
  have hlocated := located_start segment regs stack extended video
  constructor
  · intro htransparent
    exact quiet_of_registers hlocated (untouched_start segment regs stack extended video) hrun
      htransparent.registers
  · intro hquiet
    constructor
    · intro front event back state next hsplit _ hexec hevent
      have hmem : event ∈ events := by simp [hsplit]
      rw [(exec_quiet (hquiet event hmem) hevent hexec).1]
    · intro front back state hsplit hfront hpast
      have hfrontQuiet : ∀ event ∈ front, Quiet event := fun event hmem =>
        hquiet event (by simp [hsplit, hmem])
      obtain ⟨hend, plain, hplain, hfollows⟩ :=
        (follows_start segment regs stack extended video).run hlocated hfrontQuiet hfront
      rcases hfollows.together with ⟨-, hbefore⟩ | ⟨-, hloop, hvideo⟩
      · exact absurd hpast hbefore
      · refine ⟨plain, hplain, hloop.past, ?_⟩
        -- Behind the loop that fills the screen the whole text has been copied, at every
        -- position of endless_loop.
        have hcopied : Copied memoryStrLen state.core := by
          unfold Located at hend
          rcases hpast with hpc | hpc | hpc | hpc
          · rw [hpc] at hend
            exact hend.1
          · rw [hpc] at hend
            exact hend.1
          · rw [hpc] at hend
            exact hend.1
          · rw [hpc] at hend
            exact hend.1
        intro i hi
        exact ⟨hcopied i hi, by rw [hvideo]⟩

theorem interrupts_transparent_sample :
    Transparent (fun _ => false)
        (State.start lowSegment ⟨0, 0, 0, 0, 0, 0, 0⟩ [] (fun _ => 0) fun _ => 0)
        [.instr, .key ⟨0x2A, by decide⟩, .instr] ↔
      ∀ event ∈ [Event.instr, .key ⟨0x2A, by decide⟩, .instr], Quiet event :=
  interrupts_transparent_iff (fun _ => false) lowSegment ⟨0, 0, 0, 0, 0, 0, 0⟩ []
    (fun _ => 0) (fun _ => 0) [.instr, .key ⟨0x2A, by decide⟩, .instr] (by decide +kernel)

/-- The first timer interrupt finds 210 in `DI` and leaves 160. -/
theorem timer_changes_di :
    ¬ ∀ (writable : BitVec 32 → Bool) (segment : StackSegment) (regs : Registers)
      (stack : List Slot) (extended : BitVec 32 → Byte) (video : Nat → Byte)
      (events : List Event),
      (run (exec writable) (State.start segment regs stack extended video) events).isSome →
        Transparent writable (State.start segment regs stack extended video) events := by
  intro hall
  have htransparent := hall (fun _ => false) lowSegment ⟨0, 0, 0, 0, 0, 0, 0⟩ []
    (fun _ => 0) (fun _ => 0) [.instr, .timer] (by decide +kernel)
  have hquiet := quiet_of_registers (located_start _ _ _ _ _) (untouched_start _ _ _ _ _)
    (by decide +kernel) htransparent.registers
  exact hquiet .timer (by simp)

end ProtectedMode
end OsStuff
