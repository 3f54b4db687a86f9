import OsStuff.MutualExclusion.LinReadersWriters

/-!
# Exclusion in `lin_readers_writers.c`

In every state reached, `ACTIVE_WRITERS` and `ACTIVE_READERS` are the numbers of
processes in their sections, which is what keeps the sections apart; and the
shared value has been incremented once for every completed section of a writer.
-/

namespace OsStuff
namespace MutualExclusion
namespace LinReadersWriters

open Library Library.Semaphores Library.Processes

/-- What a writer knows where it is: `count` is the initial value plus the
completed sections.  It is never blocked at the end of its section. -/
def Writing (count shm : BitVec 32) : Pc → Prop
  | .load => shm = count
  | .store value => value = count ∧ shm = count
  | .print | .stop false => shm = count + 1
  | .stop true => False
  | _ => True

/-- Where a reader can be. -/
def Reading : Pc → Prop
  | .load | .store _ | .stop true => False
  | _ => True

/-- What a process knows where it is. -/
def Knows (count shm : BitVec 32) (process : Process) : Prop :=
  match process.role with
  | .writer => Writing count shm process.pc
  | .reader => Reading process.pc

/-- The value with all completed sections. -/
def State.count (value : BitVec 32) (state : State) : BitVec 32 :=
  value + BitVec.ofNat 32 state.written

/-- The invariant: how the semaphores and the shared value depend on where the
processes are. -/
structure Safe (value : BitVec 32) (state : State) : Prop where
  writers : state.semaphores .activeWriters = state.inside .writer
  readers : state.semaphores .activeReaders = state.inside .reader
  waitWriters : state.semaphores .waitWriters = 0
  one : state.inside .writer ≤ 1
  apart : state.inside .writer = 0 ∨ state.inside .reader = 0
  quiet : state.inside .writer = 0 → state.shm = state.count value
  knows : ∀ (i : Nat) (process : Process), state.processes[i]? = some process →
    Knows (state.count value) state.shm process

variable {value : BitVec 32} {state state' : State} {i : Nat}
  {process after : Process} {semaphores : Semaphore → Nat} {role : Role}

theorem inside_iff :
    process.inside role = true ↔
      process.role = role ∧ process.pc.within = true := by
  simp [Process.inside]

theorem inside_eq_false (hpc : process.pc.within = false) :
    process.inside role = false := by
  simp [Process.inside, hpc]

/-- A process in its section is not in the other one. -/
theorem inside_other (hrole : process.role ≠ role) :
    process.inside role = false := by
  simp [Process.inside, hrole]

/-- A process that stays on its side of the border of its section. -/
theorem inside_same (hrole : after.role = process.role)
    (hpc : after.pc.within = process.pc.within) (role : Role) :
    after.inside role = process.inside role := by
  simp [Process.inside, hrole, hpc]

/-- Only a writer in its section knows anything about the value. -/
theorem Knows.outside {count shm count' shm' : BitVec 32}
    (h : Knows count shm process) (hout : process.inside .writer = false) :
    Knows count' shm' process := by
  obtain ⟨role, pc, sigStatus⟩ := process
  cases role with
  | reader => exact h
  | writer =>
      cases pc with
      | loop => trivial
      | start blocked => trivial
      | load => exact absurd hout.symm Bool.false_ne_true
      | store value => exact absurd hout.symm Bool.false_ne_true
      | print => exact absurd hout.symm Bool.false_ne_true
      | stop blocked => exact absurd hout.symm Bool.false_ne_true
      | sleep => trivial
      | exited => trivial

/-- While a writer is inside, no other writer is. -/
theorem Safe.alone (hsafe : Safe value state)
    (hi : state.processes[i]? = some process) (hinside : process.inside .writer)
    {j : Nat} {other : Process} (hj : state.processes[j]? = some other)
    (hji : j ≠ i) : other.inside .writer = false := by
  by_contra hother
  apply hji
  exact index_unique hsafe.one hj hi (by simpa using hother) hinside

/-! ## Steps -/

/-- A step that only moves a process on its side of the border of its
section. -/
theorem Safe.move (hsafe : Safe value state)
    (hi : state.processes[i]? = some process)
    (hrole : after.role = process.role)
    (hpc : after.pc.within = process.pc.within)
    (hknows : Knows (state.count value) state.shm after) :
    Safe value (state.set i after) := by
  have hinside : ∀ role, (state.set i after).inside role = state.inside role :=
    fun role => countP_set_same hi (inside_same hrole hpc role)
  constructor
  · exact hsafe.writers.trans (hinside .writer).symm
  · exact hsafe.readers.trans (hinside .reader).symm
  · exact hsafe.waitWriters
  · exact (hinside .writer).le.trans hsafe.one
  · exact hsafe.apart.imp (hinside .writer).trans (hinside .reader).trans
  · exact fun hnone => hsafe.quiet ((hinside .writer).symm.trans hnone)
  · intro j other hj
    rcases set_cases hj with ⟨rfl, rfl⟩ | ⟨-, hj⟩
    · exact hknows
    · exact hsafe.knows j other hj

/-- A process gets into its section. -/
theorem Safe.start (hsafe : Safe value state)
    (hi : state.processes[i]? = some process) {blocked : Bool}
    (hpc : process.pc = .start blocked)
    (hsemop : semop state.semaphores process.role.start = some semaphores) :
    Safe value { state.set i { process with pc := process.role.enter } with
      semaphores := semaphores } := by
  have hout : ∀ role, process.inside role = false := fun role =>
    inside_eq_false (by rw [hpc]; rfl)
  obtain ⟨role, pc, sigStatus⟩ := process
  cases role with
  | writer =>
      -- START_WRITE waits for zero active readers and zero active writers, so the writer is
      -- alone.
      obtain ⟨hreaders, hwriters, rfl⟩ := semop_startWrite.mp hsemop
      have hwriting : (state.set i ⟨.writer, .load, sigStatus⟩).inside .writer =
          state.inside .writer + 1 :=
        countP_set_enter hi (hout _) rfl
      have hreading : (state.set i ⟨.writer, .load, sigStatus⟩).inside .reader =
          state.inside .reader :=
        countP_set_same hi (hout .reader).symm
      have hnone := hsafe.writers.symm.trans hwriters
      have hquiet := hsafe.quiet hnone
      rw [hnone] at hwriting
      constructor
      · exact hwriting.symm
      · exact hsafe.readers.trans hreading.symm
      · exact hsafe.waitWriters
      · exact hwriting.le
      · exact Or.inr (hreading.trans (hsafe.readers.symm.trans hreaders))
      · exact fun _ => hquiet
      · intro j other hj
        rcases set_cases hj with ⟨rfl, rfl⟩ | ⟨-, hj⟩
        · exact hquiet
        · exact hsafe.knows j other hj
  | reader =>
      -- START_READ waits for zero active writers, and readers may be many.
      obtain ⟨hwriters, -, rfl⟩ := semop_startRead.mp hsemop
      have hreading : (state.set i ⟨.reader, .print, sigStatus⟩).inside
          .reader = state.inside .reader + 1 :=
        countP_set_enter hi (hout _) rfl
      have hwriting : (state.set i ⟨.reader, .print, sigStatus⟩).inside
          .writer = state.inside .writer :=
        countP_set_same hi (hout .writer).symm
      constructor
      · exact hsafe.writers.trans hwriting.symm
      · exact (congrArg (· + 1) hsafe.readers).trans hreading.symm
      · exact hsafe.waitWriters
      · exact hwriting.le.trans hsafe.one
      · exact Or.inl (hwriting.trans (hsafe.writers.symm.trans hwriters))
      · exact fun hnone => hsafe.quiet (hwriting.symm.trans hnone)
      · intro j other hj
        rcases set_cases hj with ⟨rfl, rfl⟩ | ⟨-, hj⟩
        · trivial
        · exact hsafe.knows j other hj

/-- A writer stores the value it loaded plus one. -/
theorem Safe.store (hsafe : Safe value state)
    (hi : state.processes[i]? = some process) {loaded : BitVec 32}
    (hpc : process.pc = .store loaded) :
    Safe value { state.set i { process with pc := .print } with
      shm := loaded + 1 } := by
  have hknows := hsafe.knows i process hi
  obtain ⟨role, pc, sigStatus⟩ := process
  obtain rfl : pc = .store loaded := hpc
  cases role with
  | reader => exact hknows.elim
  | writer =>
      have hmoved : ∀ role, (state.set i ⟨.writer, .print, sigStatus⟩).inside
          role = state.inside role :=
        fun role => countP_set_same hi (inside_same rfl rfl role)
      have hpos : 0 < state.inside .writer := countP_pos hi rfl
      constructor
      · exact hsafe.writers.trans (hmoved .writer).symm
      · exact hsafe.readers.trans (hmoved .reader).symm
      · exact hsafe.waitWriters
      · exact (hmoved .writer).le.trans hsafe.one
      · exact hsafe.apart.imp (hmoved .writer).trans (hmoved .reader).trans
      · intro hnone
        have hzero := (hmoved .writer).symm.trans hnone
        omega
      · intro j other hj
        rcases set_cases hj with ⟨rfl, rfl⟩ | ⟨hji, hj⟩
        · exact congrArg (· + 1) hknows.1
        · exact (hsafe.knows j other hj).outside (hsafe.alone hi rfl hj hji)

/-- A process leaves its section. -/
theorem Safe.stop (hsafe : Safe value state)
    (hi : state.processes[i]? = some process) (hpc : process.pc = .stop false)
    (hsemop : semop state.semaphores process.role.stop = some semaphores) :
    Safe value { state.set i { process with pc := .sleep } with
      semaphores := semaphores
      written := match process.role with
        | .writer => state.written + 1
        | .reader => state.written } := by
  have hknows := hsafe.knows i process hi
  obtain ⟨role, pc, sigStatus⟩ := process
  obtain rfl : pc = .stop false := hpc
  cases role with
  | writer =>
      obtain ⟨-, rfl⟩ := semop_stopWrite.mp hsemop
      have hwriting : (state.set i ⟨.writer, .sleep, sigStatus⟩).inside
          .writer + 1 = state.inside .writer := countP_set_leave hi rfl rfl
      have hreading : (state.set i ⟨.writer, .sleep, sigStatus⟩).inside
          .reader = state.inside .reader := countP_set_same hi rfl
      have hone := hsafe.one
      have hnone : (state.set i ⟨.writer, .sleep, sigStatus⟩).inside
          .writer = 0 := by omega
      -- The shared value is the start value plus the writes that are over, this one
      -- included.
      have hcount : state.count value + 1 =
          value + BitVec.ofNat 32 (state.written + 1) := by
        rw [BitVec.ofNat_add, ← BitVec.add_assoc]
        rfl
      constructor
      · show state.semaphores .activeWriters - 1 = _
        rw [hsafe.writers]
        exact (Nat.sub_eq_of_eq_add hwriting.symm).trans rfl
      · exact hsafe.readers.trans hreading.symm
      · exact hsafe.waitWriters
      · exact hnone.le.trans (Nat.zero_le 1)
      · exact Or.inl hnone
      · exact fun _ => hknows.trans hcount
      · intro j other hj
        rcases set_cases hj with ⟨rfl, rfl⟩ | ⟨hji, hj⟩
        · trivial
        · exact (hsafe.knows j other hj).outside (hsafe.alone hi rfl hj hji)
  | reader =>
      obtain ⟨-, rfl⟩ := semop_stopRead.mp hsemop
      have hreading : (state.set i ⟨.reader, .sleep, sigStatus⟩).inside
          .reader + 1 = state.inside .reader := countP_set_leave hi rfl rfl
      have hwriting : (state.set i ⟨.reader, .sleep, sigStatus⟩).inside
          .writer = state.inside .writer := countP_set_same hi rfl
      constructor
      · exact hsafe.writers.trans hwriting.symm
      · show state.semaphores .activeReaders - 1 = _
        rw [hsafe.readers]
        exact (Nat.sub_eq_of_eq_add hreading.symm).trans rfl
      · exact hsafe.waitWriters
      · exact hwriting.le.trans hsafe.one
      · -- A reader that leaves was inside, which excludes a writer.
        refine hsafe.apart.imp hwriting.trans fun hnone => ?_
        have hpos : 0 < state.inside .reader := countP_pos hi rfl
        omega
      · exact fun hnone => hsafe.quiet (hwriting.symm.trans hnone)
      · intro j other hj
        rcases set_cases hj with ⟨rfl, rfl⟩ | ⟨-, hj⟩
        · trivial
        · exact hsafe.knows j other hj

/-- The end of a section never has to wait. -/
theorem Safe.stop_ready (hsafe : Safe value state)
    (hi : state.processes[i]? = some process) {blocked : Bool}
    (hpc : process.pc = .stop blocked) :
    ∃ semaphores, semop state.semaphores process.role.stop =
      some semaphores := by
  have hpos : 0 < state.inside process.role :=
    countP_pos hi (inside_iff.mpr ⟨rfl, by rw [hpc]; rfl⟩)
  cases hrole : process.role with
  | writer =>
      rw [hrole, ← hsafe.writers] at hpos
      exact ⟨_, semop_stopWrite.mpr ⟨hpos, rfl⟩⟩
  | reader =>
      rw [hrole, ← hsafe.readers] at hpos
      exact ⟨_, semop_stopRead.mpr ⟨hpos, rfl⟩⟩

/-- Printing changes nothing the invariant is about. -/
theorem Safe.printed (hsafe : Safe value state) (output : List Line) :
    Safe value { state with output := output } :=
  ⟨hsafe.writers, hsafe.readers, hsafe.waitWriters, hsafe.one, hsafe.apart,
    hsafe.quiet, hsafe.knows⟩

theorem Safe.advance (hsafe : Safe value state)
    (hi : state.processes[i]? = some process)
    (hstep : advance state i process = some state') : Safe value state' := by
  have hknows := hsafe.knows i process hi
  unfold LinReadersWriters.advance at hstep
  cases hpc : process.pc with
  | loop =>
      simp only [hpc] at hstep
      split at hstep
      · obtain rfl := Option.some.inj hstep
        exact hsafe.move hi rfl (by rw [hpc]; rfl) (by cases process.role <;> trivial)
      · obtain rfl := Option.some.inj hstep
        exact hsafe.move hi rfl (by rw [hpc]; rfl) (by cases process.role <;> trivial)
  | start blocked =>
      simp only [hpc] at hstep
      split at hstep
      · next semaphores hsemop =>
          obtain rfl := Option.some.inj hstep
          exact hsafe.start hi hpc hsemop
      · split at hstep
        · exact absurd hstep (by simp)
        · obtain rfl := Option.some.inj hstep
          exact hsafe.move hi rfl (by rw [hpc]; rfl)
            (by cases process.role <;> trivial)
  | load =>
      simp only [hpc, Option.some.injEq] at hstep
      subst hstep
      refine hsafe.move hi rfl (by rw [hpc]; rfl) ?_
      obtain ⟨role, pc, sigStatus⟩ := process
      obtain rfl : pc = .load := hpc
      cases role with
      | writer => exact ⟨hknows, hknows⟩
      | reader => exact hknows.elim
  | store loaded =>
      simp only [hpc, Option.some.injEq] at hstep
      subst hstep
      exact hsafe.store hi hpc
  | print =>
      simp only [hpc, Option.some.injEq] at hstep
      subst hstep
      have hmove : Safe value (state.set i { process with pc := .stop false }) := by
        refine hsafe.move hi rfl (by rw [hpc]; rfl) ?_
        obtain ⟨role, pc, sigStatus⟩ := process
        obtain rfl : pc = .print := hpc
        cases role with
        | writer => exact hknows
        | reader => trivial
      exact hmove.printed _
  -- The semaphores count this process in, so the end of the section does not block.
  | stop blocked =>
      simp only [hpc] at hstep
      obtain ⟨semaphores, hready⟩ := hsafe.stop_ready hi hpc
      rw [hready] at hstep
      simp only [Option.some.injEq] at hstep
      subst hstep
      cases blocked with
      | false => exact hsafe.stop hi hpc hready
      | true =>
          obtain ⟨role, pc, sigStatus⟩ := process
          obtain rfl : pc = .stop true := hpc
          cases role <;> exact hknows.elim
  | sleep =>
      simp only [hpc, Option.some.injEq] at hstep
      subst hstep
      exact hsafe.move hi rfl (by rw [hpc]; rfl) (by cases process.role <;> trivial)
  | exited =>
      simp only [hpc] at hstep
      exact absurd hstep (by simp)

theorem Safe.interrupt (hsafe : Safe value state)
    (hi : state.processes[i]? = some process)
    (hstep : interrupt state i process = some state') : Safe value state' := by
  have hknows := hsafe.knows i process hi
  unfold LinReadersWriters.interrupt at hstep
  split at hstep
  · next hpc =>
      obtain rfl := Option.some.inj hstep
      exact hsafe.move hi rfl (by rw [hpc]; rfl) (by cases process.role <;> trivial)
  · next hpc =>
      obtain ⟨role, pc, sigStatus⟩ := process
      obtain rfl : pc = .stop true := hpc
      cases role <;> exact hknows.elim
  · exact absurd hstep (by simp)
  · obtain rfl := Option.some.inj hstep
    exact hsafe.move hi rfl rfl hknows

/-- Every step keeps the invariant. -/
theorem Safe.step {event : Event} (hsafe : Safe value state)
    (hstep : step state event = some state') : Safe value state' := by
  cases event with
  | run i =>
      obtain ⟨process, hi, hadvance⟩ := Option.bind_eq_some_iff.mp hstep
      exact hsafe.advance hi hadvance
  | sigint i =>
      obtain ⟨process, hi, hinterrupt⟩ := Option.bind_eq_some_iff.mp hstep
      exact hsafe.interrupt hi hinterrupt

/-- At the start every process is outside. -/
theorem inside_initial (roles : List Role) (value : BitVec 32) (role : Role) :
    (State.initial roles value).inside role = 0 := by
  unfold State.inside
  rw [List.countP_eq_zero]
  intro process hmem
  obtain ⟨other, -, rfl⟩ := List.mem_map.mp hmem
  simp [Process.inside, Pc.within]

theorem Safe.initial (roles : List Role) (value : BitVec 32) :
    Safe value (State.initial roles value) := by
  have hinside := inside_initial roles value
  constructor
  · exact (hinside .writer).symm
  · exact (hinside .reader).symm
  · rfl
  · exact (hinside .writer).le.trans (Nat.zero_le 1)
  · exact Or.inl (hinside .writer)
  · intro _
    show value = value + BitVec.ofNat 32 0
    simp
  · intro j process hj
    obtain ⟨role, -, rfl⟩ := List.mem_map.mp (List.mem_of_getElem? hj)
    cases role <;> trivial

/-! ## Runs -/

variable {roles : List Role} {events : List Event}

/-- Every state reached satisfies the invariant. -/
theorem safe_of_run (hrun : run step (State.initial roles value) events =
    some state) : Safe value state :=
  run_invariant (fun _ _ _ hsafe hstep => hsafe.step hstep)
    (Safe.initial roles value) hrun

/-- Whatever the processes and the order of their steps: at most one writer is
inside and no reader with it, the semaphores count who is inside, no increment
is lost, and nothing is left behind when all have exited. -/
theorem readers_writers_safe
    (hrun : run step (State.initial roles value) events = some state) :
    state.inside .writer ≤ 1 ∧
      (state.inside .writer ≠ 0 → state.inside .reader = 0) ∧
      state.semaphores .activeWriters = state.inside .writer ∧
      state.semaphores .activeReaders = state.inside .reader ∧
      (state.inside .writer = 0 →
        state.shm = value + BitVec.ofNat 32 state.written) ∧
      ((∀ process ∈ state.processes, process.pc = .exited) →
        state.semaphores .activeWriters = 0 ∧
          state.semaphores .activeReaders = 0) := by
  have hsafe := safe_of_run hrun
  refine ⟨hsafe.one, fun hwriter => hsafe.apart.resolve_left hwriter,
    hsafe.writers, hsafe.readers, hsafe.quiet, fun hexited => ?_⟩
  have hnone : ∀ role, state.inside role = 0 := by
    intro role
    unfold State.inside
    rw [List.countP_eq_zero]
    intro process hmem
    simp [Process.inside, hexited process hmem, Pc.within]
  exact ⟨hsafe.writers.trans (hnone .writer),
    hsafe.readers.trans (hnone .reader)⟩

/-- Two writers and a reader, with a signal in between. -/
theorem readers_writers_safe_sample :
    ∃ state, run step (State.initial [.writer, .writer, .reader] 7)
        [.run 0, .run 1, .run 2, .run 0, .run 1, .run 2, .run 0, .sigint 1,
          .run 0, .run 0, .run 0, .run 2] = some state ∧
      state.inside .writer ≤ 1 ∧ state.inside .reader = 1 ∧ state.shm = 8 := by
  have hrun : ∃ state, run step (State.initial [.writer, .writer, .reader] 7)
      [.run 0, .run 1, .run 2, .run 0, .run 1, .run 2, .run 0, .sigint 1,
        .run 0, .run 0, .run 0, .run 2] = some state ∧
      state.inside .reader = 1 ∧ state.shm = 8 :=
    ⟨_, rfl, by decide, by decide⟩
  obtain ⟨state, hrun, hreader, hshm⟩ := hrun
  exact ⟨state, hrun, (readers_writers_safe hrun).1, hreader, hshm⟩

end LinReadersWriters
end MutualExclusion
end OsStuff
