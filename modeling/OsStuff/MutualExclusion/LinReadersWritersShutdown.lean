import OsStuff.MutualExclusion.LinReadersWritersSafety
import OsStuff.MutualExclusion.LinReadersWritersWaiting

/-!
# The end of `lin_readers_writers.c`

The processes never block one another for good: if anyone is in its section it
can leave it, and if nobody is then the semaphores let everyone in.  A process
that has received its `SIGINT` leaves its loop the next time it comes to the
condition, so that the program comes to an end under every schedule once all
processes have been signalled.
-/

namespace OsStuff
namespace MutualExclusion
namespace LinReadersWriters

open Library Library.Semaphores Library.Processes

/-- All processes have exited. -/
def State.Finished (state : State) : Prop :=
  ∀ process ∈ state.processes, process.pc = .exited

/-- The process has been signalled and does not enter its loop again. -/
def Process.Ending (process : Process) : Prop :=
  process.sigStatus = true ∨ process.pc = .exited

/-- Steps to the end for a process that does not enter its loop again. -/
def Pc.rank : Pc → Nat
  | .start false => 9
  | .start true => 8
  | .load => 7
  | .store _ => 6
  | .print => 5
  | .stop false => 4
  | .stop true => 3
  | .sleep => 2
  | .loop => 1
  | .exited => 0

def State.weight (state : State) : Nat :=
  (state.processes.map fun process => process.pc.rank).sum

variable {roles : List Role} {value : BitVec 32} {state state' : State}
  {i j : Nat} {process after : Process} {event : Event} {events : List Event}

/-! ## Nobody is blocked for good -/

/-- Only `semop` can keep a process from its next step. -/
theorem exists_advance (hexited : process.pc ≠ .exited)
    (hstart : ∀ blocked, process.pc = .start blocked →
      ∃ semaphores, semop state.semaphores process.role.start = some semaphores)
    (hstop : ∀ blocked, process.pc = .stop blocked →
      ∃ semaphores, semop state.semaphores process.role.stop = some semaphores) :
    ∃ next, advance state i process = some next := by
  unfold advance
  cases hpc : process.pc with
  | loop =>
      simp only
      split
      all_goals exact ⟨_, rfl⟩
  | start blocked =>
      obtain ⟨semaphores, hsemop⟩ := hstart blocked hpc
      rw [hsemop]
      exact ⟨_, rfl⟩
  | stop blocked =>
      obtain ⟨semaphores, hsemop⟩ := hstop blocked hpc
      rw [hsemop]
      exact ⟨_, rfl⟩
  | load | store loaded | print | sleep => exact ⟨_, rfl⟩
  | exited => exact absurd hpc hexited

/-- With nobody in a section the semaphores let everyone in. -/
theorem Safe.start_ready (hsafe : Safe value state)
    (hnobody : ∀ role, state.inside role = 0) (role : Role) :
    ∃ semaphores, semop state.semaphores role.start = some semaphores := by
  have hwriters := hsafe.writers.trans (hnobody .writer)
  have hreaders := hsafe.readers.trans (hnobody .reader)
  cases role with
  | writer => exact ⟨_, semop_startWrite.mpr ⟨hreaders, hwriters, rfl⟩⟩
  | reader => exact ⟨_, semop_startRead.mpr ⟨hwriters, hsafe.waitWriters, rfl⟩⟩

theorem step_run {next : State} (hi : state.processes[i]? = some process)
    (hadvance : advance state i process = some next) :
    step state (.run i) = some next := by
  simp only [step, hi, Option.bind_some, hadvance]

theorem Safe.exists_step (hsafe : Safe value state) (hunfinished : ¬ state.Finished) :
    ∃ i next, LinReadersWriters.step state (.run i) = some next := by
  by_cases hnobody : ∀ role, state.inside role = 0
  · unfold State.Finished at hunfinished
    push Not at hunfinished
    obtain ⟨process, hmem, hexited⟩ := hunfinished
    obtain ⟨i, hi⟩ := List.mem_iff_getElem?.mp hmem
    obtain ⟨next, hnext⟩ : ∃ next, LinReadersWriters.advance state i process = some next := by
      apply exists_advance hexited
      · intro blocked _
        exact hsafe.start_ready hnobody process.role
      · intro blocked hpc
        exact hsafe.stop_ready hi hpc
    exact ⟨i, next, step_run hi hnext⟩
  · -- Someone is inside and can go on.
    push Not at hnobody
    obtain ⟨role, hsome⟩ := hnobody
    obtain ⟨i, process, hi, hinside⟩ := exists_of_countP (Nat.pos_of_ne_zero hsome)
    have hwithin := (inside_iff.mp hinside).2
    obtain ⟨next, hnext⟩ : ∃ next, LinReadersWriters.advance state i process = some next := by
      apply exists_advance
      · intro hexited
        rw [hexited] at hwithin
        exact absurd hwithin (by simp [Pc.within])
      · intro blocked hpc
        rw [hpc] at hwithin
        exact absurd hwithin (by simp [Pc.within])
      · intro blocked hpc
        exact hsafe.stop_ready hi hpc
    exact ⟨i, next, step_run hi hnext⟩

/-! ## Signalled processes -/

/-- A step of a signalled process brings it closer to its end. -/
theorem advance_ending (hending : process.Ending)
    (hadvance : advance state i process = some state') :
    ∃ after, state'.processes = state.processes.set i after ∧ after.Ending ∧
      after.pc.rank < process.pc.rank := by
  have hsignalled : process.sigStatus = true := by
    cases hending with
    | inl hsignalled => exact hsignalled
    | inr hexited => exact absurd hadvance (by simp [advance, hexited])
  have hkeep : ∀ pc, Process.Ending { process with pc := pc } := fun _ => Or.inl hsignalled
  unfold advance at hadvance
  cases hpc : process.pc with
  | loop =>
      simp only [hpc, hsignalled, if_true] at hadvance
      exact ⟨_, processes_eq hadvance, Or.inr rfl, Nat.zero_lt_one⟩
  | start blocked =>
      simp only [hpc] at hadvance
      split at hadvance
      · refine ⟨_, processes_eq hadvance, hkeep _, ?_⟩
        cases blocked <;> cases process.role <;> simp [Role.enter, Pc.rank]
      · cases blocked with
        | false => exact ⟨_, processes_eq hadvance, hkeep _, by simp [Pc.rank]⟩
        | true => exact absurd hadvance (by simp)
  | stop blocked =>
      simp only [hpc] at hadvance
      split at hadvance
      · refine ⟨_, processes_eq hadvance, hkeep _, ?_⟩
        cases blocked <;> simp [Pc.rank]
      · cases blocked with
        | false => exact ⟨_, processes_eq hadvance, hkeep _, by simp [Pc.rank]⟩
        | true => exact absurd hadvance (by simp)
  | load | store loaded | print | sleep =>
      simp only [hpc] at hadvance
      exact ⟨_, processes_eq hadvance, hkeep _, by simp [Pc.rank]⟩
  | exited =>
      simp only [hpc] at hadvance
      exact absurd hadvance (by simp)

/-- A signal ends the process or makes it leave its loop. -/
theorem interrupt_ending (hinterrupt : interrupt state i process = some state') :
    ∃ after, state'.processes = state.processes.set i after ∧ after.Ending := by
  unfold interrupt at hinterrupt
  split at hinterrupt
  · exact ⟨_, processes_eq hinterrupt, Or.inr rfl⟩
  · exact ⟨_, processes_eq hinterrupt, Or.inr rfl⟩
  · exact absurd hinterrupt (by simp)
  · exact ⟨_, processes_eq hinterrupt, Or.inl rfl⟩

/-- Process `j` has been signalled. -/
def State.Signalled (state : State) (j : Nat) : Prop :=
  ∀ process, state.processes[j]? = some process → process.Ending

theorem Signalled.set (hsignalled : state.Signalled j)
    (hprocesses : state'.processes = state.processes.set i after)
    (hafter : i = j → after.Ending) : state'.Signalled j := by
  intro process hj
  rw [hprocesses] at hj
  rcases set_cases hj with ⟨rfl, rfl⟩ | ⟨-, hj⟩
  · exact hafter rfl
  · exact hsignalled process hj

/-- Once signalled, always signalled. -/
theorem Signalled.step (hsignalled : state.Signalled j)
    (hstep : step state event = some state') : state'.Signalled j := by
  cases event with
  | run i =>
      obtain ⟨process, hi, hadvance⟩ := Option.bind_eq_some_iff.mp hstep
      by_cases hij : i = j
      · subst hij
        obtain ⟨after, hprocesses, hafter, -⟩ :=
          advance_ending (hsignalled process hi) hadvance
        exact Signalled.set hsignalled hprocesses fun _ => hafter
      · obtain ⟨pc, hprocesses⟩ := advance_processes hadvance
        exact Signalled.set hsignalled hprocesses fun heq => absurd heq hij
  | sigint i =>
      obtain ⟨process, hi, hinterrupt⟩ := Option.bind_eq_some_iff.mp hstep
      obtain ⟨after, hprocesses, hafter⟩ := interrupt_ending hinterrupt
      exact Signalled.set hsignalled hprocesses fun _ => hafter

/-- A process that a signal was sent to in a run has been signalled at its
end. -/
theorem signalled_of_mem {start : State} (hmem : Event.sigint j ∈ events)
    (hrun : run step start events = some state) : state.Signalled j := by
  obtain ⟨front, back, rfl⟩ := List.append_of_mem hmem
  obtain ⟨middle, -, hback⟩ := run_append.mp hrun
  obtain ⟨next, hsigint, hrest⟩ := run_cons.mp hback
  obtain ⟨process, hj, hinterrupt⟩ := Option.bind_eq_some_iff.mp hsigint
  obtain ⟨after, hprocesses, hafter⟩ := interrupt_ending hinterrupt
  have hnext : next.Signalled j := by
    intro other hother
    rw [hprocesses, set_self hj, Option.some.injEq] at hother
    exact hother ▸ hafter
  exact run_invariant (fun _ _ _ hstate hstep => Signalled.step hstate hstep) hnext hrest

/-! ## The end -/

/-- `WAIT_READERS` is counted up and down in one call of `semop`. -/
theorem advance_waitReaders (hadvance : advance state i process = some state') :
    state'.semaphores .waitReaders = state.semaphores .waitReaders := by
  have hstart : ∀ semaphores, semop state.semaphores process.role.start = some semaphores →
      semaphores .waitReaders = state.semaphores .waitReaders := by
    intro semaphores hsemop
    cases hrole : process.role with
    | writer =>
        rw [hrole] at hsemop
        obtain ⟨-, -, rfl⟩ := semop_startWrite.mp hsemop
        rfl
    | reader =>
        rw [hrole] at hsemop
        obtain ⟨-, -, rfl⟩ := semop_startRead.mp hsemop
        rfl
  have hstop : ∀ semaphores, semop state.semaphores process.role.stop = some semaphores →
      semaphores .waitReaders = state.semaphores .waitReaders := by
    intro semaphores hsemop
    cases hrole : process.role with
    | writer =>
        rw [hrole] at hsemop
        obtain ⟨-, rfl⟩ := semop_stopWrite.mp hsemop
        rfl
    | reader =>
        rw [hrole] at hsemop
        obtain ⟨-, rfl⟩ := semop_stopRead.mp hsemop
        rfl
  unfold advance at hadvance
  split at hadvance
  · split at hadvance
    all_goals
      obtain rfl := Option.some.inj hadvance
      rfl
  · split at hadvance
    · next semaphores hsemop =>
        obtain rfl := Option.some.inj hadvance
        exact hstart semaphores hsemop
    · split at hadvance
      · exact absurd hadvance (by simp)
      · obtain rfl := Option.some.inj hadvance
        rfl
  · obtain rfl := Option.some.inj hadvance
    rfl
  · obtain rfl := Option.some.inj hadvance
    rfl
  · obtain rfl := Option.some.inj hadvance
    rfl
  · split at hadvance
    · next semaphores hsemop =>
        obtain rfl := Option.some.inj hadvance
        exact hstop semaphores hsemop
    · split at hadvance
      · exact absurd hadvance (by simp)
      · obtain rfl := Option.some.inj hadvance
        rfl
  · obtain rfl := Option.some.inj hadvance
    rfl
  · exact absurd hadvance (by simp)

theorem step_waitReaders (hstep : step state event = some state') :
    state'.semaphores .waitReaders = state.semaphores .waitReaders := by
  cases event with
  | run i =>
      obtain ⟨process, hi, hadvance⟩ := Option.bind_eq_some_iff.mp hstep
      exact advance_waitReaders hadvance
  | sigint i =>
      obtain ⟨process, hi, hinterrupt⟩ := Option.bind_eq_some_iff.mp hstep
      unfold interrupt at hinterrupt
      split at hinterrupt
      · obtain rfl := Option.some.inj hinterrupt
        rfl
      · obtain rfl := Option.some.inj hinterrupt
        rfl
      · exact absurd hinterrupt (by simp)
      · obtain rfl := Option.some.inj hinterrupt
        rfl

/-- The semaphores as they were at the start, and no write lost. -/
theorem Safe.finished (hsafe : Safe value state)
    (hwait : state.semaphores .waitReaders = 1) (hfinished : state.Finished) :
    state.semaphores = initialSemaphores ∧
      state.shm = value + BitVec.ofNat 32 state.written := by
  have hnobody : ∀ role, state.inside role = 0 := by
    intro role
    unfold State.inside
    rw [List.countP_eq_zero]
    intro process hmem
    simp [Process.inside, hfinished process hmem, Pc.within]
  refine ⟨?_, hsafe.quiet (hnobody .writer)⟩
  funext num
  cases num with
  | activeReaders => exact hsafe.readers.trans (hnobody .reader)
  | activeWriters => exact hsafe.writers.trans (hnobody .writer)
  | waitReaders => exact hwait
  | waitWriters => exact hsafe.waitWriters

/-- What holds from the moment on when everyone has been signalled. -/
structure Closing (value : BitVec 32) (n : Nat) (state : State) : Prop where
  safe : Safe value state
  count : state.processes.length = n
  signalled : ∀ j, state.Signalled j

theorem Closing.step {n : Nat} (hclosing : Closing value n state)
    (hstep : LinReadersWriters.step state (.run i) = some state') :
    Closing value n state' ∧ state'.weight < state.weight := by
  obtain ⟨process, hi, hadvance⟩ := Option.bind_eq_some_iff.mp hstep
  obtain ⟨after, hprocesses, -, hless⟩ :=
    advance_ending (hclosing.signalled i process hi) hadvance
  constructor
  · exact
      { safe := hclosing.safe.step hstep
        count := by
          rw [hprocesses, List.length_set]
          exact hclosing.count
        signalled := fun j => Signalled.step (hclosing.signalled j) hstep }
  · have hsum := @sum_map_set _ state.processes i process after
      (fun process => process.pc.rank) hi
    unfold State.weight
    rw [hprocesses]
    omega

theorem Pc.rank_le (pc : Pc) : pc.rank ≤ 9 := by
  cases pc with
  | start blocked => cases blocked <;> simp [Pc.rank]
  | stop blocked => cases blocked <;> simp [Pc.rank]
  | loop | load | store | print | sleep | exited => simp [Pc.rank]

theorem weight_le (state : State) : state.weight ≤ 9 * state.processes.length := by
  have hle := List.sum_le_card_nsmul (state.processes.map fun process => process.pc.rank) 9
    (by
      intro rank hrank
      obtain ⟨process, -, rfl⟩ := List.mem_map.mp hrank
      exact process.pc.rank_le)
  rw [List.length_map, smul_eq_mul] at hle
  unfold State.weight
  omega

/-- Readers and writers never deadlock.  When every one of them has been sent a
`SIGINT`, whenever that was, they take at most nine more steps each, whatever
the schedule, and can take them until all have exited; then the semaphores are
as at the start, and the shared value has been incremented once for each write. -/
theorem shutdown_run
    (hrun : run step (State.initial roles value) events = some state) :
    (¬ state.Finished → ∃ i next, step state (.run i) = some next) ∧
      ((∀ i < roles.length, Event.sigint i ∈ events) →
        (∀ (more : List Nat) (final : State),
          run step state (more.map Event.run) = some final →
            more.length ≤ 9 * roles.length) ∧
        ∃ (more : List Nat) (final : State),
          run step state (more.map Event.run) = some final ∧ final.Finished) ∧
      (state.Finished → state.semaphores = initialSemaphores ∧
        state.shm = value + BitVec.ofNat 32 state.written) := by
  have hsafe := safe_of_run hrun
  have hwait : state.semaphores .waitReaders = 1 :=
    @run_invariant _ _ _ (fun state : State => state.semaphores .waitReaders = 1)
      (fun _ _ _ hstate hstep => (step_waitReaders hstep).trans hstate) _ _ _ rfl hrun
  refine ⟨hsafe.exists_step, ?_, hsafe.finished hwait⟩
  intro hall
  have hcount : state.processes.length = roles.length := by
    rw [← roles_of_run hrun, List.length_map]
  have hclosing : Closing value roles.length state := by
    refine ⟨hsafe, hcount, fun j => ?_⟩
    by_cases hj : j < roles.length
    · exact signalled_of_mem (hall j hj) hrun
    · intro process hprocess
      exact absurd (lt_length hprocess) (by omega)
  constructor
  · intro more final hmore
    rw [run_map] at hmore
    have hlength := run_length (fun _ _ _ hstate hstep => Closing.step hstate hstep)
      hclosing hmore
    have hle := weight_le state
    omega
  · obtain ⟨more, final, hmore, hfinished⟩ :=
      @run_complete _ _ (fun state i => step state (.run i))
        (Closing value roles.length) State.Finished State.weight
        (fun _ _ _ hstate hstep => hstate.step hstep)
        (fun _ hstate hunfinished => hstate.safe.exists_step hunfinished) _ hclosing
    exact ⟨more, final, (run_map _ _ _).trans hmore, hfinished⟩

/-- A writer and a reader that are signalled on their way in. -/
theorem shutdown_run_two :
    ∃ (more : List Nat) (final : State),
      (run step (State.initial [.writer, .reader] 7) [.run 0, .run 1, .sigint 1, .sigint 0]).bind
        (fun state => run step state (more.map Event.run)) = some final ∧ final.Finished := by
  have hrun : ∃ state, run step (State.initial [.writer, .reader] 7)
      [.run 0, .run 1, .sigint 1, .sigint 0] = some state := ⟨_, rfl⟩
  obtain ⟨state, hrun⟩ := hrun
  obtain ⟨more, final, hmore, hfinished⟩ :=
    ((shutdown_run hrun).2.1 (by decide)).2
  exact ⟨more, final, by rw [hrun]; exact hmore, hfinished⟩

end LinReadersWriters
end MutualExclusion
end OsStuff
