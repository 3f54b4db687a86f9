import OsStuff.MutualExclusion.LinReadersWriters

/-!
# Waiting writers in `lin_readers_writers.c`

`start_write` counts `WAIT_WRITERS` up and down in one call of `semop`, so that
no other process ever sees the semaphore different from zero.  A reader is
therefore not held back by a writer that is blocked, whenever there is a reader
and a writer at all.
-/

namespace OsStuff
namespace MutualExclusion
namespace LinReadersWriters

open Library Library.Semaphores Library.Processes

/-- Process `i` is a writer blocked in its `start_write`. -/
def State.BlockedWriter (state : State) (i : Nat) : Prop :=
  ∃ sigStatus, state.processes[i]? = some ⟨.writer, .start true, sigStatus⟩

/-- Process `j` is a reader that has not issued its next `start_read`. -/
def State.NotIssued (state : State) (j : Nat) : Prop :=
  ∃ pc sigStatus, state.processes[j]? = some ⟨.reader, pc, sigStatus⟩ ∧
    ∀ blocked, pc ≠ .start blocked

/-- Process `j` completes its `start_read` in the step from `state` to
`state'`. -/
def Completes (state state' : State) (j : Nat) : Prop :=
  ∃ blocked sigStatus,
    state.processes[j]? = some ⟨.reader, .start blocked, sigStatus⟩ ∧
    step state (.run j) = some state' ∧
    state'.processes[j]? = some ⟨.reader, .print, sigStatus⟩

/-- No `start_read` issued while a writer is blocked in its `start_write`
completes as long as the writer is. -/
def WaitingWritersFirst (roles : List Role) (value : BitVec 32) : Prop :=
  ∀ front state i j, run step (State.initial roles value) front = some state →
    state.BlockedWriter i → state.NotIssued j →
    ∀ back later after,
      GuardedRun step (fun _ _ next => next.BlockedWriter i) state back later →
      ¬ Completes later after j

variable {roles : List Role} {value : BitVec 32} {state state' : State}
  {i j : Nat} {role : Role} {process : Process} {event : Event}

/-! ## Roles -/

theorem processes_eq {next : State} (hstep : some next = some state') :
    state'.processes = next.processes :=
  (congrArg State.processes (Option.some.inj hstep)).symm

/-- What a process does leaves its role and the other processes alone. -/
theorem advance_processes (hstep : advance state i process = some state') :
    ∃ pc, state'.processes =
      state.processes.set i { process with pc := pc } := by
  unfold advance at hstep
  split at hstep
  · split at hstep
    · exact ⟨_, processes_eq hstep⟩
    · exact ⟨_, processes_eq hstep⟩
  · split at hstep
    · exact ⟨_, processes_eq hstep⟩
    · split at hstep
      · exact absurd hstep (by simp)
      · exact ⟨_, processes_eq hstep⟩
  · exact ⟨_, processes_eq hstep⟩
  · exact ⟨_, processes_eq hstep⟩
  · exact ⟨_, processes_eq hstep⟩
  · split at hstep
    · exact ⟨_, processes_eq hstep⟩
    · split at hstep
      · exact absurd hstep (by simp)
      · exact ⟨_, processes_eq hstep⟩
  · exact ⟨_, processes_eq hstep⟩
  · exact absurd hstep (by simp)

/-- A signal leaves the role of a process and the other processes alone. -/
theorem interrupt_processes (hstep : interrupt state i process = some state') :
    ∃ pc sigStatus, state'.processes =
      state.processes.set i ⟨process.role, pc, sigStatus⟩ := by
  unfold interrupt at hstep
  split at hstep
  · exact ⟨_, _, processes_eq hstep⟩
  · exact ⟨_, _, processes_eq hstep⟩
  · exact absurd hstep (by simp)
  · exact ⟨_, _, processes_eq hstep⟩

/-- A step keeps the roles of all processes. -/
theorem step_roles (hstep : step state event = some state') :
    state'.processes.map Process.role = state.processes.map Process.role := by
  have hset : ∀ i process after, state.processes[i]? = some process →
      after.role = process.role →
      (state.processes.set i after).map Process.role =
        state.processes.map Process.role := by
    intro i process after hi hrole
    obtain ⟨hlt, hget⟩ := List.getElem?_eq_some_iff.mp hi
    have hroles : i < (state.processes.map Process.role).length := by
      simpa using hlt
    have hself : (state.processes.map Process.role)[i] = after.role := by
      rw [List.getElem_map, hget, hrole]
    rw [List.map_set, ← hself, List.set_getElem_self]
  cases event with
  | run i =>
      obtain ⟨process, hi, hadvance⟩ := Option.bind_eq_some_iff.mp hstep
      obtain ⟨pc, hprocesses⟩ := advance_processes hadvance
      rw [hprocesses]
      exact hset i process _ hi rfl
  | sigint i =>
      obtain ⟨process, hi, hinterrupt⟩ := Option.bind_eq_some_iff.mp hstep
      obtain ⟨pc, sigStatus, hprocesses⟩ := interrupt_processes hinterrupt
      rw [hprocesses]
      exact hset i process _ hi rfl

/-- The roles of the processes are those they were started with. -/
theorem roles_of_run {events : List Event}
    (hrun : run step (State.initial roles value) events = some state) :
    state.processes.map Process.role = roles := by
  let Started : State → Prop := fun state =>
    state.processes.map Process.role = roles
  have hinitial : Started (State.initial roles value) := by
    show (roles.map _).map Process.role = roles
    rw [List.map_map]
    exact List.map_id roles
  exact run_invariant (fun _ _ _ hstarted hstep =>
    (step_roles hstep).trans hstarted) hinitial hrun

theorem role_mem {events : List Event}
    (hrun : run step (State.initial roles value) events = some state)
    (hi : state.processes[i]? = some process) : process.role ∈ roles := by
  rw [← roles_of_run hrun]
  exact List.mem_map_of_mem (List.mem_of_getElem? hi)

/-! ## The steps of one reader or writer -/

/-- The step of process `i` leads to `next`, in which it is `after` and the
other processes are as before. -/
structure Moves (state : State) (i : Nat) (after : Process)
    (semaphores : Semaphore → Nat) (next : State) : Prop where
  step_eq : step state (.run i) = some next
  self : next.processes[i]? = some after
  semaphores_eq : next.semaphores = semaphores
  others : ∀ k, k ≠ i → next.processes[k]? = state.processes[k]?

/-- A step that replaces the process is a move. -/
theorem moves_of_advance {after : Process} {next : State}
    {semaphores : Semaphore → Nat} (hi : state.processes[i]? = some process)
    (hadvance : advance state i process = some next)
    (hnext : next.processes = state.processes.set i after)
    (hsemaphores : next.semaphores = semaphores) :
    Moves state i after semaphores next := by
  refine ⟨?_, ?_, hsemaphores, ?_⟩
  · simp only [step, hi, Option.bind_some, hadvance]
  · rw [hnext]
    exact set_self hi
  · intro k hk
    rw [hnext]
    exact set_other hk.symm

theorem moves_loop (hi : state.processes[i]? = some ⟨role, .loop, false⟩) :
    ∃ next, Moves state i ⟨role, .start false, false⟩ state.semaphores next :=
  ⟨state.set i ⟨role, .start false, false⟩, moves_of_advance hi rfl rfl rfl⟩

theorem moves_sleep (hi : state.processes[i]? = some ⟨role, .sleep, false⟩) :
    ∃ next, Moves state i ⟨role, .loop, false⟩ state.semaphores next :=
  ⟨state.set i ⟨role, .loop, false⟩, moves_of_advance hi rfl rfl rfl⟩

theorem moves_print (hi : state.processes[i]? = some ⟨role, .print, false⟩) :
    ∃ next, Moves state i ⟨role, .stop false, false⟩ state.semaphores next :=
  ⟨{ state.set i ⟨role, .stop false, false⟩ with
      output := state.output ++ [⟨role, i, state.shm⟩] },
    moves_of_advance hi rfl rfl rfl⟩

/-- A reader gets into its section when no writer is active or counted. -/
theorem moves_startRead
    (hi : state.processes[i]? = some ⟨.reader, .start false, false⟩)
    (hwriters : state.semaphores .activeWriters = 0)
    (hwaiting : state.semaphores .waitWriters = 0) :
    ∃ next, Moves state i ⟨.reader, .print, false⟩
      (Function.update state.semaphores .activeReaders
        (state.semaphores .activeReaders + 1)) next := by
  have hsemop := semop_startRead.mpr ⟨hwriters, hwaiting, rfl⟩
  refine ⟨{ state.set i ⟨.reader, .print, false⟩ with
    semaphores := Function.update state.semaphores .activeReaders
      (state.semaphores .activeReaders + 1) }, moves_of_advance hi ?_ rfl rfl⟩
  simp only [advance, Role.start, hsemop, Role.enter]

/-- A reader leaves its section. -/
theorem moves_stopRead
    (hi : state.processes[i]? = some ⟨.reader, .stop false, false⟩)
    (hreaders : 1 ≤ state.semaphores .activeReaders) :
    ∃ next, Moves state i ⟨.reader, .sleep, false⟩
      (Function.update state.semaphores .activeReaders
        (state.semaphores .activeReaders - 1)) next := by
  have hsemop := semop_stopRead.mpr ⟨hreaders, rfl⟩
  refine ⟨{ state.set i ⟨.reader, .sleep, false⟩ with
    semaphores := Function.update state.semaphores .activeReaders
      (state.semaphores .activeReaders - 1) }, moves_of_advance hi ?_ rfl rfl⟩
  simp only [advance, Role.stop, hsemop]
  rfl

/-- A writer blocks while a reader is active. -/
theorem moves_startWrite
    (hi : state.processes[i]? = some ⟨.writer, .start false, false⟩)
    (hreaders : state.semaphores .activeReaders ≠ 0) :
    ∃ next, Moves state i ⟨.writer, .start true, false⟩ state.semaphores
      next := by
  have hsemop : semop state.semaphores startWrite = none := by
    rw [Option.eq_none_iff_forall_ne_some]
    intro values hsemop
    exact hreaders (semop_startWrite.mp hsemop).1
  refine ⟨state.set i ⟨.writer, .start true, false⟩, moves_of_advance hi ?_ rfl rfl⟩
  simp only [advance, Role.start, hsemop]
  rfl

/-! ## A reader gets past a blocked writer -/

/-- A reader inside and a writer blocked by it. -/
structure Behind (state : State) (i j : Nat) : Prop where
  writer : state.processes[i]? = some ⟨.writer, .start true, false⟩
  reader : state.processes[j]? = some ⟨.reader, .print, false⟩
  readers : state.semaphores .activeReaders = 1
  writers : state.semaphores .activeWriters = 0
  waitWriters : state.semaphores .waitWriters = 0

/-- A writer can block behind a reader. -/
theorem exists_behind (value : BitVec 32) (hi : roles[i]? = some .writer)
    (hj : roles[j]? = some .reader) (hne : i ≠ j) :
    ∃ events state, run step (State.initial roles value) events = some state ∧
      Behind state i j := by
  have hwriter : (State.initial roles value).processes[i]? =
      some ⟨.writer, .loop, false⟩ := by
    simp [State.initial, hi]
  have hreader : (State.initial roles value).processes[j]? =
      some ⟨.reader, .loop, false⟩ := by
    simp [State.initial, hj]
  -- The reader enters, and then the writer waits behind it.
  obtain ⟨state₁, h₁⟩ := moves_loop hreader
  obtain ⟨state₂, h₂⟩ := moves_startRead h₁.self
    (by rw [h₁.semaphores_eq]; rfl) (by rw [h₁.semaphores_eq]; rfl)
  have hwriter₂ := (h₂.others i hne).trans ((h₁.others i hne).trans hwriter)
  obtain ⟨state₃, h₃⟩ := moves_loop hwriter₂
  have hreaders : state₃.semaphores .activeReaders = 1 := by
    rw [h₃.semaphores_eq, h₂.semaphores_eq, h₁.semaphores_eq]
    rfl
  obtain ⟨state₄, h₄⟩ := moves_startWrite h₃.self
    (by rw [hreaders]; exact Nat.one_ne_zero)
  refine ⟨[.run j, .run j, .run i, .run i], state₄, ?_, ?_⟩
  · rw [run_cons]
    refine ⟨state₁, h₁.step_eq, run_cons.mpr ⟨state₂, h₂.step_eq, ?_⟩⟩
    exact run_cons.mpr ⟨state₃, h₃.step_eq, run_cons.mpr ⟨_, h₄.step_eq, rfl⟩⟩
  · have hsemaphores : state₄.semaphores = _ := h₄.semaphores_eq.trans
      (h₃.semaphores_eq.trans h₂.semaphores_eq)
    rw [h₁.semaphores_eq] at hsemaphores
    constructor
    · exact h₄.self
    · exact (h₄.others j hne.symm).trans ((h₃.others j hne.symm).trans h₂.self)
    · rw [hsemaphores]
      rfl
    · rw [hsemaphores]
      rfl
    · rw [hsemaphores]
      rfl

/-- A reader that leaves and comes back finds the semaphores free, as if no
writer had waited. -/
theorem Behind.overtakes (hbehind : Behind state i j) (hne : i ≠ j) :
    ∃ back later after,
      GuardedRun step (fun _ _ next => next.BlockedWriter i) state back later ∧
        Completes later after j := by
  obtain ⟨state₁, h₁⟩ := moves_print hbehind.reader
  have hwriter₁ := (h₁.others i hne).trans hbehind.writer
  obtain ⟨state₂, h₂⟩ := moves_stopRead h₁.self
    (by rw [h₁.semaphores_eq, hbehind.readers])
  have hwriter₂ := (h₂.others i hne).trans hwriter₁
  obtain ⟨state₃, h₃⟩ := moves_sleep h₂.self
  have hwriter₃ := (h₃.others i hne).trans hwriter₂
  obtain ⟨state₄, h₄⟩ := moves_loop h₃.self
  have hwriter₄ := (h₄.others i hne).trans hwriter₃
  have hsemaphores : state₄.semaphores = _ := h₄.semaphores_eq.trans
    (h₃.semaphores_eq.trans h₂.semaphores_eq)
  rw [h₁.semaphores_eq] at hsemaphores
  obtain ⟨state₅, h₅⟩ := moves_startRead h₄.self
    (by rw [hsemaphores]; exact hbehind.writers)
    (by rw [hsemaphores]; exact hbehind.waitWriters)
  refine ⟨[.run j, .run j, .run j, .run j], state₄, state₅, ?_, ?_⟩
  · refine GuardedRun.cons h₁.step_eq ⟨false, hwriter₁⟩ ?_
    refine GuardedRun.cons h₂.step_eq ⟨false, hwriter₂⟩ ?_
    refine GuardedRun.cons h₃.step_eq ⟨false, hwriter₃⟩ ?_
    exact GuardedRun.cons h₄.step_eq ⟨false, hwriter₄⟩ (GuardedRun.nil _)
  · exact ⟨false, false, h₄.self, h₅.step_eq, h₅.self⟩

end LinReadersWriters
end MutualExclusion
end OsStuff
