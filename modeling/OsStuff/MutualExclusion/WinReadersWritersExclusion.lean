import OsStuff.MutualExclusion.WinReadersWriters

/-!
# Exclusion in `win_reades_writers.c`

Nothing resets `canWrite`, so it is signalled in every state reached and a
writer never waits: from any such state it gets into its section without another
thread taking a step, whoever is inside.  Sections are therefore exclusive only
where there is nobody to exclude.
-/

namespace OsStuff
namespace MutualExclusion
namespace WinReadersWriters

open Library Library.Interleaving Library.Processes

variable {writers readers : Nat} {state state' : State}
  {shared shared' : Shared} {thread thread' : Thread} {i j id n : Nat}

/-! ## `canWrite` stays signalled -/

theorem advanceWriter_canWrite {pc : WriterPc}
    (hadvance : advanceWriter shared id i pc = some (shared', thread'))
    (hcan : shared.canWrite = true) : shared'.canWrite = true := by
  cases pc with
  | loop | test | testWaiting =>
      simp only [advanceWriter] at hadvance
      split at hadvance
      · simp only [Option.some.injEq, Prod.mk.injEq] at hadvance
        exact hadvance.1 ▸ hcan
      · simp only [Option.some.injEq, Prod.mk.injEq] at hadvance
        exact hadvance.1 ▸ hcan
  | wait =>
      simp only [advanceWriter, hcan, if_true, Option.some.injEq,
        Prod.mk.injEq] at hadvance
      exact hadvance.1 ▸ hcan
  | returned => exact absurd hadvance (by simp [advanceWriter])
  | incrementWaiting | decrementWaiting | setWorking | incrementValue | print
  | clearWorking | signalRead | signalWrite | sleep =>
      simp only [advanceWriter, Option.some.injEq, Prod.mk.injEq] at hadvance
      obtain ⟨rfl, -⟩ := hadvance
      first
        | exact hcan
        | rfl

theorem advanceReader_canWrite {pc : ReaderPc}
    (hadvance : advanceReader writers i shared id pc = some (shared', thread'))
    (hcan : shared.canWrite = true) : shared'.canWrite = true := by
  cases pc with
  | loop | test | unlock | testActive =>
      simp only [advanceReader] at hadvance
      split at hadvance
      · simp only [Option.some.injEq, Prod.mk.injEq] at hadvance
        exact hadvance.1 ▸ hcan
      · simp only [Option.some.injEq, Prod.mk.injEq] at hadvance
        exact hadvance.1 ▸ hcan
  | lock =>
      simp only [advanceReader] at hadvance
      split at hadvance
      · simp only [Option.some.injEq, Prod.mk.injEq] at hadvance
        exact hadvance.1 ▸ hcan
      · exact absurd hadvance (by simp)
  | wait =>
      simp only [advanceReader] at hadvance
      split at hadvance
      · simp only [Option.some.injEq, Prod.mk.injEq] at hadvance
        exact hadvance.1 ▸ hcan
      · exact absurd hadvance (by simp)
  | returned => exact absurd hadvance (by simp [advanceReader])
  | incrementWaiting | decrementWaiting | incrementActive | signal | print
  | decrementActive | signalWrite | resetRead | sleep =>
      simp only [advanceReader, Option.some.injEq, Prod.mk.injEq] at hadvance
      obtain ⟨rfl, -⟩ := hadvance
      first
        | exact hcan
        | rfl

/-- No step takes the signal from `canWrite`. -/
theorem advance_canWrite
    (hadvance : advance writers i shared thread = some (shared', thread'))
    (hcan : shared.canWrite = true) : shared'.canWrite = true := by
  cases thread with
  | writer id n pc => exact advanceWriter_canWrite hadvance hcan
  | reader id pc => exact advanceReader_canWrite hadvance hcan

theorem canWrite_run {events : List Nat}
    (hrun : run (step (advance writers)) (State.initial writers readers) events =
      some state) : state.shared.canWrite = true := by
  refine @run_invariant _ _ _ (fun s : State => s.shared.canWrite = true)
    ?_ _ _ _ rfl hrun
  intro state i next hcan hstep
  obtain ⟨thread, shared', thread', -, hadvance, rfl⟩ := step_cases hstep
  exact advance_canWrite hadvance hcan

/-! ## Getting into a section -/

/-- `startWrite` from end to end, in any state with `canWrite` signalled. -/
theorem solo_startWrite (hcan : shared.canWrite = true) (hn : n < iters) :
    ∃ steps, solo (advance writers) i steps shared (.writer id n .loop) =
      some ({ shared with
          waitingWriters := shared.waitingWriters + 1 - 1
          workingWriter := true },
        .writer id n .incrementValue) := by
  by_cases htest :
      (shared.workingWriter || positive shared.activeReaders) = true
  · refine ⟨6, ?_⟩
    simp only [solo, advance, advanceWriter, hn, htest, hcan, if_true,
      Option.bind_some]
  · refine ⟨5, ?_⟩
    simp only [solo, advance, advanceWriter, hn, htest, if_true,
      Option.bind_some]
    rfl

/-- A writer gets into its section whoever is in one. -/
theorem exists_startWrite {events : List Nat}
    (hrun : run (step (advance writers)) (State.initial writers readers) events =
      some state)
    (hi : state.threads[i]? = some (.writer id n .loop)) (hn : n < iters) :
    ∃ steps shared', run (step (advance writers))
      (State.initial writers readers) (events ++ List.replicate steps i) =
        some ⟨shared', state.threads.set i (.writer id n .incrementValue)⟩ := by
  obtain ⟨steps, hsolo⟩ := solo_startWrite (canWrite_run hrun) hn
  exact ⟨steps, _, run_append.mpr ⟨state, hrun, run_solo hi hsolo⟩⟩

theorem initial_writer (readers : Nat) (hi : i < writers) :
    (State.initial writers readers).threads[i]? = some (.writer i 0 .loop) := by
  have hlt : i < ((List.range writers).map fun id =>
      Thread.writer id 0 .loop).length := by
    rwa [List.length_map, List.length_range]
  unfold State.initial
  rw [List.getElem?_append_left hlt]
  simp [hi]

/-- The first reader gets into its section when it is the first thread to
run. -/
theorem exists_startRead (hwriters : writers = 1) (hreaders : 0 < readers) :
    ∃ events state, run (step (advance writers))
        (State.initial writers readers) events = some state ∧
      state.threads[0]? = some (.writer 0 0 .loop) ∧
      state.threads[1]? = some (.reader 0 .print) := by
  subst hwriters
  have hthread : (State.initial 1 readers).threads[1]? =
      some (.reader 0 .loop) := by
    simp [State.initial, hreaders]
  have hsolo : ∃ shared', solo (advance 1) 1 8
      (State.initial 1 readers).shared (.reader 0 .loop) =
        some (shared', .reader 0 .print) := ⟨_, rfl⟩
  obtain ⟨shared', hsolo⟩ := hsolo
  refine ⟨_, _, run_solo hthread hsolo, ?_, ?_⟩
  · exact set_other Nat.one_ne_zero
  · exact set_self hthread

/-! ## When sections are exclusive -/

/-- A thread keeps its role. -/
theorem advance_role
    (hadvance : advance writers i shared thread = some (shared', thread')) :
    thread'.role = thread.role := by
  cases thread with
  | writer id n pc =>
      cases pc <;> simp only [advance, advanceWriter] at hadvance <;>
        (try split at hadvance) <;> simp at hadvance <;>
        rw [← hadvance.2] <;> rfl
  | reader id pc =>
      cases pc <;> simp only [advance, advanceReader] at hadvance <;>
        (try split at hadvance) <;> simp at hadvance <;>
        rw [← hadvance.2] <;> rfl

theorem roles_initial (writers readers : Nat) :
    (State.initial writers readers).threads.map Thread.role =
      List.replicate writers .writer ++ List.replicate readers .reader := by
  simp [State.initial, Function.comp_def, Thread.role, List.map_const']

theorem role_of_inside {role : Role} (hinside : thread.inside role = true) :
    thread.role = role := by
  cases thread with
  | writer id n pc => simp_all [Thread.inside, Thread.role]
  | reader id pc => simp_all [Thread.inside, Thread.role]

/-- At most as many threads are in a section as there are of the role. -/
theorem inside_le (role : Role) (state : State) :
    inside role state ≤ (state.threads.map Thread.role).count role := by
  unfold inside List.count
  rw [List.countP_map]
  apply List.countP_mono_left
  intro thread _ hinside
  simp [role_of_inside hinside]

/-- Sections are exclusive exactly when there is no writer, or one writer and
no reader. -/
theorem exclusive_iff (writers readers : Nat) :
    Exclusive writers readers ↔
      writers = 0 ∨ writers = 1 ∧ readers = 0 := by
  constructor
  · intro hexclusive
    by_contra hnone
    rw [not_or, not_and] at hnone
    by_cases hone : writers = 1
    · -- The writer enters while the reader is inside.
      obtain ⟨events, state, hrun, hwriter, hreader⟩ :=
        exists_startRead hone (Nat.pos_of_ne_zero (hnone.2 hone))
      obtain ⟨steps, shared', hrun'⟩ :=
        exists_startWrite hrun hwriter (by decide)
      obtain ⟨-, hnobody⟩ := hexclusive _ _ hrun'
      have hwriter' : (state.threads.set 0 (.writer 0 0 .incrementValue))[0]? =
          some (.writer 0 0 .incrementValue) := set_self hwriter
      have hreader' : (state.threads.set 0 (.writer 0 0 .incrementValue))[1]? =
          some (.reader 0 .print) := (set_other Nat.zero_ne_one).trans hreader
      have hwriters : 0 < inside .writer ⟨shared', _⟩ :=
        countP_pos hwriter' rfl
      have hreaders : 0 < inside .reader ⟨shared', _⟩ :=
        countP_pos hreader' rfl
      cases hnobody with
      | inl hzero => exact hwriters.ne' hzero
      | inr hzero => exact hreaders.ne' hzero
    · -- The second writer enters while the first is inside.
      have hfirst := initial_writer readers (Nat.pos_of_ne_zero hnone.1)
      obtain ⟨steps, shared₁, hrun₁⟩ := exists_startWrite
        (run_nil (State.initial writers readers)) hfirst (by decide)
      have hsecond : ((State.initial writers readers).threads.set 0
          (.writer 0 0 .incrementValue))[1]? = some (.writer 1 0 .loop) :=
        (set_other Nat.zero_ne_one).trans
          (initial_writer readers (show 1 < writers by omega))
      obtain ⟨steps', shared₂, hrun₂⟩ :=
        exists_startWrite hrun₁ hsecond (by decide)
      obtain ⟨hle, -⟩ := hexclusive _ _ hrun₂
      have hboth : (((State.initial writers readers).threads.set 0
          (.writer 0 0 .incrementValue)).set 1
            (.writer 1 0 .incrementValue))[0]? =
          some (.writer 0 0 .incrementValue) :=
        (set_other Nat.one_ne_zero).trans (set_self hfirst)
      exact Nat.zero_ne_one
        (index_unique hle hboth (set_self hsecond) rfl rfl)
  · intro hfew events state hrun
    -- The threads keep their roles, and no more of a role are inside than there are.
    have hroles : state.threads.map Thread.role =
        List.replicate writers .writer ++ List.replicate readers .reader :=
      (map_run (fun _ _ _ _ _ hadvance => advance_role hadvance) hrun).trans
        (roles_initial writers readers)
    have hwriters := inside_le .writer state
    have hreaders := inside_le .reader state
    rw [hroles, List.count_append, List.count_replicate,
      List.count_replicate] at hwriters hreaders
    simp at hwriters hreaders
    unfold Excluded
    omega

/-- Two writers, one after the other: the second finds the first inside, waits
for `canWrite`, which is signalled, and enters. -/
theorem second_writer_enters : ¬ Exclusive 2 0 := by
  intro hexclusive
  have hrun : ∃ state, run (step (advance 2)) (State.initial 2 0)
      [0, 0, 0, 0, 0, 1, 1, 1, 1, 1, 1] = some state ∧
        inside .writer state = 2 := ⟨_, rfl, by decide⟩
  obtain ⟨state, hrun, htwo⟩ := hrun
  have hle := (hexclusive _ state hrun).1
  omega

end WinReadersWriters
end MutualExclusion
end OsStuff
