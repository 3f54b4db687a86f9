import OsStuff.MutualExclusion.WinReadersWritersProgress

/-!
# Deadlocks of `win_reades_writers.c`

A reader that leaves its section resets `canRead`.  When a writer has signalled
the event for the next reader and that reader has not yet come to its wait, the
signal is lost, and the reader waits with the mutex in its hands for a writer
that has left.
-/

namespace OsStuff
namespace MutualExclusion
namespace WinReadersWriters

open Library Library.Interleaving Library.Processes

/-- No thread can take a step, and one of them has not returned. -/
def Deadlocked (writers : Nat) (state : State) : Prop :=
  (∀ i, step (advance writers) state i = none) ∧ ¬ Finished state

/-- The shared part when nobody is between the beginning of a `start` function
and the end of its `stop` function, and `value` is `k`. -/
structure Calm (k : Nat) (shared : Shared) : Prop where
  mutex : shared.mutex = none
  workingWriter : shared.workingWriter = false
  waitingWriters : shared.waitingWriters = 0
  waitingReaders : shared.waitingReaders = 0
  activeReaders : shared.activeReaders = 0
  value : shared.value = BitVec.ofNat 32 k

variable {writers readers : Nat} {state state' : State}
  {shared shared' : Shared} {thread thread' : Thread} {i j id n k m bound : Nat}

theorem slt_ofNat (hk : k < bound) (hbound : bound < 2 ^ 31) :
    (BitVec.ofNat 32 k).slt (BitVec.ofNat 32 bound) = true := by
  simp only [BitVec.slt, decide_eq_true_eq]
  rw [BitVec.toInt_eq_toNat_of_lt (by simp; omega), BitVec.toInt_eq_toNat_of_lt (by simp; omega)]
  simp
  omega

theorem one_sub_one : (0 + 1 - 1 : BitVec 32) = 0 := by decide

/-! ## Pieces of the threads' work -/

theorem solo_round (hcalm : Calm k shared) (hn : n < iters) :
    ∃ shared', solo (advance writers) i 11 shared (.writer id n .loop) =
        some (shared', .writer id (n + 1) .loop) ∧ Calm (k + 1) shared' := by
  refine ⟨{ shared with
      workingWriter := false
      waitingWriters := shared.waitingWriters + 1 - 1
      value := shared.value + 1
      canWrite := true
      output := shared.output ++ [⟨.writer, id, shared.value + 1⟩] }, ?_, ?_⟩
  · simp only [solo, advance, advanceWriter, hn, if_true, hcalm.workingWriter,
      hcalm.activeReaders, hcalm.waitingReaders, positive_zero, Bool.or_self,
      Bool.false_eq_true, if_false, Option.bind_some]
  · exact
      { mutex := hcalm.mutex
        workingWriter := rfl
        waitingWriters := by
          change shared.waitingWriters + 1 - 1 = 0
          rw [hcalm.waitingWriters]
          rfl
        waitingReaders := hcalm.waitingReaders
        activeReaders := hcalm.activeReaders
        value := by
          change shared.value + 1 = _
          rw [hcalm.value, BitVec.ofNat_add]
          rfl }

theorem solo_rounds (hcalm : Calm k shared) (hm : m ≤ iters) :
    ∃ steps shared', solo (advance writers) i steps shared (.writer id 0 .loop) =
        some (shared', .writer id m .loop) ∧ Calm (k + m) shared' := by
  induction m with
  | zero => exact ⟨0, shared, rfl, hcalm⟩
  | succ m ih =>
      obtain ⟨steps, shared₁, hfirst, hcalm₁⟩ := ih (by omega)
      obtain ⟨shared₂, hround, hcalm₂⟩ := solo_round hcalm₁ (show m < iters from hm)
      exact ⟨steps + 11, shared₂, solo_append hfirst hround, hcalm₂⟩

/-- `writer` from end to end. -/
theorem solo_writer (hcalm : Calm k shared) :
    ∃ steps shared', solo (advance writers) i steps shared (.writer id 0 .loop) =
        some (shared', .writer id iters .returned) ∧ Calm (k + iters) shared' := by
  obtain ⟨steps, shared₁, hrounds, hcalm₁⟩ := solo_rounds hcalm (le_refl iters)
  refine ⟨steps + 1, shared₁, solo_append hrounds ?_, hcalm₁⟩
  simp [solo, advance, advanceWriter]

/-- A reader that has been in its section is about to reset `canRead`. -/
theorem solo_reader (hcalm : Calm k shared)
    (hvalue : shared.value.slt (BitVec.ofNat 32 (writers * iters)) = true) :
    ∃ shared', solo (advance writers) i 12 shared (.reader id .loop) =
        some (shared', .reader id .resetRead) ∧ Calm k shared' := by
  refine ⟨{ shared with
      mutex := none
      waitingReaders := shared.waitingReaders + 1 - 1
      activeReaders := shared.activeReaders + 1 - 1
      canRead := true
      canWrite := true
      output := shared.output ++ [⟨.reader, id, shared.value⟩] }, ?_, ?_⟩
  · simp only [solo, advance, advanceReader, hvalue, if_true, hcalm.mutex,
      hcalm.workingWriter, hcalm.waitingWriters, hcalm.activeReaders, positive_zero,
      Bool.or_self, Bool.false_eq_true, if_false, Option.bind_some, one_sub_one]
  · exact
      { mutex := rfl
        workingWriter := hcalm.workingWriter
        waitingWriters := hcalm.waitingWriters
        waitingReaders := by
          change shared.waitingReaders + 1 - 1 = 0
          rw [hcalm.waitingReaders]
          rfl
        activeReaders := by
          change shared.activeReaders + 1 - 1 = 0
          rw [hcalm.activeReaders]
          rfl
        value := hcalm.value }

/-- A writer in its section for the last time. -/
theorem solo_enter (hcalm : Calm k shared) (hn : n < iters) :
    ∃ shared', solo (advance writers) i 7 shared (.writer id n .loop) =
        some (shared', .writer id n .clearWorking) ∧
      shared'.mutex = none ∧ shared'.workingWriter = true ∧
      shared'.waitingReaders = 0 ∧ shared'.value = BitVec.ofNat 32 (k + 1) := by
  refine ⟨{ shared with
      workingWriter := true
      waitingWriters := shared.waitingWriters + 1 - 1
      value := shared.value + 1
      output := shared.output ++ [⟨.writer, id, shared.value + 1⟩] },
    ?_, hcalm.mutex, rfl, hcalm.waitingReaders, ?_⟩
  · simp only [solo, advance, advanceWriter, hn, if_true, hcalm.workingWriter,
      hcalm.activeReaders, positive_zero, Bool.or_self, Bool.false_eq_true, if_false,
      Option.bind_some]
  · change shared.value + 1 = _
    rw [hcalm.value, BitVec.ofNat_add]
    rfl

/-- A reader that finds a writer at work. -/
theorem solo_queue (hmutex : shared.mutex = none) (hworking : shared.workingWriter = true) :
    solo (advance writers) i 3 shared (.reader id .lock) =
      some ({ shared with
          mutex := some i
          waitingReaders := shared.waitingReaders + 1 },
        .reader id .wait) := by
  simp only [solo, advance, advanceReader, hmutex, hworking, Bool.true_or, if_true,
    Option.bind_some]

/-- A writer that leaves for good and finds a reader that waits. -/
theorem solo_leave (hpositive : positive shared.waitingReaders = true)
    (hn : n + 1 = iters) :
    solo (advance writers) i 5 shared (.writer id n .clearWorking) =
      some ({ shared with workingWriter := false, canRead := true },
        .writer id iters .returned) := by
  simp only [solo, advance, advanceWriter, hpositive, if_true, Option.bind_some, hn,
    lt_irrefl, if_false]

/-- A reader that takes the signal away and has read enough. -/
theorem solo_reset
    (hvalue : shared.value.slt (BitVec.ofNat 32 (writers * iters)) = false) :
    solo (advance writers) i 3 shared (.reader id .resetRead) =
      some ({ shared with canRead := false }, .reader id .returned) := by
  simp only [solo, advance, advanceReader, hvalue, Bool.false_eq_true, if_false,
    Option.bind_some]

/-! ## The way into the deadlock -/

/-- A state that the program gets into. -/
def Reached (writers readers : Nat) (state : State) : Prop :=
  ∃ events, run (step (advance writers)) (State.initial writers readers) events =
    some state

/-- One thread works and the others stay as they are. -/
theorem Reached.solo (hreached : Reached writers readers state) {steps : Nat}
    (hi : state.threads[i]? = some thread)
    (hsolo : Interleaving.solo (advance writers) i steps state.shared thread =
      some (shared', thread')) :
    ∃ state', Reached writers readers state' ∧ state'.shared = shared' ∧
      state'.threads[i]? = some thread' ∧
      ∀ j, j ≠ i → state'.threads[j]? = state.threads[j]? := by
  obtain ⟨events, hrun⟩ := hreached
  obtain ⟨more, state', hmore, hstate'⟩ := exists_run_solo hi hsolo
  exact ⟨state', ⟨events ++ more, run_append.mpr ⟨state, hrun, hmore⟩⟩, hstate'⟩

theorem initial_reader (hi : i < readers) :
    (State.initial writers readers).threads[writers + i]? = some (.reader i .loop) := by
  unfold State.initial
  rw [List.getElem?_append_right (by simp)]
  simp [hi]

/-- The first writers have returned and nobody else has moved. -/
theorem exists_writers_done (hm : m ≤ writers) :
    ∃ state, Reached writers readers state ∧ Calm (m * iters) state.shared ∧
      (∀ j < m, state.threads[j]? = some (.writer j iters .returned)) ∧
      ∀ j, m ≤ j → state.threads[j]? = (State.initial writers readers).threads[j]? := by
  induction m with
  | zero =>
      exact ⟨State.initial writers readers, ⟨[], rfl⟩, ⟨rfl, rfl, rfl, rfl, rfl, rfl⟩,
        fun j hj => absurd hj (Nat.not_lt_zero j), fun _ _ => rfl⟩
  | succ m ih =>
      obtain ⟨state, hreached, hcalm, hdone, hrest⟩ := ih (by omega)
      have hthread : state.threads[m]? = some (.writer m 0 .loop) := by
        rw [hrest m (le_refl m)]
        exact initial_writer readers hm
      obtain ⟨steps, shared', hsolo, hcalm'⟩ := solo_writer hcalm
      obtain ⟨state', hreached', hshared, hself, hother⟩ := hreached.solo hthread hsolo
      refine ⟨state', hreached', ?_, ?_, ?_⟩
      · rw [hshared, Nat.succ_mul]
        exact hcalm'
      · intro j hj
        by_cases hjm : j = m
        · rw [hjm]
          exact hself
        · rw [hother j hjm]
          exact hdone j (by omega)
      · intro j hj
        rw [hother j (by omega)]
        exact hrest j (by omega)

/-- The last writer is on its way out, the first reader has yet to reset
`canRead`, and the second one is to wait for it. -/
theorem exists_crossing (hreaders : 2 ≤ readers) (hbound : (m + 1) * iters < 2 ^ 31) :
    ∃ state, Reached (m + 1) readers state ∧
      state.threads[m]? = some (.writer m 3 .clearWorking) ∧
      state.threads[m + 1]? = some (.reader 0 .resetRead) ∧
      state.threads[m + 2]? = some (.reader 1 .wait) ∧
      positive state.shared.waitingReaders = true ∧
      state.shared.value = BitVec.ofNat 32 ((m + 1) * iters) ∧
      ∀ i, i ≠ m → i ≠ m + 1 → i ≠ m + 2 → ∀ thread, state.threads[i]? = some thread →
        thread.ended = true ∨ ∃ id, thread = .reader id .loop := by
  have hless : m * iters + 3 < (m + 1) * iters := by
    unfold iters
    omega
  -- All writers but the last one.
  obtain ⟨state₀, hreached₀, hcalm₀, hdone, hrest⟩ :=
    @exists_writers_done (m + 1) readers m (Nat.le_succ m)
  have hlast : state₀.threads[m]? = some (.writer m 0 .loop) :=
    (hrest m (le_refl m)).trans (initial_writer readers (Nat.lt_succ_self m))
  have hfirst : state₀.threads[m + 1]? = some (.reader 0 .loop) :=
    (hrest (m + 1) (by omega)).trans (initial_reader (show 0 < readers by omega))
  have hsecond : state₀.threads[m + 2]? = some (.reader 1 .loop) :=
    (hrest (m + 2) (by omega)).trans (initial_reader (show 1 < readers by omega))
  -- The last writer, up to its last iteration.
  obtain ⟨steps, shared₁, hsolo₁, hcalm₁⟩ :=
    @solo_rounds (m + 1) state₀.shared m m (m * iters) 3 hcalm₀ (by decide)
  obtain ⟨state₁, hreached₁, hshared₁, hself₁, hother₁⟩ := hreached₀.solo hlast hsolo₁
  -- The second reader finds that there is something to read, the first one reads.
  have hvalue₁ : state₁.shared.value.slt (BitVec.ofNat 32 ((m + 1) * iters)) = true := by
    rw [hshared₁, hcalm₁.value]
    exact slt_ofNat hless hbound
  have hlook : Interleaving.solo (advance (m + 1)) (m + 2) 1 state₁.shared
      (.reader 1 .loop) = some (state₁.shared, .reader 1 .lock) := by
    simp only [solo, advance, advanceReader, hvalue₁, if_true, Option.bind_some]
  obtain ⟨state₂, hreached₂, hshared₂, hself₂, hother₂⟩ :=
    hreached₁.solo ((hother₁ (m + 2) (by omega)).trans hsecond) hlook
  obtain ⟨shared₃, hsolo₃, hcalm₃⟩ :=
    @solo_reader (m + 1) state₂.shared (m + 1) 0 (m * iters + 3)
      (by rw [hshared₂, hshared₁]; exact hcalm₁) (by rw [hshared₂]; exact hvalue₁)
  obtain ⟨state₃, hreached₃, hshared₃, hself₃, hother₃⟩ :=
    hreached₂.solo (((hother₂ (m + 1) (by omega)).trans (hother₁ (m + 1) (by omega))).trans
      hfirst) hsolo₃
  -- The last writer enters, and the second reader finds it inside.
  obtain ⟨shared₄, hsolo₄, hmutex, hworking, hnobody, hvalue₄⟩ :=
    @solo_enter (m + 1) state₃.shared m m 3 (m * iters + 3) (by rw [hshared₃]; exact hcalm₃)
      (by decide)
  obtain ⟨state₄, hreached₄, hshared₄, hself₄, hother₄⟩ :=
    hreached₃.solo (((hother₃ m (by omega)).trans (hother₂ m (by omega))).trans hself₁) hsolo₄
  obtain ⟨state₅, hreached₅, hshared₅, hself₅, hother₅⟩ :=
    hreached₄.solo (((hother₄ (m + 2) (by omega)).trans (hother₃ (m + 2) (by omega))).trans
      hself₂) (solo_queue (by rw [hshared₄]; exact hmutex) (by rw [hshared₄]; exact hworking))
  refine ⟨state₅, hreached₅, (hother₅ m (by omega)).trans hself₄,
    ((hother₅ (m + 1) (by omega)).trans (hother₄ (m + 1) (by omega))).trans hself₃, hself₅,
    ?_, ?_, ?_⟩
  · rw [hshared₅]
    change positive (state₄.shared.waitingReaders + 1) = true
    rw [hshared₄, hnobody]
    decide
  · rw [hshared₅]
    change state₄.shared.value = _
    rw [hshared₄, hvalue₄]
    congr 1
    unfold iters
    omega
  · intro i hm hfirst hsecond thread hthread
    rw [hother₅ i hsecond, hother₄ i hm, hother₃ i hfirst, hother₂ i hsecond,
      hother₁ i hm] at hthread
    by_cases hi : i < m
    · rw [hdone i hi, Option.some.injEq] at hthread
      subst hthread
      exact Or.inl rfl
    · rw [hrest i (by omega)] at hthread
      obtain ⟨id, hid⟩ : ∃ id, thread = .reader id .loop := by
        obtain ⟨k, rfl⟩ : ∃ k, i = m + 1 + k := ⟨i - (m + 1), by omega⟩
        by_cases hk : k < readers
        · rw [initial_reader hk, Option.some.injEq] at hthread
          exact ⟨k, hthread.symm⟩
        · have hlt := lt_length hthread
          simp [State.initial] at hlt
          omega
      exact Or.inr ⟨id, hid⟩

/-- Thread `b` waits for a signal that nobody is going to give: the others have
returned or are going to. -/
structure Trapped (writers b : Nat) (state : State) : Prop where
  canRead : state.shared.canRead = false
  value : state.shared.value.slt (BitVec.ofNat 32 (writers * iters)) = false
  waiting : ∃ id, state.threads[b]? = some (.reader id .wait)
  others : ∀ i, i ≠ b → ∀ thread, state.threads[i]? = some thread →
    thread.ended = true ∨ ∃ id, thread = .reader id .loop

/-- The writer's signal is lost. -/
theorem exists_trapped (hreaders : 2 ≤ readers) (hbound : (m + 1) * iters < 2 ^ 31) :
    ∃ state, Reached (m + 1) readers state ∧ Trapped (m + 1) (m + 2) state := by
  obtain ⟨state, hreached, hlast, hfirst, hsecond, hpositive, hvalue, hothers⟩ :=
    exists_crossing hreaders hbound
  have henough : state.shared.value.slt (BitVec.ofNat 32 ((m + 1) * iters)) = false := by
    rw [hvalue]
    simp [BitVec.slt]
  obtain ⟨state₁, hreached₁, hshared₁, hself₁, hother₁⟩ :=
    hreached.solo hlast (solo_leave hpositive rfl)
  obtain ⟨state₂, hreached₂, hshared₂, hself₂, hother₂⟩ :=
    hreached₁.solo ((hother₁ (m + 1) (by omega)).trans hfirst)
      (solo_reset (by rw [hshared₁]; exact henough))
  refine ⟨state₂, hreached₂, ?_⟩
  exact
    { canRead := by rw [hshared₂]
      value := by
        rw [hshared₂, hshared₁]
        exact henough
      waiting := ⟨1, ((hother₂ (m + 2) (by omega)).trans (hother₁ (m + 2) (by omega))).trans
        hsecond⟩
      others := by
        intro i hi thread hthread
        by_cases hm : i = m
        · rw [hm, hother₂ m (by omega), hself₁, Option.some.injEq] at hthread
          subst hthread
          exact Or.inl rfl
        · by_cases hm1 : i = m + 1
          · rw [hm1, hself₂, Option.some.injEq] at hthread
            subst hthread
            exact Or.inl rfl
          · rw [hother₂ i hm1, hother₁ i hm] at hthread
            exact hothers i hm hm1 hi thread hthread }

/-! ## When the program can get stuck -/

theorem Trapped.step_cases {b : Nat} (htrapped : Trapped writers b state)
    (hstep : step (advance writers) state i = some state') :
    ∃ id, state.threads[i]? = some (.reader id .loop) ∧ i ≠ b ∧
      state' = ⟨state.shared, state.threads.set i (.reader id .returned)⟩ := by
  obtain ⟨thread, shared', thread', hi, hadvance, rfl⟩ := Interleaving.step_cases hstep
  obtain ⟨id, hwaiting⟩ := htrapped.waiting
  have hib : i ≠ b := by
    rintro rfl
    rw [hwaiting, Option.some.injEq] at hi
    subst hi
    exact absurd hadvance (by simp [advance, advanceReader, htrapped.canRead])
  cases htrapped.others i hib thread hi with
  | inl hended =>
      cases thread with
      | writer id n pc =>
          obtain rfl : pc = .returned := by simpa [Thread.ended] using hended
          exact absurd hadvance (by simp [advance, advanceWriter])
      | reader id pc =>
          obtain rfl : pc = .returned := by simpa [Thread.ended] using hended
          exact absurd hadvance (by simp [advance, advanceReader])
  | inr hloop =>
      obtain ⟨id, rfl⟩ := hloop
      simp only [advance, advanceReader, htrapped.value, Bool.false_eq_true, if_false,
        Option.some.injEq, Prod.mk.injEq] at hadvance
      obtain ⟨rfl, rfl⟩ := hadvance
      exact ⟨id, hi, hib, rfl⟩

/-- The other threads come to their ends, and the reader is left behind. -/
theorem Trapped.deadlock {b : Nat} (htrapped : Trapped writers b state) :
    ∃ more final, run (step (advance writers)) state more = some final ∧
      Deadlocked writers final := by
  apply @run_descend _ _ _ (Trapped writers b) (Deadlocked writers) weight _ _ htrapped
  intro state htrapped hnot
  have hunfinished : ¬ Finished state := by
    intro hfinished
    obtain ⟨id, hwaiting⟩ := htrapped.waiting
    exact absurd (hfinished _ (List.mem_of_getElem? hwaiting)) (by simp [Thread.ended])
  obtain ⟨i, next, hnext⟩ : ∃ i next, step (advance writers) state i = some next := by
    by_contra hnone
    push Not at hnone
    exact hnot ⟨fun i => Option.eq_none_iff_forall_ne_some.mpr (hnone i), hunfinished⟩
  obtain ⟨id, hi, hib, rfl⟩ := htrapped.step_cases hnext
  refine ⟨i, _, hnext, ?_, weight_step hi (by simp [Thread.weight, ReaderPc.rank])⟩
  exact
    { canRead := htrapped.canRead
      value := htrapped.value
      waiting := by
        obtain ⟨id, hwaiting⟩ := htrapped.waiting
        exact ⟨id, (set_other hib).trans hwaiting⟩
      others := by
        intro j hj thread hthread
        rcases set_cases hthread with ⟨-, rfl⟩ | ⟨-, hold⟩
        · exact Or.inl rfl
        · exact htrapped.others j hj thread hold }

/-- The program can come to a deadlock exactly when it has a writer and two
readers.  With fewer threads every run can be finished. -/
theorem deadlocks_iff (hbound : writers * iters < 2 ^ 31) :
    ((∃ state, Reached writers readers state ∧ Deadlocked writers state) ↔
      1 ≤ writers ∧ 2 ≤ readers) ∧
    ((∀ state, Reached writers readers state →
        ∃ more final, run (step (advance writers)) state more = some final ∧
          Finished final) ↔ writers = 0 ∨ readers ≤ 1) := by
  have hstuck : 1 ≤ writers → 2 ≤ readers →
      ∃ state, Reached writers readers state ∧ Deadlocked writers state := by
    intro hwriters hreaders
    obtain ⟨m, rfl⟩ : ∃ m, writers = m + 1 := ⟨writers - 1, by omega⟩
    obtain ⟨state, ⟨events, hrun⟩, htrapped⟩ := exists_trapped hreaders hbound
    obtain ⟨more, final, hmore, hdeadlocked⟩ := htrapped.deadlock
    exact ⟨final, ⟨events ++ more, run_append.mpr ⟨state, hrun, hmore⟩⟩, hdeadlocked⟩
  have hends : (∃ state, Reached writers readers state ∧ Deadlocked writers state) →
      ¬ ∀ state, Reached writers readers state →
        ∃ more final, run (step (advance writers)) state more = some final ∧
          Finished final := by
    rintro ⟨state, hreached, hblocked, hunfinished⟩ hall
    obtain ⟨more, final, hrun, hfinished⟩ := hall state hreached
    cases more with
    | nil =>
        rw [run_nil, Option.some.injEq] at hrun
        exact hunfinished (hrun ▸ hfinished)
    | cons i more =>
        obtain ⟨next, hnext, -⟩ := run_cons.mp hrun
        exact absurd hnext (by rw [hblocked i]; simp)
  have hfew : writers = 0 ∨ readers ≤ 1 → ∀ state, Reached writers readers state →
      ∃ more final, run (step (advance writers)) state more = some final ∧
        Finished final := by
    rintro hfew state ⟨events, hrun⟩
    exact exists_finish hfew hrun
  constructor
  · constructor
    · intro hdeadlock
      by_contra hcount
      exact hends hdeadlock (hfew (by omega))
    · rintro ⟨hwriters, hreaders⟩
      exact hstuck hwriters hreaders
  · constructor
    · intro hall
      by_contra hcount
      exact hends (hstuck (by omega) (by omega)) hall
    · exact hfew

/-- The four writers and five readers of the program. -/
theorem deadlocks_iff_main : ∃ state, Reached 4 5 state ∧ Deadlocked 4 state :=
  (deadlocks_iff (by decide)).1.mpr ⟨by decide, by decide⟩

end WinReadersWriters
end MutualExclusion
end OsStuff
