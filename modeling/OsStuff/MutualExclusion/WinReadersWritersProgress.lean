import OsStuff.MutualExclusion.WinReadersWritersExclusion

/-!
# `win_reades_writers.c` with one reader

A writer never waits, so that only a reader can be stuck: one that waits for
`canRead`.  It has found a writer at work or about to be, and that writer owes
it a signal: it finds `waitingReaders` positive when it leaves and signals
`canRead`.  As long as there is no other reader nobody takes the signal away.
-/

namespace OsStuff
namespace MutualExclusion
namespace WinReadersWriters

open Library Library.Interleaving Library.Processes

/-! ## States of the threads -/

/-- The thread has returned. -/
def Thread.ended : Thread → Bool
  | .writer _ _ pc => pc = .returned
  | .reader _ pc => pc = .returned

/-- Every thread has returned. -/
def Finished (state : State) : Prop :=
  ∀ thread ∈ state.threads, thread.ended = true

/-- The writer is counted in `waitingWriters`. -/
def Thread.announced : Thread → Bool
  | .writer _ _ .test => true
  | .writer _ _ .wait => true
  | .writer _ _ .decrementWaiting => true
  | _ => false

/-- The writer has announced itself and has not yet signalled an event: a reader
that found it at work can count on it. -/
def Thread.owes : Thread → Bool
  | .writer _ _ .setWorking => true
  | .writer _ _ .incrementValue => true
  | .writer _ _ .print => true
  | .writer _ _ .clearWorking => true
  | .writer _ _ .testWaiting => true
  | .writer _ _ .signalRead => true
  | thread => thread.announced

/-- The reader is counted in `waitingReaders`. -/
def Thread.queued : Thread → Bool
  | .reader _ .test => true
  | .reader _ .wait => true
  | .reader _ .decrementWaiting => true
  | _ => false

/-- The reader owns the mutex. -/
def Thread.owns : Thread → Bool
  | .reader _ .incrementWaiting => true
  | .reader _ .incrementActive => true
  | .reader _ .signal => true
  | .reader _ .unlock => true
  | thread => thread.queued

/-- The increments of `value` that a thread has made. -/
def Thread.writes : Thread → Nat
  | .writer _ i .print => i + 1
  | .writer _ i .clearWorking => i + 1
  | .writer _ i .testWaiting => i + 1
  | .writer _ i .signalRead => i + 1
  | .writer _ i .signalWrite => i + 1
  | .writer _ i .sleep => i + 1
  | .writer _ i _ => i
  | .reader _ _ => 0

/-- A writer is inside its loop while its counter is below the bound, and leaves
it at the bound. -/
def Thread.Placed : Thread → Prop
  | .writer _ i .loop => i ≤ iters
  | .writer _ i .returned => i = iters
  | .writer _ i _ => i < iters
  | .reader _ _ => True

def WriterPc.rank : WriterPc → Nat
  | .loop => 15
  | .incrementWaiting => 14
  | .test => 13
  | .wait => 12
  | .decrementWaiting => 11
  | .setWorking => 10
  | .incrementValue => 9
  | .print => 8
  | .clearWorking => 7
  | .testWaiting => 6
  | .signalRead => 5
  | .signalWrite => 5
  | .sleep => 4
  | .returned => 0

/-- Steps to the end for a reader that does not enter the loop again. -/
def ReaderPc.rank : ReaderPc → Nat
  | .lock => 15
  | .incrementWaiting => 14
  | .test => 13
  | .wait => 12
  | .decrementWaiting => 11
  | .incrementActive => 10
  | .signal => 9
  | .unlock => 8
  | .print => 7
  | .decrementActive => 6
  | .testActive => 5
  | .signalWrite => 4
  | .resetRead => 3
  | .sleep => 2
  | .loop => 1
  | .returned => 0

def Thread.weight : Thread → Nat
  | .writer _ i pc => (iters - i) * 16 + pc.rank
  | .reader _ pc => pc.rank

/-- What the steps of the threads keep, where at most one of them is a
reader. -/
structure Inv (writers : Nat) (state : State) : Prop where
  canWrite : state.shared.canWrite = true
  alone : state.threads.countP (fun thread => thread.role = Role.reader) ≤ 1
  count : state.threads.countP (fun thread => thread.role = Role.writer) = writers
  placed : ∀ thread ∈ state.threads, thread.Placed
  value : state.shared.value =
    BitVec.ofNat 32 (state.threads.map Thread.writes).sum
  waitingWriters : state.shared.waitingWriters =
    BitVec.ofNat 32 (state.threads.countP Thread.announced)
  waitingReaders : state.shared.waitingReaders =
    BitVec.ofNat 32 (state.threads.countP Thread.queued)
  working : state.shared.workingWriter = true →
    ∃ (i : Nat) (thread : Thread), state.threads[i]? = some thread ∧
      thread.inside .writer = true
  mutex : ∀ i, state.shared.mutex = some i →
    ∃ thread, state.threads[i]? = some thread ∧ thread.owns = true
  signal : ∀ (i id : Nat), state.threads[i]? = some (Thread.reader id .wait) →
    state.shared.canRead = true ∨
      ∃ (j : Nat) (thread : Thread), state.threads[j]? = some thread ∧
        thread.owes = true

variable {writers readers : Nat} {state state' : State}
  {shared shared' : Shared} {thread thread' : Thread} {i j id n : Nat}

/-! ## What a writer's step does -/

/-- A count of 32 bits moves with one thread. -/
def Moves (count count' : BitVec 32) (before after : Bool) : Prop :=
  (after = before ∧ count' = count) ∨
    (before = false ∧ after = true ∧ count' = count + 1) ∨
    (before = true ∧ after = false ∧ count' = count - 1)

theorem Moves.keep {count count' : BitVec 32} {p : Thread → Bool}
    (hmoves : Moves count count' (p thread) (p thread'))
    (hcount : count = BitVec.ofNat 32 (state.threads.countP p))
    (hi : state.threads[i]? = some thread) :
    count' = BitVec.ofNat 32 ((state.threads.set i thread').countP p) := by
  rcases hmoves with ⟨hsame, rfl⟩ | ⟨hbefore, hafter, rfl⟩ | ⟨hbefore, hafter, rfl⟩
  · rw [countP_set_same hi hsame, hcount]
  · rw [countP_set_enter hi hbefore hafter, hcount, BitVec.ofNat_add]
    rfl
  · have hleave := countP_set_leave hi hbefore hafter
    rw [hcount, ← hleave, BitVec.ofNat_add]
    exact BitVec.add_sub_cancel _ _

/-- What a step of a writer can do. -/
structure WriterStep (shared shared' : Shared) (thread thread' : Thread) : Prop where
  mutex : shared'.mutex = shared.mutex
  canRead : shared.canRead = true → shared'.canRead = true
  waitingReaders : shared'.waitingReaders = shared.waitingReaders
  placed : thread'.Placed
  value : ∃ d, thread'.writes = thread.writes + d ∧
    shared'.value = shared.value + BitVec.ofNat 32 d
  waitingWriters : Moves shared.waitingWriters shared'.waitingWriters
    thread.announced thread'.announced
  working : shared'.workingWriter = true → thread'.inside .writer = true ∨
    (shared.workingWriter = true ∧ thread.inside .writer = false)
  owes : positive shared.waitingReaders = true → thread.owes = true →
    shared'.canRead = true ∨ thread'.owes = true
  weight : thread'.weight < thread.weight

/-- A step that leaves the shared part as it is. -/
theorem WriterStep.same (hplaced : thread'.Placed)
    (hwrites : thread'.writes = thread.writes)
    (hannounced : thread'.announced = thread.announced)
    (hinside : thread.inside .writer = false)
    (howes : positive shared.waitingReaders = true → thread.owes = true →
      thread'.owes = true)
    (hweight : thread'.weight < thread.weight) :
    WriterStep shared shared thread thread' where
  mutex := rfl
  canRead := id
  waitingReaders := rfl
  placed := hplaced
  value := ⟨0, hwrites, (BitVec.add_zero _).symm⟩
  waitingWriters := Or.inl ⟨hannounced, rfl⟩
  working := fun hworking => Or.inr ⟨hworking, hinside⟩
  owes := fun hpositive hthread => Or.inr (howes hpositive hthread)
  weight := hweight

theorem advanceWriter_spec {pc : WriterPc} (hplaced : (Thread.writer id n pc).Placed)
    (hadvance : advanceWriter shared id n pc = some (shared', thread')) :
    WriterStep shared shared' (.writer id n pc) thread' := by
  cases pc with
  | loop =>
      simp only [advanceWriter] at hadvance
      split at hadvance
      case isTrue hlt =>
        simp only [Option.some.injEq, Prod.mk.injEq] at hadvance
        obtain ⟨rfl, rfl⟩ := hadvance
        exact .same hlt rfl rfl rfl (by simp [Thread.owes, Thread.announced])
          (by simp [Thread.weight, WriterPc.rank])
      case isFalse hge =>
        simp only [Option.some.injEq, Prod.mk.injEq] at hadvance
        obtain ⟨rfl, rfl⟩ := hadvance
        exact .same (le_antisymm hplaced (not_lt.mp hge)) rfl rfl rfl
          (by simp [Thread.owes, Thread.announced])
          (by simp [Thread.weight, WriterPc.rank])
  | test =>
      simp only [advanceWriter] at hadvance
      split at hadvance
      all_goals
        simp only [Option.some.injEq, Prod.mk.injEq] at hadvance
        obtain ⟨rfl, rfl⟩ := hadvance
        exact .same hplaced rfl rfl rfl (fun _ _ => rfl)
          (by simp [Thread.weight, WriterPc.rank])
  | wait =>
      simp only [advanceWriter] at hadvance
      split at hadvance
      · simp only [Option.some.injEq, Prod.mk.injEq] at hadvance
        obtain ⟨rfl, rfl⟩ := hadvance
        exact .same hplaced rfl rfl rfl (fun _ _ => rfl)
          (by simp [Thread.weight, WriterPc.rank])
      · exact absurd hadvance (by simp)
  | testWaiting =>
      simp only [advanceWriter] at hadvance
      split at hadvance
      case isTrue =>
        simp only [Option.some.injEq, Prod.mk.injEq] at hadvance
        obtain ⟨rfl, rfl⟩ := hadvance
        exact .same hplaced rfl rfl rfl (fun _ _ => rfl)
          (by simp [Thread.weight, WriterPc.rank])
      case isFalse hnone =>
        -- A reader waits for the signal, so `canRead` is signalled.
        simp only [Option.some.injEq, Prod.mk.injEq] at hadvance
        obtain ⟨rfl, rfl⟩ := hadvance
        exact .same hplaced rfl rfl rfl (fun hpositive => absurd hpositive hnone)
          (by simp [Thread.weight, WriterPc.rank])
  | sleep =>
      simp only [advanceWriter, Option.some.injEq, Prod.mk.injEq] at hadvance
      obtain ⟨rfl, rfl⟩ := hadvance
      have hlt : n < iters := hplaced
      exact .same hlt rfl rfl rfl (by simp [Thread.owes, Thread.announced])
        (by simp only [Thread.weight, WriterPc.rank]; omega)
  | incrementWaiting =>
      simp only [advanceWriter, Option.some.injEq, Prod.mk.injEq] at hadvance
      obtain ⟨rfl, rfl⟩ := hadvance
      exact
        { mutex := rfl
          canRead := fun hcan => hcan
          waitingReaders := rfl
          placed := hplaced
          value := ⟨0, rfl, (BitVec.add_zero _).symm⟩
          waitingWriters := Or.inr (Or.inl ⟨rfl, rfl, rfl⟩)
          working := fun hworking => Or.inr ⟨hworking, rfl⟩
          owes := fun _ _ => Or.inr rfl
          weight := by simp [Thread.weight, WriterPc.rank] }
  | decrementWaiting =>
      simp only [advanceWriter, Option.some.injEq, Prod.mk.injEq] at hadvance
      obtain ⟨rfl, rfl⟩ := hadvance
      exact
        { mutex := rfl
          canRead := fun hcan => hcan
          waitingReaders := rfl
          placed := hplaced
          value := ⟨0, rfl, (BitVec.add_zero _).symm⟩
          waitingWriters := Or.inr (Or.inr ⟨rfl, rfl, rfl⟩)
          working := fun hworking => Or.inr ⟨hworking, rfl⟩
          owes := fun _ _ => Or.inr rfl
          weight := by simp [Thread.weight, WriterPc.rank] }
  | setWorking | print | clearWorking | signalWrite | signalRead =>
      simp only [advanceWriter, Option.some.injEq, Prod.mk.injEq] at hadvance
      obtain ⟨rfl, rfl⟩ := hadvance
      exact
        { mutex := rfl
          canRead := fun hcan => by simp [hcan]
          waitingReaders := rfl
          placed := hplaced
          value := ⟨0, rfl, (BitVec.add_zero _).symm⟩
          waitingWriters := Or.inl ⟨rfl, rfl⟩
          working := fun hworking => by
            simp_all [Thread.inside, WriterPc.within]
          owes := fun _ howes => by
            simp_all [Thread.owes, Thread.announced]
          weight := by simp [Thread.weight, WriterPc.rank] }
  | incrementValue =>
      simp only [advanceWriter, Option.some.injEq, Prod.mk.injEq] at hadvance
      obtain ⟨rfl, rfl⟩ := hadvance
      exact
        { mutex := rfl
          canRead := fun hcan => hcan
          waitingReaders := rfl
          placed := hplaced
          value := ⟨1, rfl, rfl⟩
          waitingWriters := Or.inl ⟨rfl, rfl⟩
          working := fun _ => Or.inl rfl
          owes := fun _ _ => Or.inr rfl
          weight := by simp [Thread.weight, WriterPc.rank] }
  | returned => exact absurd hadvance (by simp [advanceWriter])

/-! ## What a reader's step does -/

/-- What a step of a reader, thread `i`, can do. -/
structure ReaderStep (writers i : Nat) (shared shared' : Shared)
    (thread thread' : Thread) : Prop where
  waitingWriters : shared'.waitingWriters = shared.waitingWriters
  workingWriter : shared'.workingWriter = shared.workingWriter
  value : shared'.value = shared.value
  waitingReaders : Moves shared.waitingReaders shared'.waitingReaders
    thread.queued thread'.queued
  mutex : (shared.mutex = some i → thread.owns = true) →
    ∀ k, shared'.mutex = some k →
      (k = i ∧ thread'.owns = true) ∨ (k ≠ i ∧ shared.mutex = some k)
  wait : ∀ id, thread' = .reader id .wait →
    shared.workingWriter = true ∨ positive shared.waitingWriters = true
  weight : shared.value.slt (BitVec.ofNat 32 (writers * iters)) = false →
    thread'.weight < thread.weight

/-- A reader that owns the mutex before its step and after it, or neither. -/
theorem owner_keeps (howner : shared.mutex = some i → thread.owns = true)
    (howns : thread'.owns = thread.owns) :
    ∀ k, shared.mutex = some k →
      (k = i ∧ thread'.owns = true) ∨ (k ≠ i ∧ shared.mutex = some k) := by
  intro k hk
  by_cases hki : k = i
  · subst hki
    exact Or.inl ⟨rfl, howns.trans (howner hk)⟩
  · exact Or.inr ⟨hki, hk⟩

/-- A step that leaves the mutex and what the writers write as they are. -/
theorem ReaderStep.move (hmutex : shared'.mutex = shared.mutex)
    (hwaiting : shared'.waitingWriters = shared.waitingWriters)
    (hworking : shared'.workingWriter = shared.workingWriter)
    (hvalue : shared'.value = shared.value)
    (hqueued : Moves shared.waitingReaders shared'.waitingReaders
      thread.queued thread'.queued)
    (howns : thread'.owns = thread.owns)
    (hwait : ∀ id, thread' ≠ .reader id .wait)
    (hweight : thread'.weight < thread.weight) :
    ReaderStep writers i shared shared' thread thread' where
  waitingWriters := hwaiting
  workingWriter := hworking
  value := hvalue
  waitingReaders := hqueued
  mutex := fun howner k hk => owner_keeps howner howns k (hmutex ▸ hk)
  wait := fun id hthread => absurd hthread (hwait id)
  weight := fun _ => hweight

theorem advanceReader_spec {pc : ReaderPc}
    (hadvance : advanceReader writers i shared id pc = some (shared', thread')) :
    ReaderStep writers i shared shared' (.reader id pc) thread' := by
  cases pc with
  | loop =>
      simp only [advanceReader] at hadvance
      split at hadvance
      case isTrue hlt =>
        simp only [Option.some.injEq, Prod.mk.injEq] at hadvance
        obtain ⟨rfl, rfl⟩ := hadvance
        exact
          { waitingWriters := rfl
            workingWriter := rfl
            value := rfl
            waitingReaders := Or.inl ⟨rfl, rfl⟩
            mutex := fun howner => owner_keeps howner rfl
            wait := by simp
            weight := fun hge => by simp [hlt] at hge }
      case isFalse hge =>
        simp only [Option.some.injEq, Prod.mk.injEq] at hadvance
        obtain ⟨rfl, rfl⟩ := hadvance
        exact .move rfl rfl rfl rfl (Or.inl ⟨rfl, rfl⟩) rfl (by simp)
          (by simp [Thread.weight, ReaderPc.rank])
  | lock =>
      simp only [advanceReader] at hadvance
      split at hadvance
      case h_1 =>
        simp only [Option.some.injEq, Prod.mk.injEq] at hadvance
        obtain ⟨rfl, rfl⟩ := hadvance
        exact
          { waitingWriters := rfl
            workingWriter := rfl
            value := rfl
            waitingReaders := Or.inl ⟨rfl, rfl⟩
            mutex := fun _ k hk => Or.inl ⟨(Option.some.inj hk).symm, rfl⟩
            wait := by simp
            weight := by simp [Thread.weight, ReaderPc.rank] }
      case h_2 => exact absurd hadvance (by simp)
  | incrementWaiting =>
      simp only [advanceReader, Option.some.injEq, Prod.mk.injEq] at hadvance
      obtain ⟨rfl, rfl⟩ := hadvance
      exact .move rfl rfl rfl rfl (Or.inr (Or.inl ⟨rfl, rfl, rfl⟩)) rfl (by simp)
        (by simp [Thread.weight, ReaderPc.rank])
  | decrementWaiting =>
      simp only [advanceReader, Option.some.injEq, Prod.mk.injEq] at hadvance
      obtain ⟨rfl, rfl⟩ := hadvance
      exact .move rfl rfl rfl rfl (Or.inr (Or.inr ⟨rfl, rfl, rfl⟩)) rfl (by simp)
        (by simp [Thread.weight, ReaderPc.rank])
  | test =>
      simp only [advanceReader] at hadvance
      split at hadvance
      case isTrue htest =>
        simp only [Option.some.injEq, Prod.mk.injEq] at hadvance
        obtain ⟨rfl, rfl⟩ := hadvance
        exact
          { waitingWriters := rfl
            workingWriter := rfl
            value := rfl
            waitingReaders := Or.inl ⟨rfl, rfl⟩
            mutex := fun howner => owner_keeps howner rfl
            wait := fun _ _ => by simpa using htest
            weight := by simp [Thread.weight, ReaderPc.rank] }
      case isFalse =>
        simp only [Option.some.injEq, Prod.mk.injEq] at hadvance
        obtain ⟨rfl, rfl⟩ := hadvance
        exact .move rfl rfl rfl rfl (Or.inl ⟨rfl, rfl⟩) rfl (by simp)
          (by simp [Thread.weight, ReaderPc.rank])
  | wait =>
      simp only [advanceReader] at hadvance
      split at hadvance
      · simp only [Option.some.injEq, Prod.mk.injEq] at hadvance
        obtain ⟨rfl, rfl⟩ := hadvance
        exact .move rfl rfl rfl rfl (Or.inl ⟨rfl, rfl⟩) rfl (by simp)
          (by simp [Thread.weight, ReaderPc.rank])
      · exact absurd hadvance (by simp)
  | unlock =>
      simp only [advanceReader] at hadvance
      split at hadvance
      case isTrue =>
        simp only [Option.some.injEq, Prod.mk.injEq] at hadvance
        obtain ⟨rfl, rfl⟩ := hadvance
        exact
          { waitingWriters := rfl
            workingWriter := rfl
            value := rfl
            waitingReaders := Or.inl ⟨rfl, rfl⟩
            mutex := by simp
            wait := by simp
            weight := by simp [Thread.weight, ReaderPc.rank] }
      case isFalse hother =>
        simp only [Option.some.injEq, Prod.mk.injEq] at hadvance
        obtain ⟨rfl, rfl⟩ := hadvance
        exact
          { waitingWriters := rfl
            workingWriter := rfl
            value := rfl
            waitingReaders := Or.inl ⟨rfl, rfl⟩
            mutex := fun _ k hk => Or.inr ⟨fun hki => hother (hki ▸ hk), hk⟩
            wait := by simp
            weight := by simp [Thread.weight, ReaderPc.rank] }
  | testActive =>
      simp only [advanceReader] at hadvance
      split at hadvance
      all_goals
        simp only [Option.some.injEq, Prod.mk.injEq] at hadvance
        obtain ⟨rfl, rfl⟩ := hadvance
        exact .move rfl rfl rfl rfl (Or.inl ⟨rfl, rfl⟩) rfl (by simp)
          (by simp [Thread.weight, ReaderPc.rank])
  | incrementActive | signal | print | decrementActive | signalWrite | resetRead
  | sleep =>
      simp only [advanceReader, Option.some.injEq, Prod.mk.injEq] at hadvance
      obtain ⟨rfl, rfl⟩ := hadvance
      exact .move rfl rfl rfl rfl (Or.inl ⟨rfl, rfl⟩) rfl (by simp)
        (by simp [Thread.weight, ReaderPc.rank])
  | returned => exact absurd hadvance (by simp [advanceReader])

/-! ## One reader at most -/

theorem positive_zero : positive 0 = false := by decide

theorem positive_one : positive (BitVec.ofNat 32 1) = true := by decide

/-- `x > 0` of a count says that it counts something. -/
theorem pos_of_positive {c : Nat} (hpositive : positive (BitVec.ofNat 32 c) = true) :
    0 < c := by
  by_contra hzero
  obtain rfl : c = 0 := by omega
  exact absurd hpositive (by decide)

theorem role_of_announced (hthread : thread.announced = true) :
    thread.role = .writer := by
  cases thread with
  | writer id n pc => rfl
  | reader id pc => exact absurd hthread (by simp [Thread.announced])

theorem role_of_owes (hthread : thread.owes = true) : thread.role = .writer := by
  cases thread with
  | writer id n pc => rfl
  | reader id pc => exact absurd hthread (by simp [Thread.owes, Thread.announced])

theorem role_of_queued (hthread : thread.queued = true) : thread.role = .reader := by
  cases thread with
  | writer id n pc => exact absurd hthread (by simp [Thread.queued])
  | reader id pc => rfl

theorem role_of_owns (hthread : thread.owns = true) : thread.role = .reader := by
  cases thread with
  | writer id n pc => exact absurd hthread (by simp [Thread.owns, Thread.queued])
  | reader id pc => rfl

theorem owes_of_announced (hthread : thread.announced = true) : thread.owes = true := by
  unfold Thread.owes
  split
  all_goals
    first
      | rfl
      | exact hthread

theorem owes_of_inside (hthread : thread.inside .writer = true) : thread.owes = true := by
  cases thread with
  | writer id n pc =>
      cases pc <;> simp_all [Thread.inside, WriterPc.within, Thread.owes]
  | reader id pc => exact absurd hthread (by simp [Thread.inside])

/-- Two readers are the same thread. -/
theorem Inv.reader_unique (hinv : Inv writers state)
    (hi : state.threads[i]? = some thread) (hj : state.threads[j]? = some thread')
    (hthread : thread.role = .reader) (hthread' : thread'.role = .reader) : i = j :=
  index_unique hinv.alone hi hj (by simpa using hthread) (by simpa using hthread')

/-- The reader that waits is the only one counted. -/
theorem Inv.positive_waitingReaders (hinv : Inv writers state)
    (hi : state.threads[i]? = some (.reader id .wait)) :
    positive state.shared.waitingReaders = true := by
  have hpos : 0 < state.threads.countP Thread.queued := countP_pos hi rfl
  have hle : state.threads.countP Thread.queued ≤
      state.threads.countP fun thread => thread.role = Role.reader := by
    apply List.countP_mono_left
    intro thread _ hqueued
    simpa using role_of_queued hqueued
  have hone : state.threads.countP Thread.queued = 1 := by
    have halone := hinv.alone
    omega
  rw [hinv.waitingReaders, hone]
  exact positive_one

/-- A writer that makes a reader wait owes a signal. -/
theorem Inv.exists_owes (hinv : Inv writers state)
    (htest : state.shared.workingWriter = true ∨
      positive state.shared.waitingWriters = true) :
    ∃ (j : Nat) (thread : Thread), state.threads[j]? = some thread ∧
      thread.owes = true := by
  cases htest with
  | inl hworking =>
      obtain ⟨j, thread, hj, hinside⟩ := hinv.working hworking
      exact ⟨j, thread, hj, owes_of_inside hinside⟩
  | inr hwaiting =>
      rw [hinv.waitingWriters] at hwaiting
      obtain ⟨j, thread, hj, hannounced⟩ := exists_of_countP (pos_of_positive hwaiting)
      exact ⟨j, thread, hj, owes_of_announced hannounced⟩

theorem countP_role {role : Role} (hi : state.threads[i]? = some thread)
    (hrole : thread'.role = thread.role) :
    (state.threads.set i thread').countP (fun thread => thread.role = role) =
      state.threads.countP fun thread => thread.role = role :=
  countP_set_same hi (by simp [hrole])

theorem Inv.writer_step (hinv : Inv writers state)
    (hi : state.threads[i]? = some thread) (hwriter : thread.role = .writer)
    (hrole : thread'.role = thread.role) (hcan : shared'.canWrite = true)
    (hstep : WriterStep state.shared shared' thread thread') :
    Inv writers ⟨shared', state.threads.set i thread'⟩ where
  canWrite := hcan
  alone := (countP_role hi hrole).trans_le hinv.alone
  count := (countP_role hi hrole).trans hinv.count
  placed := by
    intro other hother
    rcases List.mem_or_eq_of_mem_set hother with hold | rfl
    · exact hinv.placed other hold
    · exact hstep.placed
  value := by
    obtain ⟨d, hwrites, hvalue⟩ := hstep.value
    have hsum := @sum_map_set _ state.threads i thread thread' Thread.writes hi
    have htotal : ((state.threads.set i thread').map Thread.writes).sum =
        (state.threads.map Thread.writes).sum + d := by
      omega
    change shared'.value = _
    rw [hvalue, hinv.value, htotal, BitVec.ofNat_add]
  waitingWriters := hstep.waitingWriters.keep hinv.waitingWriters hi
  waitingReaders := by
    have hsame : thread'.queued = thread.queued := by
      cases thread with
      | writer id n pc =>
          cases thread' with
          | writer id' n' pc' => rfl
          | reader id' pc' => exact absurd hrole (by simp [Thread.role])
      | reader id pc => exact absurd hwriter (by simp [Thread.role])
    rw [countP_set_same hi hsame, ← hinv.waitingReaders]
    exact hstep.waitingReaders
  working := by
    intro hworking
    cases hstep.working hworking with
    | inl hinside => exact ⟨i, thread', set_self hi, hinside⟩
    | inr hbefore =>
        obtain ⟨j, other, hj, hinside⟩ := hinv.working hbefore.1
        have hij : i ≠ j := by
          rintro rfl
          rw [hi, Option.some.injEq] at hj
          subst hj
          exact Bool.noConfusion (hinside.symm.trans hbefore.2)
        exact ⟨j, other, (set_other hij).trans hj, hinside⟩
  mutex := by
    intro k hk
    obtain ⟨owner, howner, howns⟩ := hinv.mutex k (hstep.mutex ▸ hk)
    have hik : i ≠ k := by
      rintro rfl
      rw [hi, Option.some.injEq] at howner
      subst howner
      exact Role.noConfusion (hwriter.symm.trans (role_of_owns howns))
    exact ⟨owner, (set_other hik).trans howner, howns⟩
  signal := by
    intro k id hk
    rcases set_cases hk with ⟨-, hreader⟩ | ⟨-, hk⟩
    · rw [← hreader, hwriter] at hrole
      exact absurd hrole (by simp [Thread.role])
    · have hpositive := hinv.positive_waitingReaders hk
      cases hinv.signal k id hk with
      | inl hsignalled => exact Or.inl (hstep.canRead hsignalled)
      | inr howing =>
          obtain ⟨j, other, hj, howes⟩ := howing
          by_cases hij : i = j
          · subst hij
            rw [hi, Option.some.injEq] at hj
            subst hj
            cases hstep.owes hpositive howes with
            | inl hsignalled => exact Or.inl hsignalled
            | inr howes => exact Or.inr ⟨i, thread', set_self hi, howes⟩
          · exact Or.inr ⟨j, other, (set_other hij).trans hj, howes⟩

theorem Inv.reader_step (hinv : Inv writers state)
    (hi : state.threads[i]? = some thread) (hreader : thread.role = .reader)
    (hrole : thread'.role = thread.role) (hcan : shared'.canWrite = true)
    (hstep : ReaderStep writers i state.shared shared' thread thread') :
    Inv writers ⟨shared', state.threads.set i thread'⟩ := by
  have hreader' : thread'.role = .reader := hrole.trans hreader
  have hnot : ∀ (p : Thread → Bool), (∀ other, p other = true → other.role = .writer) →
      ∀ other : Thread, other.role = .reader → p other = false := by
    intro p hp other hother
    cases hpo : p other with
    | false => rfl
    | true => exact Role.noConfusion ((hp other hpo).symm.trans hother)
  exact
    { canWrite := hcan
      alone := (countP_role hi hrole).trans_le hinv.alone
      count := (countP_role hi hrole).trans hinv.count
      placed := by
        intro other hother
        rcases List.mem_or_eq_of_mem_set hother with hold | rfl
        · exact hinv.placed other hold
        · cases other with
          | writer id n pc => exact absurd hreader' (by simp [Thread.role])
          | reader id pc => trivial
      value := by
        have hzero : ∀ other : Thread, other.role = .reader → other.writes = 0 := by
          intro other hother
          cases other with
          | writer id n pc => exact absurd hother (by simp [Thread.role])
          | reader id pc => rfl
        have hsum := @sum_map_set _ state.threads i thread thread' Thread.writes hi
        rw [hzero thread hreader, hzero thread' hreader'] at hsum
        change shared'.value = _
        rw [hstep.value, hinv.value]
        exact congrArg _ hsum.symm
      waitingWriters := by
        change shared'.waitingWriters = _
        rw [countP_set_same hi ((hnot _ (fun _ => role_of_announced) thread' hreader').trans
          (hnot _ (fun _ => role_of_announced) thread hreader).symm), hstep.waitingWriters]
        exact hinv.waitingWriters
      waitingReaders := hstep.waitingReaders.keep hinv.waitingReaders hi
      working := by
        intro hworking
        obtain ⟨j, other, hj, hinside⟩ :=
          hinv.working (hstep.workingWriter.symm.trans hworking)
        have hij : i ≠ j := by
          rintro rfl
          rw [hi, Option.some.injEq] at hj
          subst hj
          exact Role.noConfusion ((role_of_inside hinside).symm.trans hreader)
        exact ⟨j, other, (set_other hij).trans hj, hinside⟩
      mutex := by
        intro k hk
        have howner : state.shared.mutex = some i → thread.owns = true := by
          intro hmine
          obtain ⟨owner, howner, howns⟩ := hinv.mutex i hmine
          rw [hi, Option.some.injEq] at howner
          exact howner ▸ howns
        rcases hstep.mutex howner k hk with ⟨rfl, howns⟩ | ⟨hki, hk⟩
        · exact ⟨thread', set_self hi, howns⟩
        · obtain ⟨owner, howner, howns⟩ := hinv.mutex k hk
          exact ⟨owner, (set_other hki.symm).trans howner, howns⟩
      signal := by
        intro k id hk
        rcases set_cases hk with ⟨-, hwait⟩ | ⟨hki, hk⟩
        · -- It has just found a writer at work.
          obtain ⟨j, other, hj, howes⟩ := hinv.exists_owes (hstep.wait id hwait.symm)
          have hij : i ≠ j := by
            rintro rfl
            rw [hi, Option.some.injEq] at hj
            subst hj
            exact Role.noConfusion ((role_of_owes howes).symm.trans hreader)
          exact Or.inr ⟨j, other, (set_other hij).trans hj, howes⟩
        · exact absurd (hinv.reader_unique hk hi rfl hreader) hki }

theorem Inv.step (hinv : Inv writers state)
    (hstep : Interleaving.step (advance writers) state i = some state') :
    Inv writers state' := by
  obtain ⟨thread, shared', thread', hi, hadvance, rfl⟩ := step_cases hstep
  have hrole := advance_role hadvance
  have hcan := advance_canWrite hadvance hinv.canWrite
  cases thread with
  | writer id n pc =>
      exact hinv.writer_step hi rfl hrole hcan
        (advanceWriter_spec (hinv.placed _ (List.mem_of_getElem? hi)) hadvance)
  | reader id pc => exact hinv.reader_step hi rfl hrole hcan (advanceReader_spec hadvance)

theorem initial_cases {thread : Thread}
    (hmem : thread ∈ (State.initial writers readers).threads) :
    (∃ id, thread = .writer id 0 .loop) ∨ ∃ id, thread = .reader id .loop := by
  rcases List.mem_append.mp hmem with hwriter | hreader
  · obtain ⟨id, -, rfl⟩ := List.mem_map.mp hwriter
    exact Or.inl ⟨id, rfl⟩
  · obtain ⟨id, -, rfl⟩ := List.mem_map.mp hreader
    exact Or.inr ⟨id, rfl⟩

theorem countP_initial {p : Thread → Bool} (hwriter : ∀ id, p (.writer id 0 .loop) = false)
    (hreader : ∀ id, p (.reader id .loop) = false) :
    (State.initial writers readers).threads.countP p = 0 := by
  rw [List.countP_eq_zero]
  intro thread hmem
  rcases initial_cases hmem with ⟨id, rfl⟩ | ⟨id, rfl⟩
  · simp [hwriter]
  · simp [hreader]

theorem countP_role_initial (role : Role) :
    (State.initial writers readers).threads.countP (fun thread => thread.role = role) =
      (List.replicate writers Role.writer ++
        List.replicate readers Role.reader).count role := by
  rw [← roles_initial, List.count, List.countP_map]
  congr 1

theorem inv_initial (hreaders : readers ≤ 1) :
    Inv writers (State.initial writers readers) where
  canWrite := rfl
  alone := by
    rw [countP_role_initial]
    simpa [List.count_append, List.count_replicate] using hreaders
  count := by
    rw [countP_role_initial]
    simp [List.count_append, List.count_replicate]
  placed := by
    intro thread hmem
    rcases initial_cases hmem with ⟨id, rfl⟩ | ⟨id, rfl⟩
    · exact Nat.zero_le _
    · trivial
  value := by
    have hzero : ((State.initial writers readers).threads.map Thread.writes).sum = 0 := by
      rw [List.sum_eq_zero_iff]
      intro d hd
      obtain ⟨thread, hmem, rfl⟩ := List.mem_map.mp hd
      rcases initial_cases hmem with ⟨id, rfl⟩ | ⟨id, rfl⟩
      · rfl
      · rfl
    rw [hzero]
    rfl
  waitingWriters := by
    rw [countP_initial (fun _ => rfl) fun _ => rfl]
    rfl
  waitingReaders := by
    rw [countP_initial (fun _ => rfl) fun _ => rfl]
    rfl
  working := by simp [State.initial, Shared.initial]
  mutex := by simp [State.initial, Shared.initial]
  signal := by
    intro i id hi
    rcases initial_cases (List.mem_of_getElem? hi) with ⟨id, hthread⟩ | ⟨id, hthread⟩
    · exact absurd hthread (by simp)
    · exact absurd hthread (by simp)

/-! ## Coming to an end -/

theorem exists_advanceWriter {pc : WriterPc} (hcan : shared.canWrite = true)
    (hpc : pc ≠ .returned) :
    ∃ shared' thread', advanceWriter shared id n pc = some (shared', thread') := by
  cases pc with
  | loop | test | testWaiting =>
      simp only [advanceWriter]
      split
      all_goals exact ⟨_, _, rfl⟩
  | wait =>
      simp only [advanceWriter, hcan, if_true]
      exact ⟨_, _, rfl⟩
  | incrementWaiting | decrementWaiting | setWorking | incrementValue | print
  | clearWorking | signalRead | signalWrite | sleep => exact ⟨_, _, rfl⟩
  | returned => exact absurd rfl hpc

theorem exists_advanceReader {pc : ReaderPc}
    (hlock : pc = .lock → shared.mutex = none)
    (hwait : pc = .wait → shared.canRead = true) (hpc : pc ≠ .returned) :
    ∃ shared' thread', advanceReader writers i shared id pc =
      some (shared', thread') := by
  cases pc with
  | loop | test | unlock | testActive =>
      simp only [advanceReader]
      split
      all_goals exact ⟨_, _, rfl⟩
  | lock =>
      simp only [advanceReader, hlock rfl]
      exact ⟨_, _, rfl⟩
  | wait =>
      simp only [advanceReader, hwait rfl, if_true]
      exact ⟨_, _, rfl⟩
  | incrementWaiting | decrementWaiting | incrementActive | signal | print
  | decrementActive | signalWrite | resetRead | sleep => exact ⟨_, _, rfl⟩
  | returned => exact absurd rfl hpc

def weight (state : State) : Nat :=
  (state.threads.map Thread.weight).sum

theorem weight_step (hi : state.threads[i]? = some thread)
    (hless : thread'.weight < thread.weight) :
    weight ⟨shared', state.threads.set i thread'⟩ < weight state := by
  have hsum := @sum_map_set _ state.threads i thread thread' Thread.weight hi
  change ((state.threads.set i thread').map Thread.weight).sum <
    (state.threads.map Thread.weight).sum
  omega

/-- When no writer is left the readers have read what they are to read. -/
theorem Inv.value_of_writers (hinv : Inv writers state)
    (hended : ∀ thread ∈ state.threads, thread.role = .writer → thread.ended = true) :
    state.shared.value = BitVec.ofNat 32 (writers * iters) := by
  have hsum : ∀ threads : List Thread,
      (∀ thread ∈ threads, thread.Placed) →
      (∀ thread ∈ threads, thread.role = .writer → thread.ended = true) →
      (threads.map Thread.writes).sum =
        threads.countP (fun thread => thread.role = Role.writer) * iters := by
    intro threads
    induction threads with
    | nil => simp
    | cons thread threads ih =>
        intro hplaced hended
        have htail := ih (fun other hother => hplaced other (List.mem_cons_of_mem _ hother))
          fun other hother => hended other (List.mem_cons_of_mem _ hother)
        rw [List.map_cons, List.sum_cons, htail]
        cases thread with
        | writer id n pc =>
            have hreturned : pc = .returned := by
              simpa [Thread.ended] using hended _ List.mem_cons_self rfl
            subst hreturned
            have hn : n = iters := hplaced _ List.mem_cons_self
            rw [List.countP_cons_of_pos (by simp [Thread.role])]
            simp only [Thread.writes, hn]
            ring
        | reader id pc =>
            rw [List.countP_cons_of_neg (by simp [Thread.role])]
            simp [Thread.writes]
  rw [hinv.value, hsum _ hinv.placed hended, hinv.count]

/-- Some thread can come closer to its end. -/
theorem Inv.progress (hinv : Inv writers state) (hunfinished : ¬ Finished state) :
    ∃ i next, Interleaving.step (advance writers) state i = some next ∧
      Inv writers next ∧ weight next < weight state := by
  by_cases hended : ∀ thread ∈ state.threads, thread.role = .writer → thread.ended = true
  · -- A reader is left, and it does not enter its loop again.
    have hvalue := hinv.value_of_writers hended
    unfold Finished at hunfinished
    push Not at hunfinished
    obtain ⟨thread, hmem, hnot⟩ := hunfinished
    obtain ⟨i, hi⟩ := List.mem_iff_getElem?.mp hmem
    cases thread with
    | writer id n pc => exact absurd (hended _ hmem rfl) hnot
    | reader id pc =>
        have hlock : pc = .lock → state.shared.mutex = none := by
          rintro rfl
          cases hmutex : state.shared.mutex with
          | none => rfl
          | some k =>
              obtain ⟨owner, hk, howns⟩ := hinv.mutex k hmutex
              obtain rfl := hinv.reader_unique hi hk rfl (role_of_owns howns)
              rw [hi, Option.some.injEq] at hk
              subst hk
              exact absurd howns (by simp [Thread.owns, Thread.queued])
        have hwait : pc = .wait → state.shared.canRead = true := by
          rintro rfl
          cases hinv.signal i id hi with
          | inl hsignalled => exact hsignalled
          | inr howing =>
              obtain ⟨j, other, hj, howes⟩ := howing
              have hother := hended other (List.mem_of_getElem? hj) (role_of_owes howes)
              cases other with
              | writer id n pc =>
                  have hreturned : pc = .returned := by simpa [Thread.ended] using hother
                  subst hreturned
                  exact absurd howes (by simp [Thread.owes, Thread.announced])
              | reader id pc => exact absurd (role_of_owes howes) (by simp [Thread.role])
        have hpc : pc ≠ .returned := by
          rintro rfl
          exact hnot rfl
        obtain ⟨shared', thread', hadvance⟩ :=
          @exists_advanceReader writers state.shared i id pc hlock hwait hpc
        have hnext := @step_eq _ _ (advance writers) _ _ _ _ _ hi hadvance
        refine ⟨i, _, hnext, hinv.step hnext, weight_step hi ?_⟩
        apply (advanceReader_spec hadvance).weight
        rw [hvalue]
        simp [BitVec.slt]
  · push Not at hended
    obtain ⟨thread, hmem, hwriter, hnot⟩ := hended
    obtain ⟨i, hi⟩ := List.mem_iff_getElem?.mp hmem
    cases thread with
    | writer id n pc =>
        have hpc : pc ≠ .returned := by
          rintro rfl
          exact hnot rfl
        obtain ⟨shared', thread', hadvance⟩ :=
          @exists_advanceWriter state.shared id n pc hinv.canWrite hpc
        have hnext := @step_eq _ _ (advance writers) _ _ _ _ _ hi hadvance
        have hless := (advanceWriter_spec (hinv.placed _ hmem) hadvance).weight
        exact ⟨i, _, hnext, hinv.step hnext, weight_step hi hless⟩
    | reader id pc => exact absurd hwriter (by simp [Thread.role])

/-- Without writers the readers leave at once. -/
def Idle (state : State) : Prop :=
  state.shared.value = 0 ∧ ∀ thread ∈ state.threads,
    ∃ id, thread = .reader id .loop ∨ thread = .reader id .returned

theorem Idle.step_cases (hidle : Idle state)
    (hstep : Interleaving.step (advance 0) state i = some state') :
    ∃ id, state.threads[i]? = some (.reader id .loop) ∧
      state' = ⟨state.shared, state.threads.set i (.reader id .returned)⟩ := by
  obtain ⟨thread, shared', thread', hi, hadvance, rfl⟩ := Interleaving.step_cases hstep
  obtain ⟨id, rfl | rfl⟩ := hidle.2 thread (List.mem_of_getElem? hi)
  · have hvalue : state.shared.value.slt (BitVec.ofNat 32 (0 * iters)) = false := by
      rw [hidle.1]
      decide
    simp only [advance, advanceReader, hvalue, Bool.false_eq_true, if_false,
      Option.some.injEq, Prod.mk.injEq] at hadvance
    obtain ⟨rfl, rfl⟩ := hadvance
    exact ⟨id, hi, rfl⟩
  · exact absurd hadvance (by simp [advance, advanceReader])

theorem Idle.step (hidle : Idle state)
    (hstep : Interleaving.step (advance 0) state i = some state') : Idle state' := by
  obtain ⟨id, hi, rfl⟩ := hidle.step_cases hstep
  refine ⟨hidle.1, ?_⟩
  intro thread hmem
  rcases List.mem_or_eq_of_mem_set hmem with hold | rfl
  · exact hidle.2 thread hold
  · exact ⟨id, Or.inr rfl⟩

theorem Idle.progress (hidle : Idle state) (hunfinished : ¬ Finished state) :
    ∃ i next, Interleaving.step (advance 0) state i = some next ∧ Idle next ∧
      weight next < weight state := by
  unfold Finished at hunfinished
  push Not at hunfinished
  obtain ⟨thread, hmem, hnot⟩ := hunfinished
  obtain ⟨i, hi⟩ := List.mem_iff_getElem?.mp hmem
  obtain ⟨id, rfl | rfl⟩ := hidle.2 thread hmem
  · obtain ⟨shared', thread', hadvance⟩ :=
      @exists_advanceReader 0 state.shared i id .loop (by simp) (by simp) (by simp)
    have hnext := @step_eq _ _ (advance 0) _ _ _ _ _ hi hadvance
    obtain ⟨id', hi', hstate⟩ := hidle.step_cases hnext
    refine ⟨i, _, hnext, hidle.step hnext, ?_⟩
    rw [hstate]
    exact weight_step hi' (by simp [Thread.weight, ReaderPc.rank])
  · exact absurd rfl hnot

/-- With no writer, or with one reader at most, every run can be finished. -/
theorem exists_finish (hfew : writers = 0 ∨ readers ≤ 1) {events : List Nat}
    (hrun : run (Interleaving.step (advance writers)) (State.initial writers readers)
      events = some state) :
    ∃ more final, run (Interleaving.step (advance writers)) state more = some final ∧
      Finished final := by
  cases hfew with
  | inl hnone =>
      subst hnone
      have hidle : Idle (State.initial 0 readers) := by
        refine ⟨rfl, ?_⟩
        intro thread hmem
        rcases initial_cases hmem with ⟨id, rfl⟩ | ⟨id, rfl⟩
        · simp [State.initial] at hmem
        · exact ⟨id, Or.inl rfl⟩
      exact run_descend (fun _ hstate => hstate.progress)
        (run_invariant (fun _ _ _ hstate hstep => Idle.step hstate hstep) hidle hrun)
  | inr hreaders =>
      exact run_descend (fun _ hstate => hstate.progress)
        (run_invariant (fun _ _ _ hstate hstep => Inv.step hstate hstep)
          (inv_initial hreaders) hrun)

end WinReadersWriters
end MutualExclusion
end OsStuff
