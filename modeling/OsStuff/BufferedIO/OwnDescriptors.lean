import OsStuff.Library.Interleaving
import OsStuff.Library.OpenFiles

/-!
# `2.c`, `2_th.c` and `2_th_mutex.c`

A file that is opened more than once and read one character at a time.  Each
`open` makes an open file with an offset of its own, so everybody who reads gets
the whole file.  `2.c` reads from its two open files in turn; in `2_th.c` and
`2_th_mutex.c` each thread has one, and in the latter a thread holds `mu` while
it reads.

`open` succeeds, and `write` of one character returns 1.
-/

namespace OsStuff
namespace BufferedIO
namespace OwnDescriptors

open Library Library.OpenFiles Library.Interleaving Library.Processes

/-! ## `2.c` -/

/-- The loop with the offsets of `fd1` and `fd2`, for at most `rounds` rounds. -/
def loop (contents : List UInt8) :
    Nat → Nat → Nat → List UInt8 → Option (List UInt8)
  | 0, _, _, _ => none
  | rounds + 1, fd1, fd2, stdout =>
      match readAt contents fd1 1 with
      | [] => some stdout
      | c :: _ =>
          match readAt contents fd2 1 with
          | [] => some (stdout ++ [c])
          | d :: _ => loop contents rounds (fd1 + 1) (fd2 + 1) (stdout ++ [c] ++ [d])

def main (contents : List UInt8) : Option (List UInt8) :=
  loop contents (contents.length + 1) 0 0 []

variable {contents : List UInt8} {fd : Nat} {c : UInt8}

/-- A read of one character. -/
theorem readAt_one_cons {rest : List UInt8} (hread : readAt contents fd 1 = c :: rest) :
    fd < contents.length ∧ contents.drop fd = c :: contents.drop (fd + 1) ∧
      contents.take (fd + 1) = contents.take fd ++ [c] := by
  have hlength := congrArg List.length hread
  rw [length_readAt, List.length_cons] at hlength
  have hlt : fd < contents.length := by omega
  have hget : contents[fd] = c := by
    rw [readAt, List.drop_eq_getElem_cons hlt, List.take_succ_cons] at hread
    exact (List.cons.inj hread).1
  refine ⟨hlt, ?_, ?_⟩
  · rw [List.drop_eq_getElem_cons hlt, hget]
  · rw [List.take_succ_eq_append_getElem hlt, hget]

theorem loop_eq {rounds : Nat} {stdout : List UInt8}
    (hrounds : contents.length - fd < rounds) :
    loop contents rounds fd fd stdout =
      some (stdout ++ (contents.drop fd).flatMap fun c => [c, c]) := by
  induction rounds generalizing fd stdout with
  | zero => exact absurd hrounds (Nat.not_lt_zero _)
  | succ rounds ih =>
      rw [loop]
      cases hread : readAt contents fd 1 with
      | nil =>
          have hend := (readAt_eq_nil_iff one_pos).mp hread
          simp [List.drop_eq_nil_of_le hend]
      | cons c rest =>
          obtain ⟨hlt, hdrop, -⟩ := readAt_one_cons hread
          change loop contents rounds (fd + 1) (fd + 1) (stdout ++ [c] ++ [c]) = _
          rw [ih (by omega), hdrop]
          simp

/-- `2.c` prints every character of the file twice. -/
theorem main_doubles : main contents = some (contents.flatMap fun c => [c, c]) := by
  unfold main
  rw [loop_eq (by omega)]
  simp

/-! ## `th_work` -/

/-- What a thread does next. -/
inductive Pc
  | opening
  | lock
  | read
  | write (c : UInt8)
  | unlock
  | returned
  deriving DecidableEq, Repr

/-- The thread that has locked `mu`, and what has been printed with the thread
that printed it. -/
structure Shared where
  mu : Option Nat
  stdout : List (Nat × UInt8)
  deriving DecidableEq, Repr

/-- A thread with the offset of its open file. -/
structure Thread where
  pc : Pc
  fd : Nat
  deriving DecidableEq, Repr

/-- The next step of thread `i` of `th_work`, which locks `mu` or does not. -/
def advance (mutex : Bool) (contents : List UInt8) (i : Nat) (shared : Shared)
    (thread : Thread) : Option (Shared × Thread) :=
  match thread.pc with
  | .opening => some (shared, ⟨if mutex then .lock else .read, 0⟩)
  | .lock =>
      if shared.mu = none then
        some ({ shared with mu := some i }, { thread with pc := .read })
      else none
  | .read =>
      match readAt contents thread.fd 1 with
      | c :: _ => some (shared, ⟨.write c, thread.fd + 1⟩)
      | [] => some (shared, { thread with pc := if mutex then .unlock else .returned })
  | .write c =>
      some ({ shared with stdout := shared.stdout ++ [(i, c)] },
        { thread with pc := .read })
  | .unlock => some ({ shared with mu := none }, { thread with pc := .returned })
  | .returned => none

/-- `th_work` of `2_th.c` -/
def thWork := advance false

/-- `th_work` of `2_th_mutex.c` -/
def thWorkMutex := advance true

/-- `main` after it has created its threads, of which it has two. -/
def initial (threads : Nat) : System Shared Thread :=
  ⟨⟨none, []⟩, List.replicate threads ⟨.opening, 0⟩⟩

def Finished (system : System Shared Thread) : Prop :=
  ∀ thread ∈ system.threads, thread.pc = .returned

instance (system : System Shared Thread) : Decidable (Finished system) :=
  inferInstanceAs (Decidable (∀ _ ∈ _, _))

/-! ## What a thread has printed -/

/-- What is known of what a thread has printed. -/
def Knows (contents printed : List UInt8) (thread : Thread) : Prop :=
  match thread.pc with
  | .opening => printed = []
  | .lock => printed = [] ∧ thread.fd = 0
  | .read => printed = contents.take thread.fd
  | .write c => printed ++ [c] = contents.take thread.fd
  | .unlock => printed = contents
  | .returned => printed = contents

/-- The steps that a thread has left at most. -/
def Thread.weight (contents : List UInt8) (thread : Thread) : Nat :=
  match thread.pc with
  | .opening => 2 * contents.length + 4
  | .lock => 2 * contents.length + 3
  | .read => 2 * (contents.length - thread.fd) + 2
  | .write _ => 2 * (contents.length - thread.fd) + 3
  | .unlock => 1
  | .returned => 0

def weight (contents : List UInt8) (system : System Shared Thread) : Nat :=
  (system.threads.map (Thread.weight contents)).sum

structure Inv (contents : List UInt8) (n : Nat) (system : System Shared Thread) :
    Prop where
  threads : system.threads.length = n
  printed : ∀ entry ∈ system.shared.stdout, entry.1 < n
  knows : ∀ (i : Nat) (thread : Thread), system.threads[i]? = some thread →
    Knows contents (entriesOf i system.shared.stdout) thread

variable {mutex : Bool} {n i : Nat} {system system' : System Shared Thread}
  {shared shared' : Shared} {thread thread' : Thread} {events : List Nat}
  {order : List Nat}

/-- What a step can do: it prints at most one character. -/
theorem advance_spec
    (hadvance : advance mutex contents i shared thread = some (shared', thread'))
    (hknows : Knows contents (entriesOf i shared.stdout) thread) :
    ∃ entries : List (Nat × UInt8), shared'.stdout = shared.stdout ++ entries ∧
      (∀ entry ∈ entries, entry.1 = i) ∧
      Knows contents (entriesOf i shared'.stdout) thread' ∧
      thread'.weight contents < thread.weight contents := by
  obtain ⟨pc, fd⟩ := thread
  cases pc with
  | opening =>
      rw [advance, Option.some.injEq, Prod.mk.injEq] at hadvance
      obtain ⟨rfl, rfl⟩ := hadvance
      refine ⟨[], by simp, by simp, ?_, ?_⟩
      · cases mutex with
        | false => exact hknows
        | true => exact ⟨hknows, rfl⟩
      · cases mutex with
        | false => simp [Thread.weight]
        | true => simp [Thread.weight]
  | lock =>
      simp only [advance, Option.ite_none_right_eq_some, Option.some.injEq,
        Prod.mk.injEq] at hadvance
      obtain ⟨-, rfl, rfl⟩ := hadvance
      obtain ⟨hprinted, rfl⟩ : _ ∧ fd = 0 := hknows
      exact ⟨[], by simp, by simp, hprinted, by simp [Thread.weight]⟩
  | read =>
      cases hread : readAt contents fd 1 with
      | nil =>
          have hend := (readAt_eq_nil_iff one_pos).mp hread
          rw [advance, hread, Option.some.injEq, Prod.mk.injEq] at hadvance
          obtain ⟨rfl, rfl⟩ := hadvance
          have hall : entriesOf i shared.stdout = contents :=
            Eq.trans hknows (List.take_of_length_le hend)
          refine ⟨[], by simp, by simp, ?_, ?_⟩
          · cases mutex with
            | false => exact hall
            | true => exact hall
          · cases mutex with
            | false => simp [Thread.weight]
            | true => simp [Thread.weight]
      | cons c rest =>
          obtain ⟨hlt, -, htake⟩ := readAt_one_cons hread
          rw [advance, hread, Option.some.injEq, Prod.mk.injEq] at hadvance
          obtain ⟨rfl, rfl⟩ := hadvance
          have hprinted : entriesOf i shared.stdout = contents.take fd := hknows
          refine ⟨[], by simp, by simp, ?_, ?_⟩
          · change _ ++ [c] = contents.take (fd + 1)
            rw [htake, hprinted]
          · simp only [Thread.weight]
            omega
  | write c =>
      rw [advance, Option.some.injEq, Prod.mk.injEq] at hadvance
      obtain ⟨rfl, rfl⟩ := hadvance
      refine ⟨[(i, c)], rfl, by simp, ?_, by simp [Thread.weight]⟩
      change entriesOf i (shared.stdout ++ [(i, c)]) = contents.take fd
      rw [entriesOf_append, entriesOf_self]
      exact hknows
  | unlock =>
      rw [advance, Option.some.injEq, Prod.mk.injEq] at hadvance
      obtain ⟨rfl, rfl⟩ := hadvance
      exact ⟨[], by simp, by simp, hknows, by simp [Thread.weight]⟩
  | returned => exact absurd hadvance (by simp [advance])

/-- What a thread prints is no entry of another one. -/
theorem entriesOf_append_other {stdout entries : List (Nat × UInt8)} {k : Nat}
    (hentries : ∀ entry ∈ entries, entry.1 = i) (hne : k ≠ i) :
    entriesOf k (stdout ++ entries) = entriesOf k stdout := by
  have hnone : entriesOf k entries = [] := by
    rw [entriesOf, List.filterMap_eq_nil_iff]
    intro entry hentry
    rw [hentries entry hentry, if_neg (Ne.symm hne)]
  rw [entriesOf_append, hnone, List.append_nil]

theorem inv_initial : Inv contents n (initial n) := by
  constructor
  · exact List.length_replicate
  · exact fun entry hentry => absurd hentry List.not_mem_nil
  · intro i thread hi
    rw [List.eq_of_mem_replicate (List.mem_of_getElem? hi)]
    rfl

theorem Inv.step (hinv : Inv contents n system)
    (hstep : Interleaving.step (advance mutex contents) system i = some system') :
    Inv contents n system' ∧ weight contents system' < weight contents system := by
  obtain ⟨thread, shared', thread', hi, hadvance, rfl⟩ := step_cases hstep
  obtain ⟨entries, hstdout, hentries, hknows, hless⟩ :=
    advance_spec hadvance (hinv.knows i thread hi)
  refine ⟨⟨(List.length_set ..).trans hinv.threads, ?_, ?_⟩, ?_⟩
  · intro entry hentry
    change entry ∈ shared'.stdout at hentry
    rw [hstdout] at hentry
    rcases List.mem_append.mp hentry with hold | hnew
    · exact hinv.printed entry hold
    · rw [hentries entry hnew, ← hinv.threads]
      exact lt_length hi
  · intro k other hk
    rcases set_cases hk with ⟨rfl, rfl⟩ | ⟨hne, hother⟩
    · exact hknows
    · change Knows contents (entriesOf k shared'.stdout) other
      rw [hstdout, entriesOf_append_other hentries hne]
      exact hinv.knows k other hother
  · have hsum := @sum_map_set _ _ _ _ thread' (Thread.weight contents) hi
    change ((system.threads.set i thread').map (Thread.weight contents)).sum <
      (system.threads.map (Thread.weight contents)).sum
    omega

theorem Inv.of_run (hinv : Inv contents n system)
    (hrun : run (Interleaving.step (advance mutex contents)) system events =
      some system') : Inv contents n system' :=
  run_invariant (fun _ _ _ hstate hstep => (hstate.step hstep).1) hinv hrun

/-- The program comes to an end. -/
theorem run_length_le (hrun : run (Interleaving.step (advance mutex contents))
    (initial n) events = some system) :
    events.length ≤ n * (2 * contents.length + 4) := by
  have hlength := run_length (fun _ _ _ hstate hstep => Inv.step hstate hstep)
    inv_initial hrun
  have hweight : weight contents (initial n) = n * (2 * contents.length + 4) := by
    simp [weight, initial, Thread.weight]
  omega

/-- A thread that has returned has printed the file. -/
theorem Inv.finished (hinv : Inv contents n system) (hfinished : Finished system) :
    ∀ i < n, entriesOf i system.shared.stdout = contents := by
  intro i hi
  rw [← hinv.threads] at hi
  have hknows := hinv.knows i _ (List.getElem?_eq_getElem hi)
  have hpc := hfinished _ (List.getElem_mem hi)
  unfold Knows at hknows
  rwa [hpc] at hknows

/-- What has been printed stays. -/
theorem prefix_run (hrun : Library.run (Interleaving.step (advance mutex contents)) system
    events = some system') (hinv : Inv contents n system) :
    system.shared.stdout <+: system'.shared.stdout := by
  have hkeep : Inv contents n system' ∧
      system.shared.stdout <+: system'.shared.stdout := by
    refine @run_invariant _ _ _
      (fun state : System Shared Thread => Inv contents n state ∧
        system.shared.stdout <+: state.shared.stdout)
      ?_ _ _ _ ⟨hinv, List.prefix_refl _⟩ hrun
    rintro state i next ⟨hstate, hbefore⟩ hstep
    refine ⟨(hstate.step hstep).1, hbefore.trans ?_⟩
    obtain ⟨thread, shared', thread', hi, hadvance, rfl⟩ := step_cases hstep
    obtain ⟨entries, hstdout, -⟩ := advance_spec hadvance (hstate.knows i thread hi)
    exact ⟨entries, hstdout.symm⟩
  exact hkeep.2

/-- Only a thread that waits for `mu` or has returned cannot go on. -/
theorem exists_advance (hlock : thread.pc = .lock → shared.mu = none)
    (hreturned : thread.pc ≠ .returned) :
    ∃ next, advance mutex contents i shared thread = some next := by
  obtain ⟨pc, fd⟩ := thread
  cases pc with
  | opening => exact ⟨_, rfl⟩
  | lock => exact ⟨_, by rw [advance, if_pos (hlock rfl)]⟩
  | read =>
      cases hread : readAt contents fd 1 with
      | nil => simp [advance, hread]
      | cons c rest => simp [advance, hread]
  | write c => exact ⟨_, rfl⟩
  | unlock => exact ⟨_, rfl⟩
  | returned => exact absurd rfl hreturned

/-! ## `2_th.c` -/

/-- Nobody waits for the mutex that the program does not have. -/
def Unlocked (system : System Shared Thread) : Prop :=
  ∀ thread ∈ system.threads, thread.pc ≠ .lock

theorem unlocked_step (hunlocked : Unlocked system)
    (hstep : Interleaving.step (thWork contents) system i = some system') :
    Unlocked system' := by
  obtain ⟨thread, shared', thread', hi, hadvance, rfl⟩ := step_cases hstep
  intro other hmem
  rcases List.mem_or_eq_of_mem_set hmem with hold | rfl
  · exact hunlocked other hold
  · have hlock := hunlocked thread (List.mem_of_getElem? hi)
    obtain ⟨pc, fd⟩ := thread
    cases pc with
    | opening =>
        rw [thWork, advance, Option.some.injEq, Prod.mk.injEq] at hadvance
        rw [← hadvance.2]
        simp
    | lock => exact absurd rfl hlock
    | read =>
        cases hread : readAt contents fd 1 with
        | nil =>
            rw [thWork, advance, hread, Option.some.injEq, Prod.mk.injEq] at hadvance
            rw [← hadvance.2]
            simp
        | cons c rest =>
            rw [thWork, advance, hread, Option.some.injEq, Prod.mk.injEq] at hadvance
            rw [← hadvance.2]
            simp
    | write c =>
        rw [thWork, advance, Option.some.injEq, Prod.mk.injEq] at hadvance
        rw [← hadvance.2]
        simp
    | unlock =>
        rw [thWork, advance, Option.some.injEq, Prod.mk.injEq] at hadvance
        rw [← hadvance.2]
        simp
    | returned => exact absurd hadvance (by simp [thWork, advance])

theorem complete_of_unlocked (hinv : Inv contents n system) (hunlocked : Unlocked system) :
    ∃ events final, Library.run (Interleaving.step (thWork contents)) system events =
      some final ∧ Finished final := by
  refine @run_complete _ _ _
    (fun state : System Shared Thread => Inv contents n state ∧ Unlocked state)
    Finished (weight contents) ?_ ?_ _ ⟨hinv, hunlocked⟩
  · rintro state i next ⟨hstate, hfree⟩ hstep
    obtain ⟨hnext, hless⟩ := hstate.step hstep
    exact ⟨⟨hnext, unlocked_step hfree hstep⟩, hless⟩
  · rintro state ⟨-, hfree⟩ hunfinished
    unfold Finished at hunfinished
    push Not at hunfinished
    obtain ⟨thread, hmem, hpc⟩ := hunfinished
    obtain ⟨i, hi⟩ := List.mem_iff_getElem?.mp hmem
    obtain ⟨⟨shared, thread'⟩, hadvance⟩ :=
      exists_advance (fun hlock => absurd hlock (hfree thread hmem)) hpc
    exact ⟨i, _, step_eq hi hadvance⟩

/-- The threads have yet to print the entries of a log. -/
def Pending (contents : List UInt8) (log : List (Nat × UInt8))
    (system : System Shared Thread) : Prop :=
  ∀ (i : Nat) (thread : Thread), system.threads[i]? = some thread →
    (thread.pc = .read ∨ (thread.pc = .opening ∧ thread.fd = 0)) ∧
      entriesOf i log = contents.drop thread.fd

/-- A schedule that prints the log. -/
theorem run_log {log : List (Nat × UInt8)} (hinv : Inv contents n system)
    (hunlocked : Unlocked system) (howners : ∀ entry ∈ log, entry.1 < n)
    (hpending : Pending contents log system) :
    ∃ events system', Library.run (Interleaving.step (thWork contents)) system events =
      some system' ∧ Unlocked system' ∧
        system'.shared.stdout = system.shared.stdout ++ log := by
  induction log generalizing system with
  | nil => exact ⟨[], system, run_nil _, hunlocked, by simp⟩
  | cons entry log ih =>
      obtain ⟨i, c⟩ := entry
      have hlt : i < system.threads.length :=
        hinv.threads ▸ howners _ List.mem_cons_self
      have hi : system.threads[i]? = some system.threads[i] :=
        List.getElem?_eq_getElem hlt
      obtain ⟨hpc, hnext⟩ := hpending i _ hi
      set thread := system.threads[i] with hthread
      have hcons : c :: entriesOf i log = contents.drop thread.fd := by
        rw [← hnext]
        simp [entriesOf]
      have hread : readAt contents thread.fd 1 = [c] := by
        rw [readAt, ← hcons]
        rfl
      obtain ⟨-, hdrop, -⟩ := readAt_one_cons hread
      -- The thread opens the file if it has not, reads the character and prints it.
      have hsolo : ∃ steps, solo (thWork contents) i steps system.shared thread =
          some ({ system.shared with stdout := system.shared.stdout ++ [(i, c)] },
            ⟨.read, thread.fd + 1⟩) := by
        obtain ⟨pc, fd⟩ := thread
        rcases hpc with hpc | ⟨hpc, hfd⟩
        · obtain rfl : pc = .read := hpc
          exact ⟨2, by simp [solo, thWork, advance, hread]⟩
        · obtain rfl : pc = .opening := hpc
          obtain rfl : fd = 0 := hfd
          exact ⟨3, by simp [solo, thWork, advance, hread]⟩
      obtain ⟨steps, hsolo⟩ := hsolo
      have hfirst := run_solo hi hsolo
      have hmiddle := hinv.of_run hfirst
      have hfree : Unlocked _ := run_invariant
        (fun _ _ _ hstate hstep => unlocked_step hstate hstep) hunlocked hfirst
      obtain ⟨events, system', hrest, hunlocked', hstdout⟩ := ih hmiddle hfree
        (fun e he => howners e (List.mem_cons_of_mem _ he)) (by
          intro k other hk
          rcases set_cases hk with ⟨rfl, rfl⟩ | ⟨hne, hother⟩
          · refine ⟨Or.inl rfl, ?_⟩
            rw [hdrop] at hcons
            exact (List.cons.inj hcons).2
          · obtain ⟨hpc, hentries⟩ := hpending k other hother
            refine ⟨hpc, ?_⟩
            rw [← hentries]
            simp [entriesOf, Ne.symm hne])
      refine ⟨List.replicate steps i ++ events, system',
        run_append.mpr ⟨_, hfirst, hrest⟩, hunlocked', ?_⟩
      rw [hstdout]
      simp

/-- Every thread of `2_th.c` prints the whole file, and that is all that can be
said of the output: the program can print exactly the interleavings of as many
copies of the file as it has threads. -/
theorem thWork_outputs (log : List (Nat × UInt8)) :
    (∃ events system, Library.run (Interleaving.step (thWork contents)) (initial n) events =
        some system ∧ Finished system ∧ system.shared.stdout = log) ↔
      (∀ entry ∈ log, entry.1 < n) ∧ ∀ i < n, entriesOf i log = contents := by
  have hfree : Unlocked (initial n) := by
    intro thread hmem
    rw [List.eq_of_mem_replicate hmem]
    simp
  constructor
  · rintro ⟨events, system, hrun, hfinished, rfl⟩
    have hinv := inv_initial.of_run hrun
    exact ⟨hinv.printed, hinv.finished hfinished⟩
  · rintro ⟨howners, hentries⟩
    have hpending : Pending contents log (initial n) := by
      intro i thread hi
      have hlt := lt_length hi
      rw [List.eq_of_mem_replicate (List.mem_of_getElem? hi)]
      exact ⟨Or.inr ⟨rfl, rfl⟩, hentries i (by simpa [initial] using hlt)⟩
    obtain ⟨front, middle, hfront, hunlocked, hstdout⟩ :=
      run_log inv_initial hfree howners hpending
    have hmiddle := inv_initial.of_run hfront
    obtain ⟨back, final, hback, hfinished⟩ := complete_of_unlocked hmiddle hunlocked
    have hfinal := hmiddle.of_run hback
    refine ⟨front ++ back, final, run_append.mpr ⟨middle, hfront, hback⟩, hfinished, ?_⟩
    -- Nothing is left to print, since every thread has printed the file already.
    obtain ⟨more, hmore⟩ := prefix_run hback hmiddle
    have hnil : ∀ i < n, entriesOf i more = [] := by
      intro i hi
      have hall := hfinal.finished hfinished i hi
      rw [← hmore, hstdout, entriesOf_append, entriesOf_append, hentries i hi] at hall
      simpa [initial] using hall
    have hmore_nil : more = [] := by
      rw [List.eq_nil_iff_forall_not_mem]
      rintro ⟨i, c⟩ hmem
      have hi : i < n := hfinal.printed (i, c) (hmore ▸ List.mem_append_right _ hmem)
      have hentry : c ∈ entriesOf i more :=
        List.mem_filterMap.mpr ⟨(i, c), hmem, by simp⟩
      rw [hnil i hi] at hentry
      exact absurd hentry List.not_mem_nil
    rw [← hmore, hmore_nil, hstdout]
    simp [initial]

/-! ## `2_th_mutex.c` -/

/-- Between `pthread_mutex_lock` and `pthread_mutex_unlock`. -/
def Pc.holds : Pc → Bool
  | .opening => false
  | .lock => false
  | .read => true
  | .write _ => true
  | .unlock => true
  | .returned => false

/-- The whole file, printed by one thread after another. -/
def copies (contents : List UInt8) (order : List Nat) : List (Nat × UInt8) :=
  order.flatMap fun i => contents.map fun c => (i, c)

/-- What the thread that holds the mutex has printed. -/
def current (shared : Shared) : List (Nat × UInt8) :=
  match shared.mu with
  | none => []
  | some i => (entriesOf i shared.stdout).map fun c => (i, c)

theorem current_some (hmu : shared.mu = some i) :
    current shared = (entriesOf i shared.stdout).map fun c => (i, c) := by
  rw [current, hmu]

theorem current_none (hmu : shared.mu = none) : current shared = [] := by
  rw [current, hmu]

/-- The threads in `order` have returned, one after another, and at most one is
at work. -/
structure Locked (contents : List UInt8) (order : List Nat)
    (system : System Shared Thread) : Prop where
  holds : ∀ (i : Nat) (thread : Thread), system.threads[i]? = some thread →
    (thread.pc.holds = true ↔ system.shared.mu = some i)
  holder : ∀ i, system.shared.mu = some i → i < system.threads.length
  returned : ∀ (i : Nat) (thread : Thread), system.threads[i]? = some thread →
    (thread.pc = .returned ↔ i ∈ order)
  order_lt : ∀ i ∈ order, i < system.threads.length
  nodup : order.Nodup
  stdout : system.shared.stdout = copies contents order ++ current system.shared

theorem locked_initial : Locked contents [] (initial n) := by
  constructor
  · intro i thread hi
    rw [List.eq_of_mem_replicate (List.mem_of_getElem? hi)]
    simp [initial, Pc.holds]
  · simp [initial]
  · intro i thread hi
    rw [List.eq_of_mem_replicate (List.mem_of_getElem? hi)]
    simp
  · simp
  · exact List.nodup_nil
  · rfl

/-- A step of a thread that neither locks nor unlocks. -/
theorem Locked.keep (hlocked : Locked contents order system)
    (hi : system.threads[i]? = some thread) (hmu : shared'.mu = system.shared.mu)
    (hholds : thread'.pc.holds = thread.pc.holds)
    (hreturned : thread.pc ≠ .returned) (hreturned' : thread'.pc ≠ .returned)
    (hstdout : shared'.stdout = copies contents order ++ current shared') :
    Locked contents order ⟨shared', system.threads.set i thread'⟩ := by
  constructor
  · intro k other hk
    change other.pc.holds = true ↔ shared'.mu = some k
    rw [hmu]
    rcases set_cases hk with ⟨rfl, rfl⟩ | ⟨-, hother⟩
    · rw [hholds]
      exact hlocked.holds k thread hi
    · exact hlocked.holds k other hother
  · intro k hk
    change shared'.mu = some k at hk
    change k < (system.threads.set i thread').length
    rw [List.length_set]
    exact hlocked.holder k (hmu ▸ hk)
  · intro k other hk
    rcases set_cases hk with ⟨rfl, rfl⟩ | ⟨-, hother⟩
    · have hnot := (not_congr (hlocked.returned k thread hi)).mp hreturned
      exact iff_of_false hreturned' hnot
    · exact hlocked.returned k other hother
  · intro k hk
    change k < (system.threads.set i thread').length
    rw [List.length_set]
    exact hlocked.order_lt k hk
  · exact hlocked.nodup
  · exact hstdout

theorem Locked.step (hlocked : Locked contents order system)
    (hinv : Inv contents n system)
    (hstep : Interleaving.step (thWorkMutex contents) system i = some system') :
    ∃ order', Locked contents order' system' := by
  obtain ⟨thread, shared', thread', hi, hadvance, rfl⟩ := step_cases hstep
  have hstdout := hlocked.stdout
  have hholds := hlocked.holds i thread hi
  have hknows := hinv.knows i thread hi
  obtain ⟨pc, fd⟩ := thread
  cases pc with
  | opening =>
      rw [thWorkMutex, advance, Option.some.injEq, Prod.mk.injEq] at hadvance
      obtain ⟨rfl, rfl⟩ := hadvance
      exact ⟨order, hlocked.keep hi rfl rfl (by simp) (by simp) hstdout⟩
  | lock =>
      simp only [thWorkMutex, advance, Option.ite_none_right_eq_some, Option.some.injEq,
        Prod.mk.injEq] at hadvance
      obtain ⟨hnone, rfl, rfl⟩ := hadvance
      obtain ⟨hprinted, -⟩ : entriesOf i system.shared.stdout = [] ∧ fd = 0 := hknows
      refine ⟨order, ?_, ?_, ?_, ?_, hlocked.nodup, ?_⟩
      · intro k other hk
        change _ ↔ some i = some k
        rcases set_cases hk with ⟨rfl, rfl⟩ | ⟨hne, hother⟩
        · exact iff_of_true rfl rfl
        · have hfree := hlocked.holds k other hother
          rw [hnone] at hfree
          apply iff_of_false
          · rw [hfree]
            simp
          · simpa using Ne.symm hne
      · intro k hk
        change some i = some k at hk
        obtain rfl := Option.some.inj hk
        change i < (system.threads.set i _).length
        rw [List.length_set]
        exact lt_length hi
      · intro k other hk
        rcases set_cases hk with ⟨rfl, rfl⟩ | ⟨-, hother⟩
        · have hnot := (not_congr (hlocked.returned k _ hi)).mp (by simp)
          exact iff_of_false (by simp) hnot
        · exact hlocked.returned k other hother
      · intro k hk
        change k < (system.threads.set i _).length
        rw [List.length_set]
        exact hlocked.order_lt k hk
      · change system.shared.stdout = copies contents order ++
          (entriesOf i system.shared.stdout).map fun c => (i, c)
        rw [hprinted, List.map_nil, ← current_none hnone]
        exact hstdout
  | read =>
      cases hread : readAt contents fd 1 with
      | nil =>
          rw [thWorkMutex, advance, hread, Option.some.injEq, Prod.mk.injEq] at hadvance
          obtain ⟨rfl, rfl⟩ := hadvance
          exact ⟨order, hlocked.keep hi rfl rfl (by simp) (by simp) hstdout⟩
      | cons c rest =>
          rw [thWorkMutex, advance, hread, Option.some.injEq, Prod.mk.injEq] at hadvance
          obtain ⟨rfl, rfl⟩ := hadvance
          exact ⟨order, hlocked.keep hi rfl rfl (by simp) (by simp) hstdout⟩
  | write c =>
      rw [thWorkMutex, advance, Option.some.injEq, Prod.mk.injEq] at hadvance
      obtain ⟨rfl, rfl⟩ := hadvance
      refine ⟨order, hlocked.keep hi rfl rfl (by simp) (by simp) ?_⟩
      -- Only the thread that holds the mutex prints.
      have hmu : system.shared.mu = some i := hholds.mp rfl
      change system.shared.stdout ++ [(i, c)] = _
      have hmu' : Shared.mu ⟨system.shared.mu, system.shared.stdout ++ [(i, c)]⟩ =
          some i := hmu
      rw [current_some hmu] at hstdout
      rw [current_some hmu', entriesOf_append, entriesOf_self, List.map_append,
        ← List.append_assoc, ← hstdout]
      rfl
  | unlock =>
      rw [thWorkMutex, advance, Option.some.injEq, Prod.mk.injEq] at hadvance
      obtain ⟨rfl, rfl⟩ := hadvance
      have hmu : system.shared.mu = some i := hholds.mp rfl
      have hprinted : entriesOf i system.shared.stdout = contents := hknows
      have hnew : i ∉ order := (not_congr (hlocked.returned i _ hi)).mp (by simp)
      refine ⟨order ++ [i], ?_, ?_, ?_, ?_, ?_, ?_⟩
      · intro k other hk
        change _ ↔ none = some k
        rcases set_cases hk with ⟨rfl, rfl⟩ | ⟨hne, hother⟩
        · exact iff_of_false (by simp [Pc.holds]) (by simp)
        · have hfree := hlocked.holds k other hother
          rw [hmu] at hfree
          apply iff_of_false
          · rw [hfree]
            simpa using Ne.symm hne
          · simp
      · exact fun k hk => absurd hk (by simp)
      · intro k other hk
        rw [List.mem_append, List.mem_singleton]
        rcases set_cases hk with ⟨rfl, rfl⟩ | ⟨hne, hother⟩
        · exact iff_of_true rfl (Or.inr rfl)
        · rw [hlocked.returned k other hother]
          exact ⟨Or.inl, fun h => h.resolve_right hne⟩
      · intro k hk
        change k < (system.threads.set i _).length
        rw [List.length_set]
        rcases List.mem_append.mp hk with hold | hlast
        · exact hlocked.order_lt k hold
        · exact List.mem_singleton.mp hlast ▸ lt_length hi
      · rw [List.nodup_append]
        refine ⟨hlocked.nodup, by simp, ?_⟩
        intro k hk j hj hkj
        rw [List.mem_singleton] at hj
        exact hnew (hj ▸ hkj ▸ hk)
      · change system.shared.stdout = copies contents (order ++ [i]) ++ []
        rw [current_some hmu, hprinted] at hstdout
        rw [hstdout, List.append_nil]
        simp [copies]
  | returned => exact absurd hadvance (by simp [thWorkMutex, advance])

/-- Somebody can go on until all have returned: the thread that holds the mutex,
or anybody when it is free. -/
theorem Locked.exists_step (hlocked : Locked contents order system)
    (hunfinished : ¬ Finished system) :
    ∃ i system', Interleaving.step (thWorkMutex contents) system i = some system' := by
  cases hmu : system.shared.mu with
  | none =>
      unfold Finished at hunfinished
      push Not at hunfinished
      obtain ⟨thread, hmem, hpc⟩ := hunfinished
      obtain ⟨i, hi⟩ := List.mem_iff_getElem?.mp hmem
      obtain ⟨⟨shared, thread'⟩, hadvance⟩ := exists_advance (fun _ => hmu) hpc
      exact ⟨i, _, step_eq hi hadvance⟩
  | some i =>
      obtain ⟨thread, hi⟩ : ∃ thread, system.threads[i]? = some thread :=
        ⟨_, List.getElem?_eq_getElem (hlocked.holder i hmu)⟩
      have hholds := (hlocked.holds i thread hi).mpr hmu
      have hlock : thread.pc ≠ .lock := by
        intro hpc
        rw [hpc] at hholds
        exact absurd hholds (by simp [Pc.holds])
      have hreturned : thread.pc ≠ .returned := by
        intro hpc
        rw [hpc] at hholds
        exact absurd hholds (by simp [Pc.holds])
      obtain ⟨⟨shared, thread'⟩, hadvance⟩ :=
        exists_advance (fun hpc => absurd hpc hlock) hreturned
      exact ⟨i, _, step_eq hi hadvance⟩

/-- When all have returned, the output is one copy of the file after another. -/
theorem Locked.finished (hlocked : Locked contents order system)
    (hfinished : Finished system) :
    order.Perm (List.range system.threads.length) ∧
      system.shared.stdout = copies contents order := by
  have hfree : system.shared.mu = none := by
    rw [Option.eq_none_iff_forall_ne_some]
    intro i hmu
    have hlt := hlocked.holder i hmu
    have hholds := (hlocked.holds i _ (List.getElem?_eq_getElem hlt)).mpr hmu
    rw [hfinished _ (List.getElem_mem hlt)] at hholds
    exact absurd hholds (by simp [Pc.holds])
  constructor
  · rw [List.perm_ext_iff_of_nodup hlocked.nodup List.nodup_range]
    intro i
    rw [List.mem_range]
    constructor
    · exact hlocked.order_lt i
    · intro hlt
      rw [← hlocked.returned i _ (List.getElem?_eq_getElem hlt)]
      exact hfinished _ (List.getElem_mem hlt)
  · have hstdout := hlocked.stdout
    rwa [current_none hfree, List.append_nil] at hstdout

/-- `2_th_mutex.c` with any number of threads never gets stuck and comes to an
end, at most one thread at a time is inside, and the output is the file once for
each thread, one copy after another. -/
theorem thWorkMutex_run
    (hrun : Library.run (Interleaving.step (thWorkMutex contents)) (initial n) events =
      some system) :
    events.length ≤ n * (2 * contents.length + 4) ∧
      system.threads.countP (fun thread => thread.pc.holds) ≤ 1 ∧
      (∃ more final, Library.run (Interleaving.step (thWorkMutex contents)) system more =
        some final ∧ Finished final) ∧
      (Finished system → ∃ order : List Nat, order.Perm (List.range n) ∧
        system.shared.stdout = copies contents order) := by
  have hkeep : ∀ state i next,
      (Inv contents n state ∧ ∃ order, Locked contents order state) →
      Interleaving.step (thWorkMutex contents) state i = some next →
        (Inv contents n next ∧ ∃ order, Locked contents order next) ∧
          weight contents next < weight contents state := by
    rintro state i next ⟨hinv, order, hlocked⟩ hstep
    obtain ⟨hnext, hless⟩ := hinv.step hstep
    exact ⟨⟨hnext, hlocked.step hinv hstep⟩, hless⟩
  obtain ⟨hinv, order, hlocked⟩ := run_invariant
    (fun state i next hstate hstep => (hkeep state i next hstate hstep).1)
    ⟨inv_initial, [], locked_initial⟩ hrun
  refine ⟨run_length_le hrun, ?_, ?_, ?_⟩
  · apply countP_le_one
    intro i j thread other hi hj hthread hother
    have hmu := (hlocked.holds i thread hi).mp hthread
    rw [(hlocked.holds j other hj).mp hother] at hmu
    exact (Option.some.inj hmu).symm
  · exact run_complete hkeep (fun state hstate hunfinished => by
      obtain ⟨-, order, hlocked⟩ := hstate
      exact hlocked.exists_step hunfinished) ⟨hinv, order, hlocked⟩
  · intro hfinished
    obtain ⟨hperm, hstdout⟩ := hlocked.finished hfinished
    exact ⟨order, hinv.threads ▸ hperm, hstdout⟩

/-- Thread 1 prints its copy while thread 0 waits for the mutex. -/
theorem thWorkMutex_run_two :
    ∃ order : List Nat, order.Perm (List.range 2) ∧
      [(1, 97), (0, 97)] = copies [97] order := by
  have hrun : Library.run (Interleaving.step (thWorkMutex [97])) (initial 2)
      [0, 1, 1, 1, 1, 1, 1, 0, 0, 0, 0, 0] =
        some ⟨⟨none, [(1, 97), (0, 97)]⟩, [⟨.returned, 1⟩, ⟨.returned, 1⟩]⟩ := by
    decide
  exact (thWorkMutex_run hrun).2.2.2 (by decide)

end OwnDescriptors
end BufferedIO
end OsStuff
