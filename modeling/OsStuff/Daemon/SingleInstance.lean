import OsStuff.Library.OpenFiles
import OsStuff.Library.Processes
import OsStuff.Library.Run

/-!
# `main_thr.c`: one daemon at a time

Any number of invocations of the daemon, one system call at a time.  An
invocation that finds the lock file locked gives up.  One whose `flock` fails
for another reason goes on as if it had the lock, so that each such failure can
add a daemon; without them there is at most one and the file holds its process
id.

The kernel unlocks the file when the process that has locked it ends, whatever
it dies of.  `ftruncate` and `write`, whose results are not looked at, succeed.
-/

namespace OsStuff
namespace Daemon

open Library Library.Processes

/-- The next call of an invocation, or how it has ended. -/
inductive Pc
  | daemonize
  | openFile
  | flock
  | ftruncate
  | write
  | setUp
  | running
  | exited (code : Int)
  | killed
  deriving DecidableEq, Repr

/-- The outcomes of `flock` with `LOCK_EX` and `LOCK_NB`. -/
inductive Flock
  | locked
  | wouldBlock
  | failed
  deriving DecidableEq, Repr

def Pc.ended : Pc → Bool
  | .exited _ => true
  | .killed => true
  | _ => false

structure Process where
  pid : Nat
  pc : Pc
  locked : Bool
  deriving DecidableEq, Repr

structure State where
  processes : List Process
  lockFile : List Char
  deriving DecidableEq, Repr

inductive Event
  /-- `daemonize` returns or exits. -/
  | daemonized (i : Nat) (ok : Bool)
  | opened (i : Nat) (ok : Bool)
  | flocked (i : Nat) (outcome : Flock)
  | truncated (i : Nat)
  | written (i : Nat)
  /-- The signal mask and the thread that waits for signals. -/
  | setUp (i : Nat) (ok : Bool)
  /-- `thr_fn` receives a `SIGTERM`. -/
  | sigterm (i : Nat)
  /-- The process dies of a signal. -/
  | killed (i : Nat)
  deriving DecidableEq, Repr

/-- What `already_running` writes: the process id and the final zero. -/
def Process.text (process : Process) : List Char :=
  Nat.toDigits 10 process.pid ++ [Char.ofNat 0]

/-- The process goes on, with or without a result of zero. -/
def Process.proceed (process : Process) (ok : Bool) (pc : Pc) : Process :=
  if ok then { process with pc := pc }
  else { process with pc := .exited 1, locked := false }

def State.set (state : State) (i : Nat) (process : Process) : State :=
  { state with processes := state.processes.set i process }

/-- Some process has locked the file. -/
def State.isLocked (state : State) : Prop :=
  ∃ process ∈ state.processes, process.locked = true

instance (state : State) : Decidable state.isLocked :=
  inferInstanceAs (Decidable (∃ process ∈ state.processes, process.locked = true))

/-- The next call of process `i`, which is at `pc`. -/
def State.at (state : State) (i : Nat) (pc : Pc) (next : Process → Option State) :
    Option State :=
  state.processes[i]?.bind fun process => if process.pc = pc then next process else none

def step (state : State) : Event → Option State
  | .daemonized i ok => state.at i .daemonize fun process =>
      some (state.set i (process.proceed ok .openFile))
  | .opened i ok => state.at i .openFile fun process =>
      some (state.set i (process.proceed ok .flock))
  | .flocked i outcome => state.at i .flock fun process =>
      match outcome with
      | .locked =>
          if state.isLocked then none
          else some (state.set i { process with pc := .ftruncate, locked := true })
      | .wouldBlock =>
          if state.isLocked then some (state.set i { process with pc := .exited 1 })
          else none
      -- only `EWOULDBLOCK` is looked at
      | .failed => some (state.set i { process with pc := .ftruncate })
  | .truncated i => state.at i .ftruncate fun process =>
      some { state.set i { process with pc := .write } with lockFile := [] }
  | .written i => state.at i .write fun process =>
      some { state.set i { process with pc := .setUp } with
        lockFile := OpenFiles.writeAt (Char.ofNat 0) state.lockFile 0 process.text }
  | .setUp i ok => state.at i .setUp fun process =>
      some (state.set i (process.proceed ok .running))
  | .sigterm i => state.at i .running fun process =>
      some (state.set i { process with pc := .exited 0, locked := false })
  | .killed i => state.processes[i]?.bind fun process =>
      if process.pc.ended then none
      else some (state.set i { process with pc := .killed, locked := false })

def Process.initial (pid : Nat) : Process := ⟨pid, .daemonize, false⟩

/-- The lock file as earlier daemons have left it. -/
def State.initial (pids : List Nat) (lockFile : List Char) : State :=
  ⟨pids.map .initial, lockFile⟩

/-- The process has come past `flock` and has not ended. -/
def Pc.past : Pc → Bool
  | .ftruncate => true
  | .write => true
  | .setUp => true
  | .running => true
  | _ => false

/-- The process has written its process id and has not ended. -/
def Pc.named : Pc → Bool
  | .setUp => true
  | .running => true
  | _ => false

def Process.past (process : Process) : Bool := process.pc.past

def Process.named (process : Process) : Bool := process.pc.named

def Process.running (process : Process) : Bool := process.pc = .running

/-- `flock` fails otherwise than by `EWOULDBLOCK`. -/
def Event.odd : Event → Bool
  | .flocked _ .failed => true
  | _ => false

variable {pids : List Nat} {lockFile : List Char} {state next : State} {i : Nat}
  {process after : Process} {event : Event} {events : List Event} {pc : Pc}

/-! ## Steps -/

theorem at_eq_some {call : Process → Option State}
    (hstep : state.at i pc call = some next) :
    ∃ process, state.processes[i]? = some process ∧ process.pc = pc ∧
      call process = some next := by
  obtain ⟨process, hi, hcall⟩ := Option.bind_eq_some_iff.mp hstep
  by_cases hpc : process.pc = pc
  · rw [if_pos hpc] at hcall
    exact ⟨process, hi, hpc, hcall⟩
  · rw [if_neg hpc] at hcall
    contradiction

theorem at_of_pc {call : Process → Option State} (hi : state.processes[i]? = some process)
    (hpc : process.pc = pc) : state.at i pc call = call process := by
  unfold State.at
  rw [hi, Option.bind_some, if_pos hpc]

/-- What a step makes of the process that takes it, and of the file. -/
inductive Change (state : State) (event : Event) (process : Process) :
    Process → List Char → Prop
  | goesOn (pc : Pc) (hpast : pc.past = process.pc.past)
      (hnamed : pc.named = process.pc.named) (hwrite : pc ≠ .write) :
      Change state event process { process with pc := pc } state.lockFile
  | locks (hfree : ¬ state.isLocked) (hpc : process.pc = .flock) :
      Change state event process { process with pc := .ftruncate, locked := true }
        state.lockFile
  | slipsIn (hodd : event.odd = true) (hpc : process.pc = .flock) :
      Change state event process { process with pc := .ftruncate } state.lockFile
  | truncates (hpc : process.pc = .ftruncate) :
      Change state event process { process with pc := .write } []
  | writes (hpc : process.pc = .write) :
      Change state event process { process with pc := .setUp }
        (OpenFiles.writeAt (Char.ofNat 0) state.lockFile 0 process.text)
  | ends (pc : Pc) (hpast : pc.past = false) :
      Change state event process { process with pc := pc, locked := false }
        state.lockFile

theorem change_proceed {ok : Bool} (hpast : pc.past = process.pc.past)
    (hnamed : pc.named = process.pc.named) (hwrite : pc ≠ .write) :
    Change state event process (process.proceed ok pc) state.lockFile := by
  cases ok with
  | true => exact Change.goesOn pc hpast hnamed hwrite
  | false => exact Change.ends (.exited 1) rfl

/-- Every step changes one process. -/
theorem step_change (hstep : step state event = some next) :
    ∃ i process after lockFile, state.processes[i]? = some process ∧
      Change state event process after lockFile ∧
      next = ⟨state.processes.set i after, lockFile⟩ := by
  cases event with
  | daemonized i ok =>
      obtain ⟨process, hi, hpc, hcall⟩ := at_eq_some hstep
      rw [Option.some.injEq] at hcall
      refine ⟨i, process, _, _, hi, ?_, hcall.symm⟩
      exact change_proceed (by rw [hpc]; rfl) (by rw [hpc]; rfl) nofun
  | opened i ok =>
      obtain ⟨process, hi, hpc, hcall⟩ := at_eq_some hstep
      rw [Option.some.injEq] at hcall
      refine ⟨i, process, _, _, hi, ?_, hcall.symm⟩
      exact change_proceed (by rw [hpc]; rfl) (by rw [hpc]; rfl) nofun
  | flocked i outcome =>
      obtain ⟨process, hi, hpc, hcall⟩ := at_eq_some hstep
      cases outcome with
      | locked =>
          by_cases hlocked : state.isLocked
          · simp only [hlocked, if_true] at hcall
            contradiction
          · simp only [hlocked, if_false, Option.some.injEq] at hcall
            exact ⟨i, process, _, _, hi, Change.locks hlocked hpc, hcall.symm⟩
      | wouldBlock =>
          by_cases hlocked : state.isLocked
          · simp only [hlocked, if_true, Option.some.injEq] at hcall
            refine ⟨i, process, _, _, hi, ?_, hcall.symm⟩
            exact Change.goesOn (.exited 1) (by rw [hpc]; rfl) (by rw [hpc]; rfl) nofun
          · simp only [hlocked, if_false] at hcall
            contradiction
      | failed =>
          rw [Option.some.injEq] at hcall
          exact ⟨i, process, _, _, hi, Change.slipsIn rfl hpc, hcall.symm⟩
  | truncated i =>
      obtain ⟨process, hi, hpc, hcall⟩ := at_eq_some hstep
      rw [Option.some.injEq] at hcall
      exact ⟨i, process, _, _, hi, Change.truncates hpc, hcall.symm⟩
  | written i =>
      obtain ⟨process, hi, hpc, hcall⟩ := at_eq_some hstep
      rw [Option.some.injEq] at hcall
      exact ⟨i, process, _, _, hi, Change.writes hpc, hcall.symm⟩
  | setUp i ok =>
      obtain ⟨process, hi, hpc, hcall⟩ := at_eq_some hstep
      rw [Option.some.injEq] at hcall
      refine ⟨i, process, _, _, hi, ?_, hcall.symm⟩
      exact change_proceed (by rw [hpc]; rfl) (by rw [hpc]; rfl) nofun
  | sigterm i =>
      obtain ⟨process, hi, hpc, hcall⟩ := at_eq_some hstep
      rw [Option.some.injEq] at hcall
      exact ⟨i, process, _, _, hi, Change.ends (.exited 0) rfl, hcall.symm⟩
  | killed i =>
      obtain ⟨process, hi, hcall⟩ := Option.bind_eq_some_iff.mp hstep
      by_cases hended : process.pc.ended
      · rw [if_pos hended] at hcall
        contradiction
      · rw [if_neg hended, Option.some.injEq] at hcall
        exact ⟨i, process, _, _, hi, Change.ends .killed rfl, hcall.symm⟩

/-! ## The number of daemons -/

/-- The invariant after `odd` failures of `flock`. -/
structure Inv (odd : Nat) (state : State) : Prop where
  locked_le : state.processes.countP Process.locked ≤ 1
  locked_past : ∀ (i : Nat) (process : Process), state.processes[i]? = some process →
    process.locked = true → process.past = true
  past_le : state.processes.countP Process.past ≤
    state.processes.countP Process.locked + odd

theorem Inv.not_locked {odd : Nat} (hinv : Inv odd state)
    (hi : state.processes[i]? = some process) (hpc : process.pc = .flock) :
    process.locked = false := by
  by_contra hlocked
  have hpast := hinv.locked_past i process hi (by simpa using hlocked)
  rw [Process.past, hpc] at hpast
  contradiction

/-- The property of every process survives a step that gives it to the process
that moves. -/
theorem forall_set {p : Process → Prop} {processes : List Process}
    (hothers : ∀ j other, j ≠ i → processes[j]? = some other → p other)
    (hafter : p after) :
    ∀ (j : Nat) (other : Process),
      (processes.set i after)[j]? = some other → p other := by
  intro j other hj
  rcases set_cases hj with ⟨-, rfl⟩ | ⟨hne, hj⟩
  · exact hafter
  · exact hothers j other hne hj

theorem not_isLocked (hfree : ¬ state.isLocked) :
    state.processes.countP Process.locked = 0 := by
  rw [List.countP_eq_zero]
  intro process hmem hlocked
  exact hfree ⟨process, hmem, hlocked⟩

theorem Inv.step {odd : Nat} (hinv : Inv odd state) (hstep : step state event = some next) :
    Inv (odd + if event.odd then 1 else 0) next := by
  obtain ⟨i, process, after, lockFile, hi, hchange, rfl⟩ := step_change hstep
  have hlocked_le := hinv.locked_le
  have hpast_le := hinv.past_le
  have hodd : odd ≤ odd + if event.odd then 1 else 0 := Nat.le_add_right _ _
  have hothers (j : Nat) (other : Process) (_ : j ≠ i)
      (hj : state.processes[j]? = some other) : other.locked = true → other.past = true :=
    hinv.locked_past j other hj
  have hown := hinv.locked_past i process hi
  -- a process that stays on its side of `flock`
  have hstays {pc : Pc} (hpast : pc.past = process.pc.past) (lockFile : List Char) :
      Inv (odd + if event.odd then 1 else 0)
        ⟨state.processes.set i { process with pc := pc }, lockFile⟩ := by
    have hpasts := @countP_set_same _ _ i process { process with pc := pc }
      Process.past hi hpast
    have hlocks := @countP_set_same _ _ i process { process with pc := pc }
      Process.locked hi rfl
    constructor
    · exact hlocks.trans_le hlocked_le
    · exact forall_set hothers fun h => hpast.trans (hown h)
    · dsimp only
      omega
  cases hchange with
  | goesOn pc hpast hnamed hwrite => exact hstays hpast state.lockFile
  | locks hfree hpc =>
      have hzero := not_isLocked hfree
      have hpasts := @countP_set_enter _ _ i process
        { process with pc := .ftruncate, locked := true } Process.past hi
        (by rw [Process.past, hpc]; rfl) rfl
      have hlocks := @countP_set_enter _ _ i process
        { process with pc := .ftruncate, locked := true } Process.locked hi
        (hinv.not_locked hi hpc) rfl
      constructor
      · dsimp only
        omega
      · exact forall_set hothers fun _ => rfl
      · dsimp only
        omega
  | slipsIn hslips hpc =>
      have hpasts := @countP_set_enter _ _ i process { process with pc := .ftruncate }
        Process.past hi (by rw [Process.past, hpc]; rfl) rfl
      have hlocks := @countP_set_same _ _ i process { process with pc := .ftruncate }
        Process.locked hi rfl
      rw [if_pos hslips]
      constructor
      · dsimp only
        omega
      · exact forall_set hothers fun _ => rfl
      · dsimp only
        omega
  | truncates hpc => exact hstays (by rw [hpc]; rfl) []
  | writes hpc => exact hstays (by rw [hpc]; rfl) _
  | ends pc hpast =>
      have hafter : ∀ (p : Process → Bool),
          p { process with pc := pc, locked := false } = false →
          (state.processes.set i { process with pc := pc, locked := false }).countP p +
            (if p process then 1 else 0) = state.processes.countP p := by
        intro p hp
        cases hbefore : p process with
        | false => simp [countP_set_same hi (hp.trans hbefore.symm)]
        | true => simpa using countP_set_leave hi hbefore hp
      have hpasts := hafter Process.past hpast
      have hlocks := hafter Process.locked rfl
      constructor
      · dsimp only
        omega
      · exact forall_set hothers nofun
      · dsimp only
        cases hlocked : process.locked with
        | false =>
            rw [hlocked] at hlocks
            simp only [Bool.false_eq_true, if_false] at hlocks
            omega
        | true =>
            rw [hlocked] at hlocks
            rw [hown hlocked] at hpasts
            simp only [if_true] at hlocks hpasts
            omega

theorem Inv.initial (pids : List Nat) (lockFile : List Char) :
    Inv 0 (State.initial pids lockFile) := by
  have hinitial : ∀ process ∈ pids.map Process.initial,
      process.locked = false ∧ process.past = false := by
    intro process hprocess
    obtain ⟨pid, -, rfl⟩ := List.mem_map.mp hprocess
    exact ⟨rfl, rfl⟩
  have hlocked : (pids.map Process.initial).countP Process.locked = 0 := by
    rw [List.countP_eq_zero]
    intro process hprocess
    simp [(hinitial process hprocess).1]
  have hpast : (pids.map Process.initial).countP Process.past = 0 := by
    rw [List.countP_eq_zero]
    intro process hprocess
    simp [(hinitial process hprocess).2]
  constructor
  · exact hlocked.le.trans (Nat.zero_le 1)
  · intro i process hi hprocess
    rw [(hinitial process (List.mem_of_getElem? hi)).1] at hprocess
    contradiction
  · exact hpast.le.trans (Nat.zero_le _)

/-! ## What the file says -/

/-- As long as `flock` has not failed: who is past it has the lock, and the file
is what it has made of it. -/
structure Named (state : State) : Prop where
  locked : ∀ (i : Nat) (process : Process), state.processes[i]? = some process →
    process.past = true → process.locked = true
  writing : ∀ (i : Nat) (process : Process), state.processes[i]? = some process →
    process.pc = .write → state.lockFile = []
  named : ∀ (i : Nat) (process : Process), state.processes[i]? = some process →
    process.named = true → state.lockFile = process.text

theorem Process.past_of_named (hnamed : process.named = true) : process.past = true := by
  unfold Process.named Pc.named at hnamed
  unfold Process.past Pc.past
  split at hnamed <;> simp_all

theorem Process.past_of_write (hpc : process.pc = .write) : process.past = true := by
  rw [Process.past, hpc]
  rfl

/-- Nobody else is past the lock. -/
theorem Named.alone (hnamed : Named state) (hinv : Inv 0 state)
    (hi : state.processes[i]? = some process) (hpast : process.past = true) {j : Nat}
    {other : Process} (hne : j ≠ i) (hj : state.processes[j]? = some other) :
    other.past = false := by
  by_contra hother
  exact hne (index_unique hinv.locked_le hj hi
    (hnamed.locked j other hj (by simpa using hother)) (hnamed.locked i process hi hpast))

theorem Named.step (hnamed : Named state) (hinv : Inv 0 state) (hodd : event.odd = false)
    (hstep : Daemon.step state event = some next) : Named next := by
  obtain ⟨i, process, after, lockFile, hi, hchange, rfl⟩ := step_change hstep
  have hlocked (j : Nat) (other : Process) (_ : j ≠ i)
      (hj : state.processes[j]? = some other) : other.past = true → other.locked = true :=
    hnamed.locked j other hj
  have hwriting (j : Nat) (other : Process) (_ : j ≠ i)
      (hj : state.processes[j]? = some other) : other.pc = .write → state.lockFile = [] :=
    hnamed.writing j other hj
  have hname (j : Nat) (other : Process) (_ : j ≠ i)
      (hj : state.processes[j]? = some other) :
      other.named = true → state.lockFile = other.text :=
    hnamed.named j other hj
  cases hchange with
  | goesOn pc hpast hkeeps hwrite =>
      constructor
      · exact forall_set hlocked fun h => hnamed.locked i process hi (hpast.symm.trans h)
      · exact forall_set hwriting fun h => absurd h hwrite
      · exact forall_set hname fun h => hnamed.named i process hi (hkeeps.symm.trans h)
  | locks hfree hpc =>
      constructor
      · exact forall_set hlocked fun _ => rfl
      · exact forall_set hwriting nofun
      · exact forall_set hname nofun
  | slipsIn hslips hpc =>
      rw [hodd] at hslips
      contradiction
  | truncates hpc =>
      have hpast : process.past = true := by
        rw [Process.past, hpc]
        rfl
      constructor
      · exact forall_set hlocked fun _ => hnamed.locked i process hi hpast
      · exact fun _ _ _ _ => rfl
      · apply forall_set
        · intro j other hne hj hother
          have hnot := hnamed.alone hinv hi hpast hne hj
          rw [Process.past_of_named hother] at hnot
          contradiction
        · nofun
  | writes hpc =>
      have hpast := Process.past_of_write hpc
      constructor
      · exact forall_set hlocked fun _ => hnamed.locked i process hi hpast
      · apply forall_set
        · intro j other hne hj hother
          have hnot := hnamed.alone hinv hi hpast hne hj
          rw [Process.past_of_write hother] at hnot
          contradiction
        · nofun
      · apply forall_set
        · intro j other hne hj hother
          have hnot := hnamed.alone hinv hi hpast hne hj
          rw [Process.past_of_named hother] at hnot
          contradiction
        · intro _
          dsimp only
          rw [hnamed.writing i process hi hpc, OpenFiles.writeAt_zero, List.drop_nil,
            List.append_nil]
          rfl
  | ends pc hpast =>
      constructor
      · exact forall_set hlocked fun h => absurd (hpast.symm.trans h) nofun
      · exact forall_set hwriting fun h =>
          absurd (hpast.symm.trans (Process.past_of_write h)) nofun
      · exact forall_set hname fun h =>
          absurd (hpast.symm.trans (Process.past_of_named h)) nofun

theorem Named.initial (pids : List Nat) (lockFile : List Char) :
    Named (State.initial pids lockFile) := by
  have hinitial : ∀ (i : Nat) (process : Process),
      (pids.map Process.initial)[i]? = some process → process.pc = .daemonize := by
    intro i process hi
    obtain ⟨pid, -, rfl⟩ := List.mem_map.mp (List.mem_of_getElem? hi)
    rfl
  constructor
  · intro i process hi hpast
    rw [Process.past, hinitial i process hi] at hpast
    contradiction
  · intro i process hi hpc
    rw [hinitial i process hi] at hpc
    contradiction
  · intro i process hi hpast
    rw [Process.named, hinitial i process hi] at hpast
    contradiction

theorem named_of_run (hrun : Library.run Daemon.step (State.initial pids lockFile) events =
      some state) (hodd : events.countP Event.odd = 0) : Named state := by
  have hevents : ∀ event ∈ events, event.odd = false := by
    intro event hevent
    simpa using List.countP_eq_zero.mp hodd event hevent
  have hguarded := GuardedRun.of_run hrun hevents
  have hboth : Inv 0 state ∧ Named state := by
    apply @GuardedRun.invariant _ _ _ _ (fun state => Inv 0 state ∧ Named state) _ _ _ _
      hguarded ⟨Inv.initial pids lockFile, Named.initial pids lockFile⟩
    rintro state event next ⟨hinv, hnamed⟩ hstep hguard
    have hnext := hinv.step hstep
    rw [if_neg (by simp [hguard])] at hnext
    exact ⟨hnext, hnamed.step hinv hguard hstep⟩
  exact hboth.2

/-! ## Daemons that slip in -/

/-- An invocation that becomes a daemon. -/
def startEvents (i : Nat) (outcome : Flock) : List Event :=
  [.daemonized i true, .opened i true, .flocked i outcome, .truncated i, .written i,
    .setUp i true]

section Starting

variable (front back : List Process) (process after : Process) (lockFile : List Char)

theorem middle : (front ++ process :: back)[front.length]? = some process := by
  rw [List.getElem?_append_right (le_refl _), Nat.sub_self, List.getElem?_cons_zero]

theorem set_middle : (State.mk (front ++ process :: back) lockFile).set front.length after =
    ⟨front ++ after :: back, lockFile⟩ := by
  unfold State.set
  rw [List.set_append_right _ _ (le_refl _), Nat.sub_self, List.set_cons_zero]

end Starting

/-- An invocation becomes a daemon when nobody has the lock or its `flock`
fails. -/
theorem run_start {front back : List Process} (pid : Nat) (lockFile : List Char)
    {outcome : Flock}
    (houtcome : outcome = .failed ∨ outcome = .locked ∧
      ∀ process ∈ front ++ back, process.locked = false) :
    ∃ lockFile', Library.run step ⟨front ++ Process.initial pid :: back, lockFile⟩
      (startEvents front.length outcome) =
        some ⟨front ++ ⟨pid, .running, outcome = .locked⟩ :: back, lockFile'⟩ := by
  let state (pc : Pc) (locked : Bool) (lockFile : List Char) : State :=
    ⟨front ++ ⟨pid, pc, locked⟩ :: back, lockFile⟩
  have hset (pc pc' : Pc) (locked locked' : Bool) (lockFile : List Char) :
      (state pc locked lockFile).set front.length ⟨pid, pc', locked'⟩ =
        state pc' locked' lockFile :=
    set_middle front back ⟨pid, pc, locked⟩ ⟨pid, pc', locked'⟩ lockFile
  have hat (pc : Pc) (locked : Bool) (lockFile : List Char)
      (call : Process → Option State) :
      (state pc locked lockFile).at front.length pc call = call ⟨pid, pc, locked⟩ :=
    at_of_pc (middle front back ⟨pid, pc, locked⟩) rfl
  have hdaemonize : step (state .daemonize false lockFile) (.daemonized front.length true) =
      some (state .openFile false lockFile) :=
    (hat _ _ _ _).trans (congrArg some (hset _ _ _ _ _))
  have hopen : step (state .openFile false lockFile) (.opened front.length true) =
      some (state .flock false lockFile) :=
    (hat _ _ _ _).trans (congrArg some (hset _ _ _ _ _))
  have hflock : step (state .flock false lockFile) (.flocked front.length outcome) =
      some (state .ftruncate (outcome = .locked) lockFile) := by
    refine (hat _ _ _ _).trans ?_
    rcases houtcome with rfl | ⟨rfl, hfree⟩
    · exact congrArg some (hset _ _ _ _ _)
    · have hnot : ¬ (state .flock false lockFile).isLocked := by
        rintro ⟨process, hprocess, hlocked⟩
        rcases List.mem_append.mp hprocess with hfront | hback
        · rw [hfree process (List.mem_append_left back hfront)] at hlocked
          contradiction
        · rcases List.mem_cons.mp hback with rfl | hback
          · contradiction
          · rw [hfree process (List.mem_append_right front hback)] at hlocked
            contradiction
      dsimp only
      rw [if_neg hnot]
      exact congrArg some (hset _ _ _ _ _)
  have htruncate : step (state .ftruncate (outcome = .locked) lockFile)
      (.truncated front.length) = some (state .write (outcome = .locked) []) :=
    (hat _ _ _ _).trans
      (congrArg (fun state : State => some { state with lockFile := [] }) (hset _ _ _ _ _))
  let written : List Char := OpenFiles.writeAt (Char.ofNat 0) [] 0
    (Process.text ⟨pid, .write, outcome = .locked⟩)
  have hwrite : step (state .write (outcome = .locked) []) (.written front.length) =
      some (state .setUp (outcome = .locked) written) :=
    (hat _ _ _ _).trans
      (congrArg (fun state : State => some { state with lockFile := written })
        (hset _ _ _ _ _))
  have hsetUp : step (state .setUp (outcome = .locked) written) (.setUp front.length true) =
      some (state .running (outcome = .locked) written) :=
    (hat _ _ _ _).trans (congrArg some (hset _ _ _ _ _))
  refine ⟨written, ?_⟩
  show Library.run step (state .daemonize false lockFile) _ =
    some (state .running (outcome = .locked) written)
  unfold startEvents
  simp only [run, hdaemonize, hopen, hflock, htruncate, hwrite, hsetUp, Option.bind_some]

/-- Invocations whose `flock` fails, one after the other. -/
theorem run_slip (back : List Process) (slipping : List Nat) (front : List Process)
    (lockFile : List Char) :
    ∃ events lockFile', Library.run step
        ⟨front ++ (slipping.map Process.initial ++ back), lockFile⟩ events =
          some ⟨front ++ (slipping.map (fun pid => ⟨pid, .running, false⟩) ++ back),
            lockFile'⟩ ∧
      events.countP Event.odd = slipping.length := by
  induction slipping generalizing front lockFile with
  | nil => exact ⟨[], lockFile, run_nil _, rfl⟩
  | cons pid slipping ih =>
      obtain ⟨written, hstart⟩ := @run_start front
        (slipping.map Process.initial ++ back) pid lockFile .failed (Or.inl rfl)
      obtain ⟨events, lockFile', hrun, hodd⟩ :=
        ih (front ++ [⟨pid, .running, false⟩]) written
      refine ⟨startEvents front.length .failed ++ events, lockFile', ?_, ?_⟩
      · rw [run_append]
        refine ⟨_, hstart, ?_⟩
        simpa using hrun
      · rw [List.countP_append, hodd, List.length_cons, Nat.add_comm]
        rfl

theorem exists_daemons {pid : Nat} {more : List Nat} (lockFile : List Char) {odd : Nat}
    (hodd : odd ≤ more.length) :
    ∃ events state, Library.run step (State.initial (pid :: more) lockFile) events =
        some state ∧
      events.countP Event.odd = odd ∧
        state.processes.countP Process.running = odd + 1 := by
  have hnone : ∀ process ∈ [] ++ more.map Process.initial, process.locked = false := by
    intro process hprocess
    obtain ⟨pid, -, rfl⟩ := List.mem_map.mp hprocess
    rfl
  obtain ⟨written, hstart⟩ := @run_start [] (more.map Process.initial) pid lockFile
    .locked (Or.inr ⟨rfl, hnone⟩)
  obtain ⟨events, lockFile', hrun, hcount⟩ :=
    run_slip ((more.drop odd).map Process.initial) (more.take odd)
      [⟨pid, .running, true⟩] written
  have hsplit : (more.take odd).map Process.initial ++ (more.drop odd).map Process.initial =
      more.map Process.initial := by
    rw [← List.map_append, List.take_append_drop]
  rw [hsplit] at hrun
  refine ⟨startEvents 0 .locked ++ events, _,
    run_append.mpr ⟨_, hstart, hrun⟩, ?_, ?_⟩
  · rw [List.countP_append, hcount, List.length_take, min_eq_left hodd]
    exact Nat.zero_add odd
  · have hrest : ((more.drop odd).map Process.initial).countP
        Process.running = 0 := by
      rw [List.countP_eq_zero]
      intro process hprocess
      obtain ⟨pid, -, rfl⟩ := List.mem_map.mp hprocess
      exact Bool.false_ne_true
    have hslipped : ((more.take odd).map fun pid => Process.mk pid .running false).countP
        Process.running = odd := by
      rw [List.countP_map]
      exact (List.countP_eq_length.mpr fun _ _ => rfl).trans
        (List.length_take.trans (min_eq_left hodd))
    show List.countP Process.running ([⟨pid, .running, true⟩] ++ (_ ++ _)) = odd + 1
    rw [List.countP_append, List.countP_append, hslipped, hrest, Nat.add_comm]
    rfl

/-- When nobody is past the lock, any invocation that is still to come can become
the daemon. -/
theorem exists_restart {odd : Nat} (hinv : Inv odd state)
    (hnone : state.processes.countP Process.past = 0)
    (hi : state.processes[i]? = some process) (hpc : process.pc = .daemonize) :
    ∃ events next, Library.run step state events = some next ∧
      events.countP Event.odd = 0 ∧
        ∃ daemon : Process, next.processes[i]? = some daemon ∧
          daemon.pid = process.pid ∧ daemon.running = true := by
  obtain ⟨hlt, hget⟩ := List.getElem?_eq_some_iff.mp hi
  have hfree : ∀ other ∈ state.processes, other.locked = false := by
    intro other hother
    obtain ⟨j, hj⟩ := List.mem_iff_getElem?.mp hother
    by_contra hlocked
    have hpast := hinv.locked_past j other hj (by simpa using hlocked)
    rw [not_of_countP_zero hnone hj] at hpast
    contradiction
  have hprocess : process = Process.initial process.pid := by
    have hlocked := hfree process (List.mem_of_getElem? hi)
    cases process
    simp_all [Process.initial]
  have hlength : (state.processes.take i).length = i := by
    rw [List.length_take]
    omega
  have hsplit : state.processes =
      state.processes.take i ++
        Process.initial process.pid :: state.processes.drop (i + 1) := by
    rw [← hprocess, ← hget, List.getElem_cons_drop hlt, List.take_append_drop]
  obtain ⟨written, hstart⟩ := @run_start (state.processes.take i)
    (state.processes.drop (i + 1)) process.pid state.lockFile .locked (Or.inr ⟨rfl, by
      intro other hother
      rcases List.mem_append.mp hother with hother | hother
      · exact hfree other (List.mem_of_mem_take hother)
      · exact hfree other (List.mem_of_mem_drop hother)⟩)
  rw [← hsplit] at hstart
  refine ⟨_, _, hstart, rfl, ⟨process.pid, .running, true⟩, ?_, rfl, rfl⟩
  have hmiddle := middle (state.processes.take i) (state.processes.drop (i + 1))
    ⟨process.pid, .running, true⟩
  rw [hlength] at hmiddle
  exact hmiddle

/-- Any invocations of the daemon, interleaved and killed in any way: there are at
most as many daemons past the lock as `flock` has failed, and one more; without
failures the file holds the process id of the daemon; and after a daemon has
ended another one can start.  Each failure can add a daemon. -/
theorem daemons_counted (pids : List Nat) (lockFile : List Char) :
    (∀ events state,
      Library.run step (State.initial pids lockFile) events = some state →
      state.processes.countP Process.past ≤ events.countP Event.odd + 1 ∧
        (events.countP Event.odd = 0 → ∀ process ∈ state.processes,
          process.named = true → state.lockFile = process.text) ∧
        (state.processes.countP Process.past = 0 → ∀ (i : Nat) (process : Process),
          state.processes[i]? = some process → process.pc = .daemonize →
            ∃ more next, Library.run step state more = some next ∧
              more.countP Event.odd = 0 ∧
                ∃ daemon : Process, next.processes[i]? = some daemon ∧
                  daemon.pid = process.pid ∧ daemon.running = true)) ∧
    ∀ odd < pids.length, ∃ events state,
      Library.run step (State.initial pids lockFile) events = some state ∧
        events.countP Event.odd = odd ∧
          state.processes.countP Process.running = odd + 1 := by
  constructor
  · intro events state hrun
    have hinv := @run_count _ _ step Inv Event.odd
      (fun _ _ _ _ hinv hstep => hinv.step hstep) _ _ _ _ (Inv.initial pids lockFile)
      hrun
    have hlocked := hinv.locked_le
    have hpast := hinv.past_le
    refine ⟨by omega, ?_, ?_⟩
    · intro hodd process hprocess hnamed
      obtain ⟨i, hi⟩ := List.mem_iff_getElem?.mp hprocess
      exact (named_of_run hrun hodd).named i process hi hnamed
    · intro hnone i process hi hpc
      exact exists_restart hinv hnone hi hpc
  · intro odd hodd
    cases pids with
    | nil => contradiction
    | cons pid more => exact exists_daemons lockFile (Nat.le_of_lt_succ hodd)

end Daemon
end OsStuff
