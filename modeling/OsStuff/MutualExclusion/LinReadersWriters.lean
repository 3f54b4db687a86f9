import OsStuff.Library.Processes
import OsStuff.Library.Run
import OsStuff.Library.Semaphores

/-!
# `lin_readers_writers.c`

Writer and reader processes share one `int` and a set of four semaphores.  A
state is the semaphores, the shared value and the local state of every process;
an event is the next step of one process or a `SIGINT` delivered to it.  Each
`semop` is one step, and the increment of the shared value is a load and a
store.

`written` and `output` are not part of the program's memory: they count the
completed sections of writers and collect what was printed.
-/

namespace OsStuff
namespace MutualExclusion
namespace LinReadersWriters

open Library Library.Semaphores

/-- The semaphores of the set. -/
inductive Semaphore
  | activeReaders
  | activeWriters
  | waitReaders
  | waitWriters
  deriving DecidableEq, Repr

def startWrite : List (Sembuf Semaphore) :=
  [⟨.waitWriters, 1⟩, ⟨.activeReaders, 0⟩, ⟨.activeWriters, 0⟩,
    ⟨.activeWriters, 1⟩, ⟨.waitWriters, -1⟩]

def stopWrite : List (Sembuf Semaphore) :=
  [⟨.activeWriters, -1⟩]

def startRead : List (Sembuf Semaphore) :=
  [⟨.waitReaders, 1⟩, ⟨.activeWriters, 0⟩, ⟨.waitWriters, 0⟩,
    ⟨.activeReaders, 1⟩, ⟨.waitReaders, -1⟩]

def stopRead : List (Sembuf Semaphore) :=
  [⟨.activeReaders, -1⟩]

/-- Whether a process runs `writer` or `reader`. -/
inductive Role
  | writer
  | reader
  deriving DecidableEq, Repr

def Role.start : Role → List (Sembuf Semaphore)
  | .writer => startWrite
  | .reader => startRead

def Role.stop : Role → List (Sembuf Semaphore)
  | .writer => stopWrite
  | .reader => stopRead

/-- What a process does next.  In `start` and `stop` the flag tells whether the
process is blocked in the call of `semop`. -/
inductive Pc
  | loop
  | start (blocked : Bool)
  | load
  | store (value : BitVec 32)
  | print
  | stop (blocked : Bool)
  | sleep
  | exited
  deriving DecidableEq, Repr

/-- The first statement after the semaphores have been taken. -/
def Role.enter : Role → Pc
  | .writer => .load
  | .reader => .print

structure Process where
  role : Role
  pc : Pc
  sigStatus : Bool
  deriving DecidableEq, Repr

/-- A line of output: who printed it and the value in it. -/
structure Line where
  role : Role
  id : Nat
  value : BitVec 32
  deriving DecidableEq, Repr

structure State where
  semaphores : Semaphore → Nat
  shm : BitVec 32
  processes : List Process
  written : Nat
  output : List Line

/-- The state with process `i` replaced. -/
def State.set (state : State) (i : Nat) (process : Process) : State :=
  { state with processes := state.processes.set i process }

/-- The next step of process `i`, or `none` when it is blocked or gone. -/
def advance (state : State) (i : Nat) (process : Process) : Option State :=
  match process.pc with
  | .loop =>
      if process.sigStatus then some (state.set i { process with pc := .exited })
      else some (state.set i { process with pc := .start false })
  | .start blocked =>
      match semop state.semaphores process.role.start with
      | some semaphores =>
          some { state.set i { process with pc := process.role.enter } with
            semaphores := semaphores }
      | none =>
          if blocked then none
          else some (state.set i { process with pc := .start true })
  | .load => some (state.set i { process with pc := .store state.shm })
  | .store value =>
      some { state.set i { process with pc := .print } with shm := value + 1 }
  | .print =>
      some { state.set i { process with pc := .stop false } with
        output := state.output ++ [⟨process.role, i, state.shm⟩] }
  | .stop blocked =>
      match semop state.semaphores process.role.stop with
      | some semaphores =>
          some { state.set i { process with pc := .sleep } with
            semaphores := semaphores
            written := match process.role with
              | .writer => state.written + 1
              | .reader => state.written }
      | none =>
          if blocked then none
          else some (state.set i { process with pc := .stop true })
  | .sleep => some (state.set i { process with pc := .loop })
  | .exited => none

/-- A `SIGINT` for process `i`.  It ends a blocked `semop` with an error, on
which the process exits; otherwise only the handler runs. -/
def interrupt (state : State) (i : Nat) (process : Process) : Option State :=
  match process.pc with
  | .start true => some (state.set i { process with pc := .exited })
  | .stop true => some (state.set i { process with pc := .exited })
  | .exited => none
  | _ => some (state.set i { process with sigStatus := true })

inductive Event
  | run (i : Nat)
  | sigint (i : Nat)
  deriving DecidableEq, Repr

def step (state : State) : Event → Option State
  | .run i => state.processes[i]?.bind fun process => advance state i process
  | .sigint i => state.processes[i]?.bind fun process => interrupt state i process

/-- The semaphores after `semctl`: all zero but `WAIT_READERS`. -/
def initialSemaphores : Semaphore → Nat
  | .waitReaders => 1
  | _ => 0

/-- The state after the processes have been forked. -/
def State.initial (roles : List Role) (value : BitVec 32) : State where
  semaphores := initialSemaphores
  shm := value
  processes := roles.map fun role => ⟨role, .loop, false⟩
  written := 0
  output := []

/-! ## Sections -/

/-- The process is past its `start` and has not completed its `stop`. -/
def Pc.within : Pc → Bool
  | .loop => false
  | .start _ => false
  | .load => true
  | .store _ => true
  | .print => true
  | .stop _ => true
  | .sleep => false
  | .exited => false

/-- The process is a writer or reader, as asked, in its section. -/
def Process.inside (role : Role) (process : Process) : Bool :=
  decide (process.role = role) && process.pc.within

/-- The number of processes in a section. -/
def State.inside (state : State) (role : Role) : Nat :=
  state.processes.countP (Process.inside role)

/-! ## The four batches -/

variable {values values' : Semaphore → Nat}

/-- `start_write` takes effect when no process is active. -/
theorem semop_startWrite :
    semop values startWrite = some values' ↔
      values .activeReaders = 0 ∧ values .activeWriters = 0 ∧
        values' = Function.update values .activeWriters 1 := by
  have hback : Function.update (Function.update (Function.update values
      .waitWriters (values .waitWriters + 1)) .activeWriters
        (values .activeWriters + 1)) .waitWriters (values .waitWriters) =
      Function.update values .activeWriters (values .activeWriters + 1) := by
    funext num
    cases num <;> simp [Function.update]
  by_cases hreaders : values .activeReaders = 0
  · by_cases hwriters : values .activeWriters = 0
    · simp [startWrite, hreaders, hwriters] at hback ⊢
      rw [hback]
      exact eq_comm
    · simp [startWrite, hreaders, hwriters]
  · simp [startWrite, hreaders]

/-- `start_read` takes effect when no writer is active and none is counted as
waiting. -/
theorem semop_startRead :
    semop values startRead = some values' ↔
      values .activeWriters = 0 ∧ values .waitWriters = 0 ∧
        values' = Function.update values .activeReaders
          (values .activeReaders + 1) := by
  have hback : Function.update (Function.update (Function.update values
      .waitReaders (values .waitReaders + 1)) .activeReaders
        (values .activeReaders + 1)) .waitReaders (values .waitReaders) =
      Function.update values .activeReaders (values .activeReaders + 1) := by
    funext num
    cases num <;> simp [Function.update]
  by_cases hwriters : values .activeWriters = 0
  · by_cases hwaiting : values .waitWriters = 0
    · simp [startRead, hwriters, hwaiting] at hback ⊢
      rw [hback]
      exact eq_comm
    · simp [startRead, hwriters, hwaiting]
  · simp [startRead, hwriters]

theorem semop_stopWrite :
    semop values stopWrite = some values' ↔
      1 ≤ values .activeWriters ∧
        values' = Function.update values .activeWriters
          (values .activeWriters - 1) := by
  by_cases hwriters : 1 ≤ values .activeWriters
  · simp [stopWrite, hwriters, eq_comm]
  · simp [stopWrite, hwriters]

theorem semop_stopRead :
    semop values stopRead = some values' ↔
      1 ≤ values .activeReaders ∧
        values' = Function.update values .activeReaders
          (values .activeReaders - 1) := by
  by_cases hreaders : 1 ≤ values .activeReaders
  · simp [stopRead, hreaders, eq_comm]
  · simp [stopRead, hreaders]

end LinReadersWriters
end MutualExclusion
end OsStuff
