import OsStuff.Library.Interleaving

/-!
# `win_reades_writers.c`

Writer and reader threads with a monitor made of a mutex, the events `canRead`
and `canWrite` and four shared variables.  Every statement and every call of an
event, mutex or interlocked function is one step; `Pc` constructors name the
statement that is next.

`value++` is taken to be one step, as an `inc` of the variable in memory on one
processor is; where it is a load and a store, two writers can lose an increment, and
readers that wait for the last value then go on for ever.

A thread that waits for the mutex has released it before, so that owning the
mutex twice does not occur and the owner is enough of a mutex.
-/

namespace OsStuff
namespace MutualExclusion
namespace WinReadersWriters

open Library Library.Interleaving Library.Processes

def iters : Nat := 4

/-- Whether a thread runs `writer` or `reader`. -/
inductive Role
  | writer
  | reader
  deriving DecidableEq, Repr

/-- A line of output: who printed it and the value in it. -/
structure Line where
  role : Role
  id : Nat
  value : BitVec 32
  deriving DecidableEq, Repr

/-- The mutex, the events and the variables of the program. -/
structure Shared where
  mutex : Option Nat
  canRead : Bool
  canWrite : Bool
  workingWriter : Bool
  waitingWriters : BitVec 32
  waitingReaders : BitVec 32
  activeReaders : BitVec 32
  value : BitVec 32
  output : List Line
  deriving DecidableEq, Repr

/-- The next statement of `writer` and the functions it calls. -/
inductive WriterPc
  | loop
  -- `startWrite`
  | incrementWaiting
  | test
  | wait
  | decrementWaiting
  | setWorking
  -- the section
  | incrementValue
  | print
  -- `stopWrite`
  | clearWorking
  | testWaiting
  | signalRead
  | signalWrite
  | sleep
  | returned
  deriving DecidableEq, Repr

/-- The next statement of `reader` and the functions it calls. -/
inductive ReaderPc
  | loop
  -- `startRead`
  | lock
  | incrementWaiting
  | test
  | wait
  | decrementWaiting
  | incrementActive
  | signal
  | unlock
  -- the section
  | print
  -- `stopRead`
  | decrementActive
  | testActive
  | signalWrite
  | resetRead
  | sleep
  | returned
  deriving DecidableEq, Repr

/-- A thread: its number among the threads of its kind, its loop counter and
where it is. -/
inductive Thread
  | writer (id : Nat) (i : Nat) (pc : WriterPc)
  | reader (id : Nat) (pc : ReaderPc)
  deriving DecidableEq, Repr

/-- `x > 0` for a `LONG`. -/
def positive (x : BitVec 32) : Bool :=
  (0 : BitVec 32).slt x

/-- One step of a writer. -/
def advanceWriter (shared : Shared) (id i : Nat) :
    WriterPc → Option (Shared × Thread)
  | .loop =>
      if i < iters then some (shared, .writer id i .incrementWaiting)
      else some (shared, .writer id i .returned)
  | .incrementWaiting =>
      some ({ shared with waitingWriters := shared.waitingWriters + 1 },
        .writer id i .test)
  | .test =>
      if shared.workingWriter || positive shared.activeReaders then
        some (shared, .writer id i .wait)
      else some (shared, .writer id i .decrementWaiting)
  | .wait =>
      -- `canWrite` is reset by hand: a wait leaves it signalled.
      if shared.canWrite then some (shared, .writer id i .decrementWaiting)
      else none
  | .decrementWaiting =>
      some ({ shared with waitingWriters := shared.waitingWriters - 1 },
        .writer id i .setWorking)
  | .setWorking =>
      some ({ shared with workingWriter := true },
        .writer id i .incrementValue)
  | .incrementValue =>
      some ({ shared with value := shared.value + 1 }, .writer id i .print)
  | .print =>
      some ({ shared with
          output := shared.output ++ [⟨.writer, id, shared.value⟩] },
        .writer id i .clearWorking)
  | .clearWorking =>
      some ({ shared with workingWriter := false }, .writer id i .testWaiting)
  | .testWaiting =>
      if positive shared.waitingReaders then
        some (shared, .writer id i .signalRead)
      else some (shared, .writer id i .signalWrite)
  | .signalRead =>
      some ({ shared with canRead := true }, .writer id i .sleep)
  | .signalWrite =>
      some ({ shared with canWrite := true }, .writer id i .sleep)
  | .sleep => some (shared, .writer id (i + 1) .loop)
  | .returned => none

/-- One step of a reader, thread `self`, where `W_CNT` is `writers`. -/
def advanceReader (writers : Nat) (self : Nat) (shared : Shared) (id : Nat) :
    ReaderPc → Option (Shared × Thread)
  | .loop =>
      if shared.value.slt (BitVec.ofNat 32 (writers * iters)) then
        some (shared, .reader id .lock)
      else some (shared, .reader id .returned)
  | .lock =>
      match shared.mutex with
      | none => some ({ shared with mutex := some self },
          .reader id .incrementWaiting)
      | some _ => none
  | .incrementWaiting =>
      some ({ shared with waitingReaders := shared.waitingReaders + 1 },
        .reader id .test)
  | .test =>
      if shared.workingWriter || positive shared.waitingWriters then
        some (shared, .reader id .wait)
      else some (shared, .reader id .decrementWaiting)
  | .wait =>
      -- `canRead` is reset by the wait that it ends.
      if shared.canRead then
        some ({ shared with canRead := false }, .reader id .decrementWaiting)
      else none
  | .decrementWaiting =>
      some ({ shared with waitingReaders := shared.waitingReaders - 1 },
        .reader id .incrementActive)
  | .incrementActive =>
      some ({ shared with activeReaders := shared.activeReaders + 1 },
        .reader id .signal)
  | .signal => some ({ shared with canRead := true }, .reader id .unlock)
  | .unlock =>
      if shared.mutex = some self then
        some ({ shared with mutex := none }, .reader id .print)
      else some (shared, .reader id .print)
  | .print =>
      some ({ shared with
          output := shared.output ++ [⟨.reader, id, shared.value⟩] },
        .reader id .decrementActive)
  | .decrementActive =>
      some ({ shared with activeReaders := shared.activeReaders - 1 },
        .reader id .testActive)
  | .testActive =>
      if shared.activeReaders = 0 then some (shared, .reader id .signalWrite)
      else some (shared, .reader id .sleep)
  | .signalWrite =>
      some ({ shared with canWrite := true }, .reader id .resetRead)
  | .resetRead => some ({ shared with canRead := false }, .reader id .sleep)
  | .sleep => some (shared, .reader id .loop)
  | .returned => none

/-- One step of a thread, where `W_CNT` is `writers`. -/
def advance (writers : Nat) (self : Nat) (shared : Shared) :
    Thread → Option (Shared × Thread)
  | .writer id i pc => advanceWriter shared id i pc
  | .reader id pc => advanceReader writers self shared id pc

/-- The mutex, the events and the variables as `main` leaves them to the
threads. -/
def Shared.initial : Shared where
  mutex := none
  canRead := true
  canWrite := true
  workingWriter := false
  waitingWriters := 0
  waitingReaders := 0
  activeReaders := 0
  value := 0
  output := []

abbrev State := System Shared Thread

/-- `main` with `W_CNT` and `R_CNT` as given, after the threads have been
created. -/
def State.initial (writers readers : Nat) : State where
  shared := Shared.initial
  threads := (List.range writers).map (fun id => .writer id 0 .loop) ++
    (List.range readers).map (fun id => .reader id .loop)

/-! ## Sections -/

def Thread.role : Thread → Role
  | .writer _ _ _ => .writer
  | .reader _ _ => .reader

/-- `startWrite` has returned and `stopWrite` has not begun. -/
def WriterPc.within : WriterPc → Bool
  | .incrementValue => true
  | .print => true
  | .clearWorking => true
  | .loop => false
  | .incrementWaiting => false
  | .test => false
  | .wait => false
  | .decrementWaiting => false
  | .setWorking => false
  | .testWaiting => false
  | .signalRead => false
  | .signalWrite => false
  | .sleep => false
  | .returned => false

/-- `startRead` has returned and `stopRead` has not begun. -/
def ReaderPc.within : ReaderPc → Bool
  | .print => true
  | .decrementActive => true
  | .loop => false
  | .lock => false
  | .incrementWaiting => false
  | .test => false
  | .wait => false
  | .decrementWaiting => false
  | .incrementActive => false
  | .signal => false
  | .unlock => false
  | .testActive => false
  | .signalWrite => false
  | .resetRead => false
  | .sleep => false
  | .returned => false

/-- The thread is a writer or reader, as asked, in its section. -/
def Thread.inside (role : Role) : Thread → Bool
  | .writer _ _ pc => decide (role = .writer) && pc.within
  | .reader _ pc => decide (role = .reader) && pc.within

/-- The number of threads in a section. -/
def inside (role : Role) (state : State) : Nat :=
  state.threads.countP (Thread.inside role)

/-- At most one writer is in its section, and no reader with it. -/
def Excluded (state : State) : Prop :=
  inside .writer state ≤ 1 ∧
    (inside .writer state = 0 ∨ inside .reader state = 0)

/-- In no run of the program do two sections overlap that must not. -/
def Exclusive (writers readers : Nat) : Prop :=
  ∀ (events : List Nat) (state : State),
    run (step (advance writers)) (State.initial writers readers) events =
      some state → Excluded state

end WinReadersWriters
end MutualExclusion
end OsStuff
