import OsStuff.Library.Processes
import OsStuff.Library.Run
import OsStuff.Library.Semaphores

/-!
# `lin_consumers_producers.c`

Producer and consumer processes share a buffer and a set of three semaphores.
Each `semop` and each load or store between two of them is one step of its
process; an event is the number of the process that takes its next step.

The last five fields of a state are not part of the program's memory: they
record the characters stored and read, the completed calls of `producer` and
`consumer`, and the indices at which `data` was accessed.
-/

namespace OsStuff
namespace MutualExclusion
namespace LinConsumersProducers

open Library Library.Semaphores

/-- The semaphores of the set: `SEM_BIN`, `SEM_E` and `SEM_F`. -/
inductive Semaphore
  | bin
  | empty
  | full
  deriving DecidableEq, Repr

/-- `EMPTY_NUM` -/
def emptyNum : Nat := 20

structure Buf where
  rpos : Nat
  wpos : Nat
  data : Nat → UInt8

def prodStart : List (Sembuf Semaphore) := [⟨.empty, -1⟩, ⟨.bin, -1⟩]

def prodEnd : List (Sembuf Semaphore) := [⟨.bin, 1⟩, ⟨.full, 1⟩]

def readStart : List (Sembuf Semaphore) := [⟨.full, -1⟩, ⟨.bin, -1⟩]

def readEnd : List (Sembuf Semaphore) := [⟨.bin, 1⟩, ⟨.empty, 1⟩]

/-- Whether a process runs `producer` or `consumer`. -/
inductive Role
  | producer
  | consumer
  deriving DecidableEq, Repr

def Role.start : Role → List (Sembuf Semaphore)
  | .producer => prodStart
  | .consumer => readStart

def Role.stop : Role → List (Sembuf Semaphore)
  | .producer => prodEnd
  | .consumer => readEnd

/-- What a process does next: `access` is the store to `data[pos]` of a producer
and the load of `data[pos]` of a consumer, `print` the load of a producer for
its line of output, and the increment of the position is `loadPos` and
`storePos`. -/
inductive Pc
  | loop
  | sleep
  | start
  | load
  | access (pos : Nat)
  | print (pos : Nat)
  | loadPos
  | storePos (pos : Nat)
  | stop
  | exited
  deriving DecidableEq, Repr

/-- A process with the iterations of its loop that it has not finished. -/
structure Process where
  role : Role
  left : Nat
  pc : Pc
  deriving DecidableEq, Repr

structure State where
  semaphores : Semaphore → Nat
  shm : Buf
  processes : List Process
  produced : List UInt8
  consumed : List UInt8
  finished : Nat
  taken : Nat
  accesses : List Nat

/-- The state with process `i` replaced. -/
def State.set (state : State) (i : Nat) (process : Process) : State :=
  { state with processes := state.processes.set i process }

/-- `'a' + wpos` -/
def letter (pos : Nat) : UInt8 := UInt8.ofNat (97 + pos)

/-- The position that a process loads and increments. -/
def Buf.pos (shm : Buf) : Role → Nat
  | .producer => shm.wpos
  | .consumer => shm.rpos

/-- The buffer with the position of a role replaced. -/
def Buf.setPos (shm : Buf) (pos : Nat) : Role → Buf
  | .producer => { shm with wpos := pos }
  | .consumer => { shm with rpos := pos }

/-- The next step of process `i`, or `none` when it has to wait or is gone. -/
def advance (state : State) (i : Nat) (process : Process) : Option State :=
  match process.pc with
  | .loop =>
      if process.left = 0 then some (state.set i { process with pc := .exited })
      else some (state.set i { process with pc := .sleep })
  | .sleep => some (state.set i { process with pc := .start })
  | .start =>
      (semop state.semaphores process.role.start).map fun semaphores =>
        { state.set i { process with pc := .load } with
          semaphores := semaphores }
  | .load =>
      some (state.set i { process with pc := .access (state.shm.pos process.role) })
  | .access pos =>
      match process.role with
      | .producer =>
          some { state.set i { process with pc := .print pos } with
            shm := { state.shm with
              data := Function.update state.shm.data pos (letter pos) }
            produced := state.produced ++ [letter pos]
            accesses := pos :: state.accesses }
      | .consumer =>
          some { state.set i { process with pc := .loadPos } with
            consumed := state.consumed ++ [state.shm.data pos]
            accesses := pos :: state.accesses }
  | .print pos =>
      some { state.set i { process with pc := .loadPos } with
        accesses := pos :: state.accesses }
  | .loadPos =>
      some (state.set i
        { process with pc := .storePos (state.shm.pos process.role) })
  | .storePos pos =>
      some { state.set i { process with pc := .stop } with
        shm := state.shm.setPos (pos + 1) process.role }
  | .stop =>
      (semop state.semaphores process.role.stop).map fun semaphores =>
        { state.set i { process with left := process.left - 1, pc := .loop } with
          semaphores := semaphores
          finished := match process.role with
            | .producer => state.finished + 1
            | .consumer => state.finished
          taken := match process.role with
            | .producer => state.taken
            | .consumer => state.taken + 1 }
  | .exited => none

/-- Process `i` takes its next step. -/
def step (state : State) (i : Nat) : Option State :=
  state.processes[i]?.bind fun process => advance state i process

/-- The semaphores after `semctl`. -/
def initialSemaphores : Semaphore → Nat
  | .bin => 1
  | .empty => emptyNum
  | .full => 0

/-- The state after `p` producers and `p` consumers have been forked in turn,
each of which goes `k` times through its loop. -/
def State.initial (p k : Nat) : State where
  semaphores := initialSemaphores
  shm := ⟨0, 0, fun _ => 0⟩
  processes := (List.replicate p
    [⟨.producer, k, .loop⟩, ⟨.consumer, k, .loop⟩]).flatten
  produced := []
  consumed := []
  finished := 0
  taken := 0
  accesses := []

/-! ## Sections -/

/-- The process is past its `start` and has not completed its `stop`. -/
def Pc.within : Pc → Bool
  | .loop => false
  | .sleep => false
  | .start => false
  | .load => true
  | .access _ => true
  | .print _ => true
  | .loadPos => true
  | .storePos _ => true
  | .stop => true
  | .exited => false

/-- The number of processes inside a section. -/
def State.busy (state : State) : Nat :=
  state.processes.countP fun process => process.pc.within

/-- The process is a producer or consumer, as asked, in its section. -/
def Process.inside (role : Role) (process : Process) : Bool :=
  decide (process.role = role) && process.pc.within

/-- The number of processes of a role inside a section. -/
def State.inside (state : State) (role : Role) : Nat :=
  state.processes.countP (Process.inside role)

/-- The iterations that the processes of a role have left. -/
def State.left (state : State) (role : Role) : Nat :=
  (state.processes.map fun process =>
    if process.role = role then process.left else 0).sum

/-- The completed calls of a role. -/
def State.count (state : State) : Role → Nat
  | .producer => state.finished
  | .consumer => state.taken

/-- The characters that a role has stored or read. -/
def State.moved (state : State) : Role → List UInt8
  | .producer => state.produced
  | .consumer => state.consumed

/-! ## The two roles

A producer needs an empty slot and fills it; a consumer needs a full slot and
empties it. -/

def Role.other : Role → Role
  | .producer => .consumer
  | .consumer => .producer

/-- The semaphore that counts the slots a role needs. -/
def Role.room : Role → Semaphore
  | .producer => .empty
  | .consumer => .full

/-- The slots a role finds at the start. -/
def Role.stock : Role → Nat
  | .producer => emptyNum
  | .consumer => 0

variable {values values' : Semaphore → Nat} {role : Role}

/-- A process gets in when there is a slot for it and nobody is inside. -/
theorem semop_start :
    semop values role.start = some values' ↔
      1 ≤ values role.room ∧ 1 ≤ values .bin ∧
        values' = Function.update (Function.update values role.room
          (values role.room - 1)) .bin (values .bin - 1) := by
  have hbatch : role.start = [⟨role.room, -1⟩, ⟨.bin, -1⟩] := by
    cases role <;> rfl
  have hroom : role.room ≠ .bin := by
    cases role <;> simp [Role.room]
  rw [hbatch]
  by_cases hslot : 1 ≤ values role.room
  · by_cases hbin : 1 ≤ values .bin
    · simp [hslot, hbin, hroom.symm, eq_comm]
    · simp [hslot, hbin, hroom.symm]
  · simp [hslot]

/-- A process that leaves hands its slot to the other role. -/
theorem semop_stop :
    semop values role.stop = some (Function.update (Function.update values .bin
      (values .bin + 1)) role.other.room (values role.other.room + 1)) := by
  have hbatch : role.stop = [⟨.bin, 1⟩, ⟨role.other.room, 1⟩] := by
    cases role <;> rfl
  have hroom : role.other.room ≠ .bin := by
    cases role <;> simp [Role.room, Role.other]
  rw [hbatch]
  simp [hroom]

end LinConsumersProducers
end MutualExclusion
end OsStuff
