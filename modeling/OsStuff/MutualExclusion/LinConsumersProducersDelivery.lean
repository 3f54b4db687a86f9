import OsStuff.MutualExclusion.LinConsumersProducers

/-!
# Delivery in `lin_consumers_producers.c`

At most one process is inside a section at a time, so that the unprotected
increments of `wpos` and `rpos` are not lost: between the sections the positions
are the numbers of completed calls.  `SEM_E` and `SEM_F` count the slots that
are neither full nor claimed and those that are full and unclaimed, which keeps
the readers behind the writers.  With at most `EMPTY_NUM` items in all, some
process can always go on.
-/

namespace OsStuff
namespace MutualExclusion
namespace LinConsumersProducers

open Library Library.Semaphores Library.Processes

/-- What a process knows where it is: `pos` is the position of its role, `moved`
the number of characters its role has stored or read, `count` the number of
completed calls. -/
def Knows (pos moved count : Nat) (process : Process) : Prop :=
  match process.pc with
  | .loop => True
  | .sleep => 1 ≤ process.left
  | .start => 1 ≤ process.left
  | .load => 1 ≤ process.left ∧ pos = count ∧ moved = count
  | .access loaded =>
      1 ≤ process.left ∧ loaded = count ∧ pos = count ∧ moved = count
  | .print loaded =>
      1 ≤ process.left ∧ process.role = .producer ∧ loaded = count ∧
        pos = count ∧ moved = count + 1
  | .loadPos => 1 ≤ process.left ∧ pos = count ∧ moved = count + 1
  | .storePos loaded =>
      1 ≤ process.left ∧ loaded = count ∧ pos = count ∧ moved = count + 1
  | .stop => 1 ≤ process.left ∧ pos = count + 1 ∧ moved = count + 1
  | .exited => process.left = 0

/-- What a process knows in a state. -/
def State.Knows (state : State) (process : Process) : Prop :=
  LinConsumersProducers.Knows (state.shm.pos process.role)
    (state.moved process.role).length (state.count process.role) process

/-- The first `n` characters. -/
def letters (n : Nat) : List UInt8 := (List.range n).map letter

/-- The invariant.  `total` is the number of items. -/
structure Inv (total : Nat) (state : State) : Prop where
  bin : state.semaphores .bin + state.busy = 1
  room : ∀ role : Role, state.semaphores role.room + state.count role +
    state.inside role = role.stock + state.count role.other
  left : ∀ role, state.count role + state.left role = total
  quiet : ∀ role, state.inside role = 0 →
    state.shm.pos role = state.count role ∧
      (state.moved role).length = state.count role
  knows : ∀ (i : Nat) (process : Process), state.processes[i]? = some process →
    state.Knows process
  moved : ∀ role, state.moved role = letters (state.moved role).length
  data : ∀ j, j < state.produced.length → state.shm.data j = letter j
  accesses : ∀ index ∈ state.accesses, index < emptyNum

variable {total i : Nat} {state state' : State} {process after : Process}
  {role : Role} {semaphores : Semaphore → Nat}

/-! ## Counting -/

theorem inside_iff :
    process.inside role = true ↔
      process.role = role ∧ process.pc.within = true := by
  simp [Process.inside]

theorem inside_eq_false (hpc : process.pc.within = false) :
    process.inside role = false := by
  simp [Process.inside, hpc]

theorem inside_other (hrole : process.role ≠ role) :
    process.inside role = false := by
  simp [Process.inside, hrole]

theorem inside_same (hrole : after.role = process.role)
    (hpc : after.pc.within = process.pc.within) (role : Role) :
    after.inside role = process.inside role := by
  simp [Process.inside, hrole, hpc]

/-- Whoever is inside is a producer or a consumer. -/
theorem busy_eq (state : State) :
    state.busy = state.inside .producer + state.inside .consumer := by
  unfold State.busy State.inside
  induction state.processes with
  | nil => rfl
  | cons head tail ih =>
      rw [List.countP_cons, List.countP_cons, List.countP_cons, ih]
      cases hrole : head.role with
      | producer =>
          simp only [Process.inside, hrole]
          simp
          omega
      | consumer =>
          simp only [Process.inside, hrole]
          simp
          omega

/-- A process inside has not finished its iteration. -/
theorem Knows.left_pos {pos moved count : Nat}
    (hknows : Knows pos moved count process)
    (hwithin : process.pc.within = true) : 1 ≤ process.left := by
  obtain ⟨role, left, pc⟩ := process
  cases pc with
  | loop => exact absurd hwithin Bool.false_ne_true
  | sleep => exact absurd hwithin Bool.false_ne_true
  | start => exact absurd hwithin Bool.false_ne_true
  | load => exact hknows.1
  | access loaded => exact hknows.1
  | print loaded => exact hknows.1
  | loadPos => exact hknows.1
  | storePos loaded => exact hknows.1
  | stop => exact hknows.1
  | exited => exact absurd hwithin Bool.false_ne_true

/-- Outside its section a process knows nothing about the buffer. -/
theorem Knows.outside {pos moved count pos' moved' count' : Nat}
    (hknows : Knows pos moved count process)
    (hout : process.pc.within = false) : Knows pos' moved' count' process := by
  obtain ⟨role, left, pc⟩ := process
  cases pc with
  | loop => exact hknows
  | sleep => exact hknows
  | start => exact hknows
  | load => exact absurd hout.symm Bool.false_ne_true
  | access loaded => exact absurd hout.symm Bool.false_ne_true
  | print loaded => exact absurd hout.symm Bool.false_ne_true
  | loadPos => exact absurd hout.symm Bool.false_ne_true
  | storePos loaded => exact absurd hout.symm Bool.false_ne_true
  | stop => exact absurd hout.symm Bool.false_ne_true
  | exited => exact hknows

/-- Of the processes of a role, at most as many are inside as iterations are
left. -/
theorem Inv.inside_le (hinv : Inv total state) (role : Role) :
    state.inside role ≤ state.left role := by
  refine countP_le_sum_map fun process hmem hinside => ?_
  obtain ⟨hrole, hwithin⟩ := inside_iff.mp hinside
  obtain ⟨i, hi⟩ := List.mem_iff_getElem?.mp hmem
  rw [if_pos hrole]
  exact (hinv.knows i process hi).left_pos hwithin

/-- A process inside is the only one. -/
theorem Inv.alone (hinv : Inv total state)
    (hi : state.processes[i]? = some process) (hwithin : process.pc.within = true)
    {j : Nat} {other : Process} (hj : state.processes[j]? = some other)
    (hji : j ≠ i) : other.pc.within = false := by
  have hone : state.busy ≤ 1 := by
    have := hinv.bin
    omega
  by_contra hother
  apply hji
  exact index_unique hone hj hi (by simpa using hother) hwithin

/-- The iterations left after a step of a process. -/
theorem left_set (after : Process) (hi : state.processes[i]? = some process)
    (hrole : after.role = process.role) (hleft : after.left = process.left)
    (role : Role) : (state.set i after).left role = state.left role := by
  have hsum : ((state.processes.set i after).map fun process =>
        if process.role = role then process.left else 0).sum +
          (if process.role = role then process.left else 0) =
      (state.processes.map fun process =>
        if process.role = role then process.left else 0).sum +
          (if after.role = role then after.left else 0) := sum_map_set hi
  simp only [hrole, hleft] at hsum
  exact Nat.add_right_cancel hsum

/-! ## Steps -/

/-- A step that only moves a process on its side of the border of its
section. -/
theorem Inv.move (hinv : Inv total state)
    (hi : state.processes[i]? = some process)
    (hrole : after.role = process.role) (hleft : after.left = process.left)
    (hpc : after.pc.within = process.pc.within)
    (hknows : state.Knows after) : Inv total (state.set i after) := by
  have hbusy : (state.set i after).busy = state.busy := countP_set_same hi hpc
  have hinside : ∀ role, (state.set i after).inside role = state.inside role :=
    fun role => countP_set_same hi (inside_same hrole hpc role)
  constructor
  · rw [hbusy]
    exact hinv.bin
  · intro other
    rw [hinside]
    exact hinv.room other
  · intro other
    rw [left_set _ hi hrole hleft]
    exact hinv.left other
  · intro other hnone
    exact hinv.quiet other ((hinside other).symm.trans hnone)
  · intro j other hj
    rcases set_cases hj with ⟨rfl, rfl⟩ | ⟨-, hj⟩
    · exact hknows
    · exact hinv.knows j other hj
  · exact hinv.moved
  · exact hinv.data
  · exact hinv.accesses

/-- A process gets into its section. -/
theorem Inv.start (hinv : Inv total state)
    (hi : state.processes[i]? = some process) (hpc : process.pc = .start)
    (hsemop : semop state.semaphores process.role.start = some semaphores) :
    Inv total { state.set i { process with pc := .load } with
      semaphores := semaphores } := by
  have hknows := hinv.knows i process hi
  obtain ⟨role, left, pc⟩ := process
  obtain rfl : pc = .start := hpc
  obtain ⟨hslot, hfree, hvalues⟩ := semop_start.mp hsemop
  have hbusy : (state.set i ⟨role, left, .load⟩).busy = state.busy + 1 :=
    countP_set_enter hi rfl rfl
  have hmine : (state.set i ⟨role, left, .load⟩).inside role =
      state.inside role + 1 :=
    countP_set_enter hi (inside_eq_false rfl) (inside_iff.mpr ⟨rfl, rfl⟩)
  have hothers : ∀ other, role ≠ other →
      (state.set i ⟨role, left, .load⟩).inside other = state.inside other :=
    fun other hne => countP_set_same hi
      ((inside_other hne).trans (inside_other hne).symm)
  have hleft : ∀ other, (state.set i ⟨role, left, .load⟩).left other =
      state.left other := fun other =>
    left_set ⟨role, left, .load⟩ hi rfl rfl other
  have hbin := hinv.bin
  -- The semaphore BIN was positive, so nobody was inside.
  have hnone : state.inside role = 0 := by
    have hsplit := busy_eq state
    cases role <;> omega
  have hroomPos : 1 ≤ state.semaphores role.room := hslot
  have hroomValue : semaphores role.room = state.semaphores role.room - 1 := by
    rw [hvalues]
    cases role <;> rfl
  have hsame : ∀ other : Role, role ≠ other →
      semaphores other.room = state.semaphores other.room := by
    intro other hother
    rw [hvalues]
    cases role <;> cases other <;> first | rfl | exact absurd rfl hother
  constructor
  · show semaphores .bin + _ = 1
    rw [hvalues, Function.update_self]
    calc _ = state.semaphores .bin - 1 + (state.busy + 1) :=
        congrArg (state.semaphores .bin - 1 + ·) hbusy
      _ = 1 := by omega
  · intro other
    have hroom := hinv.room other
    show semaphores other.room + state.count other + _ = _
    by_cases hother : role = other
    · subst hother
      rw [hroomValue]
      calc _ = state.semaphores role.room - 1 + state.count role +
            (state.inside role + 1) := congrArg (_ + ·) hmine
        _ = role.stock + state.count role.other := by omega
    · rw [hsame other hother]
      exact (congrArg (_ + ·) (hothers other hother)).trans hroom
  · intro other
    exact (congrArg (state.count other + ·) (hleft other)).trans
      (hinv.left other)
  · -- The role of the process has somebody inside now, so this part is about the other role
    -- only.
    intro other hzero
    by_cases hother : role = other
    · subst hother
      have := hmine.symm.trans hzero
      omega
    · exact hinv.quiet other ((hothers other hother).symm.trans hzero)
  · intro j other hj
    rcases set_cases hj with ⟨rfl, rfl⟩ | ⟨-, hj⟩
    · -- What held with nobody inside is what the process finds when it loads the position.
      exact ⟨hknows, hinv.quiet role hnone⟩
    · exact hinv.knows j other hj
  · exact hinv.moved
  · exact hinv.data
  · exact hinv.accesses

/-- A step inside the section, which may change the buffer for the role of the
process. -/
theorem Inv.within {next : State} (after : Process) (hinv : Inv total state)
    (hi : state.processes[i]? = some process)
    (hwithin : process.pc.within = true) (hafter : after.pc.within = true)
    (hrole : after.role = process.role) (hleft : after.left = process.left)
    (hprocesses : next.processes = state.processes.set i after)
    (hsemaphores : next.semaphores = state.semaphores)
    (hcount : ∀ role, next.count role = state.count role)
    (hothers : ∀ role, role ≠ process.role →
      next.shm.pos role = state.shm.pos role ∧
        next.moved role = state.moved role)
    (hknows : next.Knows after)
    (hmoved : ∀ role, next.moved role = letters (next.moved role).length)
    (hdata : ∀ j, j < next.produced.length → next.shm.data j = letter j)
    (haccesses : ∀ index ∈ next.accesses, index < emptyNum) :
    Inv total next := by
  have hbusy : next.busy = state.busy := by
    unfold State.busy
    rw [hprocesses]
    exact countP_set_same hi (hafter.trans hwithin.symm)
  have hinside : ∀ role, next.inside role = state.inside role := by
    intro role
    unfold State.inside
    rw [hprocesses]
    exact countP_set_same hi
      (inside_same hrole (hafter.trans hwithin.symm) role)
  have hlefts : ∀ role, next.left role = state.left role := by
    intro role
    unfold State.left
    rw [hprocesses]
    exact left_set _ hi hrole hleft role
  constructor
  · rw [hsemaphores, hbusy]
    exact hinv.bin
  · intro role
    rw [hsemaphores, hcount, hcount, hinside]
    exact hinv.room role
  · intro role
    rw [hcount, hlefts]
    exact hinv.left role
  · intro role hnone
    rw [hinside] at hnone
    -- The role of the process is not one with nobody inside.
    have hne : role ≠ process.role := by
      intro heq
      have hpos : 0 < state.inside role :=
        countP_pos hi (inside_iff.mpr ⟨heq.symm, hwithin⟩)
      omega
    rw [(hothers role hne).1, (hothers role hne).2, hcount]
    exact hinv.quiet role hnone
  · intro j other hj
    rw [hprocesses] at hj
    rcases set_cases hj with ⟨rfl, rfl⟩ | ⟨hji, hj⟩
    · exact hknows
    · -- The other processes are all outside, and those know nothing of the buffer.
      exact (hinv.knows j other hj).outside (hinv.alone hi hwithin hj hji)
  · exact hmoved
  · exact hdata
  · exact haccesses

/-- The letters up to the next one. -/
theorem letters_succ (n : Nat) : letters (n + 1) = letters n ++ [letter n] := by
  unfold letters
  rw [List.range_succ, List.map_append]
  rfl

/-- One more character. -/
theorem letters_append {moved : List UInt8} {n : Nat}
    (hmoved : moved = letters moved.length) (hn : moved.length = n) :
    moved ++ [letter n] = letters (moved ++ [letter n]).length := by
  rw [List.length_append, List.length_singleton, hn, letters_succ, ← hn,
    ← hmoved]

/-- Where a process inside its section works is within the buffer, and a
consumer is behind the completed producers. -/
theorem Inv.bound (hinv : Inv total state) (htotal : total ≤ emptyNum)
    (hi : state.processes[i]? = some process)
    (hwithin : process.pc.within = true) :
    state.count process.role < emptyNum ∧
      (process.role = .consumer → state.taken < state.finished) := by
  have hpos : 0 < state.inside process.role :=
    countP_pos hi (inside_iff.mpr ⟨rfl, hwithin⟩)
  have hle := hinv.inside_le process.role
  have hleft := hinv.left process.role
  refine ⟨by omega, fun hconsumer => ?_⟩
  rw [hconsumer] at hpos
  have hroom := hinv.room .consumer
  simp only [State.count, Role.stock, Role.other] at hroom
  omega

/-- A consumer that is about to read finds a character stored by a producer that
has finished. -/
theorem Inv.read (hinv : Inv total state) (htotal : total ≤ emptyNum)
    (hi : state.processes[i]? = some process) {pos : Nat}
    (hpc : process.pc = .access pos) (hrole : process.role = .consumer) :
    pos < state.finished ∧ state.shm.data pos = letter pos := by
  have hwithin : process.pc.within = true := by
    rw [hpc]
    rfl
  have hbehind := (hinv.bound htotal hi hwithin).2 hrole
  have hknows := hinv.knows i process hi
  unfold State.Knows Knows at hknows
  rw [hpc, hrole] at hknows
  obtain ⟨-, rfl, -, -⟩ := hknows
  have hnone : state.inside .producer = 0 := by
    have hpos : 0 < state.inside .consumer :=
      countP_pos hi (inside_iff.mpr ⟨hrole, hwithin⟩)
    have hbin := hinv.bin
    have hsplit := busy_eq state
    omega
  have hproduced : state.produced.length = state.finished :=
    (hinv.quiet .producer hnone).2
  refine ⟨hbehind, hinv.data _ ?_⟩
  rw [hproduced]
  exact hbehind

/-- A producer stores its character. -/
theorem Inv.produce (hinv : Inv total state) (htotal : total ≤ emptyNum)
    (hi : state.processes[i]? = some process) {pos : Nat}
    (hpc : process.pc = .access pos) (hrole : process.role = .producer) :
    Inv total { state.set i { process with pc := .print pos } with
      shm := { state.shm with
        data := Function.update state.shm.data pos (letter pos) }
      produced := state.produced ++ [letter pos]
      accesses := pos :: state.accesses } := by
  have hknows := hinv.knows i process hi
  have hbound := (hinv.bound htotal hi (by rw [hpc]; rfl)).1
  obtain ⟨role, left, pc⟩ := process
  obtain rfl : pc = .access pos := hpc
  obtain rfl : role = .producer := hrole
  obtain ⟨hleft, hcount, hpos, hlength⟩ := hknows
  have hlen : state.produced.length = pos := hlength.trans hcount.symm
  refine hinv.within ⟨.producer, left, .print pos⟩ hi rfl rfl rfl rfl rfl rfl
    ?_ ?_ ?_ ?_ ?_ ?_
  · exact fun role => by cases role <;> rfl
  · intro role hne
    cases role with
    | producer => exact absurd rfl hne
    | consumer => exact ⟨rfl, rfl⟩
  · refine ⟨hleft, rfl, hcount, hpos, ?_⟩
    show (state.produced ++ [letter _]).length = _
    rw [List.length_append]
    exact congrArg (· + 1) hlength
  · intro role
    cases role with
    | producer => exact letters_append (hinv.moved .producer) hlen
    | consumer => exact hinv.moved .consumer
  · intro j hj
    show Function.update state.shm.data pos (letter pos) j = letter j
    by_cases hlast : j = pos
    · rw [hlast, Function.update_self]
    · rw [Function.update_of_ne hlast]
      refine hinv.data j ?_
      have hlt : j < (state.produced ++ [letter pos]).length := hj
      rw [List.length_append, List.length_singleton] at hlt
      omega
  · intro index hindex
    rcases List.mem_cons.mp hindex with rfl | hmem
    · exact hcount.trans_lt hbound
    · exact hinv.accesses index hmem

/-- A consumer reads a character that a producer has stored. -/
theorem Inv.consume (hinv : Inv total state) (htotal : total ≤ emptyNum)
    (hi : state.processes[i]? = some process) {pos : Nat}
    (hpc : process.pc = .access pos) (hrole : process.role = .consumer) :
    Inv total { state.set i { process with pc := .loadPos } with
      consumed := state.consumed ++ [state.shm.data pos]
      accesses := pos :: state.accesses } := by
  have hknows := hinv.knows i process hi
  have hread := hinv.read htotal hi hpc hrole
  obtain ⟨hbound, -⟩ := hinv.bound htotal hi (by rw [hpc]; rfl)
  obtain ⟨role, left, pc⟩ := process
  obtain rfl : pc = .access pos := hpc
  obtain rfl : role = .consumer := hrole
  obtain ⟨hleft, hcount, hpos, hlength⟩ := hknows
  have hlen : state.consumed.length = pos := hlength.trans hcount.symm
  refine hinv.within ⟨.consumer, left, .loadPos⟩ hi rfl rfl rfl rfl rfl rfl
    ?_ ?_ ?_ ?_ ?_ ?_
  · exact fun role => by cases role <;> rfl
  · intro role hne
    cases role with
    | producer => exact ⟨rfl, rfl⟩
    | consumer => exact absurd rfl hne
  · refine ⟨hleft, hpos, ?_⟩
    show (state.consumed ++ [_]).length = _
    rw [List.length_append]
    exact congrArg (· + 1) hlength
  · intro role
    cases role with
    | producer => exact hinv.moved .producer
    | consumer =>
        show state.consumed ++ [_] = letters (state.consumed ++ [_]).length
        rw [hread.2]
        exact letters_append (hinv.moved .consumer) hlen
  · exact hinv.data
  · intro index hindex
    rcases List.mem_cons.mp hindex with rfl | hmem
    · exact hcount.trans_lt hbound
    · exact hinv.accesses index hmem

/-- A producer reads its character again for its line of output. -/
theorem Inv.print (hinv : Inv total state) (htotal : total ≤ emptyNum)
    (hi : state.processes[i]? = some process) {pos : Nat}
    (hpc : process.pc = .print pos) :
    Inv total { state.set i { process with pc := .loadPos } with
      accesses := pos :: state.accesses } := by
  have hknows := hinv.knows i process hi
  have hbound := (hinv.bound htotal hi (by rw [hpc]; rfl)).1
  obtain ⟨role, left, pc⟩ := process
  obtain rfl : pc = .print pos := hpc
  obtain ⟨hleft, -, hcount, hpos, hlength⟩ := hknows
  refine hinv.within ⟨role, left, .loadPos⟩ hi rfl rfl rfl rfl rfl rfl
    ?_ ?_ ?_ ?_ ?_ ?_
  · exact fun role => by cases role <;> rfl
  · exact fun role _ => ⟨rfl, by cases role <;> rfl⟩
  · exact ⟨hleft, hpos, hlength⟩
  · exact hinv.moved
  · exact hinv.data
  · intro index hindex
    rcases List.mem_cons.mp hindex with rfl | hmem
    · exact hcount.trans_lt hbound
    · exact hinv.accesses index hmem

theorem pos_setPos_self (shm : Buf) (pos : Nat) (role : Role) :
    (shm.setPos pos role).pos role = pos := by
  cases role <;> rfl

theorem pos_setPos_other (shm : Buf) (pos : Nat) {role other : Role}
    (hne : other ≠ role) : (shm.setPos pos role).pos other = shm.pos other := by
  cases role <;> cases other <;> first | rfl | exact absurd rfl hne

theorem data_setPos (shm : Buf) (pos : Nat) (role : Role) :
    (shm.setPos pos role).data = shm.data := by
  cases role <;> rfl

/-- A process stores the incremented position. -/
theorem Inv.storePos (hinv : Inv total state)
    (hi : state.processes[i]? = some process) {pos : Nat}
    (hpc : process.pc = .storePos pos) :
    Inv total { state.set i { process with pc := .stop } with
      shm := state.shm.setPos (pos + 1) process.role } := by
  have hknows := hinv.knows i process hi
  obtain ⟨role, left, pc⟩ := process
  obtain rfl : pc = .storePos pos := hpc
  obtain ⟨hleft, hcount, -, hlength⟩ := hknows
  refine hinv.within ⟨role, left, .stop⟩ hi rfl rfl rfl rfl rfl rfl
    ?_ ?_ ?_ ?_ ?_ ?_
  · exact fun role => by cases role <;> rfl
  · exact fun other hne => ⟨pos_setPos_other _ _ hne, by cases other <;> rfl⟩
  · refine ⟨hleft, ?_, hlength⟩
    show (state.shm.setPos (pos + 1) role).pos role = state.count role + 1
    rw [pos_setPos_self]
    exact congrArg (· + 1) hcount
  · exact hinv.moved
  · intro j hj
    show (state.shm.setPos (pos + 1) role).data j = letter j
    rw [data_setPos]
    exact hinv.data j hj
  · exact hinv.accesses

theorem eq_or_other (role other : Role) : other = role ∨ other = role.other := by
  cases role <;> cases other <;> first | exact Or.inl rfl | exact Or.inr rfl

theorem other_ne (role : Role) : role ≠ role.other := by
  cases role <;> simp [Role.other]

/-- A process leaves its section. -/
theorem Inv.stop {next : State} (hinv : Inv total state)
    (hi : state.processes[i]? = some process) (hpc : process.pc = .stop)
    (hstep : advance state i process = some next) : Inv total next := by
  have hknows := hinv.knows i process hi
  have hwithin : process.pc.within = true := by
    rw [hpc]
    rfl
  obtain ⟨role, left, pc⟩ := process
  obtain rfl : pc = .stop := hpc
  obtain ⟨hpos, hposValue, hlength⟩ := hknows
  simp only [advance, semop_stop, Option.map_some, Option.some.injEq] at hstep
  -- Every part of the state after the step, so that the parts of the invariant are left to
  -- arithmetic: semop raises BIN and the room of the other role.
  have hprocesses : next.processes =
      state.processes.set i ⟨role, left - 1, .loop⟩ := by
    rw [← hstep]
    rfl
  have hshm : next.shm = state.shm := by
    rw [← hstep]
    rfl
  have hmoved : ∀ other, next.moved other = state.moved other := by
    intro other
    rw [← hstep]
    cases other <;> rfl
  have hcount : next.count role = state.count role + 1 := by
    rw [← hstep]
    cases role <;> rfl
  have hcountOther : next.count role.other = state.count role.other := by
    rw [← hstep]
    cases role <;> rfl
  have hbinValue : next.semaphores .bin = state.semaphores .bin + 1 := by
    rw [← hstep]
    cases role <;> rfl
  have hroomValue : next.semaphores role.room = state.semaphores role.room := by
    rw [← hstep]
    cases role <;> rfl
  have hotherValue : next.semaphores role.other.room =
      state.semaphores role.other.room + 1 := by
    rw [← hstep]
    cases role <;> rfl
  have hbusy : next.busy + 1 = state.busy := by
    unfold State.busy
    rw [hprocesses]
    exact countP_set_leave hi rfl rfl
  have hmine : next.inside role + 1 = state.inside role := by
    unfold State.inside
    rw [hprocesses]
    exact countP_set_leave hi (inside_iff.mpr ⟨rfl, rfl⟩) (inside_eq_false rfl)
  have hinsideOther : next.inside role.other = state.inside role.other := by
    unfold State.inside
    rw [hprocesses]
    exact countP_set_same hi ((inside_other (other_ne role)).trans
      (inside_other (other_ne role)).symm)
  -- What is left of the loops goes down with the completed calls.
  have hsum : ∀ other, next.left other +
      (if role = other then left else 0) =
        state.left other + (if role = other then left - 1 else 0) := by
    intro other
    unfold State.left
    rw [hprocesses]
    exact sum_map_set hi
  have htwice : role.other.other = role := by
    cases role <;> rfl
  have hleftPos : 1 ≤ left := hpos
  have hbin := hinv.bin
  have hroom := hinv.room role
  have hroomOther := hinv.room role.other
  have hleft := hinv.left role
  have hleftOther := hinv.left role.other
  have hsumMine := hsum role
  have hsumOther := hsum role.other
  rw [if_pos rfl, if_pos rfl] at hsumMine
  rw [if_neg (other_ne role), if_neg (other_ne role)] at hsumOther
  rw [htwice] at hroomOther
  constructor
  · omega
  · intro other
    rcases eq_or_other role other with rfl | rfl
    · omega
    · rw [htwice]
      omega
  · intro other
    rcases eq_or_other role other with rfl | rfl
    · omega
    · omega
  · -- The process came out last of its role; what it knew at the end of the section holds
    -- for the role now.
    intro other hnone
    rw [hshm, hmoved]
    rcases eq_or_other role other with rfl | rfl
    · rw [hcount]
      exact ⟨hposValue, hlength⟩
    · rw [hcountOther]
      exact hinv.quiet _ (hinsideOther.symm.trans hnone)
  · intro j other hj
    rw [hprocesses] at hj
    rcases set_cases hj with ⟨rfl, rfl⟩ | ⟨hji, hj⟩
    · trivial
    · exact (hinv.knows j other hj).outside (hinv.alone hi hwithin hj hji)
  · intro other
    rw [hmoved]
    exact hinv.moved other
  · rw [hshm, show next.produced = state.produced from hmoved .producer]
    exact hinv.data
  · rw [show next.accesses = state.accesses by rw [← hstep]; rfl]
    exact hinv.accesses

/-- Every step keeps the invariant. -/
theorem Inv.step (hinv : Inv total state) (htotal : total ≤ emptyNum)
    (hstep : step state i = some state') : Inv total state' := by
  obtain ⟨process, hi, hadvance⟩ := Option.bind_eq_some_iff.mp hstep
  have hknows := hinv.knows i process hi
  unfold State.Knows Knows at hknows
  cases hpc : process.pc with
  | loop =>
      simp only [advance, hpc] at hadvance
      by_cases hleft : process.left = 0
      · rw [if_pos hleft] at hadvance
        obtain rfl := Option.some.inj hadvance
        exact hinv.move hi rfl rfl (by rw [hpc]; rfl) hleft
      · rw [if_neg hleft] at hadvance
        obtain rfl := Option.some.inj hadvance
        exact hinv.move hi rfl rfl (by rw [hpc]; rfl) (Nat.pos_of_ne_zero hleft)
  | sleep =>
      simp only [advance, hpc, Option.some.injEq] at hadvance
      subst hadvance
      rw [hpc] at hknows
      exact hinv.move hi rfl rfl (by rw [hpc]; rfl) hknows
  | start =>
      simp only [advance, hpc, Option.map_eq_some_iff] at hadvance
      obtain ⟨semaphores, hsemop, rfl⟩ := hadvance
      exact hinv.start hi hpc hsemop
  -- Loads move the process only; the buffer stays as it is.
  | load =>
      simp only [advance, hpc, Option.some.injEq] at hadvance
      subst hadvance
      rw [hpc] at hknows
      obtain ⟨hleft, hpos, hlength⟩ := hknows
      exact hinv.move hi rfl rfl (by rw [hpc]; rfl) ⟨hleft, hpos, hpos, hlength⟩
  | access pos =>
      cases hrole : process.role with
      | producer =>
          simp only [advance, hpc, hrole, Option.some.injEq] at hadvance
          subst hadvance
          have hproduced := hinv.produce htotal hi hpc hrole
          rwa [hrole] at hproduced
      | consumer =>
          simp only [advance, hpc, hrole, Option.some.injEq] at hadvance
          subst hadvance
          have hconsumed := hinv.consume htotal hi hpc hrole
          rwa [hrole] at hconsumed
  | print pos =>
      simp only [advance, hpc, Option.some.injEq] at hadvance
      subst hadvance
      exact hinv.print htotal hi hpc
  | loadPos =>
      simp only [advance, hpc, Option.some.injEq] at hadvance
      subst hadvance
      rw [hpc] at hknows
      obtain ⟨hleft, hpos, hlength⟩ := hknows
      exact hinv.move hi rfl rfl (by rw [hpc]; rfl) ⟨hleft, hpos, hpos, hlength⟩
  | storePos pos =>
      simp only [advance, hpc, Option.some.injEq] at hadvance
      subst hadvance
      exact hinv.storePos hi hpc
  | stop => exact hinv.stop hi hpc hadvance
  | exited =>
      simp only [advance, hpc] at hadvance
      exact absurd hadvance (by simp)

/-! ## The start -/

theorem initial_loop {p k : Nat} (hmem : process ∈ (State.initial p k).processes) :
    process.pc = .loop := by
  obtain ⟨pair, hpair, hmem⟩ := List.mem_flatten.mp hmem
  rw [List.eq_of_mem_replicate hpair] at hmem
  simp only [List.mem_cons, List.not_mem_nil, or_false] at hmem
  rcases hmem with rfl | rfl
  · rfl
  · rfl

theorem left_initial (p k : Nat) (role : Role) :
    (State.initial p k).left role = p * k := by
  unfold State.left State.initial
  induction p with
  | zero => simp
  | succ p ih =>
      rw [List.replicate_succ, List.flatten_cons, List.map_append,
        List.sum_append]
      rw [show (List.map _ (List.flatten _)).sum = p * k from ih]
      cases role with
      | producer =>
          simp
          ring
      | consumer =>
          simp
          ring

/-- The invariant holds before the first step. -/
theorem Inv.initial (p k : Nat) : Inv (p * k) (State.initial p k) := by
  have hbusy : (State.initial p k).busy = 0 := by
    unfold State.busy
    rw [List.countP_eq_zero]
    intro process hmem
    rw [initial_loop hmem]
    exact Bool.false_ne_true
  have hinside : ∀ role, (State.initial p k).inside role = 0 := by
    intro role
    unfold State.inside
    rw [List.countP_eq_zero]
    intro process hmem
    rw [inside_eq_false (by rw [initial_loop hmem]; rfl)]
    exact Bool.false_ne_true
  constructor
  · rw [hbusy]
    rfl
  · intro role
    rw [hinside]
    cases role <;> rfl
  · intro role
    rw [left_initial]
    cases role <;> exact Nat.zero_add _
  · intro role _
    cases role <;> exact ⟨rfl, rfl⟩
  · intro i process hi
    have hloop := initial_loop (List.mem_of_getElem? hi)
    unfold State.Knows Knows
    rw [hloop]
    trivial
  · intro role
    cases role <;> rfl
  · intro j hj
    exact absurd hj (Nat.not_lt_zero j)
  · intro index hindex
    exact absurd hindex List.not_mem_nil

/-! ## What the invariant gives -/

/-- The position of a role and the characters it has moved are ahead of the
completed calls by at most the process inside. -/
theorem Inv.ahead (hinv : Inv total state) (role : Role) :
    state.count role ≤ state.shm.pos role ∧
      state.shm.pos role ≤ state.count role + state.inside role ∧
      state.count role ≤ (state.moved role).length ∧
      (state.moved role).length ≤ state.count role + state.inside role := by
  by_cases hnone : state.inside role = 0
  · obtain ⟨hpos, hlength⟩ := hinv.quiet role hnone
    omega
  · -- Somebody is inside, and where the process is tells how far ahead the role is.
    obtain ⟨i, process, hi, hinside⟩ :=
      exists_of_countP (Nat.pos_of_ne_zero hnone)
    obtain ⟨rfl, hwithin⟩ := inside_iff.mp hinside
    have hknows := hinv.knows i process hi
    unfold State.Knows Knows at hknows
    cases hpc : process.pc with
    | loop =>
        rw [hpc] at hwithin
        exact absurd hwithin Bool.false_ne_true
    | sleep =>
        rw [hpc] at hwithin
        exact absurd hwithin Bool.false_ne_true
    | start =>
        rw [hpc] at hwithin
        exact absurd hwithin Bool.false_ne_true
    | load =>
        rw [hpc] at hknows
        obtain ⟨-, hpos, hlength⟩ := hknows
        omega
    | access pos =>
        rw [hpc] at hknows
        obtain ⟨-, -, hpos, hlength⟩ := hknows
        omega
    | print pos =>
        rw [hpc] at hknows
        obtain ⟨-, -, -, hpos, hlength⟩ := hknows
        omega
    | loadPos =>
        rw [hpc] at hknows
        obtain ⟨-, hpos, hlength⟩ := hknows
        omega
    | storePos pos =>
        rw [hpc] at hknows
        obtain ⟨-, -, hpos, hlength⟩ := hknows
        omega
    | stop =>
        rw [hpc] at hknows
        obtain ⟨-, hpos, hlength⟩ := hknows
        omega
    | exited =>
        rw [hpc] at hwithin
        exact absurd hwithin Bool.false_ne_true

/-- Fewer letters come first. -/
theorem letters_prefix {m n : Nat} (hle : m ≤ n) : letters m <+: letters n := by
  induction n, hle using Nat.le_induction with
  | base => exact List.prefix_refl _
  | succ n _ ih =>
      rw [letters_succ]
      exact ih.trans (List.prefix_append _ _)

theorem Inv.consumed_prefix (hinv : Inv total state) :
    state.consumed <+: state.produced := by
  have hproduced := (hinv.ahead .producer).2.2.1
  have hconsumed := (hinv.ahead .consumer).2.2.2
  have hroom := hinv.room .consumer
  simp only [State.count, State.moved, Role.stock, Role.other] at *
  have hle : state.consumed.length ≤ state.produced.length := by omega
  rw [show state.consumed = letters state.consumed.length from
      hinv.moved .consumer,
    show state.produced = letters state.produced.length from
      hinv.moved .producer]
  exact letters_prefix hle

/-- A role with an unfinished process has iterations left. -/
theorem left_pos (hi : state.processes[i]? = some process)
    (hleft : 1 ≤ process.left) : 1 ≤ state.left process.role := by
  refine hleft.trans (List.le_sum_of_mem ?_)
  refine List.mem_map.mpr ⟨process, List.mem_of_getElem? hi, ?_⟩
  rw [if_pos rfl]

/-- When nobody of a role has iterations left, the role has made all its
calls. -/
theorem Inv.count_eq (hinv : Inv total state) (role : Role)
    (hdone : ∀ process ∈ state.processes, process.role = role →
      process.left = 0) : state.count role = total := by
  have hleft := hinv.left role
  have hzero : state.left role = 0 := by
    refine List.sum_eq_zero fun x hx => ?_
    obtain ⟨process, hmem, rfl⟩ := List.mem_map.mp hx
    by_cases hrole : process.role = role
    · rw [if_pos hrole]
      exact hdone process hmem hrole
    · rw [if_neg hrole]
  omega

/-- A process that cannot take a step has exited or waits for a slot or for the
section. -/
theorem stuck_cases (hi : state.processes[i]? = some process)
    (hstuck : step state i = none) :
    process.pc = .exited ∨
      process.pc = .start ∧
        semop state.semaphores process.role.start = none := by
  simp only [step, hi, Option.bind_some] at hstuck
  cases hpc : process.pc with
  | loop =>
      simp only [advance, hpc] at hstuck
      split at hstuck <;> exact absurd hstuck (by simp)
  | sleep => simp [advance, hpc] at hstuck
  | start =>
      simp only [advance, hpc, Option.map_eq_none_iff] at hstuck
      exact Or.inr ⟨rfl, hstuck⟩
  | load => simp [advance, hpc] at hstuck
  | access pos =>
      cases hrole : process.role <;> simp [advance, hpc, hrole] at hstuck
  | print pos => simp [advance, hpc] at hstuck
  | loadPos => simp [advance, hpc] at hstuck
  | storePos pos => simp [advance, hpc] at hstuck
  | stop => simp [advance, hpc, semop_stop] at hstuck
  | exited => exact Or.inl rfl

/-- As long as a process is unfinished, some process can take a step. -/
theorem Inv.progress (hinv : Inv total state) (htotal : total ≤ emptyNum)
    (hunfinished : ∃ process ∈ state.processes, process.pc ≠ .exited) :
    ∃ i state', LinConsumersProducers.step state i = some state' := by
  by_contra hnone
  have hstuck : ∀ i, LinConsumersProducers.step state i = none := by
    intro i
    rw [Option.eq_none_iff_forall_ne_some]
    exact fun state' hstep => hnone ⟨i, state', hstep⟩
  -- Nobody is inside, so the binary semaphore is free.
  have hbusy : state.busy = 0 := by
    unfold State.busy
    rw [List.countP_eq_zero]
    intro process hmem
    obtain ⟨i, hi⟩ := List.mem_iff_getElem?.mp hmem
    rcases stuck_cases hi (hstuck i) with hpc | ⟨hpc, -⟩
    · rw [hpc]
      exact Bool.false_ne_true
    · rw [hpc]
      exact Bool.false_ne_true
  have hbin := hinv.bin
  have hsplit := busy_eq state
  -- A process that waits finds no slot.
  have hslot : ∀ (i : Nat) (process : Process),
      state.processes[i]? = some process → process.pc ≠ .exited →
      1 ≤ state.left process.role ∧
        state.semaphores process.role.room = 0 := by
    intro i process hi hpc
    rcases stuck_cases hi (hstuck i) with hexited | ⟨hstart, hsemop⟩
    · exact absurd hexited hpc
    · have hknows := hinv.knows i process hi
      unfold State.Knows Knows at hknows
      rw [hstart] at hknows
      refine ⟨left_pos hi hknows, ?_⟩
      by_contra hroom
      have hsome := semop_start.mpr ⟨Nat.pos_of_ne_zero hroom,
        show 1 ≤ state.semaphores .bin by omega, rfl⟩
      exact absurd (hsemop.symm.trans hsome) (by simp)
  have hproducers : ∀ process ∈ state.processes, process.role = .producer →
      process.left = 0 := by
    intro process hmem hrole
    obtain ⟨i, hi⟩ := List.mem_iff_getElem?.mp hmem
    by_cases hpc : process.pc = .exited
    · have hknows := hinv.knows i process hi
      unfold State.Knows Knows at hknows
      rwa [hpc] at hknows
    · obtain ⟨hleft, hroom⟩ := hslot i process hi hpc
      rw [hrole] at hleft hroom
      have hcount := hinv.left .producer
      have hempty := hinv.room .producer
      simp only [Role.room, Role.stock, Role.other] at hempty hroom
      omega
  have hall := hinv.count_eq .producer hproducers
  obtain ⟨process, hmem, hpc⟩ := hunfinished
  obtain ⟨i, hi⟩ := List.mem_iff_getElem?.mp hmem
  obtain ⟨hleft, hroom⟩ := hslot i process hi hpc
  have hcount := hinv.left process.role
  have hslots := hinv.room process.role
  cases hrole : process.role with
  | producer =>
      rw [hrole] at hleft hcount
      omega
  | consumer =>
      rw [hrole] at hleft hcount hroom hslots
      simp only [Role.room, Role.stock, Role.other] at hslots hroom
      omega

/-! ## Runs -/

/-- What is delivered by `p` producers and consumers of `k` items each. -/
structure Delivered (p k : Nat) (state : State) : Prop where
  in_bounds : ∀ index ∈ state.accesses, index < emptyNum
  rpos_le : state.shm.rpos ≤ state.shm.wpos
  reads_finished : ∀ (i : Nat) (process : Process) (pos : Nat),
    state.processes[i]? = some process → process.role = .consumer →
    process.pc = .access pos →
    pos < state.finished ∧ state.produced[pos]? = some (state.shm.data pos)
  consumed_prefix : state.consumed <+: state.produced
  produced_eq : state.produced = letters state.produced.length
  none_lost : state.busy = 0 →
    state.shm.wpos = state.finished ∧ state.produced.length = state.finished ∧
      state.shm.rpos = state.taken ∧ state.consumed.length = state.taken
  slots : state.semaphores .empty + state.semaphores .full + state.busy =
    emptyNum
  progress : (∃ process ∈ state.processes, process.pc ≠ .exited) →
    ∃ i state', step state i = some state'
  all_consumed : (∀ process ∈ state.processes, process.pc = .exited) →
    state.consumed.length = p * k ∧ state.consumed = state.produced

theorem Inv.delivered {p k : Nat} (hinv : Inv (p * k) state)
    (htotal : p * k ≤ emptyNum) : Delivered p k state := by
  have hproducer := hinv.ahead .producer
  have hconsumer := hinv.ahead .consumer
  have hempty := hinv.room .producer
  have hfull := hinv.room .consumer
  have hsplit := busy_eq state
  simp only [State.count, State.moved, Buf.pos, Role.room, Role.stock,
    Role.other] at hproducer hconsumer hempty hfull
  constructor
  · exact hinv.accesses
  · omega
  · intro i process pos hi hrole hpc
    obtain ⟨hlt, hdata⟩ := hinv.read htotal hi hpc hrole
    refine ⟨hlt, ?_⟩
    have hlen : pos < state.produced.length := by omega
    rw [show state.produced = letters state.produced.length from
      hinv.moved .producer, hdata]
    simp [letters, hlen]
  · exact hinv.consumed_prefix
  · exact hinv.moved .producer
  · intro hbusy
    omega
  · omega
  · exact hinv.progress htotal
  · intro hexited
    -- A process exits from its loop only with nothing left to do, so both roles have made
    -- all p * k calls.
    have hdone : ∀ process ∈ state.processes, process.left = 0 := by
      intro process hmem
      obtain ⟨i, hi⟩ := List.mem_iff_getElem?.mp hmem
      have hknows := hinv.knows i process hi
      unfold State.Knows Knows at hknows
      rwa [hexited process hmem] at hknows
    have hfinished := hinv.count_eq .producer fun process hmem _ =>
      hdone process hmem
    have htaken := hinv.count_eq .consumer fun process hmem _ =>
      hdone process hmem
    have hbusy : state.busy = 0 := by
      unfold State.busy
      rw [List.countP_eq_zero]
      intro process hmem
      rw [hexited process hmem]
      exact Bool.false_ne_true
    simp only [State.count] at hfinished htaken
    have hlength : state.consumed.length = state.produced.length := by omega
    exact ⟨by omega, hinv.consumed_prefix.eq_of_length hlength⟩

/-- Whatever the order of the steps of `p` producers and `p` consumers of `k`
items each, with room for all items: every item is delivered once and in
order, and nobody gets stuck. -/
theorem items_delivered {p k : Nat} {events : List Nat}
    (htotal : p * k ≤ emptyNum)
    (hrun : run step (State.initial p k) events = some state) :
    Delivered p k state :=
  (run_invariant (fun _ _ _ hinv hstep => hinv.step htotal hstep)
    (Inv.initial p k) hrun).delivered htotal

/-- Producers 0 and 1 and consumers 2 and 3 of two items each take turns. -/
def interleaved : List Nat :=
  [0, 3, 2, 2, 1, 0, 0, 3, 0, 0, 1, 0, 0, 0, 0, 2, 2, 0, 0, 2, 2, 2, 2, 2, 0, 0, 2, 2, 0, 0,
    0, 0, 0, 2, 2, 0, 2, 2, 2, 2, 2, 1, 1, 1, 2, 1, 1, 1, 1, 3, 3, 3, 1, 3, 3, 3, 3, 3, 1, 1,
    1, 1, 1, 1, 1, 3, 3, 3, 3, 3, 3, 3]

theorem items_delivered_sample :
    ∃ state, run step (State.initial 2 2) interleaved = some state ∧
      Delivered 2 2 state ∧ state.consumed = [97, 98, 99, 100] := by
  have hsome : (run step (State.initial 2 2) interleaved).isSome = true := by
    decide +kernel
  have hconsumed : (run step (State.initial 2 2) interleaved).map State.consumed =
      some [97, 98, 99, 100] := by
    decide +kernel
  obtain ⟨state, hrun⟩ := Option.isSome_iff_exists.mp hsome
  rw [hrun, Option.map_some, Option.some.injEq] at hconsumed
  exact ⟨state, hrun, items_delivered (by decide) hrun, hconsumed⟩

end LinConsumersProducers
end MutualExclusion
end OsStuff
