import OsStuff.Library.Interleaving
import OsStuff.Library.OpenFiles

/-!
# `3_th.c` and `3_th_append.c`

Threads that open the same file for writing, each with a stream of its own.  A
stream keeps what is printed to it in a buffer, which goes to the file when it
is full and another character comes, and when the stream is closed.  With mode
`w` the file is cut when it is opened and a stream writes at its own offset;
with mode `a` every write goes to the end of the file.

`fopen` and `stat` succeed, and so do the writes behind `fprintf` and `fclose`.  The
lines of output keep the size of the file; its inode number and the position of the
stream are left out.  Between a `stat` and the `printf` of its result other threads
may run; `sizes`, which is not part of the program's memory, is what the calls of
`stat` have returned, in their order.
-/

namespace OsStuff
namespace BufferedIO
namespace OutputFiles

open Library Library.OpenFiles Library.Interleaving Library.Processes

/-- The size of the buffer of a stream: the block size of the file. -/
def bufferSize : Nat := 4096

theorem bufferSize_pos : 0 < bufferSize := by decide

/-- The mode given to `fopen`. -/
inductive Mode
  | w
  | a
  deriving DecidableEq, Repr

/-- `struct th_data`.  The loop ends as long as `symb_end` is below `INT_MAX`. -/
structure ThData where
  symbStart : Int
  symbEnd : Int
  deriving DecidableEq, Repr

/-- What a thread does next: `loop i` is the round of the loop for `i`. -/
inductive Pc
  | fopen
  | statOpened
  | printOpened (size : Nat)
  | loop (i : Int)
  | fclose
  | statClosed
  | printClosed (size : Nat)
  | returned
  deriving DecidableEq, Repr

/-- `output.txt`, and the sizes that `stat` has returned and that have been printed,
each with its thread. -/
structure Shared where
  output : List UInt8
  sizes : List (Nat × Nat)
  stdout : List (Nat × Nat)
  deriving DecidableEq, Repr

/-- A thread with the buffer of its stream and the offset of its open file. -/
structure Thread where
  data : ThData
  pc : Pc
  buf : List UInt8
  pos : Nat
  deriving DecidableEq, Repr

/-- What `fopen` does to the file. -/
def fopen (mode : Mode) (output : List UInt8) : List UInt8 :=
  match mode with
  | .w => []
  | .a => output

/-- What the file becomes when the buffer of a stream goes to it. -/
def flush (mode : Mode) (output : List UInt8) (pos : Nat) (buf : List UInt8) :
    List UInt8 :=
  match mode with
  | .w => writeAt 0 output pos buf
  | .a => output ++ buf

/-- The next step of thread `i` of `th_work`. -/
def thWork (mode : Mode) (i : Nat) (shared : Shared) (thread : Thread) :
    Option (Shared × Thread) :=
  match thread.pc with
  | .fopen =>
      some ({ shared with output := fopen mode shared.output },
        { thread with pc := .statOpened, buf := [], pos := 0 })
  | .statOpened =>
      some ({ shared with sizes := shared.sizes ++ [(i, shared.output.length)] },
        { thread with pc := .printOpened shared.output.length })
  | .printOpened size =>
      some ({ shared with stdout := shared.stdout ++ [(i, size)] },
        { thread with pc := .loop thread.data.symbStart })
  | .loop symb =>
      if symb ≤ thread.data.symbEnd then
        let c := UInt8.ofInt symb
        if thread.buf.length = bufferSize then
          some ({ shared with
              output := flush mode shared.output thread.pos thread.buf },
            { thread with
              pc := .loop (symb + 1)
              buf := [c]
              pos := thread.pos + thread.buf.length })
        else
          some (shared, { thread with pc := .loop (symb + 1), buf := thread.buf ++ [c] })
      else some (shared, { thread with pc := .fclose })
  | .fclose =>
      some ({ shared with
          output := flush mode shared.output thread.pos thread.buf },
        { thread with
          pc := .statClosed
          buf := []
          pos := thread.pos + thread.buf.length })
  | .statClosed =>
      some ({ shared with sizes := shared.sizes ++ [(i, shared.output.length)] },
        { thread with pc := .printClosed shared.output.length })
  | .printClosed size =>
      some ({ shared with stdout := shared.stdout ++ [(i, size)] },
        { thread with pc := .returned })
  | .returned => none

/-- `main` after it has created its threads; `start` is what `output.txt` held
before. -/
def initial (start : List UInt8) (datas : List ThData) : System Shared Thread :=
  ⟨⟨start, [], []⟩, datas.map fun data => ⟨data, .fopen, [], 0⟩⟩

def Finished (system : System Shared Thread) : Prop :=
  ∀ thread ∈ system.threads, thread.pc = .returned

instance (system : System Shared Thread) : Decidable (Finished system) :=
  inferInstanceAs (Decidable (∀ _ ∈ _, _))

/-- The characters that a thread prints. -/
def symbols (data : ThData) : List UInt8 :=
  (List.range (data.symbEnd + 1 - data.symbStart).toNat).map fun k : Nat =>
    UInt8.ofInt (data.symbStart + (k : Int))

/-- The characters printed before the round for `symb`. -/
def printed (data : ThData) (symb : Int) : List UInt8 :=
  (symbols data).take (symb - data.symbStart).toNat

variable {mode : Mode} {start : List UInt8} {datas : List ThData} {n i : Nat}
  {system system' : System Shared Thread} {shared shared' : Shared}
  {thread thread' : Thread} {data : ThData} {symb : Int} {events : List Nat}

theorem length_symbols :
    (symbols data).length = (data.symbEnd + 1 - data.symbStart).toNat := by
  rw [symbols, List.length_map, List.length_range]

theorem printed_succ (hstart : data.symbStart ≤ symb) (hend : symb ≤ data.symbEnd) :
    printed data (symb + 1) = printed data symb ++ [UInt8.ofInt symb] := by
  have hindex : (symb - data.symbStart).toNat < (symbols data).length := by
    rw [length_symbols]
    omega
  have hget : (symbols data)[(symb - data.symbStart).toNat] = UInt8.ofInt symb := by
    simp only [symbols, List.getElem_map, List.getElem_range]
    congr 1
    omega
  have hsucc : (symb + 1 - data.symbStart).toNat = (symb - data.symbStart).toNat + 1 := by
    omega
  rw [printed, hsucc, List.take_succ_eq_append_getElem hindex, hget]
  rfl

theorem printed_end (hend : ¬ symb ≤ data.symbEnd) : printed data symb = symbols data := by
  apply List.take_of_length_le
  rw [length_symbols]
  omega

theorem length_printed (hend : symb ≤ data.symbEnd + 1) :
    (printed data symb).length = (symb - data.symbStart).toNat := by
  rw [printed, List.length_take, length_symbols]
  omega

/-- A round of the loop. -/
theorem thWork_loop {buf : List UInt8} {pos : Nat} :
    thWork mode i shared ⟨data, .loop symb, buf, pos⟩ =
      if symb ≤ data.symbEnd then
        if buf.length = bufferSize then
          some ({ shared with output := flush mode shared.output pos buf },
            ⟨data, .loop (symb + 1), [UInt8.ofInt symb], pos + buf.length⟩)
        else
          some (shared, ⟨data, .loop (symb + 1), buf ++ [UInt8.ofInt symb], pos⟩)
      else some (shared, ⟨data, .fclose, buf, pos⟩) := rfl

/-! ## Every run comes to an end -/

/-- The steps that a thread has left at most. -/
def Thread.weight (thread : Thread) : Nat :=
  match thread.pc with
  | .fopen => (thread.data.symbEnd + 1 - thread.data.symbStart).toNat + 7
  | .statOpened => (thread.data.symbEnd + 1 - thread.data.symbStart).toNat + 6
  | .printOpened _ => (thread.data.symbEnd + 1 - thread.data.symbStart).toNat + 5
  | .loop symb => (thread.data.symbEnd + 1 - symb).toNat + 4
  | .fclose => 3
  | .statClosed => 2
  | .printClosed _ => 1
  | .returned => 0

def weight (system : System Shared Thread) : Nat :=
  (system.threads.map Thread.weight).sum

theorem thWork_weight (hadvance : thWork mode i shared thread = some (shared', thread')) :
    thread'.data = thread.data ∧ thread'.weight < thread.weight := by
  obtain ⟨data, pc, buf, pos⟩ := thread
  cases pc with
  | fopen =>
      rw [thWork, Option.some.injEq, Prod.mk.injEq] at hadvance
      rw [← hadvance.2]
      exact ⟨rfl, Nat.lt_succ_self _⟩
  | statOpened | printOpened size =>
      rw [thWork, Option.some.injEq, Prod.mk.injEq] at hadvance
      rw [← hadvance.2]
      exact ⟨rfl, Nat.lt_succ_self _⟩
  | loop symb =>
      rw [thWork_loop] at hadvance
      split at hadvance
      · rename_i hend
        have hless : (data.symbEnd + 1 - (symb + 1)).toNat + 4 <
            (data.symbEnd + 1 - symb).toNat + 4 := by
          omega
        split at hadvance
        · rw [Option.some.injEq, Prod.mk.injEq] at hadvance
          rw [← hadvance.2]
          exact ⟨rfl, hless⟩
        · rw [Option.some.injEq, Prod.mk.injEq] at hadvance
          rw [← hadvance.2]
          exact ⟨rfl, hless⟩
      · rw [Option.some.injEq, Prod.mk.injEq] at hadvance
        rw [← hadvance.2]
        refine ⟨rfl, ?_⟩
        simp only [Thread.weight]
        omega
  | fclose =>
      rw [thWork, Option.some.injEq, Prod.mk.injEq] at hadvance
      rw [← hadvance.2]
      exact ⟨rfl, Nat.lt_succ_self _⟩
  | statClosed | printClosed size =>
      rw [thWork, Option.some.injEq, Prod.mk.injEq] at hadvance
      rw [← hadvance.2]
      exact ⟨rfl, Nat.lt_succ_self _⟩
  | returned => exact absurd hadvance (by simp [thWork])

theorem exists_step (hunfinished : ¬ Finished system) :
    ∃ i system', Interleaving.step (thWork mode) system i = some system' := by
  unfold Finished at hunfinished
  push Not at hunfinished
  obtain ⟨thread, hmem, hpc⟩ := hunfinished
  obtain ⟨i, hi⟩ := List.mem_iff_getElem?.mp hmem
  have hadvance : ∃ next, thWork mode i system.shared thread = some next := by
    obtain ⟨data, pc, buf, pos⟩ := thread
    cases pc with
    | fopen => exact ⟨_, rfl⟩
    | statOpened | printOpened size => exact ⟨_, rfl⟩
    | loop symb =>
        rw [thWork_loop]
        split
        · split
          · exact ⟨_, rfl⟩
          · exact ⟨_, rfl⟩
        · exact ⟨_, rfl⟩
    | fclose => exact ⟨_, rfl⟩
    | statClosed | printClosed size => exact ⟨_, rfl⟩
    | returned => exact absurd rfl hpc
  obtain ⟨⟨shared, thread'⟩, hadvance⟩ := hadvance
  exact ⟨i, _, step_eq hi hadvance⟩

/-- Every run can be continued until all threads have returned. -/
theorem complete (mode : Mode) (system : System Shared Thread) :
    ∃ events final, run (Interleaving.step (thWork mode)) system events = some final ∧
      Finished final := by
  refine @run_complete _ _ _ (fun _ => True) Finished weight ?_ ?_ system trivial
  · intro state i next _ hstep
    obtain ⟨thread, shared', thread', hi, hadvance, rfl⟩ := step_cases hstep
    have hsum := @sum_map_set _ _ _ _ thread' Thread.weight hi
    have hless := (thWork_weight hadvance).2
    refine ⟨trivial, ?_⟩
    change ((state.threads.set i thread').map Thread.weight).sum <
      (state.threads.map Thread.weight).sum
    omega
  · exact fun state _ hunfinished => exists_step hunfinished

/-- The threads keep their data. -/
theorem map_data (hrun : run (Interleaving.step (thWork mode)) (initial start datas) events =
    some system) : system.threads.map Thread.data = datas := by
  rw [map_run (fun i shared thread shared' thread' hadvance =>
    (thWork_weight hadvance).1) hrun]
  simp [initial, Function.comp_def]

/-! ## What is printed -/

/-- What `stat` has returned to a thread that has not printed it yet. -/
def Thread.unprinted (thread : Thread) : List Nat :=
  match thread.pc with
  | .printOpened size => [size]
  | .printClosed size => [size]
  | _ => []

/-- Each thread has printed the sizes it has got, in their order. -/
def Told (system : System Shared Thread) : Prop :=
  ∀ (i : Nat) (thread : Thread), system.threads[i]? = some thread →
    entriesOf i system.shared.sizes = entriesOf i system.shared.stdout ++ thread.unprinted

/-- What a step of a thread does to the sizes: the thread gets one, prints it, or
has nothing to do with them. -/
inductive Telling (i : Nat) (shared shared' : Shared) (before after : List Nat) : Prop
  | stat (size : Nat) (hsizes : shared'.sizes = shared.sizes ++ [(i, size)])
      (hstdout : shared'.stdout = shared.stdout) (hbefore : before = [])
      (hafter : after = [size])
  | print (size : Nat) (hsizes : shared'.sizes = shared.sizes)
      (hstdout : shared'.stdout = shared.stdout ++ [(i, size)])
      (hbefore : before = [size]) (hafter : after = [])
  | keep (hsizes : shared'.sizes = shared.sizes)
      (hstdout : shared'.stdout = shared.stdout) (hsame : after = before)

theorem thWork_telling (hadvance : thWork mode i shared thread = some (shared', thread')) :
    Telling i shared shared' thread.unprinted thread'.unprinted := by
  obtain ⟨data, pc, buf, pos⟩ := thread
  cases pc with
  | fopen | fclose =>
      rw [thWork, Option.some.injEq, Prod.mk.injEq] at hadvance
      obtain ⟨rfl, rfl⟩ := hadvance
      exact Telling.keep rfl rfl rfl
  | statOpened | statClosed =>
      rw [thWork, Option.some.injEq, Prod.mk.injEq] at hadvance
      obtain ⟨rfl, rfl⟩ := hadvance
      exact Telling.stat _ rfl rfl rfl rfl
  | printOpened size | printClosed size =>
      rw [thWork, Option.some.injEq, Prod.mk.injEq] at hadvance
      obtain ⟨rfl, rfl⟩ := hadvance
      exact Telling.print size rfl rfl rfl rfl
  | loop symb =>
      rw [thWork_loop] at hadvance
      split at hadvance
      · split at hadvance <;>
        · rw [Option.some.injEq, Prod.mk.injEq] at hadvance
          obtain ⟨rfl, rfl⟩ := hadvance
          exact Telling.keep rfl rfl rfl
      · rw [Option.some.injEq, Prod.mk.injEq] at hadvance
        obtain ⟨rfl, rfl⟩ := hadvance
        exact Telling.keep rfl rfl rfl
  | returned => exact absurd hadvance (by simp [thWork])

theorem told_initial : Told (initial start datas) := by
  intro i thread hi
  obtain ⟨data, -, rfl⟩ := List.mem_map.mp (List.mem_of_getElem? hi)
  rfl

theorem Told.step (htold : Told system)
    (hstep : Interleaving.step (thWork mode) system i = some system') : Told system' := by
  obtain ⟨thread, shared', thread', hi, hadvance, rfl⟩ := step_cases hstep
  have hown := htold i thread hi
  intro k other hk
  change entriesOf k shared'.sizes = entriesOf k shared'.stdout ++ other.unprinted
  rcases set_cases hk with ⟨rfl, rfl⟩ | ⟨hne, hother⟩
  · cases thWork_telling hadvance with
    | stat size hsizes hstdout hbefore hafter =>
        rw [hsizes, hstdout, hafter, entriesOf_append, entriesOf_self, hown, hbefore,
          List.append_nil]
    | print size hsizes hstdout hbefore hafter =>
        rw [hsizes, hstdout, hafter, entriesOf_append, entriesOf_self, hown, hbefore,
          List.append_nil]
    | keep hsizes hstdout hsame =>
        rw [hsizes, hstdout, hsame]
        exact hown
  · -- The others' entries are where they were.
    have hthem := htold k other hother
    cases thWork_telling hadvance with
    | stat size hsizes hstdout hbefore hafter =>
        rw [hsizes, hstdout, entriesOf_append, entriesOf_other (Ne.symm hne),
          List.append_nil]
        exact hthem
    | print size hsizes hstdout hbefore hafter =>
        rw [hsizes, hstdout, entriesOf_append, entriesOf_other (Ne.symm hne),
          List.append_nil]
        exact hthem
    | keep hsizes hstdout hsame =>
        rw [hsizes, hstdout]
        exact hthem

/-- When all threads have returned, each has printed what `stat` has returned to
it. -/
theorem told_run
    (hrun : run (Interleaving.step (thWork mode)) (initial start datas) events = some system)
    (hfinished : Finished system) (hi : i < datas.length) :
    entriesOf i system.shared.stdout = entriesOf i system.shared.sizes := by
  have htold : Told system :=
    run_invariant (fun _ _ _ htold hstep => Told.step htold hstep) told_initial hrun
  rw [← map_data hrun, List.length_map] at hi
  have hget := List.getElem?_eq_getElem hi
  rw [htold i _ hget, Thread.unprinted, hfinished _ (List.getElem_mem hi), List.append_nil]

/-! ## Mode `a` -/

/-- What a thread has put into its stream is `out`: whole blocks of its
characters, which have been written, and then the buffer. -/
def Kept (data : ThData) (out : List UInt8) (written : List (List UInt8))
    (buf : List UInt8) : Prop :=
  ∃ k, written = (List.range k).map (block bufferSize (symbols data)) ∧
    out = (symbols data).take (bufferSize * k) ++ buf ∧
    buf.length ≤ bufferSize ∧ (buf = [] → k = 0)

/-- The blocks of the characters of a thread. -/
def symbolBlocks (data : ThData) : List (List UInt8) :=
  (List.range (blocks bufferSize (symbols data))).map (block bufferSize (symbols data))

/-- What is known of what a thread has written. -/
def Wrote (written : List (List UInt8)) (thread : Thread) : Prop :=
  match thread.pc with
  | .fopen => written = []
  | .statOpened | .printOpened _ => written = [] ∧ thread.buf = []
  | .loop symb =>
      thread.data.symbStart ≤ symb ∧
        Kept thread.data (printed thread.data symb) written thread.buf
  | .fclose => Kept thread.data (symbols thread.data) written thread.buf
  | .statClosed | .printClosed _ => written = symbolBlocks thread.data
  | .returned => written = symbolBlocks thread.data

variable {written : List (List UInt8)} {out buf : List UInt8} {c : UInt8}

/-- A full buffer is the next block. -/
theorem Kept.full {rest : List UInt8} (hkept : Kept data out written buf)
    (hfront : out ++ rest = symbols data) (hfull : buf.length = bufferSize) :
    Kept data (out ++ [c]) (written ++ [buf]) [c] := by
  obtain ⟨k, rfl, rfl, -, -⟩ := hkept
  have hblock : block bufferSize (symbols data) k = buf :=
    block_of_append hfront (Or.inl hfull)
  refine ⟨k + 1, ?_, ?_, ?_, by simp⟩
  · rw [List.range_succ, List.map_append, List.map_singleton, hblock]
  · have hmul : bufferSize * (k + 1) = bufferSize * k + bufferSize := by ring
    rw [hmul, List.take_add]
    congr 2
    exact hblock.symm
  · exact bufferSize_pos

theorem Kept.put (hkept : Kept data out written buf) (hroom : buf.length ≠ bufferSize) :
    Kept data (out ++ [c]) written (buf ++ [c]) := by
  obtain ⟨k, rfl, rfl, hle, hzero⟩ := hkept
  refine ⟨k, rfl, by simp, ?_, by simp⟩
  rw [List.length_append, List.length_singleton]
  omega

/-- The last block goes to the file when the stream is closed. -/
theorem Kept.close (hkept : Kept data (symbols data) written buf) :
    (written ++ if buf = [] then [] else [buf]) = symbolBlocks data := by
  obtain ⟨k, rfl, hout, hle, hzero⟩ := hkept
  unfold symbolBlocks
  by_cases hnil : buf = []
  · obtain rfl := hzero hnil
    have hempty : symbols data = [] := by
      rw [hout, hnil]
      simp
    rw [if_pos hnil, hempty]
    simp [blocks, bufferSize]
  · have hsplit : (symbols data).take (bufferSize * k) ++ buf ++ [] = symbols data := by
      rw [List.append_nil]
      exact hout.symm
    have hblock : block bufferSize (symbols data) k = buf :=
      block_of_append hsplit (Or.inr ⟨hle, rfl⟩)
    have hlt : k < blocks bufferSize (symbols data) := by
      rw [← not_le, ← block_eq_nil_iff bufferSize_pos, hblock]
      exact hnil
    have hlast : blocks bufferSize (symbols data) ≤ k + 1 := by
      rw [← not_lt, lt_blocks_iff bufferSize_pos, hout, List.length_append,
        List.length_take]
      have hmul : bufferSize * (k + 1) = bufferSize * k + bufferSize := by ring
      omega
    have hblocks : blocks bufferSize (symbols data) = k + 1 := by omega
    rw [if_neg hnil, hblocks, List.range_succ, List.map_append, List.map_singleton,
      hblock]

/-- What a step of a thread can do to the file and to the sizes. -/
theorem thWork_append
    (hadvance : thWork .a i shared thread = some (shared', thread'))
    (hwrote : Wrote written thread) :
    ∃ entries : List (List UInt8), shared'.output = shared.output ++ entries.flatten ∧
      Wrote (written ++ entries) thread' ∧
      (shared'.sizes = shared.sizes ∨
        (entries = [] ∧ shared'.sizes = shared.sizes ++ [(i, shared.output.length)])) := by
  obtain ⟨data, pc, buf, pos⟩ := thread
  cases pc with
  | fopen =>
      rw [thWork, Option.some.injEq, Prod.mk.injEq] at hadvance
      obtain ⟨rfl, rfl⟩ := hadvance
      have hnone : written = [] := hwrote
      exact ⟨[], by simp [fopen], ⟨by simp [hnone], rfl⟩, Or.inl rfl⟩
  | statOpened =>
      rw [thWork, Option.some.injEq, Prod.mk.injEq] at hadvance
      obtain ⟨rfl, rfl⟩ := hadvance
      obtain ⟨rfl, rfl⟩ : written = [] ∧ buf = [] := hwrote
      exact ⟨[], by simp, ⟨rfl, rfl⟩, Or.inr ⟨rfl, rfl⟩⟩
  | printOpened size =>
      rw [thWork, Option.some.injEq, Prod.mk.injEq] at hadvance
      obtain ⟨rfl, rfl⟩ := hadvance
      obtain ⟨rfl, rfl⟩ : written = [] ∧ buf = [] := hwrote
      refine ⟨[], by simp, ⟨le_refl _, 0, rfl, ?_, Nat.zero_le _, fun _ => rfl⟩,
        Or.inl rfl⟩
      simp [printed]
  | loop symb =>
      obtain ⟨hstart, hkept⟩ : data.symbStart ≤ symb ∧
        Kept data (printed data symb) written buf := hwrote
      rw [thWork_loop] at hadvance
      split at hadvance
      · rename_i hend
        have hsucc := printed_succ hstart hend
        have hstart' : data.symbStart ≤ symb + 1 := by omega
        split at hadvance
        · rename_i hfull
          rw [Option.some.injEq, Prod.mk.injEq] at hadvance
          obtain ⟨rfl, rfl⟩ := hadvance
          refine ⟨[buf], by simp [flush], ⟨hstart', ?_⟩, Or.inl rfl⟩
          change Kept data (printed data (symb + 1)) (written ++ [buf]) [UInt8.ofInt symb]
          rw [hsucc]
          exact hkept.full (List.take_append_drop _ _) hfull
        · rename_i hroom
          rw [Option.some.injEq, Prod.mk.injEq] at hadvance
          obtain ⟨rfl, rfl⟩ := hadvance
          refine ⟨[], by simp, ⟨hstart', ?_⟩, Or.inl rfl⟩
          change Kept data (printed data (symb + 1)) (written ++ []) _
          rw [hsucc, List.append_nil]
          exact hkept.put hroom
      · rename_i hend
        rw [Option.some.injEq, Prod.mk.injEq] at hadvance
        obtain ⟨rfl, rfl⟩ := hadvance
        refine ⟨[], by simp, ?_, Or.inl rfl⟩
        change Kept data (symbols data) (written ++ []) buf
        rw [List.append_nil, ← printed_end hend]
        exact hkept
  | fclose =>
      rw [thWork, Option.some.injEq, Prod.mk.injEq] at hadvance
      obtain ⟨rfl, rfl⟩ := hadvance
      refine ⟨if buf = [] then [] else [buf], ?_, Kept.close hwrote, Or.inl rfl⟩
      split
      · rename_i hnil
        simp [flush, hnil]
      · simp [flush]
  | statClosed =>
      rw [thWork, Option.some.injEq, Prod.mk.injEq] at hadvance
      obtain ⟨rfl, rfl⟩ := hadvance
      refine ⟨[], by simp, ?_, Or.inr ⟨rfl, rfl⟩⟩
      rw [List.append_nil]
      exact hwrote
  | printClosed size =>
      rw [thWork, Option.some.injEq, Prod.mk.injEq] at hadvance
      obtain ⟨rfl, rfl⟩ := hadvance
      refine ⟨[], by simp, ?_, Or.inl rfl⟩
      rw [List.append_nil]
      exact hwrote
  | returned => exact absurd hadvance (by simp [thWork])

/-- The file has grown by the writes in the log. -/
structure Appended (start : List UInt8) (log : List (Nat × List UInt8))
    (system : System Shared Thread) : Prop where
  output : system.shared.output = start ++ (log.map Prod.snd).flatten
  owners : ∀ entry ∈ log, entry.1 < system.threads.length
  wrote : ∀ (i : Nat) (thread : Thread), system.threads[i]? = some thread →
    Wrote (entriesOf i log) thread
  sizes_le : ∀ size ∈ system.shared.sizes, size.2 ≤ system.shared.output.length
  sizes : system.shared.sizes.Pairwise fun size size' => size.2 ≤ size'.2

theorem appended_initial : Appended start [] (initial start datas) := by
  constructor
  · simp [initial]
  · exact fun entry hentry => absurd hentry List.not_mem_nil
  · intro i thread hi
    obtain ⟨data, -, rfl⟩ := List.mem_map.mp (List.mem_of_getElem? hi)
    rfl
  · exact fun size hsize => absurd hsize List.not_mem_nil
  · exact List.Pairwise.nil

theorem Appended.step {log : List (Nat × List UInt8)} (happended : Appended start log system)
    (hstep : Interleaving.step (thWork .a) system i = some system') :
    ∃ log', Appended start log' system' := by
  obtain ⟨thread, shared', thread', hi, hadvance, rfl⟩ := step_cases hstep
  obtain ⟨entries, houtput, hwrote, hsizes⟩ :=
    thWork_append hadvance (happended.wrote i thread hi)
  refine ⟨log ++ entries.map fun entry => (i, entry), ?_, ?_, ?_, ?_, ?_⟩
  · rw [houtput, happended.output]
    simp [Function.comp_def]
  · intro entry hentry
    change entry.1 < (system.threads.set i thread').length
    rw [List.length_set]
    rcases List.mem_append.mp hentry with hold | hnew
    · exact happended.owners entry hold
    · obtain ⟨written, -, rfl⟩ := List.mem_map.mp hnew
      exact lt_length hi
  · intro k other hk
    rw [entriesOf_append]
    rcases set_cases hk with ⟨rfl, rfl⟩ | ⟨hne, hother⟩
    · rw [entriesOf_map_self]
      exact hwrote
    · rw [entriesOf_map_other (Ne.symm hne), List.append_nil]
      exact happended.wrote k other hother
  · intro size hsize
    change size ∈ shared'.sizes at hsize
    have hgrown : system.shared.output.length ≤ shared'.output.length := by
      rw [houtput, List.length_append]
      omega
    change size.2 ≤ shared'.output.length
    rcases hsizes with hsame | ⟨-, hnew⟩
    · exact (happended.sizes_le size (hsame ▸ hsize)).trans hgrown
    · rw [hnew] at hsize
      rcases List.mem_append.mp hsize with hold | hlast
      · exact (happended.sizes_le size hold).trans hgrown
      · rw [List.mem_singleton.mp hlast]
        exact hgrown
  · change shared'.sizes.Pairwise _
    rcases hsizes with hsame | ⟨-, hnew⟩
    · rw [hsame]
      exact happended.sizes
    · rw [hnew, List.pairwise_append]
      refine ⟨happended.sizes, List.pairwise_singleton _ _, ?_⟩
      intro size hsize last hlast
      rw [List.mem_singleton.mp hlast]
      exact happended.sizes_le size hsize

/-- `3_th_append.c` with any threads, whatever they print: every run can be finished,
and when all have returned, nothing of what was in the file and of what the threads
printed is lost.  Behind the old contents stand the blocks that the threads have
written, those of each thread in order.  The sizes that `stat` has returned have
never shrunk, and each thread has printed those that it has got. -/
theorem append_run
    (hrun : run (Interleaving.step (thWork .a)) (initial start datas) events = some system) :
    (∃ more final, run (Interleaving.step (thWork .a)) system more = some final ∧
      Finished final) ∧
    (Finished system → ∃ log : List (Nat × List UInt8),
      system.shared.output = start ++ (log.map Prod.snd).flatten ∧
      (∀ entry ∈ log, entry.1 < datas.length) ∧
      (∀ (i : Nat) (data : ThData), datas[i]? = some data →
        entriesOf i log = symbolBlocks data) ∧
      (system.shared.sizes.Pairwise fun size size' => size.2 ≤ size'.2) ∧
      ∀ i < datas.length,
        entriesOf i system.shared.stdout = entriesOf i system.shared.sizes) := by
  refine ⟨complete .a system, fun hfinished => ?_⟩
  obtain ⟨log, happended⟩ := @run_invariant _ _ _
    (fun state : System Shared Thread => ∃ log, Appended start log state)
    (fun _ _ _ hstate hstep => by
      obtain ⟨log, happended⟩ := hstate
      exact happended.step hstep) _ _ _ ⟨[], appended_initial⟩ hrun
  have hdata := map_data hrun
  refine ⟨log, happended.output, ?_, ?_, happended.sizes,
    fun i hi => told_run hrun hfinished hi⟩
  · rw [← hdata, List.length_map]
    exact happended.owners
  · intro i data hi
    rw [← hdata, List.getElem?_map, Option.map_eq_some_iff] at hi
    obtain ⟨thread, hthread, rfl⟩ := hi
    have hwrote := happended.wrote i thread hthread
    unfold Wrote at hwrote
    rwa [hfinished thread (List.mem_of_getElem? hthread)] at hwrote

/-- Two threads that close their streams in the other order; the second one runs to
its end before the first one prints the size it has got first. -/
theorem append_run_two :
    ∃ log : List (Nat × List UInt8),
      [120, 98, 97] = [120] ++ (log.map Prod.snd).flatten ∧
      (∀ entry ∈ log, entry.1 < 2) ∧
      (∀ (i : Nat) (data : ThData),
        ([⟨97, 97⟩, ⟨98, 98⟩] : List ThData)[i]? = some data →
          entriesOf i log = symbolBlocks data) ∧
      ([(0, 1), (1, 1), (1, 2), (0, 3)].Pairwise
        fun (size size' : Nat × Nat) => size.2 ≤ size'.2) ∧
      ∀ i < 2, entriesOf i [(1, 1), (1, 2), (0, 1), (0, 3)] =
        entriesOf i [(0, 1), (1, 1), (1, 2), (0, 3)] := by
  have hrun : run (Interleaving.step (thWork .a)) (initial [120] [⟨97, 97⟩, ⟨98, 98⟩])
      [0, 0, 1, 1, 1, 1, 1, 1, 1, 1, 0, 0, 0, 0, 0, 0] =
        some ⟨⟨[120, 98, 97], [(0, 1), (1, 1), (1, 2), (0, 3)],
            [(1, 1), (1, 2), (0, 1), (0, 3)]⟩,
          [⟨⟨97, 97⟩, .returned, [], 1⟩, ⟨⟨98, 98⟩, .returned, [], 1⟩]⟩ := by
    decide +kernel
  exact (append_run hrun).2 (by decide)

/-! ## Mode `w` -/

/-- All that a thread prints fits into the buffer of its stream. -/
def Fits (data : ThData) : Prop :=
  (symbols data).length ≤ bufferSize

instance (data : ThData) : Decidable (Fits data) :=
  inferInstanceAs (Decidable (_ ≤ _))

/-- A thread that has not closed its stream has everything in the buffer. -/
def Buffers (thread : Thread) : Prop :=
  match thread.pc with
  | .fopen => True
  | .statOpened | .printOpened _ => thread.buf = [] ∧ thread.pos = 0
  | .loop symb =>
      thread.data.symbStart ≤ symb ∧ thread.buf = printed thread.data symb ∧
        thread.pos = 0
  | .fclose => thread.buf = symbols thread.data ∧ thread.pos = 0
  | .statClosed | .printClosed _ => True
  | .returned => True

/-- The stream of the thread is open. -/
def Pc.opened : Pc → Bool
  | .fopen => false
  | .statOpened => true
  | .printOpened _ => true
  | .loop _ => true
  | .fclose => true
  | .statClosed => false
  | .printClosed _ => false
  | .returned => false

/-- What a step of a thread does to the file: it is cut, it stays, or the thread
covers its beginning. -/
inductive Effect (output : List UInt8) : Thread → Thread → List UInt8 → Prop
  | cut {thread thread' : Thread} (hpc : thread'.pc.opened = true) :
      Effect output thread thread' []
  | keep {thread thread' : Thread} (hbefore : thread.pc ≠ .fopen)
      (hpc : thread'.pc.opened = thread.pc.opened) : Effect output thread thread' output
  | cover {thread thread' : Thread} (hbefore : thread.pc = .fclose) :
      Effect output thread thread'
        (symbols thread.data ++ output.drop (symbols thread.data).length)

theorem thWork_effect
    (hadvance : thWork .w i shared thread = some (shared', thread'))
    (hbuffers : Buffers thread) (hfits : Fits thread.data) :
    Buffers thread' ∧ Effect shared.output thread thread' shared'.output := by
  obtain ⟨data, pc, buf, pos⟩ := thread
  cases pc with
  | fopen =>
      rw [thWork, Option.some.injEq, Prod.mk.injEq] at hadvance
      obtain ⟨rfl, rfl⟩ := hadvance
      exact ⟨⟨rfl, rfl⟩, Effect.cut rfl⟩
  | statOpened =>
      rw [thWork, Option.some.injEq, Prod.mk.injEq] at hadvance
      obtain ⟨rfl, rfl⟩ := hadvance
      exact ⟨hbuffers, Effect.keep (by simp) rfl⟩
  | printOpened size =>
      rw [thWork, Option.some.injEq, Prod.mk.injEq] at hadvance
      obtain ⟨rfl, rfl⟩ := hadvance
      obtain ⟨rfl, rfl⟩ : buf = [] ∧ pos = 0 := hbuffers
      exact ⟨⟨le_refl _, by simp [printed], rfl⟩, Effect.keep (by simp) rfl⟩
  | loop symb =>
      obtain ⟨hstart, rfl, rfl⟩ : data.symbStart ≤ symb ∧ buf = printed data symb ∧
        pos = 0 := hbuffers
      rw [thWork_loop] at hadvance
      split at hadvance
      · rename_i hend
        have hroom : (printed data symb).length ≠ bufferSize := by
          rw [length_printed (by omega)]
          unfold Fits at hfits
          rw [length_symbols] at hfits
          change (data.symbEnd + 1 - data.symbStart).toNat ≤ bufferSize at hfits
          omega
        have hstart' : data.symbStart ≤ symb + 1 := by omega
        rw [if_neg hroom, Option.some.injEq, Prod.mk.injEq] at hadvance
        obtain ⟨rfl, rfl⟩ := hadvance
        exact ⟨⟨hstart', (printed_succ hstart hend).symm, rfl⟩, Effect.keep (by simp) rfl⟩
      · rename_i hend
        rw [Option.some.injEq, Prod.mk.injEq] at hadvance
        obtain ⟨rfl, rfl⟩ := hadvance
        exact ⟨⟨printed_end hend, rfl⟩, Effect.keep (by simp) rfl⟩
  | fclose =>
      obtain ⟨rfl, rfl⟩ : buf = symbols data ∧ pos = 0 := hbuffers
      rw [thWork, Option.some.injEq, Prod.mk.injEq] at hadvance
      obtain ⟨rfl, rfl⟩ := hadvance
      refine ⟨trivial, ?_⟩
      change Effect _ _ _ (writeAt 0 shared.output 0 (symbols data))
      rw [writeAt_zero]
      exact Effect.cover rfl
  | statClosed | printClosed size =>
      rw [thWork, Option.some.injEq, Prod.mk.injEq] at hadvance
      obtain ⟨rfl, rfl⟩ := hadvance
      exact ⟨trivial, Effect.keep (by simp) rfl⟩
  | returned => exact absurd hadvance (by simp [thWork])

/-- Every character of the file is one that some thread has printed at this
place, and the file is as long as what some thread has printed. -/
structure Layered (datas : List ThData) (output : List UInt8) : Prop where
  layer : ∀ k < output.length, ∃ data ∈ datas, output[k]? = (symbols data)[k]?
  length : output = [] ∨ ∃ data ∈ datas, output.length = (symbols data).length

theorem layered_nil : Layered datas [] :=
  ⟨fun k hk => absurd hk (Nat.not_lt_zero k), Or.inl rfl⟩

theorem Layered.cover {output : List UInt8} (hlayered : Layered datas output)
    (hdata : data ∈ datas) :
    Layered datas (symbols data ++ output.drop (symbols data).length) := by
  constructor
  · intro k hk
    by_cases hown : k < (symbols data).length
    · exact ⟨data, hdata, List.getElem?_append_left hown⟩
    · have hshift : (symbols data).length + (k - (symbols data).length) = k := by omega
      rw [List.length_append, List.length_drop] at hk
      rw [List.getElem?_append_right (by omega), List.getElem?_drop, hshift]
      exact hlayered.layer k (by omega)
  · right
    rw [List.length_append, List.length_drop]
    by_cases hlonger : output.length ≤ (symbols data).length
    · exact ⟨data, hdata, by omega⟩
    · rcases hlayered.length with rfl | ⟨other, hother, hlength⟩
      · exact absurd (Nat.zero_le _) hlonger
      · exact ⟨other, hother, by omega⟩

/-- Before anybody has opened the file it is as it was; afterwards it is made of
layers, and as long as no stream is open some thread's characters are on top. -/
structure Covered (datas : List ThData) (system : System Shared Thread) : Prop where
  data : system.threads.map Thread.data = datas
  buffers : ∀ thread ∈ system.threads, Buffers thread
  layers : (∀ thread ∈ system.threads, thread.pc = .fopen) ∨
    (Layered datas system.shared.output ∧
      ((∃ thread ∈ system.threads, thread.pc.opened = true) ∨
        ∃ data ∈ datas, symbols data <+: system.shared.output))

theorem covered_initial : Covered datas (initial start datas) := by
  have hpc : ∀ thread ∈ (initial start datas).threads, thread.pc = .fopen := by
    intro thread hmem
    obtain ⟨data, -, rfl⟩ := List.mem_map.mp hmem
    rfl
  constructor
  · simp [initial, Function.comp_def]
  · intro thread hmem
    unfold Buffers
    rw [hpc thread hmem]
    trivial
  · exact Or.inl hpc

theorem Covered.step (hcovered : Covered datas system)
    (hfits : ∀ data ∈ datas, Fits data)
    (hstep : Interleaving.step (thWork .w) system i = some system') :
    Covered datas system' := by
  obtain ⟨thread, shared', thread', hi, hadvance, rfl⟩ := step_cases hstep
  have hmem := List.mem_of_getElem? hi
  have hdata : thread.data ∈ datas := hcovered.data ▸ List.mem_map_of_mem hmem
  have hset : thread' ∈ system.threads.set i thread' :=
    List.mem_of_getElem? (set_self hi)
  have hsame := (thWork_weight hadvance).1
  obtain ⟨hbuffers, heffect⟩ :=
    thWork_effect hadvance (hcovered.buffers thread hmem) (hfits _ hdata)
  refine ⟨?_, ?_, ?_⟩
  · obtain ⟨hlt, hget⟩ := List.getElem?_eq_some_iff.mp hi
    change (system.threads.set i thread').map Thread.data = datas
    rw [List.map_set, hsame, ← hget, ← List.map_set, List.set_getElem_self]
    exact hcovered.data
  · intro other hother
    rcases List.mem_or_eq_of_mem_set hother with hold | rfl
    · exact hcovered.buffers other hold
    · exact hbuffers
  · right
    change Layered datas shared'.output ∧
      ((∃ thread ∈ system.threads.set i thread', thread.pc.opened = true) ∨
        ∃ data ∈ datas, symbols data <+: shared'.output)
    generalize houtput : shared'.output = output' at heffect
    cases heffect with
    | cut hpc => exact ⟨layered_nil, Or.inl ⟨thread', hset, hpc⟩⟩
    | keep hbefore hpc =>
        rcases hcovered.layers with hall | ⟨hlayered, htop⟩
        · exact absurd (hall thread hmem) hbefore
        refine ⟨hlayered, htop.imp ?_ id⟩
        rintro ⟨other, hother, hopened⟩
        obtain ⟨k, hk⟩ := List.mem_iff_getElem?.mp hother
        by_cases hik : i = k
        · subst hik
          obtain rfl := Option.some.inj (hi.symm.trans hk)
          exact ⟨thread', hset, hpc.trans hopened⟩
        · exact ⟨other, List.mem_of_getElem? ((set_other hik).trans hk), hopened⟩
    | cover hbefore =>
        rcases hcovered.layers with hall | ⟨hlayered, -⟩
        · have hpc := hall thread hmem
          rw [hbefore] at hpc
          exact absurd hpc (by simp)
        · exact ⟨hlayered.cover hdata, Or.inr ⟨thread.data, hdata, List.prefix_append _ _⟩⟩

/-- `3_th.c` with any threads whose output fits into a buffer: every run can be
finished, and when all have returned, of all that has been printed only one thread's
characters are sure to be in the file, at its beginning.  The file is no longer than
what one thread has printed, and its other characters are what some thread has
printed at the same place. -/
theorem overwrite_run (hne : datas ≠ []) (hfits : ∀ data ∈ datas, Fits data)
    (hrun : run (Interleaving.step (thWork .w)) (initial start datas) events =
      some system) :
    (∃ more final, run (Interleaving.step (thWork .w)) system more = some final ∧
      Finished final) ∧
    (Finished system →
      (∃ data ∈ datas, symbols data <+: system.shared.output) ∧
      (∃ data ∈ datas, system.shared.output.length = (symbols data).length) ∧
      ∀ k < system.shared.output.length,
        ∃ data ∈ datas, system.shared.output[k]? = (symbols data)[k]?) := by
  refine ⟨complete .w system, fun hfinished => ?_⟩
  have hcovered : Covered datas system := run_invariant
    (fun _ _ _ hstate hstep => Covered.step hstate hfits hstep) covered_initial hrun
  have hthreads : system.threads ≠ [] := by
    intro hnil
    apply hne
    rw [← hcovered.data, hnil]
    rfl
  obtain ⟨thread, hmem⟩ := List.exists_mem_of_ne_nil _ hthreads
  rcases hcovered.layers with hall | ⟨hlayered, htop⟩
  · have hpc := hall thread hmem
    rw [hfinished thread hmem] at hpc
    exact absurd hpc (by simp)
  rcases htop with ⟨other, hother, hopened⟩ | ⟨data, hdata, hfront⟩
  · rw [hfinished other hother] at hopened
    exact absurd hopened (by simp [Pc.opened])
  · refine ⟨⟨data, hdata, hfront⟩, ?_, hlayered.layer⟩
    rcases hlayered.length with hnil | hlength
    · rw [hnil] at hfront ⊢
      exact ⟨data, hdata, by rw [List.prefix_nil.mp hfront]⟩
    · exact hlength

/-- The thread that closes its stream last is the first one. -/
theorem overwrite_run_two :
    (∃ data ∈ ([⟨97, 97⟩, ⟨98, 98⟩] : List ThData), symbols data <+: [97]) ∧
      (∃ data ∈ ([⟨97, 97⟩, ⟨98, 98⟩] : List ThData), 1 = (symbols data).length) ∧
      ∀ k < 1, ∃ data ∈ ([⟨97, 97⟩, ⟨98, 98⟩] : List ThData),
        ([97] : List UInt8)[k]? = (symbols data)[k]? := by
  have hrun : run (Interleaving.step (thWork .w)) (initial [120] [⟨97, 97⟩, ⟨98, 98⟩])
      [0, 1, 0, 1, 0, 1, 0, 1, 0, 1, 1, 0, 0, 1, 0, 1] =
        some ⟨⟨[97], [(0, 0), (1, 0), (0, 1), (1, 1)], [(0, 0), (1, 0), (0, 1), (1, 1)]⟩,
          [⟨⟨97, 97⟩, .returned, [], 1⟩, ⟨⟨98, 98⟩, .returned, [], 1⟩]⟩ := by
    decide +kernel
  exact (overwrite_run (by simp) (by decide +kernel) hrun).2 (by decide)

/-! ## What the two programs leave in the file -/

/-- `th1_data` -/
def th1Data : ThData := ⟨48, 57⟩

/-- `th2_data` -/
def th2Data : ThData := ⟨97, 122⟩

def digits : List UInt8 := symbols th1Data

def letters : List UInt8 := symbols th2Data

theorem length_digits : digits.length = 10 := by
  rw [digits, length_symbols]
  rfl

theorem length_letters : letters.length = 26 := by
  rw [letters, length_symbols]
  rfl

theorem fits_th1Data : Fits th1Data := by
  change digits.length ≤ bufferSize
  rw [length_digits]
  decide

theorem fits_th2Data : Fits th2Data := by
  change letters.length ≤ bufferSize
  rw [length_letters]
  decide

theorem symbolBlocks_of_fits (hfits : Fits data) (hne : symbols data ≠ []) :
    symbolBlocks data = [symbols data] := by
  have hpos := List.length_pos_iff.mpr hne
  have hone : blocks bufferSize (symbols data) = 1 := by
    apply le_antisymm
    · rw [← not_lt, lt_blocks_iff bufferSize_pos, Nat.mul_one, not_lt]
      exact hfits
    · rw [Nat.succ_le_iff, lt_blocks_iff bufferSize_pos, Nat.mul_zero]
      exact hpos
  have hblock : block bufferSize (symbols data) 0 = symbols data := by
    rw [block, readAt, Nat.mul_zero, List.drop_zero]
    exact List.take_of_length_le hfits
  rw [symbolBlocks, hone, List.range_one, List.map_singleton, hblock]

/-! ### Schedules -/

/-- The loop of a thread that nobody interrupts. -/
theorem solo_loop {pos : Nat} (hfits : Fits data) (hstart : data.symbStart ≤ symb) :
    solo (thWork mode) i ((data.symbEnd + 1 - symb).toNat + 1) shared
      ⟨data, .loop symb, printed data symb, pos⟩ =
        some (shared, ⟨data, .fclose, symbols data, pos⟩) := by
  induction hleft : (data.symbEnd + 1 - symb).toNat generalizing symb with
  | zero =>
      have hend : ¬ symb ≤ data.symbEnd := by omega
      rw [solo, thWork_loop, if_neg hend, printed_end hend]
      rfl
  | succ left ih =>
      have hend : symb ≤ data.symbEnd := by omega
      have hroom : (printed data symb).length ≠ bufferSize := by
        rw [length_printed (by omega)]
        unfold Fits at hfits
        rw [length_symbols] at hfits
        omega
      rw [solo, thWork_loop, if_pos hend, if_neg hroom, ← printed_succ hstart hend]
      exact ih (by omega) (by omega)

/-- A thread that has opened the file runs to its end. -/
theorem run_rest (hfits : Fits data)
    (hi : system.threads[i]? = some ⟨data, .statOpened, [], 0⟩) :
    ∃ events sizes stdout pos, run (Interleaving.step (thWork mode)) system events =
      some ⟨⟨flush mode system.shared.output 0 (symbols data), sizes, stdout⟩,
        system.threads.set i ⟨data, .returned, [], pos⟩⟩ := by
  have hbegin : ∃ sizes stdout,
      solo (thWork mode) i 2 system.shared ⟨data, .statOpened, [], 0⟩ =
        some (⟨system.shared.output, sizes, stdout⟩,
          ⟨data, .loop data.symbStart, printed data data.symbStart, 0⟩) := by
    have hnone : printed data data.symbStart = [] := by simp [printed]
    rw [hnone]
    exact ⟨_, _, rfl⟩
  obtain ⟨sizes, stdout, hbegin⟩ := hbegin
  have hloop := @solo_loop mode i ⟨system.shared.output, sizes, stdout⟩ data
    data.symbStart 0 hfits (le_refl _)
  have hclose : ∃ sizes' stdout' pos,
      solo (thWork mode) i 3 ⟨system.shared.output, sizes, stdout⟩
        ⟨data, .fclose, symbols data, 0⟩ =
          some (⟨flush mode system.shared.output 0 (symbols data), sizes', stdout'⟩,
            ⟨data, .returned, [], pos⟩) := ⟨_, _, _, rfl⟩
  obtain ⟨sizes', stdout', pos, hclose⟩ := hclose
  exact ⟨_, sizes', stdout', pos,
    run_solo hi (solo_append (solo_append hbegin hloop) hclose)⟩

theorem run_fopen {buf : List UInt8} {pos : Nat}
    (hi : system.threads[i]? = some ⟨data, .fopen, buf, pos⟩) :
    run (Interleaving.step (thWork mode)) system [i] =
      some ⟨⟨fopen mode system.shared.output, system.shared.sizes, system.shared.stdout⟩,
        system.threads.set i ⟨data, .statOpened, [], 0⟩⟩ :=
  run_cons.mpr ⟨_, step_eq hi rfl, run_nil _⟩

/-- A thread runs from its beginning to its end. -/
theorem run_whole {buf : List UInt8} {pos : Nat} (hfits : Fits data)
    (hi : system.threads[i]? = some ⟨data, .fopen, buf, pos⟩) :
    ∃ events sizes stdout pos, run (Interleaving.step (thWork mode)) system events =
      some ⟨⟨flush mode (fopen mode system.shared.output) 0 (symbols data), sizes, stdout⟩,
        system.threads.set i ⟨data, .returned, [], pos⟩⟩ := by
  have hopened := @run_fopen mode i system data buf pos hi
  obtain ⟨events, sizes, stdout, pos', hrest⟩ := @run_rest mode i
    ⟨⟨fopen mode system.shared.output, system.shared.sizes, system.shared.stdout⟩,
      system.threads.set i ⟨data, .statOpened, [], 0⟩⟩ data hfits (set_self hi)
  rw [List.set_set] at hrest
  exact ⟨_, sizes, stdout, pos', run_append.mpr ⟨_, hopened, hrest⟩⟩

/-- What the file may hold when both threads have returned. -/
def Outcome (mode : Mode) (start output : List UInt8) : Prop :=
  ∃ events system, run (Interleaving.step (thWork mode))
    (initial start [th1Data, th2Data]) events = some system ∧
      Finished system ∧ system.shared.output = output

theorem finished_pair {pos pos' : Nat} {shared : Shared} :
    Finished ⟨shared, [⟨th1Data, .returned, [], pos⟩, ⟨th2Data, .returned, [], pos'⟩]⟩ := by
  intro thread hmem
  rcases List.mem_pair.mp hmem with rfl | rfl
  · rfl
  · rfl

/-- The first thread runs, and then the second one. -/
theorem outcome_first_second (mode : Mode) (start : List UInt8) :
    Outcome mode start
      (flush mode (fopen mode (flush mode (fopen mode start) 0 digits)) 0 letters) := by
  obtain ⟨front, sizes, stdout, pos, hfront⟩ := @run_whole mode 0
    (initial start [th1Data, th2Data]) th1Data [] 0 fits_th1Data rfl
  obtain ⟨back, sizes', stdout', pos', hback⟩ := @run_whole mode 1
    ⟨⟨flush mode (fopen mode start) 0 digits, sizes, stdout⟩,
      [⟨th1Data, .returned, [], pos⟩, ⟨th2Data, .fopen, [], 0⟩]⟩
    th2Data [] 0 fits_th2Data rfl
  exact ⟨front ++ back, _, run_append.mpr ⟨_, hfront, hback⟩, finished_pair, rfl⟩

/-- The second thread runs, and then the first one. -/
theorem outcome_second_first (mode : Mode) (start : List UInt8) :
    Outcome mode start
      (flush mode (fopen mode (flush mode (fopen mode start) 0 letters)) 0 digits) := by
  obtain ⟨front, sizes, stdout, pos, hfront⟩ := @run_whole mode 1
    (initial start [th1Data, th2Data]) th2Data [] 0 fits_th2Data rfl
  obtain ⟨back, sizes', stdout', pos', hback⟩ := @run_whole mode 0
    ⟨⟨flush mode (fopen mode start) 0 letters, sizes, stdout⟩,
      [⟨th1Data, .fopen, [], 0⟩, ⟨th2Data, .returned, [], pos⟩]⟩
    th1Data [] 0 fits_th1Data rfl
  exact ⟨front ++ back, _, run_append.mpr ⟨_, hfront, hback⟩, finished_pair, rfl⟩

/-- Both threads open the file before the second one closes it. -/
theorem outcome_both_open (mode : Mode) (start : List UInt8) :
    Outcome mode start
      (flush mode (flush mode (fopen mode (fopen mode start)) 0 letters) 0 digits) := by
  have hfirst := @run_fopen mode 0 (initial start [th1Data, th2Data]) th1Data [] 0 rfl
  obtain ⟨middle, sizes, stdout, pos, hmiddle⟩ := @run_whole mode 1
    ⟨⟨fopen mode start, [], []⟩, [⟨th1Data, .statOpened, [], 0⟩, ⟨th2Data, .fopen, [], 0⟩]⟩
    th2Data [] 0 fits_th2Data rfl
  obtain ⟨back, sizes', stdout', pos', hback⟩ := @run_rest mode 0
    ⟨⟨flush mode (fopen mode (fopen mode start)) 0 letters, sizes, stdout⟩,
      [⟨th1Data, .statOpened, [], 0⟩, ⟨th2Data, .returned, [], pos⟩]⟩
    th1Data fits_th1Data rfl
  exact ⟨[0] ++ (middle ++ back), _, run_append.mpr ⟨_, hfirst,
    run_append.mpr ⟨_, hmiddle, hback⟩⟩, finished_pair, rfl⟩

/-! ### All outcomes -/

/-- A log of two owners with one entry each. -/
theorem log_pair {β : Type*} {log : List (Nat × β)} {x y : β}
    (howners : ∀ entry ∈ log, entry.1 < 2) (hfirst : entriesOf 0 log = [x])
    (hsecond : entriesOf 1 log = [y]) :
    log = [(0, x), (1, y)] ∨ log = [(1, y), (0, x)] := by
  have hlength : log.length = 2 := by
    have hperm := (perm_entriesOf howners).length_eq
    simpa [List.range_succ, hfirst, hsecond] using hperm
  obtain ⟨⟨i, a⟩, ⟨j, b⟩, rfl⟩ := List.length_eq_two.mp hlength
  have hi : i < 2 := howners (i, a) (by simp)
  have hj : j < 2 := howners (j, b) (by simp)
  have hcases : (i = 0 ∨ i = 1) ∧ (j = 0 ∨ j = 1) := by omega
  rcases hcases with ⟨rfl | rfl, rfl | rfl⟩
  · exact absurd hsecond (by simp [entriesOf])
  · left
    simp only [entriesOf] at hfirst hsecond
    simp_all
  · right
    simp only [entriesOf] at hfirst hsecond
    simp_all
  · exact absurd hfirst (by simp [entriesOf])

theorem outcome_append {output : List UInt8} (houtcome : Outcome .a start output) :
    output = start ++ digits ++ letters ∨ output = start ++ letters ++ digits := by
  obtain ⟨events, system, hrun, hfinished, rfl⟩ := houtcome
  obtain ⟨log, houtput, howners, hentries, -⟩ := (append_run hrun).2 hfinished
  have hdigits : symbolBlocks th1Data = [digits] :=
    symbolBlocks_of_fits fits_th1Data
      (List.length_pos_iff.mp (by rw [← digits, length_digits]; decide))
  have hletters : symbolBlocks th2Data = [letters] :=
    symbolBlocks_of_fits fits_th2Data
      (List.length_pos_iff.mp (by rw [← letters, length_letters]; decide))
  have hfirst := (hentries 0 th1Data rfl).trans hdigits
  have hsecond := (hentries 1 th2Data rfl).trans hletters
  rw [houtput]
  rcases log_pair howners hfirst hsecond with rfl | rfl
  · left
    simp
  · right
    simp

theorem outcome_overwrite {output : List UInt8} (houtcome : Outcome .w start output) :
    output = digits ∨ output = letters ∨
      output = digits ++ letters.drop digits.length := by
  obtain ⟨events, system, hrun, hfinished, rfl⟩ := houtcome
  have hfits : ∀ data ∈ [th1Data, th2Data], Fits data := by
    intro data hdata
    rcases List.mem_pair.mp hdata with rfl | rfl
    · exact fits_th1Data
    · exact fits_th2Data
  obtain ⟨⟨top, htop, hfront⟩, ⟨data, hdata, hlength⟩, hlayer⟩ :=
    (overwrite_run (by simp) hfits hrun).2 hfinished
  have hdigits := length_digits
  have hletters := length_letters
  have hlengths : system.shared.output.length = 10 ∨ system.shared.output.length = 26 := by
    rcases List.mem_pair.mp hdata with rfl | rfl
    · exact Or.inl (hlength.trans hdigits)
    · exact Or.inr (hlength.trans hletters)
  rcases List.mem_pair.mp htop with rfl | rfl
  · change digits <+: _ at hfront
    rcases hlengths with hten | htwentysix
    · left
      exact (hfront.eq_of_length (hdigits.trans hten.symm)).symm
    · right
      right
      -- Behind the digits nobody but the second thread has printed anything.
      obtain ⟨rest, hrest⟩ := hfront
      apply List.ext_getElem?
      intro k
      by_cases hk : k < digits.length
      · rw [← hrest, List.getElem?_append_left hk, List.getElem?_append_left hk]
      · have hshift : digits.length + (k - digits.length) = k := by omega
        rw [List.getElem?_append_right (by omega), List.getElem?_drop, hshift]
        by_cases hend : k < system.shared.output.length
        · obtain ⟨other, hother, hget⟩ := hlayer k hend
          rcases List.mem_pair.mp hother with rfl | rfl
          · rw [List.getElem?_eq_getElem hend] at hget
            have hnone : (symbols th1Data)[k]? = none :=
              List.getElem?_eq_none (not_lt.mp hk)
            exact absurd (hget.trans hnone) (by simp)
          · exact hget
        · rw [List.getElem?_eq_none (not_lt.mp hend), List.getElem?_eq_none (by omega)]
  · change letters <+: _ at hfront
    have hle := hfront.length_le
    right
    left
    exact (hfront.eq_of_length (by omega)).symm

/-- What the two programs can leave in `output.txt`, whatever it held before.
With mode `w` the characters of at least one thread are lost in part or
altogether; with mode `a` everything is there, in one of two orders. -/
theorem main_outcomes (start output : List UInt8) :
    (Outcome .w start output ↔ output = digits ∨ output = letters ∨
      output = digits ++ letters.drop digits.length) ∧
    (Outcome .a start output ↔
      output = start ++ digits ++ letters ∨ output = start ++ letters ++ digits) := by
  refine ⟨⟨outcome_overwrite, ?_⟩, outcome_append, ?_⟩
  · rintro (rfl | rfl | rfl)
    · have houtcome := outcome_second_first .w start
      simpa [flush, fopen, writeAt_zero] using houtcome
    · have houtcome := outcome_first_second .w start
      simpa [flush, fopen, writeAt_zero] using houtcome
    · have houtcome := outcome_both_open .w start
      simpa [flush, fopen, writeAt_zero] using houtcome
  · rintro (rfl | rfl)
    · exact outcome_first_second .a start
    · exact outcome_second_first .a start

end OutputFiles
end BufferedIO
end OsStuff
