import OsStuff.Library.Interleaving
import OsStuff.Library.OpenFiles

/-!
# `1.c` and `1_th.c`

Streams with buffers of twenty bytes over one file descriptor.  Every refill of
a buffer moves the offset that all of them share, so each block of twenty bytes
goes to one stream.  `1.c` reads from its two streams in turn; in `1_th.c` each
thread has a stream of its own.

`open` and `fdopen` succeed.  A `read` at the end of the file delivers nothing,
and the file does not grow.
-/

namespace OsStuff
namespace BufferedIO

open Library Library.OpenFiles

/-- The size of the buffers given to `setvbuf`. -/
def bufSize : Nat := 20

theorem bufSize_pos : 0 < bufSize := by decide

/-! ## `1.c` -/

namespace InTurn

/-- `EOF` -/
def eof : Int := -1

/-- The offset of `fd`, what the streams have buffered, the other variables of
`main`, and what has been printed. -/
structure State where
  offset : Nat
  fs1 : List UInt8
  fs2 : List UInt8
  flag1 : Int
  flag2 : Int
  stdout : List UInt8
  deriving DecidableEq, Repr

/-- `fscanf` of one character and the `fprintf` that follows if it returns 1. -/
def scan (contents : List UInt8) (offset : Nat) (fs stdout : List UInt8) :
    Nat × List UInt8 × Int × List UInt8 :=
  match getc bufSize contents offset fs with
  | (offset, fs, some c) => (offset, fs, 1, stdout ++ [c])
  | (offset, fs, none) => (offset, fs, eof, stdout)

/-- One round of the loop. -/
def round (contents : List UInt8) (state : State) : State :=
  let (offset, fs1, flag1, stdout) :=
    scan contents state.offset state.fs1 state.stdout
  let (offset, fs2, flag2, stdout) := scan contents offset state.fs2 stdout
  ⟨offset, fs1, fs2, flag1, flag2, stdout⟩

/-- The loop, for at most `rounds` rounds. -/
def loop (contents : List UInt8) : Nat → State → Option State
  | 0, state => if state.flag1 = 1 ∨ state.flag2 = 1 then none else some state
  | rounds + 1, state =>
      if state.flag1 = 1 ∨ state.flag2 = 1 then
        loop contents rounds (round contents state)
      else some state

def main (contents : List UInt8) : Option (List UInt8) :=
  (loop contents (contents.length + 1) ⟨0, [], [], 1, 2, []⟩).map State.stdout

/-- The elements of two lists in turn, and then what is left of one of them. -/
def alternate {β : Type*} : List β → List β → List β
  | [], ys => ys
  | x :: xs, [] => x :: xs
  | x :: xs, y :: ys => x :: y :: alternate xs ys

/-- The blocks of a file two by two, each pair in turn. -/
def alternated (contents : List UInt8) : List UInt8 :=
  (List.range (blocks (2 * bufSize) contents)).flatMap fun j =>
    alternate (block bufSize contents (2 * j)) (block bufSize contents (2 * j + 1))

variable {contents : List UInt8} {offset : Nat} {fs stdout : List UInt8}
  {c : UInt8} {state : State}

@[simp] theorem alternate_nil {β : Type*} (xs : List β) : alternate xs [] = xs := by
  cases xs with
  | nil => rfl
  | cons x xs => rfl

theorem block_drop {j k : Nat} :
    block bufSize (contents.drop (bufSize * k)) j = block bufSize contents (j + k) := by
  unfold block readAt
  rw [List.drop_drop]
  congr 2
  ring

theorem block_zero :
    block bufSize (contents.drop offset) 0 = readAt contents offset bufSize := by
  simp [block, readAt]

/-- The read after one that was not at the end delivers the next block. -/
theorem block_one (hread : readAt contents offset bufSize = c :: fs) :
    block bufSize (contents.drop offset) 1 =
      readAt contents (offset + (fs.length + 1)) bufSize := by
  rw [block, readAt, readAt, drop_of_readAt hread, Nat.mul_one]

theorem alternated_nil : alternated [] = [] := by
  simp [alternated, blocks, bufSize]

/-- A file that is not empty begins with its first two blocks. -/
theorem alternated_of_ne_nil (hne : contents ≠ []) :
    alternated contents =
      alternate (block bufSize contents 0) (block bufSize contents 1) ++
        alternated (contents.drop (2 * bufSize)) := by
  have hpos := List.length_pos_iff.mpr hne
  have hblocks : blocks (2 * bufSize) contents =
      blocks (2 * bufSize) (contents.drop (2 * bufSize)) + 1 := by
    unfold blocks bufSize
    rw [List.length_drop]
    omega
  unfold alternated
  rw [hblocks, List.range_succ_eq_map, List.flatMap_cons, List.flatMap_map]
  congr 1
  apply congrArg (fun f => List.flatMap f _)
  funext j
  have hdrop : contents.drop (2 * bufSize) = contents.drop (bufSize * 2) := by
    rw [Nat.mul_comm]
  rw [hdrop, block_drop, block_drop]
  congr 2

theorem scan_cons : scan contents offset (c :: fs) stdout =
    (offset, fs, 1, stdout ++ [c]) := rfl

theorem scan_end (hend : contents.drop offset = []) :
    scan contents offset [] stdout = (offset, [], eof, stdout) := by
  unfold scan getc readAt
  rw [hend]
  rfl

theorem scan_refill (hread : readAt contents offset bufSize = c :: fs) :
    scan contents offset [] stdout =
      (offset + (fs.length + 1), fs, 1, stdout ++ [c]) := by
  unfold scan getc
  rw [hread]

/-- Both streams have as much buffered, or the first one has more and the file is
at its end. -/
def Level (contents : List UInt8) (state : State) : Prop :=
  state.fs1.length = state.fs2.length ∨
    (state.fs2.length ≤ state.fs1.length ∧ contents.drop state.offset = [])

theorem drop_eq_nil_of_readAt (hread : readAt contents offset bufSize = []) :
    contents.drop offset = [] :=
  List.drop_eq_nil_of_le ((readAt_eq_nil_iff bufSize_pos).mp hread)

/-- The loop ends when both streams have come to the end of the file. -/
theorem loop_ended {rounds : Nat} :
    loop contents rounds ⟨offset, [], [], eof, eof, stdout⟩ =
      some ⟨offset, [], [], eof, eof, stdout⟩ := by
  cases rounds with
  | zero => rfl
  | succ rounds => rfl

/-- What the loop prints from a state on: first what is buffered, then the rest
of the file. -/
theorem loop_stdout {rounds : Nat} (hlevel : Level contents state)
    (hflag : state.flag1 = 1 ∨ state.flag2 = 1)
    (hrounds : state.fs1.length + (contents.length - state.offset) < rounds) :
    (loop contents rounds state).map State.stdout =
      some (state.stdout ++ alternate state.fs1 state.fs2 ++
        alternated (contents.drop state.offset)) := by
  induction rounds generalizing state with
  | zero => exact absurd hrounds (Nat.not_lt_zero _)
  | succ rounds ih =>
      obtain ⟨offset, fs1, fs2, flag1, flag2, stdout⟩ := state
      rw [loop, if_pos hflag]
      change fs1.length + (contents.length - offset) < rounds + 1 at hrounds
      change fs1.length = fs2.length ∨
        (fs2.length ≤ fs1.length ∧ contents.drop offset = []) at hlevel
      cases fs1 with
      | cons c fs1 =>
          rw [List.length_cons] at hrounds hlevel
          cases fs2 with
          | cons d fs2 =>
              -- One buffered character of each stream.
              have hround : round contents ⟨offset, c :: fs1, d :: fs2, flag1, flag2, stdout⟩ =
                  ⟨offset, fs1, fs2, 1, 1, stdout ++ [c] ++ [d]⟩ := rfl
              rw [hround, ih ?_ (Or.inl rfl) (by simpa using by omega)]
              · simp [alternate]
              · rw [List.length_cons] at hlevel
                exact hlevel.imp (fun h => by simpa using h)
                  (fun h => ⟨by simpa using h.1, h.2⟩)
          | nil =>
              -- The second stream has come to the end of the file.
              have hend : contents.drop offset = [] := by
                cases hlevel with
                | inl hsame => exact absurd hsame (by simp)
                | inr hmore => exact hmore.2
              have hround : round contents ⟨offset, c :: fs1, [], flag1, flag2, stdout⟩ =
                  ⟨offset, fs1, [], 1, eof, stdout ++ [c]⟩ := by
                unfold round
                simp only [scan_cons, scan_end hend]
              rw [hround, ih ?_ (Or.inl rfl) (by simpa using by omega)]
              · simp
              · exact Or.inr ⟨Nat.zero_le _, hend⟩
      | nil =>
          obtain rfl : fs2 = [] := by
            rw [← List.length_eq_zero_iff]
            simp only [List.length_nil] at hlevel
            omega
          cases hread : readAt contents offset bufSize with
          | nil =>
              have hend := drop_eq_nil_of_readAt hread
              have hround : round contents ⟨offset, [], [], flag1, flag2, stdout⟩ =
                  ⟨offset, [], [], eof, eof, stdout⟩ := by
                unfold round
                simp only [scan_end hend]
              rw [hround, loop_ended, hend, alternated_nil]
              simp [alternate]
          | cons c fs1 =>
              have hne : contents.drop offset ≠ [] := by
                intro hnil
                rw [readAt, hnil] at hread
                exact absurd hread (by simp)
              have hlength := congrArg List.length hread
              rw [length_readAt, List.length_cons] at hlength
              have hrounds' :
                  fs1.length + (contents.length - (offset + (fs1.length + 1))) < rounds := by
                rw [List.length_nil] at hrounds
                omega
              rw [alternated_of_ne_nil hne, block_zero, hread, block_one hread]
              cases hread2 : readAt contents (offset + (fs1.length + 1)) bufSize with
              | nil =>
                  -- The first stream has got the last block.
                  have hend := drop_eq_nil_of_readAt hread2
                  have hround : round contents ⟨offset, [], [], flag1, flag2, stdout⟩ =
                      ⟨offset + (fs1.length + 1), fs1, [], 1, eof, stdout ++ [c]⟩ := by
                    unfold round
                    simp only [scan_refill hread, scan_end hend]
                  have hrest : (contents.drop offset).drop (2 * bufSize) = [] := by
                    rw [two_mul, ← List.drop_drop, ← drop_of_readAt hread, hend,
                      List.drop_nil]
                  have hlevel' : Level contents
                      ⟨offset + (fs1.length + 1), fs1, [], 1, eof, stdout ++ [c]⟩ :=
                    Or.inr ⟨Nat.zero_le _, hend⟩
                  rw [hround, ih hlevel' (Or.inl rfl) hrounds', hrest, hend, alternated_nil]
                  simp [alternate]
              | cons d fs2 =>
                  have hlength2 := congrArg List.length hread2
                  rw [length_readAt, List.length_cons] at hlength2
                  have hround : round contents ⟨offset, [], [], flag1, flag2, stdout⟩ =
                      ⟨offset + (fs1.length + 1) + (fs2.length + 1), fs1, fs2, 1, 1,
                        stdout ++ [c] ++ [d]⟩ := by
                    unfold round
                    simp only [scan_refill hread, scan_refill hread2]
                  have hrest : (contents.drop offset).drop (2 * bufSize) =
                      contents.drop (offset + (fs1.length + 1) + (fs2.length + 1)) := by
                    rw [drop_of_readAt hread2, drop_of_readAt hread, two_mul,
                      ← List.drop_drop]
                  -- The first stream has a whole block unless the file has ended.
                  have hlevel' : Level contents
                      ⟨offset + (fs1.length + 1) + (fs2.length + 1), fs1, fs2, 1, 1,
                        stdout ++ [c] ++ [d]⟩ := by
                    by_cases hsame : fs1.length = fs2.length
                    · exact Or.inl hsame
                    · right
                      change fs2.length ≤ fs1.length ∧
                        contents.drop (offset + (fs1.length + 1) + (fs2.length + 1)) = []
                      rw [List.drop_eq_nil_iff]
                      omega
                  have hless : fs1.length +
                      (contents.length - (offset + (fs1.length + 1) + (fs2.length + 1))) <
                        rounds := by
                    omega
                  rw [hround, ih hlevel' (Or.inl rfl) hless, hrest]
                  simp [alternate]

/-- What `1.c` prints of a file of any length. -/
theorem main_alternates : main contents = some (alternated contents) := by
  unfold main
  rw [loop_stdout (Or.inl rfl) (Or.inl rfl) (by simp)]
  simp [alternate]

/-- The file of the repository. -/
example : main ("Abcdefghijklmnopqrstuvwxyz".toList.map fun c => UInt8.ofNat c.toNat) =
    some ("Aubvcwdxeyfzghijklmnopqrst".toList.map fun c => UInt8.ofNat c.toNat) := by
  decide +kernel

end InTurn

/-! ## `1_th.c` -/

namespace TwoThreads

open Library.Interleaving Library.Processes

/-- What a thread does next. -/
inductive Pc
  | fdopen
  | fscanf
  | fprintf (c : UInt8)
  | returned
  deriving DecidableEq, Repr

/-- The offset of `fd`, and what has been printed with the thread that printed
it. -/
structure Shared where
  offset : Nat
  stdout : List (Nat × UInt8)
  deriving DecidableEq, Repr

/-- A thread with what its stream has buffered. -/
structure Thread where
  pc : Pc
  fs : List UInt8
  deriving DecidableEq, Repr

/-- The next step of thread `i` of `th_work`.  A call of `fscanf` makes at most
one `read`. -/
def thWork (contents : List UInt8) (i : Nat) (shared : Shared) (thread : Thread) :
    Option (Shared × Thread) :=
  match thread.pc with
  | .fdopen => some (shared, { thread with pc := .fscanf })
  | .fscanf =>
      match getc bufSize contents shared.offset thread.fs with
      | (offset, fs, some c) =>
          some ({ shared with offset := offset }, ⟨.fprintf c, fs⟩)
      | (offset, fs, none) => some ({ shared with offset := offset }, ⟨.returned, fs⟩)
  | .fprintf c =>
      some ({ shared with stdout := shared.stdout ++ [(i, c)] },
        { thread with pc := .fscanf })
  | .returned => none

/-- `main` after it has created its threads, of which it has two. -/
def initial (threads : Nat) : System Shared Thread :=
  ⟨⟨0, []⟩, List.replicate threads ⟨.fdopen, []⟩⟩

def Finished (system : System Shared Thread) : Prop :=
  ∀ thread ∈ system.threads, thread.pc = .returned

instance (system : System Shared Thread) : Decidable (Finished system) :=
  inferInstanceAs (Decidable (∀ _ ∈ _, _))

/-- The blocks that thread `i` has got when block `j` went to thread
`owner[j]`. -/
def share (contents : List UInt8) (owner : List Nat) (i : Nat) : List UInt8 :=
  (List.range owner.length).flatMap fun j =>
    if owner[j]? = some i then block bufSize contents j else []

/-- The character that a thread has read and not printed. -/
def Pc.inHand : Pc → List UInt8
  | .fdopen => []
  | .fscanf => []
  | .fprintf c => [c]
  | .returned => []

/-- The steps that a thread has to take for what it has got. -/
def Thread.weight (thread : Thread) : Nat :=
  match thread.pc with
  | .fdopen => 2 + 2 * thread.fs.length
  | .fscanf => 1 + 2 * thread.fs.length
  | .fprintf _ => 2 + 2 * thread.fs.length
  | .returned => 0

/-- The steps that are left. -/
def weight (contents : List UInt8) (system : System Shared Thread) : Nat :=
  2 * (contents.length - system.shared.offset) +
    (system.threads.map Thread.weight).sum

/-- Each block that has been read went to one thread, which has printed it, has
it in hand or has it in its buffer. -/
structure Inv (contents : List UInt8) (n : Nat) (owner : List Nat)
    (system : System Shared Thread) : Prop where
  threads : system.threads.length = n
  offset : system.shared.offset = min (bufSize * owner.length) contents.length
  blocks_le : owner.length ≤ blocks bufSize contents
  owners : ∀ i ∈ owner, i < n
  shares : ∀ (i : Nat) (thread : Thread), system.threads[i]? = some thread →
    entriesOf i system.shared.stdout ++ (thread.pc.inHand ++ thread.fs) =
      share contents owner i
  printed : ∀ entry ∈ system.shared.stdout, entry.1 < n
  returned : ∀ thread ∈ system.threads, thread.pc = .returned →
    thread.fs = [] ∧ contents.length ≤ system.shared.offset

variable {contents : List UInt8} {n i j : Nat} {owner : List Nat}
  {system system' : System Shared Thread} {thread : Thread} {events : List Nat}

theorem share_concat :
    share contents (owner ++ [j]) i =
      share contents owner i ++
        if j = i then block bufSize contents owner.length else [] := by
  unfold share
  rw [List.length_append, List.length_singleton, List.range_succ, List.flatMap_append]
  congr 1
  · apply List.flatMap_congr
    intro k hk
    rw [List.getElem?_append_left (List.mem_range.mp hk)]
  · simp

/-- The characters of the blocks, each with the thread that has got it. -/
def assigned (contents : List UInt8) (owner : List Nat) : List (Nat × UInt8) :=
  (List.range owner.length).flatMap fun j =>
    (block bufSize contents j).map fun c => (owner.getD j 0, c)

theorem assigned_concat :
    assigned contents (owner ++ [j]) =
      assigned contents owner ++
        (block bufSize contents owner.length).map fun c => (j, c) := by
  unfold assigned
  rw [List.length_append, List.length_singleton, List.range_succ, List.flatMap_append]
  congr 1
  · apply List.flatMap_congr
    intro k hk
    rw [List.getD_eq_getElem?_getD, List.getD_eq_getElem?_getD,
      List.getElem?_append_left (List.mem_range.mp hk)]
  · simp

theorem entriesOf_assigned :
    entriesOf i (assigned contents owner) = share contents owner i := by
  induction owner using List.reverseRecOn with
  | nil => rfl
  | append_singleton owner j ih =>
      rw [assigned_concat, share_concat, entriesOf_append, ih]
      congr 1
      split
      · rename_i hji
        rw [hji, entriesOf_map_self]
      · rename_i hji
        exact entriesOf_map_other hji

theorem map_assigned :
    (assigned contents owner).map Prod.snd = contents.take (bufSize * owner.length) := by
  rw [← flatMap_block, assigned, List.map_flatMap]
  apply List.flatMap_congr
  intro j _
  simp [Function.comp_def]

/-- The shares of the threads together are what has been read. -/
theorem perm_shares (howners : ∀ i ∈ owner, i < n) :
    (contents.take (bufSize * owner.length)).Perm
      ((List.range n).flatMap fun i => share contents owner i) := by
  have hassigned : ∀ entry ∈ assigned contents owner, entry.1 < n := by
    intro entry hentry
    obtain ⟨j, hj, hentry⟩ := List.mem_flatMap.mp hentry
    obtain ⟨c, -, rfl⟩ := List.mem_map.mp hentry
    rw [List.mem_range] at hj
    rw [List.getD_eq_getElem?_getD, List.getElem?_eq_getElem hj, Option.getD_some]
    exact howners _ (List.getElem_mem hj)
  have hperm := perm_entriesOf hassigned
  rw [map_assigned] at hperm
  simpa only [entriesOf_assigned] using hperm

theorem inv_initial : Inv contents n [] (initial n) := by
  constructor
  · exact List.length_replicate
  · simp [initial]
  · exact Nat.zero_le _
  · exact fun i hi => absurd hi List.not_mem_nil
  · intro i thread hi
    rw [List.eq_of_mem_replicate (List.mem_of_getElem? hi)]
    rfl
  · exact fun entry hentry => absurd hentry List.not_mem_nil
  · intro thread hmem hreturned
    rw [List.eq_of_mem_replicate hmem] at hreturned
    exact absurd hreturned (by simp)

/-- A step that leaves the file alone, prints at most what the thread had in
hand, and leaves it what it had otherwise. -/
theorem Inv.local_step (hinv : Inv contents n owner system) (thread' : Thread)
    (entries : List (Nat × UInt8)) (hi : system.threads[i]? = some thread)
    (hentries : ∀ entry ∈ entries, entry.1 = i)
    (hkeep : entriesOf i entries ++ (thread'.pc.inHand ++ thread'.fs) =
      thread.pc.inHand ++ thread.fs)
    (hreturned : thread'.pc = .returned →
      thread'.fs = [] ∧ contents.length ≤ system.shared.offset) :
    Inv contents n owner
      ⟨{ system.shared with stdout := system.shared.stdout ++ entries },
        system.threads.set i thread'⟩ := by
  constructor
  · exact (List.length_set ..).trans hinv.threads
  · exact hinv.offset
  · exact hinv.blocks_le
  · exact hinv.owners
  · intro k other hk
    change entriesOf k (system.shared.stdout ++ entries) ++ _ = _
    rw [entriesOf_append]
    rcases set_cases hk with ⟨rfl, rfl⟩ | ⟨hne, hother⟩
    · rw [List.append_assoc, hkeep]
      exact hinv.shares k thread hi
    · have hnone : entriesOf k entries = [] := by
        rw [entriesOf, List.filterMap_eq_nil_iff]
        intro entry hentry
        rw [hentries entry hentry, if_neg (Ne.symm hne)]
      rw [hnone, List.append_nil]
      exact hinv.shares k other hother
  · intro entry hentry
    rcases List.mem_append.mp hentry with hold | hnew
    · exact hinv.printed entry hold
    · rw [hentries entry hnew, ← hinv.threads]
      exact lt_length hi
  · intro other hmem hother
    rcases List.mem_or_eq_of_mem_set hmem with hold | rfl
    · exact hinv.returned other hold hother
    · exact hreturned hother

/-- A refill gives the next block to the thread. -/
theorem Inv.refill (hinv : Inv contents n owner system) {c : UInt8} {fs : List UInt8}
    (hi : system.threads[i]? = some thread)
    (hempty : thread.pc.inHand ++ thread.fs = [])
    (hread : readAt contents system.shared.offset bufSize = c :: fs) :
    Inv contents n (owner ++ [i])
      ⟨{ system.shared with offset := system.shared.offset + (fs.length + 1) },
        system.threads.set i ⟨.fprintf c, fs⟩⟩ := by
  have hlength := congrArg List.length hread
  rw [length_readAt, List.length_cons] at hlength
  have hoffset := hinv.offset
  -- Something has been read, so the offset is where the next block begins.
  have hnext : system.shared.offset = bufSize * owner.length := by omega
  have hlt : owner.length < blocks bufSize contents := by
    rw [lt_blocks_iff bufSize_pos]
    omega
  have hblock : block bufSize contents owner.length = c :: fs := by
    rw [← hread, block, hnext]
  have hmul : bufSize * (owner.length + 1) = bufSize * owner.length + bufSize := by
    ring
  constructor
  · exact (List.length_set ..).trans hinv.threads
  · change system.shared.offset + (fs.length + 1) = _
    rw [List.length_append, List.length_singleton, hmul]
    omega
  · rw [List.length_append, List.length_singleton]
    exact hlt
  · intro k hk
    rcases List.mem_append.mp hk with hold | hnew
    · exact hinv.owners k hold
    · rw [List.mem_singleton.mp hnew, ← hinv.threads]
      exact lt_length hi
  · intro k other hk
    rw [share_concat]
    rcases set_cases hk with ⟨rfl, rfl⟩ | ⟨hne, hother⟩
    · have hshare := hinv.shares k thread hi
      rw [hempty, List.append_nil] at hshare
      rw [if_pos rfl, hblock, ← hshare]
      rfl
    · rw [if_neg (Ne.symm hne), List.append_nil]
      exact hinv.shares k other hother
  · exact hinv.printed
  · intro other hmem hother
    rcases List.mem_or_eq_of_mem_set hmem with hold | rfl
    · -- Nobody has returned before the end of the file.
      have hend := (hinv.returned other hold hother).2
      rw [← readAt_eq_nil_iff bufSize_pos, hread] at hend
      exact absurd hend (by simp)
    · exact absurd hother (by simp)

/-- Every step keeps the invariant and uses up one unit. -/
theorem Inv.step (hinv : Inv contents n owner system)
    (hstep : Interleaving.step (thWork contents) system i = some system') :
    (∃ owner', Inv contents n owner' system') ∧
      weight contents system' + 1 = weight contents system := by
  obtain ⟨thread, shared', thread', hi, hadvance, rfl⟩ := step_cases hstep
  have hsum : ∀ thread' : Thread, ((system.threads.set i thread').map Thread.weight).sum +
      thread.weight = (system.threads.map Thread.weight).sum + thread'.weight :=
    fun _ => sum_map_set hi
  obtain ⟨pc, fs⟩ := thread
  cases pc with
  | fdopen =>
      rw [thWork, Option.some.injEq, Prod.mk.injEq] at hadvance
      obtain ⟨rfl, rfl⟩ := hadvance
      refine ⟨⟨owner, ?_⟩, ?_⟩
      · have hkept := hinv.local_step ⟨.fscanf, fs⟩ [] hi
          (by simp) rfl (by simp)
        rwa [List.append_nil] at hkept
      · have := hsum ⟨.fscanf, fs⟩
        simp only [Thread.weight] at this
        simp only [weight]
        omega
  | fscanf =>
      cases fs with
      | cons c fs =>
          rw [thWork, getc, Option.some.injEq, Prod.mk.injEq] at hadvance
          obtain ⟨rfl, rfl⟩ := hadvance
          refine ⟨⟨owner, ?_⟩, ?_⟩
          · have hkept := hinv.local_step ⟨.fprintf c, fs⟩ [] hi
              (by simp) rfl (by simp)
            rwa [List.append_nil] at hkept
          · have := hsum ⟨.fprintf c, fs⟩
            simp only [Thread.weight, List.length_cons] at this
            simp only [weight]
            omega
      | nil =>
          cases hread : readAt contents system.shared.offset bufSize with
          | nil =>
              have hend := (readAt_eq_nil_iff bufSize_pos).mp hread
              rw [thWork, getc, hread, Option.some.injEq, Prod.mk.injEq] at hadvance
              obtain ⟨rfl, rfl⟩ := hadvance
              refine ⟨⟨owner, ?_⟩, ?_⟩
              · have hkept := hinv.local_step ⟨.returned, []⟩ [] hi
                  (by simp) rfl (fun _ => ⟨rfl, hend⟩)
                rwa [List.append_nil] at hkept
              · have := hsum ⟨.returned, []⟩
                simp only [Thread.weight, List.length_nil] at this
                simp only [weight]
                omega
          | cons c fs =>
              have hlength := congrArg List.length hread
              rw [length_readAt, List.length_cons] at hlength
              rw [thWork, getc, hread, Option.some.injEq, Prod.mk.injEq] at hadvance
              obtain ⟨rfl, rfl⟩ := hadvance
              refine ⟨⟨owner ++ [i], hinv.refill hi rfl hread⟩, ?_⟩
              have := hsum ⟨.fprintf c, fs⟩
              simp only [Thread.weight, List.length_nil] at this
              simp only [weight]
              omega
  | fprintf c =>
      rw [thWork, Option.some.injEq, Prod.mk.injEq] at hadvance
      obtain ⟨rfl, rfl⟩ := hadvance
      refine ⟨⟨owner, ?_⟩, ?_⟩
      · exact hinv.local_step ⟨.fscanf, fs⟩ [(i, c)] hi
          (by simp) (by simp [Pc.inHand]) (by simp)
      · have := hsum ⟨.fscanf, fs⟩
        simp only [Thread.weight] at this
        simp only [weight]
        omega
  | returned => exact absurd hadvance (by simp [thWork])

/-- A thread that has not returned can go on. -/
theorem exists_step (hunfinished : ¬ Finished system) :
    ∃ i system', Interleaving.step (thWork contents) system i = some system' := by
  unfold Finished at hunfinished
  push Not at hunfinished
  obtain ⟨thread, hmem, hpc⟩ := hunfinished
  obtain ⟨i, hi⟩ := List.mem_iff_getElem?.mp hmem
  have hadvance : ∃ next, thWork contents i system.shared thread = some next := by
    obtain ⟨pc, fs⟩ := thread
    cases pc with
    | fdopen => exact ⟨_, rfl⟩
    | fscanf =>
        rw [thWork]
        rcases getc bufSize contents system.shared.offset fs with ⟨offset, fs, c⟩
        cases c with
        | none => exact ⟨_, rfl⟩
        | some c => exact ⟨_, rfl⟩
    | fprintf c => exact ⟨_, rfl⟩
    | returned => exact absurd rfl hpc
  obtain ⟨⟨shared, thread'⟩, hadvance⟩ := hadvance
  exact ⟨i, _, step_eq hi hadvance⟩

/-- When all threads have returned, each has printed its share, and the shares
are the whole file. -/
theorem Inv.finished (hinv : Inv contents n owner system) (hn : 0 < n)
    (hfinished : Finished system) :
    owner.length = blocks bufSize contents ∧
      (∀ i < n, entriesOf i system.shared.stdout = share contents owner i) ∧
      (system.shared.stdout.map Prod.snd).Perm contents := by
  have hreturned : ∀ i < n, ∃ thread, system.threads[i]? = some thread ∧
      thread.pc = .returned ∧ thread.fs = [] ∧
        contents.length ≤ system.shared.offset := by
    intro i hi
    rw [← hinv.threads] at hi
    have hmem := List.getElem_mem hi
    have hpc := hfinished _ hmem
    exact ⟨_, List.getElem?_eq_getElem hi, hpc, hinv.returned _ hmem hpc⟩
  have hshares : ∀ i < n, entriesOf i system.shared.stdout = share contents owner i := by
    intro i hi
    obtain ⟨thread, hget, hpc, hfs, -⟩ := hreturned i hi
    have hshare := hinv.shares i thread hget
    rwa [hpc, hfs, Pc.inHand, List.append_nil, List.append_nil] at hshare
  obtain ⟨-, -, -, -, hend⟩ := hreturned 0 hn
  have hoffset := hinv.offset
  have hall : contents.take (bufSize * owner.length) = contents :=
    List.take_of_length_le (by omega)
  refine ⟨le_antisymm hinv.blocks_le ?_, hshares, ?_⟩
  · by_contra hlt
    have := (lt_blocks_iff bufSize_pos).mp (not_le.mp hlt)
    omega
  · have hperm := perm_entriesOf hinv.printed
    have hread := @perm_shares contents n owner hinv.owners
    rw [hall] at hread
    apply hperm.trans
    rw [List.flatMap_congr fun i hi => hshares i (List.mem_range.mp hi)]
    exact hread.symm

/-- `1_th.c` with any number of threads: the program always comes to an end, and
then every character of the file has been printed once.  The blocks of twenty
characters have been dealt out to the threads, and each thread has printed its
blocks in the order of the file. -/
theorem run_prints_once (hn : 0 < n)
    (hrun : run (Interleaving.step (thWork contents)) (initial n) events = some system) :
    events.length ≤ 2 * contents.length + 2 * n ∧
      (∃ more final, run (Interleaving.step (thWork contents)) system more = some final ∧
        Finished final) ∧
      (Finished system → ∃ owner : List Nat,
        owner.length = blocks bufSize contents ∧
        (∀ i < n, entriesOf i system.shared.stdout = share contents owner i) ∧
        (system.shared.stdout.map Prod.snd).Perm contents) := by
  have hkeep : ∀ state event next, (∃ owner, Inv contents n owner state) →
      Interleaving.step (thWork contents) state event = some next →
        (∃ owner, Inv contents n owner next) ∧
          weight contents next < weight contents state := by
    rintro state event next ⟨owner, hinv⟩ hstep
    obtain ⟨hnext, hweight⟩ := hinv.step hstep
    exact ⟨hnext, by omega⟩
  have hstart : ∃ owner, Inv contents n owner (initial n) := ⟨[], inv_initial⟩
  have hinv : ∃ owner, Inv contents n owner system :=
    run_invariant (fun state event next hstate hstep =>
      (hkeep state event next hstate hstep).1) hstart hrun
  refine ⟨?_, ?_, ?_⟩
  · have hlength := run_length hkeep hstart hrun
    have hweight : weight contents (initial n) = 2 * contents.length + 2 * n := by
      simp [weight, initial, Thread.weight]
      omega
    omega
  · exact run_complete hkeep
      (fun state _ hunfinished => exists_step hunfinished) hinv
  · intro hfinished
    obtain ⟨owner, hinv⟩ := hinv
    exact ⟨owner, hinv.finished hn hfinished⟩

/-- Three blocks, and two threads that go on in turn: thread 0 gets the first and the
last block, thread 1 the one between them. -/
def threeBlocks : List UInt8 := (List.range 45).map UInt8.ofNat

def inTurn : List Nat := (List.range 42).flatMap (fun _ => [0, 1]) ++ List.replicate 10 0

theorem run_prints_once_blocks : ∃ final,
    run (Interleaving.step (thWork threeBlocks)) (initial 2) inTurn = some final ∧
      (entriesOf 0 final.shared.stdout).length = 25 ∧
      (entriesOf 1 final.shared.stdout).length = 20 ∧
      ∃ owner : List Nat,
        owner.length = blocks bufSize threeBlocks ∧
        (∀ i < 2, entriesOf i final.shared.stdout = share threeBlocks owner i) ∧
        (final.shared.stdout.map Prod.snd).Perm threeBlocks := by
  have hsome : (run (Interleaving.step (thWork threeBlocks)) (initial 2) inTurn).map
      (fun final => (decide (Finished final), (entriesOf 0 final.shared.stdout).length,
        (entriesOf 1 final.shared.stdout).length)) = some (true, 25, 20) := by
    decide +kernel
  obtain ⟨final, hrun, hfinal⟩ := Option.map_eq_some_iff.mp hsome
  rw [Prod.mk.injEq, Prod.mk.injEq, decide_eq_true_eq] at hfinal
  obtain ⟨hfinished, hfirst, hsecond⟩ := hfinal
  exact ⟨final, hrun, hfirst, hsecond,
    (run_prints_once (by decide) hrun).2.2 hfinished⟩

end TwoThreads
end BufferedIO
end OsStuff
