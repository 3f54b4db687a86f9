import Mathlib.Tactic

/-!
# Open files

The contents of a file are a list, an open file has an offset into it, and an
input stream is what it has read ahead and not delivered yet.  `block size j` is
what the `j`-th of several reads of `size` elements delivers, whoever makes
them.

A log holds the entries that several owners have made, each with its owner.
-/

namespace OsStuff
namespace Library
namespace OpenFiles

variable {β : Type*}

/-! ## Reading -/

/-- What a read of at most `size` elements delivers. -/
def readAt (contents : List β) (offset size : Nat) : List β :=
  (contents.drop offset).take size

/-- The next element of a buffered stream over an open file, with the offset of
the file and what the stream has buffered afterwards. -/
def getc (size : Nat) (contents : List β) (offset : Nat) :
    List β → Nat × List β × Option β
  | c :: buf => (offset, buf, some c)
  | [] =>
      match readAt contents offset size with
      | [] => (offset, [], none)
      | c :: buf => (offset + (buf.length + 1), buf, some c)

/-- The `j`-th block of a file. -/
def block (size : Nat) (contents : List β) (j : Nat) : List β :=
  readAt contents (size * j) size

/-- The number of blocks of a file. -/
def blocks (size : Nat) (contents : List β) : Nat :=
  (contents.length + (size - 1)) / size

variable {contents : List β} {offset size j n : Nat}

@[simp] theorem length_readAt :
    (readAt contents offset size).length = min size (contents.length - offset) := by
  rw [readAt, List.length_take, List.length_drop]

/-- What lies behind a read that has delivered all it was asked for, or come to
the end. -/
theorem drop_length_readAt :
    contents.drop (offset + (readAt contents offset size).length) =
      (contents.drop offset).drop size := by
  rw [← List.drop_drop, length_readAt, ← List.length_drop,
    ← List.drop_eq_drop_min]

theorem drop_of_readAt {c : β} {buf : List β}
    (hread : readAt contents offset size = c :: buf) :
    contents.drop (offset + (buf.length + 1)) = (contents.drop offset).drop size := by
  rw [← drop_length_readAt, hread, List.length_cons]

/-- A read delivers nothing at the end only. -/
theorem readAt_eq_nil_iff (hsize : 0 < size) :
    readAt contents offset size = [] ↔ contents.length ≤ offset := by
  rw [← List.length_eq_zero_iff, length_readAt]
  omega

/-- After the first blocks an open file stands where the next one begins, or at
its end. -/
theorem lt_blocks_iff (hsize : 0 < size) :
    j < blocks size contents ↔ size * j < contents.length := by
  unfold blocks
  rw [Nat.lt_div_iff_mul_lt hsize, Nat.mul_comm]
  omega

theorem block_eq_nil_iff (hsize : 0 < size) :
    block size contents j = [] ↔ blocks size contents ≤ j := by
  rw [← not_lt, lt_blocks_iff hsize, block, readAt_eq_nil_iff hsize, not_lt]

/-- The blocks of a file one after another are the file. -/
theorem flatMap_block (n : Nat) :
    ((List.range n).flatMap fun j => block size contents j) =
      contents.take (size * n) := by
  induction n with
  | zero => simp
  | succ n ih =>
      have hlast : size * (n + 1) = size * n + size := by ring
      rw [List.range_succ, List.flatMap_append, ih, hlast, List.take_add]
      simp [block, readAt]

/-- What follows the first blocks is the next block, if it is as long as a block
or comes to the end of the file. -/
theorem block_of_append {buf rest : List β}
    (hsplit : contents.take (size * n) ++ buf ++ rest = contents)
    (hlength : buf.length = size ∨ (buf.length ≤ size ∧ rest = [])) :
    block size contents n = buf := by
  have hdrop : contents.drop (size * n) = buf ++ rest := by
    rw [← List.append_right_inj (contents.take (size * n)), List.take_append_drop,
      ← List.append_assoc, hsplit]
  rw [block, readAt, hdrop]
  rcases hlength with hfull | ⟨hle, rfl⟩
  · rw [← hfull, List.take_left]
  · rw [List.append_nil, List.take_of_length_le hle]

/-! ## Writing -/

/-- What the contents become when `bytes` are written at an offset; a gap behind
the old end is filled. -/
def writeAt (hole : β) (contents : List β) (offset : Nat) (bytes : List β) :
    List β :=
  if bytes = [] then contents
  else
    contents.take offset ++ List.replicate (offset - contents.length) hole ++
      bytes ++ contents.drop (offset + bytes.length)

variable {hole : β} {bytes : List β}

/-- A write at the beginning covers what it is long enough for. -/
theorem writeAt_zero :
    writeAt hole contents 0 bytes = bytes ++ contents.drop bytes.length := by
  unfold writeAt
  split
  · rename_i hnil
    rw [hnil]
    simp
  · simp

/-! ## Logs -/

/-- What owner `i` has entered. -/
def entriesOf (i : Nat) (log : List (Nat × β)) : List β :=
  log.filterMap fun entry => if entry.1 = i then some entry.2 else none

variable {i : Nat} {log : List (Nat × β)} {entry : β}

@[simp] theorem entriesOf_nil : entriesOf i ([] : List (Nat × β)) = [] := rfl

@[simp] theorem entriesOf_append {log' : List (Nat × β)} :
    entriesOf i (log ++ log') = entriesOf i log ++ entriesOf i log' :=
  List.filterMap_append

@[simp] theorem entriesOf_self : entriesOf i [(i, entry)] = [entry] := by
  simp [entriesOf]

theorem entriesOf_other (hij : j ≠ i) : entriesOf i [(j, entry)] = [] := by
  simp [entriesOf, hij]

/-- All entries one owner made at once. -/
theorem entriesOf_map_self {entries : List β} :
    entriesOf i (entries.map fun entry => (i, entry)) = entries := by
  induction entries with
  | nil => rfl
  | cons entry entries ih => simp [entriesOf]

theorem entriesOf_map_other {entries : List β} (hij : j ≠ i) :
    entriesOf i (entries.map fun entry => (j, entry)) = [] := by
  simp [entriesOf, hij]

/-- With the owners below `n`, their entries together are all entries. -/
theorem perm_entriesOf (howners : ∀ e ∈ log, e.1 < n) :
    (log.map Prod.snd).Perm
      ((List.range n).flatMap fun i => entriesOf i log) := by
  induction log with
  | nil => simp
  | cons head log ih =>
      obtain ⟨owner, entry⟩ := head
      have howner : owner < n := howners _ List.mem_cons_self
      have hrest := ih fun e he => howners e (List.mem_cons_of_mem _ he)
      -- The new entry stands first among those of its owner.
      have hsplit : (List.range n).flatMap (fun i => entriesOf i ((owner, entry) :: log)) =
          (List.range n).flatMap
            (fun i => entriesOf i [(owner, entry)] ++ entriesOf i log) := by
        apply congrArg (fun f => (List.range n).flatMap f)
        funext i
        rw [← entriesOf_append]
        rfl
      have hfirst : ((List.range n).flatMap fun i =>
          entriesOf i [(owner, entry)]).Perm [entry] := by
        have hone : ∀ m, ((List.range m).flatMap fun i =>
            entriesOf i [(owner, entry)]) = if owner < m then [entry] else [] := by
          intro m
          induction m with
          | zero => simp
          | succ m ihm =>
              rw [List.range_succ, List.flatMap_append, ihm]
              simp only [List.flatMap_cons, List.flatMap_nil, List.append_nil]
              by_cases hm : owner = m
              · subst hm
                simp
              · rw [entriesOf_other hm, List.append_nil]
                congr 1
                exact propext ⟨fun h => by omega, fun h => by omega⟩
        rw [hone n, if_pos howner]
      rw [hsplit, List.map_cons]
      calc entry :: log.map Prod.snd
          _ = [entry] ++ log.map Prod.snd := rfl
          _ |>.Perm _ := (hfirst.symm.append hrest)
          _ |>.Perm _ := (List.flatMap_append_perm _ _ _)

end OpenFiles
end Library
end OsStuff
