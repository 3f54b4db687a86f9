import OsStuff.Proc.Pagemap

/-!
# `4_proc/main.c`: `write_from_file_to_file`

`fread` delivers the file in chunks.  The bytes at `buf` and behind it are a
function of the index, so that a store behind the buffer has an effect as well.
Every index that is used is kept.
-/

namespace OsStuff
namespace Proc

/-- The bytes at `buf`, the indices used so far and what went to `to`. -/
structure Copy where
  buf : Nat → Byte
  used : List Nat
  out : List Byte

namespace Copy

/-- Reads `buf[i]`. -/
def touch (i : Nat) (copy : Copy) : Copy :=
  { copy with used := copy.used ++ [i] }

/-- `buf[i] = value` -/
def store (i : Nat) (value : Byte) (copy : Copy) : Copy :=
  { copy with
    buf := Function.update copy.buf i value
    used := copy.used ++ [i] }

/-- What `fread` does to the buffer when it delivers the chunk. -/
def fread (chunk : List Byte) (copy : Copy) : Copy :=
  { copy with
    buf := fun i => (chunk[i]?).getD (copy.buf i)
    used := copy.used ++ List.range chunk.length }

/-- The loop over the bytes read, `count` rounds from `i` on. -/
def replaceLoop : Nat → Nat → Copy → Copy
  | 0, _, copy => copy
  | count + 1, i, copy =>
      let touched := copy.touch i
      if touched.buf i = 0 then replaceLoop count (i + 1) (touched.store i newline)
      else replaceLoop count (i + 1) touched

/-- `fprintf(to, "%s", buf)` from the index `i` on.  `none` when there is no
zero among the next `fuel` bytes. -/
def printLoop : Nat → Nat → Copy → Option Copy
  | 0, _, _ => none
  | fuel + 1, i, copy =>
      let touched := copy.touch i
      if touched.buf i = 0 then some touched
      else printLoop fuel (i + 1) { touched with out := copy.out ++ [copy.buf i] }

/-- A round of the loop over the reads. -/
def writeChunk (chunk : List Byte) (copy : Copy) : Option Copy :=
  let len := chunk.length
  let copy := copy.fread chunk
  let copy := replaceLoop len 0 copy
  let copy := copy.store len 0
  printLoop (len + 1) 0 copy

/-- The loop over the reads.  It ends with the file, or with an empty read. -/
def writeFromFileToFile : List (List Byte) → Copy → Option Copy
  | [], copy => some copy
  | chunk :: chunks, copy =>
      if 0 < chunk.length then
        (writeChunk chunk copy).bind (writeFromFileToFile chunks)
      else some copy

variable {copy copy' : Copy} {chunk : List Byte} {chunks : List (List Byte)}

@[simp] theorem touch_buf (i : Nat) (copy : Copy) :
    (copy.touch i).buf = copy.buf := rfl

/-- What a piece of the function may do besides its effect on the buffer: it
only adds to the indices used, and those it adds meet the condition. -/
def Uses (condition : Nat → Prop) (copy copy' : Copy) : Prop :=
  (∀ k ∈ copy.used, k ∈ copy'.used) ∧
    ∀ k ∈ copy'.used, k ∈ copy.used ∨ condition k

theorem Uses.refl (condition : Nat → Prop) (copy : Copy) :
    Uses condition copy copy :=
  ⟨fun _ hk => hk, fun _ hk => Or.inl hk⟩

theorem Uses.trans {condition : Nat → Prop} {copy'' : Copy}
    (hfirst : Uses condition copy copy') (hsecond : Uses condition copy' copy'') :
    Uses condition copy copy'' := by
  refine ⟨fun k hk => hsecond.1 k (hfirst.1 k hk), fun k hk => ?_⟩
  rcases hsecond.2 k hk with hk | hk
  · exact hfirst.2 k hk
  · exact Or.inr hk

theorem uses_touch {condition : Nat → Prop} {i : Nat} (hi : condition i) :
    Uses condition copy (copy.touch i) := by
  refine ⟨fun k hk => List.mem_append_left _ hk, fun k hk => ?_⟩
  rcases List.mem_append.mp hk with hk | hk
  · exact Or.inl hk
  · rw [List.mem_singleton.mp hk]
    exact Or.inr hi

theorem uses_store {condition : Nat → Prop} {i : Nat} {value : Byte}
    (hi : condition i) : Uses condition copy (copy.store i value) :=
  uses_touch hi

/-! ## A round -/

/-- The loop turns the zeros of its range into newlines. -/
theorem replaceLoop_spec {condition : Nat → Prop} {count i : Nat}
    (hcondition : ∀ k, i ≤ k → k < i + count → condition k) :
    (∀ k, (replaceLoop count i copy).buf k =
      if i ≤ k ∧ k < i + count then nulToNewline (copy.buf k) else copy.buf k) ∧
    (replaceLoop count i copy).out = copy.out ∧
      Uses condition copy (replaceLoop count i copy) := by
  induction count generalizing i copy with
  | zero =>
      refine ⟨fun k => ?_, rfl, Uses.refl _ _⟩
      rw [if_neg (by omega)]
      rfl
  | succ count ih =>
      have hi : condition i := hcondition i (le_refl i) (by omega)
      have hrest : ∀ k, i + 1 ≤ k → k < i + 1 + count → condition k :=
        fun k hle hlt => hcondition k (by omega) (by omega)
      rw [replaceLoop]
      split
      · -- A zero is replaced by a newline; indices behind i are not touched by this round.
        rename_i hzero
        obtain ⟨hbuf, hout, huses⟩ := ih hrest
        refine ⟨fun k => ?_, hout, (uses_touch hi).trans ((uses_store hi).trans huses)⟩
        rw [hbuf]
        have hzero' : copy.buf i = 0 := hzero
        by_cases hk : k = i
        · subst hk
          rw [if_neg (by omega), if_pos (by omega)]
          simp [store, touch, nulToNewline, hzero']
        · simp only [store, touch, Function.update_of_ne hk]
          split_ifs <;> first | rfl | omega
      · rename_i hzero
        rw [touch_buf] at hzero
        obtain ⟨hbuf, hout, huses⟩ := ih hrest
        refine ⟨fun k => ?_, hout, (uses_touch hi).trans huses⟩
        rw [hbuf]
        by_cases hk : k = i
        · subst hk
          rw [if_neg (by omega), if_pos (by omega), touch_buf, nulToNewline,
            if_neg hzero]
        · simp only [touch]
          split_ifs <;> first | rfl | omega

/-- Printing the string that begins at an index. -/
theorem printLoop_spec {condition : Nat → Prop} {string : List Byte} {i fuel : Nat}
    (hstring : ∀ k, k < string.length → copy.buf (i + k) = string.getD k 0)
    (hnonzero : ∀ byte ∈ string, byte ≠ 0) (hend : copy.buf (i + string.length) = 0)
    (hcondition : ∀ k, i ≤ k → k ≤ i + string.length → condition k)
    (hfuel : string.length < fuel) :
    ∃ copy', printLoop fuel i copy = some copy' ∧ copy'.buf = copy.buf ∧
      copy'.out = copy.out ++ string ∧ Uses condition copy copy' := by
  induction string generalizing i fuel copy with
  | nil =>
      obtain ⟨fuel, rfl⟩ : ∃ k, fuel = k + 1 := ⟨fuel - 1, by simp at hfuel; omega⟩
      have hi : condition i := hcondition i (le_refl i) (by simp)
      have hzero : copy.buf i = 0 := hend
      refine ⟨copy.touch i, ?_, rfl, by simp [touch], uses_touch hi⟩
      rw [printLoop, touch_buf, if_pos hzero]
  | cons byte string ih =>
      obtain ⟨fuel, rfl⟩ : ∃ k, fuel = k + 1 := ⟨fuel - 1, by simp at hfuel; omega⟩
      have hi : condition i := hcondition i (le_refl i) (by omega)
      have hbyte : copy.buf i = byte := by simpa using hstring 0 (by simp)
      -- Only the terminating zero ends the loop, and the string has none.
      have hne : copy.buf i ≠ 0 := by
        rw [hbyte]
        exact hnonzero byte (by simp)
      have hstring' : ∀ k, k < string.length →
          copy.buf (i + 1 + k) = string.getD k 0 := by
        intro k hk
        have hnext := hstring (k + 1) (by simpa using hk)
        rw [List.getD_cons_succ] at hnext
        rw [← hnext]
        congr 1
        omega
      have hend' : copy.buf (i + 1 + string.length) = 0 := by
        have hlast : i + 1 + string.length = i + (byte :: string).length := by
          rw [List.length_cons]
          omega
        rw [hlast]
        exact hend
      have hcondition' : ∀ k, i + 1 ≤ k → k ≤ i + 1 + string.length → condition k := by
        intro k hle hlt
        apply hcondition k (by omega)
        rw [List.length_cons]
        omega
      let printed : Copy := { copy.touch i with out := copy.out ++ [copy.buf i] }
      obtain ⟨copy', hprint, hbuf, hout, huses⟩ := @ih printed (i + 1) fuel hstring'
        (fun b hb => hnonzero b (List.mem_cons_of_mem _ hb)) hend' hcondition'
        (by simpa using hfuel)
      refine ⟨copy', ?_, hbuf, ?_, ?_⟩
      · rw [printLoop, touch_buf, if_neg hne]
        exact hprint
      · have hprinted : printed.out = copy.out ++ [byte] := by rw [← hbyte]
        rw [hout, hprinted]
        simp
      · exact (uses_touch hi).trans huses

theorem nulToNewline_ne_zero (byte : Byte) : nulToNewline byte ≠ 0 := by
  unfold nulToNewline
  split
  · decide
  · assumption

/-- A round writes its chunk with the zeros replaced.  The indices it uses go up
to the length of the chunk, which is one of them. -/
theorem writeChunk_spec (chunk : List Byte) (copy : Copy) :
    ∃ copy', writeChunk chunk copy = some copy' ∧
      copy'.out = copy.out ++ chunk.map nulToNewline ∧
      Uses (· ≤ chunk.length) copy copy' ∧ chunk.length ∈ copy'.used := by
  have hbelow : ∀ k, 0 ≤ k → k < 0 + chunk.length → k ≤ chunk.length :=
    fun k _ hk => by omega
  obtain ⟨hbuf, hout, huses⟩ := @replaceLoop_spec (copy.fread chunk) _ _ _ hbelow
  have hread : Uses (· ≤ chunk.length) copy (copy.fread chunk) := by
    refine ⟨fun k hk => List.mem_append_left _ hk, fun k hk => ?_⟩
    rcases List.mem_append.mp hk with hk | hk
    · exact Or.inl hk
    · exact Or.inr (List.mem_range.mp hk).le
  let filled := (replaceLoop chunk.length 0 (copy.fread chunk)).store chunk.length 0
  have hfilled : Uses (· ≤ chunk.length) copy filled :=
    hread.trans (huses.trans (uses_store (le_refl _)))
  -- The bytes of the chunk without its zeros.
  have hstring : ∀ k, k < (chunk.map nulToNewline).length →
      filled.buf (0 + k) = (chunk.map nulToNewline).getD k 0 := by
    intro k hk
    rw [List.length_map] at hk
    have hne : 0 + k ≠ chunk.length := by omega
    simp only [filled, store, Function.update_of_ne hne, hbuf]
    rw [if_pos (by omega)]
    simp [fread, List.getElem?_eq_getElem hk]
  have hnonzero : ∀ byte ∈ chunk.map nulToNewline, byte ≠ 0 := by
    intro byte hbyte
    obtain ⟨b, -, rfl⟩ := List.mem_map.mp hbyte
    exact nulToNewline_ne_zero b
  have hend : filled.buf (0 + (chunk.map nulToNewline).length) = 0 := by
    simp [filled, store]
  have hfuel : (chunk.map nulToNewline).length < chunk.length + 1 := by simp
  obtain ⟨copy', hprint, -, hout', huses'⟩ := printLoop_spec hstring hnonzero hend
    (fun k _ hk => by simpa using hk) hfuel
  refine ⟨copy', hprint, ?_, hfilled.trans huses', ?_⟩
  · rw [hout']
    change (replaceLoop chunk.length 0 (copy.fread chunk)).out ++ _ = _
    rw [hout]
    rfl
  · exact huses'.1 _ (by simp [filled, store])

/-! ## The whole file -/

/-- Every chunk is written, and the indices used are bounded by the chunks. -/
theorem writeFromFileToFile_spec (hchunks : ∀ chunk ∈ chunks, 0 < chunk.length)
    (copy : Copy) :
    ∃ copy', writeFromFileToFile chunks copy = some copy' ∧
      copy'.out = copy.out ++ chunks.flatten.map nulToNewline ∧
      Uses (fun k => ∃ chunk ∈ chunks, k ≤ chunk.length) copy copy' ∧
      ∀ chunk ∈ chunks, chunk.length ∈ copy'.used := by
  induction chunks generalizing copy with
  | nil => exact ⟨copy, rfl, by simp, Uses.refl _ _, by simp⟩
  | cons chunk chunks ih =>
      obtain ⟨middle, hwrite, hout, huses, hmem⟩ := writeChunk_spec chunk copy
      obtain ⟨copy', hrest, hout', huses', hmem'⟩ :=
        ih (fun c hc => hchunks c (List.mem_cons_of_mem _ hc)) middle
      refine ⟨copy', ?_, ?_, ⟨?_, ?_⟩, ?_⟩
      · rw [writeFromFileToFile, if_pos (hchunks chunk (by simp)), hwrite]
        exact hrest
      · rw [hout', hout]
        simp
      · exact fun k hk => huses'.1 k (huses.1 k hk)
      · intro k hk
        rcases huses'.2 k hk with hk | ⟨c, hc, hle⟩
        · rcases huses.2 k hk with hk | hle
          · exact Or.inl hk
          · exact Or.inr ⟨chunk, by simp, hle⟩
        · exact Or.inr ⟨c, List.mem_cons_of_mem _ hc, hle⟩
      · intro c hc
        rcases List.mem_cons.mp hc with rfl | hc
        · exact huses'.1 _ hmem
        · exact hmem' c hc

/-- Whatever `buf` holds at first, the file is copied with its zeros replaced,
and within the buffer. -/
def CopiesExactly (chunks : List (List Byte)) : Prop :=
  ∀ buf : Nat → Byte, ∃ copy, writeFromFileToFile chunks ⟨buf, [], []⟩ = some copy ∧
    copy.out = chunks.flatten.map nulToNewline ∧ ∀ i ∈ copy.used, i < bufSize

/-- The copy is exact and in bounds unless a read fills the buffer. -/
theorem copies_exactly_iff
    (hchunks : ∀ chunk ∈ chunks, 0 < chunk.length ∧ chunk.length ≤ bufSize) :
    CopiesExactly chunks ↔ ∀ chunk ∈ chunks, chunk.length ≠ bufSize := by
  have hspec := writeFromFileToFile_spec fun chunk hchunk => (hchunks chunk hchunk).1
  constructor
  · intro hexact chunk hchunk
    obtain ⟨copy, hrun, -, hbelow⟩ := hexact fun _ => 0
    obtain ⟨copy', hrun', -, -, hmem⟩ := hspec ⟨fun _ => 0, [], []⟩
    rw [hrun, Option.some.injEq] at hrun'
    subst hrun'
    exact (hbelow _ (hmem chunk hchunk)).ne
  · intro hshort buf
    obtain ⟨copy, hrun, hout, huses, -⟩ := hspec ⟨buf, [], []⟩
    refine ⟨copy, hrun, by simpa using hout, fun i hi => ?_⟩
    rcases huses.2 i hi with hnone | ⟨chunk, hchunk, hle⟩
    · exact absurd hnone (by simp)
    · have hle' := (hchunks chunk hchunk).2
      have hne := hshort chunk hchunk
      omega

theorem copies_exactly_short :
    CopiesExactly [[0x61, 0], [0x62]] ↔
      ∀ chunk ∈ [[(0x61 : Byte), 0], [0x62]], chunk.length ≠ bufSize :=
  copies_exactly_iff (by decide)

/-- A read of 512 bytes puts the zero behind the buffer. -/
theorem full_read_leaves_buffer : ¬ ∀ chunks : List (List Byte),
    (∀ chunk ∈ chunks, 0 < chunk.length ∧ chunk.length ≤ bufSize) →
      CopiesExactly chunks := by
  intro hall
  have hfull : ∀ chunk ∈ [List.replicate bufSize (0x61 : Byte)],
      0 < chunk.length ∧ chunk.length ≤ bufSize := by
    intro chunk hchunk
    rw [List.mem_singleton.mp hchunk, List.length_replicate]
    exact ⟨by decide, le_refl _⟩
  obtain ⟨copy, hrun, -, hbelow⟩ := hall _ hfull fun _ => 0
  obtain ⟨copy', hrun', -, -, hmem⟩ :=
    writeFromFileToFile_spec (fun chunk hchunk => (hfull chunk hchunk).1)
      ⟨fun _ => 0, [], []⟩
  rw [hrun, Option.some.injEq] at hrun'
  subst hrun'
  have hlast := hbelow _ (hmem _ List.mem_cons_self)
  rw [List.length_replicate] at hlast
  exact absurd hlast (lt_irrefl _)

end Copy
end Proc
end OsStuff
