import OsStuff.Proc.PagemapReader

/-!
# The lines of the memory map

A line of `/proc/<pid>/maps` names the addresses of its range first.  A line whose
addresses no read divides is shown when its range ends below `2 ^ 64` and the rows
behind its first one name no page.
-/

namespace OsStuff
namespace Proc

open Library Library.Rows

/-- An address as the file has it: hexadecimal digits. -/
structure Address where
  digits : List Byte
  nonempty : digits ≠ []
  hex : ∀ byte ∈ digits, (hexDigit byte).isSome
  lt : hexValue 0 digits < 2 ^ 64

def Address.value (address : Address) : Nat := hexValue 0 address.digits

/-- A line `start-end rest`. -/
structure MapsLine where
  start : Address
  stop : Address
  rest : List Byte
  ends : newline ∉ rest

/-- The pages of `[start, stop)`, counted from its start. -/
def pagesOf (pageSize start stop : Nat) : List Nat :=
  (List.range ((stop - start + (pageSize - 1)) / pageSize)).map fun k =>
    start + k * pageSize

/-- Counting through the pages stays below `2 ^ 64`. -/
def Ends (pageSize start stop : Nat) : Prop :=
  stop ≤ start ∨ start + (stop - start + (pageSize - 1)) / pageSize * pageSize < 2 ^ 64

instance {pageSize start stop : Nat} : Decidable (Ends pageSize start stop) :=
  inferInstanceAs (Decidable (_ ∨ _))

namespace MapsLine

variable {pageSize pos : Nat} {line : MapsLine}

def range (line : MapsLine) : List Byte :=
  line.start.digits ++ dash :: line.stop.digits

def body (line : MapsLine) : List Byte :=
  line.range ++ space :: line.rest

def text (line : MapsLine) : List Byte :=
  line.body ++ [newline]

def pages (pageSize : Nat) (line : MapsLine) : List Nat :=
  pagesOf pageSize line.start.value line.stop.value

/-- The rows into which a line at a position of the file is cut. -/
def rows (pos : Nat) (line : MapsLine) : List (List Byte) :=
  rowsAt pos line.body

/-- No read begins inside `start-end`. -/
def Undivided (pos : Nat) (line : MapsLine) : Prop :=
  ∀ k < line.range.length, 0 < k → (pos + k) % bufSize ≠ 0

instance : Decidable (line.Undivided pos) :=
  inferInstanceAs (Decidable (∀ k < line.range.length, 0 < k → (pos + k) % bufSize ≠ 0))

/-- The ranges that the reader finds in the rows of the line. -/
def rangesRead (pos : Nat) (line : MapsLine) : List (Nat × Nat) :=
  (line.rows pos).filterMap readRow

/-- The ranges that it finds behind the first row. -/
def rangesBehind (pos : Nat) (line : MapsLine) : List (Nat × Nat) :=
  (line.rows pos).tail.filterMap readRow

/-- The part of a divided line that reads as ranges may have the pages of the line,
as when a read begins behind leading zeros. -/
def Shown (pageSize pos : Nat) (line : MapsLine) : Prop :=
  if line.Undivided pos then
    Ends pageSize line.start.value line.stop.value ∧
      ∀ range ∈ line.rangesBehind pos, range.2 ≤ range.1
  else
    (∀ range ∈ line.rangesRead pos, Ends pageSize range.1 range.2) ∧
      (line.rangesRead pos).flatMap (fun range => pagesOf pageSize range.1 range.2) =
        line.pages pageSize

instance : Decidable (line.Shown pageSize pos) :=
  inferInstanceAs (Decidable (if line.Undivided pos then _ ∧ _ else _ ∧ _))

end MapsLine

/-- The content of the file. -/
def mapsOf (lines : List MapsLine) : List Byte :=
  lines.flatMap MapsLine.text

/-- One line for every page of every range, in the order of the file. -/
def dumpOf (pageSize : Nat) (pread : Nat → Nat → BitVec 64) (lines : List MapsLine) :
    List Printed :=
  header ++ ((lines.flatMap (MapsLine.pages pageSize)).mapIdx fun n page =>
    printPage page (pread n (page / pageSize * 8 % 2 ^ 64))).map .page

variable {pageSize pos start stop : Nat} {pread : Nat → Nat → BitVec 64}
  {lines : List MapsLine} {line : MapsLine} {address : Address}

/-! ### The pages of a range -/

theorem pagesOf_of_le (hle : stop ≤ start) (hsize : 0 < pageSize) :
    pagesOf pageSize start stop = [] := by
  have hcount : (stop - start + (pageSize - 1)) / pageSize = 0 := by
    rw [Nat.div_eq_zero_iff_lt hsize]
    omega
  rw [pagesOf, hcount]
  rfl

theorem pages_succ (hlt : start < stop) (hsize : 0 < pageSize) :
    (stop - start + (pageSize - 1)) / pageSize =
      (stop - (start + pageSize) + (pageSize - 1)) / pageSize + 1 := by
  by_cases hmore : start + pageSize ≤ stop
  · have h : stop - start + (pageSize - 1) =
        stop - (start + pageSize) + (pageSize - 1) + pageSize := by omega
    rw [h, Nat.add_div_right _ hsize]
  · have hfirst : (stop - start + (pageSize - 1)) / pageSize = 1 := by
      apply Nat.div_eq_of_lt_le
      · omega
      · omega
    have hrest : (stop - (start + pageSize) + (pageSize - 1)) / pageSize = 0 := by
      rw [Nat.div_eq_zero_iff_lt hsize]
      omega
    rw [hfirst, hrest]

theorem pagesOf_of_lt (hlt : start < stop) (hsize : 0 < pageSize) :
    pagesOf pageSize start stop = start :: pagesOf pageSize (start + pageSize) stop := by
  rw [pagesOf, pagesOf, pages_succ hlt hsize, List.range_succ_eq_map, List.map_cons,
    List.map_map]
  congr 1
  · simp
  · apply List.map_congr_left
    intro k hk
    simp only [Function.comp_apply, Nat.succ_eq_add_one]
    ring

theorem pagesOf_eq_nil_iff (hsize : 0 < pageSize) :
    pagesOf pageSize start stop = [] ↔ stop ≤ start := by
  constructor
  · intro hnil
    by_contra hlt
    rw [pagesOf_of_lt (Nat.lt_of_not_le hlt) hsize] at hnil
    exact absurd hnil (by simp)
  · intro hle
    exact pagesOf_of_le hle hsize

theorem pagesOf_sorted (hsize : 0 < pageSize) :
    (pagesOf pageSize start stop).Pairwise (· < ·) := by
  rw [pagesOf, List.pairwise_map]
  apply List.Pairwise.imp _ List.pairwise_lt_range
  intro k k' hlt
  exact Nat.add_lt_add_left (Nat.mul_lt_mul_of_pos_right hlt hsize) start

/-- For a range that begins at a page these are the pages in it. -/
theorem mem_pagesOf_iff (hsize : 0 < pageSize) (haligned : pageSize ∣ start) (page : Nat) :
    page ∈ pagesOf pageSize start stop ↔
      pageSize ∣ page ∧ start ≤ page ∧ page < stop := by
  obtain ⟨first, rfl⟩ := haligned
  rw [pagesOf, List.mem_map]
  constructor
  · rintro ⟨k, hk, rfl⟩
    rw [List.mem_range, Nat.lt_div_iff_mul_lt hsize] at hk
    refine ⟨⟨first + k, by ring⟩, by omega, ?_⟩
    have hcomm : pageSize * k = k * pageSize := Nat.mul_comm _ _
    omega
  · rintro ⟨⟨n, rfl⟩, hle, hlt⟩
    have hfirst : first ≤ n := Nat.le_of_mul_le_mul_left hle hsize
    obtain ⟨k, rfl⟩ := Nat.exists_eq_add_of_le hfirst
    rw [Nat.mul_add] at hlt
    refine ⟨k, ?_, by ring⟩
    rw [List.mem_range, Nat.lt_div_iff_mul_lt hsize]
    have hcomm : pageSize * k = k * pageSize := Nat.mul_comm _ _
    omega

theorem ends_step (hlt : start < stop) (hsize : 0 < pageSize) :
    Ends pageSize start stop ↔
      start + pageSize < 2 ^ 64 ∧ Ends pageSize (start + pageSize) stop := by
  rw [Ends, Ends, pages_succ hlt hsize, Nat.add_mul, Nat.one_mul]
  by_cases hlast : stop ≤ start + pageSize
  · have hnone : (stop - (start + pageSize) + (pageSize - 1)) / pageSize = 0 := by
      rw [Nat.div_eq_zero_iff_lt hsize]
      omega
    rw [hnone]
    omega
  · omega

/-- The page loop ends when no step leaves the 64 bits. -/
theorem visits_of_ends {fuel : Nat} (hsize : 0 < pageSize)
    (hends : Ends pageSize start stop) (hfuel : stop - start < fuel) :
    visits pageSize stop fuel start = some (pagesOf pageSize start stop) := by
  induction fuel generalizing start with
  | zero => omega
  | succ fuel ih =>
      rw [visits]
      split_ifs with hlt
      · obtain ⟨hbelow, hrest⟩ := (ends_step hlt hsize).mp hends
        rw [Nat.mod_eq_of_lt hbelow, ih hrest (by omega), pagesOf_of_lt hlt hsize]
        rfl
      · rw [pagesOf_of_le (by omega) hsize]

/-- A loop that leaves the 64 bits goes on at a lower address. -/
theorem ends_of_visits {fuel : Nat} {pages : List Nat} (hsize : 0 < pageSize)
    (hword : pageSize < 2 ^ 64) (hstart : start < 2 ^ 64)
    (hvisits : visits pageSize stop fuel start = some pages)
    (hsorted : pages.Pairwise (· < ·)) :
    Ends pageSize start stop ∧ pagesOf pageSize start stop = pages := by
  induction fuel generalizing start pages with
  | zero => exact absurd hvisits (by simp [visits])
  | succ fuel ih =>
      rw [visits] at hvisits
      split_ifs at hvisits with hlt
      · obtain ⟨more, hmore, rfl⟩ := Option.map_eq_some_iff.mp hvisits
        obtain ⟨hfirst, hsorted⟩ := List.pairwise_cons.mp hsorted
        obtain ⟨hends, hpages⟩ := ih (Nat.mod_lt _ (by decide)) hmore hsorted
        by_cases hbelow : start + pageSize < 2 ^ 64
        · rw [Nat.mod_eq_of_lt hbelow] at hends hpages
          exact ⟨(ends_step hlt hsize).mpr ⟨hbelow, hends⟩, by
            rw [pagesOf_of_lt hlt hsize, hpages]⟩
        · -- The next page would be below the first one.
          have hnext : (start + pageSize) % 2 ^ 64 < start := by omega
          rw [pagesOf_of_lt (hnext.trans hlt) hsize] at hpages
          have hmem : (start + pageSize) % 2 ^ 64 ∈ more := by
            rw [← hpages]
            exact List.mem_cons_self
          exact absurd (hfirst _ hmem) (Nat.lt_asymm hnext)
      · obtain rfl := Option.some.inj hvisits
        exact ⟨Or.inl (by omega), pagesOf_of_le (by omega) hsize⟩

/-! ### Reading the addresses -/

/-- No digit has another meaning for the tokeniser or for `strtoul`. -/
theorem hexDigit_plain : ∀ byte : Byte, (hexDigit byte).isSome = true →
    isSpace byte = false ∧ byte ≠ dash ∧ byte ≠ space ∧ byte ≠ newline ∧
      byte ≠ 0x2b ∧ byte ≠ 0x78 ∧ byte ≠ 0x58 ∧ byte ≠ 0 := by
  decide +kernel

theorem skipSign_of_hex {bytes : List Byte}
    (hhex : ∀ byte ∈ bytes, (hexDigit byte).isSome) : skipSign bytes = (false, bytes) := by
  cases bytes with
  | nil => rfl
  | cons byte bytes =>
      obtain ⟨-, hdash, -, -, hplus, -⟩ := hexDigit_plain byte (hhex byte (by simp))
      change byte ≠ 0x2d at hdash
      rw [skipSign, if_neg hdash, if_neg hplus]

theorem skipPrefix_of_hex {bytes : List Byte}
    (hhex : ∀ byte ∈ bytes, (hexDigit byte).isSome) : skipPrefix bytes = bytes := by
  unfold skipPrefix
  split
  · next zero x bytes =>
      obtain ⟨-, -, -, -, -, hx, hX, -⟩ := hexDigit_plain x (hhex x (by simp))
      rw [if_neg]
      rintro ⟨-, h | h⟩
      · exact hx h
      · exact hX h
  · rfl

theorem strtoul_address (address : Address) :
    strtoul address.digits = address.value := by
  have hspace : address.digits.dropWhile isSpace = address.digits := by
    cases hdigits : address.digits with
    | nil => rfl
    | cons byte bytes =>
        have hbyte := hexDigit_plain byte (address.hex byte (by simp [hdigits]))
        rw [List.dropWhile_cons_of_neg (by simp [hbyte.1])]
  have hlt : ¬ 2 ^ 64 ≤ hexValue 0 address.digits := Nat.not_le.mpr address.lt
  unfold strtoul
  rw [hspace, skipSign_of_hex address.hex]
  dsimp only
  rw [skipPrefix_of_hex address.hex, if_neg hlt]
  rfl

/-- A token that begins a string. -/
theorem strtokR_append {token : List Byte} {delim : Byte} (bytes : List Byte)
    (htoken : token ≠ [])
    (hplain : ∀ byte ∈ token, byte ≠ delim) :
    strtokR (token ++ bytes) delim = some
      (token ++ bytes.takeWhile (· != delim), (bytes.dropWhile (· != delim)).tail) := by
  have hkeep : ∀ byte ∈ token, (byte != delim) = true := by
    intro byte hmem
    simpa using hplain byte hmem
  have hskip : (token ++ bytes).dropWhile (· == delim) = token ++ bytes := by
    cases token with
    | nil => exact absurd rfl htoken
    | cons byte token =>
        have hbyte := hplain byte (by simp)
        rw [List.cons_append, List.dropWhile_cons_of_neg (by simpa using hbyte)]
  unfold strtokR
  rw [hskip]
  split
  · next hnil => exact absurd (List.append_eq_nil_iff.mp hnil).1 htoken
  · next byte more hcons =>
      rw [← hcons, List.takeWhile_append_of_pos hkeep, List.dropWhile_append_of_pos hkeep]

theorem Address.plain (address : Address) {byte : Byte}
    (hmem : byte ∈ address.digits) :
    byte ≠ dash ∧ byte ≠ space ∧ byte ≠ newline ∧ byte ≠ 0 := by
  obtain ⟨-, hdash, hspace, hnewline, -, -, -, hzero⟩ :=
    hexDigit_plain byte (address.hex byte hmem)
  exact ⟨hdash, hspace, hnewline, hzero⟩

theorem MapsLine.mem_range {byte : Byte} (hmem : byte ∈ line.range) :
    byte ≠ space ∧ byte ≠ newline ∧ byte ≠ 0 := by
  rw [MapsLine.range, List.mem_append, List.mem_cons] at hmem
  rcases hmem with hstart | rfl | hstop
  · exact (line.start.plain hstart).2
  · decide
  · exact (line.stop.plain hstop).2

theorem MapsLine.range_ne_nil : line.range ≠ [] := by
  unfold MapsLine.range
  simp

/-- A row that begins with the range of a line names its addresses. -/
theorem rowRange_range (tail : List Byte)
    (htail : ∀ byte, tail.head? = some byte → byte = space) :
    rowRange (line.range ++ tail) = some (line.start.value, line.stop.value) := by
  have hcut : tail.takeWhile (· != space) = [] := by
    cases tail with
    | nil => rfl
    | cons byte tail => rw [htail byte rfl, List.takeWhile_cons_of_neg (by simp)]
  have haddresses := strtokR_append tail MapsLine.range_ne_nil
    fun byte hmem => (line.mem_range hmem).1
  rw [hcut, List.append_nil] at haddresses
  have hstart : strtokR line.range dash = some (line.start.digits, line.stop.digits) := by
    rw [MapsLine.range, strtokR_append _ line.start.nonempty
      fun byte hmem => (line.start.plain hmem).1]
    simp
  have hstop := strtokR_append [] line.stop.nonempty
    fun byte hmem => (line.stop.plain hmem).1
  simp only [List.append_nil, List.takeWhile_nil] at hstop
  simp only [rowRange, strtok, Option.getD_some, Option.getD_none, haddresses, hstart, hstop,
    strtoul_address]

/-! ### Lines and rows -/

theorem isNewline_newline : isNewline newline = true := by decide

theorem nulToNewline_newline : nulToNewline newline = newline := by decide

/-- A line ends its last row. -/
theorem rowsAt_text_append (bytes : List Byte) :
    rowsAt pos (line.text ++ bytes) =
      line.rows pos ++ rowsAt (pos + line.text.length) bytes := by
  have h : rowsFrom isNewline bufSize pos []
      (line.body.map nulToNewline ++ newline :: bytes.map nulToNewline) =
      rowsFrom isNewline bufSize pos [] (line.body.map nulToNewline) ++
        rowsFrom isNewline bufSize (pos + (line.body.map nulToNewline).length + 1) []
          (bytes.map nulToNewline) :=
    rowsFrom_append_sep isNewline_newline
  rw [List.length_map] at h
  rw [MapsLine.rows, rowsAt, rowsAt, rowsAt, MapsLine.text, List.length_append,
    List.length_singleton, ← Nat.add_assoc, ← h]
  simp [nulToNewline_newline]

theorem rowsAt_mapsOf_append (bytes : List Byte) :
    rowsAt pos (mapsOf lines ++ bytes) =
      rowsAt pos (mapsOf lines) ++ rowsAt (pos + (mapsOf lines).length) bytes := by
  induction lines generalizing pos with
  | nil => simp [mapsOf, rowsAt, rowsFrom, emit]
  | cons line lines ih =>
      have hcons : mapsOf (line :: lines) = line.text ++ mapsOf lines := by
        simp [mapsOf]
      rw [hcons, List.append_assoc, rowsAt_text_append, rowsAt_text_append, ih,
        List.length_append, Nat.add_assoc, List.append_assoc]

theorem rowsAt_mapsOf_snoc :
    rowsAt pos (mapsOf (lines ++ [line])) =
      rowsAt pos (mapsOf lines) ++ line.rows (pos + (mapsOf lines).length) := by
  have hsnoc : mapsOf (lines ++ [line]) = mapsOf lines ++ line.text := by
    simp [mapsOf]
  have htext : rowsAt (pos + (mapsOf lines).length) (line.text ++ []) =
      line.rows (pos + (mapsOf lines).length) ++
        rowsAt (pos + (mapsOf lines).length + line.text.length) [] :=
    rowsAt_text_append []
  rw [List.append_nil] at htext
  rw [hsnoc, rowsAt_mapsOf_append, htext]
  simp [rowsAt, rowsFrom, emit]

/-! ### The ranges of a line -/

theorem Number.value_lt (number : Number) : number.value < 2 ^ 64 := by
  cases number <;> simp only [Number.value] <;> omega

theorem readRow_lt {row : List Byte} {range : Nat × Nat} (hread : readRow row = some range) :
    range.1 < 2 ^ 64 ∧ range.2 < 2 ^ 64 := by
  unfold readRow Reading.range at hread
  split at hread
  · obtain rfl := Option.some.inj hread
    exact ⟨Number.value_lt _, Number.value_lt _⟩
  · obtain rfl := Option.some.inj hread
    exact ⟨Number.value_lt _, Number.value_lt _⟩
  · exact absurd hread (by simp)

/-- A row names the pages of the range that is read from it. -/
theorem rowVisits_iff {row : List Byte} {pages : List Nat} (hsize : 0 < pageSize)
    (hword : pageSize < 2 ^ 64) (hsorted : pages.Pairwise (· < ·)) :
    rowVisits pageSize row = some pages ↔
      (∀ range ∈ readRow row, Ends pageSize range.1 range.2) ∧
        (readRow row).elim [] (fun range => pagesOf pageSize range.1 range.2) = pages := by
  rw [rowVisits, rowRange_eq_readRow]
  cases hread : readRow row with
  | none => simp
  | some range =>
      obtain ⟨hstart, hstop⟩ := readRow_lt hread
      simp only [Option.mem_some_iff, forall_eq', Option.elim_some]
      constructor
      · intro hvisits
        exact ends_of_visits hsize hword hstart hvisits hsorted
      · rintro ⟨hends, rfl⟩
        exact visits_of_ends hsize hends (by omega)

/-- The rows of a line name pages in their order when every range ends. -/
theorem rowsVisits_iff {rows : List (List Byte)} {pages : List Nat} (hsize : 0 < pageSize)
    (hword : pageSize < 2 ^ 64) (hsorted : pages.Pairwise (· < ·)) :
    rowsVisits pageSize rows = some pages ↔
      (∀ range ∈ rows.filterMap readRow, Ends pageSize range.1 range.2) ∧
        (rows.filterMap readRow).flatMap
          (fun range => pagesOf pageSize range.1 range.2) = pages := by
  induction rows generalizing pages with
  | nil => simp [rowsVisits]
  | cons row rows ih =>
      have hfilter : (row :: rows).filterMap readRow =
          (readRow row).toList ++ rows.filterMap readRow := by
        cases hread : readRow row with
        | none => simp [hread]
        | some range => simp [hread]
      have hhere : (readRow row).toList.flatMap
          (fun range => pagesOf pageSize range.1 range.2) =
            (readRow row).elim [] (fun range => pagesOf pageSize range.1 range.2) := by
        cases readRow row with
        | none => rfl
        | some range => simp
      rw [rowsVisits, hfilter, List.flatMap_append, hhere]
      constructor
      · intro hvisits
        obtain ⟨here, hrow, hvisits⟩ := Option.bind_eq_some_iff.mp hvisits
        obtain ⟨more, hmore, rfl⟩ := Option.map_eq_some_iff.mp hvisits
        obtain ⟨hsortedHere, hsortedMore, -⟩ := List.pairwise_append.mp hsorted
        obtain ⟨hends, hpages⟩ := (rowVisits_iff hsize hword hsortedHere).mp hrow
        obtain ⟨hendsMore, hpagesMore⟩ := (ih hsortedMore).mp hmore
        refine ⟨?_, by rw [hpages, hpagesMore]⟩
        intro range hmem
        rcases List.mem_append.mp hmem with hmem | hmem
        · exact hends range (Option.mem_toList.mp hmem)
        · exact hendsMore range hmem
      · rintro ⟨hends, rfl⟩
        obtain ⟨hsortedHere, hsortedMore, -⟩ := List.pairwise_append.mp hsorted
        have hrow := (rowVisits_iff hsize hword hsortedHere).mpr
          ⟨fun range hmem => hends range
            (List.mem_append_left _ (Option.mem_toList.mpr hmem)), rfl⟩
        have hmore := (ih hsortedMore).mpr
          ⟨fun range hmem => hends range (List.mem_append_right _ hmem), rfl⟩
        rw [hrow, hmore]
        rfl

/-- The first row of an undivided line begins with its range. -/
theorem MapsLine.Undivided.rows_eq (hundivided : line.Undivided pos) :
    ∃ tail others, line.rows pos = (line.range ++ tail) :: others ∧
      ∀ byte, tail.head? = some byte → byte = space := by
  have hmap : line.body.map nulToNewline =
      line.range ++ space :: line.rest.map nulToNewline := by
    have hsame : ∀ byte ∈ line.range, nulToNewline byte = id byte := by
      intro byte hmem
      exact if_neg (line.mem_range hmem).2.2
    rw [MapsLine.body, List.map_append, List.map_congr_left hsame, List.map_id]
    rfl
  have hkeep : ∀ byte ∈ line.range, isNewline byte = false := by
    intro byte hmem
    simpa [isNewline] using (line.mem_range hmem).2.1
  rw [MapsLine.rows, rowsAt, hmap]
  have hne : line.range ≠ [] := line.range_ne_nil
  obtain ⟨byte, bytes, hrange⟩ := List.exists_cons_of_ne_nil hne
  have hinside : ∀ k, k < bytes.length → (pos + 1 + k) % bufSize ≠ 0 := by
    intro k hk
    rw [Nat.add_assoc]
    apply hundivided (1 + k) _ (by omega)
    rw [hrange, List.length_cons]
    omega
  have hbyte : ¬ isNewline byte = true := by simp [hkeep byte (by simp [hrange])]
  have hbytes : ∀ byte ∈ bytes, isNewline byte = false := by
    intro byte hmem
    exact hkeep byte (by simp [hrange, hmem])
  rw [hrange, List.cons_append, rowsFrom_cons_start, if_neg hbyte,
    rowsFrom_keep hbytes hinside, List.singleton_append, ← hrange, rowsFrom,
    if_neg (by decide)]
  split_ifs with hcut
  · -- A read begins at the blank behind the range.
    refine ⟨[], _, by rw [emit_of_ne_nil hne, List.append_nil, List.singleton_append], ?_⟩
    simp
  · have hbegun : line.range ++ [space] ≠ [] := by simp
    obtain ⟨tail, others, hrows⟩ := rowsFrom_begun hbegun
    refine ⟨space :: tail, others, by rw [hrows, List.append_assoc, List.singleton_append], ?_⟩
    intro byte' hhead
    exact (Option.some.inj hhead).symm

/-- The rows of a line name its pages exactly when it is shown. -/
theorem MapsLine.shown_iff (hsize : 0 < pageSize) (hword : pageSize < 2 ^ 64) :
    line.Shown pageSize pos ↔
      rowsVisits pageSize (line.rows pos) = some (line.pages pageSize) := by
  have hsorted : (line.pages pageSize).Pairwise (· < ·) := pagesOf_sorted hsize
  rw [rowsVisits_iff hsize hword hsorted, MapsLine.Shown]
  split_ifs with hundivided
  · obtain ⟨tail, others, hrows, htail⟩ := hundivided.rows_eq
    have hfirst : readRow (line.range ++ tail) = some (line.start.value, line.stop.value) := by
      rw [← rowRange_eq_readRow, rowRange_range tail htail]
    rw [MapsLine.rangesBehind, hrows, List.tail_cons, List.filterMap_cons_some hfirst,
      List.forall_mem_cons, List.flatMap_cons, MapsLine.pages, List.append_right_eq_self,
      List.flatMap_eq_nil_iff, and_assoc]
    refine and_congr_right fun _ => ?_
    constructor
    · intro hbehind
      exact ⟨fun range hmem => Or.inl (hbehind range hmem),
        fun range hmem => (pagesOf_eq_nil_iff hsize).mpr (hbehind range hmem)⟩
    · rintro ⟨-, hnone⟩ range hmem
      exact (pagesOf_eq_nil_iff hsize).mp (hnone range hmem)
  · rfl

/-! ### The dump -/

theorem getPagemapInfo_eq (maps : List Byte) :
    getPagemapInfo pageSize pread maps =
      (rowsVisits pageSize (rowsAt 0 maps)).map fun pages =>
        header ++ (printPages pageSize pread [] pages).map .page := by
  rw [getPagemapInfo, readLoop_eq, Option.map_map]
  rfl

theorem printPages_eq_mapIdx (pages : List Nat) :
    (printPages pageSize pread [] pages) =
      pages.mapIdx fun n page =>
        printPage page (pread n (page / pageSize * 8 % 2 ^ 64)) := by
  induction pages using List.reverseRecOn with
  | nil => rfl
  | append_singleton pages page ih =>
      rw [printPages_append, List.mapIdx_append, ih]
      simp [printPages]

theorem dumpOf_eq :
    dumpOf pageSize pread lines =
      header ++ (printPages pageSize pread []
        (lines.flatMap (MapsLine.pages pageSize))).map .page := by
  rw [dumpOf, printPages_eq_mapIdx]

/-- The dump is right when the rows of the file name the pages of its lines. -/
theorem getPagemapInfo_eq_dumpOf_iff :
    getPagemapInfo pageSize pread (mapsOf lines) = some (dumpOf pageSize pread lines) ↔
      rowsVisits pageSize (rowsAt 0 (mapsOf lines)) =
        some (lines.flatMap (MapsLine.pages pageSize)) := by
  rw [getPagemapInfo_eq, dumpOf_eq, Option.map_eq_some_iff]
  constructor
  · rintro ⟨pages, hpages, heq⟩
    have hlines := List.append_cancel_left heq
    have hinj : Function.Injective Printed.page := fun _ _ h => Printed.page.inj h
    have hprinted := List.map_injective_iff.mpr hinj hlines
    rw [hpages, printPages_injective hprinted]
  · intro h
    exact ⟨_, h, rfl⟩

/-- One more line of the file. -/
theorem rowsVisits_mapsOf_snoc (hsize : 0 < pageSize) (hword : pageSize < 2 ^ 64)
    (hbefore : rowsVisits pageSize (rowsAt 0 (mapsOf lines)) =
      some (lines.flatMap (MapsLine.pages pageSize))) :
    rowsVisits pageSize (rowsAt 0 (mapsOf (lines ++ [line]))) =
        some ((lines ++ [line]).flatMap (MapsLine.pages pageSize)) ↔
      line.Shown pageSize (mapsOf lines).length := by
  rw [rowsAt_mapsOf_snoc, rowsVisits_append, hbefore, Nat.zero_add,
    MapsLine.shown_iff hsize hword]
  simp only [Option.bind_some, List.flatMap_append, List.flatMap_singleton]
  cases rowsVisits pageSize (line.rows (mapsOf lines).length) with
  | none => simp
  | some pages => simp

/-- The dumps of a file and of its beginnings show the pages of the lines exactly
when every line is shown at its place. -/
theorem dumps_show_pages_iff (pageSize : Nat) (pread : Nat → Nat → BitVec 64)
    (lines : List MapsLine) (hsize : 0 < pageSize) (hword : pageSize < 2 ^ 64) :
    (∀ k, getPagemapInfo pageSize pread (mapsOf (lines.take k)) =
        some (dumpOf pageSize pread (lines.take k))) ↔
      ∀ k (hk : k < lines.length),
        lines[k].Shown pageSize (mapsOf (lines.take k)).length := by
  simp only [getPagemapInfo_eq_dumpOf_iff]
  constructor
  · intro h k hk
    have hnext := h (k + 1)
    rw [List.take_succ_eq_append_getElem hk] at hnext
    exact (rowsVisits_mapsOf_snoc hsize hword (h k)).mp hnext
  · intro h k
    induction k with
    | zero => simp [mapsOf, rowsAt, rowsFrom, emit, rowsVisits]
    | succ k ih =>
        by_cases hk : k < lines.length
        · rw [List.take_succ_eq_append_getElem hk]
          exact (rowsVisits_mapsOf_snoc hsize hword ih).mpr (h k hk)
        · rw [List.take_of_length_le (by omega)] at ih ⊢
          exact ih

/-- A read divides the second line, `00001000-3000 r`, behind its leading zeros; the
third one, `8000-9000 w`, is undivided. -/
def zerosDividedMap : List MapsLine :=
  [{ start := ⟨[0x30], by decide, by decide, by decide⟩
     stop := ⟨[0x30], by decide, by decide, by decide⟩
     rest := List.replicate 503 0x78
     ends := fun hmem => absurd (List.eq_of_mem_replicate hmem) (by decide) },
   { start := ⟨[0x30, 0x30, 0x30, 0x30, 0x31, 0x30, 0x30, 0x30],
       by decide, by decide, by decide⟩
     stop := ⟨[0x33, 0x30, 0x30, 0x30], by decide, by decide, by decide⟩
     rest := [0x72]
     ends := by decide },
   { start := ⟨[0x38, 0x30, 0x30, 0x30], by decide, by decide, by decide⟩
     stop := ⟨[0x39, 0x30, 0x30, 0x30], by decide, by decide, by decide⟩
     rest := [0x77]
     ends := by decide }]

theorem dumps_show_pages_zeros :
    zerosDividedMap.flatMap (MapsLine.pages 4096) = [0x1000, 0x2000, 0x8000] ∧
      getPagemapInfo 4096 (fun _ _ => 0) (mapsOf zerosDividedMap) =
        some (dumpOf 4096 (fun _ _ => 0) zerosDividedMap) := by
  have hshown : ∀ k (hk : k < zerosDividedMap.length),
      zerosDividedMap[k].Shown 4096 (mapsOf (zerosDividedMap.take k)).length := by
    decide +kernel
  have hdumps := (dumps_show_pages_iff 4096 (fun _ _ => 0) zerosDividedMap (by decide)
    (by decide)).mpr hshown
  exact ⟨by decide, hdumps 3⟩

/-- A long first line and a second one, `1000-2000 r`, that begins four bytes
before the end of the first read. -/
def dividedMap : List MapsLine :=
  [{ start := ⟨[0x30], by decide, by decide, by decide⟩
     stop := ⟨[0x30], by decide, by decide, by decide⟩
     rest := List.replicate 503 0x78
     ends := fun hmem => absurd (List.eq_of_mem_replicate hmem) (by decide) },
   { start := ⟨[0x31, 0x30, 0x30, 0x30], by decide, by decide, by decide⟩
     stop := ⟨[0x32, 0x30, 0x30, 0x30], by decide, by decide, by decide⟩
     rest := [0x72]
     ends := by decide }]

theorem divided_line_is_missed :
    ¬ ∀ (pageSize : Nat) (pread : Nat → Nat → BitVec 64) (lines : List MapsLine),
      0 < pageSize →
        getPagemapInfo pageSize pread (mapsOf lines) =
          some (dumpOf pageSize pread lines) := by
  intro hall
  have hdump := hall 4096 (fun _ _ => 0) dividedMap (by decide)
  rw [getPagemapInfo_eq_dumpOf_iff] at hdump
  have hpages : dividedMap.flatMap (MapsLine.pages 4096) = [0x1000] := by decide
  have hrows : rowsVisits 4096 (rowsAt 0 (mapsOf dividedMap)) = some [] := by
    decide +kernel
  rw [hrows, hpages] at hdump
  exact absurd hdump (by decide)

end Proc
end OsStuff
