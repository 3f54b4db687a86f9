import Mathlib.Data.List.TakeWhile
import OsStuff.Library.Rows
import OsStuff.Proc.Pagemap

/-!
# The rows of the memory map

`get_pagemap_info` reads the map in chunks of 512 bytes, so a line is cut before
every such multiple.  Its dump is determined by the rows that result; it shows
the pages of a line when the rows of the line name them.
-/

namespace OsStuff
namespace Proc

open Library Library.Rows

def isNewline (byte : Byte) : Bool := byte == newline

/-! ### The tokeniser -/

section

variable {str token rest : List Byte} {delim : Byte}

theorem mem_takeWhile_eq {byte : Byte} (hmem : byte ∈ str.takeWhile (· == delim)) :
    (byte == delim) = true :=
  List.mem_takeWhile_imp (p := (· == delim)) hmem

theorem mem_takeWhile_ne {byte : Byte} (hmem : byte ∈ str.takeWhile (· != delim)) :
    (byte == delim) = false := by
  have h := List.mem_takeWhile_imp (p := (· != delim)) hmem
  simpa using h

theorem strtokR_nil : strtokR [] delim = none := rfl

/-- Where `strtok_r` finds no token there are delimiters only. -/
theorem strtokR_none (hnone : strtokR str delim = none) :
    ∀ byte ∈ str, byte = delim := by
  have hdrop : str.dropWhile (· == delim) = [] := by
    unfold strtokR at hnone
    split at hnone
    · assumption
    · exact absurd hnone (by simp)
  intro byte hmem
  simpa using List.dropWhile_eq_nil_iff.mp hdrop byte hmem

/-- What `strtok_r` finds: delimiters, the token, and its end. -/
theorem strtokR_split (hsome : strtokR str delim = some (token, rest)) :
    ∃ front behind, str = front ++ token ++ behind ∧ (∀ byte ∈ front, byte = delim) ∧
      token ≠ [] ∧ delim ∉ token ∧
        (behind = [] ∧ rest = [] ∨ behind = delim :: rest) := by
  unfold strtokR at hsome
  split at hsome
  · exact absurd hsome (by simp)
  · next byte more hdrop =>
      have hbyte : ¬ (byte == delim) = true := by
        have h := List.head_dropWhile_not (· == delim) (l := str) (by simp [hdrop])
        simpa [hdrop] using h
      obtain ⟨rfl, rfl⟩ := Prod.mk.inj (Option.some.inj hsome)
      refine ⟨str.takeWhile (· == delim), (byte :: more).dropWhile (· != delim),
        ?_, ?_, ?_, ?_, ?_⟩
      · rw [List.append_assoc, List.takeWhile_append_dropWhile, ← hdrop,
          List.takeWhile_append_dropWhile]
      · intro byte' hmem
        simpa using mem_takeWhile_eq hmem
      · rw [List.takeWhile_cons_of_pos (by simpa using hbyte)]
        simp
      · intro hmem
        simpa using mem_takeWhile_ne hmem
      · cases hbehind : (byte :: more).dropWhile (· != delim) with
        | nil => exact Or.inl ⟨rfl, rfl⟩
        | cons byte' bytes =>
            have h := List.head_dropWhile_not (· != delim) (l := byte :: more)
              (by simp [hbehind])
            have hdelim : byte' = delim := by simpa [hbehind] using h
            exact Or.inr (by rw [hdelim, List.tail_cons])

theorem pieces_of_strtokR_none (hnone : strtokR str delim = none) :
    pieces (· == delim) [] str = [] := by
  apply pieces_of_sep
  intro byte hmem
  simpa using strtokR_none hnone byte hmem

theorem strtokR_some (hsome : strtokR str delim = some (token, rest)) :
    pieces (· == delim) [] str = token :: pieces (· == delim) [] rest ∧
      rest.length < str.length := by
  obtain ⟨front, behind, rfl, hfront, hne, hdelim, hend⟩ := strtokR_split hsome
  have hskip : ∀ byte ∈ front, (byte == delim) = true := by
    intro byte hmem
    simpa using hfront byte hmem
  have hkeep : ∀ byte ∈ token, (byte == delim) = false := by
    intro byte hmem
    simpa using ne_of_mem_of_not_mem hmem hdelim
  have hpos := List.length_pos_of_ne_nil hne
  rw [List.append_assoc, pieces_skip hskip, pieces_keep hkeep, List.nil_append,
    List.length_append, List.length_append]
  rcases hend with ⟨rfl, rfl⟩ | rfl
  · constructor
    · rw [pieces, emit_of_ne_nil hne]
      rfl
    · rw [List.length_nil]
      omega
  · constructor
    · rw [pieces, if_pos (by simp), emit_of_ne_nil hne]
      rfl
    · rw [List.length_cons]
      omega

end

/-! ### Rows and pages -/

/-- The values of `i` in the rounds of the page loop. -/
def visits (pageSize stop : Nat) : Nat → Nat → Option (List Nat)
  | 0, _ => none
  | fuel + 1, i =>
      if i < stop then
        (visits pageSize stop fuel ((i + pageSize) % 2 ^ 64)).map (i :: ·)
      else some []

/-- The pages that a row names. -/
def rowVisits (pageSize : Nat) (row : List Byte) : Option (List Nat) :=
  match rowRange row with
  | none => some []
  | some (start, stop) => visits pageSize stop (2 ^ 64) start

def rowsVisits (pageSize : Nat) : List (List Byte) → Option (List Nat)
  | [] => some []
  | row :: rows =>
      (rowVisits pageSize row).bind fun here =>
        (rowsVisits pageSize rows).map (here ++ ·)

/-- The lines for pages that are printed after others. -/
def printPages (pageSize : Nat) (pread : Nat → Nat → BitVec 64)
    (out : List PageLine) (pages : List Nat) : List PageLine :=
  pages.foldl
    (fun out i => out ++ [printPage i (pread out.length (i / pageSize * 8 % 2 ^ 64))]) out

/-- The rows of the map from a position of the file on. -/
def rowsAt (pos : Nat) (bytes : List Byte) : List (List Byte) :=
  rowsFrom isNewline bufSize pos [] (bytes.map nulToNewline)

section

variable {pageSize : Nat} {pread : Nat → Nat → BitVec 64} {out : List PageLine}
  {rows rows' : List (List Byte)} {pages pages' : List Nat}

@[simp] theorem printPages_append :
    printPages pageSize pread out (pages ++ pages') =
      printPages pageSize pread (printPages pageSize pread out pages) pages' :=
  List.foldl_append

theorem addr_printPages (out : List PageLine) :
    (printPages pageSize pread out pages).map PageLine.addr =
      out.map PageLine.addr ++ pages := by
  induction pages generalizing out with
  | nil => simp [printPages]
  | cons i pages ih =>
      have h := ih (printPages pageSize pread out [i])
      rw [← printPages_append] at h
      simpa [printPages, printPage] using h

/-- The address column shows which pages were printed. -/
theorem printPages_injective
    (heq : printPages pageSize pread out pages = printPages pageSize pread out pages') :
    pages = pages' := by
  have h := congrArg (List.map PageLine.addr) heq
  rw [addr_printPages, addr_printPages] at h
  exact List.append_cancel_left h

theorem pageLoop_eq (stop fuel i : Nat) (out : List PageLine) :
    pageLoop pageSize pread stop fuel i out =
      (visits pageSize stop fuel i).map (printPages pageSize pread out) := by
  induction fuel generalizing i out with
  | zero => rfl
  | succ fuel ih =>
      rw [pageLoop, visits]
      split_ifs with hlt
      · rw [ih, Option.map_map]
        rfl
      · rfl

theorem rowsVisits_append :
    rowsVisits pageSize (rows ++ rows') =
      (rowsVisits pageSize rows).bind fun here =>
        (rowsVisits pageSize rows').map (here ++ ·) := by
  induction rows with
  | nil => simp [rowsVisits]
  | cons row rows ih =>
      rw [List.cons_append, rowsVisits, rowsVisits, ih]
      cases rowVisits pageSize row with
      | none => rfl
      | some here =>
          cases rowsVisits pageSize rows with
          | none => rfl
          | some more =>
              simp only [Option.bind_some, Option.map_some, Option.map_map]
              congr 1
              funext pages
              simp

/-- The loop visits the pages of a row and goes on behind it. -/
theorem rowLoop_step {fuel : Nat} {str row rest : List Byte}
    (htoken : strtokR str newline = some (row, rest)) :
    rowLoop pageSize pread (fuel + 1) str out =
      ((rowVisits pageSize row).map (printPages pageSize pread out)).bind
        (rowLoop pageSize pread fuel rest) := by
  rw [rowLoop, htoken, rowVisits]
  dsimp only
  cases rowRange row with
  | none => rfl
  | some range =>
      obtain ⟨start, stop⟩ := range
      dsimp only
      rw [pageLoop_eq]

theorem rowLoop_eq {fuel : Nat} {str : List Byte} (hfuel : str.length < fuel)
    (out : List PageLine) :
    rowLoop pageSize pread fuel str out =
      (rowsVisits pageSize (pieces isNewline [] str)).map
        (printPages pageSize pread out) := by
  induction fuel generalizing str out with
  | zero => omega
  | succ fuel ih =>
      cases htoken : strtokR str newline with
      | none =>
          have hpieces : pieces isNewline [] str = [] := pieces_of_strtokR_none htoken
          rw [rowLoop, htoken, hpieces]
          rfl
      | some pair =>
          obtain ⟨row, rest⟩ := pair
          have hstep := strtokR_some htoken
          have hpieces : pieces isNewline [] str = row :: pieces isNewline [] rest :=
            hstep.1
          have hrest : rest.length < fuel := by omega
          rw [rowLoop_step htoken, hpieces, rowsVisits]
          cases rowVisits pageSize row with
          | none => rfl
          | some here =>
              simp only [Option.map_some, Option.bind_some, Option.map_map, ih hrest]
              congr 1
              funext pages
              simp

theorem map_chunks {fuel : Nat} (f : Byte → Byte) (bytes : List Byte) :
    chunks bufSize fuel (bytes.map f) =
      (chunks bufSize fuel bytes).map (List.map f) := by
  induction fuel generalizing bytes with
  | zero => rfl
  | succ fuel ih =>
      rw [chunks, chunks]
      cases bytes with
      | nil => rfl
      | cons byte bytes =>
          rw [if_neg (by simp), if_neg (by simp), ← List.map_drop, ih, ← List.map_take]
          rfl

theorem readLoop_eq_chunks (fuel : Nat) (maps : List Byte) (out : List PageLine)
    (hfuel : maps.length < fuel) :
    readLoop pageSize pread fuel maps out =
      (rowsVisits pageSize
        ((chunks bufSize fuel (maps.map nulToNewline)).flatMap (pieces isNewline []))).map
          (printPages pageSize pread out) := by
  induction fuel generalizing maps out with
  | zero => omega
  | succ fuel ih =>
      rw [readLoop, map_chunks, chunks]
      cases maps with
      | nil => rfl
      | cons byte maps =>
          have hpos : 0 < ((byte :: maps).take bufSize).length := by
            rw [List.length_take, List.length_cons, bufSize]
            omega
          have hdrop : ((byte :: maps).drop bufSize).length < fuel := by
            rw [List.length_drop, List.length_cons, bufSize]
            rw [List.length_cons] at hfuel
            omega
          have hbuf : (((byte :: maps).take bufSize).map nulToNewline).length
              < ((byte :: maps).take bufSize).length + 1 := by
            rw [List.length_map]
            omega
          rw [if_pos hpos, if_neg (by simp), rowLoop_eq hbuf, List.map_cons, List.flatMap_cons,
            rowsVisits_append]
          -- A row that cannot be parsed ends both sides.
          cases rowsVisits pageSize
              (pieces isNewline [] (((byte :: maps).take bufSize).map nulToNewline)) with
          | none => rfl
          | some here =>
              simp only [Option.map_some, Option.bind_some, Option.map_map, ih _ _ hdrop,
                map_chunks]
              congr 1
              funext pages
              simp

/-- The dump is determined by the rows of the whole file. -/
theorem readLoop_eq (maps : List Byte) :
    readLoop pageSize pread (maps.length + 1) maps [] =
      (rowsVisits pageSize (rowsAt 0 maps)).map (printPages pageSize pread []) := by
  rw [readLoop_eq_chunks _ _ _ (Nat.lt_succ_self _)]
  have hchunks : (chunks bufSize (maps.length + 1) (maps.map nulToNewline)).flatMap
      (pieces isNewline []) = rowsFrom isNewline bufSize 0 [] (maps.map nulToNewline) :=
    flatMap_chunks (by decide) (by simp) (by decide)
  rw [hchunks, rowsAt]

end

end Proc
end OsStuff
