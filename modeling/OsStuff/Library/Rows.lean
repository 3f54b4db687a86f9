import Mathlib.Tactic

/-!
# Rows of a file read in chunks

A file is read in chunks of `n` elements and every chunk is cut at its
separators; a row that would be empty is dropped.  The rows of the chunks one
after another are the rows of the whole file when it is also cut before every
position that is a multiple of `n`.
-/

namespace OsStuff
namespace Library
namespace Rows

variable {α : Type*} (sep : α → Bool) (n : Nat)

/-- A finished row. -/
def emit : List α → List (List α)
  | [] => []
  | x :: cur => [x :: cur]

/-- The rows of a list; `cur` has been read of the first one. -/
def pieces (cur : List α) : List α → List (List α)
  | [] => emit cur
  | x :: xs =>
      if sep x then emit cur ++ pieces [] xs
      else pieces (cur ++ [x]) xs

/-- The rows when the list is also cut before the multiples of `n`; its first
element has position `pos`. -/
def rowsFrom (pos : Nat) (cur : List α) : List α → List (List α)
  | [] => emit cur
  | x :: xs =>
      if sep x then emit cur ++ rowsFrom (pos + 1) [] xs
      else if pos % n = 0 then emit cur ++ rowsFrom (pos + 1) [x] xs
      else rowsFrom (pos + 1) (cur ++ [x]) xs

/-- What a reader of `n` elements at a time gets. -/
def chunks : Nat → List α → List (List α)
  | 0, _ => []
  | fuel + 1, xs =>
      if xs = [] then [] else xs.take n :: chunks fuel (xs.drop n)

variable {sep n} {pos : Nat} {cur xs ys : List α} {x : α}

theorem emit_of_ne_nil (hcur : cur ≠ []) : emit cur = [cur] := by
  cases cur with
  | nil => exact absurd rfl hcur
  | cons x cur => rfl

theorem pieces_skip (hsep : ∀ x ∈ xs, sep x) :
    pieces sep [] (xs ++ ys) = pieces sep [] ys := by
  induction xs with
  | nil => rfl
  | cons x xs ih =>
      have hx : sep x = true := hsep x (by simp)
      have hxs : ∀ y ∈ xs, sep y := fun y hy => hsep y (by simp [hy])
      rw [List.cons_append, pieces, if_pos hx, ih hxs]
      rfl

/-- Elements that are no separators join the row that has begun. -/
theorem pieces_keep (hkeep : ∀ x ∈ xs, sep x = false) :
    pieces sep cur (xs ++ ys) = pieces sep (cur ++ xs) ys := by
  induction xs generalizing cur with
  | nil => simp
  | cons x xs ih =>
      have hx : ¬ sep x = true := by simp [hkeep x (by simp)]
      have hxs : ∀ y ∈ xs, sep y = false := fun y hy => hkeep y (by simp [hy])
      rw [List.cons_append, pieces, if_neg hx, ih hxs]
      simp

theorem pieces_of_sep (hsep : ∀ x ∈ xs, sep x) : pieces sep [] xs = [] := by
  have h : pieces sep [] (xs ++ []) = pieces sep [] [] := pieces_skip hsep
  rw [List.append_nil] at h
  rw [h]
  rfl

/-- The rows hold what is no separator. -/
theorem flatten_pieces :
    (pieces sep cur xs).flatten = cur ++ xs.filter fun x => !sep x := by
  induction xs generalizing cur with
  | nil => cases cur <;> rfl
  | cons x xs ih =>
      rw [pieces]
      split
      · rename_i hx
        have hemit : (emit cur).flatten = cur := by cases cur <;> simp [emit]
        rw [List.flatten_append, hemit, ih]
        simp [hx]
      · rename_i hx
        rw [ih]
        simp [hx]

/-- A row holds no separator. -/
theorem keep_of_mem_pieces (hcur : ∀ x ∈ cur, sep x = false) {row : List α}
    (hrow : row ∈ pieces sep cur xs) : ∀ x ∈ row, sep x = false := by
  have hemit : ∀ {cur : List α}, (∀ x ∈ cur, sep x = false) → row ∈ emit cur →
      ∀ x ∈ row, sep x = false := by
    intro cur hcur hmem
    cases cur with
    | nil => exact absurd hmem (by simp [emit])
    | cons x cur => rwa [List.mem_singleton.mp hmem]
  induction xs generalizing cur with
  | nil => exact hemit hcur hrow
  | cons x xs ih =>
      rw [pieces] at hrow
      split at hrow
      · rcases List.mem_append.mp hrow with hmem | hmem
        · exact hemit hcur hmem
        · exact ih (by simp) hmem
      · rename_i hx
        refine ih ?_ hrow
        intro y hy
        rcases List.mem_append.mp hy with hy | hy
        · exact hcur y hy
        · rw [List.mem_singleton.mp hy]
          exact Bool.eq_false_iff.mpr hx

/-- Rows joined by a separator are found again, whatever separators follow. -/
theorem pieces_intercalate {rows : List (List α)} (hx : sep x)
    (hrows : ∀ row ∈ rows, row ≠ [] ∧ ∀ y ∈ row, sep y = false)
    (hys : ∀ y ∈ ys, sep y) :
    pieces sep [] ([x].intercalate rows ++ ys) = rows := by
  induction rows with
  | nil =>
      rw [List.intercalate_nil, List.nil_append]
      exact pieces_of_sep hys
  | cons row rows ih =>
      obtain ⟨hne, hkeep⟩ := hrows row (by simp)
      have hrest := ih fun row' hrow' => hrows row' (List.mem_cons_of_mem _ hrow')
      cases rows with
      | nil =>
          rw [List.intercalate_singleton, pieces_keep hkeep, List.nil_append]
          cases ys with
          | nil => exact emit_of_ne_nil hne
          | cons y ys =>
              have hys' : ∀ z ∈ ys, sep z := fun z hz => hys z (by simp [hz])
              rw [pieces, if_pos (hys y (by simp)), emit_of_ne_nil hne,
                pieces_of_sep hys']
              rfl
      | cons row' rows =>
          rw [List.intercalate_cons_cons, List.append_assoc, List.append_assoc,
            pieces_keep hkeep, List.nil_append, List.singleton_append, pieces,
            if_pos hx, emit_of_ne_nil hne, hrest]
          rfl

/-- Where no position is a multiple of `n`, only the separators cut. -/
theorem rowsFrom_eq_pieces
    (hinside : ∀ k, k < xs.length → (pos + k) % n ≠ 0) :
    rowsFrom sep n pos cur xs = pieces sep cur xs := by
  induction xs generalizing pos cur with
  | nil => rfl
  | cons x xs ih =>
      have hpos : pos % n ≠ 0 := by simpa using hinside 0 (by simp)
      have hrest : ∀ k, k < xs.length → (pos + 1 + k) % n ≠ 0 := by
        intro k hk
        have h := hinside (k + 1) (by simpa using hk)
        rwa [show pos + (k + 1) = pos + 1 + k by omega] at h
      rw [rowsFrom, pieces, if_neg hpos, ih hrest, ih hrest]

/-- Elements between two cuts join the row that has begun. -/
theorem rowsFrom_keep (hkeep : ∀ x ∈ xs, sep x = false)
    (hinside : ∀ k, k < xs.length → (pos + k) % n ≠ 0) :
    rowsFrom sep n pos cur (xs ++ ys) =
      rowsFrom sep n (pos + xs.length) (cur ++ xs) ys := by
  induction xs generalizing pos cur with
  | nil => simp
  | cons x xs ih =>
      have hx : ¬ sep x = true := by simp [hkeep x (by simp)]
      have hpos : pos % n ≠ 0 := by simpa using hinside 0 (by simp)
      have hxs : ∀ y ∈ xs, sep y = false := fun y hy => hkeep y (by simp [hy])
      have hrest : ∀ k, k < xs.length → (pos + 1 + k) % n ≠ 0 := by
        intro k hk
        have h := hinside (k + 1) (by simpa using hk)
        rwa [show pos + (k + 1) = pos + 1 + k by omega] at h
      have hlength : pos + (x :: xs).length = pos + 1 + xs.length := by
        rw [List.length_cons]
        omega
      rw [List.cons_append, rowsFrom, if_neg hx, if_neg hpos, ih hxs hrest, hlength,
        List.append_assoc, List.singleton_append]

/-- A row that has begun is the beginning of the first row. -/
theorem rowsFrom_begun (hcur : cur ≠ []) :
    ∃ tail others, rowsFrom sep n pos cur xs = (cur ++ tail) :: others := by
  have hemit : emit cur = [cur ++ []] := by rw [emit_of_ne_nil hcur, List.append_nil]
  induction xs generalizing pos cur with
  | nil => exact ⟨[], [], hemit⟩
  | cons x xs ih =>
      rw [rowsFrom]
      split_ifs
      · exact ⟨[], _, by rw [hemit, List.singleton_append]⟩
      · exact ⟨[], _, by rw [hemit, List.singleton_append]⟩
      · have hnext : cur ++ [x] ≠ [] := by simp
        obtain ⟨tail, others, hrows⟩ := ih hnext
          (by rw [emit_of_ne_nil hnext, List.append_nil])
        exact ⟨x :: tail, others, by rw [hrows, List.append_assoc, List.singleton_append]⟩

/-- The first part of a list ends at a multiple of `n`. -/
theorem rowsFrom_append_cut
    (hinside : ∀ k, k < xs.length → (pos + k) % n ≠ 0)
    (hcut : (pos + xs.length) % n = 0) :
    rowsFrom sep n pos cur (xs ++ ys) =
      pieces sep cur xs ++ rowsFrom sep n (pos + xs.length) [] ys := by
  induction xs generalizing pos cur with
  | nil =>
      -- Whatever comes next, the row that has begun ends here.
      cases ys with
      | nil => simp [rowsFrom, pieces, emit]
      | cons y ys =>
          have hpos : pos % n = 0 := by simpa using hcut
          simp only [List.nil_append, List.length_nil, Nat.add_zero, pieces, rowsFrom, hpos,
            if_true]
          split_ifs
          · simp [emit]
          · simp [emit]
  | cons x xs ih =>
      have hpos : pos % n ≠ 0 := by simpa using hinside 0 (by simp)
      have hrest : ∀ k, k < xs.length → (pos + 1 + k) % n ≠ 0 := by
        intro k hk
        have h := hinside (k + 1) (by simpa using hk)
        rwa [show pos + (k + 1) = pos + 1 + k by omega] at h
      have hlength : pos + (x :: xs).length = pos + 1 + xs.length := by
        rw [List.length_cons]
        omega
      rw [hlength] at hcut ⊢
      rw [List.cons_append, rowsFrom, pieces, if_neg hpos, ih hrest hcut, ih hrest hcut]
      split_ifs
      · rw [List.append_assoc]
      · rfl

/-- A cut before the first element of a list changes nothing. -/
theorem rowsFrom_cons_start :
    rowsFrom sep n pos [] (x :: xs) =
      if sep x then rowsFrom sep n (pos + 1) [] xs
      else rowsFrom sep n (pos + 1) [x] xs := by
  rw [rowsFrom]
  split_ifs
  · rfl
  · rfl
  · rfl

theorem pieces_cons_start :
    pieces sep [] (x :: xs) =
      if sep x then pieces sep [] xs else pieces sep [x] xs := by
  rw [pieces]
  rfl

theorem add_mod_ne_zero {k : Nat} (hpos : pos % n = 0) (hzero : 0 < k) (hlt : k < n) :
    (pos + k) % n ≠ 0 := by
  rw [Nat.add_mod, hpos, Nat.zero_add, Nat.mod_mod, Nat.mod_eq_of_lt hlt]
  omega

/-- No position behind the first one is a multiple of `n`. -/
theorem rowsFrom_uncut
    (hinside : ∀ k, 0 < k → k < xs.length → (pos + k) % n ≠ 0) :
    rowsFrom sep n pos [] xs = pieces sep [] xs := by
  cases xs with
  | nil => rfl
  | cons x xs =>
      have hrest : ∀ k, k < xs.length → (pos + 1 + k) % n ≠ 0 := by
        intro k hk
        rw [Nat.add_assoc]
        apply hinside (1 + k) (by omega)
        rw [List.length_cons]
        omega
      rw [rowsFrom_cons_start, pieces_cons_start, rowsFrom_eq_pieces hrest,
        rowsFrom_eq_pieces hrest]

/-- A list that begins at a multiple of `n` and is not longer than `n`. -/
theorem rowsFrom_short (hpos : pos % n = 0) (hlength : xs.length ≤ n) :
    rowsFrom sep n pos [] xs = pieces sep [] xs := by
  apply rowsFrom_uncut
  intro k hzero hk
  exact add_mod_ne_zero hpos hzero (by omega)

/-- A whole chunk. -/
theorem rowsFrom_chunk (hn : 0 < n) (hpos : pos % n = 0) (hlength : xs.length = n) :
    rowsFrom sep n pos [] (xs ++ ys) =
      pieces sep [] xs ++ rowsFrom sep n (pos + n) [] ys := by
  cases xs with
  | nil =>
      rw [List.length_nil] at hlength
      omega
  | cons x xs =>
      rw [List.length_cons] at hlength
      have hinside : ∀ k, k < xs.length → (pos + 1 + k) % n ≠ 0 := by
        intro k hk
        rw [Nat.add_assoc]
        exact add_mod_ne_zero hpos (by omega) (by omega)
      have hend : pos + 1 + xs.length = pos + n := by omega
      have hcut : (pos + 1 + xs.length) % n = 0 := by
        rw [hend, Nat.add_mod_right, hpos]
      rw [List.cons_append, rowsFrom_cons_start, pieces_cons_start,
        rowsFrom_append_cut hinside hcut, rowsFrom_append_cut hinside hcut, hend]
      split_ifs
      · rfl
      · rfl

theorem flatMap_chunks (hn : 0 < n) {fuel : Nat} (hfuel : xs.length < fuel)
    (hpos : pos % n = 0) :
    (chunks n fuel xs).flatMap (pieces sep []) = rowsFrom sep n pos [] xs := by
  induction fuel generalizing xs pos with
  | zero => omega
  | succ fuel ih =>
      rw [chunks]
      split_ifs with hnil
      · rw [hnil]
        rfl
      · have hlength : 0 < xs.length := List.length_pos_of_ne_nil hnil
        have hdrop : (xs.drop n).length < fuel := by
          rw [List.length_drop]
          omega
        have hpos' : (pos + n) % n = 0 := by rw [Nat.add_mod_right, hpos]
        rw [List.flatMap_cons, ih hdrop hpos']
        by_cases hshort : xs.length ≤ n
        · rw [List.take_of_length_le hshort, List.drop_of_length_le hshort,
            rowsFrom_short hpos hshort]
          simp [rowsFrom, emit]
        · have htake : (xs.take n).length = n := by
            rw [List.length_take]
            omega
          rw [← rowsFrom_chunk hn hpos htake, List.take_append_drop]

/-- After a separator the rows of what follows depend on its position only. -/
theorem rowsFrom_append_sep (hx : sep x) :
    rowsFrom sep n pos cur (xs ++ x :: ys) =
      rowsFrom sep n pos cur xs ++ rowsFrom sep n (pos + xs.length + 1) [] ys := by
  induction xs generalizing pos cur with
  | nil =>
      simp only [List.nil_append, List.length_nil, Nat.add_zero, rowsFrom, hx, if_true]
  | cons y xs ih =>
      have hlength : pos + (y :: xs).length + 1 = pos + 1 + xs.length + 1 := by
        rw [List.length_cons]
        omega
      rw [List.cons_append, rowsFrom, rowsFrom, hlength, ih, ih, ih]
      split_ifs
      · rw [List.append_assoc]
      · rw [List.append_assoc]
      · rfl

end Rows
end Library
end OsStuff
