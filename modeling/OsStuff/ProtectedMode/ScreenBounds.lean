import OsStuff.ProtectedMode.LineEditor

/-!
# The bounds of the screen

The screen has 2000 cells, and the text of the line editor is followed by the
cursor.  `new_09` does not look for the end of the screen: its stores stay in the
segment exactly as long as the text has no more than 1999 cells.
-/

namespace OsStuff
namespace ProtectedMode

variable {m : Machine} {e : Editor} {code : Byte} {codes : List Scancode}

/-- A handler keeps the position even. -/
theorem even_new09 (heven : m.vars.keyboardOutput.toNat % 2 = 0) :
    (new09 code m).vars.keyboardOutput.toNat % 2 = 0 := by
  rw [new09_eq]
  cases keyOf code with
  | typed char =>
      rw [handleKey, typeChar_vars, BitVec.toNat_add]
      simp
      omega
  | backspace =>
      rw [handleKey]
      by_cases hzero : m.vars.keyboardOutput = 0
      · rw [(kbBackspace_of_zero hzero).1]
        exact heven
      · rw [(kbBackspace_of_ne_zero hzero).1, BitVec.toNat_sub, BitVec.toNat_add]
        simp
        omega
  | shiftDown | shiftUp | ctrl | alt | escape | other => exact heven

theorem even_handleAll (heven : m.vars.keyboardOutput.toNat % 2 = 0) :
    (m.handleAll codes).vars.keyboardOutput.toNat % 2 = 0 := by
  induction codes generalizing m with
  | nil => exact heven
  | cons code codes ih => exact ih (even_new09 heven)

theorem stores_new09_subset : m.stores ⊆ (new09 code m).stores := by
  rw [new09_eq]
  cases keyOf code with
  | typed char =>
      rw [handleKey, typeChar_stores]
      exact List.subset_append_left _ _
  | backspace =>
      rw [handleKey]
      by_cases hzero : m.vars.keyboardOutput = 0
      · rw [(kbBackspace_of_zero hzero).2.2]
        exact List.subset_append_left _ _
      · rw [(kbBackspace_of_ne_zero hzero).2.2]
        exact List.subset_append_left _ _
  | shiftDown | shiftUp | ctrl | alt | escape | other => exact List.Subset.refl _

theorem stores_handleAll_subset (m : Machine) (codes : List Scancode) :
    m.stores ⊆ (m.handleAll codes).stores := by
  induction codes generalizing m with
  | nil => exact List.Subset.refl _
  | cons code codes ih => exact List.Subset.trans stores_new09_subset (ih (new09 code.1 m))

/-- A key stores nothing behind the cells of the text and the cursor. -/
theorem stores_new09_le (h : Holds m e) (hfits : e.text.length ≤ 1999)
    (hafter : (e.press (keyOf code)).text.length ≤ 1999)
    (hbefore : ∀ o ∈ m.stores, o + 1 ≤ screenLimit) :
    ∀ o ∈ (new09 code m).stores, o + 1 ≤ screenLimit := by
  rw [new09_eq]
  unfold screenLimit at hbefore ⊢
  cases hkey : keyOf code with
  | typed char =>
      have hlength : e.text.length + 1 ≤ 1999 := by
        simpa [hkey, Editor.press] using hafter
      intro o ho
      rw [handleKey, typeChar_stores, h.output, h.next hfits, List.mem_append] at ho
      rcases ho with ho | ho
      · exact hbefore o ho
      · simp only [List.mem_cons, List.not_mem_nil, or_false] at ho
        omega
  | backspace =>
      intro o ho
      by_cases hempty : e.text = []
      · rw [handleKey, (kbBackspace_of_zero (h.zero_iff.mpr hempty)).2.2, List.mem_append,
          List.mem_singleton] at ho
        rcases ho with ho | rfl
        · exact hbefore o ho
        · omega
      · have hne : m.vars.keyboardOutput ≠ 0 := fun hzero => hempty (h.zero_iff.mp hzero)
        have hpos : 0 < e.text.length := List.length_pos_of_ne_nil hempty
        rw [handleKey, (kbBackspace_of_ne_zero hne).2.2, h.output, h.previous hfits hpos,
          List.mem_append] at ho
        rcases ho with ho | ho
        · exact hbefore o ho
        · simp only [List.mem_cons, List.not_mem_nil, or_false] at ho
          omega
  | shiftDown | shiftUp | ctrl | alt | escape | other => exact hbefore

/-- When the text outgrows the screen, the cursor is stored behind it. -/
theorem mem_stores_of_overflow (h : Holds m e) (hfits : e.text.length ≤ 1999)
    (hafter : 1999 < (e.press (keyOf code)).text.length) :
    4000 ∈ (new09 code m).stores := by
  rw [new09_eq]
  cases hkey : keyOf code with
  | typed char =>
      have hlength : e.text.length = 1999 := by
        simp only [hkey, Editor.press, List.length_append, List.length_singleton] at hafter
        omega
      rw [handleKey, typeChar_stores, h.next hfits, hlength]
      simp
  | backspace =>
      simp only [hkey, Editor.press, List.length_dropLast] at hafter
      omega
  | shiftDown | shiftUp | ctrl | alt | escape | other =>
      simp only [hkey, Editor.press] at hafter
      omega

theorem stores_handleAll_le_iff (codes : List Scancode) (h : Holds m e) (hfits : e.text.length ≤ 1999)
    (hbefore : ∀ o ∈ m.stores, o + 1 ≤ screenLimit) :
    (∀ o ∈ (m.handleAll codes).stores, o + 1 ≤ screenLimit) ↔
      ∀ k, (e.pressAll (codes.take k)).text.length ≤ 1999 := by
  induction codes generalizing m e with
  | nil =>
      constructor
      · intro _ k
        rw [List.take_nil]
        exact hfits
      · intro _
        exact hbefore
  | cons code codes ih =>
      have hnext := holds_new09 h hfits code.1
      by_cases hafter : (e.press code.key).text.length ≤ 1999
      · have hstep := ih hnext hafter (stores_new09_le h hfits hafter hbefore)
        constructor
        · intro hall k
          cases k with
          | zero => exact hfits
          | succ k => exact hstep.mp hall k
        · intro hall
          exact hstep.mpr fun k => hall (k + 1)
      · have hnow : 4000 ∈ (new09 code.1 m).stores :=
          mem_stores_of_overflow h hfits (Nat.not_le.mp hafter)
        have hlate : 4000 ∈ (m.handleAll (code :: codes)).stores :=
          stores_handleAll_subset (new09 code.1 m) codes hnow
        constructor
        · intro hall
          exact absurd (hall _ hlate) (by decide)
        · intro hall
          exact absurd (hall 1) hafter

/-- The handler stores on the screen only, and keeps its position even, exactly
as long as the text leaves a cell for the cursor. -/
theorem stores_on_screen_iff (regs : Registers) (video : Nat → Byte)
    (codes : List Scancode) :
    ((∀ o ∈ ((Machine.start regs video).handleAll codes).stores, o + 1 ≤ screenLimit) ∧
        ∀ k, ((Machine.start regs video).handleAll
          (codes.take k)).vars.keyboardOutput.toNat % 2 = 0) ↔
      ∀ k, ((Editor.start video).pressAll (codes.take k)).text.length ≤ 1999 := by
  have hlength : (Editor.start video).text.length ≤ 1999 := by simp [Editor.start]
  have hiff := stores_handleAll_le_iff codes (holds_start regs video) hlength
    fun o ho => absurd ho (by simp [Machine.start])
  constructor
  · intro hall
    exact hiff.mp hall.1
  · intro hall
    have heven : (Machine.start regs video).vars.keyboardOutput.toNat % 2 = 0 := by
      simp [Machine.start, Variables.initial]
    exact ⟨hiff.mpr hall, fun k => even_handleAll heven⟩

theorem length_press_replicate (e : Editor) (count : Nat) :
    (e.pressAll (List.replicate count ⟨0x1E, by decide⟩)).text.length =
      e.text.length + count := by
  induction count generalizing e with
  | zero => rfl
  | succ count ih =>
      have hkey : keyOf 0x1E = .typed 0x41 := by decide
      have hpress : (e.press (keyOf 0x1E)).text.length = e.text.length + 1 := by
        rw [hkey, Editor.press, List.length_append, List.length_singleton]
      have h := ih (e.press (keyOf 0x1E))
      rw [hpress] at h
      rw [List.replicate_succ]
      exact h.trans (by omega)

/-- From the 1760th letter on the handler stores behind the screen. -/
theorem letters_leave_screen :
    ¬ ∀ (regs : Registers) (video : Nat → Byte) (codes : List Scancode),
      (∀ o ∈ ((Machine.start regs video).handleAll codes).stores, o + 1 ≤ screenLimit) ∧
        ∀ k, ((Machine.start regs video).handleAll
          (codes.take k)).vars.keyboardOutput.toNat % 2 = 0 := by
  intro hall
  have hstores := (hall ⟨0, 0, 0, 0, 0, 0, 0⟩ (fun _ => 0)
    (List.replicate 1760 ⟨0x1E, by decide⟩)).1
  have hlength : (Editor.start fun _ => 0).text.length = 240 := by simp [Editor.start]
  rw [stores_handleAll_le_iff _ (holds_start _ _) (by omega)
    fun o ho => absurd ho (by simp [Machine.start])] at hstores
  have hlast := hstores 1760
  rw [List.take_of_length_le (List.length_replicate.le), length_press_replicate,
    hlength] at hlast
  omega

end ProtectedMode
end OsStuff
