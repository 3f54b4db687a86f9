import OsStuff.ProtectedMode.Interrupts

/-!
# The line editor on the screen

What `new_09` keeps on the screen is a text: the cells before `keyboard_output`.
`Editor` is that text alone; a key appends a cell or takes the last one away.
The screen shows the text of the editor as long as it fits.
-/

namespace OsStuff
namespace ProtectedMode

/-- What a scancode asks for. -/
inductive Key
  | shiftDown
  | shiftUp
  | ctrl
  | alt
  | backspace
  | escape
  | typed (char : Byte)
  | other
  deriving DecidableEq, Repr

def keyOf (code : Byte) : Key :=
  if code = 0xAA ∨ code = 0xB6 then .shiftUp
  else if code = 0x2A ∨ code = 0x36 then .shiftDown
  else if code = 0x1D then .ctrl
  else if code = 0x38 then .alt
  else if code = 0x0E then .backspace
  else if code = 0x01 then .escape
  else if asciiOf code = 0 then .other
  else .typed (asciiOf code)

/-- Printable keys and backspace. -/
def Key.Edits : Key → Prop
  | .typed _ => True
  | .backspace => True
  | .shiftDown | .shiftUp | .ctrl | .alt | .escape | .other => False

instance (key : Key) : Decidable key.Edits := by
  cases key <;> unfold Key.Edits <;> infer_instance

def Scancode.key (code : Scancode) : Key := keyOf code.1

/-! ### The editor -/

/-- A colour has a background in its high half and a foreground in its low
half. -/
def nextBackground (color : Byte) : Byte :=
  let background := color.toNat / 16
  BitVec.ofNat 8 (16 * if background % 8 = 7 then background - 7 else background + 1)

def nextForeground (color : Byte) : Byte :=
  BitVec.ofNat 8 (color.toNat / 16 * 16 + (color.toNat % 16 + 1) % 16)

/-- Letters change their case while shift is down. -/
def letterOf (shift : Bool) (char : Byte) : Byte :=
  if shift = true ∧ 0x41 ≤ char ∧ char ≤ 0x5A then char + 0x20 else char

structure Editor where
  text : List Word
  shift : Bool
  color : Byte
  deriving DecidableEq, Repr

namespace Editor

def press (key : Key) (e : Editor) : Editor :=
  match key with
  | .shiftDown => { e with shift := true }
  | .shiftUp => { e with shift := false }
  | .ctrl => { e with color := nextBackground e.color }
  | .alt => { e with color := nextForeground e.color }
  | .backspace => { e with text := e.text.dropLast }
  | .typed char => { e with text := e.text ++ [e.color ++ letterOf e.shift char] }
  | .escape | .other => e

def pressAll (e : Editor) (codes : List Scancode) : Editor :=
  codes.foldl (fun e code => e.press code.key) e

end Editor

/-! ### The screen -/

/-- The character and the colour at an offset. -/
def cellAt (video : Nat → Byte) (offset : Nat) : Word :=
  video (offset + 1) ++ video offset

def Machine.cell (m : Machine) (offset : Nat) : Word := cellAt m.video offset

/-- The state in which the first key is handled. -/
def Machine.start (regs : Registers) (video : Nat → Byte) : Machine where
  regs := regs
  vars := Variables.initial
  video := video
  stores := []

def Machine.handleAll (m : Machine) (codes : List Scancode) : Machine :=
  codes.foldl (fun m code => new09 code.1 m) m

/-- The 240 cells before the first offset of `keyboard_output`. -/
def Editor.start (video : Nat → Byte) : Editor where
  text := (List.range 240).map fun i => cellAt video (2 * i)
  shift := false
  color := Variables.initial.keyboardColor

/-- The machine has the text of the editor. -/
structure Holds (m : Machine) (e : Editor) : Prop where
  output : m.vars.keyboardOutput.toNat = 2 * e.text.length
  cells : ∀ i (hi : i < e.text.length), m.cell (2 * i) = e.text[i]
  shift : m.vars.keyboardShift = 0 ↔ e.shift = false
  color : m.vars.keyboardColor = e.color
  even : ∀ o ∈ m.stores, o % 2 = 0
  erased : ∀ o ∈ m.stores, 2 * e.text.length < o → m.cell o = 0

/-- The screen shows the text and the cursor behind it. -/
structure Shows (m : Machine) (e : Editor) : Prop extends Holds m e where
  cursor : m.cell m.vars.keyboardOutput.toNat = flashWord

/-! ### Words on the screen -/

section

variable {m : Machine} {e : Editor} {video : Nat → Byte} {regs : Registers}
  {code char : Byte} {o o' : Nat} {word : Word} {vars : Variables}

@[simp] theorem low_setLow (reg : BitVec 32) (word : Word) :
    low (setLow reg word) = word :=
  BitVec.extractLsb'_append_eq_right

theorem cellAt_storeWord_same : cellAt (storeWord video o word) o = word := by
  have hnext : o + 1 ≠ o := by omega
  have hhigh : storeWord video o word (o + 1) = word.extractLsb' 8 8 := by
    rw [storeWord, if_neg hnext, if_pos rfl]
  have hlow : storeWord video o word o = word.extractLsb' 0 8 := by
    rw [storeWord, if_pos rfl]
  rw [cellAt, hhigh, hlow]
  exact @BitVec.extractLsb'_append_extractLsb' 8 8 word

theorem cellAt_storeWord_of_ne (hne : o' ≠ o) (heven : o' % 2 = o % 2) :
    cellAt (storeWord video o word) o' = cellAt video o' := by
  have h1 : o' + 1 ≠ o := by omega
  have h2 : o' + 1 ≠ o + 1 := by omega
  have h3 : o' ≠ o + 1 := by omega
  simp only [cellAt, storeWord, if_neg h1, if_neg h2, if_neg hne, if_neg h3]

/-! ### What a key does -/

/-- The end of `normal_key`, for a character that is not zero. -/
def typeChar (char : Byte) (m : Machine) : Machine :=
  let al := shifted m.vars.keyboardShift char
  let m := (m.movDi m.vars.keyboardOutput).stosw (m.vars.keyboardColor ++ al)
  kbFlashLine (m.setVars { m.vars with keyboardOutput := m.di })

def handleKey (m : Machine) : Key → Machine
  | .shiftDown => m.setVars { m.vars with keyboardShift := 1 }
  | .shiftUp => m.setVars { m.vars with keyboardShift := 0 }
  | .ctrl => m.setVars { m.vars with keyboardColor := kbCtrl m.vars.keyboardColor }
  | .alt => m.setVars { m.vars with keyboardColor := kbAlt m.vars.keyboardColor }
  | .backspace => kbBackspace m
  | .escape => m.setVars { m.vars with exitFlag := 1 }
  | .typed char => typeChar char m
  | .other => m

theorem keyOf_release : ∀ code : Byte, 0x80 < code → code ≠ 0xAA → code ≠ 0xB6 →
    keyOf code = .other := by
  decide +kernel

theorem new09_eq (code : Byte) (m : Machine) : new09 code m = handleKey m (keyOf code) := by
  unfold new09
  split_ifs with hup hrelease hcaps hdown hctrl halt hback hescape
  · rw [keyOf, if_pos hup, handleKey]
  · rw [not_or] at hup
    rw [keyOf_release code hrelease hup.1 hup.2, handleKey]
  · subst hcaps
    rfl
  · rw [keyOf, if_neg hup, if_pos hdown, handleKey]
  · rw [keyOf, if_neg hup, if_neg hdown, if_pos hctrl, handleKey]
  · rw [keyOf, if_neg hup, if_neg hdown, if_neg hctrl, if_pos halt, handleKey]
  · rw [keyOf, if_neg hup, if_neg hdown, if_neg hctrl, if_neg halt, if_pos hback, handleKey]
  · rw [keyOf, if_neg hup, if_neg hdown, if_neg hctrl, if_neg halt, if_neg hback,
      if_pos hescape, handleKey]
  · rw [keyOf, if_neg hup, if_neg hdown, if_neg hctrl, if_neg halt, if_neg hback,
      if_neg hescape, normalKey]
    by_cases hchar : asciiOf code = 0
    · rw [if_pos hchar, if_pos hchar, handleKey]
    · rw [if_neg hchar, if_neg hchar, handleKey, typeChar]

theorem kbCtrl_eq : ∀ color : Byte, kbCtrl color = nextBackground color := by
  decide +kernel

theorem kbAlt_eq : ∀ color : Byte, kbAlt color = nextForeground color := by
  decide +kernel

theorem shifted_eq {shift : Byte} {down : Bool} (hshift : shift = 0 ↔ down = false) :
    shifted shift char = letterOf down char := by
  unfold shifted letterOf
  cases down with
  | false => simp [hshift.mpr rfl]
  | true =>
      have hne : shift ≠ 0 := fun h => Bool.noConfusion (hshift.mp h)
      rw [if_neg hne]
      by_cases hlow : char < 0x41
      · rw [if_pos hlow, if_neg]
        intro h
        exact absurd hlow (BitVec.not_lt.mpr h.2.1)
      · rw [if_neg hlow]
        by_cases hhigh : 0x5A < char
        · rw [if_pos hhigh, if_neg]
          intro h
          exact absurd hhigh (BitVec.not_lt.mpr h.2.2)
        · rw [if_neg hhigh, if_pos ⟨rfl, BitVec.not_lt.mp hlow, BitVec.not_lt.mp hhigh⟩]

/-! ### One key -/

namespace Machine

@[simp] theorem di_movDi : (m.movDi word).di = word := low_setLow _ _
@[simp] theorem vars_movDi : (m.movDi word).vars = m.vars := rfl
@[simp] theorem video_movDi : (m.movDi word).video = m.video := rfl
@[simp] theorem stores_movDi : (m.movDi word).stores = m.stores := rfl

@[simp] theorem di_stosw : (m.stosw word).di = m.di + 2 := low_setLow _ _
@[simp] theorem vars_stosw : (m.stosw word).vars = m.vars := rfl
@[simp] theorem video_stosw :
    (m.stosw word).video = storeWord m.video m.di.toNat word := rfl
@[simp] theorem stores_stosw : (m.stosw word).stores = m.stores ++ [m.di.toNat] := rfl

@[simp] theorem di_setVars : (m.setVars vars).di = m.di := rfl
@[simp] theorem vars_setVars : (m.setVars vars).vars = vars := rfl
@[simp] theorem video_setVars : (m.setVars vars).video = m.video := rfl
@[simp] theorem stores_setVars : (m.setVars vars).stores = m.stores := rfl

end Machine

theorem typeChar_vars (char : Byte) (m : Machine) : (typeChar char m).vars =
    { m.vars with keyboardOutput := m.vars.keyboardOutput + 2 } := by
  simp [typeChar, kbFlashLine]

theorem typeChar_video (char : Byte) (m : Machine) : (typeChar char m).video =
    storeWord (storeWord m.video m.vars.keyboardOutput.toNat
        (m.vars.keyboardColor ++ shifted m.vars.keyboardShift char))
      (m.vars.keyboardOutput + 2).toNat flashWord := by
  simp [typeChar, kbFlashLine]

theorem typeChar_stores (char : Byte) (m : Machine) : (typeChar char m).stores =
    m.stores ++ [m.vars.keyboardOutput.toNat, (m.vars.keyboardOutput + 2).toNat] := by
  simp [typeChar, kbFlashLine]

theorem kbBackspace_of_zero (hzero : m.vars.keyboardOutput = 0) :
    (kbBackspace m).vars = m.vars ∧
      (kbBackspace m).video = storeWord m.video 0 flashWord ∧
      (kbBackspace m).stores = m.stores ++ [0] := by
  simp only [kbBackspace, Machine.di_movDi, Machine.vars_movDi]
  rw [if_pos hzero]
  simp [kbFlashLine, hzero]

theorem kbBackspace_of_ne_zero (hzero : m.vars.keyboardOutput ≠ 0) :
    (kbBackspace m).vars =
        { m.vars with keyboardOutput := m.vars.keyboardOutput + 2 - 4 } ∧
      (kbBackspace m).video =
        storeWord (storeWord m.video m.vars.keyboardOutput.toNat 0)
          (m.vars.keyboardOutput + 2 - 4).toNat flashWord ∧
      (kbBackspace m).stores =
        m.stores ++ [m.vars.keyboardOutput.toNat, (m.vars.keyboardOutput + 2 - 4).toNat] := by
  simp only [kbBackspace, Machine.di_movDi, Machine.vars_movDi]
  rw [if_neg hzero]
  simp [kbFlashLine]

/-- The cell behind the text, in the offsets of the segment. -/
theorem Holds.next (h : Holds m e) (hfits : e.text.length ≤ 1999) :
    (m.vars.keyboardOutput + 2).toNat = 2 * (e.text.length + 1) := by
  have houtput := h.output
  rw [BitVec.toNat_add, houtput]
  simp
  omega

theorem Holds.previous (h : Holds m e) (hfits : e.text.length ≤ 1999)
    (hpos : 0 < e.text.length) :
    (m.vars.keyboardOutput + 2 - 4).toNat = 2 * (e.text.length - 1) := by
  have hnext := h.next hfits
  rw [BitVec.toNat_sub, hnext]
  simp
  omega

theorem Holds.zero_iff (h : Holds m e) : m.vars.keyboardOutput = 0 ↔ e.text = [] := by
  rw [← BitVec.toNat_inj, h.output, ← List.length_eq_zero_iff]
  simp

/-- Two stores to cells keep every store at a cell. -/
theorem Holds.even_append (h : Holds m e) {m' : Machine} {a b : Nat}
    (hstores : m'.stores = m.stores ++ [2 * a, 2 * b]) :
    ∀ o ∈ m'.stores, o % 2 = 0 := by
  intro o ho
  rw [hstores, List.mem_append] at ho
  rcases ho with ho | ho
  · exact h.even o ho
  · simp only [List.mem_cons, List.not_mem_nil, or_false] at ho
    omega

theorem shows_typeChar (h : Holds m e) (hfits : e.text.length ≤ 1999) :
    Shows (typeChar char m) (e.press (.typed char)) := by
  have hoff := h.output
  have hnext := h.next hfits
  have hlength : (e.press (.typed char)).text.length = e.text.length + 1 := by
    simp [Editor.press]
  have hvideo := typeChar_video char m
  rw [hoff, hnext, h.color, shifted_eq h.shift] at hvideo
  have hstores := typeChar_stores char m
  rw [hoff, hnext] at hstores
  have hvars := typeChar_vars char m
  -- Away from the two stores the screen is as it was.
  have hother : ∀ o, o % 2 = 0 → o ≠ 2 * e.text.length → o ≠ 2 * (e.text.length + 1) →
      (typeChar char m).cell o = m.cell o := by
    intro o heven hne hne'
    rw [Machine.cell, hvideo, cellAt_storeWord_of_ne hne' (by omega),
      cellAt_storeWord_of_ne hne (by omega)]
    rfl
  constructor
  · constructor
    · rw [hvars, hlength]
      exact hnext
    · intro i hi
      rw [hlength] at hi
      by_cases hlast : i = e.text.length
      · subst hlast
        rw [Machine.cell, hvideo, cellAt_storeWord_of_ne (by omega) (by omega),
          cellAt_storeWord_same]
        simp [Editor.press]
      · have hold : i < e.text.length := by omega
        rw [hother _ (by omega) (by omega) (by omega), h.cells i hold]
        simp [Editor.press, hold]
    · rw [hvars]
      exact h.shift
    · rw [hvars]
      exact h.color
    · exact h.even_append hstores
    · intro o ho hbehind
      rw [hlength] at hbehind
      rw [hstores, List.mem_append] at ho
      rcases ho with ho | ho
      · rw [hother o (h.even o ho) (by omega) (by omega)]
        exact h.erased o ho (by omega)
      · simp only [List.mem_cons, List.not_mem_nil, or_false] at ho
        omega
  · have hcursor : (typeChar char m).vars.keyboardOutput.toNat =
        2 * (e.text.length + 1) := by
      rw [hvars]
      exact hnext
    rw [hcursor, Machine.cell, hvideo, cellAt_storeWord_same]

theorem shows_backspace_empty (h : Holds m e) (hempty : e.text = []) :
    Shows (kbBackspace m) (e.press .backspace) := by
  have hzero := h.zero_iff.mpr hempty
  obtain ⟨hvars, hvideo, hstores⟩ := kbBackspace_of_zero hzero
  have hsame : e.press .backspace = e := by
    cases e
    simp_all [Editor.press]
  have hlength : e.text.length = 0 := by simp [hempty]
  rw [hsame]
  constructor
  · constructor
    · rw [hvars]
      exact h.output
    · intro i hi
      omega
    · rw [hvars]
      exact h.shift
    · rw [hvars]
      exact h.color
    · intro o ho
      rw [hstores, List.mem_append, List.mem_singleton] at ho
      rcases ho with ho | rfl
      · exact h.even o ho
      · rfl
    · intro o ho hbehind
      rw [hstores, List.mem_append, List.mem_singleton] at ho
      rcases ho with ho | rfl
      · have heven := h.even o ho
        rw [Machine.cell, hvideo, cellAt_storeWord_of_ne (by omega) (by omega)]
        exact h.erased o ho hbehind
      · omega
  · rw [hvars, hzero, Machine.cell, hvideo]
    exact cellAt_storeWord_same

theorem shows_backspace (h : Holds m e) (hfits : e.text.length ≤ 1999) :
    Shows (kbBackspace m) (e.press .backspace) := by
  by_cases hempty : e.text = []
  · exact shows_backspace_empty h hempty
  have hpos : 0 < e.text.length := List.length_pos_of_ne_nil hempty
  have hoff := h.output
  have hprev := h.previous hfits hpos
  obtain ⟨hvars, hvideo, hstores⟩ :=
    kbBackspace_of_ne_zero fun hzero => hempty (h.zero_iff.mp hzero)
  rw [hoff, hprev] at hvideo hstores
  have hlength : (e.press .backspace).text.length = e.text.length - 1 := by
    simp [Editor.press]
  have hother : ∀ o, o % 2 = 0 → o ≠ 2 * e.text.length → o ≠ 2 * (e.text.length - 1) →
      (kbBackspace m).cell o = m.cell o := by
    intro o heven hne hne'
    rw [Machine.cell, hvideo, cellAt_storeWord_of_ne hne' (by omega),
      cellAt_storeWord_of_ne hne (by omega)]
    rfl
  -- The old cursor cell is the first one behind the new cursor.
  have herased : (kbBackspace m).cell (2 * e.text.length) = 0 := by
    rw [Machine.cell, hvideo, cellAt_storeWord_of_ne (by omega) (by omega)]
    exact cellAt_storeWord_same
  constructor
  · constructor
    · rw [hvars, hlength]
      exact hprev
    · intro i hi
      rw [hlength] at hi
      rw [hother _ (by omega) (by omega) (by omega), h.cells i (by omega)]
      simp [Editor.press]
    · rw [hvars]
      exact h.shift
    · rw [hvars]
      exact h.color
    · exact h.even_append hstores
    · intro o ho hbehind
      rw [hlength] at hbehind
      by_cases hcursor : o = 2 * e.text.length
      · rw [hcursor]
        exact herased
      rw [hstores, List.mem_append] at ho
      rcases ho with ho | ho
      · have heven := h.even o ho
        rw [hother o heven hcursor (by omega)]
        exact h.erased o ho (by omega)
      · simp only [List.mem_cons, List.not_mem_nil, or_false] at ho
        omega
  · have hcursor : (kbBackspace m).vars.keyboardOutput.toNat =
        2 * (e.text.length - 1) := by
      rw [hvars]
      exact hprev
    rw [hcursor, Machine.cell, hvideo, cellAt_storeWord_same]

/-- A key that changes no text. -/
theorem Holds.setVars (h : Holds m e) {e' : Editor} (htext : e'.text = e.text)
    (houtput : vars.keyboardOutput = m.vars.keyboardOutput)
    (hshift : vars.keyboardShift = 0 ↔ e'.shift = false)
    (hcolor : vars.keyboardColor = e'.color) : Holds (m.setVars vars) e' := by
  obtain ⟨text, shift, color⟩ := e'
  change text = e.text at htext
  subst htext
  exact ⟨(congrArg BitVec.toNat houtput).trans h.output, h.cells, hshift, hcolor, h.even,
    h.erased⟩

/-- Every key takes the machine and the editor along. -/
theorem holds_new09 (h : Holds m e) (hfits : e.text.length ≤ 1999) (code : Byte) :
    Holds (new09 code m) (e.press (keyOf code)) := by
  rw [new09_eq]
  cases keyOf code with
  | shiftDown => exact h.setVars rfl rfl (by simp [Editor.press]) h.color
  | shiftUp => exact h.setVars rfl rfl (by simp [Editor.press]) h.color
  | ctrl =>
      have hcolor : kbCtrl m.vars.keyboardColor = nextBackground e.color := by
        rw [kbCtrl_eq, h.color]
      exact h.setVars rfl rfl h.shift hcolor
  | alt =>
      have hcolor : kbAlt m.vars.keyboardColor = nextForeground e.color := by
        rw [kbAlt_eq, h.color]
      exact h.setVars rfl rfl h.shift hcolor
  | backspace => exact (shows_backspace h hfits).toHolds
  | escape => exact h.setVars rfl rfl h.shift h.color
  | typed char => exact (shows_typeChar h hfits).toHolds
  | other => exact h

theorem shows_new09 (h : Holds m e) (hfits : e.text.length ≤ 1999)
    (hedits : (keyOf code).Edits) : Shows (new09 code m) (e.press (keyOf code)) := by
  rw [new09_eq]
  cases hkey : keyOf code with
  | backspace => exact shows_backspace h hfits
  | typed char => exact shows_typeChar h hfits
  | shiftDown | shiftUp | ctrl | alt | escape | other =>
      rw [hkey] at hedits
      exact absurd hedits id

theorem holds_start (regs : Registers) (video : Nat → Byte) :
    Holds (Machine.start regs video) (Editor.start video) where
  output := by simp [Machine.start, Editor.start, Variables.initial]
  cells := by
    intro i hi
    simp [Machine.cell, Machine.start, Editor.start]
  shift := by simp [Machine.start, Editor.start, Variables.initial]
  color := rfl
  even := by
    intro o ho
    exact absurd ho (by simp [Machine.start])
  erased := by
    intro o ho
    exact absurd ho (by simp [Machine.start])

/-! ### Runs -/

theorem handleAll_snoc (codes : List Scancode) (code : Scancode) :
    m.handleAll (codes ++ [code]) = new09 code.1 (m.handleAll codes) := by
  rw [Machine.handleAll, List.foldl_append]
  rfl

theorem pressAll_snoc (codes : List Scancode) (code : Scancode) :
    e.pressAll (codes ++ [code]) = (e.pressAll codes).press code.key := by
  rw [Editor.pressAll, List.foldl_append]
  rfl

theorem holds_handleAll {codes : List Scancode} (h : Holds m e)
    (hfits : ∀ k < codes.length,
      (m.handleAll (codes.take k)).vars.keyboardOutput.toNat ≤ 3998) :
    Holds (m.handleAll codes) (e.pressAll codes) := by
  induction codes generalizing m e with
  | nil => exact h
  | cons code codes ih =>
      have hnow := hfits 0 (by simp)
      have hlength : e.text.length ≤ 1999 := by
        have houtput := h.output
        change m.vars.keyboardOutput.toNat ≤ 3998 at hnow
        omega
      apply ih (holds_new09 h hlength code.1)
      intro k hk
      exact hfits (k + 1) (by simpa using hk)

/-- After a printable key or a backspace the screen shows the text of the
editor. -/
theorem editor_on_screen (regs : Registers) (video : Nat → Byte) (codes : List Scancode)
    (code : Scancode)
    (hfits : ∀ k ≤ codes.length + 1,
      ((Machine.start regs video).handleAll
        ((codes ++ [code]).take k)).vars.keyboardOutput.toNat ≤ 3998)
    (hedits : code.key.Edits) :
    Shows ((Machine.start regs video).handleAll (codes ++ [code]))
      ((Editor.start video).pressAll (codes ++ [code])) := by
  have hbefore : Holds ((Machine.start regs video).handleAll codes)
      ((Editor.start video).pressAll codes) := by
    apply holds_handleAll (holds_start regs video)
    intro k hk
    have h := hfits k (by omega)
    rwa [List.take_append_of_le_length (by omega)] at h
  have hlength : ((Editor.start video).pressAll codes).text.length ≤ 1999 := by
    have houtput := hbefore.output
    have h := hfits codes.length (by omega)
    rw [List.take_left] at h
    omega
  rw [handleAll_snoc, pressAll_snoc]
  exact shows_new09 hbefore hlength hedits

/-- An `A`, shift, an `A` and a backspace. -/
theorem editor_on_screen_sample :
    Shows
      ((Machine.start ⟨0, 0, 0, 0, 0, 0, 0⟩ fun _ => 0).handleAll
        [⟨0x1E, by decide⟩, ⟨0x2A, by decide⟩, ⟨0x1E, by decide⟩, ⟨0x0E, by decide⟩])
      ((Editor.start fun _ => 0).pressAll
        [⟨0x1E, by decide⟩, ⟨0x2A, by decide⟩, ⟨0x1E, by decide⟩, ⟨0x0E, by decide⟩]) :=
  editor_on_screen ⟨0, 0, 0, 0, 0, 0, 0⟩ (fun _ => 0)
    [⟨0x1E, by decide⟩, ⟨0x2A, by decide⟩, ⟨0x1E, by decide⟩] ⟨0x0E, by decide⟩
    (by decide +kernel) (by decide)

end

end ProtectedMode
end OsStuff
