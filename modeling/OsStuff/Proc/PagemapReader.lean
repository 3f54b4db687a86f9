import OsStuff.Proc.PagemapRows

/-!
# A reader for the rows of the memory map

A row is read byte by byte: blanks, a number, dashes, a number.  The tokenisers
and `strtoul` find the same range in it.
-/

namespace OsStuff
namespace Proc

/-- What has been read of a number in base 16. -/
inductive Number
  | blank
  | signed
  | zero
  | prefixed
  | digits (value : Nat)
  | ended (value : Nat)
  deriving DecidableEq, Repr

namespace Number

def digit (value : Nat) (byte : Byte) : Number :=
  match hexDigit byte with
  | none => .ended value
  | some digit => .digits (16 * value + digit)

/-- A number may have blanks, a plus and `0x` in front of its digits; it ends before
the first byte that is no digit. -/
def next : Number → Byte → Number
  | .blank, byte =>
      if isSpace byte then .blank
      else if byte = 0x2b then .signed
      else if byte = 0x30 then .zero
      else digit 0 byte
  | .signed, byte => if byte = 0x30 then .zero else digit 0 byte
  | .zero, byte => if byte = 0x78 ∨ byte = 0x58 then .prefixed else digit 0 byte
  | .prefixed, byte => digit 0 byte
  | .digits value, byte => digit value byte
  | .ended value, _ => .ended value

/-- A number that needs more than 64 bits counts as the largest one. -/
def value : Number → Nat
  | .digits value => min value (2 ^ 64 - 1)
  | .ended value => min value (2 ^ 64 - 1)
  | _ => 0

end Number

/-- What has been read of a row. -/
inductive Reading
  | spaces
  | dashes
  | first (start : Number)
  | between (start : Number)
  | second (start stop : Number)
  | done (start stop : Number)
  | failed
  deriving DecidableEq, Repr

namespace Reading

def next : Reading → Byte → Reading
  | .spaces, byte =>
      if byte = space then .spaces
      else if byte = dash then .dashes
      else .first (Number.blank.next byte)
  | .dashes, byte =>
      if byte = space then .failed
      else if byte = dash then .dashes
      else .first (Number.blank.next byte)
  | .first start, byte =>
      if byte = space then .failed
      else if byte = dash then .between start
      else .first (start.next byte)
  | .between start, byte =>
      if byte = space then .failed
      else if byte = dash then .between start
      else .second start (Number.blank.next byte)
  | .second start stop, byte =>
      if byte = space ∨ byte = dash then .done start stop
      else .second start (stop.next byte)
  | .done start stop, _ => .done start stop
  | .failed, _ => .failed

def range : Reading → Option (Nat × Nat)
  | .second start stop => some (start.value, stop.value)
  | .done start stop => some (start.value, stop.value)
  | _ => none

end Reading

/-- The range that a row begins with. -/
def readRow (row : List Byte) : Option (Nat × Nat) :=
  (row.foldl Reading.next .spaces).range

variable {bytes token str rest row : List Byte}

/-! ### Numbers -/

theorem foldl_ended (value : Nat) :
    bytes.foldl Number.next (.ended value) = .ended value :=
  List.foldl_fixed' (fun _ => rfl) bytes

theorem value_digits (value : Nat) :
    (bytes.foldl Number.next (.digits value)).value =
      min (hexValue value bytes) (2 ^ 64 - 1) := by
  induction bytes generalizing value with
  | nil => rfl
  | cons byte bytes ih =>
      rw [List.foldl_cons, Number.next, Number.digit, hexValue]
      cases hexDigit byte with
      | none =>
          rw [foldl_ended]
          rfl
      | some digit => exact ih _

/-- The first digit, or what is none. -/
theorem value_digit (byte : Byte) :
    (bytes.foldl Number.next (Number.digit 0 byte)).value =
      min (hexValue 0 (byte :: bytes)) (2 ^ 64 - 1) := by
  rw [← value_digits, List.foldl_cons]
  rfl

theorem value_prefixed :
    (bytes.foldl Number.next .prefixed).value = min (hexValue 0 bytes) (2 ^ 64 - 1) := by
  cases bytes with
  | nil => rfl
  | cons byte bytes => exact value_digit byte

theorem hexValue_zero : hexValue 0 (0x30 :: bytes) = hexValue 0 bytes := rfl

theorem value_zero :
    (bytes.foldl Number.next .zero).value =
      min (hexValue 0 (skipPrefix (0x30 :: bytes))) (2 ^ 64 - 1) := by
  cases bytes with
  | nil => rfl
  | cons byte bytes =>
      rw [List.foldl_cons, Number.next, skipPrefix]
      by_cases hx : byte = 0x78 ∨ byte = 0x58
      · rw [if_pos hx, if_pos ⟨rfl, hx⟩, value_prefixed]
      · rw [if_neg hx, if_neg fun h => hx h.2, value_digit, hexValue_zero]

theorem skipPrefix_cons {byte : Byte} (hzero : byte ≠ 0x30) :
    skipPrefix (byte :: bytes) = byte :: bytes := by
  cases bytes with
  | nil => rfl
  | cons x bytes => rw [skipPrefix, if_neg fun h => hzero h.1]

theorem value_signed :
    (bytes.foldl Number.next .signed).value =
      min (hexValue 0 (skipPrefix bytes)) (2 ^ 64 - 1) := by
  cases bytes with
  | nil => rfl
  | cons byte bytes =>
      rw [List.foldl_cons, Number.next]
      by_cases hzero : byte = 0x30
      · rw [if_pos hzero, value_zero, hzero]
      · rw [if_neg hzero, value_digit, skipPrefix_cons hzero]

theorem strtoul_of_sign {negative : Bool}
    (hsign : skipSign (str.dropWhile isSpace) = (negative, bytes))
    (hplus : negative = false) :
    strtoul str = min (hexValue 0 (skipPrefix bytes)) (2 ^ 64 - 1) := by
  subst hplus
  unfold strtoul
  rw [hsign]
  simp only [Bool.false_eq_true, if_false]
  split_ifs with hlarge
  · omega
  · omega

/-- A token holds no dash, so no number is negative. -/
theorem strtoul_eq (hdash : dash ∉ token) :
    strtoul token = (token.foldl Number.next .blank).value := by
  induction token with
  | nil => rfl
  | cons byte token ih =>
      have hrest : dash ∉ token := fun hmem => hdash (List.mem_cons_of_mem _ hmem)
      have hminus : byte ≠ 0x2d := fun hbyte => hdash (hbyte ▸ List.mem_cons_self)
      rw [List.foldl_cons, Number.next]
      by_cases hspace : isSpace byte
      · rw [if_pos hspace, ← ih hrest, strtoul, strtoul, List.dropWhile_cons_of_pos hspace]
      · have hdrop : (byte :: token).dropWhile isSpace = byte :: token :=
          List.dropWhile_cons_of_neg hspace
        rw [if_neg hspace]
        by_cases hplus : byte = 0x2b
        · have hsign : skipSign ((byte :: token).dropWhile isSpace) = (false, token) := by
            rw [hdrop, skipSign, if_neg hminus, if_pos hplus]
          rw [if_pos hplus, strtoul_of_sign hsign rfl, value_signed]
        · have hsign : skipSign ((byte :: token).dropWhile isSpace) =
              (false, byte :: token) := by
            rw [hdrop, skipSign, if_neg hminus, if_neg hplus]
          rw [if_neg hplus, strtoul_of_sign hsign rfl, ← value_signed, List.foldl_cons,
            Number.next]

/-! ### Rows -/

/-- Bytes that change nothing. -/
theorem foldl_stays {reading : Reading}
    (hstays : ∀ byte ∈ bytes, reading.next byte = reading) :
    bytes.foldl Reading.next reading = reading := by
  induction bytes with
  | nil => rfl
  | cons byte bytes ih =>
      rw [List.foldl_cons, hstays byte List.mem_cons_self]
      exact ih fun byte hmem => hstays byte (List.mem_cons_of_mem _ hmem)

theorem foldl_spaces (hall : ∀ byte ∈ bytes, byte = space) :
    bytes.foldl Reading.next .spaces = .spaces :=
  foldl_stays fun byte hmem => by rw [hall byte hmem, Reading.next, if_pos rfl]

theorem foldl_dashes (hall : ∀ byte ∈ bytes, byte = dash) :
    bytes.foldl Reading.next .dashes = .dashes := by
  have hdash : Reading.dashes.next dash = .dashes := rfl
  exact foldl_stays fun byte hmem => by rw [hall byte hmem, hdash]

theorem foldl_between (start : Number) (hall : ∀ byte ∈ bytes, byte = dash) :
    bytes.foldl Reading.next (.between start) = .between start := by
  have hdash : (Reading.between start).next dash = .between start := rfl
  exact foldl_stays fun byte hmem => by rw [hall byte hmem, hdash]

theorem foldl_done (start stop : Number) :
    bytes.foldl Reading.next (.done start stop) = .done start stop :=
  foldl_stays fun _ _ => rfl

theorem foldl_failed : bytes.foldl Reading.next .failed = .failed :=
  foldl_stays fun _ _ => rfl

theorem foldl_first (start : Number) (hspace : space ∉ token) (hdash : dash ∉ token) :
    token.foldl Reading.next (.first start) = .first (token.foldl Number.next start) := by
  induction token generalizing start with
  | nil => rfl
  | cons byte token ih =>
      rw [List.mem_cons, not_or] at hspace hdash
      rw [List.foldl_cons, List.foldl_cons, Reading.next, if_neg (Ne.symm hspace.1),
        if_neg (Ne.symm hdash.1), ih _ hspace.2 hdash.2]

theorem foldl_second (start stop : Number) (hspace : space ∉ token) (hdash : dash ∉ token) :
    token.foldl Reading.next (.second start stop) =
      .second start (token.foldl Number.next stop) := by
  induction token generalizing stop with
  | nil => rfl
  | cons byte token ih =>
      rw [List.mem_cons, not_or] at hspace hdash
      have hother : ¬ (byte = space ∨ byte = dash) :=
        not_or.mpr ⟨Ne.symm hspace.1, Ne.symm hdash.1⟩
      rw [List.foldl_cons, List.foldl_cons, Reading.next, if_neg hother,
        ih _ hspace.2 hdash.2]

/-- The first number. -/
theorem foldl_dashes_token (hne : token ≠ []) (hspace : space ∉ token)
    (hdash : dash ∉ token) :
    token.foldl Reading.next .dashes = .first (token.foldl Number.next .blank) := by
  cases token with
  | nil => exact absurd rfl hne
  | cons byte token =>
      rw [List.mem_cons, not_or] at hspace hdash
      rw [List.foldl_cons, List.foldl_cons, Reading.next, if_neg (Ne.symm hspace.1),
        if_neg (Ne.symm hdash.1), foldl_first _ hspace.2 hdash.2]

/-- The second number. -/
theorem foldl_between_token (start : Number) (hne : token ≠ []) (hspace : space ∉ token)
    (hdash : dash ∉ token) :
    token.foldl Reading.next (.between start) =
      .second start (token.foldl Number.next .blank) := by
  cases token with
  | nil => exact absurd rfl hne
  | cons byte token =>
      rw [List.mem_cons, not_or] at hspace hdash
      rw [List.foldl_cons, List.foldl_cons, Reading.next, if_neg (Ne.symm hspace.1),
        if_neg (Ne.symm hdash.1), foldl_second _ _ hspace.2 hdash.2]

theorem Reading.next_ne_spaces {reading : Reading} (hstarted : reading ≠ .spaces)
    (byte : Byte) : reading.next byte ≠ .spaces := by
  fun_cases Reading.next reading byte <;> simp_all

theorem foldl_ne_spaces {reading : Reading} (hstarted : reading ≠ .spaces) :
    bytes.foldl Reading.next reading ≠ .spaces := by
  induction bytes generalizing reading with
  | nil => exact hstarted
  | cons byte bytes ih => exact ih (Reading.next_ne_spaces hstarted byte)

/-- The blanks in front of a row do not count, and nothing behind the next one. -/
theorem readRow_of_strtokR (hsome : strtokR row space = some (token, rest)) :
    readRow row = (token.foldl Reading.next .dashes).range := by
  obtain ⟨front, behind, rfl, hfront, hne, hspace, hend⟩ := strtokR_split hsome
  have htoken : token.foldl Reading.next .spaces = token.foldl Reading.next .dashes := by
    cases token with
    | nil => exact absurd rfl hne
    | cons byte token =>
        rw [List.mem_cons, not_or] at hspace
        rw [List.foldl_cons, List.foldl_cons, Reading.next, Reading.next,
          if_neg (Ne.symm hspace.1), if_neg (Ne.symm hspace.1)]
  have hblank : ∀ reading : Reading, reading ≠ .spaces →
      ((space :: rest).foldl Reading.next reading).range = reading.range := by
    intro reading hreading
    have hfailed : (rest.foldl Reading.next .failed).range = none := by
      rw [foldl_failed]
      rfl
    have hdone : ∀ start stop : Number,
        (rest.foldl Reading.next (.done start stop)).range =
          some (start.value, stop.value) := by
      intro start stop
      rw [foldl_done]
      rfl
    cases reading with
    | spaces => exact absurd rfl hreading
    | dashes => exact hfailed
    | first start => exact hfailed
    | between start => exact hfailed
    | second start stop => exact hdone start stop
    | done start stop => exact hdone start stop
    | failed => exact hfailed
  have hstarted : token.foldl Reading.next .dashes ≠ .spaces := foldl_ne_spaces (by simp)
  rw [readRow, List.foldl_append, List.foldl_append, foldl_spaces hfront, htoken]
  rcases hend with ⟨rfl, -⟩ | rfl
  · rfl
  · exact hblank _ hstarted

theorem rowRange_of_tokens {addresses saved startStr behind : List Byte}
    (hrow : strtokR row space = some (addresses, saved))
    (hstart : strtokR addresses dash = some (startStr, behind)) :
    rowRange row =
      (strtokR behind dash).map fun found => (strtoul startStr, strtoul found.1) := by
  cases hstop : strtokR behind dash with
  | none => simp [rowRange, strtok, hrow, hstart, hstop]
  | some found => simp [rowRange, strtok, hrow, hstart, hstop]

/-- The tokenisers and `strtoul` read what the reader reads. -/
theorem rowRange_eq_readRow (row : List Byte) : rowRange row = readRow row := by
  cases hrow : strtokR row space with
  | none =>
      rw [readRow, foldl_spaces (strtokR_none hrow)]
      simp [rowRange, strtok, hrow, strtokR_nil, Reading.range]
  | some found =>
      obtain ⟨addresses, saved⟩ := found
      obtain ⟨-, -, -, -, -, hspace, -⟩ := strtokR_split hrow
      rw [readRow_of_strtokR hrow]
      cases hstart : strtokR addresses dash with
      | none =>
          rw [foldl_dashes (strtokR_none hstart)]
          simp [rowRange, strtok, hrow, hstart, Reading.range]
      | some found =>
          obtain ⟨startStr, behindStart⟩ := found
          rw [rowRange_of_tokens hrow hstart]
          obtain ⟨front, behind, rfl, hfront, hne, hdash, hend⟩ := strtokR_split hstart
          simp only [List.mem_append, not_or] at hspace
          have hfirst : (front ++ startStr).foldl Reading.next .dashes =
              .first (startStr.foldl Number.next .blank) := by
            rw [List.foldl_append, foldl_dashes hfront,
              foldl_dashes_token hne hspace.1.2 hdash]
          rw [List.foldl_append, hfirst]
          cases hstop : strtokR behindStart dash with
          | none =>
              rcases hend with ⟨rfl, -⟩ | rfl
              · rfl
              · have hall := foldl_between (startStr.foldl Number.next .blank)
                  (strtokR_none hstop)
                exact (congrArg Reading.range hall).symm
          | some found =>
              obtain ⟨endStr, behindEnd⟩ := found
              rw [Option.map_some]
              rcases hend with ⟨-, rfl⟩ | rfl
              · exact absurd hstop (by simp [strtokR_nil])
              · obtain ⟨front', behind', rfl, hfront', hne', hdash', hend'⟩ :=
                  strtokR_split hstop
                simp only [List.mem_cons, List.mem_append, not_or] at hspace
                have hdashes : (dash :: (front' ++ endStr ++ behind')).foldl Reading.next
                    (.first (startStr.foldl Number.next .blank)) =
                    behind'.foldl Reading.next
                      (.second (startStr.foldl Number.next .blank)
                        (endStr.foldl Number.next .blank)) := by
                  rw [List.foldl_cons, List.foldl_append, List.foldl_append]
                  have hbetween := foldl_between (startStr.foldl Number.next .blank) hfront'
                  change behind'.foldl Reading.next (endStr.foldl Reading.next
                    (front'.foldl Reading.next (.between _))) = _
                  rw [hbetween, foldl_between_token _ hne' hspace.2.2.1.2 hdash']
                rw [hdashes, strtoul_eq hdash, strtoul_eq hdash']
                rcases hend' with ⟨rfl, -⟩ | rfl
                · rfl
                · exact (congrArg Reading.range (foldl_done _ _)).symm

end Proc
end OsStuff
