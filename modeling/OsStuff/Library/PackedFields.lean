import Mathlib.Data.Nat.Bitwise
import Mathlib.Tactic.IntervalCases

/-!
# Four counters in a byte

A byte holds four fields of two bits; field `slot` consists of the bits
`2 * slot` and `2 * slot + 1`.  `put` overwrites a field, `bump` and `dip`
add and subtract one in place.  Overwriting never touches the other fields;
adding does not as long as the field does not overflow, and subtracting as long
as it is not zero.  In the highest field carry and borrow fall off the byte.
-/

namespace OsStuff
namespace Library
namespace PackedFields

/-- The value of a field. -/
def get (byte slot : Nat) : Nat := (byte >>> (slot * 2)) &&& 3

/-- Overwrite a field. -/
def put (byte slot value : Nat) : Nat :=
  (byte &&& (255 ^^^ (3 <<< (slot * 2)))) ||| (value <<< (slot * 2))

/-- Add one to a field, on bytes. -/
def bump (byte slot : Nat) : Nat := (byte + (1 <<< (slot * 2))) % 2 ^ 8

/-- Subtract one from a field, on bytes. -/
def dip (byte slot : Nat) : Nat := (byte + 2 ^ 8 - (1 <<< (slot * 2))) % 2 ^ 8

variable {byte slot other value : Nat}

theorem get_eq (byte slot : Nat) : get byte slot = byte / 4 ^ slot % 4 := by
  unfold get
  rw [Nat.shiftRight_eq_div_pow, Nat.mul_comm, Nat.pow_mul]
  exact Nat.and_two_pow_sub_one_eq_mod _ 2

theorem get_lt (byte slot : Nat) : get byte slot < 4 := by
  rw [get_eq]
  exact Nat.mod_lt _ (by omega)

/-- A byte is determined by its four fields. -/
theorem eq_of_get {byte' : Nat} (hbyte : byte < 2 ^ 8) (hbyte' : byte' < 2 ^ 8)
    (h : ∀ slot < 4, get byte slot = get byte' slot) : byte = byte' := by
  have h0 := h 0 (by omega)
  have h1 := h 1 (by omega)
  have h2 := h 2 (by omega)
  have h3 := h 3 (by omega)
  simp only [get_eq] at h0 h1 h2 h3
  omega

/-! ## Overwriting -/

/-- There are few enough bytes to look at all of them. -/
theorem put_spec : ∀ byte < 256, ∀ slot < 4, ∀ value < 4,
    put byte slot value < 256 ∧ ∀ other < 4,
      get (put byte slot value) other =
        if other = slot then value else get byte other := by
  decide +kernel

theorem put_lt (hbyte : byte < 2 ^ 8) (hslot : slot < 4) (hvalue : value < 4) :
    put byte slot value < 2 ^ 8 :=
  (put_spec byte hbyte slot hslot value hvalue).1

theorem get_put (hbyte : byte < 2 ^ 8) (hslot : slot < 4) (hvalue : value < 4)
    (hother : other < 4) :
    get (put byte slot value) other =
      if other = slot then value else get byte other :=
  (put_spec byte hbyte slot hslot value hvalue).2 other hother

/-- Overwriting a field with its own value does nothing. -/
theorem put_get (hbyte : byte < 2 ^ 8) (hslot : slot < 4) :
    put byte slot (get byte slot) = byte := by
  have hvalue := get_lt byte slot
  refine eq_of_get (put_lt hbyte hslot hvalue) hbyte fun other hother => ?_
  rw [get_put hbyte hslot hvalue hother]
  split
  · rename_i heq
    rw [heq]
  · rfl

/-! ## Counting in place -/

theorem bump_lt (byte slot : Nat) : bump byte slot < 2 ^ 8 :=
  Nat.mod_lt _ (by omega)

theorem dip_lt (byte slot : Nat) : dip byte slot < 2 ^ 8 :=
  Nat.mod_lt _ (by omega)

/-- Adding one to a field that is not full changes this field only. -/
theorem get_bump (hbyte : byte < 2 ^ 8) (hslot : slot < 4) (hother : other < 4)
    (hroom : get byte slot < 3) :
    get (bump byte slot) other =
      if other = slot then get byte slot + 1 else get byte other := by
  simp only [get_eq] at *
  unfold bump
  interval_cases slot <;> interval_cases other <;> simp <;> omega

/-- Subtracting one from a field that is not zero changes this field only. -/
theorem get_dip (hbyte : byte < 2 ^ 8) (hslot : slot < 4) (hother : other < 4)
    (hpos : 0 < get byte slot) :
    get (dip byte slot) other =
      if other = slot then get byte slot - 1 else get byte other := by
  simp only [get_eq] at *
  unfold dip
  interval_cases slot <;> interval_cases other <;> simp <;> omega

/-- The highest field can be counted up and down freely. -/
theorem get_bump_high (hother : other < 3) :
    get (bump byte 3) other = get byte other := by
  simp only [get_eq]
  unfold bump
  interval_cases other <;> simp <;> omega

theorem get_dip_high (hother : other < 3) :
    get (dip byte 3) other = get byte other := by
  simp only [get_eq]
  unfold dip
  interval_cases other <;> simp <;> omega

end PackedFields
end Library
end OsStuff
