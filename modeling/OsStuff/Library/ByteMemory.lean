import Mathlib.Tactic

/-!
# Little-endian words in a byte memory

A memory is a total function from addresses to bytes.  `loadBytes` and
`storeBytes` read and write a number as consecutive bytes, lowest byte first;
`loadWord` and `storeWord` are their 8-byte instances, which is how a 64-bit
machine keeps pointers and sizes.

The rules below are the ones a proof about linked data needs: a word reads
back as it was stored, a store is invisible at every disjoint address, and the
bytes outside the stored range are untouched.
-/

namespace OsStuff
namespace Library
namespace ByteMemory

/-- A byte memory, addressed by natural numbers. -/
abbrev Memory := Nat → UInt8

/-- Read `count` bytes from `address` as a little-endian number. -/
def loadBytes (memory : Memory) : Nat → Nat → Nat
  | _, 0 => 0
  | address, count + 1 =>
      (memory address).toNat + 256 * loadBytes memory (address + 1) count

/-- Write `value` as `count` little-endian bytes at `address`. -/
def storeBytes (memory : Memory) (address count value : Nat) : Memory :=
  fun x =>
    if address ≤ x ∧ x < address + count then
      UInt8.ofNat (value / 256 ^ (x - address))
    else
      memory x

/-- Read the 64-bit word at `address`. -/
@[irreducible] def loadWord (memory : Memory) (address : Nat) : Nat :=
  loadBytes memory address 8

/-- Write the 64-bit word at `address`. -/
@[irreducible] def storeWord (memory : Memory) (address value : Nat) : Memory :=
  storeBytes memory address 8 value

/-- A read depends only on the bytes of its own range. -/
theorem loadBytes_congr {memory memory' : Memory} {address count : Nat}
    (hbytes : ∀ x, address ≤ x → x < address + count →
      memory' x = memory x) :
    loadBytes memory' address count = loadBytes memory address count := by
  induction count generalizing address with
  | zero => rfl
  | succ count ih =>
      have hhead : memory' address = memory address :=
        hbytes address (by omega) (by omega)
      have htail : loadBytes memory' (address + 1) count =
          loadBytes memory (address + 1) count :=
        ih fun x hlow hhigh => hbytes x (by omega) (by omega)
      simp only [loadBytes, hhead, htail]

theorem storeBytes_outside {memory : Memory} {address count value x : Nat}
    (hx : x < address ∨ address + count ≤ x) :
    storeBytes memory address count value x = memory x := by
  unfold storeBytes
  rw [if_neg (by omega)]

/-- The bytes behind the first one of a stored number are those of its
quotient by `256`. -/
theorem storeBytes_succ_tail {memory : Memory} {address count value x : Nat}
    (hlow : address + 1 ≤ x) (hhigh : x < address + 1 + count) :
    storeBytes memory address (count + 1) value x =
      storeBytes memory (address + 1) count (value / 256) x := by
  unfold storeBytes
  rw [if_pos (by omega), if_pos (by omega), Nat.div_div_eq_div_mul,
    show x - address = (x - (address + 1)) + 1 by omega, Nat.pow_succ,
    Nat.mul_comm]

/-- Storing a number and reading it back returns its low `count` bytes. -/
theorem loadBytes_storeBytes_same (memory : Memory)
    (address count value : Nat) :
    loadBytes (storeBytes memory address count value) address count =
      value % 256 ^ count := by
  induction count generalizing address value with
  | zero => simp [loadBytes, Nat.mod_one]
  | succ count ih =>
      have htail :
          loadBytes (storeBytes memory address (count + 1) value)
              (address + 1) count =
            value / 256 % 256 ^ count := by
        rw [← ih (address + 1) (value / 256)]
        exact loadBytes_congr fun x hlow hhigh =>
          storeBytes_succ_tail hlow hhigh
      have hhead : storeBytes memory address (count + 1) value address =
          UInt8.ofNat value := by
        unfold storeBytes
        rw [if_pos (by omega)]
        simp
      simp only [loadBytes, htail, hhead, UInt8.toNat_ofNat']
      have hpow : 256 ^ (count + 1) = 256 * 256 ^ count := by
        rw [Nat.pow_succ, Nat.mul_comm]
      rw [hpow, Nat.mod_mul]

theorem loadWord_storeWord_same {memory : Memory} {address value : Nat}
    (hvalue : value < 2 ^ 64) :
    loadWord (storeWord memory address value) address = value := by
  unfold loadWord storeWord
  rw [loadBytes_storeBytes_same]
  exact Nat.mod_eq_of_lt (by omega)

theorem loadWord_storeWord_apart {memory : Memory}
    {address address' value : Nat}
    (hapart : address + 8 ≤ address' ∨ address' + 8 ≤ address) :
    loadWord (storeWord memory address value) address' =
      loadWord memory address' := by
  unfold loadWord storeWord
  exact loadBytes_congr fun x hlow hhigh =>
    storeBytes_outside (by omega)

theorem storeWord_outside {memory : Memory} {address value x : Nat}
    (hx : x < address ∨ address + 8 ≤ x) :
    storeWord memory address value x = memory x := by
  unfold storeWord
  exact storeBytes_outside hx

theorem loadWord_congr {memory memory' : Memory} {address : Nat}
    (hbytes : ∀ x, address ≤ x → x < address + 8 → memory' x = memory x) :
    loadWord memory' address = loadWord memory address := by
  unfold loadWord
  exact loadBytes_congr hbytes

end ByteMemory
end Library
end OsStuff
