import Mathlib.Logic.Function.Basic
import Mathlib.Tactic

/-!
# Sets of counting semaphores

A set of semaphores has a value for every index.  `semop` performs a list of
operations on it: either all of them take effect in order, or one of them is
not possible, the caller has to wait, and none takes effect.
-/

namespace OsStuff
namespace Library
namespace Semaphores

variable {ι : Type*} [DecidableEq ι]

/-- One operation: the semaphore and the amount by which it changes, where zero
asks for the value to be zero. -/
structure Sembuf (ι : Type*) where
  num : ι
  op : Int

/-- The values after one operation, or `none` when the caller has to wait. -/
def semopOne (values : ι → Nat) (buf : Sembuf ι) : Option (ι → Nat) :=
  if 0 < buf.op then
    some (Function.update values buf.num (values buf.num + buf.op.natAbs))
  else if buf.op = 0 then
    if values buf.num = 0 then some values else none
  else if buf.op.natAbs ≤ values buf.num then
    some (Function.update values buf.num (values buf.num - buf.op.natAbs))
  else
    none

/-- The values after a list of operations, or `none` when the caller has to
wait. -/
def semop (values : ι → Nat) : List (Sembuf ι) → Option (ι → Nat)
  | [] => some values
  | buf :: bufs => (semopOne values buf).bind fun values' => semop values' bufs

@[simp] theorem semop_nil (values : ι → Nat) : semop values [] = some values :=
  rfl

@[simp] theorem semop_cons (values : ι → Nat) (buf : Sembuf ι)
    (bufs : List (Sembuf ι)) :
    semop values (buf :: bufs) =
      (semopOne values buf).bind fun values' => semop values' bufs := rfl

/-- Counting up never waits. -/
@[simp] theorem semopOne_up (values : ι → Nat) (num : ι) :
    semopOne values ⟨num, 1⟩ =
      some (Function.update values num (values num + 1)) := by
  simp [semopOne]

/-- Waiting for zero changes nothing. -/
@[simp] theorem semopOne_zero (values : ι → Nat) (num : ι) :
    semopOne values ⟨num, 0⟩ =
      if values num = 0 then some values else none := by
  simp [semopOne]

/-- Counting down waits for the value to be positive. -/
@[simp] theorem semopOne_down (values : ι → Nat) (num : ι) :
    semopOne values ⟨num, -1⟩ =
      if 1 ≤ values num then
        some (Function.update values num (values num - 1))
      else none := by
  simp [semopOne]

end Semaphores
end Library
end OsStuff
