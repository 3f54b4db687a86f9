import Mathlib.Tactic

/-!
# Resources that are handed out and taken back

Every resource has a kind and a number of its own.  Taking back what is not out
is counted and changes nothing else.  `Holds` says that a list of resources is
exactly what is out; its rules follow a piece of code from call to call, with
the resources of everybody else as a frame.
-/

namespace OsStuff
namespace Library

structure Ledger (κ : Type*) where
  live : List (Nat × κ)
  next : Nat
  invalid : Nat
  deriving DecidableEq, Repr

variable {κ : Type*}

/-- Nothing has been handed out. -/
def Ledger.empty : Ledger κ := ⟨[], 0, 0⟩

def Ledger.alloc (ledger : Ledger κ) (kind : κ) : Ledger κ × (Nat × κ) :=
  ({ ledger with
      live := (ledger.next, kind) :: ledger.live, next := ledger.next + 1 },
    (ledger.next, kind))

def Ledger.free [DecidableEq κ] (ledger : Ledger κ) (resource : Nat × κ) :
    Ledger κ :=
  if resource ∈ ledger.live then
    { ledger with live := ledger.live.erase resource }
  else { ledger with invalid := ledger.invalid + 1 }

/-- So many times something was taken back that was not out, and `owned` is what
is out. -/
structure Ledger.Holds (ledger : Ledger κ) (invalid : Nat)
    (owned : List (Nat × κ)) : Prop where
  invalid : ledger.invalid = invalid
  live : ledger.live.Perm owned
  fresh : ∀ resource ∈ owned, resource.1 < ledger.next
  distinct : (owned.map Prod.fst).Nodup

namespace Ledger.Holds

variable {ledger : Ledger κ} {invalid : Nat} {owned owned' : List (Nat × κ)}
  {resource : Nat × κ}

theorem empty : Holds (Ledger.empty : Ledger κ) 0 [] :=
  ⟨rfl, List.Perm.refl [], by simp, List.nodup_nil⟩

/-- The order does not matter. -/
theorem perm (hholds : ledger.Holds invalid owned) (hperm : owned.Perm owned') :
    ledger.Holds invalid owned' where
  invalid := hholds.invalid
  live := hholds.live.trans hperm
  fresh r hr := hholds.fresh r (hperm.mem_iff.mpr hr)
  distinct := (hperm.map Prod.fst).nodup_iff.mp hholds.distinct

theorem alloc (hholds : ledger.Holds invalid owned) (kind : κ) :
    (ledger.alloc kind).1.Holds invalid ((ledger.alloc kind).2 :: owned) := by
  constructor
  · exact hholds.invalid
  · exact hholds.live.cons _
  · intro r hr
    rcases List.mem_cons.mp hr with rfl | hr
    · exact Nat.lt_succ_self ledger.next
    · exact Nat.lt_succ_of_lt (hholds.fresh r hr)
  · rw [List.map_cons, List.nodup_cons]
    refine ⟨?_, hholds.distinct⟩
    -- a number that is out is below the next one
    intro hmem
    obtain ⟨r, hr, hnumber⟩ := List.mem_map.mp hmem
    have hlt := hholds.fresh r hr
    have hnext : r.1 = ledger.next := hnumber
    omega

theorem free [DecidableEq κ] (hholds : ledger.Holds invalid (resource :: owned)) :
    (ledger.free resource).Holds invalid owned := by
  have hmem : resource ∈ ledger.live :=
    hholds.live.mem_iff.mpr List.mem_cons_self
  have herase := hholds.live.erase resource
  rw [List.erase_cons_head] at herase
  unfold Ledger.free
  rw [if_pos hmem]
  have hdistinct := hholds.distinct
  rw [List.map_cons, List.nodup_cons] at hdistinct
  exact ⟨hholds.invalid, herase,
    fun r hr => hholds.fresh r (List.mem_cons_of_mem resource hr), hdistinct.2⟩

/-- Taking back twice is counted. -/
theorem free_twice [DecidableEq κ] (hholds : ledger.Holds invalid (resource :: owned)) :
    ((ledger.free resource).free resource).Holds (invalid + 1) owned := by
  have hfreed := hholds.free
  have hdistinct := hholds.distinct
  rw [List.map_cons, List.nodup_cons] at hdistinct
  have hnot : resource ∉ (ledger.free resource).live := by
    intro hmem
    exact hdistinct.1 (List.mem_map_of_mem (hfreed.live.mem_iff.mp hmem))
  rw [Ledger.free, if_neg hnot]
  exact ⟨congrArg (· + 1) hfreed.invalid, hfreed.live, hfreed.fresh, hfreed.distinct⟩

end Ledger.Holds

section Slots

variable {α β : Type*} {f : α → List β} {slots : List α} {i : Nat} {before : α}

/-- What is held in the slots of a table, by one slot and the others. -/
theorem flatMap_eraseIdx_perm (hi : slots[i]? = some before) :
    (f before ++ (slots.eraseIdx i).flatMap f).Perm (slots.flatMap f) := by
  obtain ⟨hlt, rfl⟩ := List.getElem?_eq_some_iff.mp hi
  exact (List.getElem_cons_eraseIdx_perm hlt).flatMap_right f

/-- What is held when one slot is written. -/
theorem flatMap_set_perm (hi : slots[i]? = some before) (after : α) :
    (f before ++ (slots.set i after).flatMap f).Perm
      (f after ++ slots.flatMap f) := by
  obtain ⟨hlt, -⟩ := List.getElem?_eq_some_iff.mp hi
  have hset := (List.set_perm_cons_eraseIdx hlt after).flatMap_right f
  calc
    f before ++ (slots.set i after).flatMap f
      |>.Perm (f before ++ (f after ++ (slots.eraseIdx i).flatMap f)) :=
        hset.append_left (f before)
    _ |>.Perm (f after ++ (f before ++ (slots.eraseIdx i).flatMap f)) :=
        List.perm_append_comm_assoc _ _ _
    _ |>.Perm (f after ++ slots.flatMap f) :=
        (flatMap_eraseIdx_perm hi).append_left (f after)

end Slots

end Library
end OsStuff
