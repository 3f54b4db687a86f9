import Mathlib.Algebra.BigOperators.Group.List.Basic
import Mathlib.Tactic

/-!
# Processes that move one at a time

The processes of a system are a list of local states, and a step replaces the
local state of one of them.  The lemmas say what becomes of the number of
processes with a property, of a sum over all processes, and of the others.
-/

namespace OsStuff
namespace Library
namespace Processes

variable {α : Type*} {processes : List α} {i j : Nat} {before after other : α}

theorem lt_length (hi : processes[i]? = some before) : i < processes.length :=
  (List.getElem?_eq_some_iff.mp hi).1

/-- After a step a process is the one that moved or another one, which is as it
was. -/
theorem set_cases (hj : (processes.set i after)[j]? = some other) :
    (j = i ∧ other = after) ∨ (j ≠ i ∧ processes[j]? = some other) := by
  by_cases hij : i = j
  · subst hij
    have hlt : i < (processes.set i after).length := lt_length hj
    rw [List.length_set] at hlt
    rw [List.getElem?_set_self hlt, Option.some.injEq] at hj
    exact Or.inl ⟨rfl, hj.symm⟩
  · rw [List.getElem?_set_ne hij] at hj
    exact Or.inr ⟨fun h => hij h.symm, hj⟩

theorem set_self (hi : processes[i]? = some before) :
    (processes.set i after)[i]? = some after :=
  List.getElem?_set_self (lt_length hi)

theorem set_other (hij : i ≠ j) :
    (processes.set i after)[j]? = processes[j]? :=
  List.getElem?_set_ne hij

section Counting

variable {p : α → Bool}

private theorem countP_set_eq (hi : processes[i]? = some before) :
    (processes.set i after).countP p =
      processes.countP p - (if p before then 1 else 0) +
        (if p after then 1 else 0) := by
  obtain ⟨hlt, hget⟩ := List.getElem?_eq_some_iff.mp hi
  rw [List.countP_set hlt, hget]

theorem countP_pos (hi : processes[i]? = some before) (hbefore : p before) :
    0 < processes.countP p :=
  List.countP_pos_iff.mpr ⟨before, List.mem_of_getElem? hi, hbefore⟩

/-- The moving process has the property as before. -/
theorem countP_set_same (hi : processes[i]? = some before)
    (hsame : p after = p before) :
    (processes.set i after).countP p = processes.countP p := by
  rw [countP_set_eq hi, hsame]
  cases hbefore : p before with
  | true =>
      have hpos := countP_pos hi hbefore
      simp only [if_pos]
      omega
  | false => simp

/-- The moving process gains the property. -/
theorem countP_set_enter (hi : processes[i]? = some before)
    (hbefore : p before = false) (hafter : p after = true) :
    (processes.set i after).countP p = processes.countP p + 1 := by
  rw [countP_set_eq hi, hbefore, hafter]
  simp

/-- The moving process loses the property. -/
theorem countP_set_leave (hi : processes[i]? = some before)
    (hbefore : p before = true) (hafter : p after = false) :
    (processes.set i after).countP p + 1 = processes.countP p := by
  have hpos := countP_pos hi hbefore
  rw [countP_set_eq hi, hbefore, hafter]
  simp only [if_pos, Bool.false_eq_true, if_false]
  omega

/-- With at most one process with the property, two of them are the same. -/
theorem index_unique (hle : processes.countP p ≤ 1)
    (hi : processes[i]? = some before) (hj : processes[j]? = some other)
    (hbefore : p before) (hother : p other) : i = j := by
  induction processes generalizing i j with
  | nil => simp at hi
  | cons head tail ih =>
      cases i with
      | zero =>
          cases j with
          | zero => rfl
          | succ j =>
              obtain rfl : head = before := by simpa using hi
              have hpos := countP_pos (i := j)
                (by simpa using hj) hother
              rw [List.countP_cons_of_pos hbefore] at hle
              omega
      | succ i =>
          cases j with
          | zero =>
              obtain rfl : head = other := by simpa using hj
              have hpos := countP_pos (i := i)
                (by simpa using hi) hbefore
              rw [List.countP_cons_of_pos hother] at hle
              omega
          | succ j =>
              have hle' : tail.countP p ≤ 1 :=
                le_trans (List.Sublist.countP_le (List.sublist_cons_self _ _)) hle
              have := ih (i := i) (j := j) hle' (by simpa using hi)
                (by simpa using hj)
              omega

/-- At most one process has the property when two of them are always the
same. -/
theorem countP_le_one (hunique : ∀ (i j : Nat) (a b : α), processes[i]? = some a →
    processes[j]? = some b → p a = true → p b = true → i = j) :
    processes.countP p ≤ 1 := by
  induction processes with
  | nil => exact Nat.zero_le 1
  | cons head tail ih =>
      have htail := ih fun i j a b hi hj ha hb =>
        Nat.succ.inj (hunique (i + 1) (j + 1) a b (by simpa using hi) (by simpa using hj)
          ha hb)
      cases hhead : p head with
      | false =>
          rw [List.countP_cons_of_neg (by simp [hhead])]
          exact htail
      | true =>
          -- The head has it, so nobody in the tail does.
          have hnone : tail.countP p = 0 := by
            rw [List.countP_eq_zero]
            intro a hmem ha
            obtain ⟨j, hj⟩ := List.mem_iff_getElem?.mp hmem
            have := hunique 0 (j + 1) head a rfl (by simpa using hj) hhead ha
            omega
          rw [List.countP_cons_of_pos hhead, hnone]

/-- A process with the property when the number is not zero. -/
theorem exists_of_countP (hpos : 0 < processes.countP p) :
    ∃ (i : Nat) (a : α), processes[i]? = some a ∧ p a = true := by
  obtain ⟨a, hmem, ha⟩ := List.countP_pos_iff.mp hpos
  obtain ⟨i, hi⟩ := List.mem_iff_getElem?.mp hmem
  exact ⟨i, a, hi, ha⟩

/-- No process has the property when the number is zero. -/
theorem not_of_countP_zero (hzero : processes.countP p = 0)
    (hi : processes[i]? = some before) : p before = false := by
  by_contra hbefore
  have hpos := countP_pos hi (by simpa using hbefore)
  omega

end Counting

/-- A sum over all processes changes by what the moving process contributes. -/
theorem sum_map_set {f : α → Nat} (hi : processes[i]? = some before) :
    ((processes.set i after).map f).sum + f before =
      (processes.map f).sum + f after := by
  induction processes generalizing i with
  | nil => simp at hi
  | cons head tail ih =>
      cases i with
      | zero =>
          obtain rfl : head = before := by simpa using hi
          simp only [List.set_cons_zero, List.map_cons, List.sum_cons]
          omega
      | succ i =>
          have := ih (i := i) (by simpa using hi)
          simp only [List.set_cons_succ, List.map_cons, List.sum_cons]
          omega

/-- The processes with a property are at most what they contribute to a sum. -/
theorem countP_le_sum_map {p : α → Bool} {f : α → Nat}
    (hf : ∀ a ∈ processes, p a = true → 1 ≤ f a) :
    processes.countP p ≤ (processes.map f).sum := by
  induction processes with
  | nil => exact le_refl 0
  | cons head tail ih =>
      have hhead := hf head List.mem_cons_self
      have htail := ih fun a ha => hf a (List.mem_cons_of_mem _ ha)
      rw [List.countP_cons, List.map_cons, List.sum_cons]
      cases hp : p head with
      | true =>
          have := hhead hp
          simp only [if_true]
          omega
      | false =>
          simp only [Bool.false_eq_true, if_false]
          omega

end Processes
end Library
end OsStuff
