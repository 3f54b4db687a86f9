import OsStuff.Library.LinkRing

/-!
# `list.c`

The circular list of the allocators over a memory of nodes of any type.  The
operations make the stores of the source one after another; on the memory as a
whole they are the link updates `selfLink`, `append` and `detach` of the
library.  `list_size` walks backwards, `list_contains` forwards.
-/

namespace OsStuff
namespace BuddyAlloc
namespace IntrusiveList

open Library

variable {α : Type*} [DecidableEq α]

def setPrev (links : Links α) (node value : α) : Links α :=
  { links with prev := Function.update links.prev node value }

def setNext (links : Links α) (node value : α) : Links α :=
  { links with next := Function.update links.next node value }

/-- `list_init` -/
def listInit (list : α) (links : Links α) : Links α :=
  let links := setPrev links list list
  setNext links list list

/-- `list_push` -/
def listPush (beginning newLast : α) (links : Links α) : Links α :=
  let prevLast := links.prev beginning
  let links := setPrev links newLast prevLast
  let links := setNext links newLast beginning
  let links := setNext links prevLast newLast
  setPrev links beginning newLast

/-- `list_remove` -/
def listRemove (entry : α) (links : Links α) : Links α :=
  let next := links.next entry
  let prev := links.prev entry
  let links := setNext links prev next
  setPrev links next prev

/-- `list_pop`; `none` is `NULL`. -/
def listPop (list : α) (links : Links α) : Option α × Links α :=
  let back := links.prev list
  if back = list then (none, links) else (some back, listRemove back links)

def intMax : Nat := 2147483647

/-- `_list_size` with at most `fuel` calls.  The count is an `int`, which
cannot pass `intMax`. -/
def listSizeFrom (links : Links α) (begin : α) : Nat → α → Nat → Option Nat
  | 0, _, _ => none
  | fuel + 1, list, count =>
      if list ≠ begin then
        if count < intMax then
          listSizeFrom links begin fuel (links.prev list) (count + 1)
        else none
      else some count

/-- `list_size` -/
def listSize (fuel : Nat) (links : Links α) (list : α) : Option Nat :=
  listSizeFrom links list fuel (links.prev list) 0

/-- `_list_contains` with at most `fuel` calls.  The last argument of the inner
call is the node just left, not the node the search began at. -/
def listContainsFrom (links : Links α) (this : α) : Nat → α → α → Option Nat
  | 0, _, _ => none
  | fuel + 1, list, begin =>
      if list = this then some 1
      else if list = begin then some 0
      else listContainsFrom links this fuel (links.next list) list

/-- `list_contains` -/
def listContains (fuel : Nat) (links : Links α) (list this : α) : Option Nat :=
  listContainsFrom links this fuel list list

variable {links : Links α} {list this : α} {nodes : List α}

/-! ## The stores as link updates -/

theorem listInit_eq (list : α) (links : Links α) :
    listInit list links = links.selfLink list := rfl

theorem listPush_eq (beginning newLast : α) (links : Links α) :
    listPush beginning newLast links = links.append beginning newLast := rfl

theorem listRemove_eq (entry : α) (links : Links α) :
    listRemove entry links = links.detach entry := rfl

/-! ## Membership -/

/-- The search ends, with `1` exactly for the head and the nodes met by
following `next` from it until it comes back. -/
def Decides (links : Links α) (list this : α) : Prop :=
  ∃ fuel answer, listContains fuel links list this = some answer ∧
    (answer = 1 ↔ this = list ∨
      ∃ steps, this ∈ links.walk list steps (links.next list))

/-- The first call already stands at the node the search began at. -/
theorem listContains_eq (fuel : Nat) (links : Links α) (list this : α) :
    listContains (fuel + 1) links list this =
      some (if list = this then 1 else 0) := by
  unfold listContains listContainsFrom
  split
  · rfl
  · rw [if_pos rfl]

theorem decides_iff (hring : links.Ring list nodes)
    (hnodup : (list :: nodes).Nodup) :
    Decides links list this ↔ this = list ∨ this ∉ nodes := by
  have hhead : list ∉ nodes := (List.nodup_cons.mp hnodup).1
  unfold Decides
  rw [hring.mem_walk_iff hhead]
  constructor
  · rintro ⟨fuel, answer, hanswer, hmeans⟩
    cases fuel with
    | zero => exact absurd hanswer (by simp [listContains, listContainsFrom])
    | succ fuel =>
        rw [listContains_eq, Option.some.injEq] at hanswer
        by_cases hthis : list = this
        · exact Or.inl hthis.symm
        · -- The answer is `0`, which is right for a node that is no element.
          right
          intro hmem
          have hone : answer = 1 := hmeans.mpr (Or.inr hmem)
          rw [if_neg hthis, hone] at hanswer
          exact absurd hanswer (by decide)
  · intro hright
    refine ⟨1, _, listContains_eq 0 links list this, ?_⟩
    by_cases hthis : list = this
    · simp [hthis]
    · rw [if_neg hthis]
      have hnot : this ∉ nodes := hright.resolve_left (Ne.symm hthis)
      simp [Ne.symm hthis, hnot]

/-- A list with the head `0` and the element `1`. -/
def pairLinks : Links Nat where
  next node := 1 - node
  prev node := 1 - node

theorem ring_pairLinks : pairLinks.Ring 0 [1] := by
  simp [Links.Ring, pairLinks]

theorem decides_pair : pairLinks.Ring 0 [1] ∧ [0, 1].Nodup ∧
    (Decides pairLinks 0 2 ↔ 2 = 0 ∨ 2 ∉ [1]) :=
  ⟨ring_pairLinks, by decide, decides_iff ring_pairLinks (by decide)⟩

/-- The only element of a list is not found in it. -/
theorem element_not_found : ¬ ∀ (links : Links Nat) (list : Nat)
    (nodes : List Nat) (this : Nat), links.Ring list nodes →
      (list :: nodes).Nodup → Decides links list this := by
  intro hall
  obtain ⟨fuel, answer, hanswer, hmeans⟩ :=
    hall pairLinks 0 [1] 1 ring_pairLinks (by decide)
  cases fuel with
  | zero => exact absurd hanswer (by simp [listContains, listContainsFrom])
  | succ fuel =>
      rw [listContains_eq, Option.some.injEq] at hanswer
      have hone : answer = 1 := hmeans.mpr (Or.inr ⟨1, by decide⟩)
      rw [hone] at hanswer
      exact absurd hanswer (by decide)

end IntrusiveList
end BuddyAlloc
end OsStuff
