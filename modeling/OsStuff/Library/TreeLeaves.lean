import OsStuff.Library.DyadicTree

/-!
# Walking down to the leaves of a marked tree

The leaves of a tree are its marked nodes and its vacant nodes.  A walk from the
root that goes on from every node that is neither visits nodes that are `Shown`,
and below each of them it finds the leaves that lie there: itself, or those
below its two children.
-/

namespace OsStuff
namespace Library
namespace DyadicTree

variable {marked : Set Nat} {root n m k c : Nat}

/-- A node at which a walk from the root ends. -/
def Leaf (marked : Set Nat) (root n : Nat) : Prop :=
  n ∈ marked ∨ Vacant marked root n

/-- A node that a walk from the root visits. -/
structure Shown (marked : Set Nat) (root n : Nat) : Prop where
  below : Within n root
  start : n = root ∨ Occupied marked (n / 2)
  alone : ∀ m ∈ marked, Within n m → n = m

/-- Every walk starts at the root. -/
theorem shown_root (hmarking : Marking marked root) : Shown marked root root where
  below := within_refl root
  start := Or.inl rfl
  alone m hm hwithin := hwithin.antisymm (hmarking.below m hm)

/-- The walk goes on to the children. -/
theorem Shown.child (h : Shown marked root n) (hocc : Occupied marked n)
    (hn : n ∉ marked) (hc : c / 2 = n) : Shown marked root c where
  below := by
    have hhalf := within_half c
    rw [hc] at hhalf
    exact hhalf.trans h.below
  start := Or.inr (hc ▸ hocc)
  alone m hm hwithin := by
    rcases hwithin.eq_or_half with heq | habove
    · exact heq
    · rw [hc] at habove
      exact absurd (h.alone m hm habove ▸ hm) hn

/-- A node that is visited is a leaf or has a marked node properly below it. -/
theorem Shown.cases (h : Shown marked root n) (hpos : 1 ≤ root) :
    n ∈ marked ∨ Vacant marked root n ∨ Occupied marked n ∧ n ∉ marked := by
  by_cases hmem : n ∈ marked
  · exact Or.inl hmem
  · by_cases hocc : Occupied marked n
    · exact Or.inr (Or.inr ⟨hocc, hmem⟩)
    · refine Or.inr (Or.inl ⟨h.below, hocc, ?_⟩)
      by_cases hroot : n = root
      · exact Or.inl hroot
      · obtain ⟨m, hm, hhalf⟩ := h.start.resolve_left hroot
        by_cases htwo : 2 ≤ n
        · rcases hhalf.half_cases htwo with rfl | hself | hsibling
          · exact absurd (h.alone _ hm (within_half n) ▸ hm) hmem
          · exact absurd ⟨m, hm, hself⟩ hocc
          · exact Or.inr ⟨m, hm, hsibling⟩
        · have hle := h.below.le
          exact Or.inl (by omega)

/-- Below a marked node there is no other leaf. -/
theorem leaf_within_marked (hmarking : Marking marked root) (hroot : 1 ≤ root)
    (hn : n ∈ marked) : Leaf marked root k ∧ Within k n ↔ k = n := by
  constructor
  · rintro ⟨hk | hk, hwithin⟩
    · exact hmarking.apart k hk n hn hwithin
    · exact absurd hwithin (hk.not_within_marked hmarking hroot hn)
  · rintro rfl
    exact ⟨Or.inl hn, within_refl k⟩

/-- Below a vacant node there is no other leaf. -/
theorem leaf_within_vacant (hroot : 1 ≤ root) (hn : Vacant marked root n) :
    Leaf marked root k ∧ Within k n ↔ k = n := by
  constructor
  · rintro ⟨hk | hk, hwithin⟩
    · exact absurd ⟨k, hk, hwithin⟩ hn.empty
    · exact hk.unique hn hroot (within_refl k) hwithin
  · rintro rfl
    exact ⟨Or.inr hn, within_refl k⟩

/-- The leaves below another node are those below its children. -/
theorem leaf_within_inner (hocc : Occupied marked n) (hn : n ∉ marked) :
    Leaf marked root k ∧ Within k n ↔
      Leaf marked root k ∧ Within k (2 * n) ∨
        Leaf marked root k ∧ Within k (2 * n + 1) := by
  rw [← and_or_left]
  refine and_congr_right fun hk => ⟨fun hwithin => ?_, ?_⟩
  · rcases hwithin.eq_or_child with heq | hchild
    · -- The node itself is not a leaf.
      rw [heq] at hk
      exact (hk.elim hn fun hvacant => hvacant.empty hocc).elim
    · exact hchild
  · rintro (hleft | hright)
    · exact hleft.trans (within_child_left n)
    · exact hright.trans (within_child_right n)

end DyadicTree
end Library
end OsStuff
