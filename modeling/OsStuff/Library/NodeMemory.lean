import OsStuff.Library.ByteMemory
import OsStuff.Library.LinkRing

/-!
# List nodes in a byte memory

A list node at address `a` keeps its `prev` link in the word at `a` and its
`next` link in the word at `a + 8`.  `linksOf` reads all links of a memory at
once.  On a set of node addresses that are at least 16 bytes apart, storing a
link changes that link and no other, so that on such a set the stores of a
program are the pure link updates of `Links`.
-/

namespace OsStuff
namespace Library
namespace NodeMemory

open ByteMemory

/-- The links kept in a memory. -/
def linksOf (memory : Memory) : Links Nat where
  next a := loadWord memory (a + 8)
  prev a := loadWord memory a

/-- Distinct addresses of the set leave room for a node of 16 bytes. -/
def Spaced (slots : Set Nat) : Prop :=
  ∀ x ∈ slots, ∀ y ∈ slots, x ≠ y → x + 16 ≤ y ∨ y + 16 ≤ x

/-- The two link memories agree on all nodes of the set. -/
def AgreeOn (slots : Set Nat) (links links' : Links Nat) : Prop :=
  ∀ x ∈ slots, links'.next x = links.next x ∧ links'.prev x = links.prev x

variable {slots : Set Nat} {memory : Memory} {links : Links Nat}
  {a value : Nat}

/-- Storing the `next` link of a node. -/
theorem agreeOn_store_next (hspaced : Spaced slots)
    (hagree : AgreeOn slots links (linksOf memory)) (ha : a ∈ slots)
    (hvalue : value < 2 ^ 64) :
    AgreeOn slots { links with next := Function.update links.next a value }
      (linksOf (storeWord memory (a + 8) value)) := by
  intro x hx
  obtain ⟨hnext, hprev⟩ := hagree x hx
  by_cases hxa : x = a
  · subst hxa
    refine ⟨?_, ?_⟩
    · simpa [linksOf] using loadWord_storeWord_same hvalue
    · rw [← hprev]
      exact loadWord_storeWord_apart (by omega)
  · have hapart := hspaced x hx a ha hxa
    refine ⟨?_, ?_⟩
    · simp only [Function.update_of_ne hxa, ← hnext]
      exact loadWord_storeWord_apart (by omega)
    · rw [← hprev]
      exact loadWord_storeWord_apart (by omega)

/-- Storing the `prev` link of a node. -/
theorem agreeOn_store_prev (hspaced : Spaced slots)
    (hagree : AgreeOn slots links (linksOf memory)) (ha : a ∈ slots)
    (hvalue : value < 2 ^ 64) :
    AgreeOn slots { links with prev := Function.update links.prev a value }
      (linksOf (storeWord memory a value)) := by
  intro x hx
  obtain ⟨hnext, hprev⟩ := hagree x hx
  by_cases hxa : x = a
  · subst hxa
    refine ⟨?_, ?_⟩
    · rw [← hnext]
      exact loadWord_storeWord_apart (by omega)
    · simpa [linksOf] using loadWord_storeWord_same hvalue
  · have hapart := hspaced x hx a ha hxa
    refine ⟨?_, ?_⟩
    · rw [← hnext]
      exact loadWord_storeWord_apart (by omega)
    · simp only [Function.update_of_ne hxa, ← hprev]
      exact loadWord_storeWord_apart (by omega)

theorem agreeOn_refl (slots : Set Nat) (links : Links Nat) :
    AgreeOn slots links links :=
  fun _ _ => ⟨rfl, rfl⟩

/-- The links of a node only depend on its 16 bytes. -/
theorem linksOf_congr {memory' : Memory} {x : Nat}
    (hbytes : ∀ y, x ≤ y → y < x + 16 → memory' y = memory y) :
    (linksOf memory').next x = (linksOf memory).next x ∧
      (linksOf memory').prev x = (linksOf memory).prev x :=
  ⟨loadWord_congr fun y hlow hhigh => hbytes y (by omega) (by omega),
    loadWord_congr fun y hlow hhigh => hbytes y (by omega) (by omega)⟩

end NodeMemory
end Library
end OsStuff
