import Mathlib.Data.Nat.Bitwise
import OsStuff.Library.DyadicTree
import OsStuff.BuddyAlloc.Client
import OsStuff.BuddyAlloc.FreeLists

/-!
# Indices, buckets and addresses of tree nodes

The source numbers nodes from `0` and calls levels buckets: index `n - 1` of
bucket `b` is the node `n` of level `b`.  This module translates the address
and index computations of the source into the numbering of `DyadicTree` and
shows that none of them wraps on an index of the tree.
-/

namespace OsStuff
namespace BuddyAlloc

open Library Library.DyadicTree

/-- Address of the block of node `n` of level `b`. -/
def nodeAddr (base b n : Nat) : Nat := base + offset 31 b n

/-- The level whose blocks have `blockSize size` bytes. -/
def bucketOf (size : Nat) : Nat := 31 - Nat.clog 2 (max 16 size)

variable {platform : Platform} {heap : Heap} {b c n m x : Nat}

theorem wrap_of_lt {value : Nat} (hvalue : value < 2 ^ 64) :
    wrap value = value :=
  Nat.mod_eq_of_lt hvalue

theorem sizeSub_of_le {a b : Nat} (hba : b ≤ a) (ha : a < 2 ^ 64) :
    sizeSub a b = a - b := by
  unfold sizeSub wrap
  omega

theorem node_lt (hn : AtLevel b n) (hb : b < bucketCount) :
    n < 2 ^ 28 := by
  have hle : 2 ^ (b + 1) ≤ 2 ^ 28 :=
    Nat.pow_le_pow_right (by omega) (by simpa using hb)
  exact lt_of_lt_of_le hn.2 hle

theorem offset_bound (hn : AtLevel b n) (hb : b < bucketCount) :
    offset 31 b n + 2 ^ (31 - b) ≤ 2 ^ 31 :=
  offset_add_size_le (by simp at hb; omega) hn

theorem sixteen_le_size (hb : b < bucketCount) : 16 ≤ 2 ^ (31 - b) := by
  have hle : 2 ^ 4 ≤ 2 ^ (31 - b) :=
    Nat.pow_le_pow_right (by omega) (by simp at hb; omega)
  simpa using hle

/-- Blocks start at multiples of 16 bytes. -/
theorem nodeAddr_slot (hn : AtLevel b n) (hb : b < bucketCount) :
    HeapSlot heap (nodeAddr heap.basePtr b n) := by
  have hbound := offset_bound hn hb
  have hsize := sixteen_le_size hb
  have hsplit : 2 ^ (31 - b) = 16 * 2 ^ (27 - b) := by
    have hexp : 31 - b = 4 + (27 - b) := by simp at hb; omega
    rw [hexp, Nat.pow_add]
  refine ⟨(n - 2 ^ b) * 2 ^ (27 - b), ?_, ?_⟩
  · unfold offset at hbound
    rw [hsplit] at hbound hsize
    rw [show (n - 2 ^ b) * (16 * 2 ^ (27 - b)) =
      16 * ((n - 2 ^ b) * 2 ^ (27 - b)) by ring] at hbound
    omega
  · unfold nodeAddr offset
    rw [hsplit]
    ring

/-! ## `ptr_for_node` and `node_for_ptr` -/

/-- The bytes of the arena lie in the address space. -/
theorem Mapped.segment (hmapped : Mapped platform heap) :
    heap.basePtr + maxAlloc ≤ 2 ^ 64 := by
  have hlow := hmapped.low
  simp only [maxAlloc, maxAllocLog2]
  omega

/-- Nothing wraps in `ptr_for_node`, for blocks of two bytes and more. -/
theorem ptrForNode_of_segment (hsegment : heap.basePtr + maxAlloc ≤ 2 ^ 64)
    (hn : AtLevel b n) (hb : b < maxAllocLog2) :
    ptrForNode heap (n - 1) b = some (nodeAddr heap.basePtr b n) := by
  have hb' : b < 31 := hb
  have hbound := offset_add_size_le (h := 31) (by omega) hn
  have hsize : 0 < 2 ^ (31 - b) := by positivity
  have hpos := hn.pos
  have hstart := hn.1
  have hlt : n < 2 ^ 31 :=
    lt_of_lt_of_le hn.2 (Nat.pow_le_pow_right (by omega) (by omega))
  have hindex : wrap (sizeSub (n - 1) (2 ^ b) + 1) = n - 2 ^ b := by
    unfold sizeSub wrap
    generalize 2 ^ b = first at *
    omega
  have hoffset : wrap (wrap (sizeSub (n - 1) (2 ^ b) + 1) *
      2 ^ (maxAllocLog2 - b)) = offset 31 b n := by
    rw [hindex]
    exact wrap_of_lt (by unfold offset at hbound; simp; omega)
  simp only [maxAlloc, maxAllocLog2] at hsegment
  unfold ptrForNode
  rw [if_pos hb, hoffset, wrap_of_lt (by omega)]
  rfl

theorem ptrForNode_eq (hmapped : Mapped platform heap) (hn : AtLevel b n)
    (hb : b < bucketCount) :
    ptrForNode heap (n - 1) b = some (nodeAddr heap.basePtr b n) :=
  ptrForNode_of_segment hmapped.segment hn (hb.trans (by simp))

/-- `node_for_ptr` of any address of the arena. -/
theorem nodeForPtr_add (heap : Heap) (hb : b < bucketCount) (hx : x < 2 ^ 31) :
    nodeForPtr heap (heap.basePtr + x) b =
      some ((2 ^ 31 + x) / 2 ^ (31 - b) - 1) := by
  have hb' : b < 28 := by simpa using hb
  have hdiff : ((heap.basePtr + x : Nat) : Int) - heap.basePtr = (x : Nat) := by
    push_cast
    ring
  have hsplit : (2 ^ 31 + x) / 2 ^ (31 - b) = x / 2 ^ (31 - b) + 2 ^ b := by
    rw [← two_pow_split (show b ≤ 31 by omega), Nat.add_comm,
      Nat.add_mul_div_right _ _ (by positivity)]
  have hsmall : x / 2 ^ (31 - b) < 2 ^ 31 :=
    lt_of_le_of_lt (Nat.div_le_self _ _) hx
  have hpow : 2 ^ b ≤ 2 ^ 28 := Nat.pow_le_pow_right (by omega) (by omega)
  have hpos : 1 ≤ 2 ^ b := Nat.one_le_two_pow
  have hcast : (((heap.basePtr + x : Nat) : Int) - heap.basePtr) /
      2 ^ (31 - b) + 2 ^ b - 1 =
      ((x / 2 ^ (31 - b) + 2 ^ b - 1 : Nat) : Int) := by
    rw [hdiff, Nat.cast_sub (le_trans hpos (Nat.le_add_left _ _))]
    push_cast
    ring
  unfold nodeForPtr
  rw [if_pos (by simp; omega)]
  simp only [maxAllocLog2, hcast, hsplit]
  congr 1
  omega

theorem nodeForPtr_eq (heap : Heap) (hn : AtLevel b n) (hb : b < bucketCount) :
    nodeForPtr heap (nodeAddr heap.basePtr b n) b = some (n - 1) := by
  have hb' : b < 28 := by simpa using hb
  have hbound := offset_bound hn hb
  have hsize := sixteen_le_size hb
  unfold nodeAddr
  rw [nodeForPtr_add _ hb (by omega)]
  have hstart := hn.1
  have hquot : (2 ^ 31 + offset 31 b n) / 2 ^ (31 - b) = n := by
    unfold offset
    rw [← two_pow_split (show b ≤ 31 by omega), ← Nat.add_mul,
      Nat.mul_div_cancel _ (by positivity)]
    omega
  rw [hquot]

/-! ## Parents and siblings -/

theorem parentIndex_eq (hn : 2 ≤ n) (hlt : n < 2 ^ 64) :
    parentIndex (n - 1) = n / 2 - 1 := by
  unfold parentIndex sizeSub wrap
  omega

theorem siblingIndex_eq (hn : 2 ≤ n) (hlt : n < 2 ^ 63) :
    siblingIndex (n - 1) = sibling n - 1 := by
  have hsub : sizeSub (n - 1) 1 = n - 2 := by
    unfold sizeSub wrap
    omega
  have hxor : (n - 2) ^^^ 1 = n - 2 + 1 - 2 * (n % 2) := by
    rcases Nat.mod_two_eq_zero_or_one n with h | h
    · have heven : (n - 2) % 2 = 0 := by omega
      rw [Nat.xor_one_of_even (Nat.even_iff.mpr heven)]
      omega
    · have hodd : (n - 2) % 2 = 1 := by omega
      rw [Nat.xor_one_of_odd (Nat.odd_iff.mpr hodd)]
      omega
  unfold siblingIndex sibling
  rw [hsub, hxor, wrap_of_lt (by omega)]
  omega

/-! ## `bucket_for_request` -/

theorem clog_le (hsize : m ≤ 2 ^ 31) : Nat.clog 2 (max 16 m) ≤ 31 :=
  Nat.clog_le_of_le_pow (by omega)

theorem four_le_clog (m : Nat) : 4 ≤ Nat.clog 2 (max 16 m) :=
  (Nat.lt_clog_iff_pow_lt (by omega)).mpr (by omega)

theorem bucketOf_lt (m : Nat) : bucketOf m < bucketCount := by
  have hclog := four_le_clog m
  simp only [bucketOf, bucketCount, maxAllocLog2, minAllocLog2]
  omega

theorem blockSize_eq (hsize : m ≤ 2 ^ 31) :
    blockSize m = 2 ^ (31 - bucketOf m) := by
  have hclog := clog_le hsize
  have hmin : minAlloc = 16 := rfl
  unfold blockSize bucketOf
  rw [hmin]
  congr 1
  omega

theorem le_blockSize (m : Nat) : m ≤ blockSize m :=
  le_trans (le_max_right _ _) (Nat.le_pow_clog (by omega) _)

/-- A block of level `c` is too small for a request exactly when the level of
the request lies above. -/
theorem size_lt_iff (hsize : m ≤ 2 ^ 31) (hc : c < bucketCount) :
    2 ^ (31 - c) < m ↔ bucketOf m < c := by
  have hsixteen := sixteen_le_size hc
  have hclog := clog_le hsize
  have hmax : 2 ^ (31 - c) < m ↔ 2 ^ (31 - c) < max 16 m := by
    omega
  have hc' : c < 28 := by simpa using hc
  rw [hmax, ← Nat.lt_clog_iff_pow_lt (by omega)]
  unfold bucketOf
  omega

/-- The loop of `bucket_for_request` on the integers: a round that would leave
`size_t` has no result. -/
def bucketForRequestExactLoop (request : Nat) : Nat → Nat → Nat → Option Nat
  | 0, _, _ => none
  | fuel + 1, bucket, size =>
      if size < request then
        if bucket = 0 ∨ 2 ^ 64 ≤ size * 2 then none
        else bucketForRequestExactLoop request fuel (bucket - 1) (size * 2)
      else
        some bucket

/-- `bucket_for_request` on the integers. -/
def bucketForRequestExact (request : Nat) : Option Nat :=
  bucketForRequestExactLoop request 64 (bucketCount - 1) minAlloc

/-- Where the loop has a result on the integers, the source has the same. -/
theorem bucketForRequestLoop_of_exact {fuel c size bucket : Nat}
    (hc : c < 2 ^ 64)
    (hexact : bucketForRequestExactLoop m fuel c size = some bucket) :
    bucketForRequestLoop m fuel c size = some bucket := by
  induction fuel generalizing c size with
  | zero => exact absurd hexact (by simp [bucketForRequestExactLoop])
  | succ fuel ih =>
      unfold bucketForRequestExactLoop at hexact
      unfold bucketForRequestLoop
      by_cases hsmall : size < m
      · rw [if_pos hsmall] at hexact ⊢
        by_cases hleaves : c = 0 ∨ 2 ^ 64 ≤ size * 2
        · rw [if_pos hleaves] at hexact
          exact absurd hexact (by simp)
        · rw [if_neg hleaves] at hexact
          obtain ⟨hne, hfits⟩ := not_or.mp hleaves
          rw [sizeSub_of_le (by omega) hc, wrap_of_lt (by omega)]
          exact ih (by omega) hexact
      · rw [if_neg hsmall] at hexact ⊢
        exact hexact

theorem bucketForRequestExactLoop_eq (hsize : m ≤ 2 ^ 31) (fuel c : Nat)
    (hc : c < bucketCount) (hbucket : bucketOf m ≤ c)
    (hfuel : c - bucketOf m < fuel) :
    bucketForRequestExactLoop m fuel c (2 ^ (31 - c)) = some (bucketOf m) := by
  induction fuel generalizing c with
  | zero => omega
  | succ fuel ih =>
      have hc' : c < 28 := by simpa using hc
      unfold bucketForRequestExactLoop
      by_cases hlt : bucketOf m < c
      · -- A block of level `c` is too small, and one of twice the size exists.
        have hdouble : 2 ^ (31 - c) * 2 = 2 ^ (31 - (c - 1)) := by
          rw [← Nat.pow_succ]
          congr 1
          omega
        have hle : 2 ^ (31 - (c - 1)) ≤ 2 ^ 31 :=
          Nat.pow_le_pow_right (by omega) (by omega)
        rw [if_pos ((size_lt_iff hsize hc).mpr hlt), hdouble,
          if_neg (by omega)]
        exact ih (c - 1) (by omega) (by omega) (by omega)
      · have heq : c = bucketOf m := by omega
        rw [if_neg (fun h => hlt ((size_lt_iff hsize hc).mp h)), heq]

/-- Neither the index nor the size of `bucket_for_request` leaves its type. -/
theorem bucketForRequestExact_eq (hsize : m ≤ 2 ^ 31) :
    bucketForRequestExact m = some (bucketOf m) := by
  have hlt : bucketOf m < 28 := by simpa using bucketOf_lt m
  exact bucketForRequestExactLoop_eq hsize 64 27 (by simp) (by omega) (by omega)

/-- `bucket_for_request` returns the level of the smallest block that is large
enough. -/
theorem bucketForRequest_eq (hsize : m ≤ 2 ^ 31) :
    bucketForRequest m = some (bucketOf m) :=
  bucketForRequestLoop_of_exact (by simp) (bucketForRequestExact_eq hsize)

end BuddyAlloc
end OsStuff
