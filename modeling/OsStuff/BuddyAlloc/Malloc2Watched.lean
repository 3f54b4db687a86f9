import OsStuff.BuddyAlloc.FirstCounts
import OsStuff.BuddyAlloc.Malloc2Checked

/-!
# `malloc_2` and `free_2` with watched counters

The functions here are those of `buddy_malloc_2.c` with a test behind every call of
`parent_inc_status` and `parent_dec_status` that only the status of the parent has
changed and that it is `UNUSED`, `SPLIT` or `USED`; without one they have no result.
The tests pass as long as `free_2` does not empty a tree whose root has not been
counted, or one that has grown to its full size.
-/

namespace OsStuff
namespace BuddyAlloc
namespace Malloc2

open Library Library.DyadicTree

namespace Watched

/-! ## The functions -/

/-- Of the statuses in the byte of a node only its own has changed, and it is one of
the three enumerators. -/
def Tidy (heap heap' : Heap) (index : Nat) : Prop :=
  (∀ k < 4, 4 * (index / 4) + k ≠ index →
    getNodeStatus heap' (4 * (index / 4) + k) =
      getNodeStatus heap (4 * (index / 4) + k)) ∧
  getNodeStatus heap' index ∈ [some unused, some split, some used]

instance (heap heap' : Heap) (index : Nat) : Decidable (Tidy heap heap' index) :=
  inferInstanceAs (Decidable (_ ∧ _))

/-- `parent_inc_status` -/
def parentIncStatus (heap : Heap) (index : Nat) : Option Heap :=
  (Malloc2.parentIncStatus heap index).filter fun heap' =>
    Tidy heap heap' (parentIndex index)

/-- `parent_dec_status` -/
def parentDecStatus (heap : Heap) (index : Nat) : Option Heap :=
  (Malloc2.parentDecStatus heap index).filter fun heap' =>
    Tidy heap heap' (parentIndex index)

/-- `malloc_2` -/
def malloc2 (platform : Platform) (grant : Nat → Bool) (request : Nat)
    (heap : Heap) : Option (Nat × Heap) :=
  allocate platform grant
    (fun bucket heap =>
      lowerLoop (growRound platform grant) bucket (heap.bucketLimit - bucket)
        heap)
    (claimBlock platform grant parentIncStatus markUsed) request heap

/-- A round of the loop of `free_2` up to the test whether to stop. -/
def settle (i bucket : Nat) (heap : Heap) : Option (Bool × Heap) := do
  let heap ← nodeSetStatus heap i unused
  let parentI := parentIndex i
  let leftChild := wrap (parentI * 2 + 1)
  let otherChild := if i = leftChild then wrap (parentI * 2 + 2) else leftChild
  let buddyStatus ← getNodeStatus heap otherChild
  if buddyStatus ≠ unused ∨ bucket = heap.bucketLimit then
    let heap ← parentDecStatus heap i
    some (true, heap)
  else
    some (false, heap)

/-- `free_2` -/
def free2 (platform : Platform) (ptr : Nat) (heap : Heap) : Option Heap :=
  if ptr = 0 then
    some heap
  else do
    let bucket ← bucketForAllocedPointer heap ptr
    giveBack platform settle ptr bucket heap

/-- The two functions as an allocator. -/
def allocator (platform : Platform) : Allocator where
  malloc := malloc2 platform
  free := free2 platform
  header := 0
  total request := request

variable {platform : Platform} {grant : Nat → Bool} {heap heap' : Heap}
  {arena : Arena} {marked : Set Nat} {status status' : Nat → Nat}
  {n b c m l limit : Nat}

/-! ## Results are results of the source -/

theorem below_filter {α : Type} (x : Option α) (p : α → Bool) :
    Checked.Below (x.filter p) x := by
  intro a ha
  exact Option.eq_some_of_filter_eq_some ha

theorem settle_below (i bucket : Nat) (heap : Heap) :
    Checked.Below (settle i bucket heap) (Malloc2.settle i bucket heap) := by
  unfold settle Malloc2.settle
  refine Checked.Below.bind (Checked.Below.refl _) fun heap₁ => ?_
  refine Checked.Below.bind (Checked.Below.refl _) fun status => ?_
  refine Checked.Below.ite ?_ (Checked.Below.refl _)
  exact Checked.Below.bind (below_filter _ _) fun heap₂ => Checked.Below.refl _

theorem malloc2_below (request : Nat) (heap : Heap) :
    Checked.Below (malloc2 platform grant request heap)
      (Malloc2.malloc2 platform grant request heap) := by
  unfold malloc2 Malloc2.malloc2 allocate
  refine Checked.Below.ite (Checked.Below.refl _)
    (Checked.Below.bind (Checked.Below.refl _) fun heap₁ => ?_)
  refine Checked.Below.bind (Checked.Below.refl _) fun bucket => ?_
  refine Checked.searchLoop_below (fun b heap₂ => Checked.Below.refl _)
    (fun b ptr heap₂ => ?_) _ _
  exact Checked.claimBlock_below (fun _ _ => below_filter _ _)
    (fun _ _ _ => Checked.Below.refl _) _ _ _ _

theorem free2_below (ptr : Nat) (heap : Heap) :
    Checked.Below (free2 platform ptr heap) (Malloc2.free2 platform ptr heap) := by
  unfold free2 Malloc2.free2 giveBack
  refine Checked.Below.ite (Checked.Below.refl _)
    (Checked.Below.bind (Checked.Below.refl _) fun bucket => ?_)
  refine Checked.Below.bind (Checked.Below.refl _) fun i => ?_
  exact Checked.Below.bind (Checked.mergeLoop_below settle_below _ _ _ _)
    fun outcome => Checked.Below.refl _

theorem weaker (platform : Platform) :
    Checked.Weaker (allocator platform) (allocator2 platform) where
  malloc _ := malloc2_below
  free := free2_below
  usable live := by
    simp only [Allocator.usable, Allocator.blockBytes, allocator, allocator2]

/-! ## The tests pass -/

/-- A change of one status to an enumerator is tidy. -/
theorem tidy_of_count (hm : 1 ≤ m) (hlt : m < 2 ^ 27)
    (hothers : ∀ k, 1 ≤ k → k ≠ m → count status' k = count heap.nodeStatus k)
    (hself : count status' m ≤ 2) :
    Tidy heap { heap with nodeStatus := status' } (m - 1) := by
  constructor
  · intro k hk hne
    have hget : ∀ heap : Heap, getNodeStatus heap (4 * ((m - 1) / 4) + k) =
        some (count heap.nodeStatus (4 * ((m - 1) / 4) + k + 1)) := fun heap =>
      getNodeStatus_eq heap (n := 4 * ((m - 1) / 4) + k + 1) (by omega) (by omega)
    rw [hget, hget]
    exact congrArg some (hothers _ (by omega) (by omega))
  · rw [getNodeStatus_eq _ hm (by omega)]
    change some (count status' m) ∈ [some 0, some 1, some 2]
    generalize count status' m = st at hself
    have hcases : st = 0 ∨ st = 1 ∨ st = 2 := by omega
    simpa using hcases

theorem parentIncStatus_eq (hbytes : Bytes heap.nodeStatus) (hn : 2 ≤ n)
    (hlt : n < 2 ^ 28) (hroom : count heap.nodeStatus (n / 2) ≤ 1) :
    parentIncStatus heap (n - 1) = Malloc2.parentIncStatus heap (n - 1) := by
  unfold parentIncStatus
  rw [Malloc2.parentIncStatus_eq heap hn hlt, parentIndex_eq hn (by omega)]
  refine Option.filter_some_pos (decide_eq_true (tidy_of_count (by omega) (by omega)
    (fun k hk hne => ?_) ?_))
  · exact count_incCount_of_ne hbytes (Or.inr (by omega)) hk (by omega) hne
  · rw [count_incCount_self hbytes (by omega)]
    omega

theorem parentDecStatus_eq (hbytes : Bytes heap.nodeStatus) (hn : 2 ≤ n)
    (hlt : n < 2 ^ 28) (hpos : 0 < count heap.nodeStatus (n / 2))
    (hle : count heap.nodeStatus (n / 2) ≤ 2) :
    parentDecStatus heap (n - 1) = Malloc2.parentDecStatus heap (n - 1) := by
  unfold parentDecStatus
  rw [Malloc2.parentDecStatus_eq heap hn hlt, parentIndex_eq hn (by omega)]
  refine Option.filter_some_pos (decide_eq_true (tidy_of_count (by omega) (by omega)
    (fun k hk hne => ?_) ?_))
  · exact count_decCount_of_ne hbytes (Or.inr hpos) hk (by omega) hne
  · rw [count_decCount_self hbytes hpos]
    omega

/-! ## Node `1` -/

/-- Node `1` counts no more than its children in use. -/
def Bounded (status : Nat → Nat) (limit : Nat) (marked : Set Nat) : Prop :=
  count status 1 ≤ useCount (InUse marked (2 ^ limit)) 1

/-- What `node_status` says between calls. -/
structure Exact (status : Nat → Nat) (limit : Nat) (marked : Set Nat) : Prop where
  rooted : Rooted status limit marked
  bounded : Bounded status limit marked

/-- What `node_status` says while a block is being handed out. -/
structure Opening (status : Nat → Nat) (limit : Nat) (marked : Set Nat) (n : Nat) :
    Prop where
  counts : Counts status limit (insert n marked) n
  opened : 2 ≤ n → count status n = unused
  first : FirstCounts status limit (insert n marked)
  bounded : Bounded status limit (insert n marked)

/-- Freeing down to the given nodes counts a root that has been counted, and the tree
has not grown to its full size if it is left empty. -/
def Countable (status : Nat → Nat) (limit : Nat) (marked : Set Nat) : Prop :=
  marked ≠ ∅ ∨ limit ≠ 0 ∧ count status (2 ^ limit / 2) ≠ unused

/-- What `node_status` says while a block is being given back. -/
structure Closing (status : Nat → Nat) (limit : Nat) (marked : Set Nat) (n : Nat) :
    Prop where
  counts : Counts status limit (insert n marked) n
  countable : Countable status limit marked
  first : FirstCounts status limit (insert n marked)
  bounded : Bounded status limit (insert n marked)

theorem useCount_empty (limit n : Nat) : useCount (InUse ∅ (2 ^ limit)) n = 0 :=
  useCount_eq_zero_iff.mpr ⟨not_inUse_empty, not_inUse_empty⟩

/-- An empty tree of any height. -/
theorem exact_empty (limit : Nat) (hlimit : limit < 28) : Exact (fun _ => 0) limit ∅ where
  rooted := ⟨Counts.initial.lift hlimit, fun _ => count_zero 1,
    FirstCounts.of_empty (count_zero 1)⟩
  bounded := by
    rw [Bounded, count_zero]
    exact Nat.zero_le _

theorem Exact.initial : Exact (fun _ => 0) 27 ∅ := exact_empty 27 (by omega)

/-- An empty tree has no counts. -/
theorem Bounded.idle (h : Bounded status limit ∅) : count status 1 = unused := by
  rw [Bounded, useCount_empty] at h
  exact Nat.le_zero.mp h

/-- No node has counted more than its children in use, except a taken one. -/
theorem count_le_useCount {current : Nat} (hcounts : Counts status limit marked current)
    (hbounded : Bounded status limit marked) (hm : 1 ≤ m) (hlt : m < 2 ^ 28)
    (hmem : m ∉ marked) (hne : m ≠ current) :
    count status m ≤ useCount (InUse marked (2 ^ limit)) m := by
  by_cases hone : m = 1
  · rw [hone]
    exact hbounded
  · by_cases hroot : m = 2 ^ limit / 2
    · rw [hroot]
      exact hcounts.parent (by omega)
    · exact (hcounts.inner m (by omega) hlt hmem hne hroot).le

/-- A node that comes into use, and its parent that counts it. -/
theorem Bounded.take {marked' : Set Nat} (h : Bounded status limit marked)
    (hbytes : Bytes status)
    (hmore : OneMore (InUse marked (2 ^ limit)) (InUse marked' (2 ^ limit)) n)
    (hn : 2 ≤ n) (hroom : count status (n / 2) ≤ 1) :
    Bounded (incCount status (n / 2)) limit marked' := by
  unfold Bounded at h ⊢
  by_cases hone : n / 2 = 1
  · have huse := useCount_half hmore hn
    rw [hone] at huse hroom ⊢
    rw [count_incCount_self hbytes (by omega), huse]
    omega
  · rw [count_incCount_of_ne hbytes (Or.inr (by omega)) (le_refl 1) (by omega) (by omega),
      useCount_of_ne hmore (by omega)]
    exact h

/-- A node that goes out of use, and its parent that counts it out. -/
theorem Bounded.give {marked' : Set Nat} (h : Bounded status limit marked')
    (hbytes : Bytes status)
    (hmore : OneMore (InUse marked (2 ^ limit)) (InUse marked' (2 ^ limit)) c)
    (hc : 2 ≤ c) (hpos : 0 < count status (c / 2)) :
    Bounded (decCount (setCount status c unused) (c / 2)) limit marked := by
  have hcleared : Bytes (setCount status c unused) := hbytes.setCount (by simp)
  have hsame : ∀ m, 1 ≤ m → m ≠ c →
      count (setCount status c unused) m = count status m := fun m hm hne =>
    count_setCount_of_ne hbytes (by simp) hm (by omega) hne
  have hpos' : 0 < count (setCount status c unused) (c / 2) := by
    rwa [hsame _ (by omega) (by omega)]
  unfold Bounded at h ⊢
  by_cases hone : c / 2 = 1
  · have huse := useCount_half hmore hc
    rw [hone] at huse hpos' ⊢
    rw [count_decCount_self hcleared hpos', hsame 1 (le_refl 1) (by omega)]
    omega
  · rw [count_decCount_of_ne hcleared (Or.inr hpos') (le_refl 1) (by omega) (by omega),
      hsame 1 (le_refl 1) (by omega), ← useCount_of_ne hmore (by omega)]
    exact h

/-! ## The parts of the allocator -/

theorem Exact.grow {grant : Nat → Bool} (h : Exact status arena.limit marked)
    (hshape : arena.Shape marked) (hlimit : arena.limit = l + 1)
    (hcounts : Counts status' (arena.grow grant).2.limit marked 0)
    (hstatus : status' = status ∧
        (marked = ∅ ∨ (arena.grow grant).2.limit = arena.limit) ∨
      marked ≠ ∅ ∧ (arena.grow grant).2.limit = l ∧
        status' = setCount status (2 ^ l) split) :
    Exact status' (arena.grow grant).2.limit marked := by
  refine ⟨h.rooted.grow hshape hlimit hcounts hstatus, ?_⟩
  have hbytes := h.rooted.counts.bytes
  rcases hstatus with ⟨rfl, rfl | hsame⟩ | ⟨hmarked, hnext, rfl⟩
  · rw [Bounded, h.bounded.idle]
    exact Nat.zero_le _
  · rw [hsame]
    exact h.bounded
  · have hocc := hshape.occupied_root hmarked
    have hdouble : 2 ^ arena.limit = 2 * 2 ^ l := by
      rw [hlimit, Nat.pow_succ, Nat.mul_comm]
    have hpos := Nat.one_le_two_pow (n := l)
    have hmore := hshape.marking.oneMore_root_half (by omega) hocc
    rw [show 2 ^ arena.limit / 2 = 2 ^ l by omega] at hmore
    have hbound := h.bounded
    unfold Bounded at hbound ⊢
    rw [hnext]
    -- Only the count of node 1 is bounded here, and the new root may be that node or its
    -- child.
    by_cases hl : 2 ^ l = 1
    · have honly := useCount_root_half hdouble hocc
      rw [hl] at honly hmore ⊢
      rw [count_setCount_self hbytes (by simp), useCount_of_ne hmore (by omega), honly]
      exact le_refl 1
    · rw [count_setCount_of_ne hbytes (by simp) (le_refl 1) (by omega) (Ne.symm hl)]
      by_cases htwo : 2 ^ l / 2 = 1
      · have huse := useCount_half hmore (by omega)
        rw [htwo] at huse
        omega
      · rw [useCount_of_ne hmore (Ne.symm htwo)]
        exact hbound

/-- Handing out a free block opens its node. -/
theorem Exact.take (h : Exact heap.nodeStatus arena.limit marked)
    (hshape : arena.Shape marked) (hn : n ∈ arena.free b) :
    ∃ status, markUnlessFirst parentIncStatus heap (n - 1) =
        some { heap with nodeStatus := status } ∧
      Opening status arena.limit marked n := by
  obtain ⟨hvacant, hb⟩ := (hshape.free_iff b n).mp hn
  obtain ⟨-, -, hlt⟩ := hshape.free_level hn
  have hnlt := node_lt hb (show b < bucketCount by simpa using hlt)
  have hroot := Nat.one_le_two_pow (n := arena.limit)
  have hmore := hvacant.oneMore hroot
  have hpos := hb.pos
  have hbytes := h.rooted.counts.bytes
  obtain ⟨status, hmark, ⟨hcounts, hopened⟩, hfirst⟩ := h.rooted.take hshape hn
  by_cases hone : n = 1
  · refine ⟨status, ?_, hcounts, hopened, hfirst, ?_⟩
    · rw [markUnlessFirst, if_neg (by omega)] at hmark ⊢
      exact hmark
    · rw [markUnlessFirst, if_neg (by omega), Option.some.injEq] at hmark
      have hsame : heap.nodeStatus = status := congrArg Heap.nodeStatus hmark
      rw [Bounded, ← hsame, useCount_of_ne hmore (by omega)]
      exact h.bounded
  · -- The parent has counted at most one child: this one is not in use.
    have hroom : count heap.nodeStatus (n / 2) ≤ 1 := by
      have hle := count_le_useCount h.rooted.counts h.bounded (m := n / 2) (by omega)
        (by omega) (fun hmem => hvacant.not_within_marked hshape.marking hroot hmem
          (within_half n)) (by omega)
      have huse := useCount_half hmore (by omega)
      have hmax := useCount_le (InUse (insert n marked) (2 ^ arena.limit)) (n / 2)
      omega
    have hwatched := parentIncStatus_eq hbytes (by omega) hnlt hroom
    rw [markUnlessFirst, if_pos (by omega)] at hmark
    refine ⟨status, ?_, hcounts, hopened, hfirst, ?_⟩
    · rw [markUnlessFirst, if_pos (by omega), hwatched, hmark]
    · rw [Malloc2.parentIncStatus_eq _ (by omega) hnlt, Option.some.injEq] at hmark
      have hsame : incCount heap.nodeStatus (n / 2) = status :=
        congrArg Heap.nodeStatus hmark
      rw [← hsame]
      exact h.bounded.take hbytes hmore (by omega) hroom

/-- Handing out the left half of a node opens the half. -/
theorem Opening.split (hopening : Opening heap.nodeStatus arena.limit marked n)
    (hshape : arena.Shape (insert n marked)) (hn : n ∉ marked) (hb : AtLevel b n)
    (hlt : b + 1 < 28) :
    ∃ status, parentIncStatus heap (2 * n - 1) =
        some { heap with nodeStatus := status } ∧
      Opening status arena.limit marked (2 * n) := by
  have hpos := hb.pos
  have hhalf : 2 * n / 2 = n := by omega
  have hchild := node_lt hb.left (show b + 1 < bucketCount by simpa using hlt)
  have hmore := Marking.oneMore_child (c := 2 * n)
    (by rw [hhalf]; exact hshape.marking) (by rwa [hhalf]) (by omega)
  rw [hhalf] at hmore
  have hbytes := hopening.counts.bytes
  -- Neither child of a node that has just been taken is in use.
  have hzero : count heap.nodeStatus (2 * n / 2) = 0 := by
    rw [hhalf]
    by_cases hone : n = 1
    · have hbound := hopening.bounded
      have hnone := useCount_taken hshape.marking (Set.mem_insert n marked) hpos
      rw [hone] at hnone hbound ⊢
      rw [Bounded, hnone] at hbound
      exact Nat.le_zero.mp hbound
    · exact hopening.opened (by omega)
  obtain ⟨status, hmark, ⟨hcounts, hopened⟩, hfirst⟩ := Rooted.split hshape hn hb hlt
    ⟨⟨hopening.counts, hopening.opened⟩, hopening.first⟩
  refine ⟨status, ?_, hcounts, hopened, hfirst, ?_⟩
  · rw [parentIncStatus_eq hbytes (by omega) hchild (by omega), hmark]
  · rw [Malloc2.parentIncStatus_eq _ (by omega) hchild, Option.some.injEq] at hmark
    have hsame : incCount heap.nodeStatus (2 * n / 2) = status :=
      congrArg Heap.nodeStatus hmark
    rw [← hsame]
    exact hopening.bounded.take hbytes hmore (by omega) (by omega)

/-- Setting the status of the block completes the statuses. -/
theorem Opening.finish {kept guarded : Set Nat}
    (hopening : Opening heap.nodeStatus arena.limit marked n)
    (hsim : Sim platform heap arena (insert n marked)) (hb : AtLevel b n)
    (hhighest : 1 ≤ b) (ptr : Nat) :
    ∃ heap', markUsed ptr (n - 1) heap = some (ptr, heap') ∧
      Sim platform heap' arena (insert n marked) ∧
      Effect platform kept guarded true heap heap' ∧
      Exact heap'.nodeStatus arena.limit (insert n marked) := by
  obtain ⟨heap', hmark, hsim', heffect, hcounts, hstatus⟩ :=
    markUsed_spec hsim hb hhighest hopening.counts ptr
  have htwo := (Nat.pow_le_pow_right (show 0 < 2 by omega) hhighest).trans hb.1
  have hsame : count heap'.nodeStatus 1 = count heap.nodeStatus 1 := by
    rw [hstatus, count_setCount_of_ne hopening.counts.bytes (by simp) (le_refl 1)
      (by omega) (by omega)]
  refine ⟨heap', hmark, hsim', heffect, ⟨hcounts, fun hempty => ?_, ?_⟩, ?_⟩
  · exact absurd hempty (Set.insert_nonempty _ _).ne_empty
  · exact hopening.first.of_same hsame
  · rw [Bounded, hsame]
    exact hopening.bounded

/-- The parent has counted the node that is given back. -/
theorem Closing.counted (hclosing : Closing status arena.limit marked c)
    (hshape : arena.Shape (insert c marked)) (hc : c ∉ marked) (htwo : 2 ≤ c) :
    0 < count status (c / 2) ∧ count status (c / 2) ≤ 2 := by
  have hself := Set.mem_insert c marked
  have hlt := hshape.depth c hself
  have hin := hshape.marking.inUse hself
  have hhalf := Counts.half_not_mem hshape.marking htwo
  have hbelow := hshape.marking.below c hself
  have hmax := useCount_le (InUse (insert c marked) (2 ^ arena.limit)) (c / 2)
  -- The node itself is in use, so its parent counts at least one.
  have hone : 1 ≤ useCount (InUse (insert c marked) (2 ^ arena.limit)) (c / 2) := by
    rw [Nat.one_le_iff_ne_zero, Ne, useCount_eq_zero_iff]
    rintro ⟨hleft, hright⟩
    have hchild : c = 2 * (c / 2) ∨ c = 2 * (c / 2) + 1 := by omega
    rcases hchild with heq | heq
    · exact hleft (heq ▸ hin)
    · exact hright (heq ▸ hin)
  have hle := count_le_useCount hclosing.counts hclosing.bounded (m := c / 2) (by omega)
    (by omega) hhalf (by omega)
  refine ⟨?_, hle.trans hmax⟩
  rcases hbelow.eq_or_half with hroot | habove
  · -- The root is given back: nothing else is taken.
    have hempty : marked = ∅ := by
      refine Set.eq_empty_iff_forall_notMem.mpr fun m hm => hc ?_
      have hm' := Set.mem_insert_of_mem c hm
      have hwithin := hshape.marking.below m hm'
      rw [← hroot] at hwithin
      exact hshape.marking.apart m hm' c hself hwithin ▸ hm
    rcases hclosing.countable with hne | ⟨-, hcount⟩
    · exact absurd hempty hne
    · rw [← hroot] at hcount
      exact Nat.pos_of_ne_zero hcount
  · by_cases hfirst : c / 2 = 1
    · have hzero : arena.limit = 0 := by
        have hle' := habove.le
        rw [hfirst] at hle'
        by_contra hne
        have hlarge : 2 ^ 1 ≤ 2 ^ arena.limit := Nat.pow_le_pow_right (by omega) (by omega)
        omega
      rw [hfirst] at hone ⊢
      rw [hclosing.first hzero]
      exact hone
    · rw [hclosing.counts.inner _ (by omega) (by omega) hhalf (by omega)
        (ne_half_root habove)]
      exact hone

theorem settle_eq (hclosing : Closing heap.nodeStatus arena.limit marked c)
    (hshape : arena.Shape (insert c marked)) (hc : c ∉ marked) (htwo : 2 ≤ c)
    (bucket : Nat) :
    settle (c - 1) bucket heap = Malloc2.settle (c - 1) bucket heap := by
  have hlt := hshape.depth c (Set.mem_insert c marked)
  obtain ⟨hpos, hle⟩ := hclosing.counted hshape hc htwo
  have hbytes : Bytes (setCount heap.nodeStatus c unused) :=
    hclosing.counts.bytes.setCount (by simp)
  have hsame : count (setCount heap.nodeStatus c unused) (c / 2) =
      count heap.nodeStatus (c / 2) :=
    count_setCount_of_ne hclosing.counts.bytes (by simp) (by omega) (by omega) (by omega)
  have hdec : parentDecStatus
        { heap with nodeStatus := setCount heap.nodeStatus c unused } (c - 1) =
      Malloc2.parentDecStatus
        { heap with nodeStatus := setCount heap.nodeStatus c unused } (c - 1) :=
    parentDecStatus_eq hbytes htwo hlt (hsame ▸ hpos) (hsame ▸ hle)
  unfold settle Malloc2.settle
  rw [nodeSetStatus_eq heap (by omega) hlt]
  simp only [Option.bind_eq_bind, Option.bind_some, hdec]

/-- A round of `free_2`. -/
theorem Closing.settle (hclosing : Closing heap.nodeStatus arena.limit marked c)
    (hshape : arena.Shape (insert c marked)) (hc : c ∉ marked) (hb : AtLevel (b + 1) c)
    (hlimit : heap.bucketLimit = arena.limit) :
    ∃ status, Watched.settle (c - 1) (b + 1) heap =
        some (decide (b + 1 = arena.limit ∨ sibling c ∉ arena.free (b + 1)),
          { heap with nodeStatus := status }) ∧
      (b + 1 = arena.limit ∨ sibling c ∉ arena.free (b + 1) →
        Exact status arena.limit marked) ∧
      (¬ (b + 1 = arena.limit ∨ sibling c ∉ arena.free (b + 1)) →
        Closing status arena.limit marked (c / 2)) := by
  have htwo := hb.two_le
  have hbytes := hclosing.counts.bytes
  obtain ⟨hpos, -⟩ := hclosing.counted hshape hc htwo
  have hbelow := hshape.marking.below c (Set.mem_insert c marked)
  have hsame : ∀ m, 1 ≤ m → m ≠ c → count (setCount heap.nodeStatus c unused) m =
      count heap.nodeStatus m := fun m hm hne =>
    count_setCount_of_ne hbytes (by simp) hm (by omega) hne
  have hfreeable : Freeable heap.nodeStatus arena.limit marked :=
    hclosing.countable.imp id fun hcount => Or.inr hcount.2
  obtain ⟨status, hsettle, hstop, hgo⟩ :=
    settle_spec hshape hc hb hlimit hclosing.counts hfreeable
  refine ⟨status, by rw [settle_eq hclosing hshape hc htwo, hsettle], fun hdone => ?_,
    fun hdone => ?_⟩
  · obtain ⟨hcounts, rfl⟩ := hstop hdone
    have hmore := hshape.oneMore_give hc hb hdone
    have hbounded := hclosing.bounded.give hbytes hmore htwo hpos
    refine ⟨⟨hcounts, ?_, ?_⟩, hbounded⟩
    · rintro rfl
      exact hbounded.idle
    · exact hclosing.first.give hclosing.counts hmore htwo fun _ => hpos
  · obtain ⟨⟨hcounts, -⟩, rfl⟩ := hgo hdone
    have hfree : sibling c ∈ arena.free (b + 1) := by tauto
    have hnot : b + 1 ≠ arena.limit := by tauto
    obtain ⟨hmerged, hhalf⟩ := hshape.merge hc hb hfree
    have hmore := hshape.oneMore_merge hc hb hfree
    -- Node `1` is only reached when it is the root and nothing else is live.
    have hone : c / 2 ≠ 1 := by
      intro hone
      rw [hone] at hmerged hhalf
      have hroot : 2 ^ arena.limit = 1 :=
        (hmerged.marking.below 1 (Set.mem_insert 1 marked)).eq_one Nat.one_le_two_pow
      rcases hclosing.countable with hne | ⟨hzero, -⟩
      · exact hne (marked_empty hmerged.marking hhalf)
      · have hlarge : 2 ^ 1 ≤ 2 ^ arena.limit :=
          Nat.pow_le_pow_right (by omega) (by omega)
        omega
    have hfirst : count (setCount heap.nodeStatus c unused) 1 =
        count heap.nodeStatus 1 := hsame 1 (le_refl 1) (by omega)
    refine ⟨hcounts, ?_, fun hzero => ?_, ?_⟩
    · refine hclosing.countable.imp id fun ⟨hzero, hcount⟩ => ⟨hzero, ?_⟩
      have hlarge : 2 ^ 1 ≤ 2 ^ arena.limit := Nat.pow_le_pow_right (by omega) (by omega)
      rw [hsame _ (by omega) (ne_half_root hbelow).symm]
      exact hcount
    · rw [hfirst, hclosing.first hzero, useCount_of_ne hmore hone.symm]
    · have hbound := hclosing.bounded
      rw [Bounded, useCount_of_ne hmore hone.symm] at hbound
      rw [Bounded, hfirst]
      exact hbound

/-- The root of the whole tree is not given back. -/
theorem Closing.root (hclosing : Closing status arena.limit marked 1)
    (hshape : arena.Shape (insert 1 marked)) (hone : 1 ∉ marked) :
    Exact status arena.limit marked := by
  have hroot : 2 ^ arena.limit = 1 :=
    (hshape.marking.below 1 (Set.mem_insert 1 marked)).eq_one Nat.one_le_two_pow
  rcases hclosing.countable with hne | ⟨hzero, -⟩
  · exact absurd (marked_empty hshape.marking hone) hne
  · have hlarge : 2 ^ 1 ≤ 2 ^ arena.limit := Nat.pow_le_pow_right (by omega) (by omega)
    omega

/-- `free_2` finds the bucket of a live block. -/
theorem free2_eq {request : Nat} (hsim : Sim platform heap arena marked)
    (hcounts : Counts heap.nodeStatus arena.limit marked 0) (hn : n ∈ marked)
    (hhighest : 1 ≤ bucketOf request) (hb : AtLevel (bucketOf request) n) :
    free2 platform (nodeAddr heap.basePtr (bucketOf request) n) heap =
      giveBack platform settle
        (nodeAddr heap.basePtr (bucketOf request) n) (bucketOf request) heap := by
  have hbucket := bucketForAllocedPointer_spec hcounts hsim hn hb hhighest
  unfold free2
  rw [if_neg (hsim.mapped.nodeAddr_ne_zero _ _)]
  simp only [hbucket, Option.bind_eq_bind, Option.bind_some]

theorem malloc_eq (platform : Platform) (grant : Nat → Bool) (request : Nat)
    (heap : Heap) :
    (allocator platform).malloc grant request heap =
      allocate platform grant
        (fun bucket heap => lowerLoop (growRound platform grant) bucket
          (heap.bucketLimit - bucket) heap)
        (claimBlock platform grant parentIncStatus markUsed) request heap := rfl

/-- The bookkeeping of `malloc_2` and `free_2` with watched counters. -/
def bookkeeping (platform : Platform) : Bookkeeping platform where
  allocator := allocator platform
  round := growRound platform
  mark := parentIncStatus
  finish _ := markUsed
  settle := settle
  highest := 1
  Tracked := Exact
  Opening := Opening
  Closing := Closing
  Freeable := Countable
  Label _ _ _ := True
  header_lt := header_lt platform
  highest_le := Nat.zero_lt_one
  finish_first _ _ ptr heap := markUsed_first ptr heap
  label_congr _ hlabel := hlabel
  tracked_zero := Exact.initial
  malloc_eq := malloc_eq platform
  free_eq hsim hexact hn _ hhighest hb _ :=
    free2_eq hsim hexact.rooted.counts hn hhighest hb
  round_spec hsim hexact hlimit hkept hguarded :=
    have ⟨heap', hround, hsim', heffect, hcounts, hstatus⟩ :=
      growRound_spec hsim hexact.rooted.counts hlimit hkept hguarded
    ⟨heap', hround, hsim', heffect,
      hexact.grow hsim.shape hlimit hcounts hstatus⟩
  mark_take hshape hn hexact := hexact.take hshape hn
  mark_split hshape hn hb hlt hopening := hopening.split hshape hn hb hlt
  finish_spec hsim _ hb hhighest _ hopening _ _ :=
    have ⟨heap', hmark, hsim', heffect, hexact⟩ :=
      hopening.finish hsim hb hhighest _
    ⟨heap', hmark, hsim', heffect, hexact, trivial⟩
  closing _ _ hexact hcountable :=
    ⟨hexact.rooted.counts.exempt _, hcountable, hexact.rooted.first, hexact.bounded⟩
  settle_spec hshape hc hb hlimit hclosing := hclosing.settle hshape hc hb hlimit
  closing_root hshape hone hclosing := hclosing.root hshape hone

end Watched
end Malloc2
end BuddyAlloc
end OsStuff
