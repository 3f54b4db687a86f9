import Mathlib.Logic.Relation
import OsStuff.BuddyAlloc.Malloc1Runs

/-!
# The numbering of the nodes

Both allocators keep no tree but compute with node numbers: `ptr_for_node` and
`node_for_ptr` go between a number and an address, `(i * 2) + 1` and
`(i * 2) + 2` down, `(i - 1) / 2` up and `((i - 1) ^ 1) + 1` across.  This
module shows that these computations are those of a tree of blocks, and that
none of them wraps on a node of the tree.
-/

namespace OsStuff
namespace BuddyAlloc

open Library Library.DyadicTree

/-! ## Numbers -/

/-- `index` is a node number of `bucket`. -/
def IndexOf (bucket index : Nat) : Prop :=
  2 ^ bucket - 1 ≤ index ∧ index ≤ 2 ^ (bucket + 1) - 2

instance (bucket index : Nat) : Decidable (IndexOf bucket index) :=
  inferInstanceAs (Decidable (_ ∧ _))

/-- `(index * 2) + 1` -/
def leftIndex (index : Nat) : Nat := wrap (index * 2 + 1)

/-- `(index * 2) + 2` -/
def rightIndex (index : Nat) : Nat := wrap (index * 2 + 2)

/-- A step to the parent.  The loops of the source end at node `0`, which has
none. -/
def ParentStep (index parent : Nat) : Prop :=
  index ≠ 0 ∧ parentIndex index = parent

/-- `j` is reached from `i` by parent steps. -/
def Climbs (i j : Nat) : Prop := Relation.ReflTransGen ParentStep i j

variable {platform : Platform} {heap : Heap} {base b d i j m request : Nat}

theorem indexOf_iff : IndexOf b i ↔ AtLevel b (i + 1) := by
  have hpos := Nat.one_le_two_pow (n := b)
  unfold IndexOf AtLevel
  rw [Nat.pow_succ]
  omega

theorem IndexOf.atLevel (hi : IndexOf b i) : AtLevel b (i + 1) :=
  indexOf_iff.mp hi

theorem IndexOf.lt (hi : IndexOf b i) (hb : b < bucketCount) :
    i + 1 < 2 ^ 28 :=
  node_lt hi.atLevel hb

theorem leftIndex_eq (hi : i + 1 < 2 ^ 62) : leftIndex i = 2 * (i + 1) - 1 := by
  unfold leftIndex
  rw [wrap_of_lt (by omega)]
  omega

theorem rightIndex_eq (hi : i + 1 < 2 ^ 62) : rightIndex i = 2 * (i + 1) := by
  unfold rightIndex
  rw [wrap_of_lt (by omega)]
  omega

theorem parentIndex_succ (hi : i ≠ 0) (hlt : i + 1 < 2 ^ 64) :
    parentIndex i + 1 = (i + 1) / 2 := by
  have hparent := parentIndex_eq (n := i + 1) (by omega) hlt
  rw [Nat.add_sub_cancel] at hparent
  omega

/-- Parent steps lead to the nodes above. -/
theorem climbs_iff (hi : i + 1 < 2 ^ 64) : Climbs i j ↔ Within (i + 1) (j + 1) := by
  constructor
  · intro hclimbs
    induction hclimbs with
    | refl => exact within_refl _
    | tail _ hstep ih =>
        obtain ⟨hne, rfl⟩ := hstep
        have hle := ih.le
        rw [parentIndex_succ hne (by omega)]
        exact ih.trans (within_half _)
  · -- The number falls with every step, so the induction is on it.
    induction i using Nat.strong_induction_on with
    | _ i ih =>
        intro hwithin
        rcases hwithin.eq_or_half with heq | hhalf
        · obtain rfl : i = j := by omega
          exact Relation.ReflTransGen.refl
        · have hle := hhalf.le
          have hne : i ≠ 0 := by omega
          have hparent := parentIndex_succ hne hi
          rw [← hparent] at hhalf
          exact Relation.ReflTransGen.head ⟨hne, rfl⟩
            (ih (parentIndex i) (by omega) (by omega) hhalf)

/-! ## Blocks -/

/-- The first half of a block. -/
def Block.left (block : Block) : Block := ⟨block.start, block.size / 2⟩

/-- The second half of a block. -/
def Block.right (block : Block) : Block :=
  ⟨block.start + block.size / 2, block.size / 2⟩

/-- The part of the arena that node `index` of `bucket` stands for. -/
def blockOf (base bucket index : Nat) : Block where
  start := base + (index + 1 - 2 ^ bucket) * 2 ^ (maxAllocLog2 - bucket)
  size := 2 ^ (maxAllocLog2 - bucket)

theorem blockOf_eq (hi : IndexOf b i) : blockOf base b i = nodeBlock base (i + 1) :=
  (nodeBlock_eq hi.atLevel).symm

/-- The children of a node have the halves of its block. -/
theorem blockOf_children (base : Nat) (hi : IndexOf b i) (hb : b < bucketCount) :
    blockOf base (b + 1) (leftIndex i) = (blockOf base b i).left ∧
      blockOf base (b + 1) (rightIndex i) = (blockOf base b i).right := by
  have hlt := hi.lt hb
  have hb' : b < 28 := by simpa using hb
  obtain ⟨hleft, hright, hsize⟩ := Bookkeeping.offset_children hi.atLevel (by omega)
  have hhalf : 2 ^ (31 - b) / 2 = 2 ^ (31 - (b + 1)) := by omega
  unfold offset at hleft hright
  rw [leftIndex_eq (by omega), rightIndex_eq (by omega)]
  simp only [blockOf, Block.left, Block.right, maxAllocLog2, Block.mk.injEq, hhalf,
    Nat.add_right_inj, and_true]
  refine ⟨?_, ?_⟩
  · rw [Nat.sub_add_cancel (by omega)]
    exact hleft
  · rw [Nat.add_assoc, Nat.add_right_inj]
    exact hright

theorem blockOf_encloses_iff (hi : IndexOf b i) (hb : b < bucketCount)
    (hj : IndexOf d j) (hd : d < bucketCount) :
    (blockOf base b i).Encloses (blockOf base d j) ↔ Climbs j i := by
  rw [blockOf_eq hi, blockOf_eq hj,
    nodeBlock_encloses _ hi.atLevel (by simpa using hb) hj.atLevel (by simpa using hd),
    climbs_iff (by have := hj.lt hd; omega)]

/-! ## What the numbers stand for -/

/-- `(index * 2) + 1` and `(index * 2) + 2` are the halves of a node of `bucket`,
and `(index - 1) / 2` leads back. -/
structure Halved (heap : Heap) (bucket index : Nat) : Prop where
  left_eq : leftIndex index = 2 * index + 1
  right_eq : rightIndex index = 2 * index + 2
  left_index : IndexOf (bucket + 1) (leftIndex index)
  right_index : IndexOf (bucket + 1) (rightIndex index)
  left_ptr : ptrForNode heap (leftIndex index) (bucket + 1) =
    some (blockOf heap.basePtr bucket index).left.start
  right_ptr : ptrForNode heap (rightIndex index) (bucket + 1) =
    some (blockOf heap.basePtr bucket index).right.start
  left_block : blockOf heap.basePtr (bucket + 1) (leftIndex index) =
    (blockOf heap.basePtr bucket index).left
  right_block : blockOf heap.basePtr (bucket + 1) (rightIndex index) =
    (blockOf heap.basePtr bucket index).right
  left_parent : parentIndex (leftIndex index) = index
  right_parent : parentIndex (rightIndex index) = index

/-- `((index - 1) ^ 1) + 1` is the other child of the parent. -/
def Paired (index : Nat) : Prop :=
  index = leftIndex (parentIndex index) ∧
      siblingIndex index = rightIndex (parentIndex index) ∨
    index = rightIndex (parentIndex index) ∧
      siblingIndex index = leftIndex (parentIndex index)

/-- The node numbers are those of a tree of blocks at `base_ptr`. -/
structure Numbered (heap : Heap) : Prop where
  ptr : ∀ b i, b < bucketCount → IndexOf b i →
    ptrForNode heap i b = some (blockOf heap.basePtr b i).start ∧
      (i + 1 - 2 ^ b) * 2 ^ (maxAllocLog2 - b) < maxAlloc
  node : ∀ b i y, b < bucketCount → IndexOf b i →
    (blockOf heap.basePtr b i).Contains y → nodeForPtr heap y b = some i
  halves : ∀ b i, b < bucketCount → IndexOf b i → Halved heap b i
  pairs : ∀ b i, b + 1 < bucketCount → IndexOf (b + 1) i →
    IndexOf b (parentIndex i) ∧ IndexOf (b + 1) (siblingIndex i) ∧ Paired i
  root_alone : ∀ b i, b < bucketCount → IndexOf b i → siblingIndex 0 ≠ i
  apart : ∀ b i d j, b < bucketCount → IndexOf b i → d < bucketCount → IndexOf d j →
    ((blockOf heap.basePtr b i).Apart (blockOf heap.basePtr d j) ↔
      ¬ ((blockOf heap.basePtr b i).Encloses (blockOf heap.basePtr d j) ∨
        (blockOf heap.basePtr d j).Encloses (blockOf heap.basePtr b i)))
  nested : ∀ b i d j, b < bucketCount → IndexOf b i → d < bucketCount → IndexOf d j →
    ((blockOf heap.basePtr b i).Encloses (blockOf heap.basePtr d j) ↔ Climbs j i)

/-- The largest bucket whose blocks have `request` bytes. -/
structure Largest (request bucket : Nat) : Prop where
  bound : bucket < bucketCount
  fits : request ≤ 2 ^ (maxAllocLog2 - bucket)
  largest : ∀ c, c < bucketCount → request ≤ 2 ^ (maxAllocLog2 - c) → c ≤ bucket

/-! ## The parts -/

/-- `ptr_for_node` gives the first address of the block. -/
theorem ptrForNode_index (hsegment : heap.basePtr + maxAlloc ≤ 2 ^ 64)
    (hi : IndexOf b i) (hb : b < maxAllocLog2) :
    ptrForNode heap i b = some (blockOf heap.basePtr b i).start := by
  have hptr := ptrForNode_of_segment hsegment hi.atLevel hb
  rw [Nat.add_sub_cancel] at hptr
  simpa only [nodeAddr, offset, blockOf, maxAllocLog2] using hptr

/-- Every address of a block leads to the node. -/
theorem nodeForPtr_of_contains {y : Nat} (hi : IndexOf b i) (hb : b < bucketCount)
    (hy : (blockOf heap.basePtr b i).Contains y) : nodeForPtr heap y b = some i := by
  rw [blockOf_eq hi] at hy
  obtain ⟨x, hx, rfl, hwithin⟩ :=
    (nodeBlock_contains _ hi.atLevel (by simpa using hb)).mp hy
  have hleaf : AtLevel 31 (2 ^ 31 + x) := ⟨Nat.le_add_right _ _, by omega⟩
  have hquotient := (hwithin.levels hleaf hi.atLevel).2
  rw [nodeForPtr_add _ hb hx, hquotient, Nat.add_sub_cancel]

theorem halved (hsegment : heap.basePtr + maxAlloc ≤ 2 ^ 64) (hi : IndexOf b i)
    (hb : b < bucketCount) : Halved heap b i := by
  have hlt := hi.lt hb
  have hb' : b + 1 < maxAllocLog2 := by
    simp at hb
    simp
    omega
  obtain ⟨hleft, hright⟩ := blockOf_children heap.basePtr hi hb
  have hleftIndex : IndexOf (b + 1) (leftIndex i) := by
    rw [indexOf_iff, leftIndex_eq (by omega), Nat.sub_add_cancel (by omega)]
    exact hi.atLevel.left
  have hrightIndex : IndexOf (b + 1) (rightIndex i) := by
    rw [indexOf_iff, rightIndex_eq (by omega)]
    exact hi.atLevel.right
  have hptr : ∀ {child}, IndexOf (b + 1) child → ptrForNode heap child (b + 1) =
      some (blockOf heap.basePtr (b + 1) child).start := fun hchild =>
    ptrForNode_index hsegment hchild hb'
  have hleftEq := leftIndex_eq (i := i) (by omega)
  have hrightEq := rightIndex_eq (i := i) (by omega)
  refine ⟨by omega, by omega, hleftIndex, hrightIndex, hleft ▸ hptr hleftIndex,
    hright ▸ hptr hrightIndex, hleft, hright, ?_, ?_⟩
  · have hparent := parentIndex_succ (i := leftIndex i) (by omega) (by omega)
    omega
  · have hparent := parentIndex_succ (i := rightIndex i) (by omega) (by omega)
    omega

/-- A node below the root and its sibling are the children of the parent. -/
theorem paired (hi : IndexOf (b + 1) i) (hb : b + 1 < bucketCount) :
    IndexOf b (parentIndex i) ∧ IndexOf (b + 1) (siblingIndex i) ∧ Paired i := by
  have hlt := hi.lt hb
  have htwo := hi.atLevel.two_le
  have hparent := parentIndex_succ (i := i) (by omega) (by omega)
  have hsibling := siblingIndex_eq (n := i + 1) htwo (by omega)
  rw [Nat.add_sub_cancel] at hsibling
  have htwo' := two_le_sibling htwo
  have hleft := leftIndex_eq (i := parentIndex i) (by omega)
  have hright := rightIndex_eq (i := parentIndex i) (by omega)
  refine ⟨?_, ?_, ?_⟩
  · rw [indexOf_iff, hparent]
    exact hi.atLevel.half
  · rw [indexOf_iff, hsibling, Nat.sub_add_cancel (by omega)]
    exact hi.atLevel.sibling
  · unfold Paired
    rcases eq_children_half htwo with ⟨heven, hnext⟩ | ⟨hodd, hprev⟩
    · left
      omega
    · right
      omega

theorem largest_bucketOf (hrequest : request ≤ maxAlloc) :
    Largest request (bucketOf request) := by
  have hsize : request ≤ 2 ^ 31 := hrequest
  refine ⟨bucketOf_lt request, ?_, fun c hc hfits => ?_⟩
  · have hle := le_blockSize request
    rwa [blockSize_eq hsize] at hle
  · by_contra hlt
    exact absurd hfits (not_le.mpr ((size_lt_iff hsize hc).mpr (not_le.mp hlt)))

theorem numbered (hsegment : heap.basePtr + maxAlloc ≤ 2 ^ 64) : Numbered heap where
  ptr b i hb hi := by
    have hb' : b < 28 := by simpa using hb
    have hbound := offset_bound hi.atLevel hb
    have hpos : 0 < 2 ^ (31 - b) := by positivity
    refine ⟨ptrForNode_index hsegment hi (by simp; omega), ?_⟩
    unfold offset at hbound
    simp only [maxAllocLog2, maxAlloc]
    omega
  node b i y hb hi hy := nodeForPtr_of_contains hi hb hy
  halves b i hb hi := halved hsegment hi hb
  pairs b i hb hi := paired hi hb
  root_alone b i hb hi heq := by
    have hlt := hi.lt hb
    have hlast : siblingIndex 0 = 2 ^ 64 - 1 := by decide
    omega
  apart b i d j hb hi hd hj := by
    rw [blockOf_encloses_iff hi hb hj hd, blockOf_encloses_iff hj hd hi hb,
      blockOf_eq hi, blockOf_eq hj, nodeBlock_apart hi.atLevel (by simpa using hb)
        hj.atLevel (by simpa using hd), climbs_iff (by have := hj.lt hd; omega),
      climbs_iff (by have := hi.lt hb; omega)]
    tauto
  nested b i d j hb hi hd hj := blockOf_encloses_iff hi hb hj hd

/-- Every heap that a client of an allocator meets has its arena in the address
space. -/
theorem Refines.numbered {keeping : Bookkeeping platform} {client : Client}
    {tenancy : Tenancy} (hrefines : Refines keeping client tenancy) :
    Numbered client.heap := by
  cases harena : tenancy.arena with
  | none =>
      obtain ⟨hfresh, -⟩ := hrefines.fresh harena
      refine BuddyAlloc.numbered ?_
      rw [hfresh.base]
      decide
  | some arena =>
      exact BuddyAlloc.numbered (hrefines.running arena harena).sim.mapped.segment

/-! ## The result -/

/-- The node numbers are a faithful map of the arena, wherever it lies in the address
space, and `bucket_for_request` finds the largest bucket that fits; its index and
its size do not wrap on the way. -/
theorem node_numbering (heap : Heap) (hsegment : heap.basePtr + maxAlloc ≤ 2 ^ 64) :
    Numbered heap ∧ ∀ request, request ≤ maxAlloc →
      ∃ bucket, bucketForRequestExact request = some bucket ∧
        bucketForRequest request = some bucket ∧ Largest request bucket :=
  ⟨numbered hsegment, fun request hrequest =>
    ⟨bucketOf request, bucketForRequestExact_eq hrequest, bucketForRequest_eq hrequest,
      largest_bucketOf hrequest⟩⟩

/-- The last node of bucket 2 after the first call, and an address inside it. -/
theorem node_numbering_sample :
    ptrForNode (placeBase samplePlatform.boot) 6 2 = some (0x100000 + 3 * 2 ^ 29) ∧
      nodeForPtr (placeBase samplePlatform.boot) (0x100000 + 3 * 2 ^ 29 + 7) 2 = some 6 ∧
      Numbered (placeBase samplePlatform.boot) := by
  obtain ⟨hnumbered, -⟩ := node_numbering (placeBase samplePlatform.boot) (by decide)
  exact ⟨(hnumbered.ptr 2 6 (by decide) (by decide)).1,
    hnumbered.node 2 6 _ (by decide) (by decide) (by decide), hnumbered⟩

end BuddyAlloc
end OsStuff
