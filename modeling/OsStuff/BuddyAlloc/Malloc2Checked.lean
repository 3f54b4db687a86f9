import OsStuff.BuddyAlloc.StatusCounts
import OsStuff.BuddyAlloc.Refinement

/-!
# `malloc_2` and `free_2` with checked node indices

`node_status` has room for one status more than the tree has nodes.  The
functions here are those of `buddy_malloc_2.c` with a test at every access that
the index is a node of the tree; without one they have no result.  When they
have a result it is the result of the source, so a run of theirs is a run of
the source in which every index is a node.
-/

namespace OsStuff
namespace BuddyAlloc
namespace Malloc2

open Library Library.DyadicTree

/-- The number of nodes of the tree. -/
def nodeCount : Nat := 2 ^ bucketCount - 1

namespace Checked

/-! ## The functions -/

/-- `get_node_status` for a node of the tree. -/
def getNodeStatus (heap : Heap) (index : Nat) : Option Nat :=
  if index < nodeCount then Malloc2.getNodeStatus heap index else none

/-- `parent_inc_status` for a parent in the tree. -/
def parentIncStatus (heap : Heap) (index : Nat) : Option Heap :=
  if parentIndex index < nodeCount then Malloc2.parentIncStatus heap index
  else none

/-- `parent_dec_status` for a parent in the tree. -/
def parentDecStatus (heap : Heap) (index : Nat) : Option Heap :=
  if parentIndex index < nodeCount then Malloc2.parentDecStatus heap index
  else none

/-- `node_set_status` for a node of the tree. -/
def nodeSetStatus (heap : Heap) (index st : Nat) : Option Heap :=
  if index < nodeCount then Malloc2.nodeSetStatus heap index st else none

/-- The loop of `bucket_for_alloced_pointer`. -/
def bucketForAllocedPointerLoop (heap : Heap) (ptr : Nat) : Nat → Option Nat
  | 0 => none
  | i + 1 =>
      if heap.bucketLimit ≤ i then do
        let nodeI ← nodeForPtr heap ptr i
        let status ← getNodeStatus heap nodeI
        if status = used then some i
        else bucketForAllocedPointerLoop heap ptr i
      else
        some (2 ^ 64 - 1)

/-- `bucket_for_alloced_pointer` -/
def bucketForAllocedPointer (heap : Heap) (ptr : Nat) : Option Nat :=
  bucketForAllocedPointerLoop heap ptr bucketCount

/-- One round of the loop of `lower_bucket_limit`. -/
def growRound (platform : Platform) (grant : Nat → Bool) (heap : Heap) :
    Option (Bool × Heap) := do
  let root ← nodeForPtr heap heap.basePtr heap.bucketLimit
  let rootStatus ← getNodeStatus heap root
  if rootStatus = unused then
    let heap ← liftUnusedRoot platform heap
    some (true, heap)
  else
    let rightChild ← ptrForNode heap (root + 1) heap.bucketLimit
    match updateMaxPtr grant (wrap (rightChild + sizeofListT)) heap with
    | (false, heap) => some (false, heap)
    | (true, heap) => do
        let heap ← nodeSetStatus heap (parentIndex root) split
        let heap ← openRightChild platform rightChild heap
        some (true, heap)

/-- The upward loop of `malloc_2`. -/
def markUsedLoop : Nat → Nat → Heap → Option Heap
  | 0, parentI, heap => if parentI ≠ 0 then none else some heap
  | rounds + 1, parentI, heap =>
      if parentI ≠ 0 then do
        let left ← getNodeStatus heap (wrap (parentI * 2 + 1))
        let right ← getNodeStatus heap (wrap (parentI * 2 + 2))
        if left = used ∧ right = used then
          let heap ← nodeSetStatus heap parentI used
          markUsedLoop rounds (parentIndex parentI) heap
        else
          some heap
      else
        some heap

/-- The end of `malloc_2`. -/
def markUsed (ptr i : Nat) (heap : Heap) : Option (Nat × Heap) := do
  let heap ← nodeSetStatus heap i used
  let heap ← markUsedLoop (parentIndex i) (parentIndex i) heap
  some (ptr, heap)

/-- `malloc_2` -/
def malloc2 (platform : Platform) (grant : Nat → Bool) (request : Nat)
    (heap : Heap) : Option (Nat × Heap) :=
  allocate platform grant
    (fun bucket heap =>
      lowerLoop (growRound platform grant) bucket (heap.bucketLimit - bucket)
        heap)
    (claimBlock platform grant parentIncStatus markUsed) request heap

/-- A round of the loop of `free_2` up to the test whether to stop. -/
def settle (i bucket : Nat) (heap : Heap) : Option (Bool × Heap) := do
  let heap ← nodeSetStatus heap i unused
  let parentI := parentIndex i
  let leftChild := wrap (parentI * 2 + 1)
  let otherChild := if i = leftChild then wrap (parentI * 2 + 2) else leftChild
  let buddyStatus ← getNodeStatus heap otherChild
  if buddyStatus ≠ unused ∨ bucket = heap.bucketLimit then
    let heap ← parentDecStatus heap i
    some (true, heap)
  else
    some (false, heap)

/-- `free_2` -/
def free2 (platform : Platform) (ptr : Nat) (heap : Heap) : Option Heap :=
  if ptr = 0 then
    some heap
  else do
    let bucket ← bucketForAllocedPointer heap ptr
    giveBack platform settle ptr bucket heap

/-- The two functions as an allocator. -/
def allocator (platform : Platform) : Allocator where
  malloc := malloc2 platform
  free := free2 platform
  header := 0
  total request := request

variable {platform : Platform} {grant : Nat → Bool} {heap heap' : Heap}
  {arena : Arena} {marked : Set Nat} {n b c : Nat}

/-! ## Results are results of the source -/

/-- Whatever the first computation returns, the second returns. -/
def Below {α : Type} (checked source : Option α) : Prop :=
  ∀ a, checked = some a → source = some a

theorem Below.refl {α : Type} (x : Option α) : Below x x := fun _ h => h

theorem Below.of_check {α : Type} {p : Prop} [Decidable p] (x : Option α) :
    Below (if p then x else none) x := by
  intro a h
  by_cases hp : p
  · rwa [if_pos hp] at h
  · rw [if_neg hp] at h
    exact absurd h (by simp)

theorem Below.bind {α β : Type} {x y : Option α} {f g : α → Option β}
    (hx : Below x y) (hf : ∀ a, Below (f a) (g a)) :
    Below (x.bind f) (y.bind g) := by
  intro b h
  obtain ⟨a, ha, hb⟩ := Option.bind_eq_some_iff.mp h
  exact Option.bind_eq_some_iff.mpr ⟨a, hx a ha, hf a b hb⟩

theorem Below.ite {α : Type} {p : Prop} [Decidable p] {x y x' y' : Option α}
    (hx : Below x x') (hy : Below y y') :
    Below (if p then x else y) (if p then x' else y') := by
  by_cases hp : p
  · rwa [if_pos hp, if_pos hp]
  · rwa [if_neg hp, if_neg hp]

section Text

variable {round round' : Heap → Option (Bool × Heap)}
  {lower lower' : Nat → Heap → Option (Bool × Heap)}
  {mark mark' : Heap → Nat → Option Heap}
  {finish finish' : Nat → Nat → Heap → Option (Nat × Heap)}
  {claim claim' : Nat → Nat → Heap → Option (Nat × Heap)}
  {turn turn' : Nat → Nat → Heap → Option (Bool × Heap)}

theorem lowerLoop_below (hround : ∀ heap, Below (round heap) (round' heap))
    (bucket rounds : Nat) (heap : Heap) :
    Below (lowerLoop round bucket rounds heap)
      (lowerLoop round' bucket rounds heap) := by
  induction rounds generalizing heap with
  | zero => exact Below.refl _
  | succ rounds ih =>
      unfold lowerLoop
      refine Below.ite (Below.bind (hround heap) fun outcome => ?_) (Below.refl _)
      rcases outcome with ⟨granted, heap₁⟩
      cases granted with
      | false => exact Below.refl _
      | true => exact ih heap₁

theorem splitLoop_below (hmark : ∀ heap i, Below (mark heap i) (mark' heap i))
    (rounds i bucket : Nat) (heap : Heap) :
    Below (splitLoop platform mark rounds i bucket heap)
      (splitLoop platform mark' rounds i bucket heap) := by
  induction rounds generalizing i bucket heap with
  | zero => exact Below.refl _
  | succ rounds ih =>
      unfold splitLoop
      refine Below.bind (hmark _ _) fun heap₁ => ?_
      refine Below.bind (Below.refl _) fun list => ?_
      exact Below.bind (Below.refl _) fun right => ih _ _ _

theorem claimBlock_below (hmark : ∀ heap i, Below (mark heap i) (mark' heap i))
    (hfinish : ∀ ptr i heap, Below (finish ptr i heap) (finish' ptr i heap))
    (originalBucket bucket ptr : Nat) (heap : Heap) :
    Below (claimBlock platform grant mark finish originalBucket bucket ptr heap)
      (claimBlock platform grant mark' finish' originalBucket bucket ptr
        heap) := by
  unfold claimBlock
  rcases updateMaxPtr grant _ heap with ⟨granted, heap₁⟩
  cases granted with
  | false => exact Below.refl _
  | true =>
      refine Below.bind (Below.refl _) fun i => ?_
      refine Below.bind (Below.ite (hmark _ _) (Below.refl _)) fun heap₂ => ?_
      exact Below.bind (splitLoop_below hmark _ _ _ _) fun outcome =>
        hfinish _ _ _

theorem searchLoop_below
    (hlower : ∀ bucket heap, Below (lower bucket heap) (lower' bucket heap))
    (hclaim : ∀ bucket ptr heap,
      Below (claim bucket ptr heap) (claim' bucket ptr heap))
    (count : Nat) (heap : Heap) :
    Below (searchLoop platform lower claim count heap)
      (searchLoop platform lower' claim' count heap) := by
  induction count generalizing heap with
  | zero => exact Below.refl _
  | succ bucket ih =>
      unfold searchLoop
      refine Below.bind (hlower _ _) fun outcome => ?_
      rcases outcome with ⟨granted, heap₁⟩
      cases granted with
      | false => exact Below.refl _
      | true =>
          refine Below.bind (Below.refl _) fun list => ?_
          rcases listPop list heap₁ with ⟨ptr, heap₂⟩
          refine Below.ite (Below.ite (ih heap₂) ?_) (hclaim _ _ _)
          refine Below.bind (hlower _ _) fun outcome => ?_
          rcases outcome with ⟨granted, heap₃⟩
          cases granted with
          | false => exact Below.refl _
          | true => exact hclaim _ _ _

theorem mergeLoop_below
    (hturn : ∀ i bucket heap, Below (turn i bucket heap) (turn' i bucket heap))
    (rounds i bucket : Nat) (heap : Heap) :
    Below (mergeLoop platform turn rounds i bucket heap)
      (mergeLoop platform turn' rounds i bucket heap) := by
  induction rounds generalizing i bucket heap with
  | zero => exact Below.refl _
  | succ rounds ih =>
      unfold mergeLoop
      refine Below.ite (Below.bind (hturn _ _ _) fun outcome => ?_)
        (Below.refl _)
      rcases outcome with ⟨stop, heap₁⟩
      cases stop with
      | true => exact Below.refl _
      | false =>
          refine Below.bind (Below.refl _) fun list => ?_
          exact Below.bind (Below.refl _) fun buddy => ih _ _ _

end Text

theorem getNodeStatus_below (heap : Heap) (i : Nat) :
    Below (getNodeStatus heap i) (Malloc2.getNodeStatus heap i) :=
  Below.of_check _

theorem nodeSetStatus_below (heap : Heap) (i st : Nat) :
    Below (nodeSetStatus heap i st) (Malloc2.nodeSetStatus heap i st) :=
  Below.of_check _

theorem bucketForAllocedPointerLoop_below (ptr count : Nat) :
    Below (bucketForAllocedPointerLoop heap ptr count)
      (Malloc2.bucketForAllocedPointerLoop heap ptr count) := by
  induction count with
  | zero => exact Below.refl _
  | succ i ih =>
      unfold bucketForAllocedPointerLoop Malloc2.bucketForAllocedPointerLoop
      refine Below.ite (Below.bind (Below.refl _) fun nodeI => ?_) (Below.refl _)
      refine Below.bind (getNodeStatus_below _ _) fun status => ?_
      exact Below.ite (Below.refl _) ih

theorem growRound_below (heap : Heap) :
    Below (growRound platform grant heap)
      (Malloc2.growRound platform grant heap) := by
  unfold growRound Malloc2.growRound
  refine Below.bind (Below.refl _) fun root => ?_
  refine Below.bind (getNodeStatus_below _ _) fun status => ?_
  refine Below.ite (Below.refl _) (Below.bind (Below.refl _) fun right => ?_)
  rcases updateMaxPtr grant _ heap with ⟨granted, heap₁⟩
  cases granted with
  | false => exact Below.refl _
  | true =>
      exact Below.bind (nodeSetStatus_below _ _ _) fun heap₂ => Below.refl _

theorem markUsedLoop_below (rounds parentI : Nat) (heap : Heap) :
    Below (markUsedLoop rounds parentI heap)
      (Malloc2.markUsedLoop rounds parentI heap) := by
  induction rounds generalizing parentI heap with
  | zero => exact Below.refl _
  | succ rounds ih =>
      unfold markUsedLoop Malloc2.markUsedLoop
      refine Below.ite (Below.bind (getNodeStatus_below _ _) fun left => ?_)
        (Below.refl _)
      refine Below.bind (getNodeStatus_below _ _) fun right => ?_
      refine Below.ite ?_ (Below.refl _)
      exact Below.bind (nodeSetStatus_below _ _ _) fun heap₁ => ih _ _

theorem markUsed_below (ptr i : Nat) (heap : Heap) :
    Below (markUsed ptr i heap) (Malloc2.markUsed ptr i heap) := by
  unfold markUsed Malloc2.markUsed
  refine Below.bind (nodeSetStatus_below _ _ _) fun heap₁ => ?_
  exact Below.bind (markUsedLoop_below _ _ _) fun heap₂ => Below.refl _

theorem settle_below (i bucket : Nat) (heap : Heap) :
    Below (settle i bucket heap) (Malloc2.settle i bucket heap) := by
  unfold settle Malloc2.settle
  refine Below.bind (nodeSetStatus_below _ _ _) fun heap₁ => ?_
  refine Below.bind (getNodeStatus_below _ _) fun status => ?_
  refine Below.ite ?_ (Below.refl _)
  exact Below.bind (Below.of_check _) fun heap₂ => Below.refl _

theorem malloc2_below (request : Nat) (heap : Heap) :
    Below (malloc2 platform grant request heap)
      (Malloc2.malloc2 platform grant request heap) := by
  unfold malloc2 Malloc2.malloc2 allocate
  refine Below.ite (Below.refl _) (Below.bind (Below.refl _) fun heap₁ => ?_)
  refine Below.bind (Below.refl _) fun bucket => ?_
  refine searchLoop_below (fun b heap₂ => ?_) (fun b ptr heap₂ => ?_) _ _
  · exact lowerLoop_below growRound_below _ _ _
  · exact claimBlock_below (fun _ _ => Below.of_check _) markUsed_below _ _ _ _

theorem free2_below (ptr : Nat) (heap : Heap) :
    Below (free2 platform ptr heap) (Malloc2.free2 platform ptr heap) := by
  unfold free2 Malloc2.free2 giveBack
  refine Below.ite (Below.refl _) (Below.bind ?_ fun bucket => ?_)
  · exact bucketForAllocedPointerLoop_below _ _
  · refine Below.bind (Below.refl _) fun i => ?_
    exact Below.bind (mergeLoop_below settle_below _ _ _ _) fun outcome =>
      Below.refl _

/-- An allocator that has a result only where another one has it, for blocks of the
same sizes. -/
structure Weaker (allocator allocator' : Allocator) : Prop where
  malloc : ∀ grant request heap,
    Below (allocator.malloc grant request heap) (allocator'.malloc grant request heap)
  free : ∀ ptr heap, Below (allocator.free ptr heap) (allocator'.free ptr heap)
  usable : ∀ live, allocator.usable live = allocator'.usable live

/-- A step of its client is a step of the client of the other allocator. -/
theorem Weaker.step_below {allocator allocator' : Allocator}
    (hweaker : Weaker allocator allocator') (client : Client) (op : Op) :
    Below (step allocator grant client op) (step allocator' grant client op) := by
  cases op with
  | malloc request =>
      unfold step
      exact Below.ite (Below.bind (hweaker.malloc _ _ _) fun outcome => Below.refl _)
        (Below.refl _)
  | free index =>
      unfold step
      refine Below.bind (Below.refl _) fun live => ?_
      exact Below.bind (hweaker.free _ _) fun heap => Below.refl _
  | write index offset byte =>
      simp only [step, hweaker.usable]
      exact Below.refl _

theorem Weaker.legal {allocator allocator' : Allocator}
    (hweaker : Weaker allocator allocator') {client : Client} {op : Op}
    (hlegal : op.Legal allocator' client) : op.Legal allocator client := by
  cases op with
  | malloc request =>
      have hlt : request < 2 ^ 64 := hlegal
      exact hlt
  | free index =>
      have hlt : index < client.live.length := hlegal
      exact hlt
  | write index offset byte =>
      obtain ⟨live, hlive, hoffset⟩ := hlegal
      rw [← hweaker.usable] at hoffset
      exact ⟨live, hlive, hoffset⟩

theorem weaker (platform : Platform) : Weaker (allocator platform) (allocator2 platform) where
  malloc _ := malloc2_below
  free := free2_below
  usable live := by
    simp only [Allocator.usable, Allocator.blockBytes, allocator, allocator2]

/-! ## The checks pass -/

theorem getNodeStatus_eq (heap : Heap) {i : Nat} (hi : i < nodeCount) :
    getNodeStatus heap i = Malloc2.getNodeStatus heap i :=
  if_pos hi

theorem nodeSetStatus_eq (heap : Heap) {i : Nat} (hi : i < nodeCount) (st : Nat) :
    nodeSetStatus heap i st = Malloc2.nodeSetStatus heap i st :=
  if_pos hi

/-- The parent of a node of the tree is a node of the tree. -/
theorem parentIndex_lt (hn : 2 ≤ n) (hlt : n < 2 ^ 28) :
    parentIndex (n - 1) < 2 ^ 27 - 1 := by
  rw [parentIndex_eq hn (by omega)]
  omega

theorem parentIndex_lt_nodeCount (hn : 2 ≤ n) (hlt : n < 2 ^ 28) :
    parentIndex (n - 1) < nodeCount := by
  have hparent := parentIndex_lt hn hlt
  simp only [nodeCount, bucketCount, maxAllocLog2, minAllocLog2]
  omega

theorem pred_lt_nodeCount (hn : 1 ≤ n) (hlt : n < 2 ^ 28) : n - 1 < nodeCount := by
  simp only [nodeCount, bucketCount, maxAllocLog2, minAllocLog2]
  omega

theorem parentIncStatus_eq (heap : Heap) (hn : 2 ≤ n) (hlt : n < 2 ^ 28) :
    parentIncStatus heap (n - 1) = Malloc2.parentIncStatus heap (n - 1) :=
  if_pos (parentIndex_lt_nodeCount hn hlt)

set_option linter.unnecessarySeqFocus false in
theorem growRound_eq (grant : Nat → Bool) (hsim : Sim platform heap arena marked)
    {l : Nat} (hlimit : arena.limit = l + 1) :
    growRound platform grant heap = Malloc2.growRound platform grant heap := by
  have hlt := hsim.shape.limit_lt
  have htwo : 2 ^ 1 ≤ 2 ^ arena.limit :=
    Nat.pow_le_pow_right (by omega) (by omega)
  have hbound : 2 ^ arena.limit < 2 ^ 28 :=
    Nat.pow_lt_pow_right (by omega) (by omega)
  have hstatus := getNodeStatus_eq heap (pred_lt_nodeCount (by omega) hbound)
  have hset : ∀ heap' : Heap,
      nodeSetStatus heap' (parentIndex (2 ^ arena.limit - 1)) split =
        Malloc2.nodeSetStatus heap' (parentIndex (2 ^ arena.limit - 1)) split :=
    fun heap' => nodeSetStatus_eq heap' (parentIndex_lt_nodeCount htwo hbound) _
  unfold growRound Malloc2.growRound
  rw [hsim.root_index]
  conv_lhs => simp only [Option.bind_eq_bind, Option.bind_some, hstatus, hset]
  rfl

theorem markUsedLoop_eq (rounds : Nat) {parentI : Nat}
    (hparent : parentI < 2 ^ 27 - 1) (heap : Heap) :
    markUsedLoop rounds parentI heap =
      Malloc2.markUsedLoop rounds parentI heap := by
  induction rounds generalizing parentI heap with
  | zero => rfl
  | succ rounds ih =>
      have hleft : wrap (parentI * 2 + 1) = 2 * (parentI + 1) - 1 := by
        rw [wrap_of_lt (by omega)]
        omega
      have hright : wrap (parentI * 2 + 2) = 2 * (parentI + 1) + 1 - 1 := by
        rw [wrap_of_lt (by omega)]
        omega
      unfold markUsedLoop Malloc2.markUsedLoop
      by_cases hzero : parentI ≠ 0
      · have hnext := parentIndex_lt (n := parentI + 1) (by omega) (by omega)
        rw [Nat.add_sub_cancel] at hnext
        rw [if_pos hzero, if_pos hzero, hleft, hright,
          getNodeStatus_eq heap (pred_lt_nodeCount (by omega) (by omega)),
          getNodeStatus_eq heap (pred_lt_nodeCount (by omega) (by omega))]
        have hself : parentI < nodeCount := by
          simp only [nodeCount, bucketCount, maxAllocLog2, minAllocLog2]
          omega
        simp only [nodeSetStatus_eq heap hself, ih hnext]
      · rw [if_neg hzero, if_neg hzero]

theorem markUsed_eq (ptr : Nat) (heap : Heap) (hn : 2 ≤ n) (hlt : n < 2 ^ 28) :
    markUsed ptr (n - 1) heap = Malloc2.markUsed ptr (n - 1) heap := by
  unfold markUsed Malloc2.markUsed
  simp only [nodeSetStatus_eq heap (pred_lt_nodeCount (by omega) hlt),
    markUsedLoop_eq _ (parentIndex_lt hn hlt)]

theorem settle_eq (bucket : Nat) (heap : Heap) (hc : 2 ≤ c) (hlt : c < 2 ^ 28) :
    settle (c - 1) bucket heap = Malloc2.settle (c - 1) bucket heap := by
  have hparent := parentIndex_lt hc hlt
  have hleft : wrap (parentIndex (c - 1) * 2 + 1) =
      2 * (parentIndex (c - 1) + 1) - 1 := by
    rw [wrap_of_lt (by omega)]
    omega
  have hright : wrap (parentIndex (c - 1) * 2 + 2) =
      2 * (parentIndex (c - 1) + 1) + 1 - 1 := by
    rw [wrap_of_lt (by omega)]
    omega
  have hother : (if c - 1 = wrap (parentIndex (c - 1) * 2 + 1) then
      wrap (parentIndex (c - 1) * 2 + 2)
      else wrap (parentIndex (c - 1) * 2 + 1)) < nodeCount := by
    split
    · rw [hright]
      exact pred_lt_nodeCount (by omega) (by omega)
    · rw [hleft]
      exact pred_lt_nodeCount (by omega) (by omega)
  unfold settle Malloc2.settle
  simp only [nodeSetStatus_eq heap (pred_lt_nodeCount (by omega) hlt),
    getNodeStatus_eq _ hother, parentDecStatus,
    if_pos (parentIndex_lt_nodeCount hc hlt)]

theorem bucketForAllocedPointerLoop_eq (heap : Heap) {x count : Nat}
    (hx : x < 2 ^ 31) (hcount : count ≤ 28) :
    bucketForAllocedPointerLoop heap (heap.basePtr + x) count =
      Malloc2.bucketForAllocedPointerLoop heap (heap.basePtr + x) count := by
  induction count with
  | zero => rfl
  | succ i ih =>
      have hd := atLevel_leaf (i := i) (by omega) hx
      have hbound := node_lt hd (show i < bucketCount by simp; omega)
      unfold bucketForAllocedPointerLoop Malloc2.bucketForAllocedPointerLoop
      simp only [nodeForPtr_add heap (show i < bucketCount by simp; omega) hx,
        Option.bind_eq_bind, Option.bind_some,
        getNodeStatus_eq heap (pred_lt_nodeCount hd.pos hbound),
        ih (by omega)]

/-- `free_2` finds the bucket of a live block among nodes of the tree. -/
theorem free2_eq {request : Nat} (hsim : Sim platform heap arena marked)
    (hcounts : Counts heap.nodeStatus arena.limit marked 0) (hn : n ∈ marked)
    (hhighest : 1 ≤ bucketOf request) (hb : AtLevel (bucketOf request) n) :
    free2 platform (nodeAddr heap.basePtr (bucketOf request) n) heap =
      giveBack platform settle
        (nodeAddr heap.basePtr (bucketOf request) n) (bucketOf request) heap := by
  have hbucket := bucketForAllocedPointer_spec hcounts hsim hn hb hhighest
  have hlt := hsim.shape.node_lt hn hb
  have hloop : bucketForAllocedPointer heap
      (nodeAddr heap.basePtr (bucketOf request) n) = some (bucketOf request) :=
    (bucketForAllocedPointerLoop_eq heap (within_start hb hlt).1
      (by simp)).trans hbucket
  unfold free2
  rw [if_neg (hsim.mapped.nodeAddr_ne_zero _ _)]
  simp only [hloop, Option.bind_eq_bind, Option.bind_some]

theorem mark_take (hshape : arena.Shape marked) (hn : n ∈ arena.free b)
    (hcounts : Counts heap.nodeStatus arena.limit marked 0) :
    ∃ status, markUnlessFirst parentIncStatus heap (n - 1) =
        some { heap with nodeStatus := status } ∧
      Counts status arena.limit (insert n marked) n ∧
      (2 ≤ n → count status n = unused) := by
  obtain ⟨status, hmark, hcounts'⟩ :=
    Malloc2.mark_take hshape hn hcounts
  obtain ⟨hb, -, hlt⟩ := hshape.free_level hn
  have hbound := node_lt hb (show b < bucketCount by simpa using hlt)
  refine ⟨status, ?_, hcounts'⟩
  rw [← hmark]
  unfold markUnlessFirst
  by_cases hfirst : n - 1 ≠ 0
  · rw [if_pos hfirst, if_pos hfirst, parentIncStatus_eq heap (by omega) hbound]
  · rw [if_neg hfirst, if_neg hfirst]

theorem mark_split (hshape : arena.Shape (insert n marked)) (hn : n ∉ marked)
    (hb : AtLevel b n) (hlt : b + 1 < 28)
    (hopening : Counts heap.nodeStatus arena.limit (insert n marked) n ∧
      (2 ≤ n → count heap.nodeStatus n = unused)) :
    ∃ status, parentIncStatus heap (2 * n - 1) =
        some { heap with nodeStatus := status } ∧
      Counts status arena.limit (insert (2 * n) marked) (2 * n) ∧
      (2 ≤ 2 * n → count status (2 * n) = unused) := by
  have hpos := hb.pos
  have hchild := node_lt hb.left (show b + 1 < bucketCount by simpa using hlt)
  rw [parentIncStatus_eq heap (by omega) hchild]
  exact Malloc2.mark_split hshape hn hb hlt hopening.1 hopening.2

/-- The bookkeeping of `malloc_2` and `free_2` with checked indices. -/
def bookkeeping (platform : Platform) : Bookkeeping platform where
  allocator := allocator platform
  round := growRound platform
  mark := parentIncStatus
  finish _ := markUsed
  settle := settle
  highest := 1
  Tracked := (Malloc2.bookkeeping platform).Tracked
  Opening := (Malloc2.bookkeeping platform).Opening
  Closing := (Malloc2.bookkeeping platform).Closing
  Freeable := Freeable
  Label _ _ _ := True
  header_lt := header_lt platform
  highest_le := Nat.zero_lt_one
  finish_first _ _ ptr heap := by
    cases hresult : markUsed ptr 0 heap with
    | none => rfl
    | some outcome =>
        have hsource := markUsed_below _ _ _ _ hresult
        rw [markUsed_first] at hsource
        exact absurd hsource (by simp)
  label_congr _ hlabel := hlabel
  tracked_zero := Counts.initial
  malloc_eq _ _ _ := rfl
  free_eq hsim hcounts hn _ hhighest hb _ :=
    free2_eq hsim hcounts hn hhighest hb
  round_spec hsim hcounts hlimit hkept hguarded := by
    rw [growRound_eq _ hsim hlimit]
    exact (Malloc2.bookkeeping platform).round_spec hsim hcounts hlimit hkept
      hguarded
  mark_take hshape hn hcounts := mark_take hshape hn hcounts
  mark_split hshape hn hb hlt hopening := mark_split hshape hn hb hlt hopening
  finish_spec hsim hn hb hhighest hroom hopening hrequest hkept := by
    have hlt := node_lt hb (show _ < bucketCount by
      simpa using hsim.shape.node_lt (Set.mem_insert _ _) hb)
    rw [markUsed_eq _ _ ((Nat.pow_le_pow_right (by omega) hhighest).trans hb.1)
      hlt]
    exact (Malloc2.bookkeeping platform).finish_spec hsim hn hb hhighest hroom
      hopening hrequest hkept
  closing := (Malloc2.bookkeeping platform).closing
  settle_spec hshape hc hb hlimit hclosing := by
    have hlt := node_lt hb (show _ < bucketCount by
      simpa using hshape.node_lt (Set.mem_insert _ _) hb)
    rw [settle_eq _ _ hb.two_le hlt]
    exact (Malloc2.bookkeeping platform).settle_spec hshape hc hb hlimit hclosing
  closing_root := (Malloc2.bookkeeping platform).closing_root

end Checked
end Malloc2
end BuddyAlloc
end OsStuff
