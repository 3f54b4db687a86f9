import OsStuff.BuddyAlloc.Common

/-!
# `buddy_malloc_2.c`

The allocator without headers: every node has a status of two bits, four to a
byte, and the size of a block is recovered from the statuses when it is freed.
The statuses of inner nodes are counters that are incremented and decremented
in place, so a count that leaves its field changes its neighbours.
-/

namespace OsStuff
namespace BuddyAlloc
namespace Malloc2

open Library.ByteMemory

/-- `UNUSED`; a status is a number of two bits, as `get_node_status` may read
a value that is none of the three enumerators. -/
@[simp] def unused : Nat := 0

/-- `SPLIT` -/
@[simp] def split : Nat := 1

/-- `USED` -/
@[simp] def used : Nat := 2

/-- Number of bytes of `node_status`: two bits for every node. -/
def statusBytes : Nat := 2 ^ bucketCount / 4

/-- `bit_move` -/
def bitMove (index : Nat) : Nat := (3 - index % 4) * 2

/-- `get_node_status` -/
def getNodeStatus (heap : Heap) (index : Nat) : Option Nat :=
  if index / 4 < statusBytes then
    some ((heap.nodeStatus (index / 4) >>> bitMove index) &&& 3)
  else
    none

/-- Replace one byte of `node_status`. -/
def setStatusByte (heap : Heap) (index byte : Nat) : Option Heap :=
  if index / 4 < statusBytes then
    some { heap with
      nodeStatus := Function.update heap.nodeStatus (index / 4) byte }
  else
    none

/-- `parent_inc_status` -/
def parentIncStatus (heap : Heap) (index : Nat) : Option Heap :=
  let index := parentIndex index
  setStatusByte heap index
    ((heap.nodeStatus (index / 4) + (1 <<< bitMove index)) % 2 ^ 8)

/-- `parent_dec_status` -/
def parentDecStatus (heap : Heap) (index : Nat) : Option Heap :=
  let index := parentIndex index
  setStatusByte heap index
    ((heap.nodeStatus (index / 4) + 2 ^ 8 - (1 <<< bitMove index)) % 2 ^ 8)

/-- `node_set_status` -/
def nodeSetStatus (heap : Heap) (index st : Nat) : Option Heap :=
  let value := st <<< bitMove index
  let mask := 255 ^^^ (3 <<< bitMove index)
  setStatusByte heap index
    ((heap.nodeStatus (index / 4) &&& mask) ||| value)

/-- The loop of `bucket_for_alloced_pointer`; its argument is `i + 1`.  The
comparison with `bucket_limit` is unsigned, so `i = -1` never ends the loop
and goes on to shift by an impossible amount. -/
def bucketForAllocedPointerLoop (heap : Heap) (ptr : Nat) : Nat → Option Nat
  | 0 => none
  | i + 1 =>
      if heap.bucketLimit ≤ i then do
        let nodeI ← nodeForPtr heap ptr i
        let status ← getNodeStatus heap nodeI
        if status = used then some i
        else bucketForAllocedPointerLoop heap ptr i
      else
        some (2 ^ 64 - 1)

/-- `bucket_for_alloced_pointer`; `-1` is the largest `size_t`. -/
def bucketForAllocedPointer (heap : Heap) (ptr : Nat) : Option Nat :=
  bucketForAllocedPointerLoop heap ptr bucketCount

/-- One round of the loop of `lower_bucket_limit`. -/
def growRound (platform : Platform) (grant : Nat → Bool) (heap : Heap) :
    Option (Bool × Heap) := do
  let root ← nodeForPtr heap heap.basePtr heap.bucketLimit
  let rootStatus ← getNodeStatus heap root
  if rootStatus = unused then
    let heap ← liftUnusedRoot platform heap
    some (true, heap)
  else
    let rightChild ← ptrForNode heap (root + 1) heap.bucketLimit
    match updateMaxPtr grant (wrap (rightChild + sizeofListT)) heap with
    | (false, heap) => some (false, heap)
    | (true, heap) => do
        let heap ← nodeSetStatus heap (parentIndex root) split
        let heap ← openRightChild platform rightChild heap
        some (true, heap)

/-- `lower_bucket_limit` -/
def lowerBucketLimit (platform : Platform) (grant : Nat → Bool)
    (bucket : Nat) (heap : Heap) : Option (Bool × Heap) :=
  lowerLoop (growRound platform grant) bucket (heap.bucketLimit - bucket) heap

/-- The upward loop of `malloc_2`: an ancestor whose two children are `USED`
becomes `USED`. -/
def markUsedLoop : Nat → Nat → Heap → Option Heap
  | 0, parentI, heap => if parentI ≠ 0 then none else some heap
  | rounds + 1, parentI, heap =>
      if parentI ≠ 0 then do
        let left ← getNodeStatus heap (wrap (parentI * 2 + 1))
        let right ← getNodeStatus heap (wrap (parentI * 2 + 2))
        if left = used ∧ right = used then
          let heap ← nodeSetStatus heap parentI used
          markUsedLoop rounds (parentIndex parentI) heap
        else
          some heap
      else
        some heap

/-- The node of the block becomes `USED`, and so do full ancestors.  The index
halves in every round of the loop, so `parentIndex i` rounds are enough; for
`i = 0` it is the largest `size_t` divided by two. -/
def markUsed (ptr i : Nat) (heap : Heap) : Option (Nat × Heap) := do
  let heap ← nodeSetStatus heap i used
  let heap ← markUsedLoop (parentIndex i) (parentIndex i) heap
  some (ptr, heap)

/-- `malloc_2` -/
def malloc2 (platform : Platform) (grant : Nat → Bool) (request : Nat)
    (heap : Heap) : Option (Nat × Heap) :=
  allocate platform grant (lowerBucketLimit platform grant)
    (claimBlock platform grant parentIncStatus markUsed) request heap

/-- A round of the loop of `free_2` up to the test whether to stop. -/
def settle (i bucket : Nat) (heap : Heap) : Option (Bool × Heap) := do
  let heap ← nodeSetStatus heap i unused
  let parentI := parentIndex i
  let leftChild := wrap (parentI * 2 + 1)
  let otherChild := if i = leftChild then wrap (parentI * 2 + 2) else leftChild
  let buddyStatus ← getNodeStatus heap otherChild
  if buddyStatus ≠ unused ∨ bucket = heap.bucketLimit then
    let heap ← parentDecStatus heap i
    some (true, heap)
  else
    some (false, heap)

/-- `free_2` -/
def free2 (platform : Platform) (ptr : Nat) (heap : Heap) : Option Heap :=
  if ptr = 0 then
    some heap
  else do
    let bucket ← bucketForAllocedPointer heap ptr
    giveBack platform settle ptr bucket heap

end Malloc2
end BuddyAlloc
end OsStuff
