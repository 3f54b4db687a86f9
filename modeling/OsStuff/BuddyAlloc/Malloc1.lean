import OsStuff.BuddyAlloc.Common

/-!
# `buddy_malloc.c`

The allocator with one split bit per inner node and a size header in front of
every block.
-/

namespace OsStuff
namespace BuddyAlloc
namespace Malloc1

open Library.ByteMemory

/-- Number of bytes of `node_status`: one bit for every node above the
smallest blocks. -/
def statusBytes : Nat := 2 ^ (bucketCount - 1) / 8

/-- `parent_is_split` -/
def parentIsSplit (heap : Heap) (index : Nat) : Option Bool :=
  let index := parentIndex index
  if index / 8 < statusBytes then
    some ((heap.nodeStatus (index / 8)).testBit (index % 8))
  else
    none

/-- `flip_parent_is_split` -/
def flipParentIsSplit (heap : Heap) (index : Nat) : Option Heap :=
  let index := parentIndex index
  if index / 8 < statusBytes then
    some { heap with
      nodeStatus := Function.update heap.nodeStatus (index / 8)
        (heap.nodeStatus (index / 8) ^^^ (1 <<< (index % 8))) }
  else
    none

/-- One round of the loop of `lower_bucket_limit`. -/
def growRound (platform : Platform) (grant : Nat → Bool) (heap : Heap) :
    Option (Bool × Heap) := do
  let root ← nodeForPtr heap heap.basePtr heap.bucketLimit
  let split ← parentIsSplit heap root
  if split then
    let rightChild ← ptrForNode heap (root + 1) heap.bucketLimit
    match updateMaxPtr grant (wrap (rightChild + sizeofListT)) heap with
    | (false, heap) => some (false, heap)
    | (true, heap) => do
        let heap ← openRightChild platform rightChild heap
        let root := parentIndex root
        -- The bit of the new root's parent says that it is in use.
        let heap ← markUnlessFirst flipParentIsSplit heap root
        some (true, heap)
  else
    let heap ← liftUnusedRoot platform heap
    some (true, heap)

/-- `lower_bucket_limit` -/
def lowerBucketLimit (platform : Platform) (grant : Nat → Bool)
    (bucket : Nat) (heap : Heap) : Option (Bool × Heap) :=
  lowerLoop (growRound platform grant) bucket (heap.bucketLimit - bucket) heap

/-- The header of a block receives the request. -/
def writeHeader (request ptr _i : Nat) (heap : Heap) : Option (Nat × Heap) :=
  some (wrap (ptr + headerSize), heap.store ptr request)

/-- `malloc_1` -/
def malloc1 (platform : Platform) (grant : Nat → Bool) (request : Nat)
    (heap : Heap) : Option (Nat × Heap) :=
  allocate platform grant (lowerBucketLimit platform grant)
    (claimBlock platform grant flipParentIsSplit (writeHeader request))
    (wrap (request + headerSize)) heap

/-- A round of the loop of `free_1` up to the test whether to stop. -/
def settle (i bucket : Nat) (heap : Heap) : Option (Bool × Heap) := do
  let heap ← flipParentIsSplit heap i
  let split ← parentIsSplit heap i
  some (decide (split ∨ bucket = heap.bucketLimit), heap)

/-- `free_1` -/
def free1 (platform : Platform) (ptr : Nat) (heap : Heap) : Option Heap :=
  if ptr = 0 then
    some heap
  else do
    let ptr := sizeSub ptr headerSize
    let bucket ← bucketForRequest
      (wrap (loadWord heap.memory ptr + headerSize))
    giveBack platform settle ptr bucket heap

end Malloc1
end BuddyAlloc
end OsStuff
