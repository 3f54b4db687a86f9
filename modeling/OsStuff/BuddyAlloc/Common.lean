import OsStuff.BuddyAlloc.Heap

/-!
# The text that both allocators share

`buddy_malloc.c` and `buddy_malloc_2.c` are the same program over two ways of
recording in `node_status` which nodes of the tree are in use.  This module
holds the common text; what differs is a parameter of it: `round`, the body of
the loop of `lower_bucket_limit`, `mark`, the update for a node that comes into
use, `finish`, what happens once a block has the right size, and `settle`, the
update and the decision in a round of `free`.

A loop of the source is a recursion on the number of rounds it can still make.
A loop that wants to go on when no round is left has no result.
-/

namespace OsStuff
namespace BuddyAlloc

/-! ## Initialisation -/

/-- The first assignments of the initialisation: `sbrk(0)` returns the current
break. -/
def placeBase (heap : Heap) : Heap :=
  { heap with
    basePtr := heap.brk
    maxPtr := heap.brk
    bucketLimit := bucketCount - 1 }

/-- Initialisation on the first call; the answer to the first request is not
looked at. -/
def initialise (platform : Platform) (grant : Nat → Bool) (heap : Heap) :
    Option Heap := do
  let heap := placeBase heap
  let (_, heap) := updateMaxPtr grant (wrap (heap.basePtr + sizeofListT)) heap
  let list ← platform.bucket (bucketCount - 1)
  some (listPush list heap.basePtr (listInit list heap))

/-- The test for the first call. -/
def ensureInitialised (platform : Platform) (grant : Nat → Bool) (heap : Heap) :
    Option Heap :=
  if heap.basePtr = 0 then initialise platform grant heap else some heap

/-! ## `lower_bucket_limit` -/

/-- The branch of `lower_bucket_limit` for an unused root: the free list of the
root is emptied and the root of twice the size becomes the only free block. -/
def liftUnusedRoot (platform : Platform) (heap : Heap) : Option Heap := do
  let list ← platform.bucket heap.bucketLimit
  let heap := listRemove list heap.basePtr heap
  let heap := { heap with bucketLimit := sizeSub heap.bucketLimit 1 }
  let list ← platform.bucket heap.bucketLimit
  some (listPush list heap.basePtr (listInit list heap))

/-- The list updates of `lower_bucket_limit` for a used root: its new right
neighbour becomes free and the list of the new root is empty. -/
def openRightChild (platform : Platform) (rightChild : Nat) (heap : Heap) :
    Option Heap := do
  let list ← platform.bucket heap.bucketLimit
  let heap := listPush list rightChild heap
  let heap := { heap with bucketLimit := sizeSub heap.bucketLimit 1 }
  let list ← platform.bucket heap.bucketLimit
  some (listInit list heap)

/-- The loop of `lower_bucket_limit`. -/
def lowerLoop (round : Heap → Option (Bool × Heap)) (bucket : Nat) :
    Nat → Heap → Option (Bool × Heap)
  | 0, heap => if bucket < heap.bucketLimit then none else some (true, heap)
  | rounds + 1, heap =>
      if bucket < heap.bucketLimit then do
        match ← round heap with
        | (false, heap) => some (false, heap)
        | (true, heap) => lowerLoop round bucket rounds heap
      else
        some (true, heap)

/-! ## `malloc` -/

/-- `bytes_needed`: all of a block that is handed out, and the left half plus
the links of its right neighbour of a block that will be split. -/
def bytesNeeded (bucket originalBucket : Nat) : Nat :=
  let size := 2 ^ (maxAllocLog2 - bucket)
  if bucket < originalBucket then size / 2 + sizeofListT else size

/-- Node `0` has no parent, so its use is not recorded. -/
def markUnlessFirst (mark : Heap → Nat → Option Heap) (heap : Heap)
    (i : Nat) : Option Heap :=
  if i ≠ 0 then mark heap i else some heap

/-- The splitting loop: go to the left child and put the right one on the free
list of its size.  Returns the last node. -/
def splitLoop (platform : Platform) (mark : Heap → Nat → Option Heap) :
    Nat → Nat → Nat → Heap → Option (Nat × Heap)
  | 0, i, _, heap => some (i, heap)
  | rounds + 1, i, bucket, heap => do
      let i := wrap (i * 2 + 1)
      let bucket := bucket + 1
      let heap ← mark heap i
      let list ← platform.bucket bucket
      let right ← ptrForNode heap (i + 1) bucket
      splitLoop platform mark rounds i bucket (listPush list right heap)

/-- The rest of a round of the search once a free block `ptr` of `bucket` has
been taken off its list. -/
def claimBlock (platform : Platform) (grant : Nat → Bool)
    (mark : Heap → Nat → Option Heap)
    (finish : Nat → Nat → Heap → Option (Nat × Heap))
    (originalBucket bucket ptr : Nat) (heap : Heap) : Option (Nat × Heap) :=
  match updateMaxPtr grant (wrap (ptr + bytesNeeded bucket originalBucket))
      heap with
  | (false, heap) => do
      let list ← platform.bucket bucket
      some (0, listPush list ptr heap)
  | (true, heap) => do
      let i ← nodeForPtr heap ptr bucket
      let heap ← markUnlessFirst mark heap i
      let (i, heap) ← splitLoop platform mark (originalBucket - bucket) i bucket
        heap
      finish ptr i heap

/-- The search loop; its first argument is `bucket + 1`, which is zero when the
loop ends. -/
def searchLoop (platform : Platform)
    (lower : Nat → Heap → Option (Bool × Heap))
    (claim : Nat → Nat → Heap → Option (Nat × Heap)) :
    Nat → Heap → Option (Nat × Heap)
  | 0, heap => some (0, heap)
  | bucket + 1, heap => do
      match ← lower bucket heap with
      | (false, heap) => some (0, heap)
      | (true, heap) => do
          let list ← platform.bucket bucket
          let (ptr, heap) := listPop list heap
          if ptr = 0 then
            if bucket ≠ heap.bucketLimit ∨ bucket = 0 then
              searchLoop platform lower claim bucket heap
            else
              match ← lower (bucket - 1) heap with
              | (false, heap) => some (0, heap)
              | (true, heap) =>
                  let (ptr, heap) := listPop list heap
                  claim bucket ptr heap
          else
            claim bucket ptr heap

/-- The body of `malloc`, with `size` the bytes to look for; the claim is made
for the bucket of the size. -/
def allocate (platform : Platform) (grant : Nat → Bool)
    (lower : Nat → Heap → Option (Bool × Heap))
    (claim : Nat → Nat → Nat → Heap → Option (Nat × Heap))
    (size : Nat) (heap : Heap) : Option (Nat × Heap) :=
  if maxAlloc < size then
    some (0, heap)
  else do
    let heap ← ensureInitialised platform grant heap
    let bucket ← bucketForRequest size
    searchLoop platform lower (claim bucket) (bucket + 1) heap

/-! ## `free` -/

/-- The merging loop: returns the node and the bucket of the block that becomes
free. -/
def mergeLoop (platform : Platform)
    (settle : Nat → Nat → Heap → Option (Bool × Heap)) :
    Nat → Nat → Nat → Heap → Option (Nat × Nat × Heap)
  | 0, i, bucket, heap => if i ≠ 0 then none else some (i, bucket, heap)
  | rounds + 1, i, bucket, heap =>
      if i ≠ 0 then do
        match ← settle i bucket heap with
        | (true, heap) => some (i, bucket, heap)
        | (false, heap) => do
            let list ← platform.bucket bucket
            let buddy ← ptrForNode heap (siblingIndex i) bucket
            mergeLoop platform settle rounds (parentIndex i) (sizeSub bucket 1)
              (listRemove list buddy heap)
      else
        some (i, bucket, heap)

/-- The body of `free` once the bucket of the block is known.  The index halves
in every round of the loop, so `i` rounds are enough. -/
def giveBack (platform : Platform)
    (settle : Nat → Nat → Heap → Option (Bool × Heap))
    (ptr bucket : Nat) (heap : Heap) : Option Heap := do
  let i ← nodeForPtr heap ptr bucket
  let (i, bucket, heap) ← mergeLoop platform settle i i bucket heap
  let list ← platform.bucket bucket
  let node ← ptrForNode heap i bucket
  some (listPush list node heap)

end BuddyAlloc
end OsStuff
