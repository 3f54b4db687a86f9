import Mathlib.Tactic
import OsStuff.Library.ByteMemory

/-!
# The memory under the two buddy allocators

What `buddy_malloc.c`, `buddy_malloc_2.c` and `list.c` share: the address
space with its program break, the intrusive lists of `list.c`, and the static
helpers that both allocators define with the same text (`update_max_ptr`,
`ptr_for_node`, `node_for_ptr`, `bucket_for_request`).

Memory is a memory of bytes; a `struct list_t` at address `a` keeps `prev` in
the word at `a` and `next` in the word at `a + 8`.  Addresses and `size_t`
values are natural numbers, and arithmetic that can leave 64 bits is reduced
explicitly.  A function that would index a static array out of bounds, shift
by more than the width of the type, or loop for ever has no result (`none`).

The `log` of a heap is not part of the program.  It records, latest first,
every store with the break at that moment, every call of `list_remove` with
the memory it found, and every request to `sbrk`.
-/

namespace OsStuff
namespace BuddyAlloc

open Library.ByteMemory

/-! ## Constants and `size_t` arithmetic -/

/-- `MIN_ALLOC_LOG2` -/
@[simp] def minAllocLog2 : Nat := 4

/-- `MIN_ALLOC` -/
@[simp] def minAlloc : Nat := 2 ^ minAllocLog2

/-- `MAX_ALLOC_LOG2` -/
@[simp] def maxAllocLog2 : Nat := 31

/-- `MAX_ALLOC` -/
@[simp] def maxAlloc : Nat := 2 ^ maxAllocLog2

/-- `BUCKET_COUNT` -/
@[simp] def bucketCount : Nat := maxAllocLog2 - minAllocLog2 + 1

/-- `HEADER_SIZE` of `buddy_malloc.c` -/
@[simp] def headerSize : Nat := 8

/-- `sizeof(struct list_t)` -/
@[simp] def sizeofListT : Nat := 16

/-- Reduction to a 64-bit `size_t` or address. -/
def wrap (value : Nat) : Nat := value % 2 ^ 64

/-- `a - b` on `size_t`, for `b` below `2 ^ 64`. -/
def sizeSub (a b : Nat) : Nat := wrap (a + 2 ^ 64 - b)

/-! ## The platform and the heap -/

/-- Where the program finds its static bucket array, the break and the
contents of memory when it starts.  Static data lies below the break, and user
addresses lie in the lower half of the address space. -/
structure Platform where
  buckets : Nat
  start : Nat
  image : Memory
  buckets_pos : 0 < buckets
  buckets_below : buckets + sizeofListT * bucketCount ≤ start
  start_low : start < 2 ^ 63

/-- `NULL` lies below the static data. -/
theorem Platform.start_pos (platform : Platform) : 0 < platform.start :=
  (Nat.lt_of_lt_of_le platform.buckets_pos (Nat.le_add_right _ _)).trans_le
    platform.buckets_below

/-- A request of `update_max_ptr` to `sbrk` for the bytes from `maxPtr` to
`newValue`, made while the break stood at `brk`. -/
structure Request where
  brk : Nat
  maxPtr : Nat
  newValue : Nat
  granted : Bool
  deriving DecidableEq, Repr

/-- Ghost record of an effect. -/
inductive Event
  | store (address brk : Nat)
  | remove (list entry : Nat) (memory : Memory)
  | sbrk (request : Request)

/-- Memory, the break, the static variables of one allocator and the ghost
log.  `asked` counts the requests made to `sbrk` so far. -/
structure Heap where
  memory : Memory
  brk : Nat
  asked : Nat
  basePtr : Nat
  maxPtr : Nat
  bucketLimit : Nat
  nodeStatus : Nat → Nat
  log : List Event

/-- The heap before the first call: all static variables are zero. -/
def Platform.boot (platform : Platform) : Heap where
  memory := platform.image
  brk := platform.start
  asked := 0
  basePtr := 0
  maxPtr := 0
  bucketLimit := 0
  nodeStatus := fun _ => 0
  log := []

/-- Address of `buckets[bucket]`. -/
def Platform.head (platform : Platform) (bucket : Nat) : Nat :=
  platform.buckets + sizeofListT * bucket

/-- `&buckets[bucket]`, defined inside the array only. -/
def Platform.bucket (platform : Platform) (bucket : Nat) : Option Nat :=
  if bucket < bucketCount then some (platform.head bucket) else none

/-- Store a word, recording the address and the break. -/
def Heap.store (heap : Heap) (address value : Nat) : Heap :=
  { heap with
    memory := storeWord heap.memory address value
    log := Event.store address heap.brk :: heap.log }

/-- `list->prev` -/
def Heap.prev (heap : Heap) (list : Nat) : Nat :=
  loadWord heap.memory list

/-- `list->next` -/
def Heap.next (heap : Heap) (list : Nat) : Nat :=
  loadWord heap.memory (list + 8)

/-- `list->prev = value` -/
def Heap.setPrev (heap : Heap) (list value : Nat) : Heap :=
  heap.store list value

/-- `list->next = value` -/
def Heap.setNext (heap : Heap) (list value : Nat) : Heap :=
  heap.store (list + 8) value

/-! ## `list.c` -/

/-- `list_init` -/
def listInit (list : Nat) (heap : Heap) : Heap :=
  (heap.setPrev list list).setNext list list

/-- `list_push` -/
def listPush (beginning newLast : Nat) (heap : Heap) : Heap :=
  let prevLast := heap.prev beginning
  let heap := heap.setPrev newLast prevLast
  let heap := heap.setNext newLast beginning
  let heap := heap.setNext prevLast newLast
  heap.setPrev beginning newLast

/-- `list_remove`.  The source passes `entry` only; `list` is the list the
caller means and goes to the log. -/
def listRemove (list entry : Nat) (heap : Heap) : Heap :=
  let heap :=
    { heap with log := Event.remove list entry heap.memory :: heap.log }
  let next := heap.next entry
  let prev := heap.prev entry
  let heap := heap.setNext prev next
  heap.setPrev next prev

/-- `list_pop`: the removed element, or `NULL` for an empty list. -/
def listPop (list : Nat) (heap : Heap) : Nat × Heap :=
  let back := heap.prev list
  if back = list then (0, heap) else (back, listRemove list back heap)

/-! ## Static helpers of both allocators -/

/-- `update_max_ptr`.  `grant k` is the kernel's answer to the `k`-th request
for memory; a granted request moves the break by the number of bytes asked. -/
def updateMaxPtr (grant : Nat → Bool) (newValue : Nat) (heap : Heap) :
    Bool × Heap :=
  if heap.maxPtr < newValue then
    let granted := grant heap.asked
    let heap :=
      { heap with
        asked := heap.asked + 1
        log := Event.sbrk ⟨heap.brk, heap.maxPtr, newValue, granted⟩ ::
          heap.log }
    if granted then
      (true,
        { heap with
          brk := heap.brk + (newValue - heap.maxPtr)
          maxPtr := newValue })
    else
      (false, heap)
  else
    (true, heap)

/-- `ptr_for_node`; the shifts are defined for buckets up to 30. -/
def ptrForNode (heap : Heap) (index bucket : Nat) : Option Nat :=
  if bucket < maxAllocLog2 then
    some (wrap (heap.basePtr +
      wrap (wrap (sizeSub index (2 ^ bucket) + 1) *
        2 ^ (maxAllocLog2 - bucket))))
  else
    none

/-- `node_for_ptr`: the pointer difference is signed and its shift
arithmetic. -/
def nodeForPtr (heap : Heap) (ptr bucket : Nat) : Option Nat :=
  if bucket < maxAllocLog2 then
    some (((((ptr : Int) - heap.basePtr) / 2 ^ (maxAllocLog2 - bucket) +
      2 ^ bucket - 1) % 2 ^ 64).toNat)
  else
    none

/-- The loop of `bucket_for_request`.  Doubling `size` reaches every request
up to `2 ^ 63` within the fuel; for larger ones the loop never ends. -/
def bucketForRequestLoop (request : Nat) : Nat → Nat → Nat → Option Nat
  | 0, _, _ => none
  | fuel + 1, bucket, size =>
      if size < request then
        bucketForRequestLoop request fuel (sizeSub bucket 1) (wrap (size * 2))
      else
        some bucket

/-- `bucket_for_request` -/
def bucketForRequest (request : Nat) : Option Nat :=
  bucketForRequestLoop request 64 (bucketCount - 1) minAlloc

/-- `(index - 1) / 2` -/
def parentIndex (index : Nat) : Nat := sizeSub index 1 / 2

/-- `((index - 1) ^ 1) + 1` -/
def siblingIndex (index : Nat) : Nat := wrap ((sizeSub index 1 ^^^ 1) + 1)

end BuddyAlloc
end OsStuff
