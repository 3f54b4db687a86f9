import OsStuff.BuddyAlloc.Blocks

/-!
# `buddy_debug_print_tree_2` and `main.c`

The printer walks over `node_status` from the root and prints a line for every
node that it meets, the right child before the left one.  It takes a node with
the status `USED` for a block when neither child is in use, and for that it
reads the statuses of the children, on the last level too.

`main` calls `malloc_2` and `free_2` as its arguments tell it and prints the tree
after each call.
-/

namespace OsStuff
namespace BuddyAlloc
namespace Malloc2

/-! ## Prefixes -/

/-- `PREFIX_SIZE` -/
def prefixSize : Nat := 6

/-- The parts of the text in front of a line. -/
inductive Segment
  | mid
  | last
  | fall
  | empty
  deriving DecidableEq, Repr

/-- `PREFIX_MID`, `PREFIX_LAST`, `PREFIX_FALL` and `PREFIX_EMPTY` -/
def Segment.text : Segment → String
  | .mid => "├─"
  | .last => "└─"
  | .fall => "│ \x08 "
  | .empty => " \x08  \x08 "

/-- Every part takes `PREFIX_SIZE` bytes, so a prefix may be cut between its
parts. -/
theorem Segment.text_size (segment : Segment) :
    segment.text.utf8ByteSize = prefixSize := by
  cases segment <;> decide

/-- A part is known by its text. -/
theorem Segment.text_injective : Function.Injective Segment.text := by
  intro segment segment' h
  cases segment <;> cases segment' <;> first | rfl | exact absurd h (by decide)

/-- `_prefix_create`; the parts of a prefix are listed from its end. -/
def prefixCreate : List Segment → List Segment
  | [] => [.mid]
  | segment :: rest =>
      .mid :: (if segment = .last then .empty else .fall) :: rest

/-- `_prefix_cut_if_ended` -/
def prefixCutIfEnded : List Segment → List Segment
  | [] => []
  | _ :: rest => .last :: rest

@[simp] theorem length_prefixCreate (parts : List Segment) :
    (prefixCreate parts).length = parts.length + 1 := by
  cases parts with
  | nil => rfl
  | cons segment rest => rfl

@[simp] theorem length_prefixCutIfEnded (parts : List Segment) :
    (prefixCutIfEnded parts).length = parts.length := by
  cases parts with
  | nil => rfl
  | cons segment rest => rfl

/-! ## Lines -/

/-- The word of a line. -/
inductive Word
  | unused
  | split
  | used
  deriving DecidableEq, Repr

def Word.text : Word → String
  | .unused => "UNUSED"
  | .split => "SPLIT"
  | .used => "USED"

/-- A line of the output. -/
structure Line where
  parts : List Segment
  word : Word
  size : Nat
  deriving DecidableEq, Repr

/-- The text of a line. -/
def Line.text (line : Line) : String :=
  String.join (line.parts.reverse.map Segment.text) ++ line.word.text ++ " [" ++
    toString line.size ++ " b]\n"

/-- What a line says about its node. -/
def Line.entry (line : Line) : Word × Nat := (line.word, line.size)

/-- How deep a line is in the printed tree. -/
def Line.depth (line : Line) : Nat := line.parts.length

/-- The lines without a deeper line right after them. -/
def childless : List Line → List Line
  | [] => []
  | [line] => [line]
  | line :: next :: rest =>
      if line.depth < next.depth then childless (next :: rest)
      else line :: childless (next :: rest)

/-! ## The printer -/

/-- `1 << (MAX_ALLOC_LOG2 - bucket)`: the shift is one of `int`, so that the
largest size is negative before it becomes a `size_t`. -/
def lineSize (bucket : Nat) : Nat :=
  if bucket = 0 then 2 ^ 64 - 2 ^ 31 else 1 <<< (maxAllocLog2 - bucket)

/-- `debug_tree_rec`; its first argument is the number of buckets from `bucket`
on. -/
def debugTreeRec (heap : Heap) : Nat → Nat → List Segment → Option (List Line)
  | 0, _, _ => some []
  | buckets + 1, index, parts => do
      let myStatus ← getNodeStatus heap index
      let size := lineSize (bucketCount - (buckets + 1))
      if myStatus = unused then
        some [⟨parts, .unused, size⟩]
      else
        let leftNodeI := wrap (index * 2 + 1)
        let leftNodeStatus ← getNodeStatus heap leftNodeI
        let rightNodeI := wrap (index * 2 + 2)
        let rightNodeStatus ← getNodeStatus heap rightNodeI
        if myStatus = used ∧ leftNodeStatus = unused ∧
            rightNodeStatus = unused then
          some [⟨parts, .used, size⟩]
        else
          let nextPrefix := prefixCreate parts
          let right ← debugTreeRec heap buckets rightNodeI nextPrefix
          let left ← debugTreeRec heap buckets leftNodeI
            (prefixCutIfEnded nextPrefix)
          -- A status that is none of the three has no line of its own.
          some ((if myStatus = used then [⟨parts, .used, size⟩]
            else if myStatus = split then [⟨parts, .split, size⟩]
            else []) ++ right ++ left)

/-- `buddy_debug_print_tree_2`; there is no result when it reads a status outside
of `node_status`, or never meets the last bucket. -/
def buddyDebugPrintTree2 (heap : Heap) : Option (List Line) := do
  let rootNodeI ← nodeForPtr heap heap.basePtr heap.bucketLimit
  if heap.bucketLimit ≤ bucketCount then
    debugTreeRec heap (bucketCount - heap.bucketLimit) rootNodeI []
  else
    none

/-! ## `main` -/

/-- A command of `main`: `a_` with the size of a request, or `f_` with an index
of `alloced`. -/
inductive Command
  | a (allocSize : Nat)
  | f (freeI : Nat)

/-- The number of entries of `alloced`. -/
def allocedSize : Nat := 100

/-- The state of the loop of `main`, with the blocks that it owns. -/
structure Session where
  client : Client
  alloced : List Nat

/-- The live blocks without the one a pointer leads to. -/
def dropLive (p : Nat) (lives : List Live) : List Live :=
  if p = 0 then lives
  else lives.eraseIdx (lives.findIdx fun live => live.pointer == p)

/-- One round of the loop of `main`, up to the printing, which changes nothing. -/
def Session.command (platform : Platform) (grant : Nat → Bool)
    (session : Session) : Command → Option Session
  | .a allocSize =>
      if session.alloced.length < allocedSize then do
        let client ← step (allocator2 platform) grant session.client
          (.malloc allocSize)
        some ⟨client, session.alloced ++ [client.result]⟩
      else
        none
  | .f freeI => do
      let p ← session.alloced[freeI]?
      let heap ← free2 platform p session.client.heap.clearLog
      some {
        client := { heap := heap, live := dropLive p session.client.live, result := 0 }
        alloced := session.alloced }

/-- The state in which `main` starts. -/
def Session.initial (platform : Platform) : Session := ⟨platform.client, []⟩

end Malloc2
end BuddyAlloc
end OsStuff
