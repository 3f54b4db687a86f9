import OsStuff.Library.Run
import OsStuff.BuddyAlloc.Malloc1
import OsStuff.BuddyAlloc.Malloc2
import Mathlib.Data.Nat.Log

/-!
# Clients of an allocator

A client asks for memory, frees pointers it still owns and writes into the
bytes it asked for; nothing else happens to the process.  `Client` pairs the
heap with the client's own knowledge, the live pointers and the sizes it
requested.  The definitions are shared by both allocators.
-/

namespace OsStuff
namespace BuddyAlloc

open Library

/-- The smallest power of two that is at least `max(16, size)`. -/
def blockSize (size : Nat) : Nat := 2 ^ Nat.clog 2 (max minAlloc size)

/-- A pointer the client owns and the size it asked for. -/
structure Live where
  pointer : Nat
  request : Nat
  deriving DecidableEq, Repr

/-- The heap, the live pointers (latest first) and what the last call of
`malloc` returned. -/
structure Client where
  heap : Heap
  live : List Live
  result : Nat

/-- What the client may do: request memory, free or write to the live pointer
with a given position in the list. -/
inductive Op
  | malloc (request : Nat)
  | free (index : Nat)
  | write (index offset : Nat) (byte : UInt8)

/-- An allocator: its two functions, the distance of a pointer from the start
of its block, and the size the allocator looks for when asked for `request`
bytes. -/
structure Allocator where
  malloc : (Nat → Bool) → Nat → Heap → Option (Nat × Heap)
  free : Nat → Heap → Option Heap
  header : Nat
  total : Nat → Nat

/-- `malloc_1` and `free_1` -/
def allocator1 (platform : Platform) : Allocator where
  malloc := Malloc1.malloc1 platform
  free := Malloc1.free1 platform
  header := headerSize
  total request := wrap (request + headerSize)

/-- `malloc_2` and `free_2` -/
def allocator2 (platform : Platform) : Allocator where
  malloc := Malloc2.malloc2 platform
  free := Malloc2.free2 platform
  header := 0
  total request := request

/-- First address of the block of a live pointer. -/
def Allocator.blockStart (allocator : Allocator) (live : Live) : Nat :=
  live.pointer - allocator.header

/-- Size of the block of a live pointer. -/
def Allocator.blockBytes (allocator : Allocator) (live : Live) : Nat :=
  blockSize (allocator.total live.request)

/-- The bytes of its request that a client may write: all of them, unless the
block is too small to hold them. -/
def Allocator.usable (allocator : Allocator) (live : Live) : Nat :=
  min live.request (allocator.blockBytes live - allocator.header)

/-- The heap with an empty log. -/
def Heap.clearLog (heap : Heap) : Heap := { heap with log := [] }

/-- One step of the client.  The log of the heap starts afresh, so that
afterwards it holds the effects of this step. -/
def step (allocator : Allocator) (grant : Nat → Bool) (client : Client) :
    Op → Option Client
  | .malloc request =>
      if request < 2 ^ 64 then do
        let (pointer, heap) ← allocator.malloc grant request client.heap.clearLog
        some {
          heap := heap
          live := if pointer = 0 then client.live
            else ⟨pointer, request⟩ :: client.live
          result := pointer }
      else
        none
  | .free index => do
      let live ← client.live[index]?
      let heap ← allocator.free live.pointer client.heap.clearLog
      some { heap := heap, live := client.live.eraseIdx index, result := 0 }
  | .write index offset byte => do
      let live ← client.live[index]?
      if offset < allocator.usable live then
        some {
          heap := { client.heap.clearLog with
            memory := Function.update client.heap.memory
              (live.pointer + offset) byte }
          live := client.live
          result := 0 }
      else
        none

/-- The operations open to the client: requests are `size_t` values, and only
live pointers are freed or written through. -/
def Op.Legal (allocator : Allocator) (client : Client) : Op → Prop
  | .malloc request => request < 2 ^ 64
  | .free index => index < client.live.length
  | .write index offset _ =>
      ∃ live, client.live[index]? = some live ∧ offset < allocator.usable live

/-- The operation is a call of the allocator. -/
def Op.IsCall : Op → Prop
  | .write _ _ _ => False
  | _ => True

/-- The operation requests at most `bound` bytes, if any. -/
def Op.AtMost (bound : Nat) : Op → Prop
  | .malloc request => request ≤ bound
  | _ => True

/-- The client before its first call. -/
def Platform.client (platform : Platform) : Client where
  heap := platform.boot
  live := []
  result := 0

/-- The state after a sequence of client operations, starting with a heap that
has never been used. -/
def runClient (allocator : Allocator) (platform : Platform)
    (grant : Nat → Bool) (ops : List Op) : Option Client :=
  run (step allocator grant) platform.client ops

/-- An operation that is carried out is legal. -/
theorem Op.legal_of_step {allocator : Allocator} {grant : Nat → Bool}
    {client client' : Client} {op : Op}
    (hstep : step allocator grant client op = some client') :
    op.Legal allocator client := by
  cases op with
  | malloc request =>
      by_contra hlarge
      have hlt : ¬ request < 2 ^ 64 := hlarge
      simp only [step, if_neg hlt] at hstep
      exact absurd hstep (by simp)
  | free index =>
      obtain ⟨live, hlive, -⟩ := Option.bind_eq_some_iff.mp hstep
      exact (List.getElem?_eq_some_iff.mp hlive).1
  | write index offset byte =>
      obtain ⟨live, hlive, hstep⟩ := Option.bind_eq_some_iff.mp hstep
      refine ⟨live, hlive, ?_⟩
      by_contra hoffset
      rw [if_neg hoffset] at hstep
      exact absurd hstep (by simp)

/-- The requests of live pointers are requests that were made. -/
theorem live_atMost {allocator : Allocator} {grant : Nat → Bool} {bound : Nat}
    {client final : Client} {ops : List Op}
    (hrun : GuardedRun (step allocator grant) (fun _ op _ => op.AtMost bound)
      client ops final)
    (hclient : ∀ live ∈ client.live, live.request ≤ bound) :
    ∀ live ∈ final.live, live.request ≤ bound := by
  let Bounded : Client → Prop := fun client =>
    ∀ live ∈ client.live, live.request ≤ bound
  show Bounded final
  refine hrun.invariant ?_ hclient
  intro client op next hlive hstep hop live hmem
  cases op with
  -- Only malloc adds a live block, and its request is bounded.
  | malloc request =>
      simp only [step, Option.bind_eq_bind] at hstep
      split at hstep
      · obtain ⟨outcome, -, hnext⟩ := Option.bind_eq_some_iff.mp hstep
        obtain rfl := Option.some.inj hnext
        simp only at hmem
        split at hmem
        · exact hlive live hmem
        · rcases List.mem_cons.mp hmem with rfl | hmem
          · exact hop
          · exact hlive live hmem
      · exact absurd hstep (by simp)
  | free index =>
      obtain ⟨freed, -, hstep⟩ := Option.bind_eq_some_iff.mp hstep
      obtain ⟨heap, -, hnext⟩ := Option.bind_eq_some_iff.mp hstep
      obtain rfl := Option.some.inj hnext
      exact hlive live (List.mem_of_mem_eraseIdx hmem)
  | write index offset byte =>
      obtain ⟨written, -, hstep⟩ := Option.bind_eq_some_iff.mp hstep
      split at hstep
      · obtain rfl := Option.some.inj hstep
        exact hlive live hmem
      · exact absurd hstep (by simp)

end BuddyAlloc
end OsStuff
