import OsStuff.BuddyAlloc.Arena
import OsStuff.BuddyAlloc.Nodes

/-!
# Clients of the arena

The abstract counterpart of a client: an arena, and the nodes of the blocks
that the client owns.  Both allocators carry out its steps.
-/

namespace OsStuff
namespace BuddyAlloc

open Library Library.DyadicTree

/-! ## The abstract client -/

/-- The arena once there is one, the nodes of the live blocks (latest first)
and the node that the last call handed out. -/
structure Tenancy where
  arena : Option Arena
  live : List Nat
  result : Option Nat

namespace Tenancy

/-- Nothing has been asked for. -/
def initial : Tenancy := ⟨none, [], none⟩

/-- The arena, set up if this has not happened. -/
def ready (grant : Nat → Bool) (tenancy : Tenancy) : Arena :=
  tenancy.arena.getD (Arena.initial grant)

/-- Ask for a block of at least `size` bytes. -/
def malloc (grant : Nat → Bool) (size : Nat) (tenancy : Tenancy) : Tenancy :=
  if maxAlloc < size then
    { tenancy with result := none }
  else
    let outcome := (tenancy.ready grant).alloc grant (bucketOf size)
    { arena := some outcome.2
      live := outcome.1.toList ++ tenancy.live
      result := outcome.1 }

/-- Give the live block with a given position back. -/
def free (index : Nat) (tenancy : Tenancy) : Option Tenancy := do
  let arena ← tenancy.arena
  let n ← tenancy.live[index]?
  some {
    arena := some (Arena.release (Nat.log2 n) n arena)
    live := tenancy.live.eraseIdx index
    result := none }

/-- One step of the abstract client; `total` is the size to look for when a
request is made. -/
def step (grant : Nat → Bool) (total : Nat → Nat) (tenancy : Tenancy) :
    Op → Option Tenancy
  | .malloc request => some (tenancy.malloc grant (total request))
  | .free index => tenancy.free index
  | .write _ _ _ => some { tenancy with result := none }

/-- The nodes of the live blocks. -/
def marked (tenancy : Tenancy) : Set Nat := { n | n ∈ tenancy.live }

end Tenancy

end BuddyAlloc
end OsStuff
