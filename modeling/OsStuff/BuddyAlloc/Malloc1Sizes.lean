import OsStuff.BuddyAlloc.Bare
import OsStuff.BuddyAlloc.Malloc1Runs

/-!
# Sizes of the blocks of `malloc_1`

`malloc_1` looks for a block of `request + HEADER_SIZE` bytes, and the sum is a
`size_t`.  A block that is returned has room for its header and the request
unless the sum wraps round, in every state that can be reached, whatever the
system has answered before.
-/

namespace OsStuff
namespace BuddyAlloc
namespace Malloc1

open Library Library.DyadicTree

variable {platform : Platform} {grant : Nat → Bool} {heap : Heap}
  {client client' : Client} {arena : Arena} {l request : Nat}

/-! ## Every answer of the system -/

theorem growRound_bare (grant : Nat → Bool) (hbare : Bare platform heap arena)
    (hlimit : arena.limit = l + 1) :
    ∃ heap', growRound platform grant heap = some (true, heap') ∧
      Bare platform heap' arena.lift := by
  have hlt := hbare.sim.shape.limit_lt
  have htwo : 2 ^ 1 ≤ 2 ^ arena.limit :=
    Nat.pow_le_pow_right (by omega) (by omega)
  have hpow : 2 ^ arena.limit < 2 ^ 28 :=
    Nat.pow_lt_pow_right (by omega) (by omega)
  have hsplit := parentIsSplit_eq heap (by omega) hpow
  rw [hbare.status, show splitBit (fun _ => 0) (2 ^ arena.limit / 2) = false by
    simp [splitBit]] at hsplit
  obtain ⟨heap', hlift, hbare'⟩ := hbare.lift hlimit
  have hroot : nodeForPtr heap heap.basePtr heap.bucketLimit =
      some (2 ^ arena.limit - 1) := hbare.sim.root_index
  exact ⟨heap', growRound_lifted hroot hsplit hlift, hbare'⟩

theorem liftsBare (platform : Platform) : (bookkeeping platform).LiftsBare where
  tracked _ _ := flags_zero.limit_of_empty _
  round grant _ _ _ hbare hlimit := growRound_bare grant hbare hlimit

/-- Every legal operation leads to a state that can be reached. -/
theorem reached_step {op : Op} (hreached : Reached (bookkeeping platform) client)
    (hlegal : op.Legal (allocator1 platform) client) :
    ∃ next, step (allocator1 platform) grant client op = some next ∧
      Reached (bookkeeping platform) next :=
  hreached.step (liftsBare platform) hlegal
    (Recordable.of_highest fun _ _ => Nat.zero_le _) fun tenancy _ =>
      allows client tenancy op

/-- Every state that the client reaches, whatever the system answers. -/
theorem run_reached {ops : List Op}
    (hrun : runClient (allocator1 platform) platform grant ops = some client) :
    Reached (bookkeeping platform) client := by
  refine run_invariant (fun client op next hreached hstep => ?_) Reached.initial
    hrun
  obtain ⟨next', hstep', hreached'⟩ :=
    reached_step hreached (Op.legal_of_step hstep)
  obtain rfl : next = next' := Option.some.inj (hstep.symm.trans hstep')
  exact hreached'

/-! ## Sizes -/

/-- The block that a call of `malloc_1` has taken.  It starts with the header,
and with the blocks that were live before and those that are free afterwards it
makes up the tree. -/
structure Took (platform : Platform) (client client' : Client) (block : Block) :
    Prop where
  start : client'.result = block.start + headerSize
  tiles : Tiles (block :: (client.live.map (allocator1 platform).block ++
    client'.heap.buckets.flatMap (platform.freeBlocks client'.heap)))
    client'.heap.tree

/-- A request is met with a block that has room for it, or with `NULL`; if it is
too large for any block the state stays as it is. -/
structure RequestMet (platform : Platform) (grant : Nat → Bool) (client : Client)
    (request : Nat) : Prop where
  fits : ∃ client', step (allocator1 platform) grant client (.malloc request) =
      some client' ∧ (client'.result ≠ 0 →
        ∃ block, Took platform client client' block ∧
          request + headerSize ≤ block.size)
  refused : maxAlloc - headerSize < request →
    step (allocator1 platform) grant client (.malloc request) =
      some { heap := client.heap.clearLog, live := client.live, result := 0 }

/-- The client that a call returns to. -/
theorem step_malloc_live
    (hstep : step (allocator1 platform) grant client (.malloc request) =
      some client') (hresult : client'.result ≠ 0) :
    client'.live = ⟨client'.result, request⟩ :: client.live := by
  obtain ⟨-, outcome, -, rfl⟩ := step_malloc_iff.mp hstep
  exact if_neg hresult

/-- The block of the last pointer that was returned is the one that was taken. -/
theorem took_of_reached (hreached : Reached (bookkeeping platform) client')
    (hstep : step (allocator1 platform) grant client (.malloc request) =
      some client') (hresult : client'.result ≠ 0) :
    Took platform client client'
      ((allocator1 platform).block ⟨client'.result, request⟩) := by
  have hlive := step_malloc_live hstep hresult
  rcases hreached with ⟨tenancy, hrefines⟩ | ⟨hnil, -⟩
  · cases harena : tenancy.arena with
    | none =>
        obtain ⟨-, hnil, -⟩ := hrefines.fresh harena
        exact absurd (hlive.symm.trans hnil) (by simp)
    | some arena =>
        have hrunning := hrefines.running arena harena
        have htiles := hrunning.tiles
        have howns := hrunning.owns
        rw [hlive] at howns htiles
        refine ⟨?_, htiles⟩
        obtain ⟨n, nodes, hown, -, -⟩ := List.forall₂_cons_left_iff.mp howns
        have hpointer : client'.result = _ + headerSize := hown.pointer
        change client'.result = client'.result - headerSize + headerSize
        omega
  · exact absurd (hlive.symm.trans hnil) (by simp)

/-- A request is met whenever the sum does not wrap round. -/
theorem requestMet_of_reached (hreached : Reached (bookkeeping platform) client)
    (hrequest : request + headerSize < 2 ^ 64) :
    RequestMet platform grant client request := by
  have htotal : wrap (request + headerSize) = request + headerSize :=
    wrap_of_lt hrequest
  have hlegal : (Op.malloc request).Legal (allocator1 platform) client :=
    show request < 2 ^ 64 by omega
  obtain ⟨client', hstep, hreached'⟩ := reached_step hreached hlegal
  constructor
  · refine ⟨client', hstep, fun hresult =>
      ⟨_, took_of_reached hreached' hstep hresult, ?_⟩⟩
    have hle := le_blockSize (wrap (request + headerSize))
    change request + headerSize ≤ blockSize (wrap (request + headerSize))
    omega
  · intro hlarge
    have hmalloc : (allocator1 platform).malloc grant request
        client.heap.clearLog = some (0, client.heap.clearLog) := by
      change malloc1 platform grant request _ = _
      unfold malloc1 allocate
      rw [htotal, if_pos (by omega)]
    simp only [step, hmalloc, if_pos (show request < 2 ^ 64 by omega),
      Option.bind_eq_bind, Option.bind_some, if_pos]

/-- The block that is returned for a request that makes the sum wrap round. -/
theorem wrapped_requests : ∀ k < 8,
    (step (allocator1 samplePlatform) Arena.granting samplePlatform.client
      (.malloc (2 ^ 64 - 8 + k))).map Client.result = some 0x100008 := by
  decide +kernel

/-- `malloc_1` never returns a block that is too small, and refuses what no
block has room for, exactly for the requests with which the sum of request and
header does not wrap round. -/
theorem requests_met_iff (request : Nat) (hrequest : request < 2 ^ 64) :
    (∀ platform grant ops client,
      runClient (allocator1 platform) platform grant ops = some client →
      RequestMet platform grant client request) ↔
    request + headerSize < 2 ^ 64 := by
  constructor
  · intro hall
    by_contra hwraps
    simp only [headerSize] at hwraps
    have hmet := hall samplePlatform Arena.granting [] _ (run_nil _)
    have hresult := wrapped_requests (request - (2 ^ 64 - 8)) (by omega)
    have hlarge : maxAlloc - headerSize < request := by
      simp only [maxAlloc, maxAllocLog2, headerSize]
      omega
    rw [show 2 ^ 64 - 8 + (request - (2 ^ 64 - 8)) = request by omega,
      hmet.refused hlarge] at hresult
    simp at hresult
  · intro hsum platform grant ops client hrun
    exact requestMet_of_reached (run_reached hrun) hsum

theorem requests_met_iff_sample :
    RequestMet samplePlatform sampleGrant sampleClient 100 :=
  (requests_met_iff 100 (by norm_num)).mpr (by norm_num) _ _ _ _
    (Option.some_get sampleOps_run).symm

/-- The block that is taken lies in the tree. -/
theorem Took.size_le {block : Block} (htook : Took platform client client' block) :
    block.size ≤ client'.heap.tree.size := by
  by_contra hlarge
  have hinside : ∀ y, block.Contains y → client'.heap.tree.Contains y :=
    fun y hy => (htook.tiles.2 y).mpr ⟨block, List.mem_cons_self, hy⟩
  have hfirst := hinside block.start ⟨le_refl _, by omega⟩
  have hlast := hinside (block.start + block.size - 1) ⟨by omega, by omega⟩
  simp only [Block.Contains] at hfirst hlast
  omega

theorem wrapped_run : (runClient (allocator1 samplePlatform) samplePlatform
    Arena.granting [.malloc (2 ^ 64 - 1)]).isSome = true := by
  decide +kernel

def wrappedClient : Client := Option.get _ wrapped_run

/-- The largest `size_t` value is met with a block of at most 16 bytes. -/
theorem largest_request_small :
    step (allocator1 samplePlatform) Arena.granting samplePlatform.client
        (.malloc (2 ^ 64 - 1)) = some wrappedClient ∧
      wrappedClient.result = 0x100008 ∧
      (∀ block, Took samplePlatform samplePlatform.client wrappedClient block →
        block.size ≤ 16) ∧
      ¬ RequestMet samplePlatform Arena.granting samplePlatform.client
        (2 ^ 64 - 1) := by
  have hrun : run (step (allocator1 samplePlatform) Arena.granting)
      samplePlatform.client [.malloc (2 ^ 64 - 1)] = some wrappedClient :=
    (Option.some_get wrapped_run).symm
  obtain ⟨next, hstep, hnil⟩ := run_cons.mp hrun
  obtain rfl := Option.some.inj hnil
  have hresult : wrappedClient.result = 0x100008 := by decide +kernel
  have htree : wrappedClient.heap.tree.size = 16 := by decide +kernel
  refine ⟨hstep, hresult, fun block htook => htook.size_le.trans_eq htree,
    fun hmet => ?_⟩
  have hnull := hmet.refused (by norm_num)
  rw [hstep, Option.some.injEq] at hnull
  rw [hnull] at hresult
  simp at hresult

end Malloc1
end BuddyAlloc
end OsStuff
