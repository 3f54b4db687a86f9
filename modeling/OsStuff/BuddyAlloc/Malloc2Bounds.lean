import OsStuff.BuddyAlloc.Bare
import OsStuff.BuddyAlloc.Malloc2Checked
import OsStuff.BuddyAlloc.Malloc2Runs

/-!
# `malloc_2` and `free_2` stay inside their tree

The only block that `malloc_2` cannot record is the whole arena: node `0` has no
parent, and the loop that marks full ancestors starts at an index outside the
array.  Everything else stays inside, whatever the system answers, also when
the very first request is refused.
-/

namespace OsStuff
namespace BuddyAlloc
namespace Malloc2

open Library Library.DyadicTree

variable {platform : Platform} {grant : Nat → Bool} {heap : Heap}
  {client client' : Client} {tenancy : Tenancy} {arena : Arena}
  {l request : Nat}

/-- A bare heap grows without a request to the system. -/
theorem growRound_bare (grant : Nat → Bool) (hbare : Bare platform heap arena)
    (hlimit : arena.limit = l + 1) :
    ∃ heap', Checked.growRound platform grant heap = some (true, heap') ∧
      Bare platform heap' arena.lift := by
  have hlt := hbare.sim.shape.limit_lt
  have htwo : 2 ^ 1 ≤ 2 ^ arena.limit :=
    Nat.pow_le_pow_right (by omega) (by omega)
  have hbound : 2 ^ arena.limit < 2 ^ 28 :=
    Nat.pow_lt_pow_right (by omega) (by omega)
  have hroot : nodeForPtr heap heap.basePtr heap.bucketLimit =
      some (2 ^ arena.limit - 1) := hbare.sim.root_index
  have hstatus : Checked.getNodeStatus heap (2 ^ arena.limit - 1) =
      some unused := by
    rw [Checked.getNodeStatus_eq heap
        (Checked.pred_lt_nodeCount (by omega) hbound),
      Malloc2.getNodeStatus_eq heap (by omega) hbound, hbare.status, count_zero,
      unused]
  obtain ⟨heap', hlift, hbare'⟩ := hbare.lift hlimit
  refine ⟨heap', ?_, hbare'⟩
  unfold Checked.growRound
  simp only [hroot, hstatus, hlift, Option.bind_eq_bind, Option.bind_some,
    if_pos]

theorem liftsBare (platform : Platform) :
    (Checked.bookkeeping platform).LiftsBare where
  tracked _ hlimit := Counts.initial.lift hlimit
  round grant _ _ _ hbare hlimit := growRound_bare grant hbare hlimit

/-! ## Runs -/

/-- The system will not provide the whole arena: on the first call this is its
second request, and later the next one, unless it has been provided. -/
def WholeRefused (grant : Nat → Bool) (heap : Heap) : Prop :=
  if heap.basePtr = 0 then grant 1 = false
  else heap.maxPtr < heap.basePtr + 2 ^ 31 ∧ grant heap.asked = false

/-- The whole arena is not handed out: more than half of it is only asked for
while a block is live or when the system refuses. -/
def NotWhole (grant : Nat → Bool) (client : Client) : Op → Prop
  | .malloc request => 2 ^ 30 < request → client.live = [] →
      request ≤ 2 ^ 31 → WholeRefused grant client.heap
  | _ => True

/-- What the indices of `malloc_2` and `free_2` need to stay in the tree. -/
def InBounds (grant : Nat → Bool) (client : Client) (op : Op) : Prop :=
  NotWhole grant client op ∧ RootCounted client op

instance (grant : Nat → Bool) (heap : Heap) : Decidable (WholeRefused grant heap) :=
  inferInstanceAs (Decidable (if heap.basePtr = 0 then _ = _ else _ ∧ _))

instance (grant : Nat → Bool) (client : Client) :
    (op : Op) → Decidable (NotWhole grant client op)
  | .malloc _ => inferInstanceAs (Decidable (_ → _ → _ → WholeRefused _ _))
  | .free _ => inferInstanceAs (Decidable True)
  | .write _ _ _ => inferInstanceAs (Decidable True)

instance (grant : Nat → Bool) (client : Client) (op : Op) :
    Decidable (InBounds grant client op) :=
  inferInstanceAs (Decidable (_ ∧ _))

/-- A block that is handed out can be recorded. -/
theorem NotWhole.highest (hnot : NotWhole grant client (.malloc request))
    (hgrant : tenancy.arena = none → grant 0 = true)
    (hrefines : Refines (Checked.bookkeeping platform) client tenancy)
    (hsize : request ≤ maxAlloc)
    (hsome : (tenancy.malloc grant request).result ≠ none) :
    1 ≤ bucketOf request := by
  -- A request for bucket 0 would take the whole arena, which fails in a fresh heap, in an
  -- empty one and in one in use, each for its own reason.
  by_contra hzero
  have hlarge : 2 ^ 30 < request := by
    by_contra hsmall
    exact hzero (one_le_bucketOf (by omega))
  refine hsome ?_
  unfold Tenancy.malloc
  rw [if_neg (by omega), show bucketOf request = 0 by omega]
  cases harena : tenancy.arena with
  | none =>
      obtain ⟨hfresh, hnil, -⟩ := hrefines.fresh harena
      have hrefused := hnot hlarge hnil (by simpa using hsize)
      unfold WholeRefused at hrefused
      rw [if_pos hfresh.base] at hrefused
      have hready : tenancy.ready grant = Arena.initial grant := by
        unfold Tenancy.ready
        rw [harena, Option.getD_none]
      rw [hready]
      refine Arena.alloc_whole_refused ?_ ?_ hrefused
      · exact (Arena.Shape.initial (hgrant harena)).root_free_iff.mpr rfl
      · simp [Arena.initial, hgrant harena]
  | some arena =>
      have hrunning := hrefines.running arena harena
      have hsim := hrunning.sim
      have hready : tenancy.ready grant = arena := by
        unfold Tenancy.ready
        rw [harena, Option.getD_some]
      rw [hready]
      by_cases hlive : client.live = []
      · have hnil : tenancy.live = [] := by
          have howns := hrunning.owns
          rw [hlive] at howns
          exact List.forall₂_nil_left_iff.mp howns
        have hrefused := hnot hlarge hlive (by simpa using hsize)
        unfold WholeRefused at hrefused
        rw [if_neg hsim.mapped.base_ne_zero, hsim.top, hsim.asked] at hrefused
        refine Arena.alloc_whole_refused (hsim.shape.root_free_iff.mpr ?_)
          (by omega) hrefused.2
        rw [hnil]
        simp
      · exact Arena.alloc_whole_used (hsim.shape.free_limit_nil fun hempty =>
          hlive (forall₂_eq_nil_of_empty hrunning.owns hempty))

/-- The whole arena is only requested when the system refuses it. -/
theorem NotWhole.refused (hnot : NotWhole grant client (.malloc request))
    (hlive : client.live = []) (hsize : request ≤ maxAlloc)
    (hzero : bucketOf request < 1) : WholeRefused grant client.heap := by
  have hlarge : 2 ^ 30 < request := by
    by_contra hsmall
    have hone := one_le_bucketOf (not_lt.mp hsmall)
    omega
  exact hnot hlarge hlive (by simpa using hsize)

/-- The condition of the checked bookkeeping is met. -/
theorem RootCounted.allows_checked {op : Op} (hcounted : RootCounted client op)
    (hrefines : Refines (Checked.bookkeeping platform) client tenancy) :
    (Checked.bookkeeping platform).Allows client tenancy op := by
  refine Bookkeeping.allows_of_freeable fun index arena hop harena => ?_
  subst hop
  exact hcounted.freeable (hrefines.running arena harena)

/-- The whole arena is not handed out by a tree without memory either. -/
theorem InBounds.recordable {op : Op} (hin : InBounds grant client op) :
    Recordable (Checked.bookkeeping platform) grant client op where
  running tenancy hrefines hgrant request hop hsize hsome := by
    subst hop
    exact hin.1.highest hgrant hrefines hsize hsome
  fresh hfresh hlive request hop hsize hzero hgranted := by
    subst hop
    have hwhole := hin.1.refused hlive hsize hzero
    unfold WholeRefused at hwhole
    rw [if_pos hfresh.base, hgranted] at hwhole
    exact absurd hwhole (by simp)
  bare arena hbare hlive request hop hsize hzero hgranted := by
    subst hop
    have hwhole := hin.1.refused hlive hsize hzero
    have hasked : client.heap.asked = arena.asked := hbare.sim.asked
    unfold WholeRefused at hwhole
    rw [if_neg hbare.base_ne_zero, hasked, hgranted] at hwhole
    exact absurd hwhole.2 (by simp)

/-- Every legal operation is carried out with checked indices. -/
theorem reached_step {op : Op}
    (hreached : Reached (Checked.bookkeeping platform) client)
    (hlegal : op.Legal (allocator2 platform) client)
    (hin : InBounds grant client op) :
    ∃ next, step (Checked.allocator platform) grant client op = some next ∧
      Reached (Checked.bookkeeping platform) next :=
  hreached.step (liftsBare platform) ((Checked.weaker platform).legal hlegal)
    hin.recordable fun _ hrefines => hin.2.allows_checked hrefines

/-- A run of the source whose steps all meet the condition is one with checked
indices. -/
theorem reached_run {ops : List Op} {final : Client}
    (hrun : GuardedRun (step (allocator2 platform) grant)
      (fun client op _ => InBounds grant client op) client ops final)
    (hreached : Reached (Checked.bookkeeping platform) client) :
    run (step (Checked.allocator platform) grant) client ops = some final ∧
      Reached (Checked.bookkeeping platform) final := by
  refine hrun.carried (fun client op next hreached hstep hin => ?_) hreached
  obtain ⟨next', hchecked, hreached'⟩ :=
    reached_step hreached (Op.legal_of_step hstep) hin
  have hsource := (Checked.weaker platform).step_below _ _ next' hchecked
  obtain rfl := Option.some.inj (hsource.symm.trans hstep)
  exact ⟨hchecked, hreached'⟩

/-- In a run whose steps all meet the condition every step is possible with
checked indices, and it ends where the step of the source ends. -/
theorem stays_in_tree (platform : Platform) (grant : Nat → Bool) (ops : List Op)
    (client : Client)
    (hrun : GuardedRun (step (allocator2 platform) grant)
      (fun client op _ => InBounds grant client op) platform.client ops client) :
    run (step (Checked.allocator platform) grant) platform.client ops =
        some client ∧
      ∀ op : Op, op.Legal (allocator2 platform) client →
        InBounds grant client op →
        ∃ next, step (Checked.allocator platform) grant client op = some next ∧
          step (allocator2 platform) grant client op = some next := by
  obtain ⟨hchecked, hreached⟩ := reached_run hrun Reached.initial
  refine ⟨hchecked, fun op hlegal hin => ?_⟩
  obtain ⟨next, hstep, -⟩ := reached_step hreached hlegal hin
  exact ⟨next, hstep, (Checked.weaker platform).step_below client op next hstep⟩

/-- A system that refuses the second request. -/
def refusing (asked : Nat) : Bool := asked != 1

/-- The whole arena is requested in vain, then two blocks are. -/
def refusedOps : List Op :=
  [.malloc (2 ^ 31), .malloc 16, .malloc 100, .free 1, .write 0 3 7]

theorem refusedOps_live : (run (fun client op =>
    (step (allocator2 samplePlatform) refusing client op).filter
      fun _ => InBounds refusing client op) samplePlatform.client
        refusedOps).map Client.live = some [⟨0x100080, 100⟩] := by
  decide +kernel

theorem refusedOps_run : (run (fun client op =>
    (step (allocator2 samplePlatform) refusing client op).filter
      fun _ => InBounds refusing client op) samplePlatform.client
        refusedOps).isSome = true := by
  rw [← Option.isSome_map, refusedOps_live]
  rfl

def refusedClient : Client := Option.get _ refusedOps_run

theorem refusedClient_live : refusedClient.live = [⟨0x100080, 100⟩] := by
  have hlive := refusedOps_live
  rw [← Option.some_get refusedOps_run] at hlive
  exact Option.some.inj hlive

theorem stays_in_tree_sample :
    refusedClient.live = [⟨0x100080, 100⟩] ∧
      run (step (Checked.allocator samplePlatform) refusing)
        samplePlatform.client refusedOps = some refusedClient :=
  ⟨refusedClient_live,
    (stays_in_tree samplePlatform refusing refusedOps refusedClient
      (GuardedRun.of_checked (Option.some_get refusedOps_run).symm)).1⟩

/-- After `reuseOps` an entry of a free list lies in a live block.  Writing into
the block makes the list lead out of the arena. -/
def strayOps : List Op := reuseOps ++ [.write 0 20 1, .malloc 16]

theorem strayOps_run : (runClient (allocator2 samplePlatform) samplePlatform
    Arena.granting strayOps).isSome = true := by
  decide +kernel

def strayClient : Client := Option.get _ strayOps_run

/-- The first request is for the whole arena, or the list leads out of it: the
call reads a status outside the tree. -/
theorem request_leaves_tree :
    step (Checked.allocator samplePlatform) Arena.granting samplePlatform.client
        (.malloc (2 ^ 31)) = none ∧
      runClient (allocator2 samplePlatform) samplePlatform Arena.granting
        strayOps = some strayClient ∧
      step (Checked.allocator samplePlatform) Arena.granting strayClient
        (.malloc 16) = none := by
  have hwhole : (step (Checked.allocator samplePlatform) Arena.granting
      samplePlatform.client (.malloc (2 ^ 31))).isNone = true := by
    decide +kernel
  have hstray : (step (Checked.allocator samplePlatform) Arena.granting
      strayClient (.malloc 16)).isNone = true := by
    decide +kernel
  exact ⟨Option.isNone_iff_eq_none.mp hwhole, (Option.some_get strayOps_run).symm,
    Option.isNone_iff_eq_none.mp hstray⟩

end Malloc2
end BuddyAlloc
end OsStuff
