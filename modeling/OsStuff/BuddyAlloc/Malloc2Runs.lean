import OsStuff.BuddyAlloc.ArenaSearch
import OsStuff.BuddyAlloc.Malloc1Runs
import OsStuff.BuddyAlloc.StatusCounts

/-!
# Runs of `malloc_2` and `free_2`

`free_2` counts the parent of the freed block down.  When the last live block is
freed this is the parent of the root, and its count need not include the root:
`lower_bucket_limit` does not count a root that is in use.  A run in which no
call of `free_2` counts a zero down is a run of the abstract client.
-/

namespace OsStuff
namespace BuddyAlloc
namespace Malloc2

open Library Library.DyadicTree

variable {platform : Platform} {grant : Nat → Bool} {ops : List Op}
  {client client' : Client} {tenancy : Tenancy} {arena : Arena} {heap : Heap}
  {nodes : List Nat}

/-- The status of the parent of the root. -/
def rootParentStatus (heap : Heap) : Option Nat := do
  let root ← nodeForPtr heap heap.basePtr heap.bucketLimit
  getNodeStatus heap (parentIndex root)

/-- When a call of `free_2` leaves no live block, the parent of the root is not
`UNUSED`.  The parent is node `0` when the limit is `1`, and there is none when
the limit is `0`. -/
def RootCounted (client : Client) : Op → Prop
  | .free index => client.live.eraseIdx index = [] →
      1 < client.heap.bucketLimit → rootParentStatus client.heap ≠ some unused
  | _ => True

instance (client : Client) : (op : Op) → Decidable (RootCounted client op)
  | .malloc _ => inferInstanceAs (Decidable True)
  | .free _ => inferInstanceAs (Decidable (_ → _ → _ ≠ _))
  | .write _ _ _ => inferInstanceAs (Decidable True)

instance (bound : Nat) : (op : Op) → Decidable (op.AtMost bound)
  | .malloc _ => inferInstanceAs (Decidable (_ ≤ _))
  | .free _ => inferInstanceAs (Decidable True)
  | .write _ _ _ => inferInstanceAs (Decidable True)

theorem rootParentStatus_eq (hsim : Sim platform heap arena { n | n ∈ nodes })
    (hlimit : 1 ≤ arena.limit) :
    rootParentStatus heap = some (count heap.nodeStatus (2 ^ arena.limit / 2)) := by
  have hlt := hsim.shape.limit_lt
  have htwo : 2 ^ 1 ≤ 2 ^ arena.limit := Nat.pow_le_pow_right (by omega) hlimit
  have hbound : 2 ^ arena.limit < 2 ^ 28 :=
    Nat.pow_lt_pow_right (by omega) (by omega)
  unfold rootParentStatus
  refine Option.bind_eq_some_iff.mpr ⟨_, hsim.root_index, ?_⟩
  rw [parentIndex_eq (by omega) (by omega)]
  exact getNodeStatus_eq heap (by omega) (by omega)

/-- The parent of the root is counted whenever the last block is freed. -/
theorem RootCounted.freeable {keeping : Bookkeeping platform} {index : Nat}
    (hcounted : RootCounted client (.free index))
    (hrunning : Running keeping client.heap client.live arena nodes) :
    Freeable client.heap.nodeStatus arena.limit
      { n | n ∈ nodes.eraseIdx index } := by
  by_cases hlast : client.live.eraseIdx index = []
  · by_cases hlow : arena.limit ≤ 1
    · exact Or.inr (Or.inl hlow)
    · have hlimit := hrunning.sim.limit
      have hstatus := hcounted hlast (by omega)
      rw [rootParentStatus_eq hrunning.sim (by omega)] at hstatus
      exact Or.inr (Or.inr fun hcount => hstatus (by rw [hcount]))
  · -- A node stays taken for every pointer that stays live.
    exact Or.inl fun hempty =>
      hlast (forall₂_eq_nil_of_empty (forall₂_eraseIdx hrunning.owns index) hempty)

/-- The condition of the bookkeeping is met. -/
theorem RootCounted.allows {op : Op} (hcounted : RootCounted client op)
    (hrefines : Refines (bookkeeping platform) client tenancy) :
    (bookkeeping platform).Allows client tenancy op := by
  refine Bookkeeping.allows_of_freeable fun index arena hop harena => ?_
  subst hop
  exact hcounted.freeable (hrefines.running arena harena)

/-- Every run in which the root is counted is a run of the abstract client. -/
theorem run_refines {guard : Client → Op → Client → Prop} (hgrant : grant 0 = true)
    (hcounted : ∀ client op next, guard client op next → RootCounted client op)
    (hrun : GuardedRun (step (allocator2 platform) grant) guard platform.client
      ops client) :
    ∃ tenancy, run (Tenancy.step grant (allocator2 platform).total)
        Tenancy.initial ops = some tenancy ∧
      Refines (bookkeeping platform) client tenancy :=
  Refines.run hgrant
    (fun client op next _ hrefines hguard =>
      (hcounted client op next hguard).allows hrefines)
    hrun (Refines.initial : Refines (bookkeeping platform) _ _)

/-- Requests up to half of the largest block do not need the largest block. -/
theorem one_le_bucketOf {request : Nat} (hrequest : request ≤ 2 ^ 30) :
    1 ≤ bucketOf request := by
  by_contra hzero
  have hsize : blockSize request = 2 ^ (31 - bucketOf request) :=
    blockSize_eq (by omega)
  have hle : blockSize request ≤ 2 ^ 30 := by
    unfold blockSize
    refine Nat.pow_le_pow_right (by omega) (Nat.clog_le_of_le_pow ?_)
    simp only [minAlloc, minAllocLog2]
    omega
  rw [show bucketOf request = 0 by omega] at hsize
  omega

/-! ## Live blocks -/

/-- The blocks of the live pointers are apart from each other and from the
blocks on the free lists. -/
structure LiveApart (platform : Platform) (client : Client) : Prop where
  apart : (client.live.map (allocator2 platform).block).Pairwise Block.Apart
  unlisted : ∀ live ∈ client.live, ∀ b ∈ client.heap.buckets,
    ∀ block ∈ platform.freeBlocks client.heap b,
      ((allocator2 platform).block live).Apart block

theorem liveApart_of_refines
    (hrefines : Refines (bookkeeping platform) client tenancy) :
    LiveApart platform client := by
  cases harena : tenancy.arena with
  | none =>
      obtain ⟨-, hnil, -⟩ := hrefines.fresh harena
      constructor <;> simp [hnil]
  | some arena =>
      have htiles := (hrefines.running arena harena).tiles
      obtain ⟨hlive, -, hcross⟩ := List.pairwise_append.mp htiles.1
      refine ⟨hlive, fun live hmem b hb block hblock => ?_⟩
      exact hcross _ (List.mem_map_of_mem hmem) _
        (List.mem_flatMap.mpr ⟨b, hb, hblock⟩)

/-- A step of the client: requests up to half of the largest block, and the
root is counted. -/
def Counted (client : Client) (op : Op) : Prop :=
  op.AtMost (2 ^ 30) ∧ RootCounted client op

instance (client : Client) (op : Op) : Decidable (Counted client op) :=
  inferInstanceAs (Decidable (_ ∧ _))

/-- In a run whose steps all find the root counted, live blocks are apart from
each other and from the free blocks, every legal call is carried out, and it
takes no entry off a free list that lies in a live block. -/
theorem live_blocks_apart (platform : Platform) (ops : List Op) (client : Client)
    (hrun : GuardedRun (step (allocator2 platform) Arena.granting)
      (fun client op _ => Counted client op) platform.client ops client) :
    LiveApart platform client ∧
      ∀ op : Op, op.Legal (allocator2 platform) client →
        op.AtMost (2 ^ 30) → RootCounted client op →
        ∃ client', step (allocator2 platform) Arena.granting client op =
            some client' ∧
          ∀ list entry memory,
            Event.remove list entry memory ∈ client'.heap.log →
            ∀ live ∈ client.live,
              ¬ ((allocator2 platform).block live).Contains entry := by
  obtain ⟨tenancy, -, hrefines⟩ :=
    run_refines rfl (fun client op next hguard => hguard.2) hrun
  refine ⟨liveApart_of_refines hrefines, fun op hlegal hbound hcounted => ?_⟩
  have hallows := hcounted.allows hrefines
  have hhighest : ∀ request, op = .malloc request → 1 ≤ bucketOf request := by
    rintro request rfl
    exact one_le_bucketOf hbound
  have hgrant : Arena.granting 0 = true := rfl
  obtain ⟨client', hstep⟩ := hrefines.progress (fun _ => hgrant) hlegal
    (fun request hrequest _ _ => hhighest request hrequest) hallows
  obtain ⟨heap₀, ok, hstarts, heffect, -⟩ :=
    hrefines.step_effect rfl hstep hallows
  refine ⟨client', hstep, fun list entry memory hevent live hmem hcontains => ?_⟩
  have hlog := heffect.log (by
    rw [hstarts.log]
    exact fun event hevent => absurd hevent List.not_mem_nil)
  exact (hlog _ hevent).2 ⟨live, hmem, hcontains⟩

/-- The heap is emptied twice before it grows; then a block is written and another
one freed, and three blocks are live at the end. -/
def countedOps : List Op :=
  [.malloc 16, .free 0, .malloc 16, .free 0, .malloc 100, .malloc 40, .write 0 3 7,
    .malloc 16, .free 1, .malloc 200]

theorem countedOps_run : (run (fun client op =>
    (step (allocator2 samplePlatform) Arena.granting client op).filter
      fun _ => Counted client op) samplePlatform.client countedOps).isSome =
    true := by
  decide +kernel

def countedClient : Client := Option.get _ countedOps_run

theorem live_blocks_apart_sample :
    countedClient.live = [⟨0x100100, 200⟩, ⟨0x1000c0, 16⟩, ⟨0x100000, 100⟩] ∧
      LiveApart samplePlatform countedClient :=
  ⟨by decide +kernel,
    (live_blocks_apart samplePlatform countedOps countedClient
      (GuardedRun.of_checked (Option.some_get countedOps_run).symm)).1⟩

/-- The heap grows, is emptied and grows again: the block of the last request
lies over a live block. -/
def reuseOps : List Op :=
  [.malloc 16, .malloc 16, .free 1, .free 0, .malloc 128, .malloc 64,
    .malloc 16, .free 1, .malloc 128]

theorem reuseOps_run : (runClient (allocator2 samplePlatform) samplePlatform
    Arena.granting reuseOps).isSome = true := by
  decide +kernel

def reuseClient : Client := Option.get _ reuseOps_run

theorem reuseClient_live : reuseClient.live =
    [⟨0x100000, 128⟩, ⟨0x100000, 16⟩, ⟨0x100080, 128⟩] := by
  decide +kernel

theorem reused_block_overlaps :
    (∀ op ∈ reuseOps, op.AtMost (2 ^ 30)) ∧
      runClient (allocator2 samplePlatform) samplePlatform Arena.granting
        reuseOps = some reuseClient ∧
      ¬ LiveApart samplePlatform reuseClient := by
  refine ⟨by decide, (Option.some_get reuseOps_run).symm, fun hall => ?_⟩
  have hapart := hall.apart
  rw [reuseClient_live] at hapart
  revert hapart
  decide +kernel

/-! ## Coalescing -/

/-- The only free block is the root. -/
def OnlyRootFree (platform : Platform) (heap : Heap) : Prop :=
  ∀ b ∈ heap.buckets, platform.freeList heap b =
    if b = heap.bucketLimit then [heap.basePtr] else []

instance (platform : Platform) (heap : Heap) :
    Decidable (OnlyRootFree platform heap) :=
  inferInstanceAs (Decidable (∀ _ ∈ _, _))

theorem onlyRootFree_of_sim (hsim : Sim platform heap arena ∅) :
    OnlyRootFree platform heap := by
  intro b hb
  have hmem : ∀ m, m ∈ arena.free b ↔ b = arena.limit ∧ m = 2 ^ arena.limit :=
    fun _ => hsim.shape.mem_free_of_empty
  rw [hsim.freeList hb, hsim.limit]
  by_cases hroot : b = arena.limit
  · subst hroot
    have hfree : arena.free arena.limit = [2 ^ arena.limit] := by
      refine List.perm_singleton.mp ((List.perm_ext_iff_of_nodup
        (hsim.shape.nodup _) (List.nodup_singleton _)).mpr fun m => ?_)
      rw [hmem]
      simp
    rw [if_pos rfl, hfree, List.map_singleton, nodeAddr_root]
  · have hfree : arena.free b = [] :=
      List.eq_nil_iff_forall_not_mem.mpr fun m hm => hroot ((hmem m).mp hm).1
    rw [if_neg hroot, hfree, List.map_nil]

/-- In a run whose steps all find the root counted, the root is the only free
block whenever no block is live. -/
theorem coalesced_when_empty (platform : Platform) (ops : List Op)
    (client : Client)
    (hrun : GuardedRun (step (allocator2 platform) Arena.granting)
      (fun client op _ => Counted client op) platform.client ops client)
    (hempty : client.live = []) (hbase : client.heap.basePtr ≠ 0) :
    OnlyRootFree platform client.heap := by
  obtain ⟨tenancy, -, hrefines⟩ :=
    run_refines rfl (fun client op next hguard => hguard.2) hrun
  obtain ⟨arena, -, hrunning⟩ := hrefines.exists_arena hbase
  have howns := hrunning.owns
  rw [hempty] at howns
  have hnil := List.forall₂_nil_left_iff.mp howns
  have hsim := hrunning.sim
  rw [hnil] at hsim
  exact onlyRootFree_of_sim (by simpa using hsim)

/-- A block that was handed out as the root. -/
def rootOps : List Op := [.malloc 100, .free 0]

theorem rootOps_run : (run (fun client op =>
    (step (allocator2 samplePlatform) Arena.granting client op).filter
      fun _ => Counted client op) samplePlatform.client rootOps).isSome =
    true := by
  decide +kernel

def rootClient : Client := Option.get _ rootOps_run

theorem coalesced_when_empty_sample :
    rootClient.heap.bucketLimit = 24 ∧
      OnlyRootFree samplePlatform rootClient.heap :=
  ⟨by decide +kernel,
    coalesced_when_empty samplePlatform rootOps rootClient
      (GuardedRun.of_checked (Option.some_get rootOps_run).symm)
      (by decide +kernel) (by decide +kernel)⟩

/-- A request that grows the tree by three levels, after the tree has been
emptied, leaves two blocks that are not merged. -/
def emptiedOps : List Op :=
  [.malloc 16, .malloc 16, .free 0, .free 0, .malloc 128, .free 0]

theorem emptiedOps_run : (runClient (allocator2 samplePlatform) samplePlatform
    Arena.granting emptiedOps).isSome = true := by
  decide +kernel

def emptiedClient : Client := Option.get _ emptiedOps_run

theorem emptied_not_coalesced :
    (∀ op ∈ emptiedOps, op.AtMost (2 ^ 30)) ∧
      runClient (allocator2 samplePlatform) samplePlatform Arena.granting
        emptiedOps = some emptiedClient ∧
      emptiedClient.live = [] ∧ emptiedClient.heap.basePtr ≠ 0 ∧
      ¬ OnlyRootFree samplePlatform emptiedClient.heap :=
  ⟨by decide, (Option.some_get emptiedOps_run).symm, by decide +kernel,
    by decide +kernel, by decide +kernel⟩

end Malloc2
end BuddyAlloc
end OsStuff
