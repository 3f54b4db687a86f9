import OsStuff.BuddyAlloc.Malloc2Bounds
import OsStuff.BuddyAlloc.Malloc2Watched

/-!
# The counters of `malloc_2` stay in their fields

In a run in which `free_2` never empties a tree whose root has not been counted, or
one of the full size, every counter step is tidy, and the statuses say what the blocks
say.
-/

namespace OsStuff
namespace BuddyAlloc
namespace Malloc2

open Library Library.DyadicTree

/-- When a call of `free_2` leaves no live block, the root has a parent, and it is not
`UNUSED`. -/
def Balanced (client : Client) (op : Op) : Prop :=
  op.AtMost (2 ^ 30) ∧
    match op with
    | .free index => client.live.eraseIdx index = [] → client.heap.bucketLimit ≠ 0 ∧
        rootParentStatus client.heap ≠ some unused
    | _ => True

instance (client : Client) : (op : Op) → Decidable (Balanced client op)
  | .malloc _ => inferInstanceAs (Decidable (_ ∧ True))
  | .free _ => inferInstanceAs (Decidable (_ ∧ (_ → _ ∧ _)))
  | .write _ _ _ => inferInstanceAs (Decidable (_ ∧ True))

/-- The number of children of a node that are not `UNUSED`. -/
def childrenInUse (heap : Heap) (i : Nat) : Nat :=
  [2 * i + 1, 2 * i + 2].countP fun child => getNodeStatus heap child ≠ some unused

/-- The statuses of the current tree say what its blocks say. -/
structure StatusesMatch (platform : Platform) (heap : Heap) (lives : List Live) :
    Prop where
  live : ∀ live ∈ lives, ∃ i,
    nodeForPtr heap live.pointer (bucketOf live.request) = some i ∧
      getNodeStatus heap i = some used
  free : ∀ b ∈ heap.buckets, ∀ ptr ∈ platform.freeList heap b, ∃ i,
    nodeForPtr heap ptr b = some i ∧ getNodeStatus heap i = some unused
  /-- Every other node of a level of the tree counts its children, if it has any. -/
  split : ∀ b ∈ heap.buckets, b + 1 < bucketCount → ∀ i, AtLevel b (i + 1) →
    (∀ live ∈ lives, nodeForPtr heap live.pointer (bucketOf live.request) ≠ some i) →
      getNodeStatus heap i = some (childrenInUse heap i)

variable {platform : Platform} {grant : Nat → Bool} {heap : Heap} {client : Client}
  {tenancy : Tenancy} {arena : Arena} {marked : Set Nat} {nodes : List Nat}
  {lives : List Live} {l n b : Nat}

namespace Watched

/-- A node at or below the level of the root is in use exactly when it is not
`UNUSED`. -/
theorem Exact.unused_iff (hexact : Exact heap.nodeStatus arena.limit marked)
    (hshape : arena.Shape marked) (hn : AtLevel b n) (hb : arena.limit ≤ b)
    (hlt : n < 2 ^ 28) (htwo : 2 ≤ n) :
    count heap.nodeStatus n = unused ↔ ¬ InUse marked (2 ^ arena.limit) n := by
  refine hexact.rooted.counts.unused_iff hshape.marking htwo hlt (by omega) ?_
  have hpow : 2 ^ arena.limit ≤ 2 ^ b := Nat.pow_le_pow_right (by omega) hb
  have hstart := hn.1
  omega

theorem Exact.free_unused (hexact : Exact heap.nodeStatus arena.limit marked)
    (hsim : Sim platform heap arena marked) (hb : b ∈ heap.buckets) {ptr : Nat}
    (hptr : ptr ∈ platform.freeList heap b) :
    ∃ i, nodeForPtr heap ptr b = some i ∧ getNodeStatus heap i = some unused := by
  rw [hsim.freeList hb] at hptr
  obtain ⟨n, hn, rfl⟩ := List.mem_map.mp hptr
  obtain ⟨hvacant, hlevel⟩ := (hsim.shape.free_iff b n).mp hn
  obtain ⟨-, hlow, hlt⟩ := hsim.shape.free_level hn
  have hbucket : b < bucketCount := by simpa using hlt
  have hnlt := node_lt hlevel hbucket
  have hpos := hlevel.pos
  refine ⟨n - 1, nodeForPtr_eq heap hlevel hbucket, ?_⟩
  rw [getNodeStatus_eq heap hpos hnlt]
  congr 1
  by_cases hone : n = 1
  · -- Node `1` is only free when it is the root.
    subst hone
    have hroot : 2 ^ arena.limit = 1 := hvacant.below.eq_one Nat.one_le_two_pow
    have hlimit : b = arena.limit := by
      refine Nat.le_antisymm ((Nat.pow_le_pow_iff_right (a := 2) (by omega)).mp ?_) hlow
      rw [hroot]
      exact hlevel.1
    refine hexact.rooted.idle (hsim.shape.root_free_iff.mp ?_)
    rw [hroot, ← hlimit]
    exact hn
  · exact (hexact.unused_iff hsim.shape hlevel hlow hnlt (by omega)).mpr
      (hvacant.oneMore Nat.one_le_two_pow).absent

/-- A node that is not taken counts its children. -/
theorem Exact.counts_children (hexact : Exact heap.nodeStatus arena.limit marked)
    (hshape : arena.Shape marked) (hn : AtLevel b n) (hlow : arena.limit ≤ b)
    (hb : b + 1 < bucketCount) (hmem : n ∉ marked) :
    getNodeStatus heap (n - 1) = some (childrenInUse heap (n - 1)) := by
  have hpos := hn.pos
  have hchild := node_lt hn.right hb
  have hpow : 2 ^ arena.limit ≤ 2 ^ b := Nat.pow_le_pow_right (by omega) hlow
  have hstart := hn.1
  have huse : count heap.nodeStatus n = useCount (InUse marked (2 ^ arena.limit)) n := by
    by_cases hone : n = 1
    · have hzero : arena.limit = 0 := by
        by_contra hne
        have hlarge : 2 ^ 1 ≤ 2 ^ arena.limit := Nat.pow_le_pow_right (by omega) (by omega)
        omega
      rw [hone]
      exact hexact.rooted.first hzero
    · exact hexact.rooted.counts.inner n (by omega) (by omega) hmem (by omega) (by omega)
  have hleft := hexact.unused_iff hshape hn.left (by omega) (by omega) (by omega)
  have hright := hexact.unused_iff hshape hn.right (by omega) (by omega) (by omega)
  have hindex : 2 * (n - 1) + 1 = 2 * n - 1 ∧ 2 * (n - 1) + 2 = 2 * n + 1 - 1 := by omega
  rw [getNodeStatus_eq heap hpos (by omega), huse, childrenInUse, hindex.1, hindex.2]
  simp only [List.countP_cons, List.countP_nil,
    getNodeStatus_eq heap (show 1 ≤ 2 * n by omega) (by omega),
    getNodeStatus_eq heap (show 1 ≤ 2 * n + 1 by omega) (by omega)]
  unfold useCount
  congr 1
  rw [Nat.zero_add, Nat.add_comm]
  congr 1
  · by_cases hin : InUse marked (2 ^ arena.limit) (2 * n + 1)
    · rw [if_pos hin, if_pos (by simpa using fun h => hright.mp h hin)]
    · rw [if_neg hin, if_neg (by simpa using hright.mpr hin)]
  · by_cases hin : InUse marked (2 ^ arena.limit) (2 * n)
    · rw [if_pos hin, if_pos (by simpa using fun h => hleft.mp h hin)]
    · rw [if_neg hin, if_neg (by simpa using hleft.mpr hin)]

theorem statusesMatch_of_running
    (hrunning : Running (bookkeeping platform) heap lives arena nodes) :
    StatusesMatch platform heap lives := by
  have hsim := hrunning.sim
  have hexact : Exact heap.nodeStatus arena.limit { n | n ∈ nodes } := hrunning.tracked
  have howned : ∀ {live n}, Owns (bookkeeping platform) heap arena.top live n →
      nodeForPtr heap live.pointer (bucketOf live.request) = some (n - 1) := by
    intro live n howns
    have hpointer : live.pointer = nodeAddr heap.basePtr (bucketOf live.request) n :=
      howns.pointer
    rw [hpointer]
    exact nodeForPtr_eq heap howns.level (bucketOf_lt live.request)
  constructor
  · intro live hlive
    obtain ⟨index, hindex⟩ := List.mem_iff_getElem?.mp hlive
    obtain ⟨n, -, hn, howns⟩ := hrunning.exists_owns hindex
    have hhighest : 1 ≤ bucketOf live.request := howns.highest
    have htwo : 2 ≤ n :=
      (Nat.pow_le_pow_right (show 0 < 2 by omega) hhighest).trans howns.level.1
    refine ⟨n - 1, howned howns, ?_⟩
    rw [getNodeStatus_eq heap (by omega) (hsim.shape.depth n hn)]
    exact congrArg some (hexact.rooted.counts.taken n hn htwo (by omega))
  · exact fun b hb ptr hptr => hexact.free_unused hsim hb hptr
  · intro b hb hlt i hi hother
    refine hexact.counts_children hsim.shape hi ((Heap.mem_buckets hsim).mp hb).1 hlt ?_
    intro hmem
    -- A taken node is the node of a live block.
    obtain ⟨index, hindex⟩ := List.mem_iff_getElem?.mp hmem
    obtain ⟨live, hlive, howns⟩ := forall₂_getElem? hrunning.owns.flip hindex
    exact hother live (List.mem_of_getElem? hlive) (howned howns)

theorem statusesMatch_of_bare (hbare : Bare platform heap arena) :
    StatusesMatch platform heap [] := by
  have hexact : Exact heap.backed.nodeStatus arena.limit ∅ := by
    change Exact heap.nodeStatus arena.limit ∅
    rw [hbare.status]
    exact (exact_empty arena.limit hbare.sim.shape.limit_lt)
  constructor
  · exact fun live hlive => absurd hlive List.not_mem_nil
  · exact fun b hb ptr hptr => hexact.free_unused hbare.sim hb hptr
  · exact fun b hb hlt i hi _ => hexact.counts_children hbare.sim.shape hi
      ((Heap.mem_buckets hbare.sim).mp hb).1 hlt (Set.notMem_empty _)

/-! ## Runs -/

theorem liftsBare (platform : Platform) : (bookkeeping platform).LiftsBare where
  tracked := exact_empty
  round grant heap arena l hbare hlimit := by
    obtain ⟨heap', hround, hbare'⟩ := growRound_bare grant hbare hlimit
    exact ⟨heap', Checked.growRound_below heap _ hround, hbare'⟩

end Watched

/-- The condition of the watched bookkeeping is met. -/
theorem Balanced.allows {op : Op} (hbalanced : Balanced client op)
    (hrefines : Refines (Watched.bookkeeping platform) client tenancy) :
    (Watched.bookkeeping platform).Allows client tenancy op := by
  refine Bookkeeping.allows_of_freeable fun index arena hop harena => ?_
  subst hop
  have hrunning := hrefines.running arena harena
  by_cases hlast : client.live.eraseIdx index = []
  · obtain ⟨hlimit, hstatus⟩ := hbalanced.2 hlast
    rw [hrunning.sim.limit] at hlimit
    rw [rootParentStatus_eq hrunning.sim (by omega)] at hstatus
    exact Or.inr ⟨hlimit, fun hcount => hstatus (by rw [hcount])⟩
  · -- A node stays taken for every pointer that stays live.
    exact Or.inl fun hempty =>
      hlast (forall₂_eq_nil_of_empty (forall₂_eraseIdx hrunning.owns index) hempty)

/-- Every legal operation that meets the condition is carried out with watched
counters. -/
theorem watched_step {op : Op}
    (hreached : Reached (Watched.bookkeeping platform) client)
    (hlegal : op.Legal (allocator2 platform) client) (hbalanced : Balanced client op) :
    ∃ next, step (Watched.allocator platform) grant client op = some next ∧
      Reached (Watched.bookkeeping platform) next := by
  refine hreached.step (Watched.liftsBare platform)
    ((Watched.weaker platform).legal hlegal) (Recordable.of_highest ?_)
    fun tenancy hrefines => hbalanced.allows hrefines
  rintro request rfl
  exact one_le_bucketOf hbalanced.1

theorem watched_run {ops : List Op} {final : Client}
    (hrun : GuardedRun (step (allocator2 platform) grant)
      (fun client op _ => Balanced client op) client ops final)
    (hreached : Reached (Watched.bookkeeping platform) client) :
    run (step (Watched.allocator platform) grant) client ops = some final ∧
      Reached (Watched.bookkeeping platform) final := by
  refine hrun.carried (fun client op next hreached hstep hbalanced => ?_) hreached
  obtain ⟨next', hwatched, hreached'⟩ :=
    watched_step hreached (Op.legal_of_step hstep) hbalanced
  have hsource := (Watched.weaker platform).step_below _ _ next' hwatched
  obtain rfl := Option.some.inj (hsource.symm.trans hstep)
  exact ⟨hwatched, hreached'⟩

/-- In a run whose steps all meet the condition every counter step is tidy and the
statuses match the blocks, and every further legal step that meets it has tidy counter
steps. -/
theorem counters_stay (platform : Platform) (grant : Nat → Bool) (ops : List Op)
    (client : Client)
    (hrun : GuardedRun (step (allocator2 platform) grant)
      (fun client op _ => Balanced client op) platform.client ops client) :
    run (step (Watched.allocator platform) grant) platform.client ops = some client ∧
      (client.heap.basePtr ≠ 0 → StatusesMatch platform client.heap client.live) ∧
      ∀ op : Op, op.Legal (allocator2 platform) client → Balanced client op →
        ∃ next, step (Watched.allocator platform) grant client op = some next ∧
          step (allocator2 platform) grant client op = some next := by
  obtain ⟨hwatched, hreached⟩ := watched_run hrun Reached.initial
  refine ⟨hwatched, fun hbase => ?_, fun op hlegal hbalanced => ?_⟩
  · rcases hreached with ⟨tenancy, hrefines⟩ | ⟨hlive, arena, hbare⟩
    · obtain ⟨arena, -, hrunning⟩ := hrefines.exists_arena hbase
      exact Watched.statusesMatch_of_running hrunning
    · rw [hlive]
      exact Watched.statusesMatch_of_bare hbare
  · obtain ⟨next, hstep, -⟩ := watched_step hreached hlegal hbalanced
    exact ⟨next, hstep, (Watched.weaker platform).step_below client op next hstep⟩

/-- Blocks of different sizes, all but one of which are freed, and one more. -/
def balancedOps : List Op :=
  [.malloc 16, .malloc 100, .free 1, .malloc 40, .free 1, .malloc (2 ^ 30)]

theorem balancedOps_run : (run (fun client op =>
    (step (allocator2 samplePlatform) Arena.granting client op).filter
      fun _ => Balanced client op) samplePlatform.client balancedOps).isSome = true := by
  decide +kernel

def balancedClient : Client := Option.get _ balancedOps_run

theorem counters_stay_sample :
    run (step (Watched.allocator samplePlatform) Arena.granting) samplePlatform.client
        balancedOps = some balancedClient ∧
      balancedClient.heap.basePtr ≠ 0 ∧
      StatusesMatch samplePlatform balancedClient.heap balancedClient.live :=
  have hstay := counters_stay samplePlatform Arena.granting balancedOps balancedClient
    (GuardedRun.of_checked (Option.some_get balancedOps_run).symm)
  have hbase : balancedClient.heap.basePtr ≠ 0 := by decide +kernel
  ⟨hstay.1, hbase, hstay.2.1 hbase⟩

/-- Two small blocks, both of which are freed. -/
def borrowOps : List Op := [.malloc 16, .malloc 16, .free 0, .free 0]

/-- The tree grows to its full size and is emptied. -/
def fullOps : List Op := [.malloc (2 ^ 30), .malloc (2 ^ 30), .free 0, .free 0]

theorem borrowOps_run : (runClient (allocator2 samplePlatform) samplePlatform
    Arena.granting borrowOps).isSome = true := by
  decide +kernel

theorem fullOps_run : (runClient (allocator2 samplePlatform) samplePlatform
    Arena.granting fullOps).isSome = true := by
  decide +kernel

def fullClient : Client := Option.get _ fullOps_run

/-- The second `free_2` counts the parent of the root below zero, or leaves the root of
the full tree `SPLIT` although it is free. -/
theorem counters_leave :
    (∀ op ∈ borrowOps ++ fullOps, op.AtMost (2 ^ 30)) ∧
      (runClient (allocator2 samplePlatform) samplePlatform Arena.granting
        borrowOps).isSome = true ∧
      run (step (Watched.allocator samplePlatform) Arena.granting)
        samplePlatform.client borrowOps = none ∧
      runClient (allocator2 samplePlatform) samplePlatform Arena.granting fullOps =
        some fullClient ∧
      ¬ StatusesMatch samplePlatform fullClient.heap fullClient.live := by
  have hborrow : (run (step (Watched.allocator samplePlatform) Arena.granting)
      samplePlatform.client borrowOps).isNone = true := by
    decide +kernel
  refine ⟨by decide, borrowOps_run, Option.isNone_iff_eq_none.mp hborrow,
    (Option.some_get fullOps_run).symm, fun hmatch => ?_⟩
  have hfree : 0x100000 ∈ samplePlatform.freeList fullClient.heap 0 := by decide +kernel
  have hbucket : 0 ∈ fullClient.heap.buckets := by decide +kernel
  have hnode : nodeForPtr fullClient.heap 0x100000 0 = some 0 := by decide +kernel
  have hstatus : getNodeStatus fullClient.heap 0 = some split := by decide +kernel
  obtain ⟨i, hi, hunused⟩ := hmatch.free 0 hbucket _ hfree
  rw [hnode, Option.some.injEq] at hi
  rw [← hi, hstatus] at hunused
  exact absurd hunused (by decide)

end Malloc2
end BuddyAlloc
end OsStuff
