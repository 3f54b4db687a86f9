import OsStuff.BuddyAlloc.ArenaSearch
import OsStuff.BuddyAlloc.Malloc1Canonical

/-!
# Success and failure of `malloc_1`

With memory from the system, `malloc_1` fails only when no block of the size is
left in the whole segment, and it takes the block that fits best.  When it fails
for lack of memory, calling it again with memory ends as if nothing had
happened.
-/

namespace OsStuff
namespace BuddyAlloc
namespace Malloc1

open Library Library.DyadicTree

variable {platform : Platform} {grant : Nat → Bool} {ops : List Op}
  {client client' : Client} {tenancy : Tenancy} {arena : Arena}
  {nodes : List Nat} {request b n m target : Nat}

/-! ## One call -/

/-- The level of the block for a request. -/
def levelFor (request : Nat) : Nat := bucketOf (request + headerSize)

theorem total_eq (hrequest : request + headerSize ≤ maxAlloc) :
    (allocator1 platform).total request = request + headerSize := by
  refine wrap_of_lt (lt_of_le_of_lt hrequest ?_)
  simp

theorem levelFor_lt (request : Nat) : levelFor request < 28 := by
  have hlt := bucketOf_lt (request + headerSize)
  simp only [bucketCount, maxAllocLog2, minAllocLog2] at hlt
  unfold levelFor
  omega

/-- The abstract client after a request of admissible size. -/
theorem tenancy_malloc (hrequest : request + headerSize ≤ maxAlloc) :
    tenancy.malloc grant ((allocator1 platform).total request) =
      { arena := some ((tenancy.ready grant).alloc grant (levelFor request)).2
        live := ((tenancy.ready grant).alloc grant
          (levelFor request)).1.toList ++ tenancy.live
        result := ((tenancy.ready grant).alloc grant (levelFor request)).1 } := by
  unfold Tenancy.malloc
  rw [total_eq hrequest, if_neg (by omega)]
  rfl

/-- What a call of `malloc_1` does to the abstract client and to the live
blocks. -/
structure Called (platform : Platform) (client client' : Client)
    (request : Nat) (tenancy : Tenancy) (outcome : Option Nat × Arena) :
    Prop where
  running : Running (bookkeeping platform) client'.heap client'.live outcome.2
    (outcome.1.toList ++ tenancy.live)
  result_none : outcome.1 = none → client'.result = 0
  result_some : ∀ n, outcome.1 = some n → AtLevel (levelFor request) n ∧
    client'.result ≠ 0 ∧
    client'.result = nodeAddr client'.heap.basePtr (levelFor request) n +
      headerSize
  live_none : outcome.1 = none → client'.live = client.live
  live_some : outcome.1 ≠ none →
    client'.live = ⟨client'.result, request⟩ :: client.live

theorem malloc_called (hrefines : Refines (bookkeeping platform) client tenancy)
    (hgrant : grant 0 = true) (hrequest : request + headerSize ≤ maxAlloc)
    (hstep : step (allocator1 platform) grant client (.malloc request) =
      some client') :
    Called platform client client' request tenancy
      ((tenancy.ready grant).alloc grant (levelFor request)) := by
  obtain ⟨-, outcome, hmalloc, hclient⟩ := step_malloc_iff.mp hstep
  obtain ⟨hrefines', -⟩ := hrefines.malloc (fun _ => hgrant) hstep
  rw [show (bookkeeping platform).allocator.total request =
      (allocator1 platform).total request from rfl,
    tenancy_malloc hrequest] at hrefines'
  generalize (tenancy.ready grant).alloc grant (levelFor request) = found
    at hrefines' ⊢
  have hrunning := hrefines'.running _ rfl
  have hnone := hrefines'.result_none
  -- The pointer that is handed out belongs to a node of the level, by what the client owns
  -- afterwards.
  have hsome : ∀ n, found.1 = some n → AtLevel (levelFor request) n ∧
      client'.result ≠ 0 ∧
      client'.result = nodeAddr client'.heap.basePtr (levelFor request) n +
        headerSize := by
    intro n hn
    have hbelow := hrunning.sim.shape.marking.below n (by simp [hn])
    obtain ⟨b, hb⟩ := exists_atLevel (n := n) (by
      have hle := hbelow.le
      have hpos := Nat.one_le_two_pow (n := found.2.limit)
      omega)
    have hresult := hrefines'.result_some n b hn hb
    have hpos : client'.result ≠ 0 := by
      have haddr := hrunning.sim.mapped.nodeAddr_ne_zero b n
      rw [hresult]
      omega
    have howns := hrunning.owns
    rw [hclient] at hpos howns
    simp only [hn, if_neg hpos] at hpos howns
    have hlevel := (List.forall₂_cons.mp howns).1.level
    change AtLevel (bucketOf ((allocator1 platform).total request)) n at hlevel
    rw [total_eq hrequest] at hlevel
    change AtLevel (levelFor request) n at hlevel
    rw [hb.unique hlevel] at hresult
    exact ⟨hlevel, by rw [hclient]; exact hpos, hresult⟩
  refine ⟨hrunning, hnone, hsome, fun h => ?_, fun h => ?_⟩
  · have hzero := hnone h
    rw [hclient] at hzero ⊢
    simp only at hzero ⊢
    rw [if_pos hzero]
  · obtain ⟨n, hn⟩ := Option.ne_none_iff_exists'.mp h
    have hpos := (hsome n hn).2.1
    rw [hclient] at hpos ⊢
    simp only at hpos ⊢
    rw [if_neg hpos]

/-- The blocks that were live before the call. -/
theorem Called.blocks {outcome : Option Nat × Arena}
    (h : Called platform client client' request tenancy outcome) :
    client.live.map (allocator1 platform).block =
      tenancy.live.map (nodeBlock client'.heap.basePtr) := by
  have hblocks := h.running.blocks
  cases hfound : outcome.1 with
  | none =>
      rw [h.live_none hfound, hfound] at hblocks
      exact hblocks
  | some n =>
      rw [h.live_some (by simp [hfound]), hfound] at hblocks
      exact (List.cons.inj hblocks).2

/-- A block of the size of a level, by its number. -/
theorem nodeBlock_number {base k : Nat} (hk : k < 2 ^ b) :
    AtLevel b (2 ^ b + k) ∧
      nodeBlock base (2 ^ b + k) = ⟨base + k * 2 ^ (31 - b), 2 ^ (31 - b)⟩ := by
  have hlevel : AtLevel b (2 ^ b + k) := by
    unfold AtLevel
    rw [Nat.pow_succ]
    omega
  refine ⟨hlevel, ?_⟩
  rw [nodeBlock_eq hlevel]
  unfold nodeAddr offset
  rw [Nat.add_sub_cancel_left]

/-- Every node is a node of the full tree. -/
theorem within_one (hn : 1 ≤ n) : Within n 1 := by
  obtain ⟨b, hb⟩ := exists_atLevel hn
  refine ⟨b, ?_⟩
  have hlow := hb.1
  have hhigh := hb.2
  rw [Nat.pow_succ] at hhigh
  rw [Nat.div_eq_iff (by positivity)]
  omega

/-- When the search has failed with memory from the system, every node of the
level is above or below a live one. -/
theorem Called.blocked {outcome : Option Nat × Arena}
    (h : Called platform client client' request tenancy outcome)
    (hnone : outcome.1 = none) (hlimit : outcome.2.limit = 0)
    (hempty : ∀ d, d ≤ levelFor request → outcome.2.free d = [])
    (hm : AtLevel (levelFor request) m) :
    ∃ n ∈ tenancy.live, Within m n ∨ Within n m := by
  by_contra hfree
  have hsim := h.running.sim
  rw [hnone] at hsim
  have hroot : 2 ^ outcome.2.limit = 1 := by rw [hlimit, Nat.pow_zero]
  obtain ⟨v, hvacant, hwithin⟩ := exists_vacant_above (2 ^ outcome.2.limit)
    (by omega) m
    (by rw [hroot]; exact within_one hm.pos)
    (fun n hn hmn => hfree ⟨n, hn, Or.inl hmn⟩)
    (fun ⟨n, hn, hnm⟩ => hfree ⟨n, hn, Or.inr hnm⟩)
  have hpos : 1 ≤ v := by
    have hle := hvacant.below.le
    omega
  obtain ⟨d, hd⟩ := exists_atLevel hpos
  have hlevels := (hwithin.levels hm hd).1
  have hmem := (hsim.shape.free_iff d v).mpr ⟨hvacant, hd⟩
  rw [hempty d hlevels] at hmem
  exact absurd hmem List.not_mem_nil

/-- A block of the size that does not meet a live block. -/
def Available (platform : Platform) (client : Client) (base size : Nat) :
    Prop :=
  ∃ k, (k + 1) * size ≤ maxAlloc ∧ ∀ live ∈ client.live,
    Block.Apart ⟨base + k * size, size⟩ ((allocator1 platform).block live)

/-- The blocks of the size for a request are the nodes of its level. -/
theorem available_iff {outcome : Option Nat × Arena}
    (hrequest : request + headerSize ≤ maxAlloc)
    (h : Called platform client client' request tenancy outcome) :
    Available platform client client'.heap.basePtr
        (blockSize (request + headerSize)) ↔
      ∃ m, AtLevel (levelFor request) m ∧
        ∀ n ∈ tenancy.live, ¬ Within m n ∧ ¬ Within n m := by
  have hsize : blockSize (request + headerSize) = 2 ^ (31 - levelFor request) :=
    blockSize_eq (by simpa using hrequest)
  have hlt := levelFor_lt request
  have hcount : ∀ k, (k + 1) * 2 ^ (31 - levelFor request) ≤ maxAlloc ↔
      k < 2 ^ levelFor request := by
    intro k
    rw [show maxAlloc = 2 ^ levelFor request * 2 ^ (31 - levelFor request) from
        (two_pow_split (h := 31) (by omega)).symm,
      Nat.mul_le_mul_right_iff (by positivity)]
    rfl
  -- The live blocks of the client are the blocks of the live nodes.
  have hlive : ∀ block, (∀ live ∈ client.live,
      Block.Apart block ((allocator1 platform).block live)) ↔
      ∀ n ∈ tenancy.live,
        Block.Apart block (nodeBlock client'.heap.basePtr n) := by
    intro block
    have hall : (∀ block' ∈ client.live.map (allocator1 platform).block,
        Block.Apart block block') ↔
        ∀ block' ∈ tenancy.live.map (nodeBlock client'.heap.basePtr),
          Block.Apart block block' := by
      rw [h.blocks]
    simpa using hall
  -- Blocks of two nodes are apart just when neither node is below the other.
  have hnodes : ∀ m, AtLevel (levelFor request) m →
      ((∀ n ∈ tenancy.live, Block.Apart (nodeBlock client'.heap.basePtr m)
        (nodeBlock client'.heap.basePtr n)) ↔
      ∀ n ∈ tenancy.live, ¬ Within m n ∧ ¬ Within n m) := by
    intro m hm
    refine forall_congr' fun n => forall_congr' fun hn => ?_
    obtain ⟨d, hd, hdlt⟩ := pieces_level h.running.sim
      ((mem_pieces h.running.sim).mpr (Or.inl (List.mem_append_right _ hn)))
    exact nodeBlock_apart hm hlt hd hdlt
  unfold Available
  rw [hsize]
  constructor
  · rintro ⟨k, hk, hapart⟩
    obtain ⟨hlevel, hblock⟩ := nodeBlock_number
      ((hcount k).mp hk)
    exact ⟨_, hlevel, (hnodes _ hlevel).mp (hblock ▸ (hlive _).mp hapart)⟩
  · rintro ⟨m, hm, hapart⟩
    obtain ⟨k, rfl⟩ := Nat.exists_eq_add_of_le hm.1
    have hk : k < 2 ^ levelFor request := by
      have hhigh := hm.2
      rw [Nat.pow_succ] at hhigh
      omega
    obtain ⟨-, hblock⟩ := nodeBlock_number hk
    exact ⟨k, (hcount k).mpr hk,
      (hlive _).mpr (hblock ▸ (hnodes _ hm).mpr hapart)⟩

/-- A node that is handed out is apart from the live ones. -/
theorem Called.handed_apart {outcome : Option Nat × Arena}
    (h : Called platform client client' request tenancy outcome)
    (hsome : outcome.1 = some n) (hm : m ∈ tenancy.live) :
    ¬ Within n m ∧ ¬ Within m n := by
  have hrunning := h.running
  rw [hsome] at hrunning
  have hnot : n ∉ tenancy.live :=
    (List.nodup_cons.mp hrunning.nodup).1
  have hmarking := hrunning.sim.shape.marking
  have hn : n ∈ ({ k | k ∈ n :: tenancy.live } : Set Nat) := List.mem_cons_self
  have hm' : m ∈ ({ k | k ∈ n :: tenancy.live } : Set Nat) :=
    List.mem_cons_of_mem _ hm
  exact ⟨fun hwithin => hnot (hmarking.apart n hn m hm' hwithin ▸ hm),
    fun hwithin => hnot (hmarking.apart m hm' n hn hwithin ▸ hm)⟩

/-- A call that finds the arena in place keeps its base. -/
theorem step_base (hrefines : Refines (bookkeeping platform) client tenancy)
    (hgrant : grant 0 = true) (hbase : client.heap.basePtr ≠ 0) {op : Op}
    (hstep : step (allocator1 platform) grant client op = some client') :
    client'.heap.basePtr = client.heap.basePtr := by
  obtain ⟨heap₀, ok, hstarts, heffect, -⟩ := step_refines hgrant hrefines hstep
  rcases hstarts with rfl | ⟨hfresh, -⟩
  · exact heffect.base
  · exact absurd hfresh.base hbase

/-! ## Best fit -/

/-- The best fit in the free lists: the bucket holds the smallest blocks that
are large enough, and `x` is its last entry. -/
structure BestFit (platform : Platform) (heap : Heap) (size b x : Nat) :
    Prop where
  active : b ∈ heap.buckets
  large : size ≤ 2 ^ (maxAllocLog2 - b)
  smallest : ∀ d ∈ heap.buckets, size ≤ 2 ^ (maxAllocLog2 - d) →
    2 ^ (maxAllocLog2 - d) < 2 ^ (maxAllocLog2 - b) →
    platform.freeList heap d = []
  last : (platform.freeList heap b).getLast? = some x

theorem bestFit_result (hrequest : request + headerSize ≤ maxAlloc)
    (hrunning : Running (bookkeeping platform) client.heap client.live arena
      tenancy.live)
    (hready : tenancy.ready Arena.granting = arena)
    (hbase : client'.heap.basePtr = client.heap.basePtr)
    (h : Called platform client client' request tenancy
      ((tenancy.ready Arena.granting).alloc Arena.granting (levelFor request)))
    {x : Nat}
    (hfit : BestFit platform client.heap (blockSize (request + headerSize)) b x) :
    client'.result = x + headerSize ∧
      client'.heap.bucketLimit = client.heap.bucketLimit := by
  have hsim := hrunning.sim
  obtain ⟨hactive, hlarge, hsmallest, hlast⟩ := hfit
  obtain ⟨hlimit, hlt⟩ := (Heap.mem_buckets hsim).mp hactive
  have htarget := levelFor_lt request
  have hsize : blockSize (request + headerSize) = 2 ^ (31 - levelFor request) :=
    blockSize_eq (by simpa using hrequest)
  -- Block sizes fall as levels rise.
  have hsizes : ∀ d, d < 28 → (2 ^ (31 - levelFor request) ≤
      2 ^ (maxAllocLog2 - d) ↔ d ≤ levelFor request) := by
    intro d hd
    rw [Nat.pow_le_pow_iff_right (by omega)]
    simp only [maxAllocLog2]
    omega
  rw [hsize] at hlarge hsmallest
  have hb : b ≤ levelFor request := (hsizes b hlt).mp hlarge
  rw [hsim.freeList hactive, List.getLast?_map] at hlast
  obtain ⟨n, hn, rfl⟩ := Option.map_eq_some_iff.mp hlast
  -- The levels between the best fit and the one asked for have empty lists, so the search
  -- passes them.
  have hempty : ∀ d, b < d → d ≤ levelFor request → arena.free d = [] := by
    intro d hd hd'
    have hmem : d ∈ client.heap.buckets :=
      (Heap.mem_buckets hsim).mpr ⟨by omega, by omega⟩
    have hnil := hsmallest d hmem ((hsizes d (by omega)).mpr hd')
      (Nat.pow_lt_pow_right (by omega) (by simp only [maxAllocLog2]; omega))
    rw [hsim.freeList hmem, List.map_eq_nil_iff] at hnil
    exact hnil
  rw [hready, Arena.alloc_best_fit hb hlimit hempty hn] at h
  obtain ⟨hfound, hstays⟩ := Arena.claim_granting (b := b) (n := n)
  obtain ⟨-, -, hresult⟩ := h.result_some _ hfound
  have hlevel := (hsim.shape.free_level (List.mem_of_getLast? hn)).1
  have hlow := hlevel.1
  -- Splitting keeps the left half: the block that is handed out starts where the best fit
  -- started.
  have hoffset : offset 31 (levelFor request) (n * 2 ^ (levelFor request - b)) =
      offset 31 b n := by
    obtain ⟨k, rfl⟩ := Nat.exists_eq_add_of_le hlow
    have hsplit : 2 ^ levelFor request = 2 ^ b * 2 ^ (levelFor request - b) :=
      (two_pow_split hb).symm
    have hrest : 2 ^ (31 - b) =
        2 ^ (levelFor request - b) * 2 ^ (31 - levelFor request) := by
      rw [← Nat.pow_add]
      congr 1
      omega
    unfold offset
    rw [hsplit, ← Nat.sub_mul, hrest]
    ring
  refine ⟨?_, ?_⟩
  · rw [hresult, hbase]
    unfold nodeAddr
    rw [hoffset]
  · rw [h.running.sim.limit, hstays, hsim.limit]

/-- With memory from the system, `malloc_1` returns `NULL` exactly when no block
of the size is left anywhere in the segment of `MAX_ALLOC` bytes, and it takes
the best fit in the free lists without letting the tree grow. -/
theorem malloc_complete (platform : Platform) (ops : List Op) (client : Client)
    (hrun : runClient (allocator1 platform) platform Arena.granting ops =
      some client) (request : Nat) (hrequest : request + headerSize ≤ maxAlloc) :
    ∃ client', step (allocator1 platform) Arena.granting client
        (.malloc request) = some client' ∧
      (client'.result = 0 ↔
        ¬ Available platform client client'.heap.basePtr
          (blockSize (request + headerSize))) ∧
      (client.heap.basePtr ≠ 0 → ∀ b x,
        BestFit platform client.heap (blockSize (request + headerSize)) b x →
        client'.result = x + headerSize ∧
          client'.heap.bucketLimit = client.heap.bucketLimit) := by
  obtain ⟨tenancy, -, hrefines⟩ := run_refines rfl hrun
  have hsmall : request < 2 ^ 64 := by
    simp only [headerSize, maxAlloc, maxAllocLog2] at hrequest
    omega
  obtain ⟨client', hstep⟩ :=
    step_exists Arena.granting (.malloc request) rfl hrefines hsmall
  have hcalled := malloc_called hrefines rfl hrequest hstep
  refine ⟨client', hstep, ?_, fun hbase b x hfit => ?_⟩
  · rw [available_iff hrequest hcalled]
    constructor
    · -- Nothing found: the tree has full size and all lists up to the level are empty, so
      -- every node of the level is below or above a live one.
      rintro hnull ⟨m, hm, hapart⟩
      cases hfound : ((tenancy.ready Arena.granting).alloc Arena.granting
          (levelFor request)).1 with
      | none =>
          obtain ⟨hlimit, hempty⟩ := Arena.alloc_none hfound
          obtain ⟨n, hn, hrelated⟩ := hcalled.blocked hfound hlimit hempty hm
          exact hrelated.elim (hapart n hn).1 (hapart n hn).2
      | some n => exact (hcalled.result_some n hfound).2.1 hnull
    · intro hnone
      cases hfound : ((tenancy.ready Arena.granting).alloc Arena.granting
          (levelFor request)).1 with
      | none => exact hcalled.result_none hfound
      | some n =>
          exact absurd ⟨n, (hcalled.result_some n hfound).1,
            fun m hm => hcalled.handed_apart hfound hm⟩ hnone
  · obtain ⟨arena, harena, hrunning⟩ := hrefines.exists_arena hbase
    have hready : tenancy.ready Arena.granting = arena := by
      unfold Tenancy.ready
      rw [harena, Option.getD_some]
    exact bestFit_result hrequest hrunning hready
      (step_base hrefines rfl hbase hstep) hcalled hfit

theorem malloc_complete_sample : ∃ client', step (allocator1 samplePlatform)
      Arena.granting ((runClient (allocator1 samplePlatform) samplePlatform
        Arena.granting leftOps).get leftOps_run) (.malloc 16) = some client' ∧
    (client'.result = 0 ↔ ¬ Available samplePlatform
      ((runClient (allocator1 samplePlatform) samplePlatform Arena.granting
        leftOps).get leftOps_run) client'.heap.basePtr
      (blockSize (16 + headerSize))) := by
  obtain ⟨client', hstep, hnull, -⟩ := malloc_complete samplePlatform leftOps _
    (Option.some_get leftOps_run).symm 16 (by decide)
  exact ⟨client', hstep, hnull⟩

/-! ## Calling again after a refusal -/

/-- A call of `malloc_1` that returns `NULL` changes no live block and leaves the
tree represented, and calling it again with memory gives the pointer, the free
lists, the bits, the tree and `max_ptr` that calling it once with memory would
have given. -/
theorem malloc_retry (platform : Platform) (grant : Nat → Bool)
    (hgrant : grant 0 = true) (ops : List Op) (client failed : Client)
    (hrun : runClient (allocator1 platform) platform grant ops = some client)
    (hbase : client.heap.basePtr ≠ 0) (request : Nat)
    (hrequest : request + headerSize ≤ maxAlloc)
    (hstep : step (allocator1 platform) grant client (.malloc request) =
      some failed) (hnull : failed.result = 0) :
    failed.live = client.live ∧
      (∀ live ∈ client.live, ∀ y, ((allocator1 platform).block live).Contains y →
        failed.heap.memory y = client.heap.memory y) ∧
      Represents platform failed ∧
      ∃ once again,
        step (allocator1 platform) Arena.granting client (.malloc request) =
          some once ∧
        step (allocator1 platform) Arena.granting failed (.malloc request) =
          some again ∧
        again.result = once.result ∧
        (∀ b ∈ once.heap.buckets,
          platform.freeList again.heap b = platform.freeList once.heap b) ∧
        (∀ i, i < 2 ^ 27 - 1 → parentIsSplit again.heap (2 * i + 1) =
          parentIsSplit once.heap (2 * i + 1)) ∧
        again.heap.bucketLimit = once.heap.bucketLimit ∧
        again.heap.maxPtr = once.heap.maxPtr := by
  obtain ⟨tenancy, -, hrefines⟩ := run_refines hgrant hrun
  obtain ⟨arena, harena, hrunning⟩ := hrefines.exists_arena hbase
  have hready : ∀ grant', tenancy.ready grant' = arena := by
    intro grant'
    unfold Tenancy.ready
    rw [harena, Option.getD_some]
  have hsmall : request < 2 ^ 64 := by
    simp only [headerSize, maxAlloc, maxAllocLog2] at hrequest
    omega
  -- The call that fails.
  have hcalled := malloc_called hrefines hgrant hrequest hstep
  have hrefines₁ := (hrefines.malloc (fun _ => hgrant) hstep).1
  rw [show (bookkeeping platform).allocator.total request =
    (allocator1 platform).total request from rfl,
    tenancy_malloc hrequest] at hrefines₁
  rw [hready] at hcalled hrefines₁
  have hbase₁ := step_base hrefines hgrant hbase hstep
  have hfound : (arena.alloc grant (levelFor request)).1 = none := by
    cases hcase : (arena.alloc grant (levelFor request)).1 with
    | none => rfl
    | some n => exact absurd hnull (hcalled.result_some n hcase).2.1
  have hlive := hcalled.live_none hfound
  have hrunning₁ := hcalled.running
  rw [hfound] at hrunning₁ hrefines₁
  -- The calls with memory, from the state before and from the state after.
  obtain ⟨once, honce⟩ :=
    step_exists Arena.granting (.malloc request) rfl hrefines hsmall
  have hcalled₂ := malloc_called hrefines rfl hrequest honce
  rw [hready] at hcalled₂
  have hbase₂ := step_base hrefines rfl hbase honce
  obtain ⟨again, hagain⟩ :=
    step_exists Arena.granting (.malloc request) rfl hrefines₁ hsmall
  have hcalled₃ := malloc_called hrefines₁ rfl hrequest hagain
  have hbase₃ := step_base hrefines₁ rfl (by rw [hbase₁]; exact hbase) hagain
  have hsame := Arena.alloc_retry hfound hrunning₁.sim.shape.nodup
  generalize arena.alloc Arena.granting (levelFor request) = outcome₂
    at hcalled₂ hsame
  have hready₁ : (Tenancy.mk (some (arena.alloc grant (levelFor request)).2)
      (Option.toList none ++ tenancy.live) none).ready Arena.granting =
      (arena.alloc grant (levelFor request)).2 := rfl
  rw [hready₁] at hcalled₃
  generalize (arena.alloc grant (levelFor request)).2.alloc Arena.granting
    (levelFor request) = outcome₃ at hcalled₃ hsame
  obtain ⟨hresult, hlimit, htop, hfree⟩ := hsame
  have hrunning₂ := hcalled₂.running
  have hrunning₃ := hcalled₃.running
  rw [hresult] at hrunning₃
  have hbases : again.heap.basePtr = once.heap.basePtr := by
    rw [hbase₃, hbase₁, hbase₂]
  have hlimits : again.heap.bucketLimit = once.heap.bucketLimit := by
    rw [hrunning₃.sim.limit, hrunning₂.sim.limit, hlimit]
  refine ⟨hlive, fun live hmem y hcontains => ?_,
    represents_of_running hrunning₁, once, again, honce, hagain, ?_,
    fun b hb => ?_, fun i hi => ?_, hlimits, ?_⟩
  · obtain ⟨heap₀, ok, hstarts, heffect, -⟩ :=
      step_refines hgrant hrefines hstep
    rw [← hstarts.memory]
    exact heffect.memory y ⟨trivial, live, hmem, hlive ▸ hmem, hcontains⟩
  · cases hcase : outcome₂.1 with
    | none =>
        rw [hcalled₂.result_none hcase,
          hcalled₃.result_none (hresult.trans hcase)]
    | some n =>
        rw [(hcalled₂.result_some n hcase).2.2,
          (hcalled₃.result_some n (hresult.trans hcase)).2.2, hbases]
  · have hb' : b ∈ again.heap.buckets := by
      unfold Heap.buckets at hb ⊢
      rwa [hlimits]
    rw [hrunning₂.sim.freeList hb, hrunning₃.sim.freeList hb', hfree, hbases]
  · have hflags := hrunning₃.tracked
    rw [hlimit] at hflags
    exact parentIsSplit_same hflags hrunning₂.tracked hi
  · rw [hrunning₃.sim.top, hrunning₂.sim.top, htop, hbases]

/-- A run before a call that is refused memory. -/
def beforeRefusal : List Op := [.malloc 16, .malloc 100, .malloc 40, .free 2]

theorem beforeRefusal_run : (runClient (allocator1 samplePlatform) samplePlatform
    sampleGrant beforeRefusal).isSome = true := by
  decide +kernel

def refusedClient : Client :=
  (runClient (allocator1 samplePlatform) samplePlatform sampleGrant
    beforeRefusal).get beforeRefusal_run

theorem refused_step : (step (allocator1 samplePlatform) sampleGrant
    refusedClient (.malloc 4000)).isSome = true := by
  decide +kernel

theorem malloc_retry_sample : ∃ once again,
    step (allocator1 samplePlatform) Arena.granting refusedClient
      (.malloc 4000) = some once ∧
    step (allocator1 samplePlatform) Arena.granting
      ((step (allocator1 samplePlatform) sampleGrant refusedClient
        (.malloc 4000)).get refused_step) (.malloc 4000) = some again ∧
    again.result = once.result := by
  obtain ⟨-, -, -, once, again, honce, hagain, hresult, -⟩ := malloc_retry
    samplePlatform sampleGrant rfl beforeRefusal refusedClient _
    (Option.some_get beforeRefusal_run).symm (by decide +kernel) 4000 (by decide)
    (Option.some_get refused_step).symm (by decide +kernel)
  exact ⟨once, again, honce, hagain, hresult⟩

end Malloc1
end BuddyAlloc
end OsStuff
