import OsStuff.BuddyAlloc.ArenaSearch
import OsStuff.BuddyAlloc.Malloc1Runs

/-!
# The state of `malloc_1` and `free_1` is canonical

The free nodes are the vacant nodes of the tree, and the split bits are those of
the nodes in use.  Both depend on the taken nodes and on the root only, so two
histories that end with the same live blocks and the same tree end with the same
free blocks and the same bits.
-/

namespace OsStuff
namespace BuddyAlloc

open Library Library.DyadicTree

/-- The live blocks, each by its distance from the base and its size. -/
def liveOffsets (allocator : Allocator) (client : Client) : Set (Nat × Nat) :=
  { p | ∃ live ∈ client.live,
    allocator.block live = ⟨client.heap.basePtr + p.1, p.2⟩ }

/-- The free blocks of a bucket, by their distance from the base. -/
def freeOffsets (platform : Platform) (heap : Heap) (b : Nat) : Set Nat :=
  { x | heap.basePtr + x ∈ platform.freeList heap b }

variable {platform platform' : Platform} {keeping : Bookkeeping platform}
  {keeping' : Bookkeeping platform'} {client client' : Client}
  {heap heap' : Heap} {arena arena' : Arena} {marked : Set Nat}
  {nodes nodes' : List Nat} {base b d n m : Nat}

/-- A node is determined by the offset and the size of its block. -/
theorem nodeBlock_injective {base' : Nat} (hn : AtLevel b n) (hb : b < 28)
    (hm : AtLevel d m) (hd : d < 28) {p : Nat × Nat}
    (hnp : nodeBlock base n = ⟨base + p.1, p.2⟩)
    (hmp : nodeBlock base' m = ⟨base' + p.1, p.2⟩) : n = m := by
  have hsame : nodeBlock base n = nodeBlock base m := by
    rw [nodeBlock_eq hm] at hmp ⊢
    rw [hnp]
    simp only [nodeAddr, Block.mk.injEq] at hmp ⊢
    omega
  have hnm := (nodeBlock_encloses _ hn hb hm hd).mp
    (by rw [hsame]; exact ⟨le_refl _, le_refl _⟩)
  have hmn := (nodeBlock_encloses _ hm hd hn hb).mp
    (by rw [hsame]; exact ⟨le_refl _, le_refl _⟩)
  exact hmn.antisymm hnm

/-- A node is taken exactly when its block is live. -/
theorem Running.mem_liveOffsets
    (hrunning : Running keeping client.heap client.live arena nodes)
    (hn : AtLevel b n) (hb : b < 28) :
    (offset 31 b n, 2 ^ (31 - b)) ∈ liveOffsets keeping.allocator client ↔
      n ∈ nodes := by
  have hblock : nodeBlock client.heap.basePtr n =
      ⟨client.heap.basePtr + offset 31 b n, 2 ^ (31 - b)⟩ := nodeBlock_eq hn
  have hblocks := hrunning.blocks
  constructor
  · rintro ⟨live, hlive, heq⟩
    have hmem := List.mem_map_of_mem (f := keeping.allocator.block) hlive
    rw [hblocks, List.mem_map] at hmem
    obtain ⟨m, hm, hmeq⟩ := hmem
    obtain ⟨d, hd, hlt⟩ := pieces_level hrunning.sim
      ((mem_pieces hrunning.sim).mpr (Or.inl hm))
    rw [heq] at hmeq
    exact nodeBlock_injective hn hb hd hlt hblock hmeq ▸ hm
  · intro hmem
    have hlive := List.mem_map_of_mem (f := nodeBlock client.heap.basePtr) hmem
    rw [← hblocks, List.mem_map] at hlive
    obtain ⟨live, hlive, heq⟩ := hlive
    exact ⟨live, hlive, heq.trans hblock⟩

/-- Two clients with the same live blocks have taken the same nodes. -/
theorem Running.same_nodes
    (hrunning : Running keeping client.heap client.live arena nodes)
    (hrunning' : Running keeping' client'.heap client'.live arena' nodes')
    (hlive : liveOffsets keeping.allocator client =
      liveOffsets keeping'.allocator client') :
    { n | n ∈ nodes } = { n | n ∈ nodes' } := by
  ext n
  constructor
  · intro hn
    obtain ⟨b, hb, hlt⟩ := pieces_level hrunning.sim
      ((mem_pieces hrunning.sim).mpr (Or.inl hn))
    exact (hrunning'.mem_liveOffsets hb hlt).mp
      (hlive ▸ (hrunning.mem_liveOffsets hb hlt).mpr hn)
  · intro hn
    obtain ⟨b, hb, hlt⟩ := pieces_level hrunning'.sim
      ((mem_pieces hrunning'.sim).mpr (Or.inl hn))
    exact (hrunning.mem_liveOffsets hb hlt).mp
      (hlive ▸ (hrunning'.mem_liveOffsets hb hlt).mpr hn)

/-- The offsets of the free blocks are those of the vacant nodes. -/
theorem Sim.mem_freeOffsets (hsim : Sim platform heap arena marked)
    (hb : b ∈ heap.buckets) {x : Nat} :
    x ∈ freeOffsets platform heap b ↔
      ∃ n, (Vacant marked (2 ^ arena.limit) n ∧ AtLevel b n) ∧
        x = offset 31 b n := by
  unfold freeOffsets
  rw [Set.mem_ofPred_eq, hsim.freeList hb, List.mem_map]
  refine exists_congr fun n => ?_
  rw [hsim.shape.free_iff]
  refine and_congr_right fun _ => ?_
  unfold nodeAddr
  omega

theorem Sim.same_freeOffsets (hsim : Sim platform heap arena marked)
    (hsim' : Sim platform' heap' arena' marked)
    (hlimit : heap.bucketLimit = heap'.bucketLimit)
    (hb : b ∈ heap.buckets) :
    freeOffsets platform heap b = freeOffsets platform' heap' b := by
  have hb' : b ∈ heap'.buckets := by
    unfold Heap.buckets at hb ⊢
    rwa [← hlimit]
  have hroot : arena.limit = arena'.limit := by
    rw [← hsim.limit, ← hsim'.limit, hlimit]
  ext x
  rw [hsim.mem_freeOffsets hb, hsim'.mem_freeOffsets hb', hroot]

namespace Malloc1

variable {status status' : Nat → Nat} {p : Nat → Prop} {grant : Nat → Bool}
  {tenancy : Tenancy}

/-- The split bits are determined by what they encode. -/
theorem Encodes.unique (h : Encodes status p) (h' : Encodes status' p)
    (hn : 1 ≤ n) (hlt : n < 2 ^ 27) : splitBit status n = splitBit status' n :=
  Bool.eq_iff_iff.mpr ((h n hn hlt).trans (h' n hn hlt).symm)

/-- Equal bits of the inner nodes. -/
theorem parentIsSplit_same {limit : Nat}
    (hflags : Flags heap.nodeStatus limit marked)
    (hflags' : Flags heap'.nodeStatus limit marked) {i : Nat}
    (hi : i < 2 ^ 27 - 1) :
    parentIsSplit heap (2 * i + 1) = parentIsSplit heap' (2 * i + 1) := by
  have hsplit := parentIsSplit_eq heap (n := 2 * (i + 1))
    (by omega) (by omega)
  have hsplit' := parentIsSplit_eq heap' (n := 2 * (i + 1))
    (by omega) (by omega)
  rw [show 2 * (i + 1) - 1 = 2 * i + 1 by omega] at hsplit hsplit'
  rw [hsplit, hsplit', Encodes.unique hflags hflags' (by omega) (by omega)]

/-- Equal free blocks in every bucket of the tree, and equal split bits. -/
structure SameTree (platform platform' : Platform) (heap heap' : Heap) :
    Prop where
  free : ∀ b ∈ heap.buckets,
    freeOffsets platform heap b = freeOffsets platform' heap' b
  bits : ∀ i, i < 2 ^ 27 - 1 →
    parentIsSplit heap (2 * i + 1) = parentIsSplit heap' (2 * i + 1)

theorem sameTree_of_running
    (hrunning : Running (bookkeeping platform) client.heap client.live arena
      nodes)
    (hrunning' : Running (bookkeeping platform') client'.heap client'.live arena'
      nodes')
    (hlimit : client.heap.bucketLimit = client'.heap.bucketLimit)
    (hlive : liveOffsets (allocator1 platform) client =
      liveOffsets (allocator1 platform') client') :
    SameTree platform platform' client.heap client'.heap := by
  have hnodes := hrunning.same_nodes hrunning' hlive
  have hroot : arena.limit = arena'.limit := by
    rw [← hrunning.sim.limit, ← hrunning'.sim.limit, hlimit]
  refine ⟨fun b hb => hrunning.sim.same_freeOffsets
    (hnodes ▸ hrunning'.sim) hlimit hb, fun i hi => ?_⟩
  have hflags' := hrunning'.tracked
  rw [← hnodes, ← hroot] at hflags'
  exact parentIsSplit_same hrunning.tracked hflags' hi

/-! ## Freeing in either order -/

/-- Removing two entries of a list in either order. -/
theorem eraseIdx_comm {α : Type*} (list : List α) {i j : Nat} (hij : i < j) :
    (list.eraseIdx i).eraseIdx (j - 1) = (list.eraseIdx j).eraseIdx i := by
  induction list generalizing i j with
  | nil => simp
  | cons a list ih =>
      obtain ⟨j, rfl⟩ : ∃ k, j = k + 1 := ⟨j - 1, by omega⟩
      cases i with
      | zero => simp
      | succ i =>
          obtain ⟨j, rfl⟩ : ∃ k, j = k + 1 := ⟨j - 1, by omega⟩
          simpa using ih (i := i) (j := j + 1) (by omega)

/-- What a call of `free_1` leaves alone. -/
theorem free_step (grant : Nat → Bool) (index : Nat)
    (hrefines : Refines (bookkeeping platform) client tenancy)
    (hindex : index < client.live.length) :
    ∃ client' tenancy',
      step (allocator1 platform) grant client (.free index) = some client' ∧
      Refines (bookkeeping platform) client' tenancy' ∧
      client'.live = client.live.eraseIdx index ∧
      client'.heap.basePtr = client.heap.basePtr ∧
      client'.heap.bucketLimit = client.heap.bucketLimit := by
  obtain ⟨client', tenancy', hstep, hfree, hrefines', -, hlive, heffect⟩ :=
    hrefines.free grant (List.getElem?_eq_getElem hindex)
      (fun _ _ => trivial)
  refine ⟨client', tenancy', hstep, hrefines', hlive, heffect.base, ?_⟩
  unfold Tenancy.free at hfree
  obtain ⟨arena, harena, hfree⟩ := Option.bind_eq_some_iff.mp hfree
  obtain ⟨n, -, hfree⟩ := Option.bind_eq_some_iff.mp hfree
  obtain rfl := Option.some.inj hfree
  rw [(hrefines.running arena harena).sim.limit,
    (hrefines'.running _ rfl).sim.limit]
  exact (Arena.release_fields _).1

/-- Freeing two live blocks in either order gives the same tree. -/
theorem free_free (hrefines : Refines (bookkeeping platform) client tenancy)
    {i j : Nat} (hij : i < j) (hj : j < client.live.length) :
    ∃ client₁ client₂,
      run (step (allocator1 platform) grant) client [.free i, .free (j - 1)] =
        some client₁ ∧
      run (step (allocator1 platform) grant) client [.free j, .free i] =
        some client₂ ∧
      SameTree platform platform client₁.heap client₂.heap := by
  obtain ⟨middle, tenancy₁, hstep₁, hrefines₁, hlive₁, hbase₁, hlimit₁⟩ :=
    free_step grant i hrefines (by omega)
  obtain ⟨client₁, tenancy₂, hstep₂, hrefines₂, hlive₂, hbase₂, hlimit₂⟩ :=
    free_step grant (j - 1) hrefines₁
      (by rw [hlive₁, List.length_eraseIdx_of_lt (by omega)]; omega)
  obtain ⟨middle', tenancy₃, hstep₃, hrefines₃, hlive₃, hbase₃, hlimit₃⟩ :=
    free_step grant j hrefines hj
  obtain ⟨client₂, tenancy₄, hstep₄, hrefines₄, hlive₄, hbase₄, hlimit₄⟩ :=
    free_step grant i hrefines₃
      (by rw [hlive₃, List.length_eraseIdx_of_lt hj]; omega)
  have hlive : client₁.live = client₂.live := by
    rw [hlive₂, hlive₁, hlive₄, hlive₃, eraseIdx_comm _ hij]
  have hbase : client₁.heap.basePtr = client₂.heap.basePtr := by
    rw [hbase₂, hbase₁, hbase₄, hbase₃]
  -- There is a live block, so a call has been made before.
  have hne : client.heap.basePtr ≠ 0 := by
    cases harena : tenancy.arena with
    | none =>
        obtain ⟨-, hnil, -⟩ := hrefines.fresh harena
        rw [hnil] at hj
        exact absurd hj (by simp)
    | some arena => exact (hrefines.running arena harena).sim.mapped.base_ne_zero
  obtain ⟨arena, -, hrunning⟩ :=
    hrefines₂.exists_arena (by rw [hbase₂, hbase₁]; exact hne)
  obtain ⟨arena', -, hrunning'⟩ :=
    hrefines₄.exists_arena (by rw [hbase₄, hbase₃]; exact hne)
  refine ⟨client₁, client₂, run_cons.mpr ⟨_, hstep₁, run_cons.mpr
      ⟨_, hstep₂, rfl⟩⟩, run_cons.mpr ⟨_, hstep₃, run_cons.mpr
      ⟨_, hstep₄, rfl⟩⟩, sameTree_of_running hrunning hrunning' ?_ ?_⟩
  · rw [hlimit₂, hlimit₁, hlimit₄, hlimit₃]
  · unfold liveOffsets
    rw [hlive, hbase]

/-- Two runs that end with the same tree size and the same live blocks end with
the same free blocks and split bits; in particular two live blocks may be freed
in either order. -/
theorem state_canonical (platform platform' : Platform)
    (grant grant' : Nat → Bool) (hgrant : grant 0 = true)
    (hgrant' : grant' 0 = true) (ops ops' : List Op) (client client' : Client)
    (hrun : runClient (allocator1 platform) platform grant ops = some client)
    (hrun' : runClient (allocator1 platform') platform' grant' ops' =
      some client')
    (hbase : client.heap.basePtr ≠ 0) (hbase' : client'.heap.basePtr ≠ 0)
    (hlimit : client.heap.bucketLimit = client'.heap.bucketLimit)
    (hlive : liveOffsets (allocator1 platform) client =
      liveOffsets (allocator1 platform') client') :
    SameTree platform platform' client.heap client'.heap ∧
      ∀ i j, i < j → j < client.live.length → ∃ client₁ client₂,
        run (step (allocator1 platform) grant) client
          [.free i, .free (j - 1)] = some client₁ ∧
        run (step (allocator1 platform) grant) client [.free j, .free i] =
          some client₂ ∧
        SameTree platform platform client₁.heap client₂.heap := by
  obtain ⟨tenancy, -, hrefines⟩ := run_refines hgrant hrun
  obtain ⟨tenancy', -, hrefines'⟩ := run_refines hgrant' hrun'
  obtain ⟨arena, -, hrunning⟩ := hrefines.exists_arena hbase
  obtain ⟨arena', -, hrunning'⟩ := hrefines'.exists_arena hbase'
  exact ⟨sameTree_of_running hrunning hrunning' hlimit hlive,
    fun i j hij hj => free_free hrefines hij hj⟩

/-- Two histories with the same outcome. -/
def leftOps : List Op := [.malloc 16, .malloc 16, .malloc 16, .free 0]

def rightOps : List Op := [.malloc 16, .malloc 16, .malloc 50, .free 0]

theorem leftOps_run : (runClient (allocator1 samplePlatform) samplePlatform
    Arena.granting leftOps).isSome = true := by
  decide +kernel

theorem rightOps_run : (runClient (allocator1 samplePlatform) samplePlatform
    sampleGrant rightOps).isSome = true := by
  decide +kernel

theorem state_canonical_sample :
    SameTree samplePlatform samplePlatform
      ((runClient (allocator1 samplePlatform) samplePlatform Arena.granting
        leftOps).get leftOps_run).heap
      ((runClient (allocator1 samplePlatform) samplePlatform sampleGrant
        rightOps).get rightOps_run).heap := by
  refine (state_canonical samplePlatform samplePlatform Arena.granting
    sampleGrant rfl rfl leftOps rightOps _ _ (Option.some_get leftOps_run).symm
    (Option.some_get rightOps_run).symm (by decide +kernel) (by decide +kernel)
    (by decide +kernel) ?_).1
  have hlive : ((runClient (allocator1 samplePlatform) samplePlatform
      Arena.granting leftOps).get leftOps_run).live =
      ((runClient (allocator1 samplePlatform) samplePlatform sampleGrant
        rightOps).get rightOps_run).live := by
    decide +kernel
  have hbase : ((runClient (allocator1 samplePlatform) samplePlatform
      Arena.granting leftOps).get leftOps_run).heap.basePtr =
      ((runClient (allocator1 samplePlatform) samplePlatform sampleGrant
        rightOps).get rightOps_run).heap.basePtr := by
    decide +kernel
  unfold liveOffsets
  rw [hlive, hbase]

end Malloc1
end BuddyAlloc
end OsStuff
