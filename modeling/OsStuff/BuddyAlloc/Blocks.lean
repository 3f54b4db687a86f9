import OsStuff.BuddyAlloc.Refinement

/-!
# Blocks of memory

What an observer sees of an allocator without knowing about nodes: the blocks of
the live pointers and the blocks on the free lists, each a first address and a
size.  Relations between blocks are relations between nodes.
-/

namespace OsStuff
namespace BuddyAlloc

open Library Library.DyadicTree

/-- A block of memory. -/
structure Block where
  start : Nat
  size : Nat
  deriving DecidableEq, Repr

namespace Block

/-- The address belongs to the block. -/
def Contains (block : Block) (y : Nat) : Prop :=
  block.start ≤ y ∧ y < block.start + block.size

/-- The blocks have no address in common. -/
def Apart (block block' : Block) : Prop :=
  block.start + block.size ≤ block'.start ∨
    block'.start + block'.size ≤ block.start

/-- All of the second block lies in the first. -/
def Encloses (block block' : Block) : Prop :=
  block.start ≤ block'.start ∧
    block'.start + block'.size ≤ block.start + block.size

instance (block : Block) (y : Nat) : Decidable (block.Contains y) :=
  inferInstanceAs (Decidable (_ ∧ _))

instance (block block' : Block) : Decidable (block.Apart block') :=
  inferInstanceAs (Decidable (_ ∨ _))

instance (block block' : Block) : Decidable (block.Encloses block') :=
  inferInstanceAs (Decidable (_ ∧ _))

end Block

/-- The blocks are apart, and together they have the addresses of `whole`. -/
def Tiles (blocks : List Block) (whole : Block) : Prop :=
  blocks.Pairwise Block.Apart ∧
    ∀ y, whole.Contains y ↔ ∃ block ∈ blocks, block.Contains y

/-- The block of a live pointer. -/
def Allocator.block (allocator : Allocator) (live : Live) : Block :=
  ⟨allocator.blockStart live, allocator.blockBytes live⟩

/-- The entries of the free list of a bucket, in order. -/
def Platform.freeList (platform : Platform) (heap : Heap) (bucket : Nat) :
    List Nat :=
  listNodes heap.memory (platform.head bucket)

/-- The blocks on the free list of a bucket. -/
def Platform.freeBlocks (platform : Platform) (heap : Heap) (bucket : Nat) :
    List Block :=
  (platform.freeList heap bucket).map fun x => ⟨x, 2 ^ (maxAllocLog2 - bucket)⟩

/-- The buckets of the current tree. -/
def Heap.buckets (heap : Heap) : List Nat :=
  (List.range bucketCount).filter fun bucket => heap.bucketLimit ≤ bucket

/-- The segment of the current tree. -/
def Heap.tree (heap : Heap) : Block :=
  ⟨heap.basePtr, 2 ^ (maxAllocLog2 - heap.bucketLimit)⟩

/-! ## Nodes as blocks -/

/-- The block of a node. -/
def nodeBlock (base n : Nat) : Block :=
  ⟨nodeAddr base (Nat.log2 n) n, 2 ^ (31 - Nat.log2 n)⟩

variable {platform : Platform} {keeping : Bookkeeping platform}
  {heap heap₀ : Heap} {client client' : Client} {tenancy : Tenancy}
  {arena : Arena} {marked : Set Nat} {grant : Nat → Bool}
  {nodes : List Nat} {lives : List Live} {live : Live} {base b d n m top : Nat}

theorem nodeBlock_eq (hn : AtLevel b n) :
    nodeBlock base n = ⟨nodeAddr base b n, 2 ^ (31 - b)⟩ := by
  unfold nodeBlock
  rw [hn.log2]

/-- The addresses of a block are the leaves below its node. -/
theorem nodeBlock_contains (base : Nat) {y : Nat} (hn : AtLevel b n)
    (hb : b < 28) :
    (nodeBlock base n).Contains y ↔
      ∃ x, x < 2 ^ 31 ∧ y = base + x ∧ Within (2 ^ 31 + x) n := by
  rw [nodeBlock_eq hn]
  exact mem_node_iff _ hn hb

/-- One block encloses another exactly when its node lies above the
other. -/
theorem nodeBlock_encloses (base : Nat) (hn : AtLevel b n) (hb : b < 28)
    (hm : AtLevel d m) (hd : d < 28) :
    (nodeBlock base n).Encloses (nodeBlock base m) ↔ Within m n := by
  have hstart := within_start hm hd
  constructor
  · intro hencloses
    have hinside := (nodeBlock_contains base hm hd).mpr
      ⟨_, hstart.1, rfl, hstart.2⟩
    rw [nodeBlock_eq hn, nodeBlock_eq hm] at hencloses
    rw [nodeBlock_eq hm] at hinside
    simp only [Block.Encloses, Block.Contains] at hencloses hinside
    obtain ⟨x, -, heq, hwithin⟩ := (mem_node_iff base
      (y := base + offset 31 d m) hn hb).mp (by omega)
    obtain rfl : offset 31 d m = x := by omega
    rcases hstart.2.total hwithin with h | h
    · exact h
    · have hlevels := (h.levels hn hm).1
      have hsize : 2 ^ (31 - d) ≤ 2 ^ (31 - b) := by omega
      have hexp := (Nat.pow_le_pow_iff_right (by omega)).mp hsize
      obtain rfl : b = d := by omega
      rw [h.eq_of_level hn hm]
      exact within_refl m
  · intro hwithin
    have hall : ∀ y, (nodeBlock base m).Contains y →
        (nodeBlock base n).Contains y := by
      intro y
      rw [nodeBlock_contains _ hm hd, nodeBlock_contains _ hn hb]
      rintro ⟨x, hx, rfl, hbelow⟩
      exact ⟨x, hx, rfl, hbelow.trans hwithin⟩
    have hpos : 0 < 2 ^ (31 - d) := by positivity
    rw [nodeBlock_eq hn, nodeBlock_eq hm] at *
    simp only [Block.Encloses, Block.Contains] at *
    have hfirst := hall (nodeAddr base d m) (by omega)
    have hlast := hall (nodeAddr base d m + 2 ^ (31 - d) - 1) (by omega)
    omega

/-- Two blocks are apart exactly when neither node lies above the other. -/
theorem nodeBlock_apart (hn : AtLevel b n) (hb : b < 28) (hm : AtLevel d m)
    (hd : d < 28) :
    (nodeBlock base n).Apart (nodeBlock base m) ↔
      ¬ Within n m ∧ ¬ Within m n := by
  constructor
  · intro hapart
    rw [← nodeBlock_encloses _ hn hb hm hd,
      ← nodeBlock_encloses base hm hd hn hb]
    have hpos : 0 < 2 ^ (31 - b) := by positivity
    have hpos' : 0 < 2 ^ (31 - d) := by positivity
    rw [nodeBlock_eq hn, nodeBlock_eq hm] at *
    simp only [Block.Apart, Block.Encloses] at *
    omega
  · rintro ⟨hnm, hmn⟩
    have hnone : ∀ y, (nodeBlock base n).Contains y →
        ¬ (nodeBlock base m).Contains y := by
      intro y
      rw [nodeBlock_contains _ hn hb, nodeBlock_contains _ hm hd]
      rintro ⟨x, -, rfl, hbelow⟩ ⟨x', -, heq, hbelow'⟩
      obtain rfl : x = x' := by omega
      exact (hbelow.total hbelow').elim hnm hmn
    have hpos : 0 < 2 ^ (31 - b) := by positivity
    have hpos' : 0 < 2 ^ (31 - d) := by positivity
    rw [nodeBlock_eq hn, nodeBlock_eq hm] at *
    simp only [Block.Apart, Block.Contains] at *
    have hmax := hnone (max (nodeAddr base b n) (nodeAddr base d m))
    omega

/-! ## The blocks of a client -/

/-- A client with a base has an arena. -/
theorem Refines.exists_arena (hrefines : Refines keeping client tenancy)
    (hbase : client.heap.basePtr ≠ 0) :
    ∃ arena, tenancy.arena = some arena ∧
      Running keeping client.heap client.live arena tenancy.live := by
  cases harena : tenancy.arena with
  | none => exact absurd (hrefines.fresh harena).1.base hbase
  | some arena => exact ⟨arena, rfl, hrefines.running arena harena⟩

theorem Owns.block (howns : Owns keeping heap top live n) :
    keeping.allocator.block live = nodeBlock heap.basePtr n := by
  rw [nodeBlock_eq howns.level]
  unfold Allocator.block
  rw [howns.blockStart, howns.blockBytes]

/-- The blocks of the live pointers are the blocks of the taken nodes. -/
theorem Running.blocks (hrunning : Running keeping heap lives arena nodes) :
    lives.map keeping.allocator.block = nodes.map (nodeBlock heap.basePtr) := by
  have howns := hrunning.owns
  clear hrunning
  induction howns with
  | nil => rfl
  | cons hhead htail ih => rw [List.map_cons, List.map_cons, hhead.block, ih]

theorem Heap.mem_buckets (hsim : Sim platform heap arena marked) :
    b ∈ heap.buckets ↔ arena.limit ≤ b ∧ b < 28 := by
  unfold Heap.buckets
  simp only [List.mem_filter, List.mem_range, decide_eq_true_eq, hsim.limit]
  simp
  tauto

/-- The free list of a bucket holds the addresses of the free nodes. -/
theorem Sim.freeList (hsim : Sim platform heap arena marked)
    (hb : b ∈ heap.buckets) :
    platform.freeList heap b = (arena.free b).map (nodeAddr heap.basePtr b) :=
  hsim.lists.listNodes_eq (hsim.active_iff.mpr ((Heap.mem_buckets hsim).mp hb))

/-- The blocks on the free list of a bucket are the blocks of the free
nodes. -/
theorem Sim.freeBlocks (hsim : Sim platform heap arena marked)
    (hb : b ∈ heap.buckets) :
    platform.freeBlocks heap b =
      (arena.free b).map (nodeBlock heap.basePtr) := by
  unfold Platform.freeBlocks
  rw [hsim.freeList hb, List.map_map]
  refine List.map_congr_left fun n hn => ?_
  rw [nodeBlock_eq (hsim.shape.free_level hn).1]
  rfl

/-! ## The tree as a tiling -/

/-- The taken and the free nodes of an arena, one after the other. -/
def pieces (nodes : List Nat) (buckets : List Nat) (arena : Arena) : List Nat :=
  nodes ++ buckets.flatMap arena.free

theorem mem_pieces (hsim : Sim platform heap arena { n | n ∈ nodes }) :
    n ∈ pieces nodes heap.buckets arena ↔
      n ∈ nodes ∨ Vacant { n | n ∈ nodes } (2 ^ arena.limit) n := by
  unfold pieces
  rw [List.mem_append, List.mem_flatMap]
  refine or_congr_right ⟨?_, fun hvacant => ?_⟩
  · rintro ⟨b, -, hfree⟩
    exact ((hsim.shape.free_iff b n).mp hfree).1
  · obtain ⟨b, hb⟩ := exists_atLevel (n := n) (by
      have hle := hvacant.below.le
      have hpos := Nat.one_le_two_pow (n := arena.limit)
      omega)
    exact ⟨b, (Heap.mem_buckets hsim).mpr (hsim.shape.vacant_level hvacant hb),
      (hsim.shape.free_iff b n).mpr ⟨hvacant, hb⟩⟩

theorem pieces_nodup (hsim : Sim platform heap arena { n | n ∈ nodes })
    (hnodup : nodes.Nodup) : (pieces nodes heap.buckets arena).Nodup := by
  refine List.nodup_append.mpr ⟨hnodup, List.nodup_flatMap.mpr
    ⟨fun b _ => hsim.shape.nodup b, ?_⟩, ?_⟩
  · refine (List.nodup_range.filter _).imp fun {b d} hne => ?_
    intro n hb hd
    exact hne ((hsim.shape.free_level hb).1.unique (hsim.shape.free_level hd).1)
  · rintro n hn m hm rfl
    obtain ⟨b, -, hfree⟩ := List.mem_flatMap.mp hm
    exact ((hsim.shape.free_iff b n).mp hfree).1.not_mem hn

/-- A taken or free node has a level of the tree. -/
theorem pieces_level (hsim : Sim platform heap arena { n | n ∈ nodes })
    (hn : n ∈ pieces nodes heap.buckets arena) :
    ∃ b, AtLevel b n ∧ b < 28 := by
  have hpos := Nat.one_le_two_pow (n := arena.limit)
  rcases (mem_pieces hsim).mp hn with hn | hvacant
  · obtain ⟨b, hb⟩ := exists_atLevel (n := n) (by
      have := (hsim.shape.marking.below n hn).le
      omega)
    exact ⟨b, hb, hsim.shape.node_lt hn hb⟩
  · obtain ⟨b, hb⟩ := exists_atLevel (n := n) (by
      have := hvacant.below.le
      omega)
    exact ⟨b, hb, (hsim.shape.vacant_level hvacant hb).2⟩

/-- Different taken or free nodes do not lie above each other. -/
theorem pieces_apart (hsim : Sim platform heap arena { n | n ∈ nodes })
    (hn : n ∈ pieces nodes heap.buckets arena)
    (hm : m ∈ pieces nodes heap.buckets arena) (hwithin : Within n m) :
    n = m := by
  have hroot := Nat.one_le_two_pow (n := arena.limit)
  have hmarking := hsim.shape.marking
  rcases (mem_pieces hsim).mp hn with hn | hn <;>
    rcases (mem_pieces hsim).mp hm with hm | hm
  · exact hmarking.apart n hn m hm hwithin
  · exact absurd ⟨n, hn, hwithin⟩ hm.empty
  · exact absurd hwithin (hn.not_within_marked hmarking hroot hm)
  · exact hn.unique hm hroot (within_refl n) hwithin

/-- The root is the current tree. -/
theorem Sim.tree (hsim : Sim platform heap arena marked) :
    heap.tree = nodeBlock heap.basePtr (2 ^ arena.limit) := by
  rw [nodeBlock_eq (atLevel_two_pow arena.limit), nodeAddr_root]
  simp only [Heap.tree, hsim.limit, maxAllocLog2]

/-- The live blocks and the free blocks tile the current tree. -/
theorem Running.tiles (hrunning : Running keeping heap lives arena nodes) :
    Tiles (lives.map keeping.allocator.block ++
        heap.buckets.flatMap (platform.freeBlocks heap)) heap.tree := by
  have hsim := hrunning.sim
  have hblocks : lives.map keeping.allocator.block ++
      heap.buckets.flatMap (platform.freeBlocks heap) =
      (pieces nodes heap.buckets arena).map (nodeBlock heap.basePtr) := by
    unfold pieces
    rw [hrunning.blocks, List.map_append, List.map_flatMap]
    congr 1
    exact List.flatMap_congr fun b hb => hsim.freeBlocks hb
  rw [hblocks]
  constructor
  · -- Apart: two blocks that overlap belong to nodes one of which is below the other, and
    -- such pieces are equal.
    rw [List.pairwise_map]
    refine (pieces_nodup hsim hrunning.nodup).pairwise_of_forall_ne
      fun n hn m hm hne => ?_
    obtain ⟨b, hb, hlt⟩ := pieces_level hsim hn
    obtain ⟨d, hd, hlt'⟩ := pieces_level hsim hm
    exact (nodeBlock_apart hb hlt hd hlt').mpr
      ⟨fun h => hne (pieces_apart hsim hn hm h),
        fun h => hne (pieces_apart hsim hm hn h).symm⟩
  · intro y
    rw [hsim.tree]
    refine Iff.trans (nodeBlock_contains _ (atLevel_two_pow arena.limit)
      hsim.shape.limit_lt) ⟨?_, ?_⟩
    · -- Covering: a byte is a leaf of the tree. It is below a live node, or else below the
      -- highest vacant node above it, which is on a free list.
      rintro ⟨x, hx, rfl, hbelow⟩
      have hpiece : ∃ n ∈ pieces nodes heap.buckets arena,
          Within (2 ^ 31 + x) n := by
        by_cases hinside : ∃ m ∈ nodes, Within (2 ^ 31 + x) m
        · obtain ⟨m, hm, hwithin⟩ := hinside
          exact ⟨m, (mem_pieces hsim).mpr (Or.inl hm), hwithin⟩
        · have hempty : ¬ Occupied { n | n ∈ nodes } (2 ^ 31 + x) := by
            rintro ⟨m, hm, hwithin⟩
            have hle := hwithin.le
            have hdepth := hsim.shape.depth m hm
            omega
          obtain ⟨v, hvacant, hwithin⟩ := exists_vacant_above _
            Nat.one_le_two_pow _ hbelow
            (fun m hm h => hinside ⟨m, hm, h⟩) hempty
          exact ⟨v, (mem_pieces hsim).mpr (Or.inr hvacant), hwithin⟩
      obtain ⟨n, hn, hwithin⟩ := hpiece
      obtain ⟨b, hb, hlt⟩ := pieces_level hsim hn
      exact ⟨_, List.mem_map.mpr ⟨n, hn, rfl⟩,
        (nodeBlock_contains _ hb hlt).mpr ⟨x, hx, rfl, hwithin⟩⟩
    · rintro ⟨block, hblock, hcontains⟩
      obtain ⟨n, hn, rfl⟩ := List.mem_map.mp hblock
      obtain ⟨b, hb, hlt⟩ := pieces_level hsim hn
      obtain ⟨x, hx, rfl, hwithin⟩ := (nodeBlock_contains _ hb hlt).mp hcontains
      refine ⟨x, hx, rfl, hwithin.trans ?_⟩
      -- Nothing sticks out: every piece is below the root.
      rcases (mem_pieces hsim).mp hn with hn | hvacant
      · exact hsim.shape.marking.below n hn
      · exact hvacant.below

/-! ## Siblings and nodes in use -/

/-- Free siblings have been merged. -/
theorem Sim.coalesced (hsim : Sim platform heap arena marked)
    (hb : b ∈ heap.buckets) {x : Nat} (hx : x ∈ platform.freeList heap b)
    (heven : (x - heap.basePtr) % (2 * 2 ^ (31 - b)) = 0) :
    x + 2 ^ (31 - b) ∉ platform.freeList heap b := by
  intro hy
  rw [hsim.freeList hb, List.mem_map] at hx hy
  obtain ⟨n, hn, rfl⟩ := hx
  obtain ⟨m, hm, heq⟩ := hy
  obtain ⟨hn', -, -⟩ := hsim.shape.free_level hn
  obtain ⟨hm', -, -⟩ := hsim.shape.free_level hm
  have hpos : 0 < 2 ^ (31 - b) := by positivity
  -- The block behind belongs to the next node of the level, which is the sibling of a node
  -- with an even place.
  have hnext : m - 2 ^ b = n - 2 ^ b + 1 := by
    unfold nodeAddr offset at heq
    refine Nat.eq_of_mul_eq_mul_right hpos ?_
    rw [Nat.add_mul, Nat.one_mul]
    omega
  have hhalf : (n - 2 ^ b) % 2 = 0 := by
    unfold nodeAddr offset at heven
    rw [Nat.add_sub_cancel_left, Nat.mul_mod_mul_right] at heven
    exact (Nat.mul_eq_zero.mp heven).resolve_right (by omega)
  have hlow := hn'.1
  have hlow' := hm'.1
  obtain ⟨c, rfl⟩ : ∃ c, b = c + 1 := by
    refine ⟨b - 1, ?_⟩
    by_contra hzero
    obtain rfl : b = 0 := by omega
    have := hn'.eq_of_zero
    have := hm'.eq_of_zero
    omega
  have hsibling : m = sibling n := by
    unfold sibling
    rw [Nat.pow_succ] at hlow hlow' hhalf hnext
    omega
  exact hsim.shape.not_both_free hn (hsibling ▸ hm)

/-- A node that is a live block or contains one, inside the current tree.  Nodes
are given by their indices. -/
def NotFree (allocator : Allocator) (client : Client) (i : Nat) : Prop :=
  client.heap.tree.Encloses (nodeBlock client.heap.basePtr (i + 1)) ∧
    ∃ live ∈ client.live,
      (nodeBlock client.heap.basePtr (i + 1)).Encloses (allocator.block live)

/-- The nodes that are not free are those in use. -/
theorem Running.notFree_iff
    (hrunning : Running keeping client.heap client.live arena nodes)
    (hn : 1 ≤ n) (hlt : n < 2 ^ 28) :
    NotFree keeping.allocator client (n - 1) ↔
      InUse { m | m ∈ nodes } (2 ^ arena.limit) n := by
  have hsim := hrunning.sim
  obtain ⟨b, hb⟩ := exists_atLevel hn
  have hdepth : b < 28 :=
    (Nat.pow_lt_pow_iff_right (a := 2) (by omega)).mp (lt_of_le_of_lt hb.1 hlt)
  have hblocks : (∃ live ∈ client.live,
      (nodeBlock client.heap.basePtr n).Encloses
        (keeping.allocator.block live)) ↔
      ∃ m ∈ nodes, (nodeBlock client.heap.basePtr n).Encloses
        (nodeBlock client.heap.basePtr m) := by
    have hmem : ∀ block, block ∈ client.live.map keeping.allocator.block ↔
        block ∈ nodes.map (nodeBlock client.heap.basePtr) := by
      rw [hrunning.blocks]
      simp
    simp only [List.mem_map] at hmem
    constructor
    · rintro ⟨live, hlive, hencloses⟩
      obtain ⟨m, hm, heq⟩ := (hmem _).mp ⟨live, hlive, rfl⟩
      exact ⟨m, hm, heq ▸ hencloses⟩
    · rintro ⟨m, hm, hencloses⟩
      obtain ⟨live, hlive, heq⟩ := (hmem _).mpr ⟨m, hm, rfl⟩
      exact ⟨live, hlive, heq ▸ hencloses⟩
  unfold NotFree InUse Occupied
  rw [Nat.sub_add_cancel hn, hblocks, hsim.tree, nodeBlock_encloses _
    (atLevel_two_pow _) hsim.shape.limit_lt hb hdepth]
  refine and_congr_right fun _ => exists_congr fun m => and_congr_right fun hm => ?_
  obtain ⟨d, hd, hlt'⟩ := pieces_level hsim ((mem_pieces hsim).mpr (Or.inl hm))
  exact nodeBlock_encloses _ hb hdepth hd hlt'

/-! ## What a step does to memory -/

/-- The addresses of the live blocks. -/
def liveBytes (allocator : Allocator) (client : Client) : Set Nat :=
  { y | ∃ live ∈ client.live, (allocator.block live).Contains y }

theorem Running.liveBytes_eq
    (hrunning : Running keeping client.heap client.live arena nodes) :
    liveBytes keeping.allocator client =
      bytesOf client.heap.basePtr { n | n ∈ nodes } := by
  ext y
  constructor
  · rintro ⟨live, hlive, hcontains⟩
    obtain ⟨index, hindex⟩ := List.mem_iff_getElem?.mp hlive
    obtain ⟨n, -, hn, howns⟩ := hrunning.exists_owns hindex
    exact bytesOf_mono (Set.singleton_subset_iff.mpr hn)
      (howns.mem_block.mp hcontains)
  · rintro ⟨x, hx, rfl, n, hn, hwithin⟩
    obtain ⟨b, hb, hlt⟩ := pieces_level hrunning.sim
      ((mem_pieces hrunning.sim).mpr (Or.inl hn))
    have hmem : nodeBlock client.heap.basePtr n ∈
        client.live.map keeping.allocator.block := by
      rw [hrunning.blocks]
      exact List.mem_map.mpr ⟨n, hn, rfl⟩
    obtain ⟨live, hlive, heq⟩ := List.mem_map.mp hmem
    refine ⟨live, hlive, ?_⟩
    rw [heq]
    exact (nodeBlock_contains _ hb hlt).mpr ⟨x, hx, rfl, hwithin⟩

theorem Starts.memory (hstarts : Starts platform heap heap₀) :
    heap₀.memory = heap.memory := by
  rcases hstarts with rfl | ⟨-, rfl⟩ <;> rfl

theorem Starts.log (hstarts : Starts platform heap heap₀) :
    heap₀.log = [] := by
  rcases hstarts with rfl | ⟨-, rfl⟩ <;> rfl

/-- The bytes of the taken nodes, as seen from the heap in which the effects of
a call start. -/
theorem Refines.liveBytes_eq (hrefines : Refines keeping client tenancy)
    (hstarts : Starts platform client.heap heap₀) :
    liveBytes keeping.allocator client =
      bytesOf heap₀.basePtr tenancy.marked := by
  cases harena : tenancy.arena with
  | none =>
      obtain ⟨-, hlive, hnodes⟩ := hrefines.fresh harena
      have hmarked : tenancy.marked = ∅ := by
        unfold Tenancy.marked
        rw [hnodes]
        simp
      rw [hmarked, bytesOf_empty]
      unfold liveBytes
      rw [hlive]
      simp
  | some arena =>
      have hrunning := hrefines.running arena harena
      rcases hstarts with rfl | ⟨hfresh, -⟩
      · exact hrunning.liveBytes_eq
      · exact absurd hfresh.base hrunning.sim.mapped.base_ne_zero

/-- The addresses of the blocks that are live before and after a call. -/
def keptBytes (allocator : Allocator) (client client' : Client) (op : Op) :
    Set Nat :=
  { y | op.IsCall ∧ ∃ live ∈ client.live, live ∈ client'.live ∧
    (allocator.block live).Contains y }

/-- The effect of a step of the client: a call keeps the blocks that stay live,
and a call that was refused memory returns `NULL`. -/
theorem Refines.step_effect (hrefines : Refines keeping client tenancy)
    (hgrant : grant 0 = true) {op : Op}
    (hstep : BuddyAlloc.step keeping.allocator grant client op = some client')
    (hallows : keeping.Allows client tenancy op) :
    ∃ heap₀ ok, Starts platform client.heap heap₀ ∧
      Effect platform (keptBytes keeping.allocator client client' op)
        (liveBytes keeping.allocator client) ok heap₀ client'.heap ∧
      (ok = false → client'.result = 0) := by
  cases op with
  | malloc request =>
      obtain ⟨hrefines', heap₀, hstarts, heffect⟩ := hrefines.malloc (fun _ => hgrant) hstep
      rw [← hrefines.liveBytes_eq hstarts] at heffect
      refine ⟨heap₀, _, hstarts, heffect.mono ?_, fun hnone => ?_⟩
      · rintro y ⟨-, live, hlive, -, hcontains⟩
        exact ⟨live, hlive, hcontains⟩
      · rw [Option.isSome_eq_false_iff, Option.isNone_iff_eq_none] at hnone
        exact hrefines'.result_none hnone
  | free index =>
      cases hindex : client.live[index]? with
      | none => simp [BuddyAlloc.step, hindex] at hstep
      | some live =>
          obtain ⟨client'', tenancy', hstep', hfree, hrefines', -, -, heffect⟩ :=
            hrefines.free grant hindex hallows
          obtain rfl : client'' = client' := by simpa [hstep'] using hstep
          have hkept := hrefines'.liveBytes_eq (Or.inl rfl)
          have hbase : client''.heap.clearLog.basePtr = client.heap.basePtr :=
            heffect.base
          have hstarts : Starts platform client.heap client.heap.clearLog :=
            Or.inl rfl
          have hguarded := hrefines.liveBytes_eq hstarts
          rw [show client.heap.clearLog.basePtr = client.heap.basePtr from rfl]
            at hguarded
          rw [hbase] at hkept
          rw [← hkept, ← hguarded] at heffect
          refine ⟨_, true, hstarts, heffect.mono ?_, by simp⟩
          rintro y ⟨-, live, -, hlive, hcontains⟩
          exact ⟨live, hlive, hcontains⟩
  -- A write is a step of the client: no call is made and nothing need be kept.
  | write index offset byte =>
      cases hindex : client.live[index]? with
      | none => simp [BuddyAlloc.step, hindex] at hstep
      | some live =>
          by_cases hoffset : offset < keeping.allocator.usable live
          · simp only [BuddyAlloc.step, hindex, Option.bind_eq_bind,
              Option.bind_some, if_pos hoffset, Option.some.injEq] at hstep
            subst hstep
            refine ⟨_, true, Or.inl rfl, Effect.of_same rfl ?_ id rfl rfl rfl,
              by simp⟩
            rintro y ⟨hcall, -⟩
            exact absurd hcall id
          · simp [BuddyAlloc.step, hindex, hoffset] at hstep

end BuddyAlloc
end OsStuff
