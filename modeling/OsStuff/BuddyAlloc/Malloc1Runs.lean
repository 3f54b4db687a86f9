import OsStuff.BuddyAlloc.Blocks
import OsStuff.BuddyAlloc.SplitBits

/-!
# Runs of `malloc_1` and `free_1`

Every run of a client of the first allocator is a run of the abstract client.
What follows for the memory: live blocks do not overlap and are not written to,
the split bits and the free lists represent the tree, and everything that is
written has been obtained from the system, provided that its first request was
granted.
-/

namespace OsStuff
namespace BuddyAlloc

open Library Library.DyadicTree Library.ByteMemory

/-- A process whose data segment ends at `0x100000`. -/
def samplePlatform : Platform where
  buckets := 0x1000
  start := 0x100000
  image _ := 0
  buckets_pos := by decide
  buckets_below := by decide
  start_low := by decide

namespace Malloc1

variable {platform : Platform} {grant : Nat → Bool} {ops : List Op}
  {client client' : Client} {tenancy : Tenancy} {arena : Arena}
  {nodes : List Nat}

/-- `free_1` needs no condition. -/
theorem allows (client : Client) (tenancy : Tenancy) (op : Op) :
    (bookkeeping platform).Allows client tenancy op :=
  Bookkeeping.allows_of_freeable fun _ _ _ _ => trivial

/-- Every run of a client of `malloc_1` and `free_1` is a run of the abstract
client. -/
theorem run_refines (hgrant : grant 0 = true)
    (hrun : runClient (allocator1 platform) platform grant ops = some client) :
    ∃ tenancy, run (Tenancy.step grant (allocator1 platform).total)
        Tenancy.initial ops = some tenancy ∧
      Refines (bookkeeping platform) client tenancy := by
  have hguarded : GuardedRun (step (allocator1 platform) grant)
      (fun _ _ _ => True) platform.client ops client :=
    GuardedRun.of_run hrun fun _ _ => trivial
  exact Refines.run hgrant (fun client op _ tenancy _ _ => allows client tenancy op)
    hguarded (Refines.initial : Refines (bookkeeping platform) _ _)

/-- A step after a run. -/
theorem step_refines (hgrant : grant 0 = true)
    (hrefines : Refines (bookkeeping platform) client tenancy) {op : Op}
    (hstep : step (allocator1 platform) grant client op = some client') :
    ∃ heap₀ ok, Starts platform client.heap heap₀ ∧
      Effect platform (keptBytes (allocator1 platform) client client' op)
        (liveBytes (allocator1 platform) client) ok heap₀ client'.heap ∧
      (ok = false → client'.result = 0) :=
  hrefines.step_effect hgrant hstep (allows client tenancy op)

/-- Every legal operation is carried out. -/
theorem step_exists (grant : Nat → Bool) (op : Op) (hgrant : grant 0 = true)
    (hrefines : Refines (bookkeeping platform) client tenancy)
    (hlegal : op.Legal (allocator1 platform) client) :
    ∃ client', step (allocator1 platform) grant client op = some client' :=
  hrefines.progress (fun _ => hgrant) hlegal (fun _ _ _ _ => Nat.zero_le _)
    (allows client tenancy op)

/-! ## Live blocks -/

/-- The blocks of the live pointers are apart, lie in the memory between
`base_ptr` and `max_ptr`, have room for the header and the request, and their
headers hold the requests. -/
structure LiveSafe (platform : Platform) (client : Client) : Prop where
  apart : (client.live.map (allocator1 platform).block).Pairwise Block.Apart
  inside : ∀ live ∈ client.live,
    client.heap.basePtr ≤ ((allocator1 platform).block live).start ∧
      ((allocator1 platform).block live).start +
        ((allocator1 platform).block live).size ≤ client.heap.maxPtr
  large : ∀ live ∈ client.live,
    headerSize + live.request ≤ ((allocator1 platform).block live).size
  header : ∀ live ∈ client.live,
    loadWord client.heap.memory (live.pointer - headerSize) = live.request

theorem le_blockSize (size : Nat) : size ≤ blockSize size :=
  (le_max_right _ _).trans (Nat.le_pow_clog (by omega) _)

theorem liveSafe_of_refines (hrefines : Refines (bookkeeping platform) client tenancy)
    (hlive : ∀ live ∈ client.live, live.request ≤ 2 ^ 31 - 8) :
    LiveSafe platform client := by
  cases harena : tenancy.arena with
  | none =>
      obtain ⟨-, hnil, -⟩ := hrefines.fresh harena
      constructor <;> simp [hnil]
  | some arena =>
      have hrunning := hrefines.running arena harena
      have howner : ∀ live ∈ client.live, ∃ n,
          Owns (bookkeeping platform) client.heap arena.top live n := by
        intro live hmem
        obtain ⟨index, hindex⟩ := List.mem_iff_getElem?.mp hmem
        obtain ⟨n, -, -, howns⟩ := hrunning.exists_owns hindex
        exact ⟨n, howns⟩
      refine ⟨(List.pairwise_append.mp hrunning.tiles.1).1, ?_, ?_, ?_⟩
      · intro live hmem
        obtain ⟨n, howns⟩ := howner live hmem
        have hheld := howns.held
        have hblock := howns.block
        rw [nodeBlock_eq howns.level] at hblock
        change (allocator1 platform).block live = _ at hblock
        rw [hblock, hrunning.sim.top]
        unfold nodeAddr
        refine ⟨Nat.le_add_right _ _, ?_⟩
        simp only
        omega
      · intro live hmem
        have hbound := hlive live hmem
        have htotal : (allocator1 platform).total live.request =
            live.request + 8 :=
          wrap_of_lt (by simp only [headerSize]; omega)
        -- The header and the request fit into a block of the size that was chosen for both.
        have hle := le_blockSize ((allocator1 platform).total live.request)
        rw [htotal] at hle
        simp only [Allocator.block, Allocator.blockBytes, htotal, headerSize]
        omega
      · intro live hmem
        obtain ⟨n, howns⟩ := howner live hmem
        have hlabel := howns.label
        rw [← howns.blockStart] at hlabel
        exact hlabel

/-- Memory safety of `malloc_1` and `free_1`: after every run the live blocks
are safe, `free_1` finds in the header the bucket that `malloc_1` used, every
legal operation is carried out, and a call changes neither the header nor the
request bytes of a block that stays live. -/
theorem live_blocks_safe (platform : Platform) (grant : Nat → Bool)
    (hgrant : grant 0 = true) (ops : List Op)
    (hops : ∀ op ∈ ops, op.AtMost (2 ^ 31 - 8)) (client : Client)
    (hrun : runClient (allocator1 platform) platform grant ops = some client) :
    LiveSafe platform client ∧
      (∀ live ∈ client.live, ∃ bucket,
        bucketForRequest (wrap (live.request + headerSize)) = some bucket ∧
        bucketForRequest (wrap (loadWord client.heap.memory
          (live.pointer - headerSize) + headerSize)) = some bucket ∧
        ((allocator1 platform).block live).size = 2 ^ (maxAllocLog2 - bucket)) ∧
      ∀ op : Op, op.AtMost (2 ^ 31 - 8) → op.Legal (allocator1 platform) client →
        ∃ client', step (allocator1 platform) grant client op = some client' ∧
          (op.IsCall → ∀ live ∈ client.live, live ∈ client'.live →
            ∀ y, ((allocator1 platform).block live).start ≤ y →
              y < ((allocator1 platform).block live).start + headerSize +
                live.request →
              client'.heap.memory y = client.heap.memory y) := by
  obtain ⟨tenancy, -, hrefines⟩ := run_refines hgrant hrun
  have hlive := live_atMost (GuardedRun.of_run hrun hops)
    (fun live hmem => absurd hmem List.not_mem_nil)
  have hsafe := liveSafe_of_refines hrefines hlive
  refine ⟨hsafe, fun live hmem => ?_, fun op _ hlegal => ?_⟩
  · have hbound := hlive live hmem
    have htotal : wrap (live.request + headerSize) ≤ 2 ^ 31 := by
      rw [wrap_of_lt (by simp only [headerSize]; omega)]
      simp only [headerSize]
      omega
    refine ⟨_, bucketForRequest_eq htotal, ?_, blockSize_eq htotal⟩
    rw [hsafe.header live hmem, bucketForRequest_eq htotal]
  · obtain ⟨client', hstep⟩ := step_exists _ _ hgrant hrefines hlegal
    obtain ⟨heap₀, ok, hstarts, heffect, -⟩ :=
      step_refines hgrant hrefines hstep
    refine ⟨client', hstep, fun hcall live hmem hmem' y hlow hhigh => ?_⟩
    have hlarge := hsafe.large live hmem
    rw [← hstarts.memory]
    exact heffect.memory y ⟨hcall, live, hmem, hmem', hlow, by omega⟩

/-- A run with a refused request, a freed block and a reused one. -/
def sampleOps : List Op :=
  [.malloc 16, .malloc 100, .write 0 3 7, .malloc 40, .free 2, .malloc 4000,
    .malloc 20]

def sampleGrant (k : Nat) : Bool := k ≠ 6

theorem sampleOps_run : (runClient (allocator1 samplePlatform) samplePlatform
    sampleGrant sampleOps).isSome = true := by
  decide +kernel

def sampleClient : Client :=
  (runClient (allocator1 samplePlatform) samplePlatform sampleGrant
    sampleOps).get sampleOps_run

theorem live_blocks_safe_sample :
    sampleClient.live =
        [⟨0x100008, 20⟩, ⟨0x100048, 40⟩, ⟨0x100088, 100⟩] ∧
      LiveSafe samplePlatform sampleClient :=
  ⟨by decide +kernel,
    (live_blocks_safe samplePlatform sampleGrant rfl sampleOps
      (by simp [sampleOps, Op.AtMost]) sampleClient
      (Option.some_get _).symm).1⟩

/-! ## The tree -/

/-- The free lists and the split bits represent the tree whose blocks in use
are the live blocks: live and free blocks tile the current tree, each free
block is on the list of its size, siblings are not both free, and the bit of an
inner node of the largest possible tree is the exclusive-or of "not free" of its
children. -/
structure Represents (platform : Platform) (client : Client) : Prop where
  tiles : Tiles (client.live.map (allocator1 platform).block ++
    client.heap.buckets.flatMap (platform.freeBlocks client.heap))
    client.heap.tree
  aligned : ∀ b ∈ client.heap.buckets, ∀ x ∈ platform.freeList client.heap b,
    client.heap.basePtr ≤ x ∧
      (x - client.heap.basePtr) % 2 ^ (maxAllocLog2 - b) = 0
  coalesced : ∀ b ∈ client.heap.buckets, ∀ x ∈ platform.freeList client.heap b,
    (x - client.heap.basePtr) % (2 * 2 ^ (maxAllocLog2 - b)) = 0 →
      x + 2 ^ (maxAllocLog2 - b) ∉ platform.freeList client.heap b
  bits : ∀ i, i < 2 ^ 27 - 1 → ∃ bit,
    parentIsSplit client.heap (2 * i + 1) = some bit ∧
      (bit = true ↔ ¬ (NotFree (allocator1 platform) client (2 * i + 1) ↔
        NotFree (allocator1 platform) client (2 * i + 2)))

theorem represents_of_running
    (hrunning : Running (bookkeeping platform) client.heap client.live arena
      nodes) : Represents platform client where
  tiles := hrunning.tiles
  aligned b hb x hx := by
    rw [hrunning.sim.freeList hb] at hx
    obtain ⟨n, -, rfl⟩ := List.mem_map.mp hx
    refine ⟨Nat.le_add_right _ _, ?_⟩
    unfold nodeAddr offset
    rw [Nat.add_sub_cancel_left]
    exact Nat.mul_mod_left _ _
  coalesced b hb x hx := hrunning.sim.coalesced hb hx
  bits i hi := by
    have hbit := hrunning.tracked (i + 1) (by omega) (by omega)
    have hsplit : parentIsSplit client.heap (2 * (i + 1) - 1) =
        some (splitBit client.heap.nodeStatus (2 * (i + 1) / 2)) :=
      parentIsSplit_eq _ (by omega) (by omega)
    rw [show 2 * (i + 1) - 1 = 2 * i + 1 by omega,
      show 2 * (i + 1) / 2 = i + 1 by omega] at hsplit
    refine ⟨_, hsplit, hbit.trans ?_⟩
    have hleft := hrunning.notFree_iff (n := 2 * (i + 1)) (by omega) (by omega)
    have hright := hrunning.notFree_iff (n := 2 * (i + 1) + 1) (by omega)
      (by omega)
    rw [show 2 * (i + 1) - 1 = 2 * i + 1 by omega] at hleft
    rw [show 2 * (i + 1) + 1 - 1 = 2 * i + 2 by omega] at hright
    rw [← hleft, ← hright]
    rfl

/-- The log of the last step of a run is in order. -/
theorem log_ok (hgrant : grant 0 = true)
    (hrun : runClient (allocator1 platform) platform grant ops = some client) :
    LogOk platform ∅ client.heap.log ∧
      ∀ r ∈ requests client.heap.log, r.granted = false → client.result = 0 := by
  rcases run_last hrun with rfl | ⟨front, op, middle, -, hfront, hstep⟩
  · exact ⟨fun event hevent => absurd hevent List.not_mem_nil,
      fun r hr => absurd hr List.not_mem_nil⟩
  · obtain ⟨tenancy, -, hrefines⟩ := run_refines hgrant hfront
    obtain ⟨heap₀, ok, hstarts, heffect, hfail⟩ :=
      step_refines hgrant hrefines hstep
    have hnil : LogOk platform (liveBytes (allocator1 platform) middle)
        heap₀.log := by
      rw [hstarts.log]
      exact fun event hevent => absurd hevent List.not_mem_nil
    refine ⟨(heffect.log hnil).mono (Set.empty_subset _), fun r hr hrefused => ?_⟩
    refine hfail ?_
    by_contra hok
    rcases heffect.granted (by simpa using hok) r hr with hr | hgranted
    · rw [hstarts.log] at hr
      exact absurd hr List.not_mem_nil
    · rw [hrefused] at hgranted
      exact absurd hgranted (by simp)

/-- After every run the free lists and the split bits represent the tree, and
every `list_remove` of the last step took a member off its list. -/
theorem tree_represented (platform : Platform) (grant : Nat → Bool)
    (hgrant : grant 0 = true) (ops : List Op) (client : Client)
    (hrun : runClient (allocator1 platform) platform grant ops = some client) :
    (client.heap.basePtr ≠ 0 → Represents platform client) ∧
      ∀ list entry memory,
        Event.remove list entry memory ∈ client.heap.log →
        entry ∈ listNodes memory list := by
  obtain ⟨tenancy, -, hrefines⟩ := run_refines hgrant hrun
  refine ⟨fun hbase => ?_, fun list entry memory hevent => ?_⟩
  · obtain ⟨arena, -, hrunning⟩ := hrefines.exists_arena hbase
    exact represents_of_running hrunning
  · exact ((log_ok hgrant hrun).1 _ hevent).1

theorem tree_represented_sample :
    sampleClient.heap.basePtr = 0x100000 ∧
      Represents samplePlatform sampleClient :=
  ⟨by decide +kernel,
    (tree_represented samplePlatform sampleGrant rfl sampleOps sampleClient
      (Option.some_get _).symm).1 (by decide +kernel)⟩

/-! ## Memory obtained from the system -/

/-- A store goes to the bucket array, or to an address between the break at the
start of the process and the current one. -/
def StoresObtained (platform : Platform) (log : List Event) : Prop :=
  ∀ address brk, Event.store address brk ∈ log →
    (platform.buckets ≤ address ∧
      address + 8 ≤ platform.buckets + sizeofListT * bucketCount) ∨
    (platform.start ≤ address ∧ address + 8 ≤ brk)

/-- A call that was refused memory returns `NULL`. -/
def RefusedIsNull (client : Client) : Prop :=
  ∀ r ∈ requests client.heap.log, r.granted = false → client.result = 0

theorem updateMaxPtr_log (value : Nat) (heap : Heap) :
    heap.log ⊆ (updateMaxPtr grant value heap).2.log ∧
      (updateMaxPtr grant value heap).2.basePtr = heap.basePtr := by
  unfold updateMaxPtr
  by_cases hmore : heap.maxPtr < value
  · rw [if_pos hmore]
    cases grant heap.asked <;> simp
  · rw [if_neg hmore]
    simp

/-- Claiming the smallest block at the base has a result, whatever the system
answers. -/
theorem claimBlock_first (heap : Heap) :
    ∃ outcome, claimBlock platform grant flipParentIsSplit (writeHeader 0) 27 27
        heap.basePtr heap = some outcome ∧ heap.log ⊆ outcome.2.log := by
  obtain ⟨hlog, hbase⟩ : _ ⊆ (updateMaxPtr grant _ _).2.log ∧ _ :=
    updateMaxPtr_log (wrap (heap.basePtr + bytesNeeded 27 27)) heap
  rcases hupdate : updateMaxPtr grant
    (wrap (heap.basePtr + bytesNeeded 27 27)) heap with ⟨granted, heap₁⟩
  rw [hupdate] at hlog hbase
  unfold claimBlock
  rw [hupdate]
  cases granted with
  | false =>
      refine ⟨(0, listPush (platform.head 27) heap.basePtr heap₁), ?_,
        fun event hevent => ?_⟩
      · simp only [platform.bucket_eq (show 27 < bucketCount by simp),
          Option.bind_eq_bind, Option.bind_some]
      · exact List.mem_cons_of_mem _ (List.mem_cons_of_mem _
          (List.mem_cons_of_mem _ (List.mem_cons_of_mem _ (hlog hevent))))
  | true =>
      have hnode : nodeForPtr heap₁ heap.basePtr 27 = some (2 ^ 27 - 1) := by
        have h : nodeForPtr heap₁ _ 27 = _ :=
          nodeForPtr_eq _ (atLevel_two_pow 27) (show 27 < bucketCount by simp)
        rwa [nodeAddr_root, hbase] at h
      have hmark : markUnlessFirst flipParentIsSplit heap₁ (2 ^ 27 - 1) =
          some { heap₁ with
            nodeStatus := flipBit heap₁.nodeStatus (2 ^ 27 / 2) } := by
        rw [markUnlessFirst, if_pos (by norm_num)]
        exact flipParentIsSplit_eq _ (by norm_num) (by norm_num)
      refine ⟨(wrap (heap.basePtr + headerSize),
        { heap₁ with nodeStatus := flipBit heap₁.nodeStatus (2 ^ 27 / 2) }.store
          heap.basePtr 0), ?_, fun event hevent => ?_⟩
      · simp only [hnode, Option.bind_eq_bind, Option.bind_some]
        refine Option.bind_eq_some_iff.mpr ⟨_, hmark, ?_⟩
        rfl
      · exact List.mem_cons_of_mem _ (hlog hevent)

/-- The heap after an initialisation whose request was refused. -/
def refusedHeap (platform : Platform) : Heap :=
  listPush (platform.head 27) platform.start
    (listInit (platform.head 27)
      { placeBase platform.boot with
        asked := 1
        log := [.sbrk ⟨platform.start, platform.start, platform.start + 16,
          false⟩] })

theorem refused_initialise (hgrant : grant 0 = false) :
    initialise platform grant platform.boot.clearLog =
      some (refusedHeap platform) := by
  have hlow := platform.start_low
  have hwrap : wrap (platform.start + 16) = platform.start + 16 :=
    wrap_of_lt (by omega)
  have hupdate : updateMaxPtr grant
      (wrap ((placeBase platform.boot.clearLog).basePtr + sizeofListT))
      (placeBase platform.boot.clearLog) = (false,
        { placeBase platform.boot with
          asked := 1
          log := [.sbrk ⟨platform.start, platform.start, platform.start + 16,
            false⟩] }) := by
    simp [updateMaxPtr, placeBase, Platform.boot, Heap.clearLog, hwrap, hgrant]
  simp only [initialise, hupdate, Option.bind_eq_bind,
    platform.bucket_eq (show bucketCount - 1 < bucketCount by simp),
    Option.bind_some]
  rfl

/-- The first block is on the list of the smallest size all the same. -/
theorem refused_pop : ∃ heap, listPop (platform.head 27) (refusedHeap platform) =
      (platform.start, heap) ∧ heap.basePtr = platform.start ∧
      Event.store platform.start platform.start ∈ heap.log := by
  have hlow := platform.start_low
  have hprev : (refusedHeap platform).prev (platform.head 27) =
      platform.start := by
    unfold refusedHeap listPush Heap.setPrev Heap.prev Heap.store
    exact loadWord_storeWord_same (by omega)
  have hne : platform.start ≠ platform.head 27 := by
    have hbelow := platform.buckets_below
    simp only [Platform.head, sizeofListT, bucketCount, maxAllocLog2,
      minAllocLog2] at *
    omega
  refine ⟨listRemove (platform.head 27) platform.start (refusedHeap platform),
    ?_, rfl, ?_⟩
  · unfold listPop
    rw [hprev, if_neg hne]
  · have hstore : Event.store platform.start platform.start ∈
        (refusedHeap platform).log :=
      List.mem_cons_of_mem _ (List.mem_cons_of_mem _
        (List.mem_cons_of_mem _ List.mem_cons_self))
    exact List.mem_cons_of_mem _ (List.mem_cons_of_mem _
      (List.mem_cons_of_mem _ hstore))

/-- When the first request is refused, the first call of `malloc_1` writes its
first list links behind the break. -/
theorem refused_first_store (grant : Nat → Bool) (hgrant : grant 0 = false) :
    ∃ client, runClient (allocator1 platform) platform grant [.malloc 0] =
        some client ∧
      Event.store platform.start platform.start ∈ client.heap.log := by
  obtain ⟨heap, hpop, hbase, hstore⟩ :
      ∃ heap, listPop (platform.head 27) _ = _ ∧ _ := refused_pop
  obtain ⟨outcome, hclaim, hlog⟩ :
      ∃ outcome, claimBlock platform grant _ _ 27 27 heap.basePtr heap =
        some outcome ∧ _ := claimBlock_first heap
  rw [hbase] at hclaim
  have hpos : platform.start ≠ 0 := platform.start_pos.ne'
  have hsize : wrap (0 + headerSize) = 8 := wrap_of_lt (by simp)
  have hbucket : bucketForRequest 8 = some 27 := by decide
  have hlower : lowerBucketLimit platform grant 27 (refusedHeap platform) =
      some (true, refusedHeap platform) := rfl
  have hmalloc : malloc1 platform grant 0 platform.boot.clearLog =
      some outcome := by
    unfold malloc1 allocate ensureInitialised
    rw [hsize, if_neg (by simp),
      if_pos (show platform.boot.clearLog.basePtr = 0 from rfl),
      refused_initialise hgrant]
    refine Option.bind_eq_some_iff.mpr ⟨_, rfl, ?_⟩
    refine Option.bind_eq_some_iff.mpr ⟨_, hbucket, ?_⟩
    unfold searchLoop
    refine Option.bind_eq_some_iff.mpr ⟨_, hlower, ?_⟩
    refine Option.bind_eq_some_iff.mpr
      ⟨_, platform.bucket_eq (show 27 < bucketCount by simp), ?_⟩
    simp only [hpop, if_neg hpos]
    exact hclaim
  have hstep : step (allocator1 platform) grant platform.client (.malloc 0) =
      some ⟨outcome.2, if outcome.1 = 0 then [] else [⟨outcome.1, 0⟩],
        outcome.1⟩ :=
    step_malloc_iff.mpr ⟨by norm_num, outcome, hmalloc, rfl⟩
  exact ⟨_, run_cons.mpr ⟨_, hstep, rfl⟩, hlog hstore⟩

/-- `malloc_1` and `free_1` write only memory that the system has granted, and
return `NULL` when they are refused memory, exactly when the first request is
granted. -/
theorem writes_obtained_iff (platform : Platform) (grant : Nat → Bool) :
    (∀ ops client,
      runClient (allocator1 platform) platform grant ops = some client →
      StoresObtained platform client.heap.log ∧ RefusedIsNull client) ↔
    grant 0 = true := by
  constructor
  · intro hall
    by_contra hrefused
    obtain ⟨client, hrun, hstore⟩ :=
      refused_first_store grant (by simpa using hrefused)
    have hbelow := platform.buckets_below
    rcases (hall _ client hrun).1 _ _ hstore with h | h <;> omega
  · intro hgrant ops client hrun
    obtain ⟨hlog, hnull⟩ := log_ok hgrant hrun
    exact ⟨fun address brk hstore => hlog _ hstore, hnull⟩

/-- With every request refused, the first call writes behind the break. -/
theorem writes_behind_break :
    ∃ client, runClient (allocator1 samplePlatform) samplePlatform
        (fun _ => false) [.malloc 0] = some client ∧
      ¬ (StoresObtained samplePlatform client.heap.log ∧
        RefusedIsNull client) := by
  obtain ⟨client, hrun, hstore⟩ := refused_first_store (fun _ => false) rfl
  refine ⟨client, hrun, fun hall => ?_⟩
  have hobtained := hall.1 _ _ hstore
  revert hobtained
  decide

end Malloc1
end BuddyAlloc
end OsStuff
