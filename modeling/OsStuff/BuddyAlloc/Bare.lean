import OsStuff.BuddyAlloc.ArenaSearch
import OsStuff.BuddyAlloc.Blocks

/-!
# Heaps without memory

When the very first request to the system is refused the base has been placed
and the tree holds its root, but nothing has been obtained.  Such a heap is
`Bare`.  Seen as if the links of the first block had been obtained it simulates
an arena, so that a later call, when the system provides what it asks for, goes
on like any other.  An allocator that `LiftsBare` grows a bare heap without
asking the system.
-/

namespace OsStuff
namespace BuddyAlloc

open Library Library.DyadicTree

/-- The heap as it would be with the links of the first block obtained. -/
def Heap.backed (heap : Heap) : Heap where
  memory := heap.memory
  brk := heap.basePtr + 16
  asked := heap.asked
  basePtr := heap.basePtr
  maxPtr := heap.basePtr + 16
  bucketLimit := heap.bucketLimit
  nodeStatus := heap.nodeStatus
  log := []

variable {platform : Platform} {grant : Nat → Bool} {heap heap' : Heap}
  {client client' : Client} {tenancy : Tenancy} {arena : Arena}
  {b l request : Nat} {keeping : Bookkeeping platform}

theorem Sim.toBacked {marked : Set Nat} (hsim : Sim platform heap arena marked)
    (htop : arena.top = 16) : Sim platform heap.backed arena marked := by
  have hfields := hsim.top
  refine ⟨⟨hsim.mapped.above, hsim.mapped.low, le_refl _⟩, hsim.limit, ?_,
    hsim.asked, hsim.shape, ⟨hsim.lists.family, fun j hj x hx => ?_⟩⟩
  · rw [htop]
    rfl
  · obtain ⟨hslot, hroom⟩ := hsim.lists.backed j hj x hx
    refine ⟨hslot, ?_⟩
    rw [hfields, htop] at hroom
    exact hroom

/-- A backed heap whose `max_ptr` and break are set anew. -/
theorem Sim.supply {marked : Set Nat} (hsim : Sim platform heap.backed arena marked)
    {top : Nat} (hbase : heap'.basePtr = heap.basePtr)
    (hmemory : heap'.memory = heap.memory)
    (hlimit : heap'.bucketLimit = heap.bucketLimit)
    (hle : arena.top ≤ top) (htop : top ≤ 2 ^ 31)
    (hmax : heap'.maxPtr = heap'.basePtr + top) (hbrk : heap'.maxPtr ≤ heap'.brk) :
    Sim platform heap' { arena with top := top, asked := heap'.asked } marked := by
  have hobtained := hsim.top
  have hbacked : heap.backed.maxPtr = heap.basePtr + 16 := rfl
  have hsame : heap.backed.basePtr = heap.basePtr := rfl
  refine ⟨⟨?_, ?_, hbrk⟩, ?_, hmax, rfl, hsim.shape.withTop _ hle htop, ?_, ?_⟩
  · rw [hbase]
    exact hsim.mapped.above
  · rw [hbase]
    exact hsim.mapped.low
  · rw [hlimit]
    exact hsim.limit
  · rw [hlimit, hmemory, hbase]
    exact hsim.lists.family
  · rw [hlimit, hbase]
    intro j hj x hx
    obtain ⟨⟨k, hk, hslot⟩, hroom⟩ := hsim.lists.backed j hj x hx
    refine ⟨⟨k, hk, ?_⟩, ?_⟩
    · rw [hbase]
      exact hslot
    · omega


/-- The tree is free, and nothing has been obtained from the system. -/
structure Bare (platform : Platform) (heap : Heap) (arena : Arena) : Prop where
  sim : Sim platform heap.backed arena ∅
  status : heap.nodeStatus = fun _ => 0
  top : heap.maxPtr = heap.basePtr
  brk : heap.basePtr ≤ heap.brk

theorem empty_kept (bytes : Set Nat) : (∅ : Set Nat) ⊆ bytes :=
  Set.empty_subset bytes

/-! ## List operations on a bare heap -/

theorem listPop_backed (list : Nat) (heap : Heap) :
    (listPop list heap.backed).1 = (listPop list heap).1 ∧
      (listPop list heap.backed).2.backed = (listPop list heap).2.backed ∧
      (listPop list heap).2.maxPtr = heap.maxPtr ∧
      (listPop list heap).2.brk = heap.brk ∧
      (listPop list heap).2.basePtr = heap.basePtr ∧
      (listPop list heap).2.asked = heap.asked ∧
      (listPop list heap).2.nodeStatus = heap.nodeStatus := by
  unfold listPop
  rw [show heap.backed.prev list = heap.prev list from rfl]
  by_cases hnil : heap.prev list = list
  · simp only [if_pos hnil]
    exact ⟨trivial, rfl, trivial, trivial, trivial, trivial, trivial⟩
  · simp only [if_neg hnil]
    exact ⟨trivial, rfl, rfl, rfl, rfl, rfl, rfl⟩

theorem liftUnusedRoot_backed
    (hlift : liftUnusedRoot platform heap.backed = some heap') :
    ∃ heap₁, liftUnusedRoot platform heap = some heap₁ ∧
      heap'.backed = heap₁.backed ∧ heap₁.basePtr = heap.basePtr ∧
      heap₁.maxPtr = heap.maxPtr ∧ heap₁.brk = heap.brk ∧
      heap₁.nodeStatus = heap.nodeStatus := by
  obtain ⟨list, hlist, hlift⟩ := Option.bind_eq_some_iff.mp hlift
  obtain ⟨list', hlist', hlift⟩ := Option.bind_eq_some_iff.mp hlift
  obtain rfl := Option.some.inj hlift
  refine ⟨_, Option.bind_eq_some_iff.mpr ⟨list, hlist,
    Option.bind_eq_some_iff.mpr ⟨list', hlist', rfl⟩⟩, ?_⟩
  exact ⟨rfl, rfl, rfl, rfl, rfl⟩

theorem Bare.arena_top (hbare : Bare platform heap arena) : arena.top = 16 := by
  have htop : heap.basePtr + 16 = heap.basePtr + arena.top := hbare.sim.top
  omega

/-- A simulation of the backed heap is one of any heap with the same backing. -/
theorem Bare.of_backed (hsim : Sim platform heap' arena ∅) (htop : arena.top = 16)
    (hbacked : heap'.backed = heap.backed)
    (hstatus : heap.nodeStatus = fun _ => 0) (hmax : heap.maxPtr = heap.basePtr)
    (hbrk : heap.basePtr ≤ heap.brk) : Bare platform heap arena where
  sim := hbacked ▸ hsim.toBacked htop
  status := hstatus
  top := hmax
  brk := hbrk

theorem Bare.base_ne_zero (hbare : Bare platform heap arena) : heap.basePtr ≠ 0 :=
  hbare.sim.mapped.base_ne_zero

/-! ## Growing a bare heap -/

/-- The root of a bare heap is lifted. -/
theorem Bare.lift (hbare : Bare platform heap arena) (hlimit : arena.limit = l + 1) :
    ∃ heap', liftUnusedRoot platform heap = some heap' ∧
      Bare platform heap' arena.lift := by
  obtain ⟨heap₁, hlift, hsim₁, -⟩ :=
    hbare.sim.lift hlimit (le_refl ∅) (le_refl ∅)
  obtain ⟨heap₂, hlift₂, hbacked, hbase, hmax, hbrk, hzero⟩ :=
    liftUnusedRoot_backed hlift
  refine ⟨heap₂, hlift₂, Bare.of_backed hsim₁ hbare.arena_top hbacked
    (hzero.trans hbare.status) ?_ ?_⟩
  · rw [hmax, hbare.top, hbase]
  · rw [hbrk, hbase]
    exact hbare.brk

/-- The bookkeeping of an allocator fits the empty tree of every height, and a
round of `lower_bucket_limit` on a bare heap lifts the root. -/
structure Bookkeeping.LiftsBare (keeping : Bookkeeping platform) : Prop where
  tracked : ∀ limit, limit < 28 → keeping.Tracked (fun _ => 0) limit ∅
  round : ∀ (grant : Nat → Bool) (heap : Heap) (arena : Arena) (l : Nat),
    Bare platform heap arena → arena.limit = l + 1 →
    ∃ heap', keeping.round grant heap = some (true, heap') ∧
      Bare platform heap' arena.lift

theorem Bare.lowerLoop (hlifts : keeping.LiftsBare) (grant : Nat → Bool)
    (bucket rounds : Nat) (hrounds : arena.limit - bucket = rounds)
    (hbare : Bare platform heap arena) :
    ∃ heap' arena', BuddyAlloc.lowerLoop (keeping.round grant) bucket rounds heap =
        some (true, heap') ∧
      Bare platform heap' arena' ∧ arena'.limit = min arena.limit bucket ∧
      arena'.asked = arena.asked := by
  induction rounds generalizing heap arena with
  | zero =>
      have hlimit : heap.bucketLimit = arena.limit := hbare.sim.limit
      refine ⟨heap, arena, ?_, hbare, by omega, rfl⟩
      unfold BuddyAlloc.lowerLoop
      rw [if_neg (by omega)]
  | succ rounds ih =>
      have hlimit : heap.bucketLimit = arena.limit := hbare.sim.limit
      obtain ⟨heap₁, hround, hbare₁⟩ :=
        hlifts.round grant heap arena (arena.limit - 1) hbare (by omega)
      have hlimit₁ : arena.lift.limit = arena.limit - 1 := rfl
      have hasked₁ : arena.lift.asked = arena.asked := rfl
      obtain ⟨heap₂, arena₂, hloop, hbare₂, hlimit₂, hasked₂⟩ :=
        ih (by omega) hbare₁
      refine ⟨heap₂, arena₂, ?_, hbare₂, by omega, hasked₂.trans hasked₁⟩
      unfold BuddyAlloc.lowerLoop
      rw [if_pos (by omega), hround]
      exact hloop

/-! ## Claiming the root of a bare heap -/

/-- What a call on a bare heap comes to: it fails when a block is handed out that
the allocator cannot record, otherwise the heap stays bare or the block is
recorded. -/
def BareAnswer (keeping : Bookkeeping platform) (granted : Prop) (request : Nat) :
    Option (Nat × Heap) → Prop
  | none =>
      bucketOf (keeping.allocator.total request) < keeping.highest ∧ granted
  | some outcome =>
      (outcome.1 = 0 ∧ ∃ arena, Bare platform outcome.2 arena) ∨
        ∃ tenancy, Refines keeping
          { heap := outcome.2
            live := if outcome.1 = 0 then [] else [⟨outcome.1, request⟩]
            result := outcome.1 } tenancy

/-- The free lists of a bare heap. -/
theorem Bare.free_root (hbare : Bare platform heap arena) :
    (arena.free arena.limit).getLast? = some (2 ^ arena.limit) ∧
      ∀ b, b ≠ arena.limit → (arena.free b).getLast? = none := by
  have hshape := hbare.sim.shape
  constructor
  · cases hlast : (arena.free arena.limit).getLast? with
    | none =>
        have hroot := hshape.mem_free_of_empty.mpr ⟨rfl, rfl⟩
        rw [List.getLast?_eq_none_iff] at hlast
        rw [hlast] at hroot
        exact absurd hroot List.not_mem_nil
    | some n =>
        have hn := hshape.mem_free_of_empty.mp (List.mem_of_getLast? hlast)
        rw [hn.2]
  · intro b hb
    rw [List.getLast?_eq_none_iff]
    exact List.eq_nil_iff_forall_not_mem.mpr fun n hn =>
      hb (hshape.mem_free_of_empty.mp hn).1

/-- There is nothing to take off another list. -/
theorem Bare.pop_none (hbare : Bare platform heap arena) (hlimit : arena.limit ≤ b)
    (hb : b < 28) (hne : b ≠ arena.limit) :
    listPop (platform.head b) heap = (0, heap) := by
  have hpop := hbare.sim.pop_none hlimit hb (hbare.free_root.2 b hne)
  unfold listPop at hpop ⊢
  rw [show heap.backed.prev (platform.head b) = heap.prev (platform.head b)
    from rfl] at hpop
  by_cases hnil : heap.prev (platform.head b) = platform.head b
  · simp only [if_pos hnil]
  · -- Removing an entry would leave a trace in the log.
    simp only [if_neg hnil, Prod.mk.injEq] at hpop
    have hlog := congrArg Heap.log hpop.2
    exact absurd hlog (by simp [listRemove, Heap.setNext, Heap.setPrev, Heap.store,
      Heap.backed])

/-- A bare heap whose root has been taken off its list. -/
structure Popped (platform : Platform) (heap : Heap) (arena : Arena) : Prop where
  sim : Sim platform heap.backed (arena.drop arena.limit (2 ^ arena.limit))
    (insert (2 ^ arena.limit) ∅)
  shape : arena.Shape ∅
  top : arena.top = 16
  status : heap.nodeStatus = fun _ => 0
  none_obtained : heap.maxPtr = heap.basePtr
  brk : heap.basePtr ≤ heap.brk

/-- The root of a bare heap is taken off its list. -/
theorem Bare.pop_root (hbare : Bare platform heap arena) :
    ∃ heap', listPop (platform.head arena.limit) heap = (heap.basePtr, heap') ∧
      Popped platform heap' arena ∧ heap'.basePtr = heap.basePtr ∧
      heap'.asked = arena.asked := by
  obtain ⟨heap₀, hpop, -, hsim, -⟩ := hbare.sim.pop_some hbare.free_root.1
    (empty_kept _) (empty_kept _)
  obtain ⟨hptr, hbacked, hmax, hbrk, hbase, hasked, hstatus⟩ :=
    listPop_backed (platform.head arena.limit) heap
  rw [hpop] at hptr hbacked
  rw [nodeAddr_root] at hptr
  refine ⟨(listPop (platform.head arena.limit) heap).2, Prod.ext hptr.symm rfl,
    ⟨?_, hbare.sim.shape, hbare.arena_top, hstatus.trans hbare.status, ?_, ?_⟩,
    hbase, hasked.trans hbare.sim.asked⟩
  · rw [← hbacked]
    exact hsim.toBacked hbare.arena_top
  · rw [hmax, hbase]
    exact hbare.top
  · rw [hbrk, hbase]
    exact hbare.brk

/-- When the system refuses, the root goes back to its list. -/
theorem Popped.push_root (hpopped : Popped platform heap arena) (asked : Nat)
    (log : List Event) :
    ∃ arena', Bare platform (listPush (platform.head arena.limit) heap.basePtr
      { heap with asked := asked, log := log }) arena' := by
  have htop : (arena.drop arena.limit (2 ^ arena.limit)).top ≤ 16 :=
    le_of_eq hpopped.top
  have hsim : Sim platform { heap.backed with asked := asked }
      { arena.drop arena.limit (2 ^ arena.limit) with
        top := 16, asked := asked } (insert (2 ^ arena.limit) ∅) :=
    hpopped.sim.supply rfl rfl rfl htop (by norm_num) rfl (le_refl _)
  have hroom := hpopped.shape.room arena.limit (2 ^ arena.limit)
    (hpopped.shape.root_free_iff.mpr rfl)
  rw [hpopped.top] at hroom
  have hshape := hsim.shape.give (Set.notMem_empty _)
    (atLevel_two_pow arena.limit) (Or.inl rfl) hroom
  obtain ⟨hpush, -⟩ : Sim platform _ _ ∅ ∧ Effect platform ∅ ∅ true _ _ :=
    hsim.push hshape (Set.empty_subset _) (Set.empty_subset _)
  rw [show nodeAddr ({ heap.backed with asked := asked } : Heap).basePtr
    arena.limit (2 ^ arena.limit) = heap.basePtr from nodeAddr_root _] at hpush
  exact ⟨_, Bare.of_backed hpush rfl rfl hpopped.status hpopped.none_obtained
    hpopped.brk⟩

/-- The client after its first block. -/
theorem refines_of_answers {result : Option Nat × Arena} {outcome : Nat × Heap}
    (hsize : keeping.allocator.total request ≤ maxAlloc)
    (hanswers : keeping.Answers ∅ ∅ (bucketOf (keeping.allocator.total request))
      request heap arena ∅ result outcome) :
    ∃ tenancy, Refines keeping
      { heap := outcome.2
        live := if outcome.1 = 0 then [] else [⟨outcome.1, request⟩]
        result := outcome.1 } tenancy := by
  have howns : List.Forall₂ (Owns keeping heap arena.top) [] [] :=
    List.Forall₂.nil
  have hnone : keeping.Answers
      (bytesOf heap.basePtr { n | n ∈ ([] : List Nat) }) ∅
      (bucketOf (keeping.allocator.total request)) request heap arena
      { n | n ∈ ([] : List Nat) } result outcome := by
    simpa [bytesOf_empty] using hanswers
  exact ⟨_, Running.answer ∅ howns List.nodup_nil hsize hnone⟩

section Claim

variable (keeping) (hlifts : keeping.LiftsBare) (grant : Nat → Bool)

/-- The rest of a round of `malloc` on a bare heap. -/
abbrev Bookkeeping.claimRoot (request limit base : Nat) (heap : Heap) :
    Option (Nat × Heap) :=
  claimBlock platform grant keeping.mark (keeping.finish request)
    (bucketOf (keeping.allocator.total request)) limit base heap

include hlifts

/-- When the system grants the memory, the claim goes on as if it had been
there before. -/
theorem Popped.claim_granted (hpopped : Popped platform heap arena)
    (hrequest : request < 2 ^ 64)
    (hlimit : arena.limit ≤ bucketOf (keeping.allocator.total request))
    (hsize : keeping.allocator.total request ≤ maxAlloc)
    (hbase : heap'.basePtr = heap.basePtr) (hmemory : heap'.memory = heap.memory)
    (hbucket : heap'.bucketLimit = heap.bucketLimit)
    (hstatus : heap'.nodeStatus = heap.nodeStatus)
    (hmax : heap'.maxPtr = heap'.basePtr +
      Arena.needed arena.limit (bucketOf (keeping.allocator.total request)))
    (hbrk : heap'.maxPtr ≤ heap'.brk) :
    BareAnswer keeping True request
      (keeping.claimRoot grant request arena.limit heap.basePtr heap') := by
  unfold Bookkeeping.claimRoot
  generalize htotal : keeping.allocator.total request = total at *
  have htarget : bucketOf total < 28 := by simpa using bucketOf_lt total
  have hlt := hpopped.shape.limit_lt
  obtain ⟨hsmall, hlarge, -⟩ := Bookkeeping.needed_le hlimit htarget
  have hsixteen := sixteen_le_size (b := bucketOf total) (by simpa using htarget)
  have hpow : 2 ^ (31 - arena.limit) ≤ 2 ^ 31 :=
    Nat.pow_le_pow_right (by omega) (by omega)
  have htop : (arena.drop arena.limit (2 ^ arena.limit)).top ≤
      Arena.needed arena.limit (bucketOf total) := by
    rw [Arena.drop_top, hpopped.top]
    omega
  -- The heap after the granted request is a heap whose arena has had the memory all along,
  -- so claimBlock_spec applies to it as it stands.
  have hsim := hpopped.sim.supply hbase hmemory hbucket htop (by omega) hmax hbrk
  have hshape : ({ arena with
      top := Arena.needed arena.limit (bucketOf total)
      asked := heap'.asked } : Arena).Shape ∅ :=
    hpopped.shape.withTop _ htop (by omega)
  have htracked : keeping.Tracked heap'.nodeStatus arena.limit ∅ := by
    rw [hstatus, hpopped.status]
    exact hlifts.tracked arena.limit hlt
  have hanswer := keeping.claimBlock_spec grant (hshape.root_free_iff.mpr rfl)
    hshape hsim htracked hlimit htarget hrequest (empty_kept _) (empty_kept _)
  rw [nodeAddr_root, hbase] at hanswer
  generalize claimBlock platform grant keeping.mark (keeping.finish request)
    (bucketOf total) arena.limit heap.basePtr heap' = computation at hanswer ⊢
  subst htotal
  cases computation with
  | none => exact ⟨hanswer.1, trivial⟩
  | some outcome => exact Or.inr (refines_of_answers hsize hanswer)

/-- Claiming the root of a bare heap, or a part of it. -/
theorem Popped.claim (hpopped : Popped platform heap arena)
    (hrequest : request < 2 ^ 64)
    (hlimit : arena.limit ≤ bucketOf (keeping.allocator.total request))
    (hsize : keeping.allocator.total request ≤ maxAlloc) :
    BareAnswer keeping (grant heap.asked = true) request
      (keeping.claimRoot grant request arena.limit heap.basePtr heap) := by
  have htarget : bucketOf (keeping.allocator.total request) < 28 := by
    simpa using bucketOf_lt (keeping.allocator.total request)
  have hlt := hpopped.shape.limit_lt
  obtain ⟨hsmall, hlarge, -⟩ := Bookkeeping.needed_le hlimit htarget
  have hsixteen := sixteen_le_size
    (b := bucketOf (keeping.allocator.total request)) (by simpa using htarget)
  have hpow : 2 ^ (31 - arena.limit) ≤ 2 ^ 31 :=
    Nat.pow_le_pow_right (by omega) (by omega)
  have hlow : heap.basePtr < 2 ^ 63 := hpopped.sim.mapped.low
  have hnone := hpopped.none_obtained
  have hbrk := hpopped.brk
  have hwrap : wrap (heap.basePtr +
      bytesNeeded arena.limit (bucketOf (keeping.allocator.total request))) =
      heap.basePtr + Arena.needed arena.limit
        (bucketOf (keeping.allocator.total request)) := by
    change wrap (heap.basePtr + Arena.needed _ _) = _
    exact wrap_of_lt (by omega)
  -- On a bare heap the request is always needed, so the answer of the system decides.
  cases hgrant : grant heap.asked with
  | false =>
      -- Refused: the root goes back to its list, and the heap is bare again.
      have hupdate : updateMaxPtr grant (heap.basePtr + Arena.needed arena.limit
            (bucketOf (keeping.allocator.total request))) heap =
          (false, { heap with
            asked := heap.asked + 1
            log := Event.sbrk ⟨heap.brk, heap.maxPtr, heap.basePtr +
              Arena.needed arena.limit
                (bucketOf (keeping.allocator.total request)), false⟩ ::
                heap.log }) := by
        unfold updateMaxPtr
        rw [if_pos (by omega), hgrant]
        rfl
      unfold Bookkeeping.claimRoot claimBlock
      rw [hwrap, hupdate]
      simp only [platform.bucket_eq (show arena.limit < bucketCount by
        simpa using hlt), Option.bind_eq_bind, Option.bind_some]
      exact Or.inl ⟨rfl, hpopped.push_root _ _⟩
  | true =>
      -- Granted: a second request for the same bytes would find them there already, so the
      -- claim may as well start from the heap after it.
      obtain ⟨heap', hupdate, hagain, hbase, hmemory, hbucket, hstatus, hmax,
          hbrk'⟩ : ∃ heap', updateMaxPtr grant (heap.basePtr +
            Arena.needed arena.limit
              (bucketOf (keeping.allocator.total request))) heap =
            (true, heap') ∧
          updateMaxPtr grant (heap.basePtr + Arena.needed arena.limit
              (bucketOf (keeping.allocator.total request))) heap' =
            (true, heap') ∧
          heap'.basePtr = heap.basePtr ∧ heap'.memory = heap.memory ∧
          heap'.bucketLimit = heap.bucketLimit ∧
          heap'.nodeStatus = heap.nodeStatus ∧
          heap'.maxPtr = heap'.basePtr + Arena.needed arena.limit
            (bucketOf (keeping.allocator.total request)) ∧
          heap'.maxPtr ≤ heap'.brk := by
        unfold updateMaxPtr
        rw [if_pos (by omega), hgrant]
        refine ⟨_, rfl, if_neg (lt_irrefl _), rfl, rfl, rfl, rfl, rfl, ?_⟩
        simp only
        omega
      have hanswer := hpopped.claim_granted keeping hlifts grant hrequest hlimit
        hsize hbase hmemory hbucket hstatus hmax hbrk'
      unfold Bookkeeping.claimRoot claimBlock at hanswer ⊢
      rw [hwrap] at hanswer ⊢
      rw [hupdate]
      rw [hagain] at hanswer
      simpa using hanswer

/-! ## A call on a bare heap -/

theorem Bare.searchLoop (hrequest : request < 2 ^ 64)
    (hsize : keeping.allocator.total request ≤ maxAlloc) (count : Nat)
    (hcount : count ≤ bucketOf (keeping.allocator.total request) + 1)
    (hbare : Bare platform heap arena) :
    BareAnswer keeping (grant arena.asked = true) request
      (BuddyAlloc.searchLoop platform
        (fun bucket heap => BuddyAlloc.lowerLoop (keeping.round grant) bucket
          (heap.bucketLimit - bucket) heap)
        (claimBlock platform grant keeping.mark (keeping.finish request)
          (bucketOf (keeping.allocator.total request))) count heap) := by
  induction count generalizing heap arena with
  | zero => exact Or.inl ⟨rfl, arena, hbare⟩
  | succ b ih =>
      have htarget : bucketOf (keeping.allocator.total request) < 28 := by
        simpa using bucketOf_lt (keeping.allocator.total request)
      have hlimit : heap.bucketLimit = arena.limit := hbare.sim.limit
      obtain ⟨heap₁, arena₁, hlower, hbare₁, hlimit₁, hasked₁⟩ :=
        hbare.lowerLoop hlifts grant b (heap.bucketLimit - b) (by rw [hlimit])
      have hbucket := platform.bucket_eq (show b < bucketCount by simp; omega)
      unfold BuddyAlloc.searchLoop
      simp only [hlower, hbucket, Option.bind_eq_bind, Option.bind_some]
      by_cases hroot : b = arena₁.limit
      · obtain ⟨heap₂, hpop, hpopped, hbase, hasked₂⟩ := hbare₁.pop_root
        have hclaim := hpopped.claim keeping hlifts grant hrequest (by omega) hsize
        rw [hbase, hasked₂, hasked₁] at hclaim
        rw [hroot, hpop]
        simp only [if_neg hbare₁.base_ne_zero]
        exact hclaim
      · -- The only free block is larger.
        have hpop := hbare₁.pop_none (b := b) (by omega) (by omega) hroot
        rw [hpop]
        have hlimit₂ : heap₁.bucketLimit = arena₁.limit := hbare₁.sim.limit
        simp only [if_pos]
        rw [if_pos (Or.inl (by omega)), ← hasked₁]
        exact ih (by omega) hbare₁

/-- A call of `malloc` on a bare heap. -/
theorem Bare.malloc (hrequest : request < 2 ^ 64)
    (hsize : keeping.allocator.total request ≤ maxAlloc)
    (hbare : Bare platform heap arena) :
    BareAnswer keeping (grant arena.asked = true) request
      (keeping.allocator.malloc grant request heap) := by
  rw [keeping.malloc_eq]
  unfold allocate ensureInitialised
  rw [if_neg (by omega), if_neg hbare.base_ne_zero,
    bucketForRequest_eq (by simpa using hsize)]
  exact hbare.searchLoop keeping hlifts grant hrequest hsize _ (le_refl _)

omit hlifts in
/-- The heap after an initialisation whose request was refused is bare. -/
theorem Fresh.initialise_refused (hfresh : Fresh platform heap)
    (hrefused : grant 0 = false) :
    ∃ heap' arena, BuddyAlloc.initialise platform grant heap = some heap' ∧
      Bare platform heap' arena ∧ arena.asked = 1 := by
  obtain ⟨heap₁, hinitialise, hsim, hstatus, -⟩ :
      ∃ heap', BuddyAlloc.initialise platform Arena.granting heap = some heap' ∧
        Sim platform heap' (Arena.initial Arena.granting) ∅ ∧
        heap'.nodeStatus = (fun _ => 0) ∧
        Effect platform ∅ ∅ true (placeBase heap) heap' :=
    hfresh.initialise rfl (le_refl ∅)
  have hlow := hfresh.low
  have hwrap : wrap (heap.brk + 16) = heap.brk + 16 := wrap_of_lt (by omega)
  have hupdate : updateMaxPtr grant (wrap ((placeBase heap).basePtr + sizeofListT))
      (placeBase heap) = (false, { placeBase heap with
        asked := 1
        log := Event.sbrk ⟨heap.brk, heap.brk, heap.brk + 16, false⟩ ::
          heap.log }) := by
    simp [updateMaxPtr, placeBase, hwrap, hfresh.asked, hrefused]
  have hlast := platform.bucket_eq (show bucketCount - 1 < bucketCount by simp)
  have hgranted : Arena.granting 0 = true := rfl
  simp only [BuddyAlloc.initialise, updateMaxPtr_placeBase hfresh hgranted, hlast,
    Option.bind_eq_bind, Option.bind_some, Option.some.injEq] at hinitialise
  subst hinitialise
  refine ⟨listPush (platform.head 27) heap.brk (listInit (platform.head 27)
    { placeBase heap with
      asked := 1
      log := Event.sbrk ⟨heap.brk, heap.brk, heap.brk + 16, false⟩ ::
        heap.log }), _, ?_, Bare.of_backed hsim rfl rfl hfresh.status rfl
          (le_refl _), rfl⟩
  simp only [BuddyAlloc.initialise, hupdate, hlast, Option.bind_eq_bind,
    Option.bind_some]
  rfl

/-- The first call of `malloc`, when its first request is refused. -/
theorem Fresh.malloc_refused (hrequest : request < 2 ^ 64)
    (hsize : keeping.allocator.total request ≤ maxAlloc)
    (hfresh : Fresh platform heap) (hrefused : grant 0 = false) :
    BareAnswer keeping (grant 1 = true) request
      (keeping.allocator.malloc grant request heap) := by
  obtain ⟨heap₁, arena, hinitialise, hbare, hasked⟩ :=
    Fresh.initialise_refused grant hfresh hrefused
  have hanswer := hbare.searchLoop keeping hlifts grant hrequest hsize _
    (le_refl _)
  rw [hasked] at hanswer
  rw [keeping.malloc_eq]
  unfold allocate ensureInitialised
  rw [if_neg (by omega), if_pos hfresh.base, hinitialise,
    bucketForRequest_eq (by simpa using hsize)]
  exact hanswer

end Claim

/-! ## States of the client -/

theorem Bare.clearLog (hbare : Bare platform heap arena) :
    Bare platform heap.clearLog arena :=
  ⟨hbare.sim, hbare.status, hbare.top, hbare.brk⟩

/-- The states that the client reaches, whatever the system answers. -/
def Reached (keeping : Bookkeeping platform) (client : Client) : Prop :=
  (∃ tenancy, Refines keeping client tenancy) ∨
    client.live = [] ∧ ∃ arena, Bare platform client.heap arena

theorem Reached.initial : Reached keeping platform.client :=
  Or.inl ⟨_, Refines.initial⟩

/-- A request that is too large for any block. -/
theorem malloc_too_large (heap : Heap)
    (hsize : maxAlloc < keeping.allocator.total request) :
    keeping.allocator.malloc grant request heap = some (0, heap) := by
  rw [keeping.malloc_eq]
  unfold allocate
  rw [if_pos hsize]

/-- What becomes of a client whose heap is bare. -/
theorem reached_of_answer {granted : Prop} {computation : Option (Nat × Heap)}
    (hlive : client.live = [])
    (hanswer : BareAnswer keeping granted request computation)
    (hno : bucketOf (keeping.allocator.total request) < keeping.highest →
      ¬ granted) :
    ∃ outcome, computation = some outcome ∧ Reached keeping
      { heap := outcome.2
        live := if outcome.1 = 0 then client.live
          else ⟨outcome.1, request⟩ :: client.live
        result := outcome.1 } := by
  cases computation with
  | none => exact absurd hanswer.2 (hno hanswer.1)
  | some outcome =>
      refine ⟨outcome, rfl, ?_⟩
      rw [hlive]
      rcases hanswer with ⟨hzero, hbare⟩ | hrefines
      · refine Or.inr ⟨?_, hbare⟩
        rw [if_pos hzero]
      · exact Or.inl hrefines

/-- A step of the client that is an answered call of `malloc`. -/
theorem step_of_call (hrequest : request < 2 ^ 64)
    (hcall : ∃ outcome, keeping.allocator.malloc grant request
        client.heap.clearLog = some outcome ∧ Reached keeping
      { heap := outcome.2
        live := if outcome.1 = 0 then client.live
          else ⟨outcome.1, request⟩ :: client.live
        result := outcome.1 }) :
    ∃ next, step keeping.allocator grant client (.malloc request) = some next ∧
      Reached keeping next := by
  obtain ⟨outcome, hmalloc, hreached⟩ := hcall
  refine ⟨_, ?_, hreached⟩
  simp only [step, if_pos hrequest, hmalloc, Option.bind_eq_bind,
    Option.bind_some]

/-- A request while the tree is bare. -/
theorem Bare.step (hlifts : keeping.LiftsBare) (hrequest : request < 2 ^ 64)
    (hlive : client.live = []) (hbare : Bare platform client.heap arena)
    (hno : keeping.allocator.total request ≤ maxAlloc →
      bucketOf (keeping.allocator.total request) < keeping.highest →
      ¬ grant arena.asked = true) :
    ∃ next, BuddyAlloc.step keeping.allocator grant client (.malloc request) =
      some next ∧ Reached keeping next := by
  refine step_of_call hrequest ?_
  by_cases hsize : keeping.allocator.total request ≤ maxAlloc
  · exact reached_of_answer hlive
      (hbare.clearLog.malloc keeping hlifts grant hrequest hsize) (hno hsize)
  · refine ⟨_, malloc_too_large _ (not_le.mp hsize), Or.inr ⟨?_, arena, ?_⟩⟩
    · rw [if_pos rfl, hlive]
    · exact hbare.clearLog

/-- The first request, when the system provides nothing. -/
theorem Fresh.step (hlifts : keeping.LiftsBare) (hrequest : request < 2 ^ 64)
    (hlive : client.live = []) (hfresh : Fresh platform client.heap)
    (hrefused : grant 0 = false)
    (hno : keeping.allocator.total request ≤ maxAlloc →
      bucketOf (keeping.allocator.total request) < keeping.highest →
      ¬ grant 1 = true) :
    ∃ next, BuddyAlloc.step keeping.allocator grant client (.malloc request) =
      some next ∧ Reached keeping next := by
  refine step_of_call hrequest ?_
  by_cases hsize : keeping.allocator.total request ≤ maxAlloc
  · exact reached_of_answer hlive
      (hfresh.clearLog.malloc_refused keeping hlifts grant hrequest hsize hrefused)
      (hno hsize)
  · refine ⟨_, malloc_too_large _ (not_le.mp hsize),
      Or.inl ⟨Tenancy.initial, ?_, ?_, fun _ => rfl, ?_⟩⟩
    · intro _
      rw [if_pos rfl]
      exact ⟨hfresh.clearLog, hlive, rfl⟩
    · exact fun _ hsome => absurd hsome (by simp [Tenancy.initial])
    · exact fun _ _ hsome => absurd hsome (by simp [Tenancy.initial])

/-- A block that is too large to be recorded is not handed out: not by a tree in use,
and not by one without memory, which would have to get all of it. -/
structure Recordable (keeping : Bookkeeping platform) (grant : Nat → Bool)
    (client : Client) (op : Op) : Prop where
  running : ∀ tenancy, Refines keeping client tenancy →
    (tenancy.arena = none → grant 0 = true) → ∀ request, op = .malloc request →
      keeping.allocator.total request ≤ maxAlloc →
      (tenancy.malloc grant (keeping.allocator.total request)).result ≠ none →
      keeping.highest ≤ bucketOf (keeping.allocator.total request)
  fresh : Fresh platform client.heap → client.live = [] → ∀ request,
    op = .malloc request → keeping.allocator.total request ≤ maxAlloc →
    bucketOf (keeping.allocator.total request) < keeping.highest → ¬ grant 1 = true
  bare : ∀ arena, Bare platform client.heap arena → client.live = [] → ∀ request,
    op = .malloc request → keeping.allocator.total request ≤ maxAlloc →
    bucketOf (keeping.allocator.total request) < keeping.highest →
    ¬ grant arena.asked = true

/-- Every block that is requested can be recorded. -/
theorem Recordable.of_highest {op : Op}
    (hhighest : ∀ request, op = .malloc request →
      keeping.highest ≤ bucketOf (keeping.allocator.total request)) :
    Recordable keeping grant client op where
  running _ _ _ request hop _ _ := hhighest request hop
  fresh _ _ request hop _ hlow := absurd (hhighest request hop) (not_le.mpr hlow)
  bare _ _ _ request hop _ hlow := absurd (hhighest request hop) (not_le.mpr hlow)

/-- A step of the client, whatever the system answers. -/
theorem Reached.step (hlifts : keeping.LiftsBare) (hreached : Reached keeping client)
    {op : Op} (hlegal : op.Legal keeping.allocator client)
    (hrecordable : Recordable keeping grant client op)
    (hallows : ∀ tenancy, Refines keeping client tenancy →
      keeping.Allows client tenancy op) :
    ∃ next, BuddyAlloc.step keeping.allocator grant client op = some next ∧
      Reached keeping next := by
  -- Before the heap is used and while it is bare, only a request is legal.
  have hrequest : client.live = [] → ∃ request, op = .malloc request ∧ request < 2 ^ 64 := by
    intro hlive
    cases op with
    | malloc request => exact ⟨request, rfl, hlegal⟩
    | free index => exact absurd hlegal (by simp [Op.Legal, hlive])
    | write index offset byte => exact absurd hlegal (by simp [Op.Legal, hlive])
  rcases hreached with ⟨tenancy, hrefines⟩ | ⟨hlive, arena, hbare⟩
  · by_cases hgrant : tenancy.arena = none → grant 0 = true
    · obtain ⟨next, hstep⟩ := hrefines.progress hgrant hlegal
        (hrecordable.running tenancy hrefines hgrant) (hallows tenancy hrefines)
      obtain ⟨tenancy', -, hrefines'⟩ :=
        hrefines.step hgrant hstep (hallows tenancy hrefines)
      exact ⟨next, hstep, Or.inl ⟨tenancy', hrefines'⟩⟩
    · obtain ⟨hnone, hrefused⟩ := not_forall.mp hgrant
      obtain ⟨hfresh, hlive, -⟩ := hrefines.fresh hnone
      obtain ⟨request, rfl, hlt⟩ := hrequest hlive
      exact hfresh.step hlifts hlt hlive (by simpa using hrefused)
        (hrecordable.fresh hfresh hlive request rfl)
  · obtain ⟨request, rfl, hlt⟩ := hrequest hlive
    exact hbare.step hlifts hlt hlive (hrecordable.bare arena hbare hlive request rfl)

end BuddyAlloc
end OsStuff
