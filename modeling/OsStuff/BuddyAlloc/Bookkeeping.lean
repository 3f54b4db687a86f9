import OsStuff.BuddyAlloc.Growth

/-!
# What the common text asks of `node_status`

`Bookkeeping platform` collects the parts in which the two allocators differ,
what their `node_status` says about the tree, and the proofs that the parts
keep it that way.  Everything that follows from the common text alone is proved
here once, for any bookkeeping: each loop carries out its operation of the
arena.

The predicates on `node_status` take the level of the root and the taken
nodes.  `Tracked` holds between calls; `Opening … n` while `n` is being handed
out and is not recorded yet; `Closing … n` while `n` is being given back and is
not recorded any more.
-/

namespace OsStuff
namespace BuddyAlloc

open Library Library.DyadicTree

/-- The parts in which an allocator differs from the common text, and what they
do to `node_status`. -/
structure Bookkeeping (platform : Platform) where
  allocator : Allocator
  round : (Nat → Bool) → Heap → Option (Bool × Heap)
  mark : Heap → Nat → Option Heap
  finish : Nat → Nat → Nat → Heap → Option (Nat × Heap)
  settle : Nat → Nat → Heap → Option (Bool × Heap)
  /-- The level of the largest block that can be handed out. -/
  highest : Nat
  Tracked : (Nat → Nat) → Nat → Set Nat → Prop
  Opening : (Nat → Nat) → Nat → Set Nat → Nat → Prop
  Closing : (Nat → Nat) → Nat → Set Nat → Nat → Prop
  /-- The condition for a call of `free` after which the given nodes stay. -/
  Freeable : (Nat → Nat) → Nat → Set Nat → Prop
  /-- What the block at an address remembers about its request. -/
  Label : Library.ByteMemory.Memory → Nat → Nat → Prop
  header_lt : allocator.header < 16
  highest_le : highest ≤ 1
  finish_first : highest ≠ 0 → ∀ request ptr heap, finish request ptr 0 heap = none
  label_congr : ∀ {memory memory' : Library.ByteMemory.Memory}
    {address request : Nat},
    (∀ y, address ≤ y → y < address + allocator.header →
      memory' y = memory y) →
    Label memory address request → Label memory' address request
  tracked_zero : Tracked (fun _ => 0) 27 ∅
  malloc_eq : ∀ grant request heap, allocator.malloc grant request heap =
    allocate platform grant
      (fun bucket heap =>
        lowerLoop (round grant) bucket (heap.bucketLimit - bucket) heap)
      (claimBlock platform grant mark (finish request))
      (allocator.total request) heap
  free_eq : ∀ {heap arena marked n request},
    Sim platform heap arena marked →
    Tracked heap.nodeStatus arena.limit marked → n ∈ marked →
    allocator.total request ≤ maxAlloc →
    highest ≤ bucketOf (allocator.total request) →
    AtLevel (bucketOf (allocator.total request)) n →
    Label heap.memory
      (nodeAddr heap.basePtr (bucketOf (allocator.total request)) n) request →
    allocator.free
        (nodeAddr heap.basePtr (bucketOf (allocator.total request)) n +
          allocator.header) heap =
      giveBack platform settle
        (nodeAddr heap.basePtr (bucketOf (allocator.total request)) n)
        (bucketOf (allocator.total request)) heap
  round_spec : ∀ {grant heap arena marked l kept guarded},
    Sim platform heap arena marked →
    Tracked heap.nodeStatus arena.limit marked → arena.limit = l + 1 →
    kept ⊆ bytesOf heap.basePtr marked →
    guarded ⊆ bytesOf heap.basePtr marked →
    ∃ heap', round grant heap = some ((arena.grow grant).1, heap') ∧
      Sim platform heap' (arena.grow grant).2 marked ∧
      Effect platform kept guarded (arena.grow grant).1 heap heap' ∧
      Tracked heap'.nodeStatus (arena.grow grant).2.limit marked
  mark_take : ∀ {heap : Heap} {arena : Arena} {marked b n},
    arena.Shape marked → n ∈ arena.free b →
    Tracked heap.nodeStatus arena.limit marked →
    ∃ status, markUnlessFirst mark heap (n - 1) =
        some { heap with nodeStatus := status } ∧
      Opening status arena.limit marked n
  mark_split : ∀ {heap : Heap} {arena : Arena} {marked b n},
    arena.Shape (insert n marked) → n ∉ marked → AtLevel b n → b + 1 < 28 →
    Opening heap.nodeStatus arena.limit marked n →
    ∃ status, mark heap (2 * n - 1) =
        some { heap with nodeStatus := status } ∧
      Opening status arena.limit marked (2 * n)
  finish_spec : ∀ {heap arena marked b n request kept guarded},
    Sim platform heap arena (insert n marked) → n ∉ marked → AtLevel b n →
    highest ≤ b → offset 31 b n + 2 ^ (31 - b) ≤ arena.top →
    Opening heap.nodeStatus arena.limit marked n → request < 2 ^ 64 →
    kept ⊆ bytesOf heap.basePtr marked →
    ∃ heap', finish request (nodeAddr heap.basePtr b n) (n - 1) heap =
        some (nodeAddr heap.basePtr b n + allocator.header, heap') ∧
      Sim platform heap' arena (insert n marked) ∧
      Effect platform kept guarded true heap heap' ∧
      Tracked heap'.nodeStatus arena.limit (insert n marked) ∧
      Label heap'.memory (nodeAddr heap.basePtr b n) request
  closing : ∀ {status arena marked n},
    Arena.Shape (insert n marked) arena → n ∉ marked →
    Tracked status arena.limit (insert n marked) →
    Freeable status arena.limit marked →
    Closing status arena.limit marked n
  settle_spec : ∀ {heap : Heap} {arena : Arena} {marked b c},
    arena.Shape (insert c marked) → c ∉ marked → AtLevel (b + 1) c →
    heap.bucketLimit = arena.limit →
    Closing heap.nodeStatus arena.limit marked c →
    ∃ status, settle (c - 1) (b + 1) heap =
        some (decide (b + 1 = arena.limit ∨ sibling c ∉ arena.free (b + 1)),
          { heap with nodeStatus := status }) ∧
      (b + 1 = arena.limit ∨ sibling c ∉ arena.free (b + 1) →
        Tracked status arena.limit marked) ∧
      (¬ (b + 1 = arena.limit ∨ sibling c ∉ arena.free (b + 1)) →
        Closing status arena.limit marked (c / 2))
  closing_root : ∀ {status arena marked},
    Arena.Shape (insert 1 marked) arena → 1 ∉ marked →
    Closing status arena.limit marked 1 → Tracked status arena.limit marked

namespace Bookkeeping

variable {platform : Platform} (keeping : Bookkeeping platform)
  {heap : Heap} {arena : Arena} {marked kept guarded : Set Nat}
  {b d n m c target request : Nat} {grant : Nat → Bool}

/-! ## `lower_bucket_limit` -/

/-- The loop of `lower_bucket_limit` lets the arena grow. -/
theorem lowerLoop_spec (bucket : Nat) (rounds : Nat)
    (hrounds : arena.limit - bucket = rounds)
    (hsim : Sim platform heap arena marked)
    (htracked : keeping.Tracked heap.nodeStatus arena.limit marked)
    (hkept : kept ⊆ bytesOf heap.basePtr marked)
    (hguarded : guarded ⊆ bytesOf heap.basePtr marked) :
    ∃ heap', lowerLoop (keeping.round grant) bucket rounds heap =
        some ((arena.growBy grant rounds).1, heap') ∧
      Sim platform heap' (arena.growBy grant rounds).2 marked ∧
      Effect platform kept guarded (arena.growBy grant rounds).1 heap heap' ∧
      keeping.Tracked heap'.nodeStatus (arena.growBy grant rounds).2.limit
        marked := by
  -- The source compares bucket with bucket_limit in every round; the induction is on the
  -- rounds that are left, each of which lowers the limit by one.
  induction rounds generalizing heap arena with
  | zero =>
      have hdone : ¬ bucket < heap.bucketLimit := by
        rw [hsim.limit]
        omega
      refine ⟨heap, ?_, hsim, Effect.refl heap, htracked⟩
      unfold lowerLoop Arena.growBy
      rw [if_neg hdone]
  | succ rounds ih =>
      have hgo : bucket < heap.bucketLimit := by
        rw [hsim.limit]
        omega
      obtain ⟨heap₁, hround, hsim₁, heffect₁, htracked₁⟩ :=
        keeping.round_spec hsim htracked
          (l := arena.limit - 1) (by omega) hkept hguarded
      unfold lowerLoop Arena.growBy
      rw [if_pos hgo, hround]
      have hlimit := Arena.grow_limit arena grant
      rcases hgrow : arena.grow grant with ⟨granted, arena₁⟩
      simp only [hgrow] at hsim₁ heffect₁ htracked₁ hlimit
      cases granted with
      -- A refused request ends the loop: both sides stop here.
      | false => exact ⟨heap₁, rfl, hsim₁, heffect₁, htracked₁⟩
      | true =>
          have hlimit₁ := hlimit rfl
          obtain ⟨heap₂, hloop, hsim₂, heffect₂, htracked₂⟩ :=
            ih (by omega) hsim₁ htracked₁ (heffect₁.base ▸ hkept)
              (heffect₁.base ▸ hguarded)
          exact ⟨heap₂, hloop, hsim₂, heffect₁.trans heffect₂, htracked₂⟩

/-- `lower_bucket_limit` lets the arena grow until a level belongs to it. -/
theorem lower_spec (grant : Nat → Bool) (bucket : Nat)
    (hsim : Sim platform heap arena marked)
    (htracked : keeping.Tracked heap.nodeStatus arena.limit marked)
    (hkept : kept ⊆ bytesOf heap.basePtr marked)
    (hguarded : guarded ⊆ bytesOf heap.basePtr marked) :
    ∃ heap', lowerLoop (keeping.round grant) bucket (heap.bucketLimit - bucket)
        heap = some ((arena.growTo grant bucket).1, heap') ∧
      Sim platform heap' (arena.growTo grant bucket).2 marked ∧
      Effect platform kept guarded (arena.growTo grant bucket).1 heap heap' ∧
      keeping.Tracked heap'.nodeStatus (arena.growTo grant bucket).2.limit
        marked := by
  rw [hsim.limit]
  exact keeping.lowerLoop_spec bucket _ rfl hsim htracked hkept hguarded

/-! ## Splitting -/

/-- The left child starts where its parent starts, the right one in the
middle. -/
theorem offset_children (hn : AtLevel b n) (hb : b < 31) :
    offset 31 (b + 1) (2 * n) = offset 31 b n ∧
      offset 31 (b + 1) (2 * n + 1) = offset 31 b n + 2 ^ (31 - (b + 1)) ∧
      2 ^ (31 - b) = 2 * 2 ^ (31 - (b + 1)) := by
  have hexp : 31 - b = 31 - (b + 1) + 1 := by omega
  have hstart := hn.1
  have hleft : 2 * n - 2 ^ (b + 1) = 2 * (n - 2 ^ b) := by
    rw [Nat.pow_succ]
    omega
  have hright : 2 * n + 1 - 2 ^ (b + 1) = 2 * (n - 2 ^ b) + 1 := by
    rw [Nat.pow_succ]
    omega
  have hsize : 2 ^ (31 - b) = 2 * 2 ^ (31 - (b + 1)) := by
    rw [hexp, Nat.pow_succ]
    ring
  unfold offset
  rw [hleft, hright, hsize]
  refine ⟨by ring, by ring, rfl⟩

theorem offset_half_le (hc : AtLevel (b + 1) c) (hb : b < 31) :
    offset 31 b (c / 2) ≤ offset 31 (b + 1) c := by
  obtain ⟨hleft, hright, -⟩ := offset_children hc.half hb
  rcases eq_children_half hc.two_le with ⟨heq, -⟩ | ⟨heq, -⟩
  · rw [← heq] at hleft
    omega
  · rw [← heq] at hright
    rw [hright]
    exact Nat.le_add_right _ _

/-- The loop of `malloc` that splits a taken block. -/
theorem splitLoop_spec (guarded : Set Nat) (rounds : Nat)
    (hsim : Sim platform heap arena (insert n marked)) (hn : n ∉ marked)
    (hb : AtLevel b n) (hlt : b + rounds < 28)
    (hroom : rounds ≠ 0 → offset 31 b n + 2 ^ (31 - b) / 2 + 16 ≤ arena.top)
    (hopening : keeping.Opening heap.nodeStatus arena.limit marked n)
    (hkept : kept ⊆ bytesOf heap.basePtr marked) :
    ∃ n' heap', (arena.splitBy rounds b n).1 = n' ∧
      splitLoop platform keeping.mark rounds (n - 1) b heap =
        some (n' - 1, heap') ∧
      Sim platform heap' (arena.splitBy rounds b n).2 (insert n' marked) ∧
      (arena.splitBy rounds b n).2.limit = arena.limit ∧
      (arena.splitBy rounds b n).2.top = arena.top ∧
      keeping.Opening heap'.nodeStatus arena.limit marked n' ∧
      n' ∉ marked ∧ AtLevel (b + rounds) n' ∧
      offset 31 (b + rounds) n' = offset 31 b n ∧
      Effect platform kept guarded true heap heap' := by
  -- One round takes the left child in the place of its parent and pushes the right one; the
  -- invariant is that the node is open for the flags of the variant.
  induction rounds generalizing heap arena b n with
  | zero =>
      exact ⟨n, heap, rfl, rfl, hsim, rfl, rfl, hopening, hn, hb, rfl,
        Effect.refl heap⟩
  | succ rounds ih =>
      obtain ⟨hleft, hright, hsize⟩ := offset_children hb (by omega)
      have hfits := hroom (by omega)
      have hbound := node_lt hb.left (show b + 1 < bucketCount by simp; omega)
      have hpos := hb.pos
      obtain ⟨status, hmark, hopening₁⟩ :=
        keeping.mark_split hsim.shape hn hb (by omega) hopening
      obtain ⟨hshape₁, hn₁⟩ := hsim.shape.split hn hb (by omega)
        (by rw [hright]; omega)
      have hsim₁ := hsim.withStatus status
      obtain ⟨hsim₂, heffect₂⟩ := hsim₁.push
        hshape₁ (hkept.trans (bytesOf_mono (Set.subset_insert _ _)))
        (hkept.trans (bytesOf_mono (Set.subset_insert _ _)))
      obtain ⟨n', heap', hsplit, hloop, hsim', hlimit', htop', hopening', hn',
          hb', hoffset', heffect'⟩ :=
        ih hsim₂ hn₁ hb.left (by omega)
          -- The first half of what is left is enough for the next round.
          (fun _ => by
            have hhalf : 2 ^ (31 - (b + 1)) / 2 ≤ 2 ^ (31 - (b + 1)) :=
              Nat.div_le_self _ _
            simp only [Arena.push_top]
            rw [hleft]
            omega)
          hopening₁ hkept
      have hindex : wrap ((n - 1) * 2 + 1) = 2 * n - 1 := by
        rw [wrap_of_lt (by omega)]
        omega
      have hright' : 2 * n - 1 + 1 = 2 * n + 1 - 1 := by omega
      refine ⟨n', heap', hsplit, ?_, hsim', hlimit', htop', hopening', hn', ?_,
        ?_, (Effect.withStatus status).trans (heffect₂.trans heffect')⟩
      · -- The node numbers of the source are one less than those of the arena.
        have hbucket := platform.bucket_eq (b := b + 1) (by simp; omega)
        have hptr := ptrForNode_eq hsim₁.mapped hb.right
          (show b + 1 < bucketCount by simp; omega)
        simp only [splitLoop, hindex, hmark, hbucket, hright', hptr,
          Option.bind_eq_bind, Option.bind_some]
        exact hloop
      · rw [show b + (rounds + 1) = b + 1 + rounds by omega]
        exact hb'
      · rw [show b + (rounds + 1) = b + 1 + rounds by omega, hoffset', hleft]

/-! ## Claiming and searching -/

/-- The taken nodes after a call that may have taken one more. -/
def taken (marked : Set Nat) : Option Nat → Set Nat
  | none => marked
  | some n => insert n marked

/-- The pointer for a node, `NULL` for none. -/
def pointerTo (header base target : Nat) : Option Nat → Nat
  | none => 0
  | some n => nodeAddr base target n + header

/-- A computation of the allocator returns `outcome` where the arena, with
`marked` taken, arrives at `result`. -/
structure Answers (keeping : Bookkeeping platform) (kept guarded : Set Nat)
    (target request : Nat) (heap : Heap) (arena : Arena) (marked : Set Nat)
    (result : Option Nat × Arena) (outcome : Nat × Heap) : Prop where
  pointer : outcome.1 =
    pointerTo keeping.allocator.header heap.basePtr target result.1
  sim : Sim platform outcome.2 result.2 (taken marked result.1)
  tracked : keeping.Tracked outcome.2.nodeStatus result.2.limit
    (taken marked result.1)
  effect : Effect platform kept guarded result.1.isSome heap outcome.2
  top_le : arena.top ≤ result.2.top
  fresh : ∀ n, result.1 = some n → keeping.highest ≤ target ∧ n ∉ marked ∧
    AtLevel target n ∧ offset 31 target n + 2 ^ (31 - target) ≤ result.2.top ∧
    keeping.Label outcome.2.memory (nodeAddr heap.basePtr target n) request

/-- A computation of the allocator, which fails only when a block is to be handed
out that is larger than the allocator can record. -/
def Computes (keeping : Bookkeeping platform) (kept guarded : Set Nat)
    (target request : Nat) (heap : Heap) (arena : Arena) (marked : Set Nat)
    (result : Option Nat × Arena) : Option (Nat × Heap) → Prop
  | none => target < keeping.highest ∧ result.1 ≠ none
  | some outcome =>
      keeping.Answers kept guarded target request heap arena marked result
        outcome

variable {keeping} in
/-- An answer after an effect that left the taken nodes as they were. -/
theorem Answers.after {heap₀ : Heap} {arena₀ : Arena}
    {result : Option Nat × Arena} {outcome : Nat × Heap}
    (h : keeping.Answers kept guarded target request heap arena marked result
      outcome)
    (heffect : Effect platform kept guarded true heap₀ heap)
    (htop : arena₀.top ≤ arena.top) :
    keeping.Answers kept guarded target request heap₀ arena₀ marked result
      outcome where
  pointer := heffect.base ▸ h.pointer
  sim := h.sim
  tracked := h.tracked
  effect := heffect.trans h.effect
  top_le := htop.trans h.top_le
  fresh := heffect.base ▸ h.fresh

variable {keeping} in
theorem Computes.after {heap₀ : Heap} {arena₀ : Arena}
    {result : Option Nat × Arena} {computation : Option (Nat × Heap)}
    (h : keeping.Computes kept guarded target request heap arena marked result
      computation)
    (heffect : Effect platform kept guarded true heap₀ heap)
    (htop : arena₀.top ≤ arena.top) :
    keeping.Computes kept guarded target request heap₀ arena₀ marked result
      computation := by
  cases computation with
  | none => exact h
  | some outcome => exact Answers.after h heffect htop

variable {keeping} in
/-- A computation has a result, unless the block to be handed out cannot be
recorded. -/
theorem Computes.exists_some {result : Option Nat × Arena}
    {computation : Option (Nat × Heap)}
    (h : keeping.Computes kept guarded target request heap arena marked result
      computation)
    (hhighest : result.1 ≠ none → keeping.highest ≤ target) :
    ∃ outcome, computation = some outcome := by
  cases computation with
  | none => exact absurd h.1 (Nat.not_lt.mpr (hhighest h.2))
  | some outcome => exact ⟨outcome, rfl⟩

/-- Memory enough for the block that is handed out is memory enough for the
first split. -/
theorem needed_le (hb : b ≤ target) (htarget : target < 28) :
    2 ^ (31 - target) ≤ Arena.needed b target ∧
      Arena.needed b target ≤ 2 ^ (31 - b) ∧
      (target - b ≠ 0 → 2 ^ (31 - b) / 2 + 16 = Arena.needed b target) := by
  have hsixteen := sixteen_le_size (b := target) (by simp; omega)
  unfold Arena.needed
  by_cases hlt : b < target
  · have hexp : 31 - b = 31 - (b + 1) + 1 := by omega
    have hle : 2 ^ (31 - target) ≤ 2 ^ (31 - (b + 1)) :=
      Nat.pow_le_pow_right (by omega) (by omega)
    have hsize : 2 ^ (31 - b) = 2 * 2 ^ (31 - (b + 1)) := by
      rw [hexp, Nat.pow_succ]
      ring
    rw [if_pos hlt, hsize]
    omega
  · have heq : b = target := by omega
    subst heq
    simp

/-- The rest of a round of `malloc` claims a free node in the arena. -/
theorem claimBlock_spec (grant : Nat → Bool) (hn : n ∈ arena.free b)
    (hshape : arena.Shape marked)
    (hsim : Sim platform heap (arena.drop b n) (insert n marked))
    (htracked : keeping.Tracked heap.nodeStatus arena.limit marked)
    (hb : b ≤ target) (htarget : target < 28) (hrequest : request < 2 ^ 64)
    (hkept : kept ⊆ bytesOf heap.basePtr marked)
    (hguarded : guarded ⊆ bytesOf heap.basePtr marked) :
    keeping.Computes kept guarded target request heap arena marked
      (arena.claim grant target b n)
      (claimBlock platform grant keeping.mark (keeping.finish request) target b
        (nodeAddr heap.basePtr b n) heap) := by
  obtain ⟨hlevel, -, hlt⟩ := hshape.free_level hn
  obtain ⟨hvacant, -⟩ := (hshape.free_iff b n).mp hn
  have hnot := hvacant.not_mem
  have hbound := offset_bound hlevel (show b < bucketCount by simpa using hlt)
  obtain ⟨hsmall, hlarge, hsplitting⟩ := needed_le hb htarget
  have hsub : kept ⊆ bytesOf heap.basePtr (insert n marked) :=
    hkept.trans (bytesOf_mono (Set.subset_insert _ _))
  have hsub' : guarded ⊆ bytesOf heap.basePtr (insert n marked) :=
    hguarded.trans (bytesOf_mono (Set.subset_insert _ _))
  obtain ⟨heap₁, hupdate, hsim₁, heffect₁, hstatus₁⟩ :=
    hsim.reserve grant kept guarded (offset 31 b n + Arena.needed b target)
      (by omega)
  have hupdate' : updateMaxPtr grant
      (wrap (nodeAddr heap.basePtr b n + bytesNeeded b target)) heap =
        (((arena.drop b n).reserve grant
          (offset 31 b n + Arena.needed b target)).1, heap₁) := by
    rw [← hupdate, nodeAddr, Nat.add_assoc]
    rfl
  have hlimit₁ := Arena.reserve_limit (arena.drop b n) grant
    (offset 31 b n + Arena.needed b target)
  have hle₁ := Arena.le_reserve_top (arena.drop b n) grant
    (offset 31 b n + Arena.needed b target)
  have htop₁ := Arena.reserve_top (arena.drop b n) grant
    (offset 31 b n + Arena.needed b target)
  unfold claimBlock Arena.claim
  rw [hupdate']
  rcases hreserve : (arena.drop b n).reserve grant
    (offset 31 b n + Arena.needed b target) with ⟨granted, arena₁⟩
  simp only [hreserve, Arena.drop_limit, Arena.drop_top] at *
  cases granted with
  | false =>
      -- The block goes back to the end of the list it was taken from.
      have hroom := hshape.room b n hn
      have hshape₂ : (arena₁.push b n).Shape marked :=
        hsim₁.shape.give hnot hlevel (hlimit₁ ▸ hvacant.maximal) (by omega)
      obtain ⟨hsim₂, heffect₂⟩ := hsim₁.push hshape₂ (heffect₁.base ▸ hsub)
        (heffect₁.base ▸ hkept)
      rw [heffect₁.base] at hsim₂ heffect₂
      simp only [platform.bucket_eq (show b < bucketCount by simpa using hlt),
        Option.bind_eq_bind, Option.bind_some]
      refine ⟨rfl, hsim₂, ?_, heffect₁.trans heffect₂, hle₁, by simp⟩
      simp only [taken, Arena.push_limit, hlimit₁]
      rw [(listPush_fields heap₁ _ _).2.2.2.2.2, hstatus₁]
      exact htracked
  | true =>
      obtain ⟨status, hmark, hopening⟩ := keeping.mark_take
        hshape hn (hstatus₁ ▸ htracked)
      have hfits := htop₁ rfl
      obtain ⟨n', heap₂, hsplit, hloop, hsim₂, hlimit₂, htop₂, hopening₂, hn₂,
          hlevel₂, hoffset₂, heffect₂⟩ :=
        keeping.splitLoop_spec guarded (target - b)
          (hsim₁.withStatus status) hnot hlevel (by omega)
          (fun hne => by have := hsplitting hne; omega)
          (hlimit₁ ▸ hopening) (heffect₁.base ▸ hkept)
      rw [show b + (target - b) = target by omega] at hlevel₂ hoffset₂
      have hbase₂ : heap₂.basePtr = heap.basePtr :=
        heffect₂.base.trans heffect₁.base
      have hnode := nodeForPtr_eq heap₁ hlevel
        (show b < bucketCount by simpa using hlt)
      rw [heffect₁.base] at hnode
      have haddr : nodeAddr heap.basePtr b n = nodeAddr heap.basePtr target n' := by
        unfold nodeAddr
        rw [hoffset₂]
      simp only [hnode, hmark, hloop, Option.bind_eq_bind, Option.bind_some]
      rw [haddr]
      by_cases hhighest : keeping.highest ≤ target
      · obtain ⟨heap₃, hfinish, hsim₃, heffect₃, htracked₃, hlabel₃⟩ :=
          keeping.finish_spec hsim₂
            hn₂ hlevel₂ hhighest (by omega) (hlimit₂ ▸ hopening₂) hrequest
            (hbase₂ ▸ hkept)
        rw [hbase₂] at hfinish hlabel₃
        rw [hfinish]
        refine ⟨?_, ?_, ?_, ?_, ?_, ?_⟩
        · simp [pointerTo, hsplit]
        · simpa [taken, hsplit] using hsim₃
        · simpa [taken, hsplit] using htracked₃
        · exact heffect₁.trans ((Effect.withStatus status).trans
            (heffect₂.trans heffect₃))
        · simp only
          omega
        · simp only [hsplit, Option.some.injEq]
          rintro _ rfl
          exact ⟨hhighest, hn₂, hlevel₂, by omega, hlabel₃⟩
      · -- Only node `1` is too large to be recorded.
        have hhighest_le := keeping.highest_le
        have hzero : target = 0 := by omega
        rw [hzero] at hlevel₂
        rw [hlevel₂.eq_of_zero, keeping.finish_first (by omega)]
        exact ⟨Nat.not_le.mp hhighest, by simp⟩

/-- Taking the last free node of a level off its list and claiming it. -/
theorem popClaim_spec (hlast : (arena.free b).getLast? = some n)
    (hsim : Sim platform heap arena marked)
    (htracked : keeping.Tracked heap.nodeStatus arena.limit marked)
    (hb : b ≤ target) (htarget : target < 28) (hrequest : request < 2 ^ 64)
    (hkept : kept ⊆ bytesOf heap.basePtr marked)
    (hguarded : guarded ⊆ bytesOf heap.basePtr marked) :
    ∃ ptr heap', listPop (platform.head b) heap = (ptr, heap') ∧ ptr ≠ 0 ∧
      keeping.Computes kept guarded target request heap arena marked
        (arena.claim grant target b n)
        (claimBlock platform grant keeping.mark (keeping.finish request) target
          b ptr heap') := by
  obtain ⟨heap', hpop, hne, hsim', heffect, hstatus⟩ :=
    hsim.pop_some hlast hkept hguarded
  have hclaim := keeping.claimBlock_spec grant
    (List.mem_of_getLast? hlast) hsim.shape hsim' (hstatus ▸ htracked) hb
    htarget hrequest (heffect.base ▸ hkept) (heffect.base ▸ hguarded)
  rw [heffect.base] at hclaim
  exact ⟨_, heap', hpop, hne, hclaim.after heffect (le_refl _)⟩

/-- A call that gives up after an effect. -/
theorem Answers.none {arena' : Arena} {heap' : Heap} {ok : Bool}
    (hsim : Sim platform heap' arena' marked)
    (htracked : keeping.Tracked heap'.nodeStatus arena'.limit marked)
    (heffect : Effect platform kept guarded ok heap heap')
    (htop : arena.top ≤ arena'.top) :
    keeping.Answers kept guarded target request heap arena marked
      (none, arena') (0, heap') where
  pointer := rfl
  sim := hsim
  tracked := htracked
  effect := heffect.forget
  top_le := htop
  fresh n hn := absurd hn (by simp)

/-- The search loop of `malloc` searches the arena. -/
theorem searchLoop_spec (count : Nat) (hcount : count ≤ target + 1)
    (hsim : Sim platform heap arena marked)
    (htracked : keeping.Tracked heap.nodeStatus arena.limit marked)
    (htarget : target < 28) (hrequest : request < 2 ^ 64)
    (hkept : kept ⊆ bytesOf heap.basePtr marked)
    (hguarded : guarded ⊆ bytesOf heap.basePtr marked) :
    keeping.Computes kept guarded target request heap arena marked
      (arena.search grant target count)
      (searchLoop platform
        (fun bucket heap => lowerLoop (keeping.round grant) bucket
          (heap.bucketLimit - bucket) heap)
        (claimBlock platform grant keeping.mark (keeping.finish request) target)
        count heap) := by
  -- The source counts the bucket down, and one round looks at one level. The induction
  -- follows the source and not the arena, which may grow twice in a round.
  induction count generalizing heap arena with
  | zero =>
      have hrefl : Effect platform kept guarded true heap heap :=
        Effect.refl heap
      exact Answers.none keeping hsim htracked hrefl (le_refl _)
  | succ b ih =>
      obtain ⟨heap₁, hlower, hsim₁, heffect₁, htracked₁⟩ :=
        keeping.lower_spec grant b hsim htracked hkept hguarded
      have htop₁ := Arena.le_growTo_top arena grant
        (b := b)
      have hlimit₁ := Arena.growTo_limit arena grant
        (b := b)
      unfold searchLoop Arena.search
      rcases hgrow : arena.growTo grant b with ⟨granted, arena₁⟩
      simp only [hgrow] at hlower hsim₁ heffect₁ htracked₁ htop₁ hlimit₁
      simp only [hlower, Option.bind_eq_bind, Option.bind_some]
      cases granted with
      | false => exact Answers.none keeping hsim₁ htracked₁ heffect₁ htop₁
      | true =>
          have hle₁ := hlimit₁ rfl
          have hkept₁ := heffect₁.base ▸ hkept
          have hguarded₁ := heffect₁.base ▸ hguarded
          have hbucket := platform.bucket_eq (b := b) (by simp; omega)
          simp only [hbucket, Option.bind_some]
          cases hlast : (arena₁.free b).getLast? with
          -- A free node on the list of this level: it is claimed or given back.
          | some n =>
              obtain ⟨ptr, heap₂, hpop, hne, hclaim⟩ :=
                keeping.popClaim_spec hlast hsim₁ htracked₁
                  (by omega) htarget hrequest hkept₁ hguarded₁
              simp only [hpop, if_neg hne]
              exact hclaim.after heffect₁ htop₁
          | none =>
              have hpop := hsim₁.pop_none (by omega) (by omega) hlast
              simp only [hpop, if_pos, hsim₁.limit]
              by_cases hpass : b ≠ arena₁.limit ∨ b = 0
              · -- The next larger size is tried.
                rw [if_pos hpass, if_pos hpass]
                exact (ih (by omega) hsim₁ htracked₁ hkept₁ hguarded₁).after
                  heffect₁ htop₁
              · -- The root is taken, so the tree grows once more.
                rw [if_neg hpass, if_neg hpass]
                obtain ⟨hroot, hne⟩ : b = arena₁.limit ∧ b ≠ 0 := by omega
                obtain ⟨heap₂, hlower₂, hsim₂, heffect₂, htracked₂⟩ :=
                  keeping.lower_spec grant (b - 1) hsim₁ htracked₁
                    hkept₁ hguarded₁
                have htop₂ := Arena.le_growTo_top arena₁ grant (b := b - 1)
                have hlast₂ := Arena.getLast_growTo_pred grant
                  hroot.symm hne hlast
                rw [hsim₁.limit] at hlower₂
                rcases hgrow₂ : arena₁.growTo grant (b - 1) with
                  ⟨granted₂, arena₂⟩
                simp only [hgrow₂] at hlower₂ hsim₂ heffect₂ htracked₂ htop₂ hlast₂
                simp only [hlower₂, Option.bind_some]
                cases granted₂ with
                | false =>
                    exact Answers.none keeping hsim₂ htracked₂
                      (heffect₁.trans heffect₂) (htop₁.trans htop₂)
                | true =>
                    have hlast₂' := hlast₂ rfl
                    obtain ⟨ptr, heap₃, hpop₃, -, hclaim⟩ :=
                      keeping.popClaim_spec hlast₂' hsim₂
                        htracked₂ (by omega) htarget hrequest
                        (heffect₂.base ▸ hkept₁) (heffect₂.base ▸ hguarded₁)
                    simp only [hpop₃, hlast₂']
                    exact hclaim.after (heffect₁.trans heffect₂)
                      (htop₁.trans htop₂)

/-! ## Merging -/

/-- The loop of `free` and the final `list_push` release a node. -/
theorem mergeLoop_spec (b rounds : Nat) (hrounds : c - 1 ≤ rounds)
    (hsim : Sim platform heap arena (insert c marked)) (hc : c ∉ marked)
    (hb : AtLevel b c) (hroom : offset 31 b c + 16 ≤ arena.top)
    (hclosing : keeping.Closing heap.nodeStatus arena.limit marked c)
    (hkept : kept ⊆ bytesOf heap.basePtr marked)
    (hguarded : guarded ⊆ bytesOf heap.basePtr (insert c marked)) :
    ∃ i bucket heap' heap'' node,
      mergeLoop platform keeping.settle rounds (c - 1) b heap =
        some (i, bucket, heap') ∧
      bucket < bucketCount ∧ ptrForNode heap' i bucket = some node ∧
      listPush (platform.head bucket) node heap' = heap'' ∧
      Sim platform heap'' (Arena.release b c arena) marked ∧
      keeping.Tracked heap''.nodeStatus (Arena.release b c arena).limit marked ∧
      Effect platform kept guarded true heap heap'' := by
  have hsub : kept ⊆ bytesOf heap.basePtr (insert c marked) :=
    hkept.trans (bytesOf_mono (Set.subset_insert _ _))
  -- The loop climbs from the freed node to the root, one level a round; the source has no
  -- counter, and c - 1 rounds are enough because the number is halved.
  induction b generalizing rounds heap arena c with
  | zero =>
      -- The root has no sibling; it goes to its list.
      have hone := hb.eq_of_zero
      subst hone
      have hroot : arena.limit = 0 := by
        have hle := (hsim.shape.marking.below 1 (Set.mem_insert 1 marked)).levels
          atLevel_root (atLevel_two_pow _)
        omega
      have htracked := keeping.closing_root hsim.shape hc hclosing
      have hshape := hsim.shape.give hc hb
        (Or.inl (by rw [hroot, Nat.pow_zero])) hroom
      obtain ⟨hsim', heffect⟩ := hsim.push hshape hsub hkept
      have hptr := ptrForNode_eq hsim.mapped hb (show 0 < bucketCount by simp)
      have hloop : mergeLoop platform keeping.settle rounds (1 - 1) 0 heap =
          some (0, 0, heap) := by
        cases rounds <;> rfl
      exact ⟨0, 0, heap, _, _, hloop, by simp, hptr, rfl, hsim', htracked,
        heffect⟩
  | succ b ih =>
      have htwo := hb.two_le
      have hlevel := hsim.shape.node_lt (Set.mem_insert c marked) hb
      have hlt := node_lt hb (show b + 1 < bucketCount by simpa using hlevel)
      obtain ⟨rounds, rfl⟩ : ∃ r, rounds = r + 1 := ⟨rounds - 1, by omega⟩
      obtain ⟨status, hsettle, hstop, hgo⟩ := keeping.settle_spec hsim.shape hc
        hb hsim.limit hclosing
      have hsim₁ := hsim.withStatus status
      unfold mergeLoop Arena.release
      rw [if_pos (show c - 1 ≠ 0 by omega), hsettle]
      by_cases hdone : b + 1 = arena.limit ∨ sibling c ∉ arena.free (b + 1)
      · -- The flag of the parent, or the bucket limit, ends the loop: the node becomes
        -- free.
        have hshape := hsim.shape.give hc hb
          (hsim.shape.maximal_of_stop hb hdone) hroom
        obtain ⟨hsim₂, heffect₂⟩ := hsim₁.push hshape hsub
          hkept
        rw [if_pos hdone, decide_eq_true hdone]
        exact ⟨c - 1, b + 1, _, _, _, rfl, by simpa using hlevel,
          ptrForNode_eq hsim₁.mapped hb (by simpa using hlevel), rfl, hsim₂,
          hstop hdone, (Effect.withStatus status).trans heffect₂⟩
      · -- The sibling is free: it leaves its list, and the parent is released instead.
        have hfree : sibling c ∈ arena.free (b + 1) := by tauto
        obtain ⟨hshape, hhalf⟩ := hsim.shape.merge hc hb hfree
        obtain ⟨hsim₂, heffect₂⟩ := hsim₁.drop hfree hshape hsub hguarded
        have hle := offset_half_le hb (by omega)
        obtain ⟨i, bucket, heap', heap'', node, hloop, hrest⟩ :=
          ih rounds (by omega) hsim₂ hhalf hb.half (by simp; omega) (hgo hdone) hkept
            (hguarded.trans bytesOf_insert_half)
            (hkept.trans (bytesOf_mono (Set.subset_insert _ _)))
        have hbucket := platform.bucket_eq (b := b + 1)
          (by simpa using hlevel)
        have hbuddy := ptrForNode_eq hsim₁.mapped hb.sibling
          (show b + 1 < bucketCount by simpa using hlevel)
        rw [if_neg hdone, decide_eq_false hdone]
        refine ⟨i, bucket, heap', heap'', node, ?_, hrest.1, hrest.2.1,
          hrest.2.2.1, hrest.2.2.2.1, hrest.2.2.2.2.1,
          (Effect.withStatus status).trans (heffect₂.trans hrest.2.2.2.2.2)⟩
        simp only [Option.bind_eq_bind, Option.bind_some, hbucket,
          siblingIndex_eq htwo (by omega), hbuddy,
          parentIndex_eq htwo (by omega),
          sizeSub_of_le (show 1 ≤ b + 1 by omega) (by omega),
          Nat.add_sub_cancel]
        exact hloop

/-- The body of `free` releases a taken node. -/
theorem giveBack_spec (hsim : Sim platform heap arena (insert n marked))
    (hn : n ∉ marked) (hb : AtLevel b n)
    (hroom : offset 31 b n + 2 ^ (31 - b) ≤ arena.top)
    (htracked : keeping.Tracked heap.nodeStatus arena.limit (insert n marked))
    (hfreeable : keeping.Freeable heap.nodeStatus arena.limit marked)
    (hkept : kept ⊆ bytesOf heap.basePtr marked)
    (hguarded : guarded ⊆ bytesOf heap.basePtr (insert n marked)) :
    ∃ heap', giveBack platform keeping.settle (nodeAddr heap.basePtr b n) b heap =
        some heap' ∧
      Sim platform heap' (Arena.release b n arena) marked ∧
      keeping.Tracked heap'.nodeStatus (Arena.release b n arena).limit marked ∧
      Effect platform kept guarded true heap heap' := by
  have hlevel := hsim.shape.node_lt (Set.mem_insert n marked) hb
  have hsize := sixteen_le_size (show b < bucketCount by simpa using hlevel)
  have hclosing := keeping.closing hsim.shape hn htracked hfreeable
  obtain ⟨i, bucket, heap', heap'', node, hloop, hbucket, hptr, hpush, hrest⟩ :=
    keeping.mergeLoop_spec b (n - 1) (le_refl _) hsim hn hb (by omega) hclosing
      hkept hguarded
  refine ⟨heap'', ?_, hrest⟩
  have hnode := nodeForPtr_eq heap hb
    (show b < bucketCount by simpa using hlevel)
  simp only [giveBack, hnode, hloop, platform.bucket_eq hbucket, hptr, hpush,
    Option.bind_eq_bind, Option.bind_some]

/-! ## The calls -/

/-- The search of `malloc` once the allocator is initialised. -/
theorem search_spec (hsim : Sim platform heap arena marked)
    (htracked : keeping.Tracked heap.nodeStatus arena.limit marked)
    (htotal : keeping.allocator.total request ≤ maxAlloc)
    (hrequest : request < 2 ^ 64)
    (hkept : kept ⊆ bytesOf heap.basePtr marked)
    (hguarded : guarded ⊆ bytesOf heap.basePtr marked) :
    keeping.Computes kept guarded
      (bucketOf (keeping.allocator.total request)) request heap arena marked
      (arena.alloc grant (bucketOf (keeping.allocator.total request)))
      ((bucketForRequest (keeping.allocator.total request)).bind fun bucket =>
        searchLoop platform
          (fun bucket heap => lowerLoop (keeping.round grant) bucket
            (heap.bucketLimit - bucket) heap)
          (claimBlock platform grant keeping.mark (keeping.finish request)
            bucket) (bucket + 1) heap) := by
  have htarget := bucketOf_lt (keeping.allocator.total request)
  rw [bucketForRequest_eq (by simpa using htotal), Option.bind_some]
  exact keeping.searchLoop_spec _ (le_refl _) hsim htracked
    (by simpa using htarget) hrequest hkept hguarded

/-- A call of `malloc` on a running allocator. -/
theorem malloc_spec (grant : Nat → Bool)
    (hsim : Sim platform heap arena marked)
    (htracked : keeping.Tracked heap.nodeStatus arena.limit marked)
    (htotal : keeping.allocator.total request ≤ maxAlloc)
    (hrequest : request < 2 ^ 64)
    (hkept : kept ⊆ bytesOf heap.basePtr marked)
    (hguarded : guarded ⊆ bytesOf heap.basePtr marked) :
    keeping.Computes kept guarded
      (bucketOf (keeping.allocator.total request)) request heap arena marked
      (arena.alloc grant (bucketOf (keeping.allocator.total request)))
      (keeping.allocator.malloc grant request heap) := by
  rw [keeping.malloc_eq, allocate, if_neg (by omega), ensureInitialised,
    if_neg hsim.mapped.base_ne_zero]
  exact keeping.search_spec hsim htracked htotal hrequest hkept hguarded

/-- The first call of `malloc`, when its first request to the system is
granted. -/
theorem malloc_fresh_spec (hfresh : Fresh platform heap)
    (hgrant : grant 0 = true)
    (htotal : keeping.allocator.total request ≤ maxAlloc)
    (hrequest : request < 2 ^ 64) (hkept : kept ⊆ ∅) (hguarded : guarded ⊆ ∅) :
    keeping.Computes kept guarded
      (bucketOf (keeping.allocator.total request)) request (placeBase heap)
      (Arena.initial grant) ∅
      ((Arena.initial grant).alloc grant
        (bucketOf (keeping.allocator.total request)))
      (keeping.allocator.malloc grant request heap) := by
  obtain ⟨heap₁, hinitialise, hsim, hstatus, heffect⟩ :=
    hfresh.initialise hgrant hkept
  have htracked : keeping.Tracked heap₁.nodeStatus (Arena.initial grant).limit
      ∅ := by
    rw [hstatus]
    exact keeping.tracked_zero
  rw [keeping.malloc_eq, allocate, if_neg (by omega), ensureInitialised,
    if_pos hfresh.base, hinitialise]
  exact (keeping.search_spec hsim htracked htotal hrequest
    (hkept.trans (Set.empty_subset _))
    (hguarded.trans (Set.empty_subset _))).after heffect (le_refl _)

/-- A request that is too large changes nothing. -/
theorem malloc_refused (htotal : maxAlloc < keeping.allocator.total request) :
    keeping.allocator.malloc grant request heap = some (0, heap) := by
  rw [keeping.malloc_eq, allocate, if_pos htotal]

/-- A call of `free` for a taken node. -/
theorem free_spec (hsim : Sim platform heap arena (insert n marked))
    (htracked : keeping.Tracked heap.nodeStatus arena.limit (insert n marked))
    (hn : n ∉ marked) (htotal : keeping.allocator.total request ≤ maxAlloc)
    (hhighest : keeping.highest ≤ bucketOf (keeping.allocator.total request))
    (hb : AtLevel (bucketOf (keeping.allocator.total request)) n)
    (hroom : offset 31 (bucketOf (keeping.allocator.total request)) n +
      2 ^ (31 - bucketOf (keeping.allocator.total request)) ≤ arena.top)
    (hlabel : keeping.Label heap.memory
      (nodeAddr heap.basePtr (bucketOf (keeping.allocator.total request)) n)
      request)
    (hfreeable : keeping.Freeable heap.nodeStatus arena.limit marked)
    (hkept : kept ⊆ bytesOf heap.basePtr marked)
    (hguarded : guarded ⊆ bytesOf heap.basePtr (insert n marked)) :
    ∃ heap', keeping.allocator.free
        (nodeAddr heap.basePtr (bucketOf (keeping.allocator.total request)) n +
          keeping.allocator.header) heap = some heap' ∧
      Sim platform heap' (Arena.release
        (bucketOf (keeping.allocator.total request)) n arena) marked ∧
      keeping.Tracked heap'.nodeStatus (Arena.release
        (bucketOf (keeping.allocator.total request)) n arena).limit marked ∧
      Effect platform kept guarded true heap heap' := by
  rw [keeping.free_eq hsim htracked (Set.mem_insert n marked) htotal hhighest hb
    hlabel]
  exact keeping.giveBack_spec hsim hn hb hroom htracked hfreeable hkept hguarded

end Bookkeeping

end BuddyAlloc
end OsStuff
