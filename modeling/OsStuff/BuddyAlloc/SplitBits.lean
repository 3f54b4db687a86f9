import OsStuff.BuddyAlloc.Bookkeeping

/-!
# The split bits of `buddy_malloc.c`

The bit of an inner node is the exclusive or of the use of its two children.
Whenever one node of the tree comes into use or goes out of use, the bit of its
parent is the only one to change, and flipping it is what the code does.  This
gives the bookkeeping of the first allocator.
-/

namespace OsStuff
namespace BuddyAlloc
namespace Malloc1

open Library Library.ByteMemory Library.DyadicTree

/-- The bit of node `n`. -/
def splitBit (status : Nat → Nat) (n : Nat) : Bool :=
  (status ((n - 1) / 8)).testBit ((n - 1) % 8)

/-- `node_status` with the bit of node `n` flipped. -/
def flipBit (status : Nat → Nat) (n : Nat) : Nat → Nat :=
  Function.update status ((n - 1) / 8)
    (status ((n - 1) / 8) ^^^ (1 <<< ((n - 1) % 8)))

/-- The bit of every inner node tells whether `p` holds of exactly one of its
children. -/
def Encodes (status : Nat → Nat) (p : Nat → Prop) : Prop :=
  ∀ n, 1 ≤ n → n < 2 ^ 27 →
    (splitBit status n = true ↔ ¬ (p (2 * n) ↔ p (2 * n + 1)))

/-- The split bits of a tree in which the nodes of `marked` are taken. -/
def Flags (status : Nat → Nat) (limit : Nat) (marked : Set Nat) : Prop :=
  Encodes status (InUse marked (2 ^ limit))

variable {platform : Platform} {heap : Heap} {arena : Arena}
  {status : Nat → Nat} {p q : Nat → Prop} {marked kept guarded : Set Nat}
  {b n m c l : Nat} {grant : Nat → Bool}

/-! ## One bit -/

theorem splitBit_flipBit (hn : 1 ≤ n) (hm : 1 ≤ m) :
    splitBit (flipBit status m) n = (splitBit status n ^^ decide (n = m)) := by
  unfold splitBit flipBit
  by_cases hbyte : (n - 1) / 8 = (m - 1) / 8
  · have hsame : (m - 1) % 8 = (n - 1) % 8 ↔ n = m := by omega
    rw [hbyte, Function.update_self, Nat.testBit_xor, Nat.one_shiftLeft,
      Nat.testBit_two_pow]
    simp only [hsame]
  · have hne : n ≠ m := by
      rintro rfl
      exact hbyte rfl
    rw [Function.update_of_ne hbyte]
    simp [hne]

theorem parentIsSplit_eq (heap : Heap) (hn : 2 ≤ n) (hlt : n < 2 ^ 28) :
    parentIsSplit heap (n - 1) =
      some (splitBit heap.nodeStatus (n / 2)) := by
  have hin : (n / 2 - 1) / 8 < statusBytes := by
    simp [statusBytes]
    omega
  unfold parentIsSplit splitBit
  rw [parentIndex_eq hn (by omega), if_pos hin]

theorem flipParentIsSplit_eq (heap : Heap) (hn : 2 ≤ n) (hlt : n < 2 ^ 28) :
    flipParentIsSplit heap (n - 1) =
      some { heap with nodeStatus := flipBit heap.nodeStatus (n / 2) } := by
  have hin : (n / 2 - 1) / 8 < statusBytes := by
    simp [statusBytes]
    omega
  unfold flipParentIsSplit flipBit
  rw [parentIndex_eq hn (by omega), if_pos hin]

/-! ## The bits when one node changes its use -/

/-- The exclusive or changes when the use of one child changes. -/
theorem Encodes.iff_of_toggle (hn : 2 ≤ n)
    (hne : ∀ k, k ≠ n → (q k ↔ p k)) (hself : q n ↔ ¬ p n)
    (hencodes : Encodes status p) : Encodes (flipBit status (n / 2)) q := by
  intro m hm hlt
  have hbit := hencodes m hm hlt
  rw [splitBit_flipBit hm (by omega)]
  by_cases hparent : m = n / 2
  · have hflip : (splitBit status m ^^ decide (m = n / 2)) = true ↔
        ¬ splitBit status m = true := by
      simp [hparent]
    rw [hflip, hbit]
    rcases eq_children_half hn with ⟨hleft, -⟩ | ⟨hright, -⟩
    · rw [← hparent] at hleft
      have hother := hne (2 * m + 1) (by omega)
      rw [hother, ← hleft, hself]
      grind
    · rw [← hparent] at hright
      have hother := hne (2 * m) (by omega)
      rw [hother, ← hright, hself]
      grind
  · rw [hne (2 * m) (by omega), hne (2 * m + 1) (by omega), ← hbit]
    simp [hparent]

theorem Encodes.add (h : OneMore p q n) (hn : 2 ≤ n)
    (hencodes : Encodes status p) : Encodes (flipBit status (n / 2)) q :=
  hencodes.iff_of_toggle hn (fun _ hk => h.of_ne hk)
    (iff_of_true h.self h.absent)

theorem Encodes.remove (h : OneMore p q n) (hn : 2 ≤ n)
    (hencodes : Encodes status q) : Encodes (flipBit status (n / 2)) p :=
  hencodes.iff_of_toggle hn (fun _ hk => (h.of_ne hk).symm)
    (iff_of_false h.absent (not_not.mpr h.self))

/-- Node `1` has no parent. -/
theorem Encodes.of_one (h : ∀ k, k ≠ 1 → (q k ↔ p k))
    (hencodes : Encodes status p) : Encodes status q := by
  intro m hm hlt
  rw [h (2 * m) (by omega), h (2 * m + 1) (by omega)]
  exact hencodes m hm hlt

/-- The bits say nothing when nothing is in use. -/
theorem Flags.limit_of_empty (hflags : Flags status b ∅) (c : Nat) :
    Flags status c ∅ := by
  intro m hm hlt
  rw [hflags m hm hlt, iff_false_intro not_inUse_empty,
    iff_false_intro not_inUse_empty, iff_false_intro not_inUse_empty,
    iff_false_intro not_inUse_empty]

/-- The bit of the root's parent tells whether anything is taken. -/
theorem Flags.root_bit (hflags : Flags status arena.limit marked)
    (hshape : arena.Shape marked) (hlimit : arena.limit = l + 1) :
    splitBit status (2 ^ arena.limit / 2) = true ↔ marked ≠ ∅ := by
  have hlt := hshape.limit_lt
  have hhalf : 2 ^ arena.limit / 2 = 2 ^ l := by
    rw [hlimit, Nat.pow_succ]
    omega
  have hdouble : 2 * 2 ^ l = 2 ^ arena.limit := by
    rw [hlimit, Nat.pow_succ]
    omega
  have hpow : 2 ^ l < 2 ^ 27 := Nat.pow_lt_pow_right (by omega) (by omega)
  have hsibling := not_inUse_sibling_root marked (2 ^ arena.limit)
    (by have := Nat.one_le_two_pow (n := l); omega)
  rw [Arena.sibling_root hlimit] at hsibling
  rw [hhalf, hflags (2 ^ l) Nat.one_le_two_pow hpow, hdouble]
  constructor
  · rintro hne rfl
    exact hne (iff_of_false not_inUse_empty not_inUse_empty)
  · intro hmarked hiff
    exact hsibling (hiff.mp ⟨within_refl _, hshape.occupied_root hmarked⟩)

/-! ## The parts of the allocator -/

/-- Flipping the bit of the parent records that a node comes into use. -/
theorem mark_oneMore (h : OneMore p q n) (hn : 1 ≤ n) (hlt : n < 2 ^ 28)
    (hencodes : Encodes heap.nodeStatus p) :
    ∃ status, markUnlessFirst flipParentIsSplit heap (n - 1) =
        some { heap with nodeStatus := status } ∧ Encodes status q := by
  by_cases hone : n = 1
  · subst hone
    refine ⟨heap.nodeStatus, ?_, Encodes.of_one (fun _ hk => h.of_ne hk) hencodes⟩
    rw [markUnlessFirst, if_neg (by omega)]
  · refine ⟨_, ?_, hencodes.add h (by omega)⟩
    rw [markUnlessFirst, if_pos (by omega), flipParentIsSplit_eq _ (by omega) hlt]

section Rounds

variable {root right : Nat} {heap₁ heap₂ heap₃ : Heap}

theorem growRound_lifted
    (hroot : nodeForPtr heap heap.basePtr heap.bucketLimit = some root)
    (hsplit : parentIsSplit heap root = some false)
    (hlift : liftUnusedRoot platform heap = some heap₁) :
    growRound platform grant heap = some (true, heap₁) := by
  unfold growRound
  refine Option.bind_eq_some_iff.mpr ⟨root, hroot, ?_⟩
  refine Option.bind_eq_some_iff.mpr ⟨false, hsplit, ?_⟩
  rw [if_neg Bool.false_ne_true]
  exact Option.bind_eq_some_iff.mpr ⟨heap₁, hlift, rfl⟩

theorem growRound_refused
    (hroot : nodeForPtr heap heap.basePtr heap.bucketLimit = some root)
    (hsplit : parentIsSplit heap root = some true)
    (hright : ptrForNode heap (root + 1) heap.bucketLimit = some right)
    (hupdate : updateMaxPtr grant (wrap (right + sizeofListT)) heap =
      (false, heap₁)) :
    growRound platform grant heap = some (false, heap₁) := by
  unfold growRound
  refine Option.bind_eq_some_iff.mpr ⟨root, hroot, ?_⟩
  refine Option.bind_eq_some_iff.mpr ⟨true, hsplit, ?_⟩
  rw [if_pos rfl]
  refine Option.bind_eq_some_iff.mpr ⟨right, hright, ?_⟩
  rw [hupdate]

theorem growRound_opened
    (hroot : nodeForPtr heap heap.basePtr heap.bucketLimit = some root)
    (hsplit : parentIsSplit heap root = some true)
    (hright : ptrForNode heap (root + 1) heap.bucketLimit = some right)
    (hupdate : updateMaxPtr grant (wrap (right + sizeofListT)) heap =
      (true, heap₁))
    (hopen : openRightChild platform right heap₁ = some heap₂)
    (hmark : markUnlessFirst flipParentIsSplit heap₂ (parentIndex root) =
      some heap₃) :
    growRound platform grant heap = some (true, heap₃) := by
  unfold growRound
  refine Option.bind_eq_some_iff.mpr ⟨root, hroot, ?_⟩
  refine Option.bind_eq_some_iff.mpr ⟨true, hsplit, ?_⟩
  rw [if_pos rfl]
  refine Option.bind_eq_some_iff.mpr ⟨right, hright, ?_⟩
  rw [hupdate]
  refine Option.bind_eq_some_iff.mpr ⟨heap₂, hopen, ?_⟩
  exact Option.bind_eq_some_iff.mpr ⟨heap₃, hmark, rfl⟩

end Rounds

/-- A round of `lower_bucket_limit` lets the arena grow by one level. -/
theorem growRound_spec (hsim : Sim platform heap arena marked)
    (hflags : Flags heap.nodeStatus arena.limit marked)
    (hlimit : arena.limit = l + 1)
    (hkept : kept ⊆ bytesOf heap.basePtr marked)
    (hguarded : guarded ⊆ bytesOf heap.basePtr marked) :
    ∃ heap', growRound platform grant heap =
        some ((arena.grow grant).1, heap') ∧
      Sim platform heap' (arena.grow grant).2 marked ∧
      Effect platform kept guarded (arena.grow grant).1 heap heap' ∧
      Flags heap'.nodeStatus (arena.grow grant).2.limit marked := by
  have hlt := hsim.shape.limit_lt
  have htwo : 2 ≤ 2 ^ arena.limit := by
    rw [hlimit, Nat.pow_succ]
    have := Nat.one_le_two_pow (n := l)
    omega
  have hhalf : 2 ^ arena.limit / 2 = 2 ^ l := by
    rw [hlimit, Nat.pow_succ]
    omega
  have hpow : 2 ^ arena.limit < 2 ^ 28 :=
    Nat.pow_lt_pow_right (by omega) (by omega)
  -- The source looks at the bit of the parent of the root, which tells whether the root is
  -- in use since its sibling never is.
  have hbit := hflags.root_bit hsim.shape hlimit
  have hsplit := parentIsSplit_eq heap htwo hpow
  by_cases hmarked : marked = ∅
  · -- The root is free.
    subst hmarked
    have hfree := hsim.shape.root_free_iff.mpr rfl
    have hclear : splitBit heap.nodeStatus (2 ^ arena.limit / 2) = false := by
      simpa using hbit
    rw [hclear] at hsplit
    rw [bytesOf_empty] at hkept hguarded
    obtain ⟨heap', hlift, hsim', heffect, hstatus⟩ := hsim.lift hlimit hkept
      hguarded
    rw [Arena.grow_of_free hfree]
    refine ⟨heap', ?_, hsim', heffect, ?_⟩
    · exact growRound_lifted hsim.root_index hsplit hlift
    · rw [hstatus]
      exact hflags.limit_of_empty _
  · -- The root is in use.
    have hused : 2 ^ arena.limit ∉ arena.free arena.limit := fun h =>
      hmarked (hsim.shape.root_free_iff.mp h)
    have hset : splitBit heap.nodeStatus (2 ^ arena.limit / 2) = true :=
      hbit.mpr hmarked
    rw [hset] at hsplit
    obtain ⟨heap₁, hupdate, hsim₁, heffect₁, hstatus₁⟩ :=
      hsim.reserve_right grant
        hlimit
    have hlimit₁ := Arena.reserve_limit arena grant (Arena.rightEnd arena.limit)
    have htop₁ := Arena.reserve_top arena grant (Arena.rightEnd arena.limit)
    rw [Arena.grow_of_used hused]
    have hright := hsim.right_ptr hlimit
    rcases hreserve : arena.reserve grant (Arena.rightEnd arena.limit) with
      ⟨granted, arena₁⟩
    simp only [hreserve] at hupdate hsim₁ heffect₁ hlimit₁ htop₁ ⊢
    cases granted with
    | false =>
        refine ⟨heap₁, growRound_refused hsim.root_index hsplit hright hupdate,
          hsim₁, heffect₁, ?_⟩
        simp only [Bool.false_eq_true, if_false, hlimit₁, hstatus₁]
        exact hflags
    | true =>
        have hfits := htop₁ rfl
        obtain ⟨heap₂, hopen, hsim₂, heffect₂, hstatus₂⟩ :=
          hsim₁.openRight (l := l) (hlimit₁.trans hlimit)
            hmarked
            (by
              unfold Arena.rightEnd at hfits
              rw [hlimit₁]
              omega)
            (heffect₁.base ▸ hkept)
        rw [hlimit₁, heffect₁.base] at hopen
        -- To the new root the old one is a child that came into use: its bit is flipped
        -- once.
        have hmore := hsim.shape.marking.oneMore_root_half htwo
          (hsim.shape.occupied_root hmarked)
        rw [hhalf] at hmore
        have hparent : parentIndex (2 ^ arena.limit - 1) = 2 ^ l - 1 := by
          rw [parentIndex_eq htwo (by omega), hhalf]
        have hstatus : heap₂.nodeStatus = heap.nodeStatus :=
          hstatus₂.trans hstatus₁
        have hlimit₂ : arena₁.limit - 1 = l := by omega
        obtain ⟨status, hmark, hencodes⟩ := mark_oneMore hmore
          Nat.one_le_two_pow (by omega) (by rw [hstatus]; exact hflags)
        rw [← hparent] at hmark
        refine ⟨{ heap₂ with nodeStatus := status },
          growRound_opened hsim.root_index hsplit hright hupdate hopen hmark,
          hsim₂.withStatus _,
          heffect₁.trans (heffect₂.trans (Effect.withStatus _)), ?_⟩
        simp only [if_true, Arena.openRight_limit, hlimit₂]
        exact hencodes

/-- A round of `free_1` takes the node out of use and stops where its sibling
is in use or at the root. -/
theorem settle_spec (hshape : arena.Shape (insert c marked)) (hc : c ∉ marked)
    (hb : AtLevel (b + 1) c) (hlimit : heap.bucketLimit = arena.limit)
    (hflags : Flags heap.nodeStatus arena.limit (insert c marked)) :
    ∃ status, settle (c - 1) (b + 1) heap =
        some (decide (b + 1 = arena.limit ∨ sibling c ∉ arena.free (b + 1)),
          { heap with nodeStatus := status }) ∧
      (b + 1 = arena.limit ∨ sibling c ∉ arena.free (b + 1) →
        Flags status arena.limit marked) ∧
      (¬ (b + 1 = arena.limit ∨ sibling c ∉ arena.free (b + 1)) →
        Flags status arena.limit (insert (c / 2) marked)) := by
  have htwo := hb.two_le
  have hlevel := hshape.node_lt (Set.mem_insert c marked) hb
  have hlt := node_lt hb (show b + 1 < bucketCount by simpa using hlevel)
  have hflip := flipParentIsSplit_eq heap htwo hlt
  have hsplit := parentIsSplit_eq { heap with nodeStatus := flipBit heap.nodeStatus (c / 2) }
    htwo hlt
  have hused := hshape.inUse_sibling_iff hb
  -- What is in use afterwards depends on whether the loop goes on.
  obtain ⟨p, hmore, hstop, hgo⟩ : ∃ p,
      OneMore p (InUse (insert c marked) (2 ^ arena.limit)) c ∧
      (b + 1 = arena.limit ∨ sibling c ∉ arena.free (b + 1) →
        p = InUse marked (2 ^ arena.limit)) ∧
      (¬ (b + 1 = arena.limit ∨ sibling c ∉ arena.free (b + 1)) →
        p = InUse (insert (c / 2) marked) (2 ^ arena.limit)) := by
    by_cases hdone : b + 1 = arena.limit ∨ sibling c ∉ arena.free (b + 1)
    · exact ⟨_, hshape.oneMore_give hc hb hdone, fun _ => rfl,
        fun h => absurd hdone h⟩
    · have hfree : sibling c ∈ arena.free (b + 1) := not_not.mp (not_or.mp hdone).2
      exact ⟨_, hshape.oneMore_merge hc hb hfree, fun h => absurd h hdone,
        fun _ => rfl⟩
  have hencodes := Encodes.remove hmore htwo hflags
  have hbit : splitBit (flipBit heap.nodeStatus (c / 2)) (c / 2) = true ↔
      p (sibling c) := by
    rw [hencodes (c / 2) (by omega) (by omega)]
    have habsent := hmore.absent
    rcases eq_children_half htwo with ⟨hleft, hright⟩ | ⟨hright, hleft⟩
    · rw [← hright, ← hleft]
      grind
    · rw [← hright, ← hleft]
      grind
  have hsibling := hmore.of_ne (sibling_ne c)
  refine ⟨flipBit heap.nodeStatus (c / 2), ?_, ?_, ?_⟩
  · unfold settle
    refine Option.bind_eq_some_iff.mpr ⟨_, hflip, ?_⟩
    refine Option.bind_eq_some_iff.mpr ⟨_, hsplit, ?_⟩
    have hdecide : (splitBit (flipBit heap.nodeStatus (c / 2)) (c / 2) = true ∨
        b + 1 = heap.bucketLimit) ↔
        (b + 1 = arena.limit ∨ sibling c ∉ arena.free (b + 1)) := by
      rw [hbit, hlimit, ← hsibling, hused]
      grind
    simp only [decide_eq_decide.mpr hdecide]
  · intro hdone
    unfold Flags
    rw [← hstop hdone]
    exact hencodes
  · intro hdone
    unfold Flags
    rw [← hgo hdone]
    exact hencodes

/-- Writing the header keeps the simulation and stays inside the block. -/
theorem writeHeader_spec {request : Nat}
    (hsim : Sim platform heap arena (insert n marked)) (hn : n ∉ marked)
    (hb : AtLevel b n) (hroom : offset 31 b n + 2 ^ (31 - b) ≤ arena.top)
    (hrequest : request < 2 ^ 64)
    (hkept : kept ⊆ bytesOf heap.basePtr marked) :
    ∃ heap', writeHeader request (nodeAddr heap.basePtr b n) (n - 1) heap =
        some (nodeAddr heap.basePtr b n + 8, heap') ∧
      Sim platform heap' arena (insert n marked) ∧
      Effect platform kept guarded true heap heap' ∧
      heap'.nodeStatus = heap.nodeStatus ∧
      loadWord heap'.memory (nodeAddr heap.basePtr b n) = request := by
  have hlevel := hsim.shape.node_lt (Set.mem_insert n marked) hb
  have hbucket : b < bucketCount := by simpa using hlevel
  have hsize := sixteen_le_size hbucket
  have hbound := offset_bound hb hbucket
  have hlow := hsim.mapped.low
  have habove := hsim.mapped.above
  have hobtained := hsim.mapped.obtained
  have htop := hsim.top
  have haddr : nodeAddr heap.basePtr b n = heap.basePtr + offset 31 b n := rfl
  have hwrap : wrap (nodeAddr heap.basePtr b n + 8) =
      nodeAddr heap.basePtr b n + 8 := wrap_of_lt (by omega)
  -- The header is the first word of the block, which is taken.
  have houtside : ∀ y,
      y < nodeAddr heap.basePtr b n ∨ nodeAddr heap.basePtr b n + 8 ≤ y →
      (heap.store (nodeAddr heap.basePtr b n) request).memory y =
        heap.memory y := fun y hy => storeWord_outside hy
  refine ⟨heap.store (nodeAddr heap.basePtr b n) request, ?_, ?_, ?_, rfl,
    loadWord_storeWord_same hrequest⟩
  · unfold writeHeader
    simp only [headerSize, hwrap]
  · refine hsim.withMemory _ fun y hy => houtside y ?_
    by_contra hinside
    obtain ⟨x, hx, heq, hwithin⟩ := (mem_node_iff heap.basePtr
      (y := y) hb hlevel).mp (by omega)
    exact hy ⟨x, hx, heq, n, Set.mem_insert n marked, hwithin⟩
  · refine Effect.of_same rfl (fun y hy => houtside y ?_) (fun hlog => ?_)
      rfl rfl rfl
    · have hapart := taken_apart hsim.shape hn hb (hkept hy)
      omega
    · refine hlog.cons (Or.inr ⟨?_, ?_⟩)
      · omega
      · omega

/-- `free_1` finds the bucket of a block in its header. -/
theorem free1_eq {ptr request : Nat} (hptr : ptr + headerSize < 2 ^ 64)
    (htotal : wrap (request + headerSize) ≤ maxAlloc)
    (hlabel : loadWord heap.memory ptr = request) :
    free1 platform (ptr + headerSize) heap =
      giveBack platform settle ptr
        (bucketOf (wrap (request + headerSize))) heap := by
  have hsub : sizeSub (ptr + headerSize) headerSize = ptr := by
    rw [sizeSub_of_le (by simp) hptr, Nat.add_sub_cancel]
  have hbucket := bucketForRequest_eq htotal
  unfold free1
  rw [if_neg (by simp), hsub]
  simp only [hlabel, hbucket, Option.bind_eq_bind, Option.bind_some]

/-- `free_1` finds the bucket of a live block in its header. -/
theorem free1_live {request : Nat} (hsim : Sim platform heap arena marked)
    (htotal : wrap (request + headerSize) ≤ maxAlloc)
    (hn : AtLevel (bucketOf (wrap (request + headerSize))) n)
    (hlabel : loadWord heap.memory
      (nodeAddr heap.basePtr (bucketOf (wrap (request + headerSize))) n) =
        request) :
    free1 platform
        (nodeAddr heap.basePtr (bucketOf (wrap (request + headerSize))) n +
          headerSize) heap =
      giveBack platform settle
        (nodeAddr heap.basePtr (bucketOf (wrap (request + headerSize))) n)
        (bucketOf (wrap (request + headerSize))) heap := by
  have hbound := offset_bound hn (bucketOf_lt _)
  have hlow := hsim.mapped.low
  refine free1_eq ?_ htotal hlabel
  have hle := Nat.le_of_add_right_le hbound
  have hsize : headerSize = 8 := rfl
  unfold nodeAddr
  omega

/-- Handing out a free block opens its node. -/
theorem mark_take (hshape : arena.Shape marked) (hn : n ∈ arena.free b)
    (hflags : Flags heap.nodeStatus arena.limit marked) :
    ∃ status, markUnlessFirst flipParentIsSplit heap (n - 1) =
        some { heap with nodeStatus := status } ∧
      Flags status arena.limit (insert n marked) := by
  obtain ⟨hvacant, hb⟩ := (hshape.free_iff b n).mp hn
  obtain ⟨-, -, hlt⟩ := hshape.free_level hn
  exact mark_oneMore (hvacant.oneMore Nat.one_le_two_pow) hb.pos
    (node_lt hb (by simpa using hlt)) hflags

/-- Handing out the left half of a node opens the half. -/
theorem mark_split (hshape : arena.Shape (insert n marked)) (hn : n ∉ marked)
    (hb : AtLevel b n) (hlt : b + 1 < 28)
    (hflags : Flags heap.nodeStatus arena.limit (insert n marked)) :
    ∃ status, flipParentIsSplit heap (2 * n - 1) =
        some { heap with nodeStatus := status } ∧
      Flags status arena.limit (insert (2 * n) marked) := by
  have hpos := hb.pos
  have hhalf : 2 * n / 2 = n := by omega
  have hmore := Marking.oneMore_child (c := 2 * n)
    (by rw [hhalf]; exact hshape.marking) (by rwa [hhalf]) (by omega)
  rw [hhalf] at hmore
  refine ⟨_, flipParentIsSplit_eq _ (by omega)
    (node_lt hb.left (by simpa using hlt)), ?_⟩
  exact Encodes.add hmore (by omega) hflags

/-- Giving back the root of the whole tree. -/
theorem closing_root {status : Nat → Nat}
    (hshape : arena.Shape (insert 1 marked)) (hone : 1 ∉ marked)
    (hflags : Flags status arena.limit (insert 1 marked)) :
    Flags status arena.limit marked := by
  have hroot : 2 ^ arena.limit = 1 :=
    (hshape.marking.below 1 (Set.mem_insert 1 marked)).eq_one Nat.one_le_two_pow
  have hvacant := hshape.marking.vacant_of_insert hone (Or.inl hroot.symm)
  have hmore := hvacant.oneMore Nat.one_le_two_pow
  exact Encodes.of_one (fun _ hk => (hmore.of_ne hk).symm) hflags

/-- No bit is set in the empty table. -/
theorem flags_zero : Flags (fun _ => 0) 27 ∅ := by
  intro n _ _
  simp [splitBit, not_inUse_empty]

/-- The bookkeeping of `malloc_1` and `free_1`. -/
def bookkeeping (platform : Platform) : Bookkeeping platform where
  allocator := allocator1 platform
  round := growRound platform
  mark := flipParentIsSplit
  finish := writeHeader
  settle := settle
  highest := 0
  Tracked := Flags
  Opening status limit marked n := Flags status limit (insert n marked)
  Closing status limit marked n := Flags status limit (insert n marked)
  Freeable _ _ _ := True
  Label memory address request := loadWord memory address = request
  header_lt := Nat.lt_add_of_pos_right (show 0 < 8 from Nat.zero_lt_succ 7)
  highest_le := Nat.zero_le 1
  finish_first hne := absurd rfl hne
  label_congr hmemory hlabel := (loadWord_congr hmemory).trans hlabel
  tracked_zero := flags_zero
  malloc_eq _ _ _ := rfl
  free_eq hsim _ _ htotal _ hn hlabel := free1_live hsim htotal hn hlabel
  round_spec hsim hflags hlimit hkept hguarded :=
    growRound_spec hsim hflags hlimit hkept hguarded
  mark_take hshape hn hflags := mark_take hshape hn hflags
  mark_split hshape hn hb hlt hflags := mark_split hshape hn hb hlt hflags
  finish_spec hsim hn hb _ hroom hflags hrequest hkept :=
    have ⟨heap', hwrite, hsim', heffect, hstatus, hlabel⟩ :=
      writeHeader_spec hsim hn hb hroom hrequest hkept
    ⟨heap', hwrite, hsim', heffect, hstatus ▸ hflags, hlabel⟩
  closing _ _ hflags _ := hflags
  settle_spec hshape hc hb hlimit hflags :=
    settle_spec hshape hc hb hlimit hflags
  closing_root hshape hone hflags := closing_root hshape hone hflags

end Malloc1
end BuddyAlloc
end OsStuff
