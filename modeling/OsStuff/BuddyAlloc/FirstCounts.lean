import OsStuff.BuddyAlloc.Bare
import OsStuff.BuddyAlloc.StatusCounts

/-!
# The status of node `1`

`Counts` leaves node `1` out: nothing that the allocator decides depends on its
status, and once every block has been freed it may hold anything.  As long as
one block stays live, node `1` counts its children like every other node.  This
matters to a reader of `node_status` when the tree has grown to its full size
and node `1` is its root.
-/

namespace OsStuff
namespace BuddyAlloc
namespace Malloc2

open Library Library.DyadicTree

/-- Node `1` counts its children once it is the root. -/
def FirstCounts (status : Nat → Nat) (limit : Nat) (marked : Set Nat) : Prop :=
  limit = 0 → count status 1 = useCount (InUse marked (2 ^ limit)) 1

variable {platform : Platform} {heap : Heap} {arena : Arena}
  {status status' : Nat → Nat} {marked marked' kept guarded : Set Nat}
  {b n c l limit request : Nat} {grant : Nat → Bool} {client : Client}

namespace FirstCounts

/-- Nothing has to be shown while the root lies below node `1`. -/
theorem of_pos (hlimit : limit ≠ 0) : FirstCounts status limit marked :=
  fun h => absurd h hlimit

theorem of_empty (hzero : count status 1 = unused) :
    FirstCounts status limit ∅ := by
  intro _
  rw [hzero, eq_comm]
  exact useCount_eq_zero_iff.mpr ⟨not_inUse_empty, not_inUse_empty⟩

/-- Changes elsewhere do not matter. -/
theorem of_same (h : FirstCounts status limit marked)
    (hsame : count status' 1 = count status 1) :
    FirstCounts status' limit marked := by
  intro hlimit
  rw [hsame, h hlimit]

/-- A node comes into use and its parent counts it. -/
theorem take (h : FirstCounts status limit marked) (hbytes : Bytes status)
    (hmore : OneMore (InUse marked (2 ^ limit)) (InUse marked' (2 ^ limit)) n)
    (hn : 2 ≤ n) (hroom : n / 2 = 1 ∨ count status (n / 2) < 3) :
    FirstCounts (incCount status (n / 2)) limit marked' := by
  intro hlimit
  have hfirst := h hlimit
  by_cases hone : n / 2 = 1
  · have huse := useCount_half hmore hn
    have hle := useCount_le (InUse marked (2 ^ limit)) 1
    rw [hone] at huse ⊢
    rw [count_incCount_self hbytes (by omega), hfirst, huse]
  · rw [count_incCount_of_ne hbytes hroom (le_refl 1) (by omega) (by omega),
      useCount_of_ne hmore (by omega), hfirst]

/-- A node that its parent had counted goes out of use. -/
theorem give (h : FirstCounts status limit marked')
    (hcounts : Counts status limit marked' c)
    (hmore : OneMore (InUse marked (2 ^ limit)) (InUse marked' (2 ^ limit)) c)
    (hc : 2 ≤ c) (hpositive : 2 ≤ c / 2 → 0 < count status (c / 2)) :
    FirstCounts (decCount (setCount status c unused) (c / 2)) limit marked := by
  intro hlimit
  have hfirst := h hlimit
  have hbytes : Bytes (setCount status c unused) :=
    hcounts.bytes.setCount (by simp)
  have hsame : ∀ m, 1 ≤ m → m ≠ c →
      count (setCount status c unused) m = count status m := fun m hm hne =>
    count_setCount_of_ne hcounts.bytes (by simp) hm (by omega) hne
  by_cases hone : c / 2 = 1
  · have huse := useCount_half hmore hc
    rw [hone] at huse ⊢
    rw [count_decCount_self hbytes (by rw [hsame 1 (le_refl 1) (by omega)]; omega),
      hsame 1 (le_refl 1) (by omega), hfirst, huse, Nat.add_sub_cancel]
  · have hold := hpositive (by omega)
    rw [← hsame _ (by omega) (show c / 2 ≠ c by omega)] at hold
    rw [count_decCount_of_ne hbytes (Or.inr hold) (le_refl 1) (by omega)
        (by omega), hsame 1 (le_refl 1) (by omega), hfirst,
      useCount_of_ne hmore (by omega)]

end FirstCounts

/-- Only the mark of a root is left when the root is marked. -/
theorem marked_empty (hmarking : Marking (insert 1 marked) (2 ^ limit))
    (hone : 1 ∉ marked) : marked = ∅ := by
  have hroot : 2 ^ limit = 1 :=
    (hmarking.below 1 (Set.mem_insert 1 marked)).eq_one Nat.one_le_two_pow
  refine Set.eq_empty_iff_forall_notMem.mpr fun m hm => hone ?_
  have hm' := Set.mem_insert_of_mem 1 hm
  have hbelow := hmarking.below m hm'
  rw [hroot] at hbelow
  exact hmarking.apart m hm' 1 (Set.mem_insert 1 marked) hbelow ▸ hm

/-! ## The parts of the allocator -/

/-- What `node_status` says between calls as long as a block is live. -/
structure Rooted (status : Nat → Nat) (limit : Nat) (marked : Set Nat) : Prop
    where
  counts : Counts status limit marked 0
  idle : marked = ∅ → count status 1 = unused
  first : FirstCounts status limit marked

theorem Rooted.initial : Rooted (fun _ => 0) 27 ∅ where
  counts := Counts.initial
  idle _ := count_zero 1
  first := FirstCounts.of_pos (by omega)

/-- Growing sets the status of a new root over a used one. -/
theorem Rooted.grow (h : Rooted status arena.limit marked)
    (hshape : arena.Shape marked) (hlimit : arena.limit = l + 1)
    (hcounts : Counts status' (arena.grow grant).2.limit marked 0)
    (hstatus : status' = status ∧
        (marked = ∅ ∨ (arena.grow grant).2.limit = arena.limit) ∨
      marked ≠ ∅ ∧ (arena.grow grant).2.limit = l ∧
        status' = setCount status (2 ^ l) split) :
    Rooted status' (arena.grow grant).2.limit marked := by
  have hbytes := h.counts.bytes
  rcases hstatus with ⟨rfl, rfl | hsame⟩ | ⟨hmarked, hnext, rfl⟩
  · exact ⟨hcounts, h.idle, FirstCounts.of_empty (h.idle rfl)⟩
  · refine ⟨hcounts, h.idle, FirstCounts.of_pos ?_⟩
    omega
  · refine ⟨hcounts, fun hempty => absurd hempty hmarked, fun hzero => ?_⟩
    have hocc := hshape.occupied_root hmarked
    have hdouble : 2 ^ arena.limit = 2 * 2 ^ l := by
      rw [hlimit, Nat.pow_succ, Nat.mul_comm]
    have hmore := hshape.marking.oneMore_root_half (by
      have hpos := Nat.one_le_two_pow (n := l)
      omega) hocc
    have honly := useCount_root_half hdouble hocc
    rw [show 2 ^ arena.limit / 2 = 2 ^ l by omega] at hmore
    rw [hnext] at hzero ⊢
    subst hzero
    rw [Nat.pow_zero] at *
    rw [count_setCount_self hbytes (by simp), useCount_of_ne hmore (by omega),
      honly]
    rfl

/-- Handing out a free block opens its node. -/
theorem Rooted.take (h : Rooted heap.nodeStatus arena.limit marked)
    (hshape : arena.Shape marked) (hn : n ∈ arena.free b) :
    ∃ status, markUnlessFirst parentIncStatus heap (n - 1) =
        some { heap with nodeStatus := status } ∧
      (Counts status arena.limit (insert n marked) n ∧
        (2 ≤ n → count status n = unused)) ∧
      FirstCounts status arena.limit (insert n marked) := by
  obtain ⟨hvacant, hb⟩ := (hshape.free_iff b n).mp hn
  obtain ⟨-, -, hlt⟩ := hshape.free_level hn
  have hnlt := node_lt hb (show b < bucketCount by simpa using hlt)
  have hmore := hvacant.oneMore Nat.one_le_two_pow
  obtain ⟨status, hmark, hcounts⟩ := mark_take hshape hn h.counts
  refine ⟨status, hmark, hcounts, ?_⟩
  by_cases hone : n = 1
  · -- Node `1` itself has no parent, and no child of it comes into use.
    subst hone
    rw [markUnlessFirst, if_neg (by omega), Option.some.injEq] at hmark
    have hsame : heap.nodeStatus = status := congrArg Heap.nodeStatus hmark
    intro hlimit
    rw [← hsame, h.first hlimit, useCount_of_ne hmore (by omega)]
  · have htwo : 2 ≤ n := by
      have := hb.pos
      omega
    rw [markUnlessFirst, if_pos (by omega), parentIncStatus_eq _ htwo hnlt,
      Option.some.injEq] at hmark
    have hsame : incCount heap.nodeStatus (n / 2) = status :=
      congrArg Heap.nodeStatus hmark
    rw [← hsame]
    refine h.first.take h.counts.bytes hmore htwo ?_
    by_cases hhalf : n / 2 = 1
    · exact Or.inl hhalf
    · refine Or.inr (h.counts.room (by omega) (by omega) (fun hmem => ?_)
        (by omega))
      exact hvacant.not_within_marked hshape.marking Nat.one_le_two_pow hmem
        (within_half n)

/-- Handing out the left half of a node opens the half. -/
theorem Rooted.split (hshape : arena.Shape (insert n marked)) (hn : n ∉ marked)
    (hb : AtLevel b n) (hlt : b + 1 < 28)
    (hopening : (Counts heap.nodeStatus arena.limit (insert n marked) n ∧
      (2 ≤ n → count heap.nodeStatus n = unused)) ∧
      FirstCounts heap.nodeStatus arena.limit (insert n marked)) :
    ∃ status, parentIncStatus heap (2 * n - 1) =
        some { heap with nodeStatus := status } ∧
      (Counts status arena.limit (insert (2 * n) marked) (2 * n) ∧
        (2 ≤ 2 * n → count status (2 * n) = unused)) ∧
      FirstCounts status arena.limit (insert (2 * n) marked) := by
  obtain ⟨⟨hcounts, hopen⟩, hfirst⟩ := hopening
  have hpos := hb.pos
  have hhalf : 2 * n / 2 = n := by omega
  have hchild := node_lt hb.left (show b + 1 < bucketCount by simpa using hlt)
  have hmore := Marking.oneMore_child (c := 2 * n)
    (by rw [hhalf]; exact hshape.marking) (by rwa [hhalf]) (by omega)
  obtain ⟨status, hmark, hcounts'⟩ := mark_split hshape hn hb hlt hcounts hopen
  refine ⟨status, hmark, hcounts', ?_⟩
  rw [parentIncStatus_eq heap (by omega) hchild, Option.some.injEq] at hmark
  have hsame : incCount heap.nodeStatus (2 * n / 2) = status :=
    congrArg Heap.nodeStatus hmark
  rw [← hsame]
  rw [hhalf] at hmore
  refine hfirst.take hcounts.bytes hmore (by omega) ?_
  by_cases hone : n = 1
  · exact Or.inl (by omega)
  · rw [hhalf, hopen (by omega)]
    exact Or.inr (by simp)

/-- A round of `free_2` while another block stays live. -/
theorem Rooted.settle (hshape : arena.Shape (insert c marked)) (hc : c ∉ marked)
    (hb : AtLevel (b + 1) c) (hlimit : heap.bucketLimit = arena.limit)
    (hcounts : Counts heap.nodeStatus arena.limit (insert c marked) c)
    (hmarked : marked ≠ ∅)
    (hfirst : FirstCounts heap.nodeStatus arena.limit (insert c marked)) :
    ∃ status, Malloc2.settle (c - 1) (b + 1) heap =
        some (decide (b + 1 = arena.limit ∨ sibling c ∉ arena.free (b + 1)),
          { heap with nodeStatus := status }) ∧
      (b + 1 = arena.limit ∨ sibling c ∉ arena.free (b + 1) →
        Rooted status arena.limit marked) ∧
      (¬ (b + 1 = arena.limit ∨ sibling c ∉ arena.free (b + 1)) →
        Counts status arena.limit (insert (c / 2) marked) (c / 2) ∧
        marked ≠ ∅ ∧
        FirstCounts status arena.limit (insert (c / 2) marked)) := by
  have htwo := hb.two_le
  have hclt := hshape.depth c (Set.mem_insert c marked)
  obtain ⟨status, hsettle, hstop, hgo⟩ := settle_spec hshape hc hb hlimit hcounts
    (Or.inl hmarked)
  refine ⟨status, hsettle, fun hdone => ?_, fun hdone => ?_⟩
  · obtain ⟨hcounts', rfl⟩ := hstop hdone
    have hmore := hshape.oneMore_give hc hb hdone
    refine ⟨hcounts', fun hempty => absurd hempty hmarked, fun hzero => ?_⟩
    refine hfirst.give hcounts hmore htwo (fun hparent => ?_) hzero
    rw [hcounts.counted hshape.marking hclt hmore hparent (by
      rw [hzero, Nat.pow_zero]
      omega)]
    exact Nat.succ_pos _
  · obtain ⟨⟨hcounts', -⟩, rfl⟩ := hgo hdone
    have hfree : sibling c ∈ arena.free (b + 1) := by tauto
    obtain ⟨hmerged, hhalf⟩ := hshape.merge hc hb hfree
    refine ⟨hcounts', hmarked, fun hzero => ?_⟩
    -- Node `1` is only reached by merging when nothing else is live.
    have hone : c / 2 ≠ 1 := by
      intro hone
      rw [hone] at hmerged hhalf
      exact hmarked (marked_empty hmerged.marking hhalf)
    have hmore := hshape.oneMore_merge hc hb hfree
    rw [count_setCount_of_ne hcounts.bytes (by simp) (le_refl 1) (by omega)
      (by omega), hfirst hzero, useCount_of_ne hmore hone.symm]

/-- `mark_used` keeps the first counter exact. -/
theorem Rooted.finish {platform : Platform} {heap : Heap} {arena : Arena}
    {marked : Set Nat} {b n : Nat}
    (hsim : Sim platform heap arena (insert n marked)) (hb : AtLevel b n)
    (hhighest : 1 ≤ b)
    (hcounts : Counts heap.nodeStatus arena.limit (insert n marked) n)
    (hfirst : FirstCounts heap.nodeStatus arena.limit (insert n marked))
    (result : Nat) {kept guarded : Set Nat} :
    ∃ heap', markUsed result (n - 1) heap = some (result, heap') ∧
      Sim platform heap' arena (insert n marked) ∧
      Effect platform kept guarded true heap heap' ∧
      Rooted heap'.nodeStatus arena.limit (insert n marked) ∧ True := by
  obtain ⟨heap', hmark, hsim', heffect, hcounts', hstatus⟩ :=
    markUsed_spec hsim hb hhighest hcounts result
  refine ⟨heap', hmark, hsim', heffect, ⟨hcounts', fun hempty => ?_, ?_⟩,
    trivial⟩
  · exact absurd hempty (Set.insert_nonempty _ _).ne_empty
  · refine hfirst.of_same ?_
    have htwo := (Nat.pow_le_pow_right (show 0 < 2 by omega) hhighest).trans hb.1
    rw [hstatus, count_setCount_of_ne hcounts.bytes (by simp) (le_refl 1)
      (by omega) (by omega)]

/-- The bookkeeping of `malloc_2` and `free_2` as long as a block is live. -/
def rootedBookkeeping (platform : Platform) : Bookkeeping platform where
  allocator := allocator2 platform
  round := growRound platform
  mark := parentIncStatus
  finish _ := markUsed
  settle := Malloc2.settle
  highest := 1
  Tracked := Rooted
  Opening status limit marked n :=
    (Counts status limit (insert n marked) n ∧
      (2 ≤ n → count status n = unused)) ∧
    FirstCounts status limit (insert n marked)
  Closing status limit marked n :=
    Counts status limit (insert n marked) n ∧ marked ≠ ∅ ∧
    FirstCounts status limit (insert n marked)
  Freeable _ _ marked := marked ≠ ∅
  Label _ _ _ := True
  header_lt := header_lt platform
  highest_le := Nat.zero_lt_one
  finish_first _ _ ptr heap := markUsed_first ptr heap
  label_congr _ hlabel := hlabel
  tracked_zero := Rooted.initial
  malloc_eq := malloc_eq platform
  free_eq hsim hrooted hn _ hhighest hb _ :=
    free2_eq hsim hrooted.counts hn hhighest hb
  round_spec hsim hrooted hlimit hkept hguarded :=
    have ⟨heap', hround, hsim', heffect, hcounts, hstatus⟩ :=
      growRound_spec hsim hrooted.counts hlimit hkept hguarded
    ⟨heap', hround, hsim', heffect,
      hrooted.grow hsim.shape hlimit hcounts hstatus⟩
  mark_take hshape hn hrooted := hrooted.take hshape hn
  mark_split hshape hn hb hlt hopening := Rooted.split hshape hn hb hlt hopening
  finish_spec hsim _ hb hhighest _ hopening _ _ :=
    Rooted.finish hsim hb hhighest hopening.1.1 hopening.2 _
  closing _ _ hrooted hfreeable :=
    ⟨hrooted.counts.exempt _, hfreeable, hrooted.first⟩
  settle_spec hshape hc hb hlimit hclosing :=
    Rooted.settle hshape hc hb hlimit hclosing.1 hclosing.2.1 hclosing.2.2
  closing_root hshape hone hclosing :=
    absurd (marked_empty hshape.marking hone) hclosing.2.1

end Malloc2
end BuddyAlloc
end OsStuff
