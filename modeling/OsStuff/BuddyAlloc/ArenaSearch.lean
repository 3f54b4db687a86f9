import OsStuff.BuddyAlloc.Arena

/-!
# The search of the arena

What the search for a free node finds: the last free node of the smallest
sufficient size, or nothing at all when the tree cannot grow any more and has no
free node of that size.  When the system refuses memory the search leaves an
arena from which a search with memory ends as it would have ended at once.

Arenas are compared without `asked`, which counts requests and has no influence
once every request is granted.
-/

namespace OsStuff
namespace BuddyAlloc

open Library.DyadicTree

namespace Arena

/-- The system grants every request. -/
def granting (_ : Nat) : Bool := true

/-- Two arenas that differ in the number of requests at most. -/
structure Same (arena arena' : Arena) : Prop where
  limit : arena.limit = arena'.limit
  top : arena.top = arena'.top
  free : arena.free = arena'.free

variable {arena arena' arena₁ arena₂ : Arena} {marked : Set Nat}
  {b d n target count rounds bytes : Nat} {grant : Nat → Bool}

theorem Same.refl (arena : Arena) : Same arena arena := ⟨rfl, rfl, rfl⟩

theorem Same.trans (h : Same arena arena') (h' : Same arena' arena₁) :
    Same arena arena₁ :=
  ⟨h.limit.trans h'.limit, h.top.trans h'.top, h.free.trans h'.free⟩

theorem Same.push (h : Same arena arena') :
    Same (arena.push b n) (arena'.push b n) :=
  ⟨h.limit, h.top, by unfold Arena.push; simp only [h.free]⟩

theorem Same.drop (h : Same arena arena') :
    Same (arena.drop b n) (arena'.drop b n) :=
  ⟨h.limit, h.top, by unfold Arena.drop; simp only [h.free]⟩

theorem Same.raise (h : Same arena arena') : Same arena.raise arena'.raise :=
  ⟨by unfold Arena.raise; simp only [h.limit], h.top,
    by unfold Arena.raise; simp only [h.free, h.limit]⟩

theorem Same.lift (h : Same arena arena') : Same arena.lift arena'.lift := by
  unfold Arena.lift
  rw [h.limit]
  exact h.drop.raise.push

theorem Same.openRight (h : Same arena arena') :
    Same arena.openRight arena'.openRight := by
  unfold Arena.openRight
  rw [h.limit]
  exact h.push.raise

/-! ## Requests -/

/-- A request that is granted. -/
theorem reserve_granting : (arena.reserve granting bytes).1 = true := by
  unfold reserve granting
  split <;> rfl

theorem Same.reserve (h : Same arena arena') :
    Same (arena.reserve granting bytes).2 (arena'.reserve granting bytes).2 := by
  refine ⟨?_, ?_, ?_⟩
  · rw [reserve_limit, reserve_limit, h.limit]
  · rw [reserve_top _ _ _ reserve_granting, reserve_top _ _ _ reserve_granting, h.top]
  · rw [reserve_free, reserve_free, h.free]

/-- A request that is granted does the same whoever grants it. -/
theorem reserve_same (hok : (arena.reserve grant bytes).1 = true) :
    Same (arena.reserve grant bytes).2 (arena.reserve granting bytes).2 := by
  refine ⟨?_, ?_, ?_⟩
  · rw [reserve_limit, reserve_limit]
  · rw [reserve_top _ _ _ hok, reserve_top _ _ _ reserve_granting]
  · rw [reserve_free, reserve_free]

/-- A request that is refused does nothing. -/
theorem reserve_refused (hno : (arena.reserve grant bytes).1 = false) :
    Same (arena.reserve grant bytes).2 arena :=
  ⟨reserve_limit _ _ _, (reserve_spec grant bytes arena).2.2.2.2 hno, reserve_free⟩

/-! ## Growth -/

theorem grow_granting : (arena.grow granting).1 = true := by
  by_cases hroot : 2 ^ arena.limit ∈ arena.free arena.limit
  · rw [grow_of_free hroot]
  · rw [grow_of_used hroot, if_pos reserve_granting]

theorem Same.grow (h : Same arena arena') :
    Same (arena.grow granting).2 (arena'.grow granting).2 := by
  by_cases hroot : 2 ^ arena.limit ∈ arena.free arena.limit
  · have hroot' : 2 ^ arena'.limit ∈ arena'.free arena'.limit := by
      rwa [← h.limit, ← h.free]
    rw [grow_of_free hroot, grow_of_free hroot']
    exact h.lift
  · have hroot' : 2 ^ arena'.limit ∉ arena'.free arena'.limit := by
      rwa [← h.limit, ← h.free]
    rw [grow_of_used hroot, grow_of_used hroot', if_pos reserve_granting,
      if_pos reserve_granting, h.limit]
    exact h.reserve.openRight

/-- Growth that succeeds is the same whoever grants the memory. -/
theorem grow_same (hok : (arena.grow grant).1 = true) :
    Same (arena.grow grant).2 (arena.grow granting).2 := by
  by_cases hroot : 2 ^ arena.limit ∈ arena.free arena.limit
  · rw [grow_of_free hroot, grow_of_free hroot]
    exact Same.refl _
  · rw [grow_of_used hroot] at hok ⊢
    rw [grow_of_used hroot, if_pos reserve_granting]
    split at hok
    · rename_i hgranted
      rw [if_pos hgranted]
      exact (reserve_same hgranted).openRight
    · exact absurd hok (by simp)

/-- Growth that is refused does nothing. -/
theorem grow_refused (hno : (arena.grow grant).1 = false) :
    Same (arena.grow grant).2 arena := by
  by_cases hroot : 2 ^ arena.limit ∈ arena.free arena.limit
  · rw [grow_of_free hroot] at hno
    exact absurd hno (by simp)
  · rw [grow_of_used hroot] at hno ⊢
    split at hno
    · exact absurd hno (by simp)
    · rename_i hrefused
      rw [if_neg hrefused]
      exact reserve_refused (by simpa using hrefused)

/-- One round of growth followed by the others. -/
theorem growBy_succ : arena.growBy grant (rounds + 1) =
    if (arena.grow grant).1 then (arena.grow grant).2.growBy grant rounds
    else (false, (arena.grow grant).2) := by
  conv_lhs => unfold growBy
  rcases arena.grow grant with ⟨granted, arena'⟩
  cases granted <;> rfl

theorem growBy_granting : (arena.growBy granting rounds).1 = true := by
  induction rounds generalizing arena with
  | zero => rfl
  | succ rounds ih =>
      rw [growBy_succ, if_pos grow_granting]
      exact ih

theorem Same.growBy (h : Same arena arena') :
    Same (arena.growBy granting rounds).2 (arena'.growBy granting rounds).2 := by
  induction rounds generalizing arena arena' with
  | zero => exact h
  | succ rounds ih =>
      rw [growBy_succ, growBy_succ, if_pos grow_granting, if_pos grow_granting]
      exact ih h.grow

/-- Growth that stopped half-way is taken up where it stopped. -/
theorem growBy_resume (hrounds : arena.limit - b = rounds) :
    Same ((arena.growBy grant rounds).2.growTo granting b).2
      (arena.growTo granting b).2 := by
  induction rounds generalizing arena with
  | zero => exact Same.refl _
  | succ rounds ih =>
      rw [growBy_succ]
      cases hgrow : (arena.grow grant).1 with
      | false =>
          have hsame := grow_refused hgrow
          rw [if_neg (by simp)]
          unfold growTo
          rw [hsame.limit]
          exact hsame.growBy
      | true =>
          have hlimit := grow_limit _ _ hgrow
          rw [if_pos rfl]
          refine (ih (by omega)).trans ?_
          unfold growTo
          rw [hlimit, hrounds, growBy_succ, if_pos grow_granting,
            show arena.limit - 1 - b = rounds by omega]
          exact (grow_same hgrow).growBy

theorem growTo_resume :
    Same ((arena.growTo grant b).2.growTo granting b).2
      (arena.growTo granting b).2 :=
  growBy_resume rfl

theorem growTo_granting (arena : Arena) :
    arena.growTo granting b = (true, (arena.growTo granting b).2) :=
  Prod.ext growBy_granting rfl

theorem Same.growTo (h : Same arena arena') :
    Same (arena.growTo granting b).2 (arena'.growTo granting b).2 := by
  unfold Arena.growTo
  rw [h.limit]
  exact h.growBy

/-- No growth is needed for a level of the tree. -/
theorem growTo_of_le (grant : Nat → Bool) (hle : arena.limit ≤ b) :
    arena.growTo grant b = (true, arena) := by
  unfold growTo
  rw [Nat.sub_eq_zero_of_le hle]
  rfl

/-! ## Claiming -/

/-- Splitting keeps the leftmost part. -/
theorem splitBy_fst (rounds : Nat) (arena : Arena) :
    (splitBy rounds b n arena).1 = n * 2 ^ rounds := by
  induction rounds generalizing b n arena with
  | zero => simp [splitBy]
  | succ rounds ih =>
      unfold splitBy
      rw [ih, Nat.pow_succ]
      ring

theorem splitBy_limit : (splitBy rounds b n arena).2.limit = arena.limit := by
  induction rounds generalizing b n arena with
  | zero => rfl
  | succ rounds ih =>
      unfold splitBy
      rw [ih, push_limit]

theorem Same.splitBy (h : Same arena arena') :
    Same (splitBy rounds b n arena).2 (splitBy rounds b n arena').2 := by
  induction rounds generalizing b n arena arena' with
  | zero => exact h
  | succ rounds ih =>
      unfold Arena.splitBy
      exact ih h.push

/-- The memory that a claim asks for. -/
def claimed (grant : Nat → Bool) (target b n : Nat) (arena : Arena) :
    Bool × Arena :=
  (arena.drop b n).reserve grant (offset 31 b n + needed b target)

theorem claim_granted (hok : (arena.claimed grant target b n).1 = true) :
    arena.claim grant target b n =
      (some (n * 2 ^ (target - b)),
        (splitBy (target - b) b n (arena.claimed grant target b n).2).2) := by
  have hfst := splitBy_fst (target - b) (arena.claimed grant target b n).2
    (b := b) (n := n)
  unfold claim
  unfold claimed at hok hfst ⊢
  rcases hreserve : (arena.drop b n).reserve grant
    (offset 31 b n + needed b target) with ⟨granted, arena'⟩
  rw [hreserve] at hok hfst
  obtain rfl : granted = true := hok
  simp only at hfst
  simp only [hfst]

theorem claim_refused (hno : (arena.claimed grant target b n).1 = false) :
    arena.claim grant target b n =
      (none, (arena.claimed grant target b n).2.push b n) := by
  unfold claim
  unfold claimed at hno ⊢
  rcases hreserve : (arena.drop b n).reserve grant
    (offset 31 b n + needed b target) with ⟨granted, arena'⟩
  rw [hreserve] at hno
  obtain rfl : granted = false := hno
  rfl

/-- A claim whose memory is granted hands out the leftmost part of the node. -/
theorem claim_granting :
    (arena.claim granting target b n).1 = some (n * 2 ^ (target - b)) ∧
      (arena.claim granting target b n).2.limit = arena.limit := by
  rw [claim_granted reserve_granting]
  refine ⟨rfl, ?_⟩
  rw [splitBy_limit]
  exact reserve_limit _ _ _

theorem Same.claim (h : Same arena arena') :
    (arena.claim granting target b n).1 = (arena'.claim granting target b n).1 ∧
      Same (arena.claim granting target b n).2
        (arena'.claim granting target b n).2 := by
  rw [claim_granted reserve_granting, claim_granted reserve_granting]
  exact ⟨rfl, h.drop.reserve.splitBy⟩

/-- Taking the last free node of a level and giving it back changes nothing,
if the outcome lists it once. -/
theorem drop_push_last (hlast : (arena.free b).getLast? = some n)
    (hnodup : (((arena.drop b n).push b n).free b).Nodup) :
    Same ((arena.drop b n).push b n) arena := by
  obtain ⟨front, hfront⟩ := List.getLast?_eq_some_iff.mp hlast
  rw [push_free_self, drop_free_self, hfront, List.nodup_append] at hnodup
  have hnot : n ∉ front := by
    intro hmem
    refine hnodup.2.2 n ?_ n (by simp) rfl
    rw [List.erase_append_left _ hmem]
    simp
  have herase : (arena.free b).erase n ++ [n] = arena.free b := by
    rw [hfront, List.erase_append_right _ hnot]
    simp
  refine ⟨rfl, rfl, ?_⟩
  unfold Arena.push drop
  simp only [Function.update_self, Function.update_idem, herase]
  exact Function.update_eq_self _ _

/-- A claim that is refused changes nothing. -/
theorem claim_refused_same (hlast : (arena.free b).getLast? = some n)
    (hnone : (arena.claim grant target b n).1 = none)
    (hnodup : ((arena.claim grant target b n).2.free b).Nodup) :
    Same (arena.claim grant target b n).2 arena := by
  cases hclaimed : (arena.claimed grant target b n).1 with
  | true =>
      rw [claim_granted hclaimed] at hnone
      exact absurd hnone (by simp)
  | false =>
      have hsame : Same ((arena.claimed grant target b n).2.push b n)
          ((arena.drop b n).push b n) := (reserve_refused hclaimed).push
      rw [claim_refused hclaimed] at hnodup ⊢
      simp only [hsame.free] at hnodup
      exact hsame.trans (drop_push_last hlast hnodup)

/-! ## One round of the search -/

/-- The search goes on with the next larger size. -/
def Passes (b : Nat) (arena : Arena) : Prop := b ≠ arena.limit ∨ b = 0

theorem search_refused (hgrow : arena.growTo grant b = (false, arena₁)) :
    arena.search grant target (b + 1) = (none, arena₁) := by
  unfold search
  simp only [hgrow]

theorem search_found (hgrow : arena.growTo grant b = (true, arena₁))
    (hlast : (arena₁.free b).getLast? = some n) :
    arena.search grant target (b + 1) = arena₁.claim grant target b n := by
  unfold search
  simp only [hgrow, hlast]

theorem search_pass (hgrow : arena.growTo grant b = (true, arena₁))
    (hlast : (arena₁.free b).getLast? = none) (hpass : Passes b arena₁) :
    arena.search grant target (b + 1) = arena₁.search grant target b := by
  conv_lhs => unfold search
  simp only [hgrow, hlast]
  exact if_pos hpass

theorem search_root_refused (hgrow : arena.growTo grant b = (true, arena₁))
    (hlast : (arena₁.free b).getLast? = none) (hpass : ¬ Passes b arena₁)
    (hgrow₂ : arena₁.growTo grant (b - 1) = (false, arena₂)) :
    arena.search grant target (b + 1) = (none, arena₂) := by
  unfold search
  simp only [hgrow, hlast, hgrow₂]
  exact if_neg hpass

theorem search_root (hgrow : arena.growTo grant b = (true, arena₁))
    (hlast : (arena₁.free b).getLast? = none) (hpass : ¬ Passes b arena₁)
    (hgrow₂ : arena₁.growTo grant (b - 1) = (true, arena₂)) :
    (arena₂.free b).getLast? = some (2 ^ b + 1) ∧
      arena.search grant target (b + 1) =
        arena₂.claim grant target b (2 ^ b + 1) := by
  have hlimit : arena₁.limit = b ∧ b ≠ 0 := by
    unfold Passes at hpass
    omega
  have hright := getLast_growTo_pred grant hlimit.1 hlimit.2 hlast
  rw [hgrow₂] at hright
  refine ⟨hright rfl, ?_⟩
  unfold search
  simp only [hgrow, hlast, hgrow₂, hright rfl]
  exact if_neg hpass

/-! ## What the search finds -/

/-- Empty levels above the root are passed. -/
theorem search_descend (k : Nat) (hlimit : arena.limit ≤ b)
    (hempty : ∀ d, b < d → d ≤ b + k → arena.free d = []) :
    arena.search grant target (b + k + 1) =
      arena.search grant target (b + 1) := by
  induction k with
  | zero => rfl
  | succ k ih =>
      rw [← ih fun d hd hd' => hempty d hd (by omega)]
      refine search_pass (growTo_of_le _ (by omega)) ?_ (Or.inl (by omega))
      rw [hempty (b + (k + 1)) (by omega) (le_refl _)]
      rfl

theorem alloc_descend (hb : b ≤ target) (hlimit : arena.limit ≤ b)
    (hempty : ∀ d, b < d → d ≤ target → arena.free d = []) :
    arena.alloc grant target = arena.search grant target (b + 1) := by
  obtain ⟨k, rfl⟩ := Nat.exists_eq_add_of_le hb
  exact search_descend k hlimit hempty

/-- The last free node of the smallest sufficient size is claimed. -/
theorem alloc_best_fit (hb : b ≤ target) (hlimit : arena.limit ≤ b)
    (hempty : ∀ d, b < d → d ≤ target → arena.free d = [])
    (hlast : (arena.free b).getLast? = some n) :
    arena.alloc grant target = arena.claim grant target b n := by
  rw [alloc_descend hb hlimit hempty]
  exact search_found (growTo_of_le _ hlimit) hlast

/-- A search with memory fails only when the tree has its full size and no
free node is large enough. -/
theorem search_none (hcount : arena.limit ≤ count - 1 ∨ count = target + 1)
    (hempty : ∀ d, count ≤ d → d ≤ target → arena.free d = [])
    (hnone : (arena.search granting target count).1 = none) :
    (arena.search granting target count).2.limit = 0 ∧
      ∀ d, d ≤ target → (arena.search granting target count).2.free d = [] := by
  induction count generalizing arena with
  | zero =>
      refine ⟨?_, fun d hd => hempty d (Nat.zero_le d) hd⟩
      change arena.limit = 0
      omega
  | succ b ih =>
      obtain ⟨arena₁, hgrow⟩ : ∃ arena₁,
          arena.growTo granting b = (true, arena₁) := ⟨_, growTo_granting _⟩
      have hlimit := growTo_limit arena granting (b := b)
      rw [hgrow] at hlimit
      have hle := hlimit rfl
      simp only at hle
      cases hlast : (arena₁.free b).getLast? with
      | some n =>
          rw [search_found hgrow hlast, claim_granting.1] at hnone
          exact absurd hnone (by simp)
      | none =>
          by_cases hpass : Passes b arena₁
          · rw [search_pass hgrow hlast hpass] at hnone ⊢
            unfold Passes at hpass
            refine ih (Or.inl (by omega)) (fun d hd hd' => ?_) hnone
            rcases Nat.eq_or_lt_of_le hd with rfl | hlt
            · exact List.getLast?_eq_none_iff.mp hlast
            · -- The tree has not grown, as this is not the first round.
              have hstays := growTo_of_le granting
                (show arena.limit ≤ b by omega)
              rw [hgrow] at hstays
              obtain rfl := (Prod.mk.inj hstays).2
              exact hempty d (by omega) hd'
          · obtain ⟨-, hsearch⟩ := search_root hgrow hlast
              hpass (growTo_granting _)
            rw [hsearch, claim_granting.1] at hnone
            exact absurd hnone (by simp)

theorem alloc_none (hnone : (arena.alloc granting target).1 = none) :
    (arena.alloc granting target).2.limit = 0 ∧
      ∀ d, d ≤ target → (arena.alloc granting target).2.free d = [] :=
  search_none (Or.inr rfl) (fun d hd hd' => absurd hd' (by omega)) hnone

/-! ## Searching again -/

/-- Two searches with the same result. -/
def SameResult (outcome outcome' : Option Nat × Arena) : Prop :=
  outcome.1 = outcome'.1 ∧ Same outcome.2 outcome'.2

theorem SameResult.trans {outcome outcome' outcome₁ : Option Nat × Arena}
    (h : SameResult outcome outcome') (h' : SameResult outcome' outcome₁) :
    SameResult outcome outcome₁ :=
  ⟨h.1.trans h'.1, h.2.trans h'.2⟩

/-- Searches from arenas that become the same by growth have the same
result. -/
theorem search_same (h : Same (arena.growTo granting b).2
      (arena'.growTo granting b).2) :
    SameResult (arena.search granting target (b + 1))
      (arena'.search granting target (b + 1)) := by
  induction b generalizing arena arena' with
  -- The arenas need to agree only once they have grown to the level, which is where a round
  -- begins.
  | zero =>
      have hgrow := growTo_granting arena (b := 0)
      have hgrow' := growTo_granting arena' (b := 0)
      cases hlast : ((arena.growTo granting 0).2.free 0).getLast? with
      | some n =>
          rw [search_found hgrow hlast,
            search_found hgrow' (by rw [← h.free]; exact hlast)]
          exact h.claim
      | none =>
          rw [search_pass hgrow hlast (Or.inr rfl),
            search_pass hgrow' (by rw [← h.free]; exact hlast) (Or.inr rfl)]
          exact ⟨rfl, h⟩
  | succ b ih =>
      have hgrow := growTo_granting arena (b := b + 1)
      have hgrow' := growTo_granting arena' (b := b + 1)
      cases hlast : ((arena.growTo granting (b + 1)).2.free (b + 1)).getLast? with
      | some n =>
          rw [search_found hgrow hlast,
            search_found hgrow' (by rw [← h.free]; exact hlast)]
          exact h.claim
      | none =>
          have hlast' :
              ((arena'.growTo granting (b + 1)).2.free (b + 1)).getLast? =
                none := by
            rw [← h.free]
            exact hlast
          by_cases hpass : Passes (b + 1) (arena.growTo granting (b + 1)).2
          · have hpass' : Passes (b + 1) (arena'.growTo granting (b + 1)).2 := by
              unfold Passes at hpass ⊢
              rwa [← h.limit]
            rw [search_pass hgrow hlast hpass, search_pass hgrow' hlast' hpass']
            exact ih h.growTo
          · have hpass' : ¬ Passes (b + 1)
                (arena'.growTo granting (b + 1)).2 := by
              unfold Passes at hpass ⊢
              rwa [← h.limit]
            rw [(search_root hgrow hlast hpass (growTo_granting _)).2,
              (search_root hgrow' hlast' hpass' (growTo_granting _)).2]
            exact h.growTo.claim

/-- A search that goes on from the tree as it has grown. -/
theorem search_grown (arena : Arena) (grant : Nat → Bool) (target : Nat) :
    SameResult ((arena.growTo grant b).2.search granting target (b + 1))
      (arena.search granting target (b + 1)) :=
  search_same growTo_resume

theorem alloc_same (h : Same arena arena') :
    SameResult (arena.alloc granting target) (arena'.alloc granting target) :=
  search_same h.growTo

/-- Growth at the root leaves the free nodes of lower levels alone. -/
theorem grow_free (hnone : (arena.free arena.limit).getLast? = none)
    (hok : (arena.grow grant).1 = true) (hd : arena.limit < d) :
    (arena.grow grant).2.free d = arena.free d := by
  rw [List.getLast?_eq_none_iff] at hnone
  have hroot : 2 ^ arena.limit ∉ arena.free arena.limit := by simp [hnone]
  rw [grow_of_used hroot] at hok ⊢
  split at hok
  · rename_i hgranted
    rw [if_pos hgranted]
    unfold Arena.openRight raise
    simp only [push_limit, reserve_limit]
    rw [Function.update_of_ne (by omega), push_free_of_ne (by omega),
      reserve_free]
  · exact absurd hok (by simp)

/-- Where a search has failed, a search with memory ends as it would have ended
in the first place. -/
theorem search_retry (hbound : count ≤ target + 1)
    (hcount : arena.limit ≤ count - 1 ∨ count = target + 1)
    (hempty : ∀ d, count ≤ d → d ≤ target → arena.free d = [])
    (hnone : (arena.search grant target count).1 = none)
    (hnodup : ∀ d, ((arena.search grant target count).2.free d).Nodup) :
    SameResult ((arena.search grant target count).2.alloc granting target)
      (arena.search granting target count) := by
  induction count generalizing arena with
  | zero =>
      have hlimit : arena.limit ≤ 0 := by omega
      change SameResult (arena.alloc granting target) (none, arena)
      rw [alloc_descend (Nat.zero_le target) hlimit
          (fun d _ hd => hempty d (Nat.zero_le d) hd),
        search_pass (growTo_of_le _ hlimit) ?_ (Or.inr rfl)]
      · exact ⟨rfl, Same.refl _⟩
      · rw [hempty 0 (le_refl 0) (Nat.zero_le target)]
        rfl
  | succ b ih =>
      -- Only the first round lets the tree grow to a lower level.
      have hfirst : b = target ∨ arena.growTo grant b = (true, arena) := by
        by_cases hb : b = target
        · exact Or.inl hb
        · exact Or.inr (growTo_of_le _ (by omega))
      rcases hgrow : arena.growTo grant b with ⟨granted, arena₁⟩
      have hgrown := search_grown arena grant target (b := b)
      rw [hgrow] at hgrown
      simp only at hgrown
      cases granted with
      | false =>
          have hb : b = target := hfirst.resolve_right (by simp [hgrow])
          subst hb
          rw [search_refused hgrow]
          exact hgrown
      | true =>
          have hlimit := growTo_limit arena grant (b := b)
          rw [hgrow] at hlimit
          have hle := hlimit rfl
          simp only at hle
          have hempty₁ : ∀ d, b < d → d ≤ target → arena₁.free d = [] := by
            intro d hd hd'
            rcases hfirst with rfl | hstays
            · omega
            · rw [hgrow] at hstays
              obtain rfl := (Prod.mk.inj hstays).2
              exact hempty d (by omega) hd'
          have hrestart : SameResult (arena₁.alloc granting target)
              (arena.search granting target (b + 1)) := by
            rw [alloc_descend (by omega) (by omega) hempty₁]
            exact hgrown
          cases hlast : (arena₁.free b).getLast? with
          | some n =>
              rw [search_found hgrow hlast] at hnone hnodup ⊢
              exact (alloc_same
                (claim_refused_same hlast hnone (hnodup b))).trans hrestart
          | none =>
              by_cases hpass : Passes b arena₁
              · rw [search_pass hgrow hlast hpass] at hnone hnodup ⊢
                have hagain := ih (by omega)
                  (by unfold Passes at hpass; omega)
                  (fun d hd hd' => by
                    rcases Nat.eq_or_lt_of_le hd with rfl | hlt
                    · exact List.getLast?_eq_none_iff.mp hlast
                    · exact hempty₁ d hlt hd') hnone hnodup
                rw [search_pass (growTo_of_le _ (by omega)) hlast hpass] at hgrown
                exact hagain.trans hgrown
              · have hroot : arena₁.limit = b ∧ b ≠ 0 := by
                  unfold Passes at hpass
                  omega
                rcases hgrow₂ : arena₁.growTo grant (b - 1) with
                  ⟨granted₂, arena₂⟩
                have hpred := growTo_pred grant hroot.1 hroot.2
                rw [hgrow₂] at hpred
                cases granted₂ with
                | false =>
                    rw [search_root_refused hgrow hlast hpass hgrow₂]
                    have hsame := grow_refused (by rw [← hpred])
                    rw [← hpred] at hsame
                    exact (alloc_same hsame).trans hrestart
                | true =>
                    obtain ⟨hright, hsearch⟩ :=
                      search_root hgrow hlast hpass hgrow₂
                    rw [hsearch] at hnone hnodup ⊢
                    have hsame := claim_refused_same hright hnone (hnodup b)
                    refine (alloc_same hsame).trans ?_
                    have hlimit₂ : arena₂.limit = b - 1 := by
                      have h := grow_limit _ _
                        (by rw [← hpred])
                      rw [← hpred] at h
                      simp only at h
                      omega
                    rw [alloc_best_fit (by omega) (by omega) ?_ hright]
                    · have hstep := grow_same
                        (by rw [← hpred])
                      rw [← hpred, ← growTo_pred _ hroot.1 hroot.2] at hstep
                      rw [(search_root (growTo_of_le _ (by omega)) hlast hpass
                        (growTo_granting _)).2] at hgrown
                      exact SameResult.trans hstep.claim hgrown
                    · intro d hd hd'
                      have hfree := grow_free
                        (d := d) (by rw [hroot.1]; exact hlast)
                        (by rw [← hpred]) (by omega)
                      rw [← hpred] at hfree
                      exact hfree.trans (hempty₁ d hd hd')

/-- A failed search followed by one with memory gives what one with memory
gives. -/
theorem alloc_retry (hnone : (arena.alloc grant target).1 = none)
    (hnodup : ∀ d, ((arena.alloc grant target).2.free d).Nodup) :
    SameResult ((arena.alloc grant target).2.alloc granting target)
      (arena.alloc granting target) :=
  search_retry (le_refl _) (Or.inr rfl)
    (fun d hd hd' => absurd hd' (by omega)) hnone hnodup

/-! ## The whole arena as one block -/

/-- In a tree that is in use growth frees no root. -/
theorem growBy_root_nil (hnil : arena.free arena.limit = [])
    (hok : (arena.growBy grant rounds).1 = true) :
    (arena.growBy grant rounds).2.free (arena.growBy grant rounds).2.limit =
      [] := by
  induction rounds generalizing arena with
  | zero => exact hnil
  | succ rounds ih =>
      have hroot : 2 ^ arena.limit ∉ arena.free arena.limit := by
        rw [hnil]
        exact List.not_mem_nil
      rw [growBy_succ] at hok ⊢
      cases hgrow : (arena.grow grant).1 with
      | false =>
          rw [hgrow] at hok
          exact absurd hok (by simp)
      | true =>
          rw [if_pos hgrow] at hok
          rw [if_pos rfl]
          refine ih ?_ hok
          rw [grow_of_used hroot] at hgrow ⊢
          by_cases hgranted : (arena.reserve grant (rightEnd arena.limit)).1
          · rw [if_pos hgranted]
            simp [openRight, raise]
          · rw [if_neg hgranted] at hgrow
            exact absurd hgrow (by simp)

/-- A free tree grows without asking for memory. -/
theorem growBy_free (hroot : 2 ^ arena.limit ∈ arena.free arena.limit) :
    (arena.growBy grant rounds).1 = true ∧
      (arena.growBy grant rounds).2.top = arena.top ∧
      (arena.growBy grant rounds).2.asked = arena.asked := by
  induction rounds generalizing arena with
  | zero => exact ⟨rfl, rfl, rfl⟩
  | succ rounds ih =>
      have hgrow : arena.grow grant = (true, arena.lift) := grow_of_free hroot
      rw [growBy_succ, hgrow, if_pos rfl]
      exact ih (mem_push.mpr (Or.inr ⟨rfl, rfl⟩))

/-- The whole arena is not handed out while something is taken. -/
theorem alloc_whole_used (hnil : arena.free arena.limit = []) :
    (arena.alloc grant 0).1 = none := by
  unfold alloc
  rcases hgrow : arena.growTo grant 0 with ⟨granted, arena₁⟩
  cases granted with
  | false => rw [search_refused hgrow]
  | true =>
      have hlimit := growTo_limit (b := 0) arena grant (by rw [hgrow])
      have hempty : (arena.growTo grant 0).2.free
          (arena.growTo grant 0).2.limit = [] :=
        growBy_root_nil hnil (by unfold growTo at hgrow; rw [hgrow])
      rw [hgrow] at hlimit hempty
      have hlast : (arena₁.free 0).getLast? = none := by
        rw [show 0 = arena₁.limit by simp only at hlimit; omega, hempty]
        rfl
      rw [search_pass hgrow hlast (Or.inr rfl)]
      rfl

/-- The whole arena is not handed out when its memory is refused. -/
theorem alloc_whole_refused (hroot : 2 ^ arena.limit ∈ arena.free arena.limit)
    (htop : arena.top < 2 ^ 31) (hrefused : grant arena.asked = false) :
    (arena.alloc grant 0).1 = none := by
  unfold alloc
  obtain ⟨hok, htop₁, hasked₁⟩ : (arena.growTo grant 0).1 = true ∧ _ :=
    growBy_free hroot
  rcases hgrow : arena.growTo grant 0 with ⟨granted, arena₁⟩
  unfold growTo at hgrow
  rw [hgrow] at htop₁ hasked₁
  rw [growTo, hgrow] at hok
  obtain rfl : granted = true := hok
  simp only at htop₁ hasked₁
  cases hlast : (arena₁.free 0).getLast? with
  | none =>
      rw [search_pass hgrow hlast (Or.inr rfl)]
      rfl
  | some n =>
      have hno : (arena₁.claimed grant 0 0 n).1 = false := by
        unfold claimed reserve
        rw [if_pos (by simp only [drop_top, needed]; simp; omega), drop_asked,
          hasked₁, hrefused]
        rfl
      rw [search_found hgrow hlast, claim_refused hno]

end Arena
end BuddyAlloc
end OsStuff
