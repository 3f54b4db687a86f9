import OsStuff.Library.DyadicTree

/-!
# The buddy system as an abstract machine

What both allocators are for, without memory, flags or headers.  The arena is
a dyadic tree over a segment of `2 ^ 31` bytes of which the subtree of the
leftmost node of level `limit` is in use.  For every level there is the
sequence of its free nodes; the last one is handed out first.  `top` is the
number of bytes obtained from the system and `asked` the number of requests
made for more.

`Shape marked arena` says that the free nodes are exactly the vacant nodes of
the tree in which the nodes of `marked` are taken.  The operations are built
from six moves (lift the root, open a right neighbour, take, give back, split,
merge), and each of them keeps the shape.
-/

namespace OsStuff
namespace BuddyAlloc

open Library.DyadicTree

/-- The abstract state of a buddy allocator. -/
structure Arena where
  limit : Nat
  top : Nat
  asked : Nat
  free : Nat → List Nat

namespace Arena

/-! ## The moves -/

/-- Append a node to the free nodes of a level. -/
def push (arena : Arena) (b n : Nat) : Arena :=
  { arena with free := Function.update arena.free b (arena.free b ++ [n]) }

/-- Take a node away from the free nodes of a level. -/
def drop (arena : Arena) (b n : Nat) : Arena :=
  { arena with free := Function.update arena.free b ((arena.free b).erase n) }

/-- Let the tree grow by one level without any free node in the new level. -/
def raise (arena : Arena) : Arena :=
  { arena with
    limit := arena.limit - 1
    free := Function.update arena.free (arena.limit - 1) [] }

/-- Growth of a tree that is completely free: the new root replaces the old
one as the only free node. -/
def lift (arena : Arena) : Arena :=
  (arena.drop arena.limit (2 ^ arena.limit)).raise.push (arena.limit - 1)
    (2 ^ (arena.limit - 1))

/-- Growth of a tree that is in use: the right neighbour of the root becomes
free. -/
def openRight (arena : Arena) : Arena :=
  (arena.push arena.limit (2 ^ arena.limit + 1)).raise

/-- Ask the system for the bytes up to an offset; `grant` answers. -/
def reserve (grant : Nat → Bool) (bytes : Nat) (arena : Arena) :
    Bool × Arena :=
  if arena.top < bytes then
    if grant arena.asked then
      (true, { arena with top := bytes, asked := arena.asked + 1 })
    else
      (false, { arena with asked := arena.asked + 1 })
  else
    (true, arena)

/-! ## The operations -/

/-- The bytes up to the links of the right neighbour of the root. -/
def rightEnd (limit : Nat) : Nat := offset 31 limit (2 ^ limit + 1) + 16

/-- Let the tree grow by one level. -/
def grow (grant : Nat → Bool) (arena : Arena) : Bool × Arena :=
  if 2 ^ arena.limit ∈ arena.free arena.limit then
    (true, arena.lift)
  else
    match arena.reserve grant (rightEnd arena.limit) with
    | (false, arena) => (false, arena)
    | (true, arena) => (true, arena.openRight)

/-- Let the tree grow a number of times. -/
def growBy (grant : Nat → Bool) : Nat → Arena → Bool × Arena
  | 0, arena => (true, arena)
  | rounds + 1, arena =>
      match arena.grow grant with
      | (false, arena) => (false, arena)
      | (true, arena) => growBy grant rounds arena

/-- Let the tree grow until level `b` belongs to it. -/
def growTo (grant : Nat → Bool) (b : Nat) (arena : Arena) : Bool × Arena :=
  growBy grant (arena.limit - b) arena

/-- Split the taken node `n` of level `b` down to its leftmost descendant a
number of levels below, freeing the right halves. -/
def splitBy : Nat → Nat → Nat → Arena → Nat × Arena
  | 0, _, n, arena => (n, arena)
  | rounds + 1, b, n, arena =>
      splitBy rounds (b + 1) (2 * n) (arena.push (b + 1) (2 * n + 1))

/-- Bytes that must be there before a block of level `b` is cut down to level
`target`. -/
def needed (b target : Nat) : Nat :=
  if b < target then 2 ^ (31 - b) / 2 + 16 else 2 ^ (31 - b)

/-- Hand out the free node `n` of level `b`, or its leftmost part of level
`target`; when the system refuses memory the node goes back to its list. -/
def claim (grant : Nat → Bool) (target b n : Nat) (arena : Arena) :
    Option Nat × Arena :=
  match (arena.drop b n).reserve grant (offset 31 b n + needed b target) with
  | (false, arena) => (none, arena.push b n)
  | (true, arena) =>
      let (n, arena) := splitBy (target - b) b n arena
      (some n, arena)

/-- Look for a free node of level `target` or above, starting with the level
that the first argument exceeds by one; at the root let the tree grow once
more. -/
def search (grant : Nat → Bool) (target : Nat) :
    Nat → Arena → Option Nat × Arena
  | 0, arena => (none, arena)
  | b + 1, arena =>
      match arena.growTo grant b with
      | (false, arena) => (none, arena)
      | (true, arena) =>
          match (arena.free b).getLast? with
          | some n => arena.claim grant target b n
          | none =>
              if b ≠ arena.limit ∨ b = 0 then
                search grant target b arena
              else
                match arena.growTo grant (b - 1) with
                | (false, arena) => (none, arena)
                | (true, arena) =>
                    match (arena.free b).getLast? with
                    | some n => arena.claim grant target b n
                    | none => (none, arena)

/-- Allocate a node of level `target`. -/
def alloc (grant : Nat → Bool) (target : Nat) (arena : Arena) :
    Option Nat × Arena :=
  arena.search grant target (target + 1)

/-- Give back the taken node `n` of level `b`, merging it with free siblings
below the root. -/
def release : Nat → Nat → Arena → Arena
  | 0, n, arena => arena.push 0 n
  | b + 1, n, arena =>
      if b + 1 = arena.limit ∨ sibling n ∉ arena.free (b + 1) then
        arena.push (b + 1) n
      else
        release b (n / 2) (arena.drop (b + 1) (sibling n))

/-- The arena after initialisation: the leftmost smallest block is free. -/
def initial (grant : Nat → Bool) : Arena where
  limit := 27
  top := if grant 0 then 16 else 0
  asked := 1
  free := Function.update (fun _ => []) 27 [2 ^ 27]

/-! ## The shape of an arena -/

/-- The free nodes are the vacant nodes of the tree in which `marked` is taken,
each listed once, and the system has provided room for their links. -/
structure Shape (marked : Set Nat) (arena : Arena) : Prop where
  limit_lt : arena.limit < 28
  marking : Marking marked (2 ^ arena.limit)
  depth : ∀ n ∈ marked, n < 2 ^ 28
  free_iff : ∀ b n, n ∈ arena.free b ↔
    Vacant marked (2 ^ arena.limit) n ∧ AtLevel b n
  nodup : ∀ b, (arena.free b).Nodup
  room : ∀ b n, n ∈ arena.free b → offset 31 b n + 16 ≤ arena.top
  top_le : arena.top ≤ 2 ^ 31

/-- The system has provided all bytes of the given nodes. -/
def Held (marked : Set Nat) (arena : Arena) : Prop :=
  ∀ n ∈ marked, ∀ b, AtLevel b n → offset 31 b n + 2 ^ (31 - b) ≤ arena.top

variable {marked : Set Nat} {arena : Arena} {b n c : Nat}

@[simp] theorem push_limit : (arena.push b n).limit = arena.limit := rfl
@[simp] theorem push_top : (arena.push b n).top = arena.top := rfl
@[simp] theorem push_asked : (arena.push b n).asked = arena.asked := rfl
@[simp] theorem drop_limit : (arena.drop b n).limit = arena.limit := rfl
@[simp] theorem drop_top : (arena.drop b n).top = arena.top := rfl
@[simp] theorem drop_asked : (arena.drop b n).asked = arena.asked := rfl

theorem push_free_self : (arena.push b n).free b = arena.free b ++ [n] :=
  Function.update_self _ _ _

theorem push_free_of_ne {d : Nat} (hd : d ≠ b) :
    (arena.push b n).free d = arena.free d :=
  Function.update_of_ne hd _ _

theorem drop_free_self : (arena.drop b n).free b = (arena.free b).erase n :=
  Function.update_self _ _ _

theorem mem_push {d m : Nat} :
    m ∈ (arena.push b n).free d ↔ m ∈ arena.free d ∨ d = b ∧ m = n := by
  unfold push
  by_cases hdb : d = b
  · subst hdb
    simp
  · simp [hdb]

theorem mem_drop (hnodup : (arena.free b).Nodup) {d m : Nat} :
    m ∈ (arena.drop b n).free d ↔
      m ∈ arena.free d ∧ ¬ (d = b ∧ m = n) := by
  unfold drop
  by_cases hdb : d = b
  · subst hdb
    simp only [Function.update_self, hnodup.mem_erase_iff]
    tauto
  · simp [hdb]

theorem mem_of_mem_raise {d m : Nat} (hm : m ∈ arena.raise.free d) :
    m ∈ arena.free d := by
  unfold raise at hm
  by_cases hd : d = arena.limit - 1
  · subst hd
    simp at hm
  · simpa [hd] using hm

/-- Clearing a level that has no free node changes no list. -/
theorem raise_free (hnil : arena.free (arena.limit - 1) = []) :
    arena.raise.free = arena.free := by
  unfold raise
  simp only
  rw [← hnil, Function.update_eq_self]

theorem nodup_push (hnodup : ∀ d, (arena.free d).Nodup)
    (hn : n ∉ arena.free b) (d : Nat) : ((arena.push b n).free d).Nodup := by
  unfold push
  by_cases hdb : d = b
  · subst hdb
    simp only [Function.update_self]
    rw [List.nodup_append]
    refine ⟨hnodup d, by simp, ?_⟩
    intro x hx y hy hxy
    rw [List.mem_singleton] at hy
    exact hn (hy ▸ hxy ▸ hx)
  · simpa [hdb] using hnodup d

theorem nodup_drop (hnodup : ∀ d, (arena.free d).Nodup) (d : Nat) :
    ((arena.drop b n).free d).Nodup := by
  unfold drop
  by_cases hdb : d = b
  · subst hdb
    simpa using (hnodup d).erase n
  · simpa [hdb] using hnodup d

/-! ## Fields under the operations -/

@[simp] theorem lift_limit : arena.lift.limit = arena.limit - 1 := rfl
@[simp] theorem lift_top : arena.lift.top = arena.top := rfl
@[simp] theorem lift_asked : arena.lift.asked = arena.asked := rfl
@[simp] theorem openRight_limit : arena.openRight.limit = arena.limit - 1 := rfl
@[simp] theorem openRight_top : arena.openRight.top = arena.top := rfl
@[simp] theorem openRight_asked : arena.openRight.asked = arena.asked := rfl

variable {grant : Nat → Bool} {bytes : Nat}

/-- A reservation changes `top` and `asked` only; when it succeeds the bytes
are there. -/
theorem reserve_spec (grant : Nat → Bool) (bytes : Nat) (arena : Arena) :
    (arena.reserve grant bytes).2.limit = arena.limit ∧
      (arena.reserve grant bytes).2.free = arena.free ∧
      arena.top ≤ (arena.reserve grant bytes).2.top ∧
      ((arena.reserve grant bytes).1 = true →
        (arena.reserve grant bytes).2.top = max arena.top bytes) ∧
      ((arena.reserve grant bytes).1 = false →
        (arena.reserve grant bytes).2.top = arena.top) := by
  unfold reserve
  by_cases hmore : arena.top < bytes
  · rw [if_pos hmore]
    cases hgrant : grant arena.asked with
    | true => simp; omega
    | false => simp
  · rw [if_neg hmore]
    simp
    omega

theorem reserve_limit (arena : Arena) (grant : Nat → Bool) (bytes : Nat) :
    (arena.reserve grant bytes).2.limit = arena.limit :=
  (reserve_spec grant bytes arena).1

theorem reserve_free : (arena.reserve grant bytes).2.free = arena.free :=
  (reserve_spec grant bytes arena).2.1

theorem le_reserve_top (arena : Arena) (grant : Nat → Bool) (bytes : Nat) :
    arena.top ≤ (arena.reserve grant bytes).2.top :=
  (reserve_spec grant bytes arena).2.2.1

theorem reserve_top (arena : Arena) (grant : Nat → Bool) (bytes : Nat)
    (hok : (arena.reserve grant bytes).1 = true) :
    (arena.reserve grant bytes).2.top = max arena.top bytes :=
  (reserve_spec grant bytes arena).2.2.2.1 hok

/-- Growth of a free tree. -/
theorem grow_of_free (hroot : 2 ^ arena.limit ∈ arena.free arena.limit) :
    arena.grow grant = (true, arena.lift) := by
  unfold grow
  rw [if_pos hroot]

/-- Growth of a tree in use. -/
theorem grow_of_used (hroot : 2 ^ arena.limit ∉ arena.free arena.limit) :
    arena.grow grant =
      if (arena.reserve grant (rightEnd arena.limit)).1 then
        (true, (arena.reserve grant (rightEnd arena.limit)).2.openRight)
      else (false, (arena.reserve grant (rightEnd arena.limit)).2) := by
  unfold grow
  rw [if_neg hroot]
  rcases arena.reserve grant (rightEnd arena.limit) with ⟨granted, arena'⟩
  cases granted <;> rfl

theorem grow_limit (arena : Arena) (grant : Nat → Bool) (hok : (arena.grow grant).1 = true) :
    (arena.grow grant).2.limit = arena.limit - 1 := by
  by_cases hroot : 2 ^ arena.limit ∈ arena.free arena.limit
  · rw [grow_of_free hroot]
    rfl
  · rw [grow_of_used hroot] at hok ⊢
    split at hok
    · rw [if_pos (by assumption)]
      simp [reserve_limit]
    · exact absurd hok (by simp)

theorem le_grow_top (arena : Arena) (grant : Nat → Bool) :
    arena.top ≤ (arena.grow grant).2.top := by
  by_cases hroot : 2 ^ arena.limit ∈ arena.free arena.limit
  · rw [grow_of_free hroot]
    exact le_refl _
  · rw [grow_of_used hroot]
    split
    · exact le_reserve_top _ _ _
    · exact le_reserve_top _ _ _

theorem growBy_limit {rounds : Nat} (hok : (arena.growBy grant rounds).1 = true) :
    (arena.growBy grant rounds).2.limit = arena.limit - rounds := by
  induction rounds generalizing arena with
  | zero => rfl
  | succ rounds ih =>
      have hlimit := grow_limit arena grant
      unfold growBy at hok ⊢
      rcases hgrow : arena.grow grant with ⟨granted, arena'⟩
      simp only [hgrow] at hok hlimit ⊢
      cases granted with
      | false => exact absurd hok (by simp)
      | true =>
          rw [ih hok, hlimit rfl]
          omega

theorem le_growBy_top {rounds : Nat} :
    arena.top ≤ (arena.growBy grant rounds).2.top := by
  induction rounds generalizing arena with
  | zero => exact le_refl _
  | succ rounds ih =>
      have hle := le_grow_top arena grant
      unfold growBy
      rcases hgrow : arena.grow grant with ⟨granted, arena'⟩
      simp only [hgrow] at hle ⊢
      cases granted with
      | false => exact hle
      | true => exact hle.trans ih

theorem growTo_limit (arena : Arena) (grant : Nat → Bool)
    (hok : (arena.growTo grant b).1 = true) :
    (arena.growTo grant b).2.limit = min arena.limit b := by
  unfold growTo at hok ⊢
  rw [growBy_limit hok]
  omega

theorem le_growTo_top (arena : Arena) (grant : Nat → Bool) :
    arena.top ≤ (arena.growTo grant b).2.top :=
  le_growBy_top

/-- Growing by one level. -/
theorem growTo_pred (grant : Nat → Bool) (hlimit : arena.limit = b) (hb : b ≠ 0) :
    arena.growTo grant (b - 1) = arena.grow grant := by
  unfold growTo
  rw [hlimit, show b - (b - 1) = 1 by omega]
  unfold growBy growBy
  rcases arena.grow grant with ⟨granted, arena'⟩
  cases granted <;> rfl

/-- When the root's level has no free node, growing by one level frees the
right neighbour of the root. -/
theorem getLast_growTo_pred (grant : Nat → Bool) (hlimit : arena.limit = b) (hb : b ≠ 0)
    (hnone : (arena.free b).getLast? = none)
    (hok : (arena.growTo grant (b - 1)).1 = true) :
    ((arena.growTo grant (b - 1)).2.free b).getLast? = some (2 ^ b + 1) := by
  rw [growTo_pred _ hlimit hb] at hok ⊢
  rw [List.getLast?_eq_none_iff] at hnone
  subst hlimit
  have hroot : 2 ^ arena.limit ∉ arena.free arena.limit := by simp [hnone]
  rw [grow_of_used hroot] at hok ⊢
  by_cases hgranted : (arena.reserve grant (rightEnd arena.limit)).1 = true
  · rw [if_pos hgranted]
    have hfree : (arena.reserve grant (rightEnd arena.limit)).2.openRight.free
        arena.limit = [2 ^ arena.limit + 1] := by
      unfold Arena.openRight raise
      simp only [push_limit, reserve_limit]
      rw [Function.update_of_ne (by omega), push_free_self, reserve_free, hnone]
      rfl
    simp [hfree]
  · rw [if_neg hgranted] at hok
    exact absurd hok (by simp)

theorem sibling_root {l : Nat} (hlimit : arena.limit = l + 1) :
    sibling (2 ^ arena.limit) = 2 ^ arena.limit + 1 := by
  rw [hlimit, Nat.pow_succ]
  unfold sibling
  omega

theorem atLevel_right {l : Nat} (hlimit : arena.limit = l + 1) :
    AtLevel arena.limit (2 ^ arena.limit + 1) := by
  have hroot : AtLevel (l + 1) (2 ^ arena.limit) := by
    rw [hlimit]
    exact atLevel_two_pow _
  rw [← sibling_root hlimit, hlimit]
  rw [hlimit] at hroot
  exact hroot.sibling

namespace Shape

theorem node_lt (hshape : Shape marked arena) (hn : n ∈ marked)
    (hb : AtLevel b n) : b < 28 := by
  by_contra hge
  have hpow : 2 ^ 28 ≤ 2 ^ b := Nat.pow_le_pow_right (by omega) (by omega)
  have hdepth := hshape.depth n hn
  have hlow := hb.1
  omega

/-- A vacant node has a level of the tree. -/
theorem vacant_level (hshape : Shape marked arena)
    (hn : Vacant marked (2 ^ arena.limit) n) (hb : AtLevel b n) :
    arena.limit ≤ b ∧ b < 28 := by
  obtain ⟨hle, -⟩ := hn.below.levels hb (atLevel_two_pow arena.limit)
  refine ⟨hle, ?_⟩
  rcases hn.maximal with rfl | ⟨m, hm, hms⟩
  · rw [← (atLevel_two_pow arena.limit).unique hb]
    exact hshape.limit_lt
  · have hbpos : b ≠ 0 := by
      rintro rfl
      have hone := hb.eq_of_zero
      subst hone
      have htwo : sibling 1 = 0 := by unfold sibling; omega
      rw [htwo] at hms
      have := hn.below.le
      have hroot : (2 : Nat) ^ arena.limit = 1 := by
        have := Nat.one_le_two_pow (n := arena.limit)
        omega
      have hmroot := hshape.marking.below m hm
      rw [hroot] at hmroot
      exact hn.empty ⟨m, hm, hmroot⟩
    obtain ⟨d, rfl⟩ : ∃ d, b = d + 1 := ⟨b - 1, by omega⟩
    obtain ⟨e, he⟩ := exists_atLevel (show 1 ≤ m by
      have := (hshape.marking.below m hm).le
      have := Nat.one_le_two_pow (n := arena.limit)
      omega)
    obtain ⟨hle', -⟩ := hms.levels he hb.sibling
    have := hshape.node_lt hm he
    omega

theorem free_level (hshape : Shape marked arena) (hn : n ∈ arena.free b) :
    AtLevel b n ∧ arena.limit ≤ b ∧ b < 28 := by
  obtain ⟨hvacant, hb⟩ := (hshape.free_iff b n).mp hn
  exact ⟨hb, hshape.vacant_level hvacant hb⟩

/-- The only node of the root's level is the root. -/
theorem free_limit (hshape : Shape marked arena)
    (hn : n ∈ arena.free arena.limit) : n = 2 ^ arena.limit := by
  obtain ⟨hvacant, hb⟩ := (hshape.free_iff _ n).mp hn
  exact hvacant.below.eq_of_level hb (atLevel_two_pow _)

/-- The root is free exactly when nothing is taken. -/
theorem root_free_iff (hshape : Shape marked arena) :
    2 ^ arena.limit ∈ arena.free arena.limit ↔ marked = ∅ := by
  rw [hshape.free_iff]
  constructor
  · rintro ⟨hvacant, -⟩
    refine Set.eq_empty_iff_forall_notMem.mpr fun m hm => ?_
    exact hvacant.empty ⟨m, hm, hshape.marking.below m hm⟩
  · rintro rfl
    exact ⟨vacant_empty_iff.mpr rfl, atLevel_two_pow _⟩

/-- When something is taken, the root's level has no free node. -/
theorem free_limit_nil (hshape : Shape marked arena) (hmarked : marked ≠ ∅) :
    arena.free arena.limit = [] := by
  refine List.eq_nil_iff_forall_not_mem.mpr fun n hn => ?_
  have heq := hshape.free_limit hn
  exact hmarked (hshape.root_free_iff.mp (heq ▸ hn))

theorem occupied_root (hshape : Shape marked arena) (hmarked : marked ≠ ∅) :
    Occupied marked (2 ^ arena.limit) := by
  obtain ⟨m, hm⟩ := Set.nonempty_iff_ne_empty.mpr hmarked
  exact ⟨m, hm, hshape.marking.below m hm⟩

/-! ## The moves keep the shape -/

/-- Taking a free node marks it. -/
theorem take (hshape : Shape marked arena) (hn : n ∈ arena.free b) :
    Shape (insert n marked) (arena.drop b n) := by
  have hroot := Nat.one_le_two_pow (n := arena.limit)
  obtain ⟨hvacant, hb⟩ := (hshape.free_iff b n).mp hn
  obtain ⟨-, -, hlt⟩ := hshape.free_level hn
  refine ⟨hshape.limit_lt, hvacant.marking_insert hshape.marking hroot, ?_, ?_,
    nodup_drop hshape.nodup, ?_, hshape.top_le⟩
  · intro m hm
    rcases Set.mem_insert_iff.mp hm with rfl | hm
    · exact lt_of_lt_of_le hb.2 (Nat.pow_le_pow_right (by omega) (by omega))
    · exact hshape.depth m hm
  · intro d m
    rw [mem_drop (hshape.nodup b), hshape.free_iff, drop_limit,
      hvacant.vacant_insert_iff hroot]
    constructor
    · rintro ⟨⟨hm, hd⟩, hne⟩
      refine ⟨⟨hm, ?_⟩, hd⟩
      rintro rfl
      exact hne ⟨hd.unique hb, rfl⟩
    · rintro ⟨⟨hm, hmn⟩, hd⟩
      exact ⟨⟨hm, hd⟩, fun h => hmn h.2⟩
  · intro d m hm
    exact hshape.room d m ((mem_drop (hshape.nodup b)).mp hm).1

/-- Giving back a taken node that cannot be merged frees it. -/
theorem give (hshape : Shape (insert n marked) arena) (hn : n ∉ marked)
    (hb : AtLevel b n)
    (hmaximal : n = 2 ^ arena.limit ∨ Occupied marked (sibling n))
    (hroom : offset 31 b n + 16 ≤ arena.top) :
    Shape marked (arena.push b n) := by
  have hroot := Nat.one_le_two_pow (n := arena.limit)
  have hvacant := hshape.marking.vacant_of_insert hn hmaximal
  have hnotfree : n ∉ arena.free b := by
    rw [hshape.free_iff, hvacant.vacant_insert_iff hroot]
    tauto
  refine ⟨hshape.limit_lt, hshape.marking.mono (Set.subset_insert n marked),
    fun m hm => hshape.depth m (Set.mem_insert_of_mem n hm), ?_,
    nodup_push hshape.nodup hnotfree, ?_, hshape.top_le⟩
  · intro d m
    rw [mem_push, hshape.free_iff, push_limit, hvacant.vacant_insert_iff hroot]
    constructor
    · rintro (⟨⟨hm, -⟩, hd⟩ | ⟨rfl, rfl⟩)
      · exact ⟨hm, hd⟩
      · exact ⟨hvacant, hb⟩
    · rintro ⟨hm, hd⟩
      by_cases hmn : m = n
      · subst hmn
        exact Or.inr ⟨hd.unique hb, rfl⟩
      · exact Or.inl ⟨⟨hm, hmn⟩, hd⟩
  · intro d m hm
    rcases mem_push.mp hm with hm | ⟨rfl, rfl⟩
    · exact hshape.room d m hm
    · exact hroom

/-- Splitting a taken node frees its right child and keeps the left one. -/
theorem split (hshape : Shape (insert n marked) arena) (hn : n ∉ marked)
    (hb : AtLevel b n) (hlt : b + 1 < 28)
    (hroom : offset 31 (b + 1) (2 * n + 1) + 16 ≤ arena.top) :
    Shape (insert (2 * n) marked) (arena.push (b + 1) (2 * n + 1)) ∧
      2 * n ∉ marked := by
  have hroot := Nat.one_le_two_pow (n := arena.limit)
  have hpos := hb.pos
  have hhalf : 2 * n / 2 = n := by omega
  have htwo : 2 ≤ 2 * n := by omega
  have hmarking : Marking (insert (2 * n / 2) marked) (2 ^ arena.limit) := by
    rw [hhalf]
    exact hshape.marking
  have hnot : 2 * n / 2 ∉ marked := by rwa [hhalf]
  have hvacant := fun k => hmarking.vacant_child_iff hnot htwo hroot (k := k)
  simp only [hhalf, sibling_double] at hvacant
  have hright : ¬ Vacant (insert n marked) (2 ^ arena.limit) (2 * n + 1) :=
    fun h => h.not_within_marked hshape.marking hroot (Set.mem_insert n marked)
      (within_child_right n)
  -- A marked left child would lie below a marked node.
  have hnotmem : 2 * n ∉ marked := by
    intro hmem
    have := hshape.marking.apart _ (Set.mem_insert_of_mem n hmem) n
      (Set.mem_insert n marked) (within_child_left n)
    omega
  refine ⟨⟨hshape.limit_lt, hmarking.child hnot, ?_, ?_,
    nodup_push hshape.nodup ?_, ?_, hshape.top_le⟩, hnotmem⟩
  · intro m hm
    rcases Set.mem_insert_iff.mp hm with rfl | hm
    · exact lt_of_lt_of_le hb.left.2
        (Nat.pow_le_pow_right (by omega) (by omega))
    · exact hshape.depth m (Set.mem_insert_of_mem n hm)
  · intro d m
    -- The right child is the one node that becomes vacant.
    rw [mem_push, hshape.free_iff, push_limit, hvacant]
    constructor
    · rintro (⟨hm, hd⟩ | ⟨rfl, rfl⟩)
      · exact ⟨Or.inl hm, hd⟩
      · exact ⟨Or.inr rfl, hb.right⟩
    · rintro ⟨hm | rfl, hd⟩
      · exact Or.inl ⟨hm, hd⟩
      · exact Or.inr ⟨hd.unique hb.right, rfl⟩
  · intro hmem
    exact hright ((hshape.free_iff _ _).mp hmem).1
  · intro d m hm
    rcases mem_push.mp hm with hm | ⟨rfl, rfl⟩
    · exact hshape.room d m hm
    · exact hroom

/-- Below the root, the sibling of a taken node is free unless something below
it is taken. -/
theorem sibling_free_iff (hshape : Shape (insert c marked) arena)
    (hb : AtLevel (b + 1) c) (hne : b + 1 ≠ arena.limit) :
    sibling c ∈ arena.free (b + 1) ↔ ¬ Occupied marked (sibling c) := by
  have htwo := hb.two_le
  have hself : ¬ Within c (sibling c) := fun h =>
    sibling_ne c (h.eq_of_level hb hb.sibling).symm
  have hocc : Occupied (insert c marked) (sibling c) ↔
      Occupied marked (sibling c) := by
    rw [occupied_insert]
    tauto
  rw [hshape.free_iff]
  constructor
  · rintro ⟨hvacant, -⟩
    exact fun h => hvacant.empty (hocc.mpr h)
  · intro hempty
    have hbelow := hshape.marking.below c (Set.mem_insert c marked)
    rcases hbelow.eq_or_half with heq | hhalf
    · rw [heq] at hb
      exact absurd (hb.unique (atLevel_two_pow _)) hne
    · refine ⟨⟨(within_sibling_half htwo).trans hhalf,
        fun h => hempty (hocc.mp h), Or.inr ?_⟩, hb.sibling⟩
      rw [sibling_sibling htwo]
      exact occupied_of_mem (Set.mem_insert c marked)

/-- A node and its sibling are not both free. -/
theorem not_both_free (hshape : Shape marked arena)
    (hn : n ∈ arena.free (b + 1)) (hsibling : sibling n ∈ arena.free (b + 1)) :
    False := by
  obtain ⟨hvacant, hb⟩ := (hshape.free_iff _ _).mp hn
  obtain ⟨hvacant', -⟩ := (hshape.free_iff _ _).mp hsibling
  rcases hvacant.maximal with rfl | hoccupied
  · exact sibling_ne _ (hvacant'.below.eq_of_level hb.sibling hb)
  · exact hvacant'.empty hoccupied

/-- A node at the level of the root is the root. -/
theorem eq_root (hshape : Shape (insert c marked) arena)
    (hb : AtLevel arena.limit c) : c = 2 ^ arena.limit :=
  (hshape.marking.below c (Set.mem_insert c marked)).eq_of_level hb
    (atLevel_two_pow _)

/-- Where merging stops, the taken node is the root or has an occupied
sibling. -/
theorem maximal_of_stop (hshape : Shape (insert c marked) arena)
    (hb : AtLevel (b + 1) c)
    (hstop : b + 1 = arena.limit ∨ sibling c ∉ arena.free (b + 1)) :
    c = 2 ^ arena.limit ∨ Occupied marked (sibling c) := by
  by_cases heq : b + 1 = arena.limit
  · exact Or.inl (hshape.eq_root (heq ▸ hb))
  · have hnot := hstop.resolve_left heq
    rw [hshape.sibling_free_iff hb heq] at hnot
    exact Or.inr (not_not.mp hnot)

/-- A taken node stops being in use when it is given back as it is. -/
theorem oneMore_give (hshape : Shape (insert c marked) arena) (hc : c ∉ marked)
    (hb : AtLevel (b + 1) c)
    (hstop : b + 1 = arena.limit ∨ sibling c ∉ arena.free (b + 1)) :
    OneMore (InUse marked (2 ^ arena.limit))
      (InUse (insert c marked) (2 ^ arena.limit)) c :=
  (hshape.marking.vacant_of_insert hc (hshape.maximal_of_stop hb hstop)).oneMore
    Nat.one_le_two_pow

/-- Whether the sibling of a taken node is in use. -/
theorem inUse_sibling_iff (hshape : Shape (insert c marked) arena)
    (hb : AtLevel (b + 1) c) :
    InUse (insert c marked) (2 ^ arena.limit) (sibling c) ↔
      b + 1 ≠ arena.limit ∧ sibling c ∉ arena.free (b + 1) := by
  by_cases heq : b + 1 = arena.limit
  · have hroot := hshape.eq_root (heq ▸ hb)
    rw [← hroot]
    have hnot := not_inUse_sibling_root (insert c marked) _ hb.two_le
    tauto
  · have hfree := hshape.sibling_free_iff hb heq
    have hself : ¬ Within c (sibling c) := fun h =>
      sibling_ne c (h.eq_of_level hb hb.sibling).symm
    have hne : c ≠ 2 ^ arena.limit := by
      rintro rfl
      exact heq (hb.unique (atLevel_two_pow _))
    have hbelow : Within (sibling c) (2 ^ arena.limit) :=
      (within_sibling_half hb.two_le).trans ((hshape.marking.below c
        (Set.mem_insert c marked)).eq_or_half.resolve_left hne)
    unfold InUse
    rw [occupied_insert]
    tauto

/-- Merging a taken node with its free sibling takes their parent. -/
theorem merge (hshape : Shape (insert c marked) arena) (hc : c ∉ marked)
    (hb : AtLevel (b + 1) c) (hfree : sibling c ∈ arena.free (b + 1)) :
    Shape (insert (c / 2) marked) (arena.drop (b + 1) (sibling c)) ∧
      c / 2 ∉ marked := by
  have hroot := Nat.one_le_two_pow (n := arena.limit)
  have htwo := hb.two_le
  obtain ⟨hvacant, -⟩ := (hshape.free_iff _ _).mp hfree
  obtain ⟨hmarking, hnot⟩ := hshape.marking.parent hc htwo hroot hvacant
  have hiff := fun k => hmarking.vacant_child_iff hnot htwo hroot (k := k)
  refine ⟨⟨hshape.limit_lt, hmarking, ?_, ?_, nodup_drop hshape.nodup, ?_,
    hshape.top_le⟩, hnot⟩
  · intro m hm
    rcases Set.mem_insert_iff.mp hm with rfl | hm
    · have := hshape.depth c (Set.mem_insert c marked)
      omega
    · exact hshape.depth m (Set.mem_insert_of_mem c hm)
  · intro d m
    rw [mem_drop (hshape.nodup _), hshape.free_iff, drop_limit, hiff]
    constructor
    · rintro ⟨⟨hm | rfl, hd⟩, hne⟩
      · exact ⟨hm, hd⟩
      · exact absurd ⟨hd.unique hb.sibling, rfl⟩ hne
    · rintro ⟨hm, hd⟩
      refine ⟨⟨Or.inl hm, hd⟩, ?_⟩
      rintro ⟨-, rfl⟩
      exact hm.not_within_marked hmarking hroot (Set.mem_insert _ _)
        (within_sibling_half htwo)
  · intro d m hm
    exact hshape.room d m ((mem_drop (hshape.nodup _)).mp hm).1

/-- A taken node stops being in use when it is merged with its sibling. -/
theorem oneMore_merge (hshape : Shape (insert c marked) arena) (hc : c ∉ marked)
    (hb : AtLevel (b + 1) c) (hfree : sibling c ∈ arena.free (b + 1)) :
    OneMore (InUse (insert (c / 2) marked) (2 ^ arena.limit))
      (InUse (insert c marked) (2 ^ arena.limit)) c := by
  obtain ⟨hmerged, hhalf⟩ := hshape.merge hc hb hfree
  exact hmerged.marking.oneMore_child hhalf hb.two_le

/-- No free node lies at a level above the root. -/
theorem free_above_nil (hshape : Shape marked arena) (hb : b < arena.limit) :
    arena.free b = [] := by
  refine List.eq_nil_iff_forall_not_mem.mpr fun n hn => ?_
  obtain ⟨-, hle, -⟩ := hshape.free_level hn
  omega

theorem openRight_free (hshape : Shape marked arena) {l : Nat}
    (hlimit : arena.limit = l + 1) :
    arena.openRight.free =
      (arena.push arena.limit (2 ^ arena.limit + 1)).free := by
  refine raise_free ?_
  rw [push_limit, push_free_of_ne (by omega)]
  exact hshape.free_above_nil (by omega)

theorem mem_openRight (hshape : Shape marked arena) {l d m : Nat}
    (hlimit : arena.limit = l + 1) :
    m ∈ arena.openRight.free d ↔
      m ∈ arena.free d ∨ d = arena.limit ∧ m = 2 ^ arena.limit + 1 := by
  rw [hshape.openRight_free hlimit, mem_push]

/-- Growing a tree that is in use frees the right neighbour of the root. -/
theorem openRight (hshape : Shape marked arena) {l : Nat}
    (hlimit : arena.limit = l + 1) (hmarked : marked ≠ ∅)
    (hroom : offset 31 arena.limit (2 ^ arena.limit + 1) + 16 ≤ arena.top) :
    Shape marked arena.openRight := by
  have hlt := hshape.limit_lt
  have hhalf : 2 ^ arena.limit / 2 = 2 ^ l := by
    rw [hlimit, Nat.pow_succ]
    omega
  have htwo : 2 ≤ 2 ^ arena.limit := by
    have := Nat.one_le_two_pow (n := l)
    omega
  have hsibling := sibling_root hlimit
  have hlevel := atLevel_right hlimit
  have hiff := fun k => hshape.marking.vacant_root_half_iff htwo
    (hshape.occupied_root hmarked) (k := k)
  rw [hhalf] at hiff
  have hnil := hshape.free_limit_nil hmarked
  have hlimit' : arena.openRight.limit = l := by
    simp [Arena.openRight, raise, hlimit]
  have hmem := fun d m => hshape.mem_openRight hlimit (d := d) (m := m)
  refine ⟨by omega, ?_, hshape.depth, ?_, ?_, ?_, hshape.top_le⟩
  · rw [hlimit', ← hhalf]
    exact hshape.marking.root_half
  · -- Under the new root the sibling of the old one is vacant as well.
    intro d m
    rw [hmem, hshape.free_iff, hlimit', hiff, hsibling]
    constructor
    · rintro (⟨hm, hd⟩ | ⟨rfl, rfl⟩)
      · exact ⟨Or.inl hm, hd⟩
      · exact ⟨Or.inr rfl, hlevel⟩
    · rintro ⟨hm | rfl, hd⟩
      · exact Or.inl ⟨hm, hd⟩
      · exact Or.inr ⟨hd.unique hlevel, rfl⟩
  · intro d
    rw [hshape.openRight_free hlimit]
    exact nodup_push hshape.nodup (by rw [hnil]; simp) d
  · intro d m hm
    rcases (hmem d m).mp hm with hm | ⟨rfl, rfl⟩
    · exact hshape.room d m hm
    · exact hroom

/-- More memory leaves the shape as it is. -/
theorem withTop (hshape : Shape marked arena) {top : Nat} (asked : Nat)
    (hle : arena.top ≤ top) (htop : top ≤ 2 ^ 31) :
    Shape marked { arena with top := top, asked := asked } where
  limit_lt := hshape.limit_lt
  marking := hshape.marking
  depth := hshape.depth
  free_iff := hshape.free_iff
  nodup := hshape.nodup
  room b n hn := (hshape.room b n hn).trans hle
  top_le := htop

/-- Nothing else is free when the root is. -/
theorem mem_free_of_empty (hshape : Shape ∅ arena) {d m : Nat} :
    m ∈ arena.free d ↔ d = arena.limit ∧ m = 2 ^ arena.limit := by
  rw [hshape.free_iff, vacant_empty_iff]
  constructor
  · rintro ⟨rfl, hd⟩
    exact ⟨hd.unique (atLevel_two_pow _), rfl⟩
  · rintro ⟨rfl, rfl⟩
    exact ⟨rfl, atLevel_two_pow _⟩

theorem drop_root_free (hshape : Shape ∅ arena) (d : Nat) :
    (arena.drop arena.limit (2 ^ arena.limit)).free d = [] := by
  refine List.eq_nil_iff_forall_not_mem.mpr fun m hm => ?_
  rw [mem_drop (hshape.nodup _), hshape.mem_free_of_empty] at hm
  exact hm.2 hm.1

/-- Growing a tree that is completely free frees the new root. -/
theorem lift (hshape : Shape ∅ arena) {l : Nat} (hlimit : arena.limit = l + 1) :
    Shape ∅ arena.lift := by
  have hlt := hshape.limit_lt
  have hdropped : ∀ d, (arena.drop arena.limit (2 ^ arena.limit)).raise.free d =
      [] := by
    intro d
    refine List.eq_nil_iff_forall_not_mem.mpr fun m hm => ?_
    have hm' := mem_of_mem_raise hm
    rw [hshape.drop_root_free] at hm'
    exact absurd hm' List.not_mem_nil
  have hlimit' : arena.lift.limit = l := by
    simp [Arena.lift, raise, hlimit]
  -- The new root is the only free node.
  have hmem : ∀ d m, m ∈ arena.lift.free d ↔ d = l ∧ m = 2 ^ l := by
    intro d m
    unfold Arena.lift
    rw [mem_push, hdropped, hlimit, Nat.add_sub_cancel]
    simp
  have hroom : 16 ≤ arena.top := by
    have := hshape.room arena.limit (2 ^ arena.limit)
      (hshape.mem_free_of_empty.mpr ⟨rfl, rfl⟩)
    omega
  refine ⟨by omega, ⟨by simp, by simp⟩, by simp, ?_, ?_, ?_, hshape.top_le⟩
  · intro d m
    rw [hmem, hlimit', vacant_empty_iff]
    constructor
    · rintro ⟨rfl, rfl⟩
      exact ⟨rfl, atLevel_two_pow _⟩
    · rintro ⟨rfl, hd⟩
      exact ⟨hd.unique (atLevel_two_pow _), rfl⟩
  · intro d
    refine nodup_push (fun e => ?_) ?_ d
    · rw [hdropped]
      exact List.nodup_nil
    · rw [hdropped]
      exact List.not_mem_nil
  · intro d m hm
    obtain ⟨rfl, rfl⟩ := (hmem d m).mp hm
    have hzero : offset 31 d (2 ^ d) = 0 := by
      unfold offset
      simp
    rw [hzero]
    simpa [Arena.lift, raise] using hroom

/-- After a granted initialisation the leftmost smallest block is free. -/
theorem initial (hgrant : grant 0 = true) : Shape ∅ (Arena.initial grant) := by
  have hmem : ∀ d m, m ∈ (Arena.initial grant).free d ↔
      d = 27 ∧ m = 2 ^ 27 := by
    intro d m
    by_cases hd : d = 27
    · subst hd
      simp [Arena.initial]
    · simp [Arena.initial, hd]
  refine ⟨by simp [Arena.initial], ⟨by simp, by simp⟩, by simp, ?_, ?_, ?_, ?_⟩
  · intro d m
    rw [hmem, vacant_empty_iff]
    constructor
    · rintro ⟨rfl, rfl⟩
      exact ⟨rfl, atLevel_two_pow _⟩
    · rintro ⟨rfl, hd⟩
      exact ⟨hd.unique (atLevel_two_pow _), rfl⟩
  · intro d
    by_cases hd : d = 27
    · subst hd
      simp [Arena.initial]
    · simp [Arena.initial, hd]
  · intro d m hm
    obtain ⟨rfl, rfl⟩ := (hmem d m).mp hm
    simp [Arena.initial, hgrant, offset]
  · simp [Arena.initial, hgrant]

end Shape

/-- Releasing a node changes the free nodes only. -/
theorem release_fields (arena : Arena) :
    (release b n arena).limit = arena.limit ∧
      (release b n arena).top = arena.top ∧
      (release b n arena).asked = arena.asked := by
  induction b generalizing n arena with
  | zero => exact ⟨rfl, rfl, rfl⟩
  | succ b ih =>
      unfold release
      split
      · exact ⟨rfl, rfl, rfl⟩
      · exact ih _

end Arena
end BuddyAlloc
end OsStuff
