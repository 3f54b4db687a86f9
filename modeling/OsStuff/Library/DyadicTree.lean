import Mathlib.Tactic
import Mathlib.Data.Set.Basic

/-!
# The infinite binary tree numbered by heap order

The root is `1` and the children of `n` are `2 * n` and `2 * n + 1`, so that
`n / 2` is the parent.  `Within m n` says that `m` lies in the subtree of `n`.
Level `b` consists of the numbers from `2 ^ b` to `2 ^ (b + 1) - 1`; node `n`
of level `b` stands for the `n - 2 ^ b`-th of the `2 ^ b` equal parts of a
segment.

Given a set of pairwise incomparable `marked` nodes below a root, a node is
`Occupied` when its subtree contains a marked node, and `Vacant` when it is a
maximal unoccupied node of the rooted tree.  The marked and the vacant nodes
together partition the segment; the rules at the end say how the vacant nodes
change when a node is marked, when a marked node is replaced by one of its
children, and when the root moves to its parent.
-/

namespace OsStuff
namespace Library
namespace DyadicTree

/-! ## Subtrees -/

/-- `m` lies in the subtree of `n`. -/
def Within (m n : Nat) : Prop := ∃ k, m / 2 ^ k = n

/-- The other child of the parent of `n`. -/
def sibling (n : Nat) : Nat := n + 1 - 2 * (n % 2)

/-- `n` is a node of level `b`. -/
def AtLevel (b n : Nat) : Prop := 2 ^ b ≤ n ∧ n < 2 ^ (b + 1)

variable {m n k b c : Nat}

theorem within_refl (n : Nat) : Within n n := ⟨0, by simp⟩

theorem Within.trans (hmn : Within m n) (hnk : Within n k) : Within m k := by
  obtain ⟨i, rfl⟩ := hmn
  obtain ⟨j, rfl⟩ := hnk
  exact ⟨i + j, by rw [Nat.pow_add, Nat.div_div_eq_div_mul]⟩

theorem Within.le (hmn : Within m n) : n ≤ m := by
  obtain ⟨i, rfl⟩ := hmn
  exact Nat.div_le_self m _

/-- The root lies in the subtree of no other node. -/
theorem Within.eq_one (hn : Within 1 n) (hpos : 1 ≤ n) : n = 1 :=
  Nat.le_antisymm hn.le hpos

theorem Within.antisymm (hmn : Within m n) (hnm : Within n m) : m = n :=
  Nat.le_antisymm hnm.le hmn.le

theorem within_half (n : Nat) : Within n (n / 2) := ⟨1, by simp⟩

/-- A node of the subtree of `n` is `n` itself or has its parent there. -/
theorem Within.eq_or_half (hmn : Within m n) : m = n ∨ Within (m / 2) n := by
  obtain ⟨i, rfl⟩ := hmn
  cases i with
  | zero => simp
  | succ i =>
      refine Or.inr ⟨i, ?_⟩
      rw [Nat.div_div_eq_div_mul, Nat.pow_succ, Nat.mul_comm]

/-- A node of the subtree of `n` is `n` itself or lies below a child of `n`. -/
theorem Within.eq_or_child (hmn : Within m n) :
    m = n ∨ Within m (2 * n) ∨ Within m (2 * n + 1) := by
  obtain ⟨i, rfl⟩ := hmn
  cases i with
  | zero => simp
  | succ i =>
      have hparent : m / 2 ^ (i + 1) = m / 2 ^ i / 2 := by
        rw [Nat.div_div_eq_div_mul, Nat.pow_succ]
      have hparity := Nat.mod_two_eq_zero_or_one (m / 2 ^ i)
      refine Or.inr (hparity.imp (fun heven => ⟨i, ?_⟩) fun hodd => ⟨i, ?_⟩)
      all_goals omega

/-- The subtrees that contain a given node are nested. -/
theorem Within.total (hkm : Within k m) (hkn : Within k n) :
    Within m n ∨ Within n m := by
  obtain ⟨i, rfl⟩ := hkm
  obtain ⟨j, rfl⟩ := hkn
  rcases Nat.le_total i j with hij | hji
  · refine Or.inl ⟨j - i, ?_⟩
    rw [Nat.div_div_eq_div_mul, ← Nat.pow_add]
    congr 2
    omega
  · refine Or.inr ⟨i - j, ?_⟩
    rw [Nat.div_div_eq_div_mul, ← Nat.pow_add]
    congr 2
    omega

theorem within_child_left (n : Nat) : Within (2 * n) n := ⟨1, by omega⟩

theorem within_child_right (n : Nat) : Within (2 * n + 1) n := ⟨1, by omega⟩

/-- No node lies below both children of `n`. -/
theorem not_within_both (hn : 1 ≤ n) (hleft : Within m (2 * n))
    (hright : Within m (2 * n + 1)) : False := by
  rcases hleft.total hright with h | h
  · have := h.le
    omega
  · rcases h.eq_or_half with heq | hhalf
    · omega
    · have := hhalf.le
      omega

/-! ## Siblings -/

theorem sibling_half (hn : 2 ≤ n) : sibling n / 2 = n / 2 := by
  unfold sibling
  omega

theorem sibling_sibling (hn : 2 ≤ n) : sibling (sibling n) = n := by
  unfold sibling
  omega

theorem sibling_ne (n : Nat) : sibling n ≠ n := by
  unfold sibling
  omega

theorem two_le_sibling (hn : 2 ≤ n) : 2 ≤ sibling n := by
  unfold sibling
  omega

theorem sibling_double (n : Nat) : sibling (2 * n) = 2 * n + 1 := by
  unfold sibling
  omega

/-- A node and its sibling are the two children of their parent. -/
theorem eq_children_half (hn : 2 ≤ n) :
    n = 2 * (n / 2) ∧ sibling n = 2 * (n / 2) + 1 ∨
      n = 2 * (n / 2) + 1 ∧ sibling n = 2 * (n / 2) := by
  unfold sibling
  omega

theorem within_sibling_half (hn : 2 ≤ n) : Within (sibling n) (n / 2) := by
  rw [← sibling_half hn]
  exact within_half _

/-- No node lies below a node and below its sibling. -/
theorem not_within_sibling (hn : 2 ≤ n) (hmn : Within m n)
    (hms : Within m (sibling n)) : False := by
  have hhalf : 1 ≤ n / 2 := by omega
  rcases eq_children_half hn with ⟨h1, h2⟩ | ⟨h1, h2⟩
  · rw [h1] at hmn
    rw [h2] at hms
    exact not_within_both hhalf hmn hms
  · rw [h1] at hmn
    rw [h2] at hms
    exact not_within_both hhalf hms hmn

/-- Below the parent of `n` there are the parent itself, the subtree of `n`
and the subtree of its sibling. -/
theorem Within.half_cases (hn : 2 ≤ n) (hm : Within m (n / 2)) :
    m = n / 2 ∨ Within m n ∨ Within m (sibling n) := by
  rcases hm.eq_or_child with heq | hchild
  · exact Or.inl heq
  · rcases eq_children_half hn with ⟨h1, h2⟩ | ⟨h1, h2⟩
    · rw [← h2, ← h1] at hchild
      exact Or.inr hchild
    · rw [← h1, ← h2] at hchild
      exact Or.inr hchild.symm

/-! ## Levels -/

theorem AtLevel.pos (hn : AtLevel b n) : 1 ≤ n :=
  le_trans Nat.one_le_two_pow hn.1

theorem atLevel_root : AtLevel 0 1 := by
  unfold AtLevel
  omega

theorem AtLevel.left (hn : AtLevel b n) : AtLevel (b + 1) (2 * n) := by
  unfold AtLevel at *
  rw [Nat.pow_succ 2 (b + 1), Nat.pow_succ 2 b] at *
  omega

theorem AtLevel.right (hn : AtLevel b n) : AtLevel (b + 1) (2 * n + 1) := by
  unfold AtLevel at *
  rw [Nat.pow_succ 2 (b + 1), Nat.pow_succ 2 b] at *
  omega

theorem AtLevel.half (hn : AtLevel (b + 1) n) : AtLevel b (n / 2) := by
  unfold AtLevel at *
  rw [Nat.pow_succ 2 (b + 1), Nat.pow_succ 2 b] at *
  omega

theorem AtLevel.two_le (hn : AtLevel (b + 1) n) : 2 ≤ n := by
  have hhalf := hn.half.pos
  omega

theorem AtLevel.sibling (hn : AtLevel (b + 1) n) :
    AtLevel (b + 1) (sibling n) := by
  have hhalf := hn.half
  rcases eq_children_half hn.two_le with ⟨-, h⟩ | ⟨-, h⟩
  · rw [h]
    exact hhalf.right
  · rw [h]
    exact hhalf.left

/-- The leftmost node of a level. -/
theorem atLevel_two_pow (b : Nat) : AtLevel b (2 ^ b) :=
  ⟨le_refl _, Nat.pow_lt_pow_right (by omega) (by omega)⟩

theorem AtLevel.eq_of_zero (hn : AtLevel 0 n) : n = 1 := by
  unfold AtLevel at hn
  omega

theorem AtLevel.unique (hb : AtLevel b n) (hc : AtLevel c n) : b = c := by
  rcases Nat.lt_trichotomy b c with h | h | h
  · have := Nat.pow_le_pow_right (n := 2) (by omega) (Nat.succ_le_of_lt h)
    exact absurd hb.2 (by have := hc.1; omega)
  · exact h
  · have := Nat.pow_le_pow_right (n := 2) (by omega) (Nat.succ_le_of_lt h)
    exact absurd hc.2 (by have := hb.1; omega)

theorem AtLevel.log2 (hn : AtLevel b n) : Nat.log2 n = b :=
  (Nat.log2_eq_iff (Nat.one_le_iff_ne_zero.mp hn.pos)).mpr hn

theorem exists_atLevel (hn : 1 ≤ n) : ∃ b, AtLevel b n :=
  ⟨Nat.log2 n, Nat.log2_self_le (by omega), Nat.lt_log2_self⟩

/-- A node below a node of level `b` has a level of at least `b`, and the
distance of the levels is the number of parent steps. -/
theorem Within.levels (hmn : Within m n) (hm : AtLevel c m)
    (hn : AtLevel b n) : b ≤ c ∧ m / 2 ^ (c - b) = n := by
  obtain ⟨i, rfl⟩ := hmn
  have hic : i ≤ c := by
    by_contra hlt
    have hbig : 2 ^ (c + 1) ≤ 2 ^ i := Nat.pow_le_pow_right (by omega) (by omega)
    have hzero : m / 2 ^ i = 0 := Nat.div_eq_of_lt (by have := hm.2; omega)
    have := hn.pos
    omega
  have hlevel : AtLevel (c - i) (m / 2 ^ i) := by
    constructor
    · rw [Nat.le_div_iff_mul_le (by positivity), ← Nat.pow_add]
      have : c - i + i = c := by omega
      rw [this]
      exact hm.1
    · rw [Nat.div_lt_iff_lt_mul (by positivity), ← Nat.pow_add]
      have : c - i + 1 + i = c + 1 := by omega
      rw [this]
      exact hm.2
  have hbc : b = c - i := hn.unique hlevel
  refine ⟨by omega, ?_⟩
  congr 2
  omega

theorem Within.eq_of_level (hmn : Within m n) (hm : AtLevel b m)
    (hn : AtLevel b n) : m = n := by
  obtain ⟨-, h⟩ := hmn.levels hm hn
  simpa using h

/-! ## Marked, occupied and vacant nodes -/

/-- The subtree of `n` contains a marked node. -/
def Occupied (marked : Set Nat) (n : Nat) : Prop := ∃ m ∈ marked, Within m n

/-- The marked nodes lie below the root and none lies below another. -/
structure Marking (marked : Set Nat) (root : Nat) : Prop where
  below : ∀ m ∈ marked, Within m root
  apart : ∀ m ∈ marked, ∀ n ∈ marked, Within m n → m = n

/-- `n` is a maximal unoccupied node below the root. -/
structure Vacant (marked : Set Nat) (root n : Nat) : Prop where
  below : Within n root
  empty : ¬ Occupied marked n
  maximal : n = root ∨ Occupied marked (sibling n)

variable {marked : Set Nat} {root : Nat}

theorem Occupied.up (hm : Occupied marked m) (hmn : Within m n) :
    Occupied marked n := by
  obtain ⟨k, hk, hkm⟩ := hm
  exact ⟨k, hk, hkm.trans hmn⟩

theorem occupied_of_mem (hn : n ∈ marked) : Occupied marked n :=
  ⟨n, hn, within_refl n⟩

theorem occupied_insert :
    Occupied (insert n marked) k ↔ Occupied marked k ∨ Within n k := by
  constructor
  · rintro ⟨m, hm, hmk⟩
    rcases Set.mem_insert_iff.mp hm with rfl | hm
    · exact Or.inr hmk
    · exact Or.inl ⟨m, hm, hmk⟩
  · rintro (⟨m, hm, hmk⟩ | hnk)
    · exact ⟨m, Set.mem_insert_of_mem n hm, hmk⟩
    · exact ⟨n, Set.mem_insert n marked, hnk⟩

theorem Marking.mono {marked' : Set Nat} (hmarking : Marking marked root)
    (hsub : marked' ⊆ marked) : Marking marked' root where
  below m hm := hmarking.below m (hsub hm)
  apart m hm n hn := hmarking.apart m (hsub hm) n (hsub hn)

theorem Vacant.not_mem (hn : Vacant marked root n) : n ∉ marked :=
  fun hmem => hn.empty (occupied_of_mem hmem)

/-- A proper ancestor, below the root, of a vacant node is occupied. -/
theorem Vacant.occupied_above (hn : Vacant marked root n) (hroot : 1 ≤ root)
    (hnk : Within n k) (hk : Within k root) (hne : n ≠ k) :
    Occupied marked k := by
  have hnroot : n ≠ root := by
    rintro rfl
    exact hne (hnk.antisymm hk)
  have htwo : 2 ≤ n := by
    have := hn.below.le
    omega
  have hsibling := hn.maximal.resolve_left hnroot
  have hhalf := hnk.eq_or_half.resolve_left hne
  exact hsibling.up ((within_sibling_half htwo).trans hhalf)

/-- A vacant node does not lie inside a marked one. -/
theorem Vacant.not_within_marked (hn : Vacant marked root n)
    (hmarking : Marking marked root) (hroot : 1 ≤ root) (hm : m ∈ marked) :
    ¬ Within n m := by
  intro hnm
  by_cases heq : n = m
  · exact hn.not_mem (heq ▸ hm)
  · have hnroot : n ≠ root := by
      rintro rfl
      exact heq (hnm.antisymm (hmarking.below m hm))
    have htwo : 2 ≤ n := by
      have := hn.below.le
      omega
    obtain ⟨k, hk, hks⟩ := hn.maximal.resolve_left hnroot
    have hhalf := hnm.eq_or_half.resolve_left heq
    have hkm : Within k m :=
      hks.trans ((within_sibling_half htwo).trans hhalf)
    have hkeq : k = m := hmarking.apart k hk m hm hkm
    rw [hkeq] at hks
    exact not_within_sibling htwo (within_refl n) (hnm.trans hks)

/-- Two vacant nodes above a common node are equal. -/
theorem Vacant.unique (hm : Vacant marked root m) (hn : Vacant marked root n)
    (hroot : 1 ≤ root) (hkm : Within k m) (hkn : Within k n) : m = n := by
  by_contra hne
  rcases hkm.total hkn with h | h
  · exact hn.empty (hm.occupied_above hroot h hn.below hne)
  · exact hm.empty (hn.occupied_above hroot h hm.below (Ne.symm hne))

/-- No node lies below a vacant and below a marked node. -/
theorem Vacant.apart_marked (hn : Vacant marked root n)
    (hmarking : Marking marked root) (hroot : 1 ≤ root) (hm : m ∈ marked)
    (hkn : Within k n) (hkm : Within k m) : False := by
  rcases hkn.total hkm with h | h
  · exact hn.not_within_marked hmarking hroot hm h
  · exact hn.empty ⟨m, hm, h⟩

/-- Below the root, a node that is neither inside a marked node nor above one
lies inside a vacant node. -/
theorem exists_vacant_above (root : Nat) (hroot : 1 ≤ root) :
    ∀ k, Within k root → (∀ m ∈ marked, ¬ Within k m) →
      ¬ Occupied marked k → ∃ v, Vacant marked root v ∧ Within k v := by
  intro k
  induction k using Nat.strong_induction_on with
  | _ k ih =>
      intro hk houtside hempty
      by_cases hkroot : k = root
      · exact ⟨k, ⟨hk, hempty, Or.inl hkroot⟩, within_refl k⟩
      have htwo : 2 ≤ k := by
        have := hk.le
        omega
      by_cases hsibling : Occupied marked (sibling k)
      · exact ⟨k, ⟨hk, hempty, Or.inr hsibling⟩, within_refl k⟩
      have hhalf : ¬ Occupied marked (k / 2) := by
        rintro ⟨m, hm, hmk⟩
        rcases hmk.half_cases htwo with rfl | h | h
        · exact houtside _ hm (within_half k)
        · exact hempty ⟨m, hm, h⟩
        · exact hsibling ⟨m, hm, h⟩
      obtain ⟨v, hv, hkv⟩ := ih (k / 2) (by omega)
        (hk.eq_or_half.resolve_left hkroot)
        (fun m hm h => houtside m hm ((within_half k).trans h)) hhalf
      exact ⟨v, hv, (within_half k).trans hkv⟩

/-- With no marked node the root is the only vacant one. -/
theorem vacant_empty_iff : Vacant ∅ root n ↔ n = root := by
  constructor
  · rintro ⟨-, -, heq | ⟨m, hm, -⟩⟩
    · exact heq
    · exact absurd hm (Set.notMem_empty m)
  · rintro rfl
    refine ⟨within_refl n, ?_, Or.inl rfl⟩
    rintro ⟨m, hm, -⟩
    exact absurd hm (Set.notMem_empty m)

/-! ## Marking a vacant node -/

theorem Vacant.marking_insert (hn : Vacant marked root n)
    (hmarking : Marking marked root) (hroot : 1 ≤ root) :
    Marking (insert n marked) root where
  below m hm := by
    rcases Set.mem_insert_iff.mp hm with rfl | hm
    · exact hn.below
    · exact hmarking.below m hm
  apart m hm k hk hmk := by
    rcases Set.mem_insert_iff.mp hm with rfl | hm
    · rcases Set.mem_insert_iff.mp hk with rfl | hk
      · rfl
      · exact absurd hmk (hn.not_within_marked hmarking hroot hk)
    · rcases Set.mem_insert_iff.mp hk with heq | hk
      · exact absurd ⟨m, hm, heq ▸ hmk⟩ hn.empty
      · exact hmarking.apart m hm k hk hmk

/-- Marking a vacant node occupies that node and no other node of the tree. -/
theorem Vacant.occupied_insert_iff (hn : Vacant marked root n)
    (hroot : 1 ≤ root) (hk : Within k root) :
    Occupied (insert n marked) k ↔ Occupied marked k ∨ k = n := by
  rw [occupied_insert]
  constructor
  · rintro (hocc | hnk)
    · exact Or.inl hocc
    · by_cases heq : n = k
      · exact Or.inr heq.symm
      · exact Or.inl (hn.occupied_above hroot hnk hk heq)
  · rintro (hocc | rfl)
    · exact Or.inl hocc
    · exact Or.inr (within_refl k)

/-- Marking a vacant node removes it, and only it, from the vacant nodes. -/
theorem Vacant.vacant_insert_iff (hn : Vacant marked root n)
    (hroot : 1 ≤ root) :
    Vacant (insert n marked) root k ↔ Vacant marked root k ∧ k ≠ n := by
  constructor
  · rintro ⟨hbelow, hempty, hmaximal⟩
    rw [hn.occupied_insert_iff hroot hbelow, not_or] at hempty
    refine ⟨⟨hbelow, hempty.1, ?_⟩, hempty.2⟩
    by_cases hkroot : k = root
    · exact Or.inl hkroot
    have hsibling := hmaximal.resolve_left hkroot
    have htwo : 2 ≤ k := by
      have := hbelow.le
      omega
    have hsbelow : Within (sibling k) root :=
      (within_sibling_half htwo).trans (hbelow.eq_or_half.resolve_left hkroot)
    rcases (hn.occupied_insert_iff hroot hsbelow).mp hsibling with hocc | heq
    · exact Or.inr hocc
    · -- `k` is the sibling of the vacant node `n`, hence occupied.
      have hnroot : n ≠ root := by
        rintro rfl
        rw [← heq] at hbelow
        exact not_within_sibling htwo (within_refl k) hbelow
      have hocc := hn.maximal.resolve_left hnroot
      rw [← heq, sibling_sibling htwo] at hocc
      exact absurd hocc hempty.1
  · rintro ⟨hk, hne⟩
    refine ⟨hk.below, ?_, hk.maximal.imp id fun hocc => ?_⟩
    · rw [hn.occupied_insert_iff hroot hk.below, not_or]
      exact ⟨hk.empty, hne⟩
    · rw [occupied_insert]
      exact Or.inl hocc

/-- Unmarking a node that is the root or has an occupied sibling makes it
vacant. -/
theorem Marking.vacant_of_insert (hmarking : Marking (insert n marked) root)
    (hn : n ∉ marked) (hmaximal : n = root ∨ Occupied marked (sibling n)) :
    Vacant marked root n where
  below := hmarking.below n (Set.mem_insert n marked)
  empty := by
    rintro ⟨m, hm, hmn⟩
    have heq := hmarking.apart m (Set.mem_insert_of_mem n hm) n
      (Set.mem_insert n marked) hmn
    exact hn (heq ▸ hm)
  maximal := hmaximal

/-! ## Moving a mark to a child -/

/-- A marked node may be replaced by one of its children. -/
theorem Marking.child (hmarking : Marking (insert (c / 2) marked) root)
    (hhalf : c / 2 ∉ marked) :
    Marking (insert c marked) root where
  below m hm := by
    rcases Set.mem_insert_iff.mp hm with rfl | hm
    · exact (within_half m).trans (hmarking.below _ (Set.mem_insert _ _))
    · exact hmarking.below m (Set.mem_insert_of_mem _ hm)
  apart m hm k hk hmk := by
    rcases Set.mem_insert_iff.mp hm with rfl | hm
    · rcases Set.mem_insert_iff.mp hk with rfl | hk
      · rfl
      · rcases hmk.eq_or_half with heq | h
        · exact heq
        · have := hmarking.apart _ (Set.mem_insert _ _) k
            (Set.mem_insert_of_mem _ hk) h
          exact absurd (this ▸ hk) hhalf
    · rcases Set.mem_insert_iff.mp hk with heq | hk
      · have := hmarking.apart m (Set.mem_insert_of_mem _ hm) _
          (Set.mem_insert _ _) ((heq ▸ hmk).trans (within_half c))
        exact absurd (this ▸ hm) hhalf
      · exact hmarking.apart m (Set.mem_insert_of_mem _ hm) k
          (Set.mem_insert_of_mem _ hk) hmk

/-- A mark moved to a child occupies that child in addition. -/
theorem Marking.occupied_child_iff (hc : 2 ≤ c) :
    Occupied (insert c marked) k ↔
      k = c ∨ Occupied (insert (c / 2) marked) k := by
  rw [occupied_insert, occupied_insert]
  constructor
  · rintro (hocc | hck)
    · exact Or.inr (Or.inl hocc)
    · rcases hck.eq_or_half with heq | h
      · exact Or.inl heq.symm
      · exact Or.inr (Or.inr h)
  · rintro (rfl | hocc | h)
    · exact Or.inr (within_refl k)
    · exact Or.inl hocc
    · exact Or.inr ((within_half c).trans h)

/-- A mark moved to a child makes the other child vacant and changes no other
vacant node. -/
theorem Marking.vacant_child_iff
    (hmarking : Marking (insert (c / 2) marked) root)
    (hhalf : c / 2 ∉ marked) (hc : 2 ≤ c) (hroot : 1 ≤ root) :
    Vacant (insert c marked) root k ↔
      Vacant (insert (c / 2) marked) root k ∨ k = sibling c := by
  -- Nothing is marked below the node that is split.
  have hinside : ∀ m ∈ marked, ¬ Within m (c / 2) := by
    intro m hm h
    have := hmarking.apart m (Set.mem_insert_of_mem _ hm) _
      (Set.mem_insert _ _) h
    exact hhalf (this ▸ hm)
  have hbelow : Within (c / 2) root := hmarking.below _ (Set.mem_insert _ _)
  constructor
  · rintro ⟨hk, hempty, hmaximal⟩
    rw [Marking.occupied_child_iff hc, not_or] at hempty
    -- Only the sibling is new among the vacant nodes.
    by_cases hks : k = sibling c
    · exact Or.inr hks
    refine Or.inl ⟨hk, hempty.2, hmaximal.imp id fun hocc => ?_⟩
    rcases (Marking.occupied_child_iff hc).mp hocc with heq | hocc
    · by_cases htwo : 2 ≤ k
      · exact absurd (by rw [← heq, sibling_sibling htwo]) hks
      · have hone : k = 1 := by
          have := hk.le
          omega
        subst hone
        exact absurd heq (by unfold sibling; omega)
    · exact hocc
  · rintro (hk | rfl)
    · refine ⟨hk.below, ?_, hk.maximal.imp id fun hocc => ?_⟩
      · rw [Marking.occupied_child_iff hc, not_or]
        refine ⟨?_, hk.empty⟩
        rintro rfl
        exact hk.not_within_marked hmarking hroot (Set.mem_insert _ _)
          (within_half k)
      · exact (Marking.occupied_child_iff hc).mpr (Or.inr hocc)
    · refine ⟨(within_sibling_half hc).trans hbelow, ?_, Or.inr ?_⟩
      · rw [occupied_insert, not_or]
        refine ⟨?_, fun h => not_within_sibling hc (within_refl c) h⟩
        rintro ⟨m, hm, h⟩
        exact hinside m hm (h.trans (within_sibling_half hc))
      · rw [sibling_sibling hc]
        exact occupied_of_mem (Set.mem_insert c marked)

/-- When the sibling of a marked node is vacant, the mark may move to the
parent. -/
theorem Marking.parent (hmarking : Marking (insert c marked) root)
    (hc : c ∉ marked) (htwo : 2 ≤ c) (hroot : 1 ≤ root)
    (hvacant : Vacant (insert c marked) root (sibling c)) :
    Marking (insert (c / 2) marked) root ∧ c / 2 ∉ marked := by
  have hcbelow := hmarking.below c (Set.mem_insert c marked)
  have hcroot : c ≠ root := by
    rintro rfl
    exact not_within_sibling htwo hvacant.below (within_refl _)
  have hinside : ∀ m ∈ marked, ¬ Within m (c / 2) := by
    intro m hm h
    -- Below the parent: the parent, the node and the vacant sibling.
    rcases h.half_cases htwo with rfl | h | h
    · have := hmarking.apart c (Set.mem_insert _ _) _
        (Set.mem_insert_of_mem _ hm) (within_half c)
      omega
    · have := hmarking.apart m (Set.mem_insert_of_mem _ hm) c
        (Set.mem_insert _ _) h
      exact hc (this ▸ hm)
    · exact hvacant.empty ⟨m, Set.mem_insert_of_mem _ hm, h⟩
  have hnot : c / 2 ∉ marked := fun hmem =>
    hinside _ hmem (within_refl _)
  refine ⟨⟨?_, ?_⟩, hnot⟩
  · intro m hm
    rcases Set.mem_insert_iff.mp hm with rfl | hm
    · exact hcbelow.eq_or_half.resolve_left hcroot
    · exact hmarking.below m (Set.mem_insert_of_mem _ hm)
  · intro m hm k hk hmk
    rcases Set.mem_insert_iff.mp hm with rfl | hm
    · rcases Set.mem_insert_iff.mp hk with rfl | hk
      · rfl
      · have := hmarking.apart c (Set.mem_insert _ _) k
          (Set.mem_insert_of_mem _ hk) ((within_half c).trans hmk)
        exact absurd (this ▸ hk) hc
    · rcases Set.mem_insert_iff.mp hk with rfl | hk
      · exact absurd hmk (hinside m hm)
      · exact hmarking.apart m (Set.mem_insert_of_mem _ hm) k
          (Set.mem_insert_of_mem _ hk) hmk

/-! ## Moving the root up -/

theorem Marking.root_half (hmarking : Marking marked root) :
    Marking marked (root / 2) where
  below m hm := (hmarking.below m hm).trans (within_half root)
  apart := hmarking.apart

/-- When the root moves to its parent over an occupied tree, the sibling of
the old root is the only new vacant node. -/
theorem Marking.vacant_root_half_iff (hmarking : Marking marked root)
    (hroot : 2 ≤ root) (hocc : Occupied marked root) :
    Vacant marked (root / 2) k ↔
      Vacant marked root k ∨ k = sibling root := by
  constructor
  · rintro ⟨hk, hempty, hmaximal⟩
    have hkhalf : k ≠ root / 2 := by
      rintro rfl
      exact hempty (hocc.up (within_half root))
    have hsibling := hmaximal.resolve_left hkhalf
    rcases hk.half_cases hroot with heq | h | h
    · exact absurd heq hkhalf
    · exact Or.inl ⟨h, hempty, Or.inr hsibling⟩
    · refine Or.inr (h.eq_or_half.resolve_right fun hhalf => ?_)
      have htwo : 2 ≤ k := by
        have := h.le
        have := two_le_sibling hroot
        omega
      obtain ⟨m, hm, hms⟩ := hsibling
      exact not_within_sibling hroot (hmarking.below m hm)
        (hms.trans ((within_sibling_half htwo).trans hhalf))
  · rintro (hk | rfl)
    · refine ⟨hk.below.trans (within_half root), hk.empty, Or.inr ?_⟩
      refine hk.maximal.resolve_left ?_
      rintro rfl
      exact hk.empty hocc
    · refine ⟨within_sibling_half hroot, ?_, Or.inr ?_⟩
      · rintro ⟨m, hm, hms⟩
        exact not_within_sibling hroot (hmarking.below m hm) hms
      · rw [sibling_sibling hroot]
        exact hocc

/-! ## Nodes in use -/

/-- `n` is a node of the tree that is marked or has a marked node below it. -/
def InUse (marked : Set Nat) (root n : Nat) : Prop :=
  Within n root ∧ Occupied marked n

/-- The predicate `q` holds of the node `n` and otherwise agrees with `p`, which
does not hold of `n`. -/
structure OneMore (p q : Nat → Prop) (n : Nat) : Prop where
  absent : ¬ p n
  iff : ∀ k, q k ↔ p k ∨ k = n

theorem OneMore.self {p q : Nat → Prop} (h : OneMore p q n) : q n :=
  (h.iff n).mpr (Or.inr rfl)

theorem OneMore.of_ne {p q : Nat → Prop} (h : OneMore p q n) (hk : k ≠ n) :
    q k ↔ p k := by
  rw [h.iff]
  tauto

theorem not_inUse_empty : ¬ InUse ∅ root k := by
  rintro ⟨-, m, hm, -⟩
  exact hm

/-- Nothing properly below a marked node is in use. -/
theorem Marking.not_inUse_below (hmarking : Marking marked root)
    (hm : m ∈ marked) (hkm : Within k m) (hne : k ≠ m) :
    ¬ InUse marked root k := by
  rintro ⟨-, j, hj, hjk⟩
  have heq := hmarking.apart j hj m hm (hjk.trans hkm)
  subst heq
  exact hne (hkm.antisymm hjk)

/-- A marked node is in use. -/
theorem Marking.inUse (hmarking : Marking marked root) (hm : m ∈ marked) :
    InUse marked root m :=
  ⟨hmarking.below m hm, occupied_of_mem hm⟩

/-- An unmarked node other than the parent of the root is in use exactly when
one of its children is. -/
theorem inUse_iff_child (hn : n ∉ marked) (hne : n ≠ root / 2) :
    InUse marked root n ↔
      InUse marked root (2 * n) ∨ InUse marked root (2 * n + 1) := by
  have hup : ∀ c, c / 2 = n → InUse marked root c → InUse marked root n := by
    rintro c rfl ⟨hc, hocc⟩
    refine ⟨hc.eq_or_half.resolve_left ?_, hocc.up (within_half c)⟩
    rintro rfl
    exact hne rfl
  constructor
  · rintro ⟨hbelow, m, hm, hmn⟩
    rcases hmn.eq_or_child with heq | h | h
    · exact absurd (heq ▸ hm) hn
    · exact Or.inl ⟨(within_child_left n).trans hbelow, m, hm, h⟩
    · exact Or.inr ⟨(within_child_right n).trans hbelow, m, hm, h⟩
  · rintro (h | h)
    · exact hup _ (by omega) h
    · exact hup _ (by omega) h

/-- Marking a vacant node brings that node into use. -/
theorem Vacant.oneMore (hn : Vacant marked root n) (hroot : 1 ≤ root) :
    OneMore (InUse marked root) (InUse (insert n marked) root) n where
  absent h := hn.empty h.2
  iff k := by
    constructor
    · rintro ⟨hk, hocc⟩
      exact ((hn.occupied_insert_iff hroot hk).mp hocc).imp (And.intro hk) id
    · rintro (⟨hk, hocc⟩ | rfl)
      · exact ⟨hk, (hn.occupied_insert_iff hroot hk).mpr (Or.inl hocc)⟩
      · exact ⟨hn.below, occupied_of_mem (Set.mem_insert k marked)⟩

/-- A mark moved to a child brings that child into use. -/
theorem Marking.oneMore_child
    (hmarking : Marking (insert (c / 2) marked) root)
    (hhalf : c / 2 ∉ marked) (hc : 2 ≤ c) :
    OneMore (InUse (insert (c / 2) marked) root) (InUse (insert c marked) root)
      c where
  absent := by
    rintro ⟨-, m, hm, hmc⟩
    have heq := hmarking.apart m hm (c / 2) (Set.mem_insert _ _)
      (hmc.trans (within_half c))
    have hle := hmc.le
    omega
  iff k := by
    constructor
    · rintro ⟨hk, hocc⟩
      rcases (Marking.occupied_child_iff hc).mp hocc with heq | hocc
      · exact Or.inr heq
      · exact Or.inl ⟨hk, hocc⟩
    · rintro (⟨hk, hocc⟩ | rfl)
      · exact ⟨hk, (Marking.occupied_child_iff hc).mpr (Or.inr hocc)⟩
      · exact ⟨(within_half k).trans (hmarking.below _ (Set.mem_insert _ _)),
          occupied_of_mem (Set.mem_insert k marked)⟩

/-- When the root moves to its parent over an occupied tree, the new root comes
into use. -/
theorem Marking.oneMore_root_half (hmarking : Marking marked root)
    (hroot : 2 ≤ root) (hocc : Occupied marked root) :
    OneMore (InUse marked root) (InUse marked (root / 2)) (root / 2) where
  absent := by
    rintro ⟨hwithin, -⟩
    have hle := hwithin.le
    omega
  iff k := by
    constructor
    · rintro ⟨hk, hocck⟩
      rcases hk.half_cases hroot with heq | h | h
      · exact Or.inr heq
      · exact Or.inl ⟨h, hocck⟩
      · obtain ⟨m, hm, hmk⟩ := hocck
        exact absurd (hmk.trans h)
          (not_within_sibling hroot (hmarking.below m hm))
    · rintro (⟨hk, hocck⟩ | rfl)
      · exact ⟨hk.trans (within_half root), hocck⟩
      · exact ⟨within_refl _, hocc.up (within_half root)⟩

/-- The sibling of the root is never in use. -/
theorem not_inUse_sibling_root (marked : Set Nat) (root : Nat) (hroot : 2 ≤ root) :
    ¬ InUse marked root (sibling root) := fun h =>
  not_within_sibling hroot h.1 (within_refl _)

/-! ## The segment under the tree -/

/-- Start of the part of node `n` of level `b` in a segment of `2 ^ h`. -/
def offset (h b n : Nat) : Nat := (n - 2 ^ b) * 2 ^ (h - b)

theorem two_pow_split {h b : Nat} (hb : b ≤ h) :
    2 ^ b * 2 ^ (h - b) = 2 ^ h := by
  rw [← Nat.pow_add]
  congr 1
  omega

theorem offset_add_size_le {h : Nat} (hb : b ≤ h) (hn : AtLevel b n) :
    offset h b n + 2 ^ (h - b) ≤ 2 ^ h := by
  unfold offset
  have hlt : n - 2 ^ b + 1 ≤ 2 ^ b := by
    have := hn.2
    rw [Nat.pow_succ] at this
    omega
  calc (n - 2 ^ b) * 2 ^ (h - b) + 2 ^ (h - b)
      = (n - 2 ^ b + 1) * 2 ^ (h - b) := by ring
    _ ≤ 2 ^ b * 2 ^ (h - b) := Nat.mul_le_mul_right _ hlt
    _ = 2 ^ h := two_pow_split hb

/-- The positions of the part of `n` are the leaves of its subtree. -/
theorem within_leaf_iff {h x : Nat} (hb : b ≤ h) (hn : AtLevel b n)
    (hx : x < 2 ^ h) :
    Within (2 ^ h + x) n ↔
      offset h b n ≤ x ∧ x < offset h b n + 2 ^ (h - b) := by
  have hleaf : AtLevel h (2 ^ h + x) := by
    unfold AtLevel
    rw [Nat.pow_succ]
    omega
  have hdiv : (2 ^ h + x) / 2 ^ (h - b) = 2 ^ b + x / 2 ^ (h - b) := by
    rw [← two_pow_split hb, Nat.add_comm, Nat.add_mul_div_right _ _
      (by positivity), Nat.add_comm]
  have hinterval : x / 2 ^ (h - b) = n - 2 ^ b ↔
      offset h b n ≤ x ∧ x < offset h b n + 2 ^ (h - b) := by
    unfold offset
    rw [Nat.div_eq_iff (by positivity)]
    have hpos : 0 < 2 ^ (h - b) := by positivity
    omega
  rw [← hinterval]
  have hlow := hn.1
  constructor
  · intro hwithin
    obtain ⟨-, heq⟩ := hwithin.levels hleaf hn
    omega
  · intro heq
    exact ⟨h - b, by omega⟩

end DyadicTree
end Library
end OsStuff
