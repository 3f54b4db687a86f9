import OsStuff.Library.TreeLeaves
import OsStuff.BuddyAlloc.FirstCounts
import OsStuff.BuddyAlloc.TreePrinter

/-!
# What the tree printer prints

The lines without children are the leaves of the tree, as long as no block of the
smallest size is live.  Such a block lies on the last level, and the printer
reads the statuses of its children, which do not exist.
-/

namespace OsStuff
namespace BuddyAlloc
namespace Malloc2

open Library Library.DyadicTree

variable {platform : Platform} {heap : Heap} {arena : Arena}
  {status : Nat → Nat} {marked : Set Nat} {parts : List Segment}
  {front back right left lines : List Line} {line : Line}
  {b n m c limit buckets index st l r root : Nat} {grant : Nat → Bool}

/-! ## Lines without children -/

/-- A list after a list of lines that are at least as deep as its first line. -/
theorem childless_append (hdeep : ∀ line ∈ front, ∀ first ∈ back.head?,
    first.depth ≤ line.depth) :
    childless (front ++ back) = childless front ++ childless back := by
  induction front with
  | nil => rfl
  | cons line front ih =>
      have htail := ih fun line' hmem =>
        hdeep line' (List.mem_cons_of_mem line hmem)
      cases front with
      | nil =>
          cases back with
          | nil => rfl
          | cons first rest =>
              have hle := hdeep line List.mem_cons_self first (by simp)
              exact if_neg (by omega)
      | cons next rest =>
          simp only [List.cons_append, childless] at htail ⊢
          split
          · exact htail
          · rw [htail, List.cons_append]

/-- A line with a deeper line after it has children. -/
theorem childless_cons (hdeep : ∃ first ∈ lines.head?, line.depth < first.depth) :
    childless (line :: lines) = childless lines := by
  obtain ⟨first, hfirst, hlt⟩ := hdeep
  cases lines with
  | nil => simp at hfirst
  | cons next rest =>
      obtain rfl : next = first := by simpa using hfirst
      exact if_pos hlt

/-! ## The lines of a subtree -/

open Classical in
/-- What is to be printed about a leaf. -/
noncomputable def leafEntry (marked : Set Nat) (n : Nat) : Word × Nat :=
  (if n ∈ marked then .used else .unused, 2 ^ (31 - Nat.log2 n))

/-- The lines show the leaves below a node, under a line with the given
prefix. -/
structure Shows (marked : Set Nat) (root b n : Nat) (parts : List Segment)
    (lines : List Line) : Prop where
  head : ∃ first ∈ lines.head?, first.depth = parts.length
  deep : ∀ line ∈ lines, parts.length ≤ line.depth
  leaves : ∃ nodes : List Nat, nodes.Nodup ∧
    (∀ k, k ∈ nodes ↔ Leaf marked root k ∧ Within k n) ∧
    (childless lines).map Line.entry = nodes.map (leafEntry marked)
  sizes : ((childless lines).map Line.size).sum = 2 ^ (31 - b)

theorem lineSize_eq (hb : 1 ≤ b) : lineSize b = 2 ^ (31 - b) := by
  unfold lineSize
  rw [if_neg (by omega), Nat.one_shiftLeft, maxAllocLog2]

/-- A leaf has one line. -/
theorem Shows.leaf (hb : AtLevel b n) (hpos : 1 ≤ b)
    (honly : ∀ k, Leaf marked root k ∧ Within k n ↔ k = n) {word : Word}
    (hword : (leafEntry marked n).1 = word) :
    Shows marked root b n parts [⟨parts, word, lineSize b⟩] where
  head := ⟨_, rfl, rfl⟩
  deep line hline := by
    obtain rfl := List.mem_singleton.mp hline
    exact le_refl _
  leaves := by
    refine ⟨[n], List.nodup_singleton n, fun k => ?_, ?_⟩
    · rw [List.mem_singleton, honly]
    · have hsize : (leafEntry marked n).2 = lineSize b := by
        rw [lineSize_eq hpos, ← hb.log2]
        rfl
      simp only [childless, List.map_cons, List.map_nil, Line.entry, ← hword,
        ← hsize]
  sizes := by
    simp only [childless, List.map_cons, List.map_nil, List.sum_cons,
      List.sum_nil, Nat.add_zero, lineSize_eq hpos]

/-- The lines of an inner node are its own line, which has children, and the
lines of its children. -/
theorem Shows.inner (hb : AtLevel b n) (hlt : b < 31)
    (hocc : Occupied marked n) (hn : n ∉ marked)
    (hline : line.depth = parts.length)
    (hright : Shows marked root (b + 1) (2 * n + 1) (prefixCreate parts) right)
    (hleft : Shows marked root (b + 1) (2 * n)
      (prefixCutIfEnded (prefixCreate parts)) left) :
    Shows marked root b n parts ([line] ++ right ++ left) := by
  have hdeepRight := hright.deep
  have hdeepLeft := hleft.deep
  obtain ⟨first, hfirst, hdepth⟩ := hright.head
  obtain ⟨first', hfirst', hdepth'⟩ := hleft.head
  simp only [length_prefixCreate, length_prefixCutIfEnded] at *
  -- The line of the node itself has a deeper line behind it, so it is no leaf, and the last
  -- line of the right part is followed by a line that is not deeper.
  have hchildless : childless ([line] ++ right ++ left) =
      childless right ++ childless left := by
    have hhead : first ∈ (right ++ left).head? := by
      rw [List.head?_append, Option.mem_def.mp hfirst]
      rfl
    rw [List.append_assoc, List.singleton_append,
      childless_cons ⟨first, hhead, by omega⟩]
    refine childless_append fun line' hline' next hnext => ?_
    rw [Option.mem_unique hnext hfirst']
    have hle := hdeepRight line' hline'
    omega
  refine ⟨⟨line, rfl, hline⟩, fun line' hline' => ?_, ?_, ?_⟩
  · rcases List.mem_append.mp hline' with hmem | hmem
    · rcases List.mem_append.mp hmem with hmem | hmem
      · rw [List.mem_singleton.mp hmem]
        omega
      · have hle := hdeepRight line' hmem
        omega
    · have hle := hdeepLeft line' hmem
      omega
  · obtain ⟨nodes, hnodup, hmem, hentries⟩ := hright.leaves
    obtain ⟨nodes', hnodup', hmem', hentries'⟩ := hleft.leaves
    refine ⟨nodes ++ nodes', List.nodup_append.mpr ⟨hnodup, hnodup', ?_⟩,
      fun k => ?_, ?_⟩
    · rintro k hk _ hk' rfl
      exact not_within_both hb.pos ((hmem' k).mp hk').2 ((hmem k).mp hk).2
    · rw [List.mem_append, hmem, hmem', leaf_within_inner hocc hn, or_comm]
    · rw [hchildless, List.map_append, List.map_append, hentries, hentries']
  · rw [hchildless, List.map_append, List.sum_append, hright.sizes, hleft.sizes,
      show 31 - b = 31 - (b + 1) + 1 by omega, Nat.pow_succ]
    omega

/-! ## The statuses that the printer meets -/

theorem debugTreeRec_unused (hstatus : getNodeStatus heap index = some unused) :
    debugTreeRec heap (buckets + 1) index parts =
      some [⟨parts, .unused, lineSize (bucketCount - (buckets + 1))⟩] := by
  simp only [debugTreeRec, hstatus, Option.bind_eq_bind, Option.bind_some, if_pos]

theorem debugTreeRec_used (hstatus : getNodeStatus heap index = some used)
    (hleft : getNodeStatus heap (wrap (index * 2 + 1)) = some unused)
    (hright : getNodeStatus heap (wrap (index * 2 + 2)) = some unused) :
    debugTreeRec heap (buckets + 1) index parts =
      some [⟨parts, .used, lineSize (bucketCount - (buckets + 1))⟩] := by
  have hne : ¬ used = unused := by simp
  simp only [debugTreeRec, hstatus, hleft, hright, Option.bind_eq_bind,
    Option.bind_some, if_neg hne, and_self, if_true]

/-- The right child of a node on the last level does not exist. -/
theorem debugTreeRec_last (hstatus : getNodeStatus heap index = some used)
    (hright : getNodeStatus heap (wrap (index * 2 + 2)) = none) :
    debugTreeRec heap (buckets + 1) index parts = none := by
  have hne : ¬ used = unused := by simp
  simp only [debugTreeRec, hstatus, hright, Option.bind_eq_bind,
    Option.bind_some, if_neg hne, Option.bind_none, Option.bind_fun_none]

theorem debugTreeRec_inner (hstatus : getNodeStatus heap index = some st)
    (hleft : getNodeStatus heap (wrap (index * 2 + 1)) = some l)
    (hright : getNodeStatus heap (wrap (index * 2 + 2)) = some r)
    (hst : st = split ∨ st = used) (hchild : l ≠ unused ∨ r ≠ unused) :
    debugTreeRec heap (buckets + 1) index parts =
      (debugTreeRec heap buckets (wrap (index * 2 + 2)) (prefixCreate parts)).bind
        fun right => (debugTreeRec heap buckets (wrap (index * 2 + 1))
          (prefixCutIfEnded (prefixCreate parts))).bind
            fun left => some ([⟨parts, if st = used then .used else .split,
              lineSize (bucketCount - (buckets + 1))⟩] ++ right ++ left) := by
  have hne : ¬ st = unused := by
    rcases hst with rfl | rfl <;> simp
  have hnot : ¬ (st = used ∧ l = unused ∧ r = unused) := by tauto
  simp only [debugTreeRec, hstatus, hleft, hright, Option.bind_eq_bind,
    Option.bind_some, if_neg hne, if_neg hnot]
  rcases hst with rfl | rfl
  · rfl
  · rfl

open Classical in
/-- The status of a node of the tree. -/
noncomputable def treeStatus (marked : Set Nat) (root n : Nat) : Nat :=
  if n ∈ marked then used else useCount (InUse marked root) n

theorem treeStatus_unused_iff (hbelow : Within n root) (hpos : 1 ≤ root) :
    treeStatus marked root n = unused ↔ ¬ Occupied marked n := by
  have hle := hbelow.le
  unfold treeStatus
  by_cases hmem : n ∈ marked
  · have hocc := occupied_of_mem hmem
    rw [if_pos hmem]
    simp [hocc]
  · have hiff : InUse marked root n ↔
        InUse marked root (2 * n) ∨ InUse marked root (2 * n + 1) :=
      inUse_iff_child hmem (by omega)
    have hself : InUse marked root n ↔ Occupied marked n := and_iff_right hbelow
    rw [if_neg hmem, unused, useCount_eq_zero_iff, ← hself, hiff]
    tauto

/-- A node of the tree is one of three kinds. -/
theorem treeStatus_le (marked : Set Nat) (root n : Nat) :
    treeStatus marked root n ≤ used := by
  unfold treeStatus
  split
  · exact le_refl _
  · exact useCount_le _ _

/-- `node_status` holds the statuses of the tree. -/
theorem Rooted.getNodeStatus (h : Rooted heap.nodeStatus arena.limit marked)
    (hone : 1 ∉ marked) (hbelow : Within n (2 ^ arena.limit)) (hlt : n < 2 ^ 28) :
    Malloc2.getNodeStatus heap (n - 1) =
      some (treeStatus marked (2 ^ arena.limit) n) := by
  have hpos := Nat.one_le_two_pow (n := arena.limit)
  have hle := hbelow.le
  rw [getNodeStatus_eq heap (by omega) hlt]
  congr 1
  unfold treeStatus
  by_cases hfirst : n = 1
  · subst hfirst
    have hzero : arena.limit = 0 := by
      by_contra hne
      have htwo : 2 ^ 1 ≤ 2 ^ arena.limit :=
        Nat.pow_le_pow_right (by omega) (by omega)
      omega
    rw [if_neg hone, h.first hzero]
  · by_cases hmem : n ∈ marked
    · rw [if_pos hmem, h.counts.taken n hmem (by omega) (by omega)]
    · rw [if_neg hmem, h.counts.inner n (by omega) hlt hmem (by omega)
        (ne_half_root hbelow)]

/-- The indices of the children, as the printer computes them. -/
theorem child_indices (hpos : 1 ≤ n) (hlt : n < 2 ^ 28) :
    wrap ((n - 1) * 2 + 1) = 2 * n - 1 ∧
      wrap ((n - 1) * 2 + 2) = 2 * n + 1 - 1 := by
  constructor
  · rw [wrap_of_lt (by omega)]
    omega
  · rw [wrap_of_lt (by omega)]
    omega

/-- Statuses beyond the last level do not exist. -/
theorem getNodeStatus_none (heap : Heap) (hlarge : 2 ^ 28 ≤ index) :
    getNodeStatus heap index = none := by
  have hout : ¬ index / 4 < statusBytes := by
    simp only [statusBytes, bucketCount, maxAllocLog2, minAllocLog2]
    omega
  exact if_neg hout

/-- The subtree of a shown node, with what the printer needs to know about
it. -/
structure Walk (heap : Heap) (arena : Arena) (marked : Set Nat) (b n : Nat) :
    Prop where
  rooted : Rooted heap.nodeStatus arena.limit marked
  shape : arena.Shape marked
  first : 1 ∉ marked
  taken : marked ≠ ∅
  shown : Shown marked (2 ^ arena.limit) n
  level : AtLevel b n
  deep : b < 28

namespace Walk

theorem lt (h : Walk heap arena marked b n) : n < 2 ^ 28 :=
  node_lt h.level (by simpa using h.deep)

/-- A leaf lies below node `1`. -/
theorem leaf_pos (h : Walk heap arena marked b n)
    (hleaf : Leaf marked (2 ^ arena.limit) n) : 1 ≤ b := by
  by_contra hzero
  obtain rfl : b = 0 := by omega
  have hone := h.level.eq_of_zero
  subst hone
  rcases hleaf with hmem | hvacant
  · exact h.first hmem
  · have hle := hvacant.below.le
    have hpos := Nat.one_le_two_pow (n := arena.limit)
    obtain ⟨m, hm⟩ := Set.nonempty_iff_ne_empty.mpr h.taken
    have hbelow := h.shape.marking.below m hm
    rw [show 2 ^ arena.limit = 1 by omega] at hbelow
    exact hvacant.empty ⟨m, hm, hbelow⟩

/-- A node with a taken node properly below it has children on the next
level. -/
theorem child (h : Walk heap arena marked b n) (hocc : Occupied marked n)
    (hn : n ∉ marked) (hc : c / 2 = n) : Walk heap arena marked (b + 1) c where
  rooted := h.rooted
  shape := h.shape
  first := h.first
  taken := h.taken
  shown := h.shown.child hocc hn hc
  level := by
    obtain ⟨hlow, hhigh⟩ := h.level
    constructor
    · rw [Nat.pow_succ]
      omega
    · rw [Nat.pow_succ]
      omega
  deep := by
    obtain ⟨m, hm, hwithin⟩ := hocc
    have hne : m ≠ n := fun heq => hn (heq ▸ hm)
    obtain ⟨d, hd⟩ := exists_atLevel (n := m) (by
      have hle := hwithin.le
      have hpos := h.level.pos
      omega)
    obtain ⟨hlevels, -⟩ := hwithin.levels hd h.level
    have hdepth := h.shape.node_lt hm hd
    have hlt : b ≠ d := fun heq => hne (hwithin.eq_of_level (heq ▸ hd) h.level)
    omega

/-- The statuses that the printer reads at an inner node. -/
theorem statuses (h : Walk heap arena marked b n) (hocc : Occupied marked n)
    (hn : n ∉ marked) :
    ∃ st l r, getNodeStatus heap (n - 1) = some st ∧
      getNodeStatus heap (wrap ((n - 1) * 2 + 1)) = some l ∧
      getNodeStatus heap (wrap ((n - 1) * 2 + 2)) = some r ∧
      (st = split ∨ st = used) ∧ (l ≠ unused ∨ r ≠ unused) := by
  have hpos := Nat.one_le_two_pow (n := arena.limit)
  have hleft := h.child hocc hn (show 2 * n / 2 = n by omega)
  have hright := h.child hocc hn (show (2 * n + 1) / 2 = n by omega)
  obtain ⟨heqLeft, heqRight⟩ := child_indices h.level.pos h.lt
  rw [heqLeft, heqRight]
  refine ⟨_, _, _, h.rooted.getNodeStatus h.first h.shown.below h.lt,
    h.rooted.getNodeStatus h.first hleft.shown.below hleft.lt,
    h.rooted.getNodeStatus h.first hright.shown.below hright.lt, ?_, ?_⟩
  · have hne := (treeStatus_unused_iff h.shown.below hpos).not.mpr
      (not_not.mpr hocc)
    have hle := treeStatus_le marked (2 ^ arena.limit) n
    simp only [unused, split, used] at hne hle ⊢
    omega
  · rw [Ne, Ne, treeStatus_unused_iff hleft.shown.below hpos,
      treeStatus_unused_iff hright.shown.below hpos]
    obtain ⟨m, hm, hwithin⟩ := hocc
    rcases hwithin.eq_or_child with heq | hchild | hchild
    · exact absurd (heq ▸ hm) hn
    · exact Or.inl (not_not.mpr ⟨m, hm, hchild⟩)
    · exact Or.inr (not_not.mpr ⟨m, hm, hchild⟩)

/-! ## The walk of the printer -/

/-- A taken node that is not on the last level has a line of its own. -/
theorem prints_used (h : Walk heap arena marked b n) (hbuckets : b + buckets = 27)
    (hn : n ∈ marked) (hlast : n < 2 ^ 27) (parts : List Segment) :
    ∃ lines, debugTreeRec heap (buckets + 1) (n - 1) parts = some lines ∧
      Shows marked (2 ^ arena.limit) b n parts lines := by
  have hpos := Nat.one_le_two_pow (n := arena.limit)
  have hmarking := h.shape.marking
  have hbucket : bucketCount - (buckets + 1) = b := by
    simp only [bucketCount, maxAllocLog2, minAllocLog2]
    omega
  have hstatus := h.rooted.getNodeStatus h.first h.shown.below h.lt
  -- Nothing below a taken node is in use.
  have hchild : ∀ c, c / 2 = n → c < 2 ^ 28 →
      getNodeStatus heap (c - 1) = some unused := by
    rintro c rfl hc
    have hbelow := (within_half c).trans h.shown.below
    rw [h.rooted.getNodeStatus h.first hbelow hc]
    refine congrArg some ((treeStatus_unused_iff hbelow hpos).mpr ?_)
    rintro ⟨m, hm, hwithin⟩
    have heq := hmarking.apart m hm _ hn (hwithin.trans (within_half c))
    have hle := hwithin.le
    have hlevel := h.level.pos
    omega
  obtain ⟨heqLeft, heqRight⟩ := child_indices h.level.pos h.lt
  have hleft := hchild (2 * n) (by omega) (by omega)
  have hright := hchild (2 * n + 1) (by omega) (by omega)
  rw [← heqLeft] at hleft
  rw [← heqRight] at hright
  rw [treeStatus, if_pos hn] at hstatus
  refine ⟨_, debugTreeRec_used hstatus hleft hright, ?_⟩
  rw [hbucket]
  refine Shows.leaf h.level (h.leaf_pos (Or.inl hn))
    (fun k => leaf_within_marked hmarking hpos hn) ?_
  rw [leafEntry, if_pos hn]

/-- A free node has a line of its own. -/
theorem prints_unused (h : Walk heap arena marked b n)
    (hbuckets : b + buckets = 27) (hn : Vacant marked (2 ^ arena.limit) n)
    (parts : List Segment) :
    ∃ lines, debugTreeRec heap (buckets + 1) (n - 1) parts = some lines ∧
      Shows marked (2 ^ arena.limit) b n parts lines := by
  have hpos := Nat.one_le_two_pow (n := arena.limit)
  have hbucket : bucketCount - (buckets + 1) = b := by
    simp only [bucketCount, maxAllocLog2, minAllocLog2]
    omega
  have hstatus := h.rooted.getNodeStatus h.first h.shown.below h.lt
  rw [(treeStatus_unused_iff h.shown.below hpos).mpr hn.empty] at hstatus
  refine ⟨_, debugTreeRec_unused hstatus, ?_⟩
  rw [hbucket]
  refine Shows.leaf h.level (h.leaf_pos (Or.inr hn))
    (fun k => leaf_within_vacant hpos hn) ?_
  rw [leafEntry, if_neg hn.not_mem]

/-- Without a block of the smallest size the printer shows all leaves. -/
theorem prints (h : Walk heap arena marked b n) (hbuckets : b + buckets = 27)
    (hlarge : ∀ m ∈ marked, m < 2 ^ 27) (parts : List Segment) :
    ∃ lines, debugTreeRec heap (buckets + 1) (n - 1) parts = some lines ∧
      Shows marked (2 ^ arena.limit) b n parts lines := by
  induction buckets generalizing b n parts with
  | zero =>
      rcases h.shown.cases Nat.one_le_two_pow with hmem | hvacant | ⟨hocc, hmem⟩
      · exact h.prints_used hbuckets hmem (hlarge n hmem) parts
      · exact h.prints_unused hbuckets hvacant parts
      · -- On the last level every node is a leaf.
        have hdeep := (h.child hocc hmem (show 2 * n / 2 = n by omega)).deep
        omega
  | succ buckets ih =>
      rcases h.shown.cases Nat.one_le_two_pow with hmem | hvacant | ⟨hocc, hmem⟩
      · exact h.prints_used hbuckets hmem (hlarge n hmem) parts
      · exact h.prints_unused hbuckets hvacant parts
      · obtain ⟨st, l, r, hstatus, hleft, hright, hst, hchild⟩ :=
          h.statuses hocc hmem
        obtain ⟨heqLeft, heqRight⟩ := child_indices h.level.pos h.lt
        obtain ⟨rightLines, hrightRec, hrightShows⟩ :=
          ih (h.child hocc hmem (show (2 * n + 1) / 2 = n by omega)) (by omega)
            (prefixCreate parts)
        obtain ⟨leftLines, hleftRec, hleftShows⟩ :=
          ih (h.child hocc hmem (show 2 * n / 2 = n by omega)) (by omega)
            (prefixCutIfEnded (prefixCreate parts))
        rw [← heqRight] at hrightRec
        rw [← heqLeft] at hleftRec
        have hline : Line.depth ⟨parts, if st = used then .used else .split,
          lineSize (bucketCount - (buckets + 1 + 1))⟩ = parts.length := rfl
        refine ⟨_, ?_, Shows.inner h.level (by omega) hocc hmem hline hrightShows
          hleftShows⟩
        rw [debugTreeRec_inner hstatus hleft hright hst hchild, hrightRec,
          Option.bind_some, hleftRec, Option.bind_some]

/-- A block of the smallest size has no children whose statuses could be
read. -/
theorem last_none (h : Walk heap arena marked b n) (hn : n ∈ marked)
    (hlast : 2 ^ 27 ≤ n) (parts : List Segment) :
    debugTreeRec heap (buckets + 1) (n - 1) parts = none := by
  have hstatus := h.rooted.getNodeStatus h.first h.shown.below h.lt
  obtain ⟨-, heqRight⟩ := child_indices h.level.pos h.lt
  have hright := getNodeStatus_none heap (show 2 ^ 28 ≤ 2 * n + 1 - 1 by omega)
  rw [← heqRight] at hright
  rw [treeStatus, if_pos hn] at hstatus
  exact debugTreeRec_last hstatus hright

/-- On the way to a block of the smallest size the printer leaves
`node_status`. -/
theorem prints_none (h : Walk heap arena marked b n)
    (hbuckets : b + buckets = 27) (hm : m ∈ marked) (hlast : 2 ^ 27 ≤ m)
    (hwithin : Within m n) (parts : List Segment) :
    debugTreeRec heap (buckets + 1) (n - 1) parts = none := by
  have hocc : Occupied marked n := ⟨m, hm, hwithin⟩
  by_cases hn : n ∈ marked
  · have heq := h.shape.marking.apart m hm n hn hwithin
    exact h.last_none hn (heq ▸ hlast) parts
  · induction buckets generalizing b n parts with
    | zero =>
        have hdeep := (h.child hocc hn (show 2 * n / 2 = n by omega)).deep
        omega
    | succ buckets ih =>
        obtain ⟨st, l, r, hstatus, hleft, hright, hst, hchild⟩ :=
          h.statuses hocc hn
        obtain ⟨heqLeft, heqRight⟩ := child_indices h.level.pos h.lt
        -- The walk below the child that contains the block.
        have hbelow : ∀ c parts', c / 2 = n → Within m c →
            debugTreeRec heap (buckets + 1) (c - 1) parts' = none := by
          intro c parts' hc hmc
          have hwalk := h.child hocc hn hc
          by_cases hmem : c ∈ marked
          · have heq := h.shape.marking.apart m hm c hmem hmc
            exact hwalk.last_none hmem (heq ▸ hlast) parts'
          · exact ih hwalk (by omega) hmc parts' ⟨m, hm, hmc⟩ hmem
        rw [debugTreeRec_inner hstatus hleft hright hst hchild, heqLeft, heqRight]
        rcases hwithin.eq_or_child with heq | hchild | hchild
        · exact absurd (heq ▸ hm) hn
        · rw [hbelow (2 * n) _ (by omega) hchild]
          exact Option.bind_fun_none _
        · rw [hbelow (2 * n + 1) _ (by omega) hchild, Option.bind_none]

end Walk

end Malloc2
end BuddyAlloc
end OsStuff
