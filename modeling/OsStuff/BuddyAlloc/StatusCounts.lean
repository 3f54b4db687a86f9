import OsStuff.Library.PackedFields
import OsStuff.BuddyAlloc.Bookkeeping

/-!
# The status counts of `buddy_malloc_2.c`

The status of a block that is handed out is `USED`, and the status of every
other node of the tree is the number of its children in use.  The parent of the
root is different: when the tree has grown over a used root its status is set,
but when the root is handed out it is counted, and after growth it starts at
zero although the root is in use.  So it is only bounded by the count, and
`free_2` must not count it down from zero: this is the condition `Freeable`.
-/

namespace OsStuff
namespace BuddyAlloc
namespace Malloc2

open Library Library.DyadicTree Library.PackedFields

/-- The status of node `n`. -/
def count (status : Nat → Nat) (n : Nat) : Nat :=
  get (status ((n - 1) / 4)) (3 - (n - 1) % 4)

/-- `node_status` with the status of node `n` replaced. -/
def setCount (status : Nat → Nat) (n st : Nat) : Nat → Nat :=
  Function.update status ((n - 1) / 4)
    (put (status ((n - 1) / 4)) (3 - (n - 1) % 4) st)

/-- `node_status` with the status of node `n` counted up. -/
def incCount (status : Nat → Nat) (n : Nat) : Nat → Nat :=
  Function.update status ((n - 1) / 4)
    (bump (status ((n - 1) / 4)) (3 - (n - 1) % 4))

/-- `node_status` with the status of node `n` counted down. -/
def decCount (status : Nat → Nat) (n : Nat) : Nat → Nat :=
  Function.update status ((n - 1) / 4)
    (dip (status ((n - 1) / 4)) (3 - (n - 1) % 4))

/-- All entries of `node_status` are bytes. -/
def Bytes (status : Nat → Nat) : Prop := ∀ k, status k < 2 ^ 8

open Classical in
/-- The number of children of `n` of which `p` holds. -/
noncomputable def useCount (p : Nat → Prop) (n : Nat) : Nat :=
  (if p (2 * n) then 1 else 0) + (if p (2 * n + 1) then 1 else 0)

/-- Every node except `current` has the right status. -/
structure Counts (status : Nat → Nat) (limit : Nat) (marked : Set Nat)
    (current : Nat) : Prop where
  bytes : Bytes status
  taken : ∀ m ∈ marked, 2 ≤ m → m ≠ current → count status m = used
  inner : ∀ m, 2 ≤ m → m < 2 ^ 28 → m ∉ marked → m ≠ current →
    m ≠ 2 ^ limit / 2 →
    count status m = useCount (InUse marked (2 ^ limit)) m
  parent : 2 ≤ 2 ^ limit / 2 → count status (2 ^ limit / 2) ≤
    useCount (InUse marked (2 ^ limit)) (2 ^ limit / 2)

/-- Freeing down to the given nodes does not count the parent of the root below
zero.  Node `1` may be counted below zero. -/
def Freeable (status : Nat → Nat) (limit : Nat) (marked : Set Nat) : Prop :=
  marked ≠ ∅ ∨ limit ≤ 1 ∨ count status (2 ^ limit / 2) ≠ unused

variable {platform : Platform} {heap : Heap} {arena : Arena}
  {status : Nat → Nat} {p q : Nat → Prop} {marked kept guarded : Set Nat}
  {b n m c l st limit current : Nat} {grant : Nat → Bool}

/-! ## One status -/

theorem getNodeStatus_eq (heap : Heap) (hn : 1 ≤ n) (hlt : n < 2 ^ 28) :
    getNodeStatus heap (n - 1) = some (count heap.nodeStatus n) := by
  have hin : (n - 1) / 4 < statusBytes := by
    simp [statusBytes]
    omega
  unfold getNodeStatus
  rw [if_pos hin]
  rfl

theorem nodeSetStatus_eq (heap : Heap) (hn : 1 ≤ n) (hlt : n < 2 ^ 28) (st : Nat) :
    nodeSetStatus heap (n - 1) st =
      some { heap with nodeStatus := setCount heap.nodeStatus n st } := by
  have hin : (n - 1) / 4 < statusBytes := by
    simp [statusBytes]
    omega
  unfold nodeSetStatus setStatusByte
  rw [if_pos hin]
  rfl

theorem parentIncStatus_eq (heap : Heap) (hn : 2 ≤ n) (hlt : n < 2 ^ 28) :
    parentIncStatus heap (n - 1) =
      some { heap with nodeStatus := incCount heap.nodeStatus (n / 2) } := by
  have hin : (n / 2 - 1) / 4 < statusBytes := by
    simp [statusBytes]
    omega
  unfold parentIncStatus setStatusByte
  rw [parentIndex_eq hn (by omega), if_pos hin]
  rfl

theorem parentDecStatus_eq (heap : Heap) (hn : 2 ≤ n) (hlt : n < 2 ^ 28) :
    parentDecStatus heap (n - 1) =
      some { heap with nodeStatus := decCount heap.nodeStatus (n / 2) } := by
  have hin : (n / 2 - 1) / 4 < statusBytes := by
    simp [statusBytes]
    omega
  unfold parentDecStatus setStatusByte
  rw [parentIndex_eq hn (by omega), if_pos hin]
  rfl

theorem Bytes.update (hbytes : Bytes status) {k byte : Nat}
    (hbyte : byte < 2 ^ 8) : Bytes (Function.update status k byte) := by
  intro j
  by_cases hjk : j = k
  · rw [hjk, Function.update_self]
    exact hbyte
  · rw [Function.update_of_ne hjk]
    exact hbytes j

theorem Bytes.setCount (hbytes : Bytes status) (hst : st < 4) :
    Bytes (setCount status n st) :=
  hbytes.update (put_lt (hbytes _) (by omega) hst)

theorem Bytes.incCount (hbytes : Bytes status) : Bytes (incCount status n) :=
  hbytes.update (bump_lt _ _)

theorem Bytes.decCount (hbytes : Bytes status) : Bytes (decCount status n) :=
  hbytes.update (dip_lt _ _)

/-- Two nodes with statuses in the same byte have different fields. -/
theorem slot_ne (hm : 1 ≤ m) (hn : 1 ≤ n) (hne : m ≠ n)
    (hbyte : (m - 1) / 4 = (n - 1) / 4) :
    3 - (m - 1) % 4 ≠ 3 - (n - 1) % 4 := by
  omega

theorem count_setCount_self (hbytes : Bytes status) (hst : st < 4) :
    count (setCount status n st) n = st := by
  unfold count setCount
  rw [Function.update_self, get_put (hbytes _) (by omega) hst (by omega),
    if_pos rfl]

theorem count_setCount_of_ne (hbytes : Bytes status) (hst : st < 4)
    (hm : 1 ≤ m) (hn : 1 ≤ n) (hne : m ≠ n) :
    count (setCount status n st) m = count status m := by
  unfold count setCount
  by_cases hbyte : (m - 1) / 4 = (n - 1) / 4
  · rw [hbyte, Function.update_self,
      get_put (hbytes _) (by omega) hst (by omega),
      if_neg (slot_ne hm hn hne hbyte)]
  · rw [Function.update_of_ne hbyte]

theorem count_incCount_self (hbytes : Bytes status)
    (hroom : count status n < 3) :
    count (incCount status n) n = count status n + 1 := by
  unfold count incCount at *
  rw [Function.update_self, get_bump (hbytes _) (by omega) (by omega) hroom,
    if_pos rfl]

/-- Counting up a status that is not full, or that of node `1`, changes no
other status. -/
theorem count_incCount_of_ne (hbytes : Bytes status)
    (hroom : n = 1 ∨ count status n < 3) (hm : 1 ≤ m) (hn : 1 ≤ n)
    (hne : m ≠ n) : count (incCount status n) m = count status m := by
  unfold count incCount at *
  by_cases hbyte : (m - 1) / 4 = (n - 1) / 4
  · rw [hbyte, Function.update_self]
    rcases hroom with rfl | hroom
    · exact get_bump_high (by omega)
    · rw [get_bump (hbytes _) (by omega) (by omega) hroom,
        if_neg (slot_ne hm hn hne hbyte)]
  · rw [Function.update_of_ne hbyte]

theorem count_decCount_self (hbytes : Bytes status)
    (hpos : 0 < count status n) :
    count (decCount status n) n = count status n - 1 := by
  unfold count decCount at *
  rw [Function.update_self, get_dip (hbytes _) (by omega) (by omega) hpos,
    if_pos rfl]

/-- Counting down a status that is not zero, or that of node `1`, changes no
other status. -/
theorem count_decCount_of_ne (hbytes : Bytes status)
    (hpos : n = 1 ∨ 0 < count status n) (hm : 1 ≤ m) (hn : 1 ≤ n)
    (hne : m ≠ n) : count (decCount status n) m = count status m := by
  unfold count decCount at *
  by_cases hbyte : (m - 1) / 4 = (n - 1) / 4
  · rw [hbyte, Function.update_self]
    rcases hpos with rfl | hpos
    · exact get_dip_high (by omega)
    · rw [get_dip (hbytes _) (by omega) (by omega) hpos,
        if_neg (slot_ne hm hn hne hbyte)]
  · rw [Function.update_of_ne hbyte]

/-- Setting a status to what it is already does nothing. -/
theorem setCount_count (hbytes : Bytes status) :
    setCount status n (count status n) = status := by
  unfold setCount count
  rw [put_get (hbytes _) (by omega), Function.update_eq_self]

/-! ## Counting children in use -/

theorem useCount_le (p : Nat → Prop) (n : Nat) : useCount p n ≤ 2 := by
  unfold useCount
  split <;> split <;> omega

theorem useCount_eq_zero_iff : useCount p n = 0 ↔ ¬ p (2 * n) ∧ ¬ p (2 * n + 1) := by
  unfold useCount
  split <;> split <;> simp [*]

theorem useCount_eq_two_iff : useCount p n = 2 ↔ p (2 * n) ∧ p (2 * n + 1) := by
  unfold useCount
  split <;> split <;> simp [*]

/-- Only the parent of a node that comes into use counts one more. -/
theorem useCount_of_ne (h : OneMore p q n) (hne : m ≠ n / 2) :
    useCount q m = useCount p m := by
  have hleft := h.of_ne (show 2 * m ≠ n by omega)
  have hright := h.of_ne (show 2 * m + 1 ≠ n by omega)
  unfold useCount
  rw [propext hleft, propext hright]

theorem useCount_half (h : OneMore p q n) (hn : 2 ≤ n) :
    useCount q (n / 2) = useCount p (n / 2) + 1 := by
  have hself := h.self
  have habsent := h.absent
  have hother := h.of_ne (sibling_ne n)
  unfold useCount
  rcases eq_children_half hn with ⟨hleft, hright⟩ | ⟨hright, hleft⟩
  · rw [← hright, ← hleft, propext hother, if_pos hself, if_neg habsent]
    omega
  · rw [← hright, ← hleft, propext hother, if_pos hself, if_neg habsent]

/-- The parent of the root lies outside of the tree. -/
theorem ne_half_root (hm : Within m (2 ^ limit)) : m ≠ 2 ^ limit / 2 := by
  have hle := hm.le
  have hpos := Nat.one_le_two_pow (n := limit)
  omega

/-- The children of a taken node are not in use. -/
theorem useCount_taken (hmarking : Marking marked (2 ^ limit))
    (hm : m ∈ marked) (hpos : 1 ≤ m) :
    useCount (InUse marked (2 ^ limit)) m = 0 := by
  rw [useCount_eq_zero_iff]
  exact ⟨hmarking.not_inUse_below hm (within_child_left m) (by omega),
    hmarking.not_inUse_below hm (within_child_right m) (by omega)⟩

/-- Seen from above, a used root is an only child. -/
theorem useCount_root_half (hdouble : 2 ^ limit = 2 * 2 ^ l)
    (hocc : Occupied marked (2 ^ limit)) :
    useCount (InUse marked (2 ^ limit)) (2 ^ l) = 1 := by
  have hpos := Nat.one_le_two_pow (n := l)
  have hright : ¬ InUse marked (2 ^ limit) (2 * 2 ^ l + 1) := by
    have hsibling : sibling (2 ^ limit) = 2 * 2 ^ l + 1 := by
      rw [hdouble, sibling_double]
    rw [← hsibling]
    exact not_inUse_sibling_root _ _ (by omega)
  have hleft : InUse marked (2 ^ limit) (2 * 2 ^ l) := by
    rw [← hdouble]
    exact ⟨within_refl _, hocc⟩
  unfold useCount
  rw [if_pos hleft, if_neg hright]

theorem count_zero (n : Nat) : count (fun _ => 0) n = 0 := by
  unfold count
  rw [get_eq]
  simp

namespace Counts

theorem initial : Counts (fun _ => 0) 27 ∅ 0 := by
  have hnone : ∀ m, useCount (InUse ∅ (2 ^ 27)) m = 0 := fun m =>
    useCount_eq_zero_iff.mpr ⟨not_inUse_empty, not_inUse_empty⟩
  refine ⟨fun k => by simp, fun m hm => absurd hm (Set.notMem_empty m), ?_, ?_⟩
  · intro m _ _ _ _ _
    rw [count_zero, hnone]
  · intro _
    rw [count_zero]
    exact Nat.zero_le _

/-- A node has the status `UNUSED` exactly when it is not in use. -/
theorem unused_iff (h : Counts status limit marked current)
    (hmarking : Marking marked (2 ^ limit)) (hm : 2 ≤ m) (hlt : m < 2 ^ 28)
    (hne : m ≠ current) (hroot : m ≠ 2 ^ limit / 2) :
    count status m = unused ↔ ¬ InUse marked (2 ^ limit) m := by
  by_cases hmem : m ∈ marked
  · have huse := hmarking.inUse hmem
    rw [h.taken m hmem hm hne]
    simp [huse]
  · rw [h.inner m hm hlt hmem hne hroot, inUse_iff_child hmem hroot]
    simp only [unused]
    rw [useCount_eq_zero_iff]
    tauto

/-- The parent of a node that may come into use has room for one more. -/
theorem room (h : Counts status limit marked current) (hm : 2 ≤ m)
    (hlt : m < 2 ^ 28) (hmem : m ∉ marked) (hne : m ≠ current) :
    count status m < 3 := by
  have hle := useCount_le (InUse marked (2 ^ limit)) m
  by_cases hroot : m = 2 ^ limit / 2
  · have hparent := h.parent (hroot ▸ hm)
    rw [← hroot] at hparent
    omega
  · rw [h.inner m hm hlt hmem hne hroot]
    omega

/-- While a node is being handled its own status does not matter. -/
theorem exempt (h : Counts status limit marked 0) (n : Nat) :
    Counts status limit marked n where
  bytes := h.bytes
  taken m hm htwo _ := h.taken m hm htwo (by omega)
  inner m htwo hlt hm _ := h.inner m htwo hlt hm (by omega)
  parent := h.parent

/-- The use of node `1` is not recorded anywhere. -/
theorem first {marked' : Set Nat} {current' : Nat}
    (h : Counts status limit marked current) (hroot : 2 ^ limit = 1)
    (hcurrent : current ≤ 1)
    (hmarked : ∀ m, 2 ≤ m → (m ∈ marked' ↔ m ∈ marked))
    (huse : ∀ k, k ≠ 1 →
      (InUse marked' (2 ^ limit) k ↔ InUse marked (2 ^ limit) k)) :
    Counts status limit marked' current' where
  bytes := h.bytes
  taken m hm htwo _ := h.taken m ((hmarked m htwo).mp hm) htwo (by omega)
  inner m htwo hlt hm _ hne := by
    have hleft := huse (2 * m) (by omega)
    have hright := huse (2 * m + 1) (by omega)
    rw [h.inner m htwo hlt (fun hmem => hm ((hmarked m htwo).mpr hmem))
      (by omega) hne]
    unfold useCount
    rw [propext hleft, propext hright]
  parent hm := by omega

/-- Counting up the parent records that a vacant node comes into use. -/
theorem take (h : Counts status limit marked 0)
    (hmarking : Marking marked (2 ^ limit))
    (hvacant : Vacant marked (2 ^ limit) n) (hn : 2 ≤ n) (hlt : n < 2 ^ 28) :
    Counts (incCount status (n / 2)) limit (insert n marked) n ∧
      count (incCount status (n / 2)) n = unused := by
  have hroot := Nat.one_le_two_pow (n := limit)
  have hmore := hvacant.oneMore hroot
  have hnot := hvacant.not_mem
  have hhalf : n / 2 ∉ marked := fun hmem =>
    hvacant.not_within_marked hmarking hroot hmem (within_half n)
  have hroom : n / 2 = 1 ∨ count status (n / 2) < 3 := by
    by_cases hone : n / 2 = 1
    · exact Or.inl hone
    · exact Or.inr (h.room (by omega) (by omega) hhalf (by omega))
  have hsame : ∀ m, 2 ≤ m → m ≠ n / 2 →
      count (incCount status (n / 2)) m = count status m := fun m hm hne =>
    count_incCount_of_ne h.bytes hroom (by omega) (by omega) hne
  -- The parent counts one more, on both sides.
  have hcount : 2 ≤ n / 2 → count (incCount status (n / 2)) (n / 2) =
      count status (n / 2) + 1 := fun htwo =>
    count_incCount_self h.bytes (hroom.resolve_left (by omega))
  have huse := useCount_half hmore hn
  refine ⟨⟨h.bytes.incCount, ?_, ?_, ?_⟩, ?_⟩
  · intro m hm htwo hne
    have hm' := (Set.mem_insert_iff.mp hm).resolve_left hne
    rw [hsame m htwo (fun heq => hhalf (heq ▸ hm'))]
    exact h.taken m hm' htwo (by omega)
  · intro m htwo hlt' hm hne hne'
    have hm' : m ∉ marked := fun hmem => hm (Set.mem_insert_of_mem n hmem)
    have hold := h.inner m htwo hlt' hm' (by omega) hne'
    by_cases heq : m = n / 2
    · subst heq
      rw [hcount htwo, huse, hold]
    · rw [hsame m htwo heq, useCount_of_ne hmore heq, hold]
  · intro htwo
    have hold := h.parent htwo
    by_cases heq : 2 ^ limit / 2 = n / 2
    · rw [heq] at hold htwo ⊢
      rw [hcount htwo, huse]
      omega
    · rw [hsame _ htwo heq, useCount_of_ne hmore heq]
      exact hold
  · rw [hsame n hn (by omega), h.unused_iff hmarking hn hlt (by omega)
      (ne_half_root hvacant.below)]
    exact hmore.absent

/-- Counting up a node that is being split records that its left child comes
into use. -/
theorem descend (h : Counts status limit (insert n marked) n)
    (hmarking : Marking (insert n marked) (2 ^ limit)) (hn : n ∉ marked)
    (hpos : 1 ≤ n) (hlt : 2 * n < 2 ^ 28)
    (hzero : 2 ≤ n → count status n = unused) :
    Counts (incCount status n) limit (insert (2 * n) marked) (2 * n) ∧
      count (incCount status n) (2 * n) = unused := by
  have hhalf : 2 * n / 2 = n := by omega
  have hmore := Marking.oneMore_child (c := 2 * n) (by rw [hhalf]; exact hmarking) (by rwa [hhalf])
    (by omega)
  have huse := useCount_half hmore (by omega)
  rw [hhalf] at hmore huse
  have hself := Set.mem_insert n marked
  -- The counter has two bits, so counting up needs a count below three; the root has none.
  have hroom : n = 1 ∨ count status n < 3 := by
    by_cases hone : n = 1
    · exact Or.inl hone
    · rw [hzero (by omega)]
      exact Or.inr (by simp)
  have hsame : ∀ m, 2 ≤ m → m ≠ n →
      count (incCount status n) m = count status m := fun m hm hne =>
    count_incCount_of_ne h.bytes hroom (by omega) hpos hne
  refine ⟨⟨h.bytes.incCount, ?_, ?_, ?_⟩, ?_⟩
  · intro m hm htwo hne
    have hm' := (Set.mem_insert_iff.mp hm).resolve_left hne
    have hne' : m ≠ n := fun heq => hn (heq ▸ hm')
    rw [hsame m htwo hne']
    exact h.taken m (Set.mem_insert_of_mem n hm') htwo hne'
  · -- Only the parent counts differently; elsewhere both the count and the nodes in use are
    -- as before.
    intro m htwo hlt' hm hne hne'
    by_cases heq : m = n
    · subst heq
      rw [count_incCount_self h.bytes (hroom.resolve_left (by omega)),
        hzero htwo, huse, useCount_taken hmarking hself hpos]
      rfl
    · have hm' : m ∉ insert n marked := by
        rw [Set.mem_insert_iff, not_or]
        exact ⟨heq, fun hmem => hm (Set.mem_insert_of_mem _ hmem)⟩
      rw [hsame m htwo heq, useCount_of_ne hmore (by omega)]
      exact h.inner m htwo hlt' hm' heq hne'
  · intro htwo
    have hne := (ne_half_root (hmarking.below n hself)).symm
    rw [hsame _ htwo hne, useCount_of_ne hmore (by omega)]
    exact h.parent htwo
  · rw [hsame _ (by omega) (by omega), h.unused_iff hmarking (by omega) hlt
      (by omega) (ne_half_root
        ((within_child_left n).trans (hmarking.below n hself)))]
    exact hmarking.not_inUse_below hself (within_child_left n) (by omega)

/-- Setting the status of the node that is handed out completes the
statuses. -/
theorem finish (h : Counts status limit (insert n marked) n)
    (hmarking : Marking (insert n marked) (2 ^ limit)) (hn : 2 ≤ n) :
    Counts (setCount status n used) limit (insert n marked) 0 := by
  have hself := Set.mem_insert n marked
  have hsame : ∀ m, 2 ≤ m → m ≠ n →
      count (setCount status n used) m = count status m := fun m hm hne =>
    count_setCount_of_ne h.bytes (by simp) (by omega) (by omega) hne
  refine ⟨h.bytes.setCount (by simp), ?_, ?_, ?_⟩
  · intro m hm htwo _
    by_cases heq : m = n
    · rw [heq]
      exact count_setCount_self h.bytes (by simp)
    · rw [hsame m htwo heq]
      exact h.taken m hm htwo heq
  · intro m htwo hlt hm _ hne'
    have heq : m ≠ n := fun heq => hm (heq ▸ hself)
    rw [hsame m htwo heq]
    exact h.inner m htwo hlt hm heq hne'
  · intro htwo
    rw [hsame _ htwo (ne_half_root (hmarking.below n hself)).symm]
    exact h.parent htwo

/-- Clearing the status of a node that is given back. -/
theorem clear (h : Counts status limit (insert c marked) c) (hc : 1 ≤ c) :
    Bytes (setCount status c unused) ∧
      count (setCount status c unused) c = unused ∧
      ∀ m, 1 ≤ m → m ≠ c →
        count (setCount status c unused) m = count status m :=
  ⟨h.bytes.setCount (by simp), count_setCount_self h.bytes (by simp),
    fun _ hm hne => count_setCount_of_ne h.bytes (by simp) hm hc hne⟩

/-- When the node is merged with its sibling, its parent is given back in its
place. -/
theorem merge (h : Counts status limit (insert c marked) c)
    (hmarking : Marking (insert (c / 2) marked) (2 ^ limit))
    (hhalf : c / 2 ∉ marked) (hc : c ∉ marked) (htwo : 2 ≤ c) :
    Counts (setCount status c unused) limit (insert (c / 2) marked) (c / 2) := by
  have hmore := hmarking.oneMore_child hhalf htwo
  have hself := Set.mem_insert (c / 2) marked
  obtain ⟨hbytes, hzero, hsame⟩ := h.clear (by omega)
  refine ⟨hbytes, ?_, ?_, ?_⟩
  · intro m hm hm2 hne
    have hm' := (Set.mem_insert_iff.mp hm).resolve_left hne
    have hmc : m ≠ c := fun heq => hc (heq ▸ hm')
    rw [hsame m (by omega) hmc]
    exact h.taken m (Set.mem_insert_of_mem c hm') hm2 hmc
  · intro m hm2 hlt hm hne hne'
    by_cases hmc : m = c
    · subst hmc
      rw [hzero, eq_comm]
      refine useCount_eq_zero_iff.mpr ⟨?_, ?_⟩
      · exact hmarking.not_inUse_below hself
          ((within_child_left m).trans (within_half m)) (by omega)
      · exact hmarking.not_inUse_below hself
          ((within_child_right m).trans (within_half m)) (by omega)
    · have hm' : m ∉ insert c marked := by
        rw [Set.mem_insert_iff, not_or]
        exact ⟨hmc, fun hmem => hm (Set.mem_insert_of_mem _ hmem)⟩
      rw [hsame m (by omega) hmc, h.inner m hm2 hlt hm' hmc hne',
        useCount_of_ne hmore hne]
  · intro hm2
    have hbelow := hmarking.below _ hself
    have hne := (ne_half_root hbelow).symm
    have hmc : 2 ^ limit / 2 ≠ c :=
      (ne_half_root ((within_half c).trans hbelow)).symm
    rw [hsame _ (by omega) hmc, ← useCount_of_ne hmore hne]
    exact h.parent hm2

/-- A node that is given back is not above another taken node. -/
theorem half_not_mem (hmarking : Marking (insert c marked) (2 ^ limit))
    (htwo : 2 ≤ c) : c / 2 ∉ insert c marked := by
  intro hmem
  have heq := hmarking.apart c (Set.mem_insert c marked) _ hmem (within_half c)
  omega

/-- The parent of a node below the root has counted it. -/
theorem counted (h : Counts status limit (insert c marked) c)
    (hmarking : Marking (insert c marked) (2 ^ limit)) (hlt : c < 2 ^ 28)
    (hmore : OneMore (InUse marked (2 ^ limit))
      (InUse (insert c marked) (2 ^ limit)) c)
    (htwo : 2 ≤ c / 2) (hne : c ≠ 2 ^ limit) :
    count status (c / 2) = useCount (InUse marked (2 ^ limit)) (c / 2) + 1 := by
  have hbelow := (hmarking.below c (Set.mem_insert c marked)).eq_or_half
    |>.resolve_left hne
  rw [h.inner _ htwo (by omega) (half_not_mem hmarking (by omega)) (by omega)
    (ne_half_root hbelow), useCount_half hmore (by omega)]

/-- When the node is given back as it is, its parent counts one less; it had
counted the node unless it is the parent of the root. -/
theorem give (h : Counts status limit (insert c marked) c)
    (hmarking : Marking (insert c marked) (2 ^ limit)) (hc : c ∉ marked)
    (htwo : 2 ≤ c) (hlt : c < 2 ^ 28)
    (hmore : OneMore (InUse marked (2 ^ limit))
      (InUse (insert c marked) (2 ^ limit)) c)
    (hpos : c = 2 ^ limit → 2 ≤ c / 2 → count status (c / 2) ≠ unused) :
    Counts (decCount (setCount status c unused) (c / 2)) limit marked 0 := by
  have hself := Set.mem_insert c marked
  obtain ⟨hbytes, hzero, hsame⟩ := h.clear (by omega)
  have hhalf := half_not_mem hmarking htwo
  have huse := useCount_half hmore htwo
  have hparent := h.counted hmarking hlt hmore
  -- Counting down must not borrow from the neighbouring counter.
  have hpositive : c / 2 = 1 ∨ 0 < count (setCount status c unused) (c / 2) := by
    by_cases hone : c / 2 = 1
    · exact Or.inl hone
    · rw [hsame _ (by omega) (by omega)]
      -- The parent of the root is not kept exact by the source, which is why its count is a
      -- hypothesis.
      by_cases hroot : c = 2 ^ limit
      · exact Or.inr (Nat.pos_of_ne_zero (hpos hroot (by omega)))
      · rw [hparent (by omega) hroot]
        exact Or.inr (Nat.succ_pos _)
  have hdec : ∀ m, 1 ≤ m → m ≠ c / 2 →
      count (decCount (setCount status c unused) (c / 2)) m =
        count (setCount status c unused) m := fun m hm hne =>
    count_decCount_of_ne hbytes hpositive hm (by omega) hne
  have hdecSelf : 2 ≤ c / 2 →
      count (decCount (setCount status c unused) (c / 2)) (c / 2) =
        count status (c / 2) - 1 := by
    intro hm2
    rw [count_decCount_self hbytes (hpositive.resolve_left (by omega)),
      hsame _ (by omega) (by omega)]
  refine ⟨hbytes.decCount, ?_, ?_, ?_⟩
  · intro m hm hm2 _
    have hm' := Set.mem_insert_of_mem c hm
    have hmc : m ≠ c := fun heq => hc (heq ▸ hm)
    rw [hdec m (by omega) (fun heq => hhalf (heq ▸ hm')), hsame m (by omega) hmc]
    exact h.taken m hm' hm2 hmc
  · intro m hm2 hlt' hm _ hne'
    -- The node itself has become a node without nodes in use below it.
    by_cases hmc : m = c
    · subst hmc
      have hnone := useCount_taken hmarking hself (by omega)
      rw [useCount_of_ne hmore (by omega)] at hnone
      rw [hdec m (by omega) (by omega), hzero, hnone]
      rfl
    · have hm' : m ∉ insert c marked := by
        rw [Set.mem_insert_iff, not_or]
        exact ⟨hmc, hm⟩
      by_cases heq : m = c / 2
      · subst heq
        have hroot : c ≠ 2 ^ limit := fun heq => hne' (heq ▸ rfl)
        rw [hdecSelf hm2, hparent hm2 hroot, Nat.add_sub_cancel]
      · rw [hdec m (by omega) heq, hsame m (by omega) hmc,
          h.inner m hm2 hlt' hm' hmc hne', useCount_of_ne hmore heq]
  · intro hm2
    -- For the parent of the root only a bound is kept, and it falls with the count.
    have hold := h.parent hm2
    have hne := ne_half_root (hmarking.below c hself)
    by_cases heq : 2 ^ limit / 2 = c / 2
    · rw [heq] at hold hm2 ⊢
      rw [hdecSelf hm2]
      omega
    · rw [hdec _ (by omega) heq, hsame _ (by omega) hne.symm]
      rw [useCount_of_ne hmore heq] at hold
      exact hold

/-- Nothing is recorded when nothing is taken, so a free root may be lifted. -/
theorem lift (h : Counts status limit ∅ 0) (hl : l < 28) :
    Counts status l ∅ 0 := by
  have hpow : 2 ^ l < 2 ^ 28 := Nat.pow_lt_pow_right (by omega) hl
  have hnone : ∀ root m, useCount (InUse ∅ root) m = 0 := fun root m =>
    useCount_eq_zero_iff.mpr ⟨not_inUse_empty, not_inUse_empty⟩
  have hzero : ∀ m, 2 ≤ m → m < 2 ^ 28 → count status m = 0 := by
    intro m hm hlt
    by_cases heq : m = 2 ^ limit / 2
    · -- The bound at the parent of the root is zero when nothing is taken.
      have hparent := h.parent (heq ▸ hm)
      rw [hnone, ← heq] at hparent
      omega
    · rw [h.inner m hm hlt (Set.notMem_empty m) (by omega) heq, hnone]
  refine ⟨h.bytes, fun m hm => absurd hm (Set.notMem_empty m), ?_, ?_⟩
  · intro m hm hlt _ _ _
    rw [hzero m hm hlt, hnone]
  · intro hm
    rw [hzero _ hm (by omega)]
    exact Nat.zero_le _

/-- Setting the status of a new root over a used one. -/
theorem openRight (h : Counts status limit marked 0)
    (hmarking : Marking marked (2 ^ limit)) (hlimit : limit = l + 1)
    (hlt : limit < 28) (hocc : Occupied marked (2 ^ limit)) :
    Counts (setCount status (2 ^ l) split) l marked 0 := by
  have hpos := Nat.one_le_two_pow (n := l)
  have hdouble : 2 ^ limit = 2 * 2 ^ l := by
    rw [hlimit, Nat.pow_succ, Nat.mul_comm]
  have hhalf : 2 ^ limit / 2 = 2 ^ l := by omega
  have hpow : 2 ^ l < 2 ^ 28 := Nat.pow_lt_pow_right (by omega) (by omega)
  have hmore := hmarking.oneMore_root_half (by omega) hocc
  rw [hhalf] at hmore
  have hsame : ∀ m, 1 ≤ m → m ≠ 2 ^ l →
      count (setCount status (2 ^ l) split) m = count status m :=
    fun m hm hne => count_setCount_of_ne h.bytes (by simp) hm hpos hne
  have houtside : ∀ m ∈ marked, m ≠ 2 ^ l := fun m hm =>
    hhalf ▸ ne_half_root (hmarking.below m hm)
  refine ⟨h.bytes.setCount (by simp), ?_, ?_, ?_⟩
  · intro m hm hm2 hne
    rw [hsame m (by omega) (houtside m hm)]
    exact h.taken m hm hm2 hne
  · intro m hm2 hlt' hm hne hne'
    rw [useCount_of_ne hmore hne']
    by_cases heq : m = 2 ^ l
    · -- The old root is in use and its right neighbour is not.
      rw [heq, count_setCount_self h.bytes (by simp),
        useCount_root_half hdouble hocc]
      rfl
    · rw [hsame m (by omega) heq]
      exact h.inner m hm2 hlt' hm hne (by omega)
  · intro hm2
    -- The parent of the new root was an inner node before, so its count was exact.
    have hne : 2 ^ l / 2 ≠ 2 ^ l := by omega
    have hmem : 2 ^ l / 2 ∉ marked := by
      intro hmem
      have hle := (hmarking.below _ hmem).le
      omega
    rw [hsame _ (by omega) hne,
      h.inner _ hm2 (by omega) hmem (by omega) (by omega),
      useCount_half hmore (by omega)]
    exact Nat.le_succ _

end Counts

/-! ## The parts of the allocator -/

/-- `node_set_status` in the simulation. -/
theorem nodeSetStatus_spec (hsim : Sim platform heap arena marked)
    (hn : 1 ≤ n) (hlt : n < 2 ^ 28) (st : Nat) :
    ∃ heap', nodeSetStatus heap (n - 1) st = some heap' ∧
      Sim platform heap' arena marked ∧
      Effect platform kept guarded true heap heap' ∧
      heap'.nodeStatus = setCount heap.nodeStatus n st :=
  ⟨_, nodeSetStatus_eq _ hn hlt st, hsim.withStatus _, Effect.withStatus _, rfl⟩

section Rounds

variable {root right rootStatus : Nat} {heap₁ heap₂ heap₃ : Heap}

theorem growRound_lifted
    (hroot : nodeForPtr heap heap.basePtr heap.bucketLimit = some root)
    (hstatus : getNodeStatus heap root = some unused)
    (hlift : liftUnusedRoot platform heap = some heap₁) :
    growRound platform grant heap = some (true, heap₁) := by
  unfold growRound
  refine Option.bind_eq_some_iff.mpr ⟨root, hroot, ?_⟩
  refine Option.bind_eq_some_iff.mpr ⟨unused, hstatus, ?_⟩
  rw [if_pos rfl]
  exact Option.bind_eq_some_iff.mpr ⟨heap₁, hlift, rfl⟩

theorem growRound_refused
    (hroot : nodeForPtr heap heap.basePtr heap.bucketLimit = some root)
    (hstatus : getNodeStatus heap root = some rootStatus)
    (hused : rootStatus ≠ unused)
    (hright : ptrForNode heap (root + 1) heap.bucketLimit = some right)
    (hupdate : updateMaxPtr grant (wrap (right + sizeofListT)) heap =
      (false, heap₁)) :
    growRound platform grant heap = some (false, heap₁) := by
  unfold growRound
  refine Option.bind_eq_some_iff.mpr ⟨root, hroot, ?_⟩
  refine Option.bind_eq_some_iff.mpr ⟨rootStatus, hstatus, ?_⟩
  rw [if_neg hused]
  refine Option.bind_eq_some_iff.mpr ⟨right, hright, ?_⟩
  rw [hupdate]

theorem growRound_opened
    (hroot : nodeForPtr heap heap.basePtr heap.bucketLimit = some root)
    (hstatus : getNodeStatus heap root = some rootStatus)
    (hused : rootStatus ≠ unused)
    (hright : ptrForNode heap (root + 1) heap.bucketLimit = some right)
    (hupdate : updateMaxPtr grant (wrap (right + sizeofListT)) heap =
      (true, heap₁))
    (hset : nodeSetStatus heap₁ (parentIndex root) split = some heap₂)
    (hopen : openRightChild platform right heap₂ = some heap₃) :
    growRound platform grant heap = some (true, heap₃) := by
  unfold growRound
  refine Option.bind_eq_some_iff.mpr ⟨root, hroot, ?_⟩
  refine Option.bind_eq_some_iff.mpr ⟨rootStatus, hstatus, ?_⟩
  rw [if_neg hused]
  refine Option.bind_eq_some_iff.mpr ⟨right, hright, ?_⟩
  rw [hupdate]
  refine Option.bind_eq_some_iff.mpr ⟨heap₂, hset, ?_⟩
  exact Option.bind_eq_some_iff.mpr ⟨heap₃, hopen, rfl⟩

end Rounds

/-- A round of `lower_bucket_limit` lets the arena grow by one level. -/
theorem growRound_spec (hsim : Sim platform heap arena marked)
    (hcounts : Counts heap.nodeStatus arena.limit marked 0)
    (hlimit : arena.limit = l + 1)
    (hkept : kept ⊆ bytesOf heap.basePtr marked)
    (hguarded : guarded ⊆ bytesOf heap.basePtr marked) :
    ∃ heap', growRound platform grant heap =
        some ((arena.grow grant).1, heap') ∧
      Sim platform heap' (arena.grow grant).2 marked ∧
      Effect platform kept guarded (arena.grow grant).1 heap heap' ∧
      Counts heap'.nodeStatus (arena.grow grant).2.limit marked 0 ∧
      (heap'.nodeStatus = heap.nodeStatus ∧
          (marked = ∅ ∨ (arena.grow grant).2.limit = arena.limit) ∨
        marked ≠ ∅ ∧ (arena.grow grant).2.limit = l ∧
          heap'.nodeStatus = setCount heap.nodeStatus (2 ^ l) split) := by
  have hlt := hsim.shape.limit_lt
  have hpos := Nat.one_le_two_pow (n := l)
  have hdouble : 2 ^ arena.limit = 2 * 2 ^ l := by
    rw [hlimit, Nat.pow_succ, Nat.mul_comm]
  have hpow : 2 ^ arena.limit < 2 ^ 28 :=
    Nat.pow_lt_pow_right (by omega) (by omega)
  -- The source looks at the status of the root; it is UNUSED just when nothing below it is
  -- taken.
  have hunused := hcounts.unused_iff hsim.shape.marking
    (show 2 ≤ 2 ^ arena.limit by omega) hpow (by omega) (by omega)
  have hstatus := getNodeStatus_eq heap
    (show 1 ≤ 2 ^ arena.limit by omega) hpow
  by_cases hmarked : marked = ∅
  · -- The root is free.
    subst hmarked
    have hfree := hsim.shape.root_free_iff.mpr rfl
    rw [hunused.mpr not_inUse_empty] at hstatus
    rw [bytesOf_empty] at hkept hguarded
    obtain ⟨heap', hlift, hsim', heffect, hkeeps⟩ := hsim.lift hlimit hkept
      hguarded
    rw [Arena.grow_of_free hfree]
    refine ⟨heap', growRound_lifted hsim.root_index hstatus hlift, hsim',
      heffect, ?_, Or.inl ⟨hkeeps, Or.inl rfl⟩⟩
    rw [hkeeps]
    exact hcounts.lift (by simp; omega)
  · -- The root is in use.
    have hocc := hsim.shape.occupied_root hmarked
    have hused : 2 ^ arena.limit ∉ arena.free arena.limit := fun h =>
      hmarked (hsim.shape.root_free_iff.mp h)
    have hne : count heap.nodeStatus (2 ^ arena.limit) ≠ unused := fun h =>
      hunused.mp h ⟨within_refl _, hocc⟩
    have hright := hsim.right_ptr hlimit
    obtain ⟨heap₁, hupdate, hsim₁, heffect₁, hkeeps₁⟩ :=
      hsim.reserve_right grant
        hlimit
    have hlimit₁ := Arena.reserve_limit arena grant (Arena.rightEnd arena.limit)
    have htop₁ := Arena.reserve_top arena grant (Arena.rightEnd arena.limit)
    rw [Arena.grow_of_used hused]
    rcases hreserve : arena.reserve grant (Arena.rightEnd arena.limit) with
      ⟨granted, arena₁⟩
    simp only [hreserve] at hupdate hsim₁ heffect₁ hlimit₁ htop₁ ⊢
    cases granted with
    | false =>
        refine ⟨heap₁, growRound_refused hsim.root_index hstatus hne hright
          hupdate, hsim₁, heffect₁, ?_, Or.inl ⟨hkeeps₁, Or.inr ?_⟩⟩
        · simp only [Bool.false_eq_true, if_false, hlimit₁, hkeeps₁]
          exact hcounts
        · simp only [Bool.false_eq_true, if_false, hlimit₁]
    | true =>
        have hfits := htop₁ rfl
        -- The status is set for the parent of the old root, which is the new one.
        have hparent : parentIndex (2 ^ arena.limit - 1) = 2 ^ l - 1 := by
          rw [parentIndex_eq (by omega) (by omega),
            show 2 ^ arena.limit / 2 = 2 ^ l by omega]
        obtain ⟨heap₂, hset, hsim₂, heffect₂, hkeeps₂⟩ :=
          nodeSetStatus_spec hsim₁ hpos
            (by omega) split
        rw [← hparent] at hset
        have heffect := heffect₁.trans heffect₂
        obtain ⟨heap₃, hopen, hsim₃, heffect₃, hkeeps₃⟩ :=
          hsim₂.openRight (l := l)
            (hlimit₁.trans hlimit) hmarked
            (by
              unfold Arena.rightEnd at hfits
              rw [hlimit₁]
              omega)
            (heffect.base ▸ hkept)
        rw [hlimit₁, heffect.base] at hopen
        have hlimit₂ : arena₁.limit - 1 = l := by omega
        refine ⟨heap₃, growRound_opened hsim.root_index hstatus hne hright
          hupdate hset hopen, hsim₃, heffect.trans heffect₃, ?_,
          Or.inr ⟨hmarked, ?_, ?_⟩⟩
        · simp only [if_true, Arena.openRight_limit, hlimit₂, hkeeps₃, hkeeps₂,
            hkeeps₁]
          exact hcounts.openRight hsim.shape.marking hlimit hlt hocc
        · simp only [if_true, Arena.openRight_limit, hlimit₂]
        · rw [hkeeps₃, hkeeps₂, hkeeps₁]

/-! ### Marking full ancestors -/

/-- A node whose children both have the status `USED` has it already. -/
theorem Counts.full (h : Counts status limit marked 0)
    (hmarking : Marking marked (2 ^ limit)) (hm : 2 ≤ m) (hlt : m < 2 ^ 27)
    (hleft : count status (2 * m) = used)
    (hright : count status (2 * m + 1) = used) : count status m = used := by
  have hodd : 2 * m + 1 ≠ 2 ^ limit / 2 := by
    rcases limit with _ | _ | l
    · omega
    · omega
    · rw [Nat.pow_succ, Nat.pow_succ]
      omega
  have hsibling : 2 ≤ 2 ^ limit → sibling (2 ^ limit) = 2 ^ limit + 1 := by
    intro htwo
    obtain ⟨l, rfl⟩ : ∃ l, limit = l + 1 := ⟨limit - 1, by
      rcases limit with _ | l
      · simp at htwo
      · rfl⟩
    rw [Nat.pow_succ, Nat.mul_comm, sibling_double]
  -- The parent of the root has at most one child in use.
  have houter : ∀ k, 2 ≤ k → k = 2 ^ limit / 2 →
      useCount (InUse marked (2 ^ limit)) k ≠ 2 := by
    intro k hk heq htwo
    have hchild := (useCount_eq_two_iff.mp htwo).2
    have hsib := hsibling (by omega)
    have hsucc : 2 * k + 1 = 2 ^ limit + 1 := by
      have heven : 2 ^ limit % 2 = 0 := by
        rcases limit with _ | l
        · omega
        · rw [Nat.pow_succ]
          omega
      omega
    rw [hsucc, ← hsib] at hchild
    exact not_inUse_sibling_root _ _ (by omega) hchild
  have huse : ∀ k, 2 ≤ k → k < 2 ^ 28 → count status k = used →
      k ≠ 2 ^ limit / 2 → InUse marked (2 ^ limit) k := by
    intro k hk hklt hcount hne
    by_contra hnot
    rw [(h.unused_iff hmarking hk hklt (by omega) hne).mpr hnot] at hcount
    exact absurd hcount (by simp)
  have huseRight := huse _ (by omega) (by omega) hright hodd
  have huseLeft : InUse marked (2 ^ limit) (2 * m) := by
    refine huse _ (by omega) (by omega) hleft fun heq => ?_
    have hparent := h.parent (by omega)
    have hle := useCount_le (InUse marked (2 ^ limit)) (2 ^ limit / 2)
    have hne := houter _ (by omega) heq
    rw [← heq] at hparent hle
    simp only [used] at hleft
    omega
  have hmem : m ∉ marked := fun hmem =>
    hmarking.not_inUse_below hmem (within_child_left m) (by omega) huseLeft
  have htwo := useCount_eq_two_iff.mpr ⟨huseLeft, huseRight⟩
  rw [h.inner m hm (by omega) hmem (by omega) fun heq => houter m hm heq htwo]
  exact htwo

/-- The upward loop of `malloc_2` changes nothing. -/
theorem markUsedLoop_eq (h : Counts heap.nodeStatus limit marked 0)
    (hmarking : Marking marked (2 ^ limit)) (rounds : Nat) (hm : 1 ≤ m)
    (hlt : m < 2 ^ 27) (hrounds : m - 1 ≤ rounds) :
    markUsedLoop rounds (m - 1) heap = some heap := by
  -- The loop goes to the parent as long as both children are USED. The statuses are right
  -- already, so a round writes what it finds.
  induction rounds generalizing m with
  | zero =>
      unfold markUsedLoop
      rw [if_neg (by omega)]
  | succ rounds ih =>
      unfold markUsedLoop
      by_cases hone : m = 1
      · rw [if_neg (by omega)]
      · have hleft : wrap ((m - 1) * 2 + 1) = 2 * m - 1 := by
          rw [wrap_of_lt (by omega)]
          omega
        have hright : wrap ((m - 1) * 2 + 2) = 2 * m + 1 - 1 := by
          rw [wrap_of_lt (by omega)]
          omega
        have hgetLeft := getNodeStatus_eq heap
          (show 1 ≤ 2 * m by omega) (by omega)
        have hgetRight := getNodeStatus_eq heap
          (show 1 ≤ 2 * m + 1 by omega) (by omega)
        rw [← hleft] at hgetLeft
        rw [← hright] at hgetRight
        rw [if_pos (by omega)]
        refine Option.bind_eq_some_iff.mpr ⟨_, hgetLeft, ?_⟩
        refine Option.bind_eq_some_iff.mpr ⟨_, hgetRight, ?_⟩
        by_cases hboth : count heap.nodeStatus (2 * m) = used ∧
            count heap.nodeStatus (2 * m + 1) = used
        · have hfull := h.full hmarking (by omega) hlt hboth.1 hboth.2
          have hset := nodeSetStatus_eq heap (show 1 ≤ m by omega)
            (by omega) used
          rw [← hfull, setCount_count h.bytes] at hset
          rw [if_pos hboth, ← hfull]
          refine Option.bind_eq_some_iff.mpr ⟨heap, hset, ?_⟩
          rw [parentIndex_eq (by omega) (by omega)]
          exact ih (by omega) (by omega) (by omega)
        · rw [if_neg hboth]

theorem markUsed_spec (hsim : Sim platform heap arena (insert n marked))
    (hb : AtLevel b n) (hhighest : 1 ≤ b)
    (hcounts : Counts heap.nodeStatus arena.limit (insert n marked) n)
    (ptr : Nat) :
    ∃ heap', markUsed ptr (n - 1) heap = some (ptr, heap') ∧
      Sim platform heap' arena (insert n marked) ∧
      Effect platform kept guarded true heap heap' ∧
      Counts heap'.nodeStatus arena.limit (insert n marked) 0 ∧
      heap'.nodeStatus = setCount heap.nodeStatus n used := by
  obtain ⟨b, rfl⟩ : ∃ d, b = d + 1 := ⟨b - 1, by omega⟩
  have htwo := hb.two_le
  have hlt := hsim.shape.depth n (Set.mem_insert n marked)
  obtain ⟨heap', hset, hsim', heffect, hstatus⟩ :=
    nodeSetStatus_spec hsim
      (show 1 ≤ n by omega) hlt used
  have hcounts' := hcounts.finish hsim.shape.marking htwo
  rw [← hstatus] at hcounts'
  refine ⟨heap', ?_, hsim', heffect, hcounts', hstatus⟩
  have hloop := markUsedLoop_eq hcounts' hsim.shape.marking (n / 2 - 1)
    (show 1 ≤ n / 2 by omega) (by omega) (le_refl _)
  unfold markUsed
  refine Option.bind_eq_some_iff.mpr ⟨heap', hset, ?_⟩
  rw [parentIndex_eq htwo (by omega)]
  exact Option.bind_eq_some_iff.mpr ⟨heap', hloop, rfl⟩

/-! ### Giving back -/

section Rounds

variable {heap₁ heap₂ : Heap} {buddyStatus : Nat}

/-- The other child of the parent, as `free_2` computes it. -/
theorem otherChild_eq (htwo : 2 ≤ c) (hlt : c < 2 ^ 28) :
    (if c - 1 = wrap (parentIndex (c - 1) * 2 + 1) then
      wrap (parentIndex (c - 1) * 2 + 2)
    else wrap (parentIndex (c - 1) * 2 + 1)) = sibling c - 1 := by
  rw [parentIndex_eq htwo (by omega), wrap_of_lt (by omega),
    wrap_of_lt (by omega)]
  rcases eq_children_half htwo with ⟨hleft, hright⟩ | ⟨hright, hleft⟩
  · rw [if_pos (by omega), hright]
    omega
  · rw [if_neg (by omega), hleft]
    omega

theorem settle_stopped (htwo : 2 ≤ c) (hlt : c < 2 ^ 28)
    (hset : nodeSetStatus heap (c - 1) unused = some heap₁)
    (hstatus : getNodeStatus heap₁ (sibling c - 1) = some buddyStatus)
    (hstop : buddyStatus ≠ unused ∨ b = heap₁.bucketLimit)
    (hdec : parentDecStatus heap₁ (c - 1) = some heap₂) :
    settle (c - 1) b heap = some (true, heap₂) := by
  unfold settle
  refine Option.bind_eq_some_iff.mpr ⟨heap₁, hset, ?_⟩
  simp only [otherChild_eq htwo hlt]
  refine Option.bind_eq_some_iff.mpr ⟨buddyStatus, hstatus, ?_⟩
  rw [if_pos hstop]
  exact Option.bind_eq_some_iff.mpr ⟨heap₂, hdec, rfl⟩

theorem settle_merging (htwo : 2 ≤ c) (hlt : c < 2 ^ 28)
    (hset : nodeSetStatus heap (c - 1) unused = some heap₁)
    (hstatus : getNodeStatus heap₁ (sibling c - 1) = some unused)
    (hgo : b ≠ heap₁.bucketLimit) :
    settle (c - 1) b heap = some (false, heap₁) := by
  unfold settle
  refine Option.bind_eq_some_iff.mpr ⟨heap₁, hset, ?_⟩
  simp only [otherChild_eq htwo hlt]
  refine Option.bind_eq_some_iff.mpr ⟨unused, hstatus, ?_⟩
  rw [if_neg (by tauto)]

end Rounds

/-- A round of `free_2` takes the node out of use and stops where its sibling
is in use or at the root. -/
theorem settle_spec (hshape : arena.Shape (insert c marked)) (hc : c ∉ marked)
    (hb : AtLevel (b + 1) c) (hlimit : heap.bucketLimit = arena.limit)
    (hcounts : Counts heap.nodeStatus arena.limit (insert c marked) c)
    (hfreeable : Freeable heap.nodeStatus arena.limit marked) :
    ∃ status, settle (c - 1) (b + 1) heap =
        some (decide (b + 1 = arena.limit ∨ sibling c ∉ arena.free (b + 1)),
          { heap with nodeStatus := status }) ∧
      (b + 1 = arena.limit ∨ sibling c ∉ arena.free (b + 1) →
        Counts status arena.limit marked 0 ∧
        status = decCount (setCount heap.nodeStatus c unused) (c / 2)) ∧
      (¬ (b + 1 = arena.limit ∨ sibling c ∉ arena.free (b + 1)) →
        (Counts status arena.limit (insert (c / 2) marked) (c / 2) ∧
          Freeable status arena.limit marked) ∧
        status = setCount heap.nodeStatus c unused) := by
  have htwo := hb.two_le
  have hself := Set.mem_insert c marked
  have hbelow := hshape.marking.below c hself
  have hlt := hshape.depth c hself
  have hsiblingLt : sibling c < 2 ^ 28 := by
    have hlevel := hshape.node_lt hself hb
    exact node_lt hb.sibling (by simpa using hlevel)
  have hsiblingTwo := two_le_sibling htwo
  obtain ⟨hbytes, -, hsame⟩ := hcounts.clear (by omega)
  have hset := nodeSetStatus_eq heap (show 1 ≤ c by omega) hlt unused
  have hstatus := getNodeStatus_eq { heap with nodeStatus := setCount heap.nodeStatus c unused }
    (show 1 ≤ sibling c by omega) hsiblingLt
  simp only [hsame _ (show 1 ≤ sibling c by omega) (sibling_ne c)] at hstatus
  have hrootne : sibling c ≠ 2 ^ arena.limit / 2 := by
    have hle := hbelow.le
    have hpos := Nat.one_le_two_pow (n := arena.limit)
    unfold sibling
    omega
  have hunused := hcounts.unused_iff hshape.marking hsiblingTwo hsiblingLt
    (sibling_ne c) hrootne
  rw [hshape.inUse_sibling_iff hb] at hunused
  by_cases hdone : b + 1 = arena.limit ∨ sibling c ∉ arena.free (b + 1)
  · have hstop : count heap.nodeStatus (sibling c) ≠ unused ∨
        b + 1 = heap.bucketLimit := by
      rw [hlimit, Ne, hunused]
      tauto
    have hdec := parentDecStatus_eq { heap with nodeStatus := setCount heap.nodeStatus c unused }
      htwo hlt
    refine ⟨decCount (setCount heap.nodeStatus c unused) (c / 2), ?_,
      fun _ => ⟨?_, rfl⟩, fun h => absurd hdone h⟩
    · rw [decide_eq_true hdone]
      exact settle_stopped htwo hlt hset hstatus hstop hdec
    · refine hcounts.give hshape.marking hc htwo hlt
        (hshape.oneMore_give hc hb hdone) fun hroot hhalf => ?_
      -- The root is given back: nothing else is taken.
      have hempty : marked = ∅ := by
        refine Set.eq_empty_iff_forall_notMem.mpr fun m hm => hc ?_
        have hm' := Set.mem_insert_of_mem c hm
        have hwithin := hshape.marking.below m hm'
        rw [← hroot] at hwithin
        exact hshape.marking.apart m hm' c hself hwithin ▸ hm
      rcases hfreeable with hne | hlow | hcount
      · exact absurd hempty hne
      · have hsmall : 2 ^ arena.limit ≤ 2 ^ 1 :=
          Nat.pow_le_pow_right (by omega) hlow
        omega
      · rw [hroot]
        exact hcount
  · have hfree : sibling c ∈ arena.free (b + 1) := by tauto
    have hnot : b + 1 ≠ arena.limit := by tauto
    obtain ⟨hmerged, hhalf⟩ := hshape.merge hc hb hfree
    have hzero : count heap.nodeStatus (sibling c) = unused := by
      rw [hunused]
      tauto
    rw [hzero] at hstatus
    refine ⟨setCount heap.nodeStatus c unused, ?_, fun h => absurd h hdone,
      fun _ => ⟨⟨hcounts.merge hmerged.marking hhalf hc htwo, ?_⟩, rfl⟩⟩
    · rw [decide_eq_false hdone]
      exact settle_merging htwo hlt hset hstatus (by rw [hlimit]; exact hnot)
    · by_cases hlow : arena.limit ≤ 1
      · exact Or.inr (Or.inl hlow)
      · have hlarge : 2 ^ 1 ≤ 2 ^ arena.limit :=
          Nat.pow_le_pow_right (by omega) (by omega)
        refine hfreeable.imp id (Or.imp id fun hcount => ?_)
        rw [hsame _ (by omega) (ne_half_root hbelow).symm]
        exact hcount

/-! ### Finding the bucket of a block -/

/-- The node of a level that an address of the arena belongs to. -/
theorem atLevel_leaf {i x : Nat} (hi : i ≤ 31) (hx : x < 2 ^ 31) :
    AtLevel i ((2 ^ 31 + x) / 2 ^ (31 - i)) := by
  have hsplit := two_pow_split hi
  constructor
  · rw [Nat.le_div_iff_mul_le (by positivity), hsplit]
    omega
  · have hdouble : 2 ^ (i + 1) * 2 ^ (31 - i) = 2 * 2 ^ 31 := by
      rw [← hsplit, Nat.pow_succ]
      ring
    rw [Nat.div_lt_iff_lt_mul (by positivity), hdouble]
    omega

/-- Below a block the loop of `bucket_for_alloced_pointer` meets nodes that are
not in use, and at the block it stops. -/
theorem bucketForAllocedPointerLoop_eq
    (hcounts : Counts heap.nodeStatus arena.limit marked 0)
    (hshape : arena.Shape marked) (hlimit : heap.bucketLimit = arena.limit)
    (hn : n ∈ marked) (hb : AtLevel b n) (hpos : 1 ≤ b) {i : Nat} (hi : b ≤ i)
    (hlt : i < 28) :
    bucketForAllocedPointerLoop heap (nodeAddr heap.basePtr b n) (i + 1) =
      some b := by
  have hbelow := hshape.marking.below n hn
  obtain ⟨hle, -⟩ := hbelow.levels hb (atLevel_two_pow _)
  -- The loop counts down from the smallest blocks. Below the bucket of the node it finds
  -- nodes inside the block, which are UNUSED; the induction ends at the node itself.
  induction i, hi using Nat.le_induction with
  | base =>
      obtain ⟨b, rfl⟩ : ∃ d, b = d + 1 := ⟨b - 1, by omega⟩
      have hstatus := getNodeStatus_eq heap hb.pos (hshape.depth n hn)
      rw [hcounts.taken n hn hb.two_le (by have := hb.pos; omega)] at hstatus
      unfold bucketForAllocedPointerLoop
      rw [hlimit, if_pos hle]
      refine Option.bind_eq_some_iff.mpr
        ⟨n - 1, nodeForPtr_eq _ hb (by simpa using hlt), ?_⟩
      exact Option.bind_eq_some_iff.mpr ⟨used, hstatus, if_pos rfl⟩
  | succ i hi ih =>
      have hlevelLt := hshape.node_lt hn hb
      obtain ⟨hx, hleaf⟩ := within_start hb hlevelLt
      have hd := atLevel_leaf (i := i + 1) (by omega) hx
      have hnode := nodeForPtr_add heap
        (show i + 1 < bucketCount by simpa using hlt) hx
      generalize hdef : (2 ^ 31 + offset 31 b n) / 2 ^ (31 - (i + 1)) = d
        at hd hnode
      have hdn : Within d n := by
        rcases Within.total ⟨31 - (i + 1), hdef⟩ hleaf with h | h
        · exact h
        · obtain ⟨hlevels, -⟩ := h.levels hb hd
          omega
      have hne : d ≠ n := by
        rintro rfl
        have := hd.unique hb
        omega
      have hdlt := node_lt hd (show i + 1 < bucketCount by simpa using hlt)
      have hnone := (hcounts.unused_iff hshape.marking hd.two_le hdlt
        (by have := hd.pos; omega) (ne_half_root (hdn.trans hbelow))).mpr
        (hshape.marking.not_inUse_below hn hdn hne)
      have hstatus := getNodeStatus_eq heap hd.pos hdlt
      rw [hnone] at hstatus
      unfold bucketForAllocedPointerLoop
      rw [hlimit, if_pos (by omega)]
      refine Option.bind_eq_some_iff.mpr ⟨d - 1, hnode, ?_⟩
      refine Option.bind_eq_some_iff.mpr ⟨unused, hstatus, ?_⟩
      rw [if_neg (by simp)]
      exact ih (by omega)

/-- `bucket_for_alloced_pointer` finds the bucket that a live block was taken
from. -/
theorem bucketForAllocedPointer_spec
    (hcounts : Counts heap.nodeStatus arena.limit marked 0)
    (hsim : Sim platform heap arena marked)
    (hn : n ∈ marked) (hb : AtLevel b n) (hpos : 1 ≤ b) :
    bucketForAllocedPointer heap (nodeAddr heap.basePtr b n) = some b := by
  have hlt := hsim.shape.node_lt hn hb
  exact bucketForAllocedPointerLoop_eq hcounts hsim.shape hsim.limit hn hb hpos
    (i := 27) (by omega) (by omega)

/-- The upward loop reads the statuses of both children first. -/
theorem markUsedLoop_none {rounds parentI : Nat} (hparent : parentI ≠ 0)
    (hleft : getNodeStatus heap (wrap (parentI * 2 + 1)) = none) :
    markUsedLoop rounds parentI heap = none := by
  cases rounds with
  | zero =>
      unfold markUsedLoop
      exact if_pos hparent
  | succ rounds =>
      unfold markUsedLoop
      rw [if_pos hparent]
      exact Option.bind_eq_none_iff.mpr fun st hst =>
        absurd (hleft.symm.trans hst) (by simp)

/-- `malloc_2` does not get past a block of the largest size: node `0` has no
parent, and the loop that looks for one leaves the array. -/
theorem markUsed_first (ptr : Nat) (heap : Heap) : markUsed ptr 0 heap = none := by
  have hparent : parentIndex 0 = 2 ^ 63 - 1 := by
    unfold parentIndex sizeSub wrap
    omega
  have hnone : ∀ heap' : Heap,
      getNodeStatus heap' (wrap ((2 ^ 63 - 1) * 2 + 1)) = none := by
    intro heap'
    have hout : ¬ wrap ((2 ^ 63 - 1) * 2 + 1) / 4 < statusBytes := by
      unfold wrap statusBytes
      simp
    unfold getNodeStatus
    exact if_neg hout
  unfold markUsed
  refine Option.bind_eq_none_iff.mpr fun heap' _ => ?_
  rw [hparent]
  exact Option.bind_eq_none_iff.mpr fun heap'' hloop =>
    absurd ((markUsedLoop_none (by omega) (hnone heap')).symm.trans hloop)
      (by simp)

/-- `free_2` finds the bucket of a live block in the tree. -/
theorem free2_eq {request : Nat} (hsim : Sim platform heap arena marked)
    (hcounts : Counts heap.nodeStatus arena.limit marked 0) (hn : n ∈ marked)
    (hhighest : 1 ≤ bucketOf request) (hb : AtLevel (bucketOf request) n) :
    free2 platform (nodeAddr heap.basePtr (bucketOf request) n) heap =
      giveBack platform settle
        (nodeAddr heap.basePtr (bucketOf request) n) (bucketOf request) heap := by
  have hbucket := bucketForAllocedPointer_spec hcounts hsim hn hb hhighest
  unfold free2
  rw [if_neg (hsim.mapped.nodeAddr_ne_zero _ _)]
  simp only [hbucket, Option.bind_eq_bind, Option.bind_some]

/-- Handing out a free block opens its node. -/
theorem mark_take (hshape : arena.Shape marked) (hn : n ∈ arena.free b)
    (hcounts : Counts heap.nodeStatus arena.limit marked 0) :
    ∃ status, markUnlessFirst parentIncStatus heap (n - 1) =
        some { heap with nodeStatus := status } ∧
      Counts status arena.limit (insert n marked) n ∧
      (2 ≤ n → count status n = unused) := by
  obtain ⟨hvacant, hb⟩ := (hshape.free_iff b n).mp hn
  obtain ⟨-, -, hlt⟩ := hshape.free_level hn
  have hnlt := node_lt hb (show b < bucketCount by simpa using hlt)
  by_cases hone : n = 1
  · -- The root of the whole tree has no parent to count it.
    subst hone
    have hmore := hvacant.oneMore Nat.one_le_two_pow
    have hroot : 2 ^ arena.limit = 1 := hvacant.below.eq_one Nat.one_le_two_pow
    refine ⟨heap.nodeStatus, ?_, hcounts.first hroot (by omega) ?_
      fun k hk => hmore.of_ne hk, by omega⟩
    · rw [markUnlessFirst, if_neg (by omega)]
    · intro m hm
      rw [Set.mem_insert_iff, or_iff_right (by omega)]
  · have htwo : 2 ≤ n := by
      have := hb.pos
      omega
    obtain ⟨hcounts', hzero⟩ := hcounts.take hshape.marking hvacant htwo hnlt
    refine ⟨_, ?_, hcounts', fun _ => hzero⟩
    rw [markUnlessFirst, if_pos (by omega), parentIncStatus_eq _ htwo hnlt]

/-- Handing out the left half of a node opens the half. -/
theorem mark_split (hshape : arena.Shape (insert n marked)) (hn : n ∉ marked)
    (hb : AtLevel b n) (hlt : b + 1 < 28)
    (hcounts : Counts heap.nodeStatus arena.limit (insert n marked) n)
    (hopen : 2 ≤ n → count heap.nodeStatus n = unused) :
    ∃ status, parentIncStatus heap (2 * n - 1) =
        some { heap with nodeStatus := status } ∧
      Counts status arena.limit (insert (2 * n) marked) (2 * n) ∧
      (2 ≤ 2 * n → count status (2 * n) = unused) := by
  have hpos := hb.pos
  have hchild := node_lt hb.left (show b + 1 < bucketCount by simpa using hlt)
  obtain ⟨hcounts', hzero⟩ :=
    hcounts.descend hshape.marking hn hpos hchild hopen
  have hinc := parentIncStatus_eq heap (n := 2 * n) (by omega) hchild
  rw [show 2 * n / 2 = n by omega] at hinc
  exact ⟨_, hinc, hcounts', fun _ => hzero⟩

/-- Giving back the root of the whole tree. -/
theorem closing_root {status : Nat → Nat}
    (hshape : arena.Shape (insert 1 marked)) (hone : 1 ∉ marked)
    (hcounts : Counts status arena.limit (insert 1 marked) 1) :
    Counts status arena.limit marked 0 := by
  have hroot : 2 ^ arena.limit = 1 :=
    (hshape.marking.below 1 (Set.mem_insert 1 marked)).eq_one Nat.one_le_two_pow
  have hvacant := hshape.marking.vacant_of_insert hone (Or.inl hroot.symm)
  have hmore := hvacant.oneMore Nat.one_le_two_pow
  refine hcounts.first hroot (le_refl _) ?_ fun k hk => (hmore.of_ne hk).symm
  intro m hm
  rw [Set.mem_insert_iff, or_iff_right (by omega)]

/-- The blocks of `malloc_2` have no header. -/
theorem header_lt (platform : Platform) : (allocator2 platform).header < 16 :=
  Nat.zero_lt_succ 15

/-- `malloc_2` in the parts of the common text. -/
theorem malloc_eq (platform : Platform) (grant : Nat → Bool) (request : Nat)
    (heap : Heap) :
    (allocator2 platform).malloc grant request heap =
      allocate platform grant
        (fun bucket heap => lowerLoop (growRound platform grant) bucket
          (heap.bucketLimit - bucket) heap)
        (claimBlock platform grant parentIncStatus markUsed) request heap := rfl

/-- The bookkeeping of `malloc_2` and `free_2`. -/
def bookkeeping (platform : Platform) : Bookkeeping platform where
  allocator := allocator2 platform
  round := growRound platform
  mark := parentIncStatus
  finish _ := markUsed
  settle := settle
  highest := 1
  Tracked status limit marked := Counts status limit marked 0
  Opening status limit marked n :=
    Counts status limit (insert n marked) n ∧
      (2 ≤ n → count status n = unused)
  Closing status limit marked n :=
    Counts status limit (insert n marked) n ∧ Freeable status limit marked
  Freeable := Freeable
  Label _ _ _ := True
  header_lt := header_lt platform
  highest_le := Nat.zero_lt_one
  finish_first _ _ ptr heap := markUsed_first ptr heap
  label_congr _ hlabel := hlabel
  tracked_zero := Counts.initial
  malloc_eq := malloc_eq platform
  free_eq hsim hcounts hn _ hhighest hb _ :=
    free2_eq hsim hcounts hn hhighest hb
  round_spec hsim hcounts hlimit hkept hguarded :=
    have ⟨heap', hround, hsim', heffect, hcounts', _⟩ :=
      growRound_spec hsim hcounts hlimit hkept hguarded
    ⟨heap', hround, hsim', heffect, hcounts'⟩
  mark_take hshape hn hcounts := mark_take hshape hn hcounts
  mark_split hshape hn hb hlt hopening :=
    mark_split hshape hn hb hlt hopening.1 hopening.2
  finish_spec hsim _ hb hhighest _ hopening _ _ :=
    have ⟨heap', hmark, hsim', heffect, hcounts', _⟩ :=
      markUsed_spec hsim hb hhighest hopening.1 _
    ⟨heap', hmark, hsim', heffect, hcounts', trivial⟩
  closing _ _ hcounts hfreeable := ⟨hcounts.exempt _, hfreeable⟩
  settle_spec hshape hc hb hlimit hclosing :=
    have ⟨status, hsettle, hstop, hgo⟩ :=
      settle_spec hshape hc hb hlimit hclosing.1 hclosing.2
    ⟨status, hsettle, fun hdone => (hstop hdone).1, fun hdone => (hgo hdone).1⟩
  closing_root hshape hone hclosing := closing_root hshape hone hclosing.1

end Malloc2
end BuddyAlloc
end OsStuff
