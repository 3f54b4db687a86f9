import OsStuff.BuddyAlloc.Arena
import OsStuff.BuddyAlloc.Nodes

/-!
# Moves of the arena in memory

`Sim platform heap arena marked` ties a heap to the abstract arena in which
the nodes of `marked` are taken: the static variables agree, and the memory
holds the free lists of the arena in order.  It does not mention
`node_status`, which the two allocators use differently.

Every piece of list code that the allocators share carries out one move of the
arena.  `Effect` records what such a piece leaves alone: the bytes of the
nodes that stay taken, and the good order of the log.
-/

namespace OsStuff
namespace BuddyAlloc

open Library Library.DyadicTree

/-- The addresses of the bytes of the given nodes. -/
def bytesOf (base : Nat) (nodes : Set Nat) : Set Nat :=
  { y | ∃ x, x < 2 ^ 31 ∧ y = base + x ∧ ∃ n ∈ nodes, Within (2 ^ 31 + x) n }

/-- The addresses of the free nodes of a level, in order. -/
def freeAddrs (base : Nat) (arena : Arena) (b : Nat) : List Nat :=
  (arena.free b).map (nodeAddr base b)

/-- The heap is the arena in memory. -/
structure Sim (platform : Platform) (heap : Heap) (arena : Arena)
    (marked : Set Nat) : Prop where
  mapped : Mapped platform heap
  limit : heap.bucketLimit = arena.limit
  top : heap.maxPtr = heap.basePtr + arena.top
  asked : heap.asked = arena.asked
  shape : arena.Shape marked
  lists : FreeLists platform heap (freeAddrs heap.basePtr arena)

/-- What a piece of code does to the rest of the process: the base and the
`kept` bytes stay, the log stays in order with respect to the `guarded`
addresses, the break does not fall, requests for memory are made at the
current break and, when `ok`, are granted, and `max_ptr` only moves over
granted requests. -/
structure Effect (platform : Platform) (kept guarded : Set Nat) (ok : Bool)
    (heap heap' : Heap) : Prop where
  base : heap'.basePtr = heap.basePtr
  memory : ∀ y ∈ kept, heap'.memory y = heap.memory y
  log : LogOk platform guarded heap.log → LogOk platform guarded heap'.log
  brk_le : heap.brk ≤ heap'.brk
  history : ∀ r ∈ requests heap.log, r ∈ requests heap'.log
  granted : ok = true → ∀ r ∈ requests heap'.log,
    r ∈ requests heap.log ∨ r.granted = true
  fresh : ∀ r ∈ requests heap'.log, r ∈ requests heap.log ∨
    (heap.brk ≤ r.brk ∧
      (r.granted = true → r.brk + (r.newValue - r.maxPtr) ≤ heap'.brk))
  grown : ∀ y, heap.maxPtr ≤ y → y < heap'.maxPtr →
    ∃ r ∈ requests heap'.log,
      r.granted = true ∧ r.maxPtr ≤ y ∧ y < r.newValue

variable {platform : Platform} {heap heap' heap'' : Heap} {arena : Arena}
  {marked marked' kept guarded : Set Nat} {b d n m c : Nat} {ok : Bool}
  {grant : Nat → Bool}

/-- The effect of code that neither moves the break nor asks for memory. -/
theorem Effect.of_same (hbase : heap'.basePtr = heap.basePtr)
    (hmemory : ∀ y ∈ kept, heap'.memory y = heap.memory y)
    (hlog : LogOk platform guarded heap.log →
      LogOk platform guarded heap'.log)
    (hbrk : heap'.brk = heap.brk) (hmax : heap'.maxPtr = heap.maxPtr)
    (hrequests : requests heap'.log = requests heap.log) :
    Effect platform kept guarded ok heap heap' where
  base := hbase
  memory := hmemory
  log := hlog
  brk_le := by omega
  history r hr := by rwa [hrequests]
  granted _ r hr := Or.inl (by rwa [← hrequests])
  fresh r hr := Or.inl (by rwa [← hrequests])
  grown y hlow hhigh := by omega

theorem Effect.refl (heap : Heap) :
    Effect platform kept guarded ok heap heap :=
  Effect.of_same rfl (fun _ _ => rfl) id rfl rfl rfl

theorem Effect.trans {ok' : Bool}
    (h : Effect platform kept guarded ok heap heap')
    (h' : Effect platform kept guarded ok' heap' heap'') :
    Effect platform kept guarded (ok && ok') heap heap'' where
  base := h'.base.trans h.base
  memory y hy := (h'.memory y hy).trans (h.memory y hy)
  log hlog := h'.log (h.log hlog)
  brk_le := h.brk_le.trans h'.brk_le
  history r hr := h'.history r (h.history r hr)
  granted hok r hr := by
    obtain ⟨hfirst, hsecond⟩ := Bool.and_eq_true_iff.mp hok
    rcases h'.granted hsecond r hr with hr | hr
    · exact h.granted hfirst r hr
    · exact Or.inr hr
  fresh r hr := by
    have hle := h.brk_le
    have hle' := h'.brk_le
    rcases h'.fresh r hr with hr | ⟨hbrk, hend⟩
    · refine (h.fresh r hr).imp id fun ⟨hbrk, hend⟩ => ⟨hbrk, fun hg => ?_⟩
      exact (hend hg).trans hle'
    · exact Or.inr ⟨hle.trans hbrk, hend⟩
  grown y hlow hhigh := by
    by_cases hmid : y < heap'.maxPtr
    · obtain ⟨r, hr, hrest⟩ := h.grown y hlow hmid
      exact ⟨r, h'.history r hr, hrest⟩
    · exact h'.grown y (by omega) hhigh

theorem Effect.mono {kept' : Set Nat} (hsub : kept' ⊆ kept)
    (h : Effect platform kept guarded ok heap heap') :
    Effect platform kept' guarded ok heap heap' :=
  { h with memory := fun y hy => h.memory y (hsub hy) }

/-- Any effect may be seen as that of a computation that fails. -/
theorem Effect.forget (h : Effect platform kept guarded ok heap heap') :
    Effect platform kept guarded false heap heap' :=
  { h with granted := fun hfalse => absurd hfalse (by simp) }

/-- A request for memory moves the break when it is granted, and is logged in any
case. -/
theorem updateMaxPtr_effect (grant : Nat → Bool) (newValue : Nat) (heap : Heap) :
    Effect platform kept guarded (updateMaxPtr grant newValue heap).1 heap
      (updateMaxPtr grant newValue heap).2 := by
  unfold updateMaxPtr
  by_cases hmore : heap.maxPtr < newValue
  · rw [if_pos hmore]
    cases hgrant : grant heap.asked with
    | true =>
        refine ⟨rfl, fun _ _ => rfl, fun hlog => hlog.cons trivial,
          Nat.le_add_right _ _, ?_, ?_, ?_, ?_⟩
        · intro r hr
          exact List.mem_cons_of_mem _ hr
        · intro _ r hr
          rcases List.mem_cons.mp hr with rfl | hr
          · exact Or.inr rfl
          · exact Or.inl hr
        · intro r hr
          rcases List.mem_cons.mp hr with rfl | hr
          · exact Or.inr ⟨le_refl _, fun _ => le_refl _⟩
          · exact Or.inl hr
        · intro y hlow hhigh
          exact ⟨_, List.mem_cons_self, rfl, hlow, hhigh⟩
    | false =>
        refine ⟨rfl, fun _ _ => rfl, fun hlog => hlog.cons trivial, le_refl _,
          ?_, ?_, ?_, ?_⟩
        · intro r hr
          exact List.mem_cons_of_mem _ hr
        · intro hfalse
          exact absurd hfalse (by simp)
        · intro r hr
          rcases List.mem_cons.mp hr with rfl | hr
          · exact Or.inr ⟨le_refl _, fun h => absurd h (by simp)⟩
          · exact Or.inl hr
        · intro y hlow hhigh
          exact absurd (hlow.trans_lt hhigh) (lt_irrefl _)
  · rw [if_neg hmore]
    exact Effect.refl heap

/-! ## Bytes and nodes -/

theorem bytesOf_mono {base : Nat} (hsub : marked ⊆ marked') :
    bytesOf base marked ⊆ bytesOf base marked' := by
  rintro y ⟨x, hx, rfl, n, hn, hwithin⟩
  exact ⟨x, hx, rfl, n, hsub hn, hwithin⟩

/-- The bytes of a node are among those of its parent. -/
theorem bytesOf_insert_half {base : Nat} :
    bytesOf base (insert c marked) ⊆ bytesOf base (insert (c / 2) marked) := by
  rintro y ⟨x, hx, rfl, n, hn, hwithin⟩
  rcases Set.mem_insert_iff.mp hn with rfl | hn
  · exact ⟨x, hx, rfl, _, Set.mem_insert _ _, hwithin.trans (within_half n)⟩
  · exact ⟨x, hx, rfl, n, Set.mem_insert_of_mem _ hn, hwithin⟩

/-- The address range of a node consists of the bytes below it. -/
theorem mem_node_iff (base : Nat) {y : Nat} (hn : AtLevel b n) (hb : b < 28) :
    nodeAddr base b n ≤ y ∧ y < nodeAddr base b n + 2 ^ (31 - b) ↔
      ∃ x, x < 2 ^ 31 ∧ y = base + x ∧ Within (2 ^ 31 + x) n := by
  have hbound := offset_bound hn hb
  unfold nodeAddr
  constructor
  · rintro ⟨hlow, hhigh⟩
    refine ⟨y - base, by omega, by omega, ?_⟩
    rw [within_leaf_iff (by omega) hn (by omega)]
    omega
  · rintro ⟨x, hx, rfl, hwithin⟩
    rw [within_leaf_iff (by omega) hn hx] at hwithin
    omega

/-- The first byte of a node lies below it. -/
theorem within_start (hn : AtLevel b n) (hb : b < 28) :
    offset 31 b n < 2 ^ 31 ∧ Within (2 ^ 31 + offset 31 b n) n := by
  have hbound := offset_bound hn hb
  have hsize := sixteen_le_size hb
  refine ⟨by omega, ?_⟩
  rw [within_leaf_iff (by omega) hn (by omega)]
  omega

/-- A free node and a byte of a taken node are apart. -/
theorem free_apart {base y : Nat} (hshape : arena.Shape marked)
    (hn : n ∈ arena.free b) (hy : y ∈ bytesOf base marked) :
    y < nodeAddr base b n ∨ nodeAddr base b n + 2 ^ (31 - b) ≤ y := by
  obtain ⟨hlevel, -, hb⟩ := hshape.free_level hn
  obtain ⟨hvacant, -⟩ := (hshape.free_iff b n).mp hn
  obtain ⟨x, hx, rfl, m, hm, hwithin⟩ := hy
  by_contra hinside
  obtain ⟨x', -, heq, hwithin'⟩ := (mem_node_iff base
    (y := base + x) hlevel hb).mp (by omega)
  have hxx : x' = x := by omega
  subst hxx
  exact hvacant.apart_marked hshape.marking Nat.one_le_two_pow hm hwithin'
    hwithin

/-- A free node does not start at a byte of a taken node. -/
theorem free_not_mem {base : Nat} (hshape : arena.Shape marked)
    (hn : n ∈ arena.free b) : nodeAddr base b n ∉ bytesOf base marked := by
  intro hmem
  obtain ⟨-, -, hb⟩ := hshape.free_level hn
  have hsize := sixteen_le_size hb
  rcases free_apart hshape hn hmem with h | h <;> omega

/-- Free nodes have different addresses. -/
theorem free_addr_injective {base : Nat} (hshape : arena.Shape marked)
    (hn : n ∈ arena.free b) (hm : m ∈ arena.free d)
    (heq : nodeAddr base b n = nodeAddr base d m) : b = d ∧ n = m := by
  obtain ⟨hn', -, hb⟩ := hshape.free_level hn
  obtain ⟨hm', -, hd⟩ := hshape.free_level hm
  have hoffset : offset 31 b n = offset 31 d m := by
    unfold nodeAddr at heq
    omega
  have hnm : n = m :=
    ((hshape.free_iff b n).mp hn).1.unique ((hshape.free_iff d m).mp hm).1
      Nat.one_le_two_pow (within_start hn' hb).2
      (hoffset ▸ (within_start hm' hd).2)
  subst hnm
  exact ⟨hn'.unique hm', rfl⟩

theorem Sim.outside {y : Nat} (hsim : Sim platform heap arena marked)
    (hy : y ∈ bytesOf heap.basePtr marked) :
    Outside heap (freeAddrs heap.basePtr arena) y := by
  refine ⟨?_, ?_⟩
  · obtain ⟨x, -, rfl, -⟩ := hy
    omega
  · intro e _ z hz
    obtain ⟨n, hn, rfl⟩ := List.mem_map.mp hz
    obtain ⟨-, -, he⟩ := hsim.shape.free_level hn
    have hsize := sixteen_le_size he
    have := free_apart hsim.shape hn hy
    omega

theorem Sim.active_iff (hsim : Sim platform heap arena marked) :
    Active heap.bucketLimit b ↔ arena.limit ≤ b ∧ b < 28 := by
  rw [hsim.limit]
  simp [Active]

theorem Sim.free_active (hsim : Sim platform heap arena marked)
    (hn : n ∈ arena.free b) : Active heap.bucketLimit b :=
  hsim.active_iff.mpr (hsim.shape.free_level hn).2

/-- A node whose links have room is backed. -/
theorem Sim.backed (hsim : Sim platform heap arena marked)
    (hn : AtLevel b n) (hb : b < 28)
    (hroom : offset 31 b n + 16 ≤ arena.top) :
    Backed heap (nodeAddr heap.basePtr b n) := by
  refine ⟨nodeAddr_slot hn hb, ?_⟩
  rw [hsim.top]
  unfold nodeAddr
  omega

/-- `node_status` is not part of the simulation. -/
theorem Sim.withStatus (hsim : Sim platform heap arena marked)
    (status : Nat → Nat) :
    Sim platform { heap with nodeStatus := status } arena marked :=
  ⟨hsim.mapped.congr rfl rfl rfl, hsim.limit,
    hsim.top, hsim.asked, hsim.shape,
    ⟨hsim.lists.family, hsim.lists.backed⟩⟩

theorem Effect.withStatus (status : Nat → Nat) :
    Effect platform kept guarded true heap
      { heap with nodeStatus := status } :=
  Effect.of_same rfl (fun _ _ => rfl) id rfl rfl rfl

/-! ## Pushing and removing -/

theorem freeAddrs_push (base : Nat) :
    freeAddrs base (arena.push b n) =
      Function.update (freeAddrs base arena) b
        (freeAddrs base arena b ++ [nodeAddr base b n]) := by
  funext e
  by_cases heb : e = b
  · subst heb
    simp [freeAddrs, Arena.push]
  · simp [freeAddrs, Arena.push, heb]

theorem map_erase_of_injOn {f : Nat → Nat} {list : List Nat} {a : Nat}
    (hinj : ∀ x ∈ list, f x = f a → x = a) :
    (list.erase a).map f = (list.map f).erase (f a) := by
  induction list with
  | nil => simp
  | cons x list ih =>
      have htail := ih fun y hy => hinj y (List.mem_cons_of_mem x hy)
      by_cases hxa : x = a
      · subst hxa
        simp
      · have hfx : f x ≠ f a := fun h => hxa (hinj x List.mem_cons_self h)
        rw [List.erase_cons_tail (by simpa using hxa), List.map_cons, htail,
          List.map_cons, List.erase_cons_tail (by simpa using hfx)]

theorem freeAddrs_drop (base : Nat) (hshape : arena.Shape marked)
    (hn : n ∈ arena.free b) :
    freeAddrs base (arena.drop b n) =
      Function.update (freeAddrs base arena) b
        ((freeAddrs base arena b).erase (nodeAddr base b n)) := by
  funext e
  by_cases heb : e = b
  · subst heb
    simp only [freeAddrs, Arena.drop, Function.update_self]
    exact map_erase_of_injOn fun x hx heq =>
      (free_addr_injective hshape hx hn heq).2
  · simp [freeAddrs, Arena.drop, heb]

/-- `list_push` carries out a push after which the arena has a shape. -/
theorem Sim.push (hsim : Sim platform heap arena marked)
    (hshape : (arena.push b n).Shape marked')
    (hkept : kept ⊆ bytesOf heap.basePtr marked)
    (hkept' : kept ⊆ bytesOf heap.basePtr marked') :
    Sim platform
        (listPush (platform.head b) (nodeAddr heap.basePtr b n) heap)
        (arena.push b n) marked' ∧
      Effect platform kept guarded true heap
        (listPush (platform.head b) (nodeAddr heap.basePtr b n) heap) := by
  have hmem : n ∈ (arena.push b n).free b := Arena.mem_push.mpr (Or.inr ⟨rfl, rfl⟩)
  obtain ⟨hlevel, hlimit, hb⟩ := hshape.free_level hmem
  have hactive := hsim.active_iff.mpr ⟨hlimit, hb⟩
  have hbacked := hsim.backed hlevel hb (hshape.room b n hmem)
  have hfresh : ∀ j, Active heap.bucketLimit j →
      nodeAddr heap.basePtr b n ∉ freeAddrs heap.basePtr arena j := by
    intro j _ hj
    obtain ⟨m, hm, heq⟩ := List.mem_map.mp hj
    obtain ⟨rfl, rfl⟩ := free_addr_injective hshape
      (Arena.mem_push.mpr (Or.inl hm)) hmem heq
    have hnodup := hshape.nodup j
    rw [Arena.push_free_self, List.nodup_append] at hnodup
    exact hnodup.2.2 m hm m (by simp) rfl
  constructor
  · refine ⟨hsim.mapped.congr rfl rfl rfl,
      hsim.limit, hsim.top, hsim.asked, hshape, ?_⟩
    rw [(listPush_fields heap _ _).2.2.1, freeAddrs_push]
    exact hsim.lists.push hsim.mapped hactive hbacked hfresh
  · refine Effect.of_same rfl (fun y hy => ?_) (fun hlog => ?_) rfl rfl rfl
    · have hsize := sixteen_le_size hb
      have hapart := free_apart hshape hmem (hkept' hy)
      exact hsim.lists.push_memory hsim.mapped hactive
        (hsim.outside (hkept hy)) (by omega)
    · exact hsim.lists.push_log hsim.mapped hactive hbacked hlog

/-- `list_remove` of a free node carries out a drop after which the arena has
a shape. -/
theorem Sim.drop (hsim : Sim platform heap arena marked)
    (hn : n ∈ arena.free b) (hshape : (arena.drop b n).Shape marked')
    (hkept : kept ⊆ bytesOf heap.basePtr marked)
    (hguarded : guarded ⊆ bytesOf heap.basePtr marked) :
    Sim platform
        (listRemove (platform.head b) (nodeAddr heap.basePtr b n) heap)
        (arena.drop b n) marked' ∧
      Effect platform kept guarded true heap
        (listRemove (platform.head b) (nodeAddr heap.basePtr b n) heap) := by
  have hactive := hsim.free_active hn
  have hmem : nodeAddr heap.basePtr b n ∈ freeAddrs heap.basePtr arena b :=
    List.mem_map.mpr ⟨n, hn, rfl⟩
  constructor
  · refine ⟨hsim.mapped.congr rfl rfl rfl,
      hsim.limit, hsim.top, hsim.asked, hshape, ?_⟩
    rw [(listRemove_fields heap _ _).2.2.1, freeAddrs_drop _ hsim.shape hn]
    exact hsim.lists.remove hsim.mapped hactive hmem _
  · refine Effect.of_same rfl (fun y hy => ?_) (fun hlog => ?_) rfl rfl rfl
    · exact hsim.lists.remove_memory hsim.mapped hactive hmem
        (hsim.outside (hkept hy)) _
    · exact hsim.lists.remove_log hsim.mapped hactive hmem
        (fun h => free_not_mem hsim.shape hn (hguarded h)) hlog

/-- No node has the address `NULL`. -/
theorem Mapped.nodeAddr_ne_zero (hmapped : Mapped platform heap) (b n : Nat) :
    nodeAddr heap.basePtr b n ≠ 0 := by
  have hbase := hmapped.base_ne_zero
  unfold nodeAddr
  omega

/-- `list_pop` on a level without free nodes. -/
theorem Sim.pop_none (hsim : Sim platform heap arena marked)
    (hlimit : arena.limit ≤ b) (hb : b < 28)
    (hnone : (arena.free b).getLast? = none) :
    listPop (platform.head b) heap = (0, heap) := by
  refine hsim.lists.pop_nil (hsim.active_iff.mpr ⟨hlimit, hb⟩) ?_
  rw [List.getLast?_eq_none_iff] at hnone
  simp [freeAddrs, hnone]

/-- `list_pop` takes the last free node of a level. -/
theorem Sim.pop_some (hsim : Sim platform heap arena marked)
    (hlast : (arena.free b).getLast? = some n)
    (hkept : kept ⊆ bytesOf heap.basePtr marked)
    (hguarded : guarded ⊆ bytesOf heap.basePtr marked) :
    ∃ heap', listPop (platform.head b) heap =
        (nodeAddr heap.basePtr b n, heap') ∧
      nodeAddr heap.basePtr b n ≠ 0 ∧
      Sim platform heap' (arena.drop b n) (insert n marked) ∧
      Effect platform kept guarded true heap heap' ∧
      heap'.nodeStatus = heap.nodeStatus := by
  have hn : n ∈ arena.free b := List.mem_of_getLast? hlast
  have hactive := hsim.free_active hn
  obtain ⟨front, hfront⟩ := List.getLast?_eq_some_iff.mp hlast
  have hconcat : freeAddrs heap.basePtr arena b =
      front.map (nodeAddr heap.basePtr b) ++ [nodeAddr heap.basePtr b n] := by
    simp [freeAddrs, hfront]
  have hdrop := hsim.drop hn (hsim.shape.take hn) hkept hguarded
  exact ⟨_, hsim.lists.pop_concat hsim.mapped hactive hconcat,
    hsim.mapped.nodeAddr_ne_zero b n, hdrop.1, hdrop.2, rfl⟩

/-! ## Reserving memory and growing -/

/-- `update_max_ptr` carries out a reservation inside the arena. -/
theorem Sim.reserve (grant : Nat → Bool) (kept guarded : Set Nat) (bytes : Nat)
    (hsim : Sim platform heap arena marked) (hbytes : bytes ≤ 2 ^ 31) :
    ∃ heap', updateMaxPtr grant (wrap (heap.basePtr + bytes)) heap =
        ((arena.reserve grant bytes).1, heap') ∧
      Sim platform heap' (arena.reserve grant bytes).2 marked ∧
      Effect platform kept guarded (arena.reserve grant bytes).1 heap heap' ∧
      heap'.nodeStatus = heap.nodeStatus := by
  have hlow := hsim.mapped.low
  have hobtained := hsim.mapped.obtained
  have htop := hsim.top
  have hwrap : wrap (heap.basePtr + bytes) = heap.basePtr + bytes :=
    wrap_of_lt (by omega)
  -- The source compares addresses, the arena the bytes above base_ptr.
  have hcompare : heap.maxPtr < heap.basePtr + bytes ↔ arena.top < bytes := by
    omega
  have heffect : Effect platform kept guarded _ heap _ :=
    updateMaxPtr_effect grant (heap.basePtr + bytes) heap
  unfold updateMaxPtr at heffect
  unfold updateMaxPtr Arena.reserve
  rw [hwrap]
  rw [hsim.asked] at heffect ⊢
  by_cases hmore : arena.top < bytes
  · rw [if_pos (hcompare.mpr hmore)] at heffect ⊢
    rw [if_pos hmore]
    cases hgrant : grant arena.asked with
    | true =>
        rw [hgrant] at heffect
        refine ⟨_, rfl, ⟨⟨hsim.mapped.above, hlow, ?_⟩, hsim.limit, rfl, rfl,
          hsim.shape.withTop _ (by omega) hbytes,
          ⟨hsim.lists.family, fun e he x hx => ?_⟩⟩, heffect, rfl⟩
        · simp only
          omega
        · obtain ⟨hslot, hroom⟩ := hsim.lists.backed e he x hx
          exact ⟨hslot, by simp only; omega⟩
    | false =>
        rw [hgrant] at heffect
        exact ⟨_, rfl, ⟨⟨hsim.mapped.above, hlow, hobtained⟩, hsim.limit, htop,
          rfl, hsim.shape.withTop _ (le_refl _) hsim.shape.top_le,
          ⟨hsim.lists.family, hsim.lists.backed⟩⟩, heffect, rfl⟩
  · rw [if_neg (fun h => hmore (hcompare.mp h)), if_neg hmore]
    exact ⟨heap, rfl, hsim, Effect.refl heap, rfl⟩

/-! ## Bytes of taken nodes -/

/-- A taken node and a byte of another taken node are apart. -/
theorem taken_apart {base y : Nat} (hshape : arena.Shape (insert n marked))
    (hn : n ∉ marked) (hb : AtLevel b n) (hy : y ∈ bytesOf base marked) :
    y < nodeAddr base b n ∨ nodeAddr base b n + 2 ^ (31 - b) ≤ y := by
  have hlt := hshape.node_lt (Set.mem_insert n marked) hb
  obtain ⟨x, hx, rfl, m, hm, hwithin⟩ := hy
  by_contra hinside
  obtain ⟨x', -, heq, hwithin'⟩ := (mem_node_iff base
    (y := base + x) hb hlt).mp (by omega)
  have hxx : x' = x := by omega
  subst hxx
  have hm' := Set.mem_insert_of_mem n hm
  rcases hwithin.total hwithin' with h | h
  · exact hn (hshape.marking.apart m hm' n (Set.mem_insert n marked) h ▸ hm)
  · exact hn ((hshape.marking.apart n (Set.mem_insert n marked) m hm' h).symm ▸ hm)

/-- The simulation does not look at the bytes of taken nodes. -/
theorem Sim.withMemory (hsim : Sim platform heap arena marked)
    {memory : Library.ByteMemory.Memory} (log : List Event)
    (hmemory : ∀ y, y ∉ bytesOf heap.basePtr marked →
      memory y = heap.memory y) :
    Sim platform { heap with memory := memory, log := log } arena marked := by
  refine ⟨hsim.mapped.congr rfl rfl rfl, hsim.limit, hsim.top, hsim.asked,
    hsim.shape, ⟨hsim.lists.family.congr fun e he x hx => ?_, hsim.lists.backed⟩⟩
  refine Library.NodeMemory.linksOf_congr fun y hlow hhigh =>
    hmemory y fun hy => ?_
  have hapart := FreeLists.outside_node hsim.mapped he hx (hsim.outside hy)
  omega

end BuddyAlloc
end OsStuff
