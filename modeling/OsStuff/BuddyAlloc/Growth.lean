import OsStuff.BuddyAlloc.Simulation

/-!
# Initialisation and growth in memory

The two ways in which the tree gets a larger root, and the set-up on the first
call.  They touch the list of a level that is not active before, so they are
not made of the pushes and drops of `Simulation`.
-/

namespace OsStuff
namespace BuddyAlloc

open Library Library.DyadicTree

variable {platform : Platform} {heap heap' : Heap} {arena : Arena}
  {marked kept guarded : Set Nat} {b : Nat} {grant : Nat → Bool}

/-! ## Growing by one level -/

theorem freeAddrs_raise (base : Nat) :
    freeAddrs base arena.raise =
      Function.update (freeAddrs base arena) (arena.limit - 1) [] := by
  funext e
  by_cases he : e = arena.limit - 1
  · subst he
    simp [freeAddrs, Arena.raise]
  · simp [freeAddrs, Arena.raise, he]

/-- The root starts at `base_ptr`. -/
theorem nodeAddr_root (base : Nat) : nodeAddr base b (2 ^ b) = base := by
  simp [nodeAddr, offset]

theorem bytesOf_empty (base : Nat) : bytesOf base ∅ = ∅ := by
  refine Set.eq_empty_iff_forall_notMem.mpr ?_
  rintro y ⟨x, -, -, n, hn, -⟩
  exact hn

/-- The branch of `lower_bucket_limit` for an unused root carries out
`lift`. -/
theorem Sim.lift (hsim : Sim platform heap arena ∅) {l : Nat}
    (hlimit : arena.limit = l + 1) (hkept : kept ⊆ ∅) (hguarded : guarded ⊆ ∅) :
    ∃ heap', liftUnusedRoot platform heap = some heap' ∧
      Sim platform heap' arena.lift ∅ ∧
      Effect platform kept guarded true heap heap' ∧
      heap'.nodeStatus = heap.nodeStatus := by
  have hlt := hsim.shape.limit_lt
  have hmapped := hsim.mapped
  have hroot : 2 ^ arena.limit ∈ arena.free arena.limit :=
    hsim.shape.root_free_iff.mpr rfl
  have hbase := nodeAddr_root (b := arena.limit) heap.basePtr
  have hactive := hsim.free_active hroot
  have hmem : heap.basePtr ∈ freeAddrs heap.basePtr arena arena.limit :=
    List.mem_map.mpr ⟨_, hroot, hbase⟩
  have hbacked := hsim.lists.backed _ hactive _ hmem
  have hl : l < bucketCount := by
    simp only [bucketCount, maxAllocLog2, minAllocLog2]
    omega
  -- The list operations in the order of the source: the root leaves its list, the list of
  -- the new level is set up, and the root goes into it one level lower.
  have hdrop := freeAddrs_drop heap.basePtr hsim.shape hroot
  rw [hbase] at hdrop
  have hempty : ∀ j, freeAddrs heap.basePtr
      (arena.drop arena.limit (2 ^ arena.limit)) j = [] := fun j =>
    List.map_eq_nil_iff.mpr (hsim.shape.drop_root_free j)
  have hremoved := hsim.lists.remove hmapped hactive hmem
    (platform.head arena.limit)
  rw [← hdrop] at hremoved
  have hinit := hremoved.init (b := l)
    (hmapped.congr rfl rfl rfl) (hsim.limit.trans hlimit) hl
  have hpushed := hinit.push (b := l) (x := heap.basePtr)
    (hmapped.congr rfl rfl rfl) ⟨le_refl _, hl⟩ hbacked (fun j _ => by
      by_cases hj : j = l
      · subst hj
        simp
      · rw [Function.update_of_ne hj, hempty]
        exact List.not_mem_nil)
  -- What the three operations leave is the lists of the lifted arena.
  have hlists : freeAddrs heap.basePtr arena.lift =
      Function.update (Function.update (freeAddrs heap.basePtr
        (arena.drop arena.limit (2 ^ arena.limit))) l []) l
        (Function.update (freeAddrs heap.basePtr
          (arena.drop arena.limit (2 ^ arena.limit))) l [] l ++
          [heap.basePtr]) := by
    unfold Arena.lift
    rw [freeAddrs_push, freeAddrs_raise, nodeAddr_root, Arena.drop_limit,
      hlimit, Nat.add_sub_cancel]
  refine ⟨listPush (platform.head l) heap.basePtr
      (listInit (platform.head l)
        { listRemove (platform.head arena.limit) heap.basePtr heap with
          bucketLimit := l }), ?_,
    ⟨hmapped.congr rfl rfl rfl, ?_, hsim.top, hsim.asked,
      hsim.shape.lift hlimit, ?_⟩, ?_, rfl⟩
  · -- The computation itself: both buckets exist, and bucket_limit does not underflow.
    have hpred : sizeSub (l + 1) 1 = l := sizeSub_of_le (by omega) (by omega)
    have hbucket := platform.bucket_eq (b := l + 1) (by simpa [hlimit] using hlt)
    simp only [liftUnusedRoot, hsim.limit, hbucket, hlimit,
      Option.bind_eq_bind, Option.bind_some, listRemove_fields, hpred,
      Platform.bucket_eq hl]
  · simp [Arena.lift, Arena.raise, hlimit]
  · rw [← hlists] at hpushed
    exact hpushed
  · -- Nothing is taken, so only the log of the accesses has to be followed.
    refine Effect.of_same rfl (fun y hy => absurd (hkept hy) (Set.notMem_empty y))
      (fun hlog => ?_) rfl rfl rfl
    have h1 := hsim.lists.remove_log hmapped hactive hmem
      (fun h => Set.notMem_empty _ (hguarded h)) hlog
    have h2 := listInit_log
      { listRemove (platform.head arena.limit) heap.basePtr heap with
        bucketLimit := l }
      (hmapped.congr rfl rfl rfl) hl h1
    exact hinit.push_log (b := l) (hmapped.congr rfl rfl rfl)
      ⟨le_refl _, hl⟩ hbacked h2

/-- The node of the root. -/
theorem Sim.root_index (hsim : Sim platform heap arena marked) :
    nodeForPtr heap heap.basePtr heap.bucketLimit =
      some (2 ^ arena.limit - 1) := by
  have hlt := hsim.shape.limit_lt
  have hnode := nodeForPtr_eq heap (atLevel_two_pow arena.limit)
    (show arena.limit < bucketCount by simpa using hlt)
  rw [nodeAddr_root] at hnode
  rw [hsim.limit]
  exact hnode

/-- The address of the right neighbour of the root. -/
theorem Sim.right_ptr (hsim : Sim platform heap arena marked) {l : Nat}
    (hlimit : arena.limit = l + 1) :
    ptrForNode heap (2 ^ arena.limit - 1 + 1) heap.bucketLimit =
      some (nodeAddr heap.basePtr arena.limit (2 ^ arena.limit + 1)) := by
  have hlt := hsim.shape.limit_lt
  have hpos := Nat.one_le_two_pow (n := arena.limit)
  have hptr := ptrForNode_eq hsim.mapped (Arena.atLevel_right hlimit)
    (show arena.limit < bucketCount by simpa using hlt)
  rw [hsim.limit, show 2 ^ arena.limit - 1 + 1 = 2 ^ arena.limit + 1 - 1 by omega]
  exact hptr

/-- The request for memory before the right neighbour of the root is opened. -/
theorem Sim.reserve_right (grant : Nat → Bool) {l : Nat}
    (hsim : Sim platform heap arena marked) (hlimit : arena.limit = l + 1) :
    ∃ heap', updateMaxPtr grant (wrap (nodeAddr heap.basePtr arena.limit
          (2 ^ arena.limit + 1) + sizeofListT)) heap =
        ((arena.reserve grant (Arena.rightEnd arena.limit)).1, heap') ∧
      Sim platform heap' (arena.reserve grant (Arena.rightEnd arena.limit)).2
        marked ∧
      Effect platform kept guarded
        (arena.reserve grant (Arena.rightEnd arena.limit)).1 heap heap' ∧
      heap'.nodeStatus = heap.nodeStatus := by
  have hlt := hsim.shape.limit_lt
  have hb : arena.limit < bucketCount := by simpa using hlt
  have hbound := offset_bound (Arena.atLevel_right hlimit) hb
  have hsize := sixteen_le_size hb
  have hreserve :=
    hsim.reserve grant kept guarded (Arena.rightEnd arena.limit)
      (by unfold Arena.rightEnd; omega)
  unfold nodeAddr
  rw [Nat.add_assoc]
  exact hreserve

/-- The list updates of `lower_bucket_limit` for a used root carry out
`openRight`. -/
theorem Sim.openRight (hsim : Sim platform heap arena marked) {l : Nat}
    (hlimit : arena.limit = l + 1) (hmarked : marked ≠ ∅)
    (hroom : offset 31 arena.limit (2 ^ arena.limit + 1) + 16 ≤ arena.top)
    (hkept : kept ⊆ bytesOf heap.basePtr marked) :
    ∃ heap', openRightChild platform
        (nodeAddr heap.basePtr arena.limit (2 ^ arena.limit + 1)) heap =
        some heap' ∧
      Sim platform heap' arena.openRight marked ∧
      Effect platform kept guarded true heap heap' ∧
      heap'.nodeStatus = heap.nodeStatus := by
  have hlt := hsim.shape.limit_lt
  have hmapped := hsim.mapped
  have hshape := hsim.shape.openRight hlimit hmarked hroom
  have hmem := fun d m => hsim.shape.mem_openRight hlimit (d := d) (m := m)
  have hright := (hmem _ _).mpr (Or.inr ⟨rfl, rfl⟩)
  obtain ⟨hlevel, -, hb⟩ := hshape.free_level hright
  have hbacked := hsim.backed hlevel hb hroom
  have hactive := hsim.active_iff.mpr ⟨le_refl _, hb⟩
  have hl : l < bucketCount := by
    simp only [bucketCount, maxAllocLog2, minAllocLog2]
    omega
  -- The neighbour is new: its address is the address of no node that is free before.
  have hfresh : ∀ j, Active heap.bucketLimit j →
      nodeAddr heap.basePtr arena.limit (2 ^ arena.limit + 1) ∉
        freeAddrs heap.basePtr arena j := by
    intro j _ hj
    obtain ⟨m, hm, heq⟩ := List.mem_map.mp hj
    obtain ⟨rfl, -⟩ := free_addr_injective hshape
      ((hmem _ _).mpr (Or.inl hm)) hright heq
    rw [hsim.shape.free_limit_nil hmarked] at hm
    exact absurd hm List.not_mem_nil
  -- Here the list of the level exists already; the one of the new root is set up after it,
  -- and empty.
  have hpushed := hsim.lists.push hmapped hactive hbacked hfresh
  have hinit := hpushed.init (b := l)
    (hmapped.congr rfl rfl rfl) (hsim.limit.trans hlimit) hl
  have hlists : freeAddrs heap.basePtr arena.openRight =
      Function.update (Function.update (freeAddrs heap.basePtr arena)
        arena.limit (freeAddrs heap.basePtr arena arena.limit ++
          [nodeAddr heap.basePtr arena.limit (2 ^ arena.limit + 1)])) l [] := by
    unfold Arena.openRight
    rw [freeAddrs_raise, freeAddrs_push, Arena.push_limit, hlimit,
      Nat.add_sub_cancel]
  refine ⟨listInit (platform.head l)
      { listPush (platform.head arena.limit)
          (nodeAddr heap.basePtr arena.limit (2 ^ arena.limit + 1)) heap with
        bucketLimit := l }, ?_,
    ⟨hmapped.congr rfl rfl rfl, ?_, hsim.top, hsim.asked,
      hshape, ?_⟩, ?_, rfl⟩
  · have hpred : sizeSub (l + 1) 1 = l := sizeSub_of_le (by omega) (by omega)
    have hbucket := platform.bucket_eq (b := l + 1) (by simpa [hlimit] using hlt)
    simp only [openRightChild, hsim.limit, hbucket, hlimit,
      Option.bind_eq_bind, Option.bind_some, listPush_fields, hpred,
      Platform.bucket_eq hl]
  · simp [Arena.openRight, Arena.raise, hlimit]
  · rw [← hlists] at hinit
    exact hinit
  · refine Effect.of_same rfl (fun y hy => ?_) (fun hlog => ?_) rfl rfl rfl
    · -- Bytes of taken nodes lie outside the list heads and outside the link that the push
      -- writes.
      have hout := hsim.outside (hkept hy)
      have hsize := sixteen_le_size hb
      have hapart := free_apart hshape hright (hkept hy)
      calc _ = (listPush (platform.head arena.limit) _ heap).memory y :=
            listInit_memory (hmapped.congr rfl rfl rfl) hl hout.1
        _ = heap.memory y :=
            hsim.lists.push_memory hmapped hactive hout (by omega)
    · exact listInit_log _ (hmapped.congr rfl rfl rfl) hl
        (hsim.lists.push_log hmapped hactive hbacked hlog)

/-! ## Initialisation -/

/-- The heap before the first call.  Other code may have moved the break. -/
structure Fresh (platform : Platform) (heap : Heap) : Prop where
  base : heap.basePtr = 0
  asked : heap.asked = 0
  status : heap.nodeStatus = fun _ => 0
  above : platform.start ≤ heap.brk
  low : heap.brk < 2 ^ 63

theorem freeAddrs_initial (base : Nat) :
    freeAddrs base (Arena.initial grant) =
      Function.update (Function.update (fun _ => []) 27 []) 27
        (Function.update (fun _ => []) 27 [] 27 ++ [base]) := by
  funext e
  by_cases he : e = 27
  · subst he
    simpa [freeAddrs, Arena.initial] using nodeAddr_root (b := 27) base
  · simp [freeAddrs, Arena.initial, he]

/-- The first request to the system. -/
theorem updateMaxPtr_placeBase (hfresh : Fresh platform heap)
    (hgrant : grant 0 = true) :
    updateMaxPtr grant (wrap ((placeBase heap).basePtr + sizeofListT))
        (placeBase heap) =
      (true, { placeBase heap with
        asked := 1
        brk := heap.brk + 16
        maxPtr := heap.brk + 16
        log := Event.sbrk ⟨heap.brk, heap.brk, heap.brk + 16, true⟩ ::
          heap.log }) := by
  have hlow := hfresh.low
  have hwrap : wrap (heap.brk + 16) = heap.brk + 16 := wrap_of_lt (by omega)
  simp [updateMaxPtr, placeBase, hwrap, hfresh.asked, hgrant]

/-- The first call sets up the initial arena when its request is granted. -/
theorem Fresh.initialise (hfresh : Fresh platform heap)
    (hgrant : grant 0 = true) (hkept : kept ⊆ ∅) :
    ∃ heap', initialise platform grant heap = some heap' ∧
      Sim platform heap' (Arena.initial grant) ∅ ∧
      heap'.nodeStatus = (fun _ => 0) ∧
      Effect platform kept guarded true (placeBase heap) heap' := by
  have hupdate := updateMaxPtr_placeBase hfresh hgrant
  -- The heap after the request is kept as a name: what follows needs only the facts below.
  generalize hheap₁ : ({ placeBase heap with
      asked := 1
      brk := heap.brk + 16
      maxPtr := heap.brk + 16
      log := Event.sbrk ⟨heap.brk, heap.brk, heap.brk + 16, true⟩ ::
        heap.log } : Heap) = heap₁ at hupdate
  have hmapped : Mapped platform heap₁ := by
    subst hheap₁
    exact ⟨hfresh.above, hfresh.low, le_refl _⟩
  have hlimit : heap₁ = { heap₁ with bucketLimit := 27 } := by
    subst hheap₁
    rfl
  have hbacked : Backed heap₁ heap₁.basePtr := by
    subst hheap₁
    exact ⟨⟨0, by omega, rfl⟩, le_refl _⟩
  have hnone : ∀ b, ¬ Active 28 b := by
    intro b hb
    have hhigh := hb.2
    simp only [bucketCount, maxAllocLog2, minAllocLog2] at hhigh
    exact absurd hb.1 (by omega)
  -- No level is active below bucket_limit = 28, so the empty lists are those of the heap
  -- before the first list is set up.
  have hlists₀ : FreeLists platform { heap₁ with bucketLimit := 28 }
      (fun _ => []) :=
    ⟨⟨fun b hb => absurd hb (hnone b), fun b hb => absurd hb (hnone b),
      fun b c hb => absurd hb (hnone b)⟩, fun b hb => absurd hb (hnone b)⟩
  have hinit := hlists₀.init (b := 27) (hmapped.congr rfl rfl rfl) rfl (by simp)
  have hactive : Active heap₁.bucketLimit 27 := by
    rw [hlimit]
    exact ⟨le_refl _, by simp⟩
  have hpush := hinit.push (b := 27) (x := heap₁.basePtr)
    (hmapped.congr rfl rfl rfl) ⟨le_refl _, by simp⟩ hbacked
    (fun j _ => by by_cases hj : j = 27 <;> simp [hj])
  rw [← freeAddrs_initial] at hpush
  have hlast : (27 : Nat) < bucketCount := by simp
  refine ⟨listPush (platform.head 27) heap₁.basePtr
    (listInit (platform.head 27) heap₁), ?_, ?_, ?_, ?_⟩
  · simp only [BuddyAlloc.initialise, hupdate, Option.bind_eq_bind,
      platform.bucket_eq (show bucketCount - 1 < bucketCount by simp),
      Option.bind_some]
    subst hheap₁
    rfl
  · -- The heap carries the arena with the one free node at the last level.
    refine ⟨hmapped.congr rfl rfl rfl, ?_, ?_, ?_, Arena.Shape.initial hgrant, ?_⟩
    · rw [hlimit]
      rfl
    · subst hheap₁
      simp [Arena.initial, hgrant, placeBase]
    · subst hheap₁
      rfl
    · rw [hlimit]
      exact hpush
  · subst hheap₁
    exact hfresh.status
  · -- The first request, and then the accesses to the list head and to the new link.
    have hrequest : Effect platform kept guarded _ (placeBase heap) _ :=
      updateMaxPtr_effect grant (wrap ((placeBase heap).basePtr + sizeofListT))
        (placeBase heap)
    rw [hupdate] at hrequest
    refine hrequest.trans (Effect.of_same rfl
      (fun y hy => absurd (hkept hy) (Set.notMem_empty y)) (fun hlog => ?_) rfl
      rfl rfl)
    have hlog' := listInit_log _ hmapped hlast hlog
    rw [hlimit] at hlog' ⊢
    exact hinit.push_log (hmapped.congr rfl rfl rfl) ⟨le_refl _, hlast⟩
      hbacked hlog'

end BuddyAlloc
end OsStuff
