import OsStuff.Library.NodeMemory
import OsStuff.BuddyAlloc.Heap

/-!
# The free lists in memory

`FreeLists platform heap lists` says that the memory of `heap` holds, for each
bucket from `bucket_limit` on, the circular list with head `buckets[bucket]`
and the nodes `lists bucket`, and that every node is a multiple of 16 bytes
away from `base_ptr` and backed by memory up to `max_ptr`.

For each function of `list.c` there is one rule that says how it changes these
sequences, one that says which bytes it leaves alone, and one for the log.
-/

namespace OsStuff
namespace BuddyAlloc

open Library Library.ByteMemory Library.NodeMemory

/-! ## Slots, backing and the log -/

/-- The buckets whose lists are in use. -/
def Active (limit bucket : Nat) : Prop := limit ≤ bucket ∧ bucket < bucketCount

/-- An address at which a smallest block of the 2 GB arena can start. -/
def HeapSlot (heap : Heap) (x : Nat) : Prop :=
  ∃ k, k < 2 ^ 27 ∧ x = heap.basePtr + 16 * k

/-- All addresses at which the allocators keep list nodes. -/
def slots (platform : Platform) (heap : Heap) : Set Nat :=
  { x | (∃ b, b < bucketCount ∧ x = platform.head b) ∨ HeapSlot heap x }

/-- A slot whose 16 bytes have been obtained from the system. -/
def Backed (heap : Heap) (x : Nat) : Prop :=
  HeapSlot heap x ∧ x + 16 ≤ heap.maxPtr

/-- The arena lies above the static data and in the user half of the address
space, and everything below `max_ptr` is below the break. -/
structure Mapped (platform : Platform) (heap : Heap) : Prop where
  above : platform.start ≤ heap.basePtr
  low : heap.basePtr < 2 ^ 63
  obtained : heap.maxPtr ≤ heap.brk

theorem Mapped.base_ne_zero {platform : Platform} {heap : Heap}
    (hmapped : Mapped platform heap) : heap.basePtr ≠ 0 :=
  (platform.start_pos.trans_le hmapped.above).ne'

/-- The nodes met by following `next` from a list head. -/
def listNodes (memory : Memory) (list : Nat) : List Nat :=
  (linksOf memory).walk list (2 ^ 28) ((linksOf memory).next list)

/-- An effect as it should be: a store hits the bucket array or memory between
the initial and the current break, and `list_remove` is applied to a member of
the list that the caller means, at an address that is not to be `kept`. -/
def EventOk (platform : Platform) (kept : Set Nat) : Event → Prop
  | .store address brk =>
      (platform.buckets ≤ address ∧
        address + 8 ≤ platform.buckets + sizeofListT * bucketCount) ∨
      (platform.start ≤ address ∧ address + 8 ≤ brk)
  | .remove list entry memory =>
      entry ∈ listNodes memory list ∧ entry ∉ kept
  | .sbrk _ => True

/-- All effects of a log are as they should be. -/
def LogOk (platform : Platform) (kept : Set Nat) (log : List Event) : Prop :=
  ∀ event ∈ log, EventOk platform kept event

/-- The requests to `sbrk` in a log, latest first. -/
def requests (log : List Event) : List Request :=
  log.filterMap fun event =>
    match event with
    | .sbrk request => some request
    | _ => none

/-- The memory of the heap holds the given free lists. -/
structure FreeLists (platform : Platform) (heap : Heap)
    (lists : Nat → List Nat) : Prop where
  family : RingFamily (linksOf heap.memory) (Active heap.bucketLimit)
    platform.head lists
  backed : ∀ b, Active heap.bucketLimit b → ∀ x ∈ lists b, Backed heap x

/-- A byte of the arena in none of the nodes of the given lists. -/
def Outside (heap : Heap) (lists : Nat → List Nat) (y : Nat) : Prop :=
  heap.basePtr ≤ y ∧
    ∀ b, Active heap.bucketLimit b → ∀ x ∈ lists b, y < x ∨ x + 16 ≤ y

variable {platform : Platform} {heap : Heap} {lists : Nat → List Nat}
  {kept : Set Nat} {b x y value : Nat}

theorem Platform.bucket_eq (hb : b < bucketCount) :
    platform.bucket b = some (platform.head b) := by
  simp only [Platform.bucket, if_pos hb]

theorem Mapped.congr {heap' : Heap} (hmapped : Mapped platform heap)
    (hbase : heap'.basePtr = heap.basePtr) (hmax : heap'.maxPtr = heap.maxPtr)
    (hbrk : heap'.brk = heap.brk) : Mapped platform heap' :=
  ⟨hbase ▸ hmapped.above, hbase ▸ hmapped.low,
    by rw [hmax, hbrk]; exact hmapped.obtained⟩

theorem Mapped.head_below (hmapped : Mapped platform heap)
    (hb : b < bucketCount) : platform.head b + 16 ≤ heap.basePtr := by
  have hbelow := platform.buckets_below
  have habove := hmapped.above
  simp only [Platform.head, sizeofListT, bucketCount, maxAllocLog2,
    minAllocLog2] at *
  omega

theorem HeapSlot.bounds (hx : HeapSlot heap x) :
    heap.basePtr ≤ x ∧ x + 16 ≤ heap.basePtr + 2 ^ 31 := by
  obtain ⟨k, hk, rfl⟩ := hx
  omega

theorem Platform.head_injective {c : Nat}
    (h : platform.head b = platform.head c) : b = c := by
  simp only [Platform.head, sizeofListT] at h
  omega

theorem spaced_slots (hmapped : Mapped platform heap) :
    Spaced (slots platform heap) := by
  rintro x (⟨b, hb, rfl⟩ | hx) y (⟨c, hc, rfl⟩ | hy) hne
  · simp only [Platform.head, sizeofListT] at *
    omega
  · have h1 := hmapped.head_below hb
    have h2 := hy.bounds
    omega
  · have h1 := hmapped.head_below hc
    have h2 := hx.bounds
    omega
  · obtain ⟨k, -, rfl⟩ := hx
    obtain ⟨l, -, rfl⟩ := hy
    omega

theorem slots_lt (hmapped : Mapped platform heap)
    (hx : x ∈ slots platform heap) : x < 2 ^ 64 := by
  have hlow := hmapped.low
  rcases hx with ⟨b, hb, rfl⟩ | hx
  · have h := hmapped.head_below hb
    omega
  · have h := hx.bounds
    omega

theorem head_mem_slots (hb : Active heap.bucketLimit b) :
    platform.head b ∈ slots platform heap :=
  Or.inl ⟨b, hb.2, rfl⟩

/-- No node of a free list is the head of one. -/
theorem HeapSlot.ne_head (hmapped : Mapped platform heap) (hx : HeapSlot heap x)
    (hb : b < bucketCount) : x ≠ platform.head b := by
  have h1 := hmapped.head_below hb
  have h2 := hx.bounds
  omega

/-- A node that is fresh for all lists is fresh for the whole family. -/
theorem fresh_family (hmapped : Mapped platform heap) (hx : HeapSlot heap x)
    (hfresh : ∀ j, Active heap.bucketLimit j → x ∉ lists j) :
    ∀ j, Active heap.bucketLimit j → x ∉ platform.head j :: lists j := by
  intro j hj hmem
  rcases List.mem_cons.mp hmem with heq | hmem
  · exact hx.ne_head hmapped hj.2 heq
  · exact hfresh j hj hmem

namespace FreeLists

theorem mem_slots (hlists : FreeLists platform heap lists)
    (hb : Active heap.bucketLimit b) (hx : x ∈ platform.head b :: lists b) :
    x ∈ slots platform heap := by
  rcases List.mem_cons.mp hx with rfl | hx
  · exact head_mem_slots hb
  · exact Or.inr (hlists.backed b hb x hx).1

/-- `prev` of a head is the head itself or the last node of its list. -/
theorem prev_head (hlists : FreeLists platform heap lists)
    (hb : Active heap.bucketLimit b) :
    heap.prev (platform.head b) =
      (lists b).getLast?.getD (platform.head b) := by
  have hring := hlists.family.ring b hb
  rcases List.eq_nil_or_concat (lists b) with hnil | ⟨front, last, hconcat⟩
  · rw [hnil] at hring ⊢
    exact hring.prev_head_nil
  · rw [hconcat, List.concat_eq_append] at hring ⊢
    rw [List.getLast?_concat, Option.getD_some]
    exact hring.prev_head_concat

theorem prev_head_mem (hlists : FreeLists platform heap lists)
    (hb : Active heap.bucketLimit b) :
    heap.prev (platform.head b) ∈ platform.head b :: lists b := by
  rw [hlists.prev_head hb]
  cases hlast : (lists b).getLast? with
  | none => simp
  | some last => simp [List.mem_of_getLast? hlast]

/-- A node of a list or its head lies outside of the given byte. -/
theorem outside_node (hmapped : Mapped platform heap)
    (hb : Active heap.bucketLimit b)
    (hx : x ∈ platform.head b :: lists b) (hy : Outside heap lists y) :
    y < x ∨ x + 16 ≤ y := by
  rcases List.mem_cons.mp hx with rfl | hx
  · have h1 := hmapped.head_below hb.2
    have h2 := hy.1
    omega
  · exact hy.2 b hb x hx

theorem length_lt (hlists : FreeLists platform heap lists)
    (hb : Active heap.bucketLimit b) : (lists b).length < 2 ^ 28 := by
  have hsub : lists b ⊆ (List.range (2 ^ 27)).map
      (fun k => heap.basePtr + 16 * k) := by
    intro x hx
    obtain ⟨⟨k, hk, rfl⟩, -⟩ := hlists.backed b hb x hx
    exact List.mem_map.mpr ⟨k, List.mem_range.mpr hk, rfl⟩
  have hnodup := (List.nodup_cons.mp (hlists.family.nodup b hb)).2
  have hle := (List.subperm_of_subset hnodup hsub).length_le
  rw [List.length_map, List.length_range] at hle
  omega

/-- Following `next` in memory lists the nodes of a free list. -/
theorem listNodes_eq (hlists : FreeLists platform heap lists)
    (hb : Active heap.bucketLimit b) :
    listNodes heap.memory (platform.head b) = lists b :=
  (hlists.family.ring b hb).walk_eq
    (List.nodup_cons.mp (hlists.family.nodup b hb)).1 (hlists.length_lt hb)

end FreeLists

/-! ## Static variables and the break are kept -/

section Fields

variable (heap : Heap) (list entry address value : Nat)

@[simp] theorem listInit_fields :
    (listInit list heap).brk = heap.brk ∧
      (listInit list heap).asked = heap.asked ∧
      (listInit list heap).basePtr = heap.basePtr ∧
      (listInit list heap).maxPtr = heap.maxPtr ∧
      (listInit list heap).bucketLimit = heap.bucketLimit ∧
      (listInit list heap).nodeStatus = heap.nodeStatus :=
  ⟨rfl, rfl, rfl, rfl, rfl, rfl⟩

@[simp] theorem listPush_fields :
    (listPush list entry heap).brk = heap.brk ∧
      (listPush list entry heap).asked = heap.asked ∧
      (listPush list entry heap).basePtr = heap.basePtr ∧
      (listPush list entry heap).maxPtr = heap.maxPtr ∧
      (listPush list entry heap).bucketLimit = heap.bucketLimit ∧
      (listPush list entry heap).nodeStatus = heap.nodeStatus :=
  ⟨rfl, rfl, rfl, rfl, rfl, rfl⟩

@[simp] theorem listRemove_fields :
    (listRemove list entry heap).brk = heap.brk ∧
      (listRemove list entry heap).asked = heap.asked ∧
      (listRemove list entry heap).basePtr = heap.basePtr ∧
      (listRemove list entry heap).maxPtr = heap.maxPtr ∧
      (listRemove list entry heap).bucketLimit = heap.bucketLimit ∧
      (listRemove list entry heap).nodeStatus = heap.nodeStatus :=
  ⟨rfl, rfl, rfl, rfl, rfl, rfl⟩

end Fields

/-! ## What a store does to links, bytes and the log -/

theorem LogOk.cons {event : Event} {log : List Event}
    (hevent : EventOk platform kept event) (hlog : LogOk platform kept log) :
    LogOk platform kept (event :: log) := by
  intro e he
  rcases List.mem_cons.mp he with rfl | he
  · exact hevent
  · exact hlog e he

theorem LogOk.mono {kept' : Set Nat} {log : List Event} (hsub : kept' ⊆ kept)
    (hlog : LogOk platform kept log) : LogOk platform kept' log := by
  intro event hevent
  have hok := hlog event hevent
  cases event with
  | store address brk => exact hok
  | remove list entry memory => exact ⟨hok.1, fun h => hok.2 (hsub h)⟩
  | sbrk request => exact hok

/-- A node that the allocator may write: a list head or a backed slot. -/
def Writable (platform : Platform) (heap : Heap) (x : Nat) : Prop :=
  (∃ b, b < bucketCount ∧ x = platform.head b) ∨ Backed heap x

theorem Writable.mem_slots (hx : Writable platform heap x) :
    x ∈ slots platform heap :=
  hx.imp id And.left

/-- Both words of a writable node are good targets of a store. -/
theorem Writable.eventOk (kept : Set Nat) (hx : Writable platform heap x)
    (hmapped : Mapped platform heap) :
    EventOk platform kept (.store x heap.brk) ∧
      EventOk platform kept (.store (x + 8) heap.brk) := by
  have habove := hmapped.above
  have hobtained := hmapped.obtained
  rcases hx with ⟨b, hb, rfl⟩ | ⟨hslot, hroom⟩
  · simp only [EventOk, Platform.head, sizeofListT, bucketCount, maxAllocLog2,
      minAllocLog2] at *
    omega
  · have hbounds := hslot.bounds
    simp only [EventOk]
    omega

theorem FreeLists.writable (hlists : FreeLists platform heap lists)
    (hb : Active heap.bucketLimit b) (hx : x ∈ platform.head b :: lists b) :
    Writable platform heap x := by
  rcases List.mem_cons.mp hx with rfl | hx
  · exact Or.inl ⟨b, hb.2, rfl⟩
  · exact Or.inr (hlists.backed b hb x hx)

/-! ## `list_init`, `list_push`, `list_remove` and `list_pop` -/

theorem listInit_links (hmapped : Mapped platform heap)
    (hx : x ∈ slots platform heap) :
    AgreeOn (slots platform heap) ((linksOf heap.memory).selfLink x)
      (linksOf (listInit x heap).memory) := by
  have hspaced := spaced_slots hmapped
  have hlt := slots_lt hmapped hx
  exact agreeOn_store_next hspaced
    (agreeOn_store_prev hspaced (agreeOn_refl _ _) hx hlt) hx hlt

theorem listPush_links (hmapped : Mapped platform heap) {list : Nat}
    (hlist : list ∈ slots platform heap) (hx : x ∈ slots platform heap)
    (hlast : heap.prev list ∈ slots platform heap) :
    AgreeOn (slots platform heap) ((linksOf heap.memory).append list x)
      (linksOf (listPush list x heap).memory) := by
  have hspaced := spaced_slots hmapped
  have h1 := agreeOn_store_prev hspaced
    (agreeOn_refl (slots platform heap) (linksOf heap.memory)) hx
    (slots_lt hmapped hlast)
  have h2 := agreeOn_store_next hspaced h1 hx (slots_lt hmapped hlist)
  have h3 := agreeOn_store_next hspaced h2 hlast (slots_lt hmapped hx)
  exact agreeOn_store_prev hspaced h3 hlist (slots_lt hmapped hx)

theorem listRemove_links (hmapped : Mapped platform heap) {list entry : Nat}
    (hnext : heap.next entry ∈ slots platform heap)
    (hprev : heap.prev entry ∈ slots platform heap) :
    AgreeOn (slots platform heap) ((linksOf heap.memory).detach entry)
      (linksOf (listRemove list entry heap).memory) := by
  have hspaced := spaced_slots hmapped
  have h1 := agreeOn_store_next hspaced
    (agreeOn_refl (slots platform heap) (linksOf heap.memory)) hprev
    (slots_lt hmapped hnext)
  exact agreeOn_store_prev hspaced h1 hnext (slots_lt hmapped hprev)

/-- Moving a family of rings from pure links to the memory that holds them. -/
theorem ringFamily_of_agreeOn {heap : Heap} {links links' : Links Nat}
    {limit : Nat} (hfamily : RingFamily links (Active limit) platform.head lists)
    (hslots : ∀ b, Active limit b → ∀ x ∈ lists b, HeapSlot heap x)
    (hagree : AgreeOn (slots platform heap) links links') :
    RingFamily links' (Active limit) platform.head lists := by
  refine hfamily.congr fun i hi x hx => hagree x ?_
  rcases List.mem_cons.mp hx with rfl | hx
  · exact Or.inl ⟨i, hi.2, rfl⟩
  · exact Or.inr (hslots i hi x hx)

namespace FreeLists

/-- `list_push` appends a fresh backed node to one list. -/
theorem push (hlists : FreeLists platform heap lists)
    (hmapped : Mapped platform heap) (hb : Active heap.bucketLimit b)
    (hx : Backed heap x)
    (hfresh : ∀ j, Active heap.bucketLimit j → x ∉ lists j) :
    FreeLists platform (listPush (platform.head b) x heap)
      (Function.update lists b (lists b ++ [x])) := by
  have hbacked : ∀ j, Active heap.bucketLimit j →
      ∀ z ∈ Function.update lists b (lists b ++ [x]) j, Backed heap z := by
    intro j hj z hz
    by_cases hjb : j = b
    · subst hjb
      rw [Function.update_self, List.mem_append, List.mem_singleton] at hz
      rcases hz with hz | rfl
      · exact hlists.backed j hj z hz
      · exact hx
    · rw [Function.update_of_ne hjb] at hz
      exact hlists.backed j hj z hz
  refine ⟨?_, hbacked⟩
  have hfamily := hlists.family.append hb (fresh_family hmapped hx.1 hfresh)
  exact ringFamily_of_agreeOn hfamily (fun j hj z hz => (hbacked j hj z hz).1)
    (listPush_links hmapped (head_mem_slots hb) (Or.inr hx.1)
      (hlists.mem_slots hb (hlists.prev_head_mem hb)))

/-- `list_remove` takes a member out of its list. -/
theorem remove (hlists : FreeLists platform heap lists)
    (hmapped : Mapped platform heap) (hb : Active heap.bucketLimit b)
    (hx : x ∈ lists b) (list : Nat) :
    FreeLists platform (listRemove list x heap)
      (Function.update lists b ((lists b).erase x)) := by
  have hbacked : ∀ j, Active heap.bucketLimit j →
      ∀ z ∈ Function.update lists b ((lists b).erase x) j, Backed heap z := by
    intro j hj z hz
    by_cases hjb : j = b
    · subst hjb
      rw [Function.update_self] at hz
      exact hlists.backed j hj z (List.mem_of_mem_erase hz)
    · rw [Function.update_of_ne hjb] at hz
      exact hlists.backed j hj z hz
  refine ⟨?_, hbacked⟩
  obtain ⟨hprev, hnext⟩ := (hlists.family.ring b hb).neighbours hx
  exact ringFamily_of_agreeOn (hlists.family.detach hb hx)
    (fun j hj z hz => (hbacked j hj z hz).1)
    (listRemove_links hmapped (hlists.mem_slots hb hnext)
      (hlists.mem_slots hb hprev))

/-- `list_init` on the head below `bucket_limit`, after `bucket_limit` has been
lowered to it, starts an empty list. -/
theorem init (hlists : FreeLists platform heap lists)
    (hmapped : Mapped platform heap) (hlimit : heap.bucketLimit = b + 1)
    (hb : b < bucketCount) :
    FreeLists platform
      (listInit (platform.head b) { heap with bucketLimit := b })
      (Function.update lists b []) := by
  have hinactive : ¬ Active heap.bucketLimit b := by
    simp only [Active, hlimit]
    omega
  have hactive : ∀ j, Active b j → Active heap.bucketLimit j ∨ j = b := by
    intro j hj
    simp only [Active, hlimit] at hj ⊢
    omega
  have hactive' : ∀ j, Active heap.bucketLimit j ∨ j = b → Active b j := by
    intro j hj
    simp only [Active, hlimit] at hj ⊢
    omega
  have hbacked : ∀ j, Active b j →
      ∀ z ∈ Function.update lists b [] j, Backed heap z := by
    intro j hj z hz
    by_cases hjb : j = b
    · subst hjb
      simp at hz
    · rw [Function.update_of_ne hjb] at hz
      exact hlists.backed j ((hactive j hj).resolve_right hjb) z hz
  refine ⟨?_, hbacked⟩
  -- The head of the new level is in no other ring: heads differ, and nodes lie above the
  -- static data.
  have hhead : ∀ j, Active heap.bucketLimit j →
      platform.head b ∉ platform.head j :: lists j := by
    intro j hj hmem
    rcases List.mem_cons.mp hmem with heq | hmem
    · exact hinactive (Platform.head_injective heq ▸ hj)
    · exact (hlists.backed j hj _ hmem).1.ne_head hmapped hb rfl
  have hfamily := hlists.family.selfLink hinactive hhead
  have hfamily' : RingFamily ((linksOf heap.memory).selfLink (platform.head b))
      (Active b) platform.head (Function.update lists b []) :=
    ⟨fun j hj => hfamily.ring j (hactive j hj),
      fun j hj => hfamily.nodup j (hactive j hj),
      fun j k hj hk => hfamily.apart j k (hactive j hj) (hactive k hk)⟩
  exact ringFamily_of_agreeOn hfamily'
    (fun j hj z hz => (hbacked j hj z hz).1)
    (listInit_links hmapped (Or.inl ⟨b, hb, rfl⟩))

/-- `list_pop` on an empty list. -/
theorem pop_nil (hlists : FreeLists platform heap lists)
    (hb : Active heap.bucketLimit b) (hnil : lists b = []) :
    listPop (platform.head b) heap = (0, heap) := by
  have hprev := hlists.prev_head hb
  rw [hnil] at hprev
  unfold listPop
  rw [if_pos (by simpa using hprev)]

/-- `list_pop` removes and returns the last node. -/
theorem pop_concat (hlists : FreeLists platform heap lists)
    (hmapped : Mapped platform heap) (hb : Active heap.bucketLimit b)
    {front : List Nat} (hconcat : lists b = front ++ [x]) :
    listPop (platform.head b) heap =
      (x, listRemove (platform.head b) x heap) := by
  have hprev := hlists.prev_head hb
  rw [hconcat, List.getLast?_concat, Option.getD_some] at hprev
  have hmem : x ∈ lists b := by rw [hconcat]; simp
  have hne := (hlists.backed b hb x hmem).1.ne_head hmapped hb.2
  unfold listPop
  rw [hprev, if_neg hne]

end FreeLists

/-! ## Bytes that the list functions leave alone -/

theorem listInit_memory (hmapped : Mapped platform heap) (hb : b < bucketCount)
    (hy : heap.basePtr ≤ y) :
    (listInit (platform.head b) heap).memory y = heap.memory y := by
  have hbelow := hmapped.head_below hb
  simp only [listInit, Heap.setNext, Heap.setPrev, Heap.store]
  rw [storeWord_outside (by omega), storeWord_outside (by omega)]

theorem FreeLists.push_memory (hlists : FreeLists platform heap lists)
    (hmapped : Mapped platform heap) (hb : Active heap.bucketLimit b)
    (hy : Outside heap lists y) (hyx : y < x ∨ x + 16 ≤ y) :
    (listPush (platform.head b) x heap).memory y = heap.memory y := by
  have hhead := outside_node hmapped hb List.mem_cons_self hy
  have hlast := outside_node hmapped hb (hlists.prev_head_mem hb) hy
  simp only [listPush, Heap.setNext, Heap.setPrev, Heap.store]
  rw [storeWord_outside (by omega), storeWord_outside (by omega),
    storeWord_outside (by omega), storeWord_outside (by omega)]

theorem FreeLists.remove_memory (hlists : FreeLists platform heap lists)
    (hmapped : Mapped platform heap) (hb : Active heap.bucketLimit b)
    (hx : x ∈ lists b) (hy : Outside heap lists y) (list : Nat) :
    (listRemove list x heap).memory y = heap.memory y := by
  obtain ⟨hprevMem, hnextMem⟩ := (hlists.family.ring b hb).neighbours hx
  have hprev : y < heap.prev x ∨ heap.prev x + 16 ≤ y :=
    outside_node hmapped hb hprevMem hy
  have hnext : y < heap.next x ∨ heap.next x + 16 ≤ y :=
    outside_node hmapped hb hnextMem hy
  simp only [Heap.prev, Heap.next] at hprev hnext
  simp only [listRemove, Heap.setNext, Heap.setPrev, Heap.store, Heap.next,
    Heap.prev]
  rw [storeWord_outside (by omega), storeWord_outside (by omega)]

/-! ## The log of the list functions -/

theorem listInit_log (heap : Heap) (hmapped : Mapped platform heap)
    (hb : b < bucketCount) (hlog : LogOk platform kept heap.log) :
    LogOk platform kept (listInit (platform.head b) heap).log := by
  have hhead : Writable platform heap (platform.head b) := Or.inl ⟨b, hb, rfl⟩
  obtain ⟨hprev, hnext⟩ := hhead.eventOk _ hmapped
  exact (hlog.cons hprev).cons hnext

theorem FreeLists.push_log (hlists : FreeLists platform heap lists)
    (hmapped : Mapped platform heap) (hb : Active heap.bucketLimit b)
    (hx : Backed heap x) (hlog : LogOk platform kept heap.log) :
    LogOk platform kept (listPush (platform.head b) x heap).log := by
  have hhead := (hlists.writable hb List.mem_cons_self).eventOk kept hmapped
  have hlast :=
    (hlists.writable hb (hlists.prev_head_mem hb)).eventOk kept hmapped
  have hnode := Writable.eventOk kept (Or.inr hx) hmapped
  exact (((hlog.cons hnode.1).cons hnode.2).cons hlast.2).cons hhead.1

theorem FreeLists.remove_log (hlists : FreeLists platform heap lists)
    (hmapped : Mapped platform heap) (hb : Active heap.bucketLimit b)
    (hx : x ∈ lists b) (hkept : x ∉ kept)
    (hlog : LogOk platform kept heap.log) :
    LogOk platform kept (listRemove (platform.head b) x heap).log := by
  obtain ⟨hprevMem, hnextMem⟩ := (hlists.family.ring b hb).neighbours hx
  have hprev := (hlists.writable hb hprevMem).eventOk kept hmapped
  have hnext := (hlists.writable hb hnextMem).eventOk kept hmapped
  have hremove : EventOk platform kept
      (.remove (platform.head b) x heap.memory) :=
    ⟨by rw [hlists.listNodes_eq hb]; exact hx, hkept⟩
  exact ((hlog.cons hremove).cons hprev.2).cons hnext.1

end BuddyAlloc
end OsStuff
