import OsStuff.BuddyAlloc.Bookkeeping
import OsStuff.BuddyAlloc.Tenancy

/-!
# Refinement of the abstract client

`Refines` ties a client of either allocator to the abstract client.  The step
lemmas, one for each kind of operation, say that the two stay tied and what the
step leaves alone in memory; the run lemma follows by induction.
-/

namespace OsStuff
namespace BuddyAlloc

open Library Library.DyadicTree

/-! ## Lists of blocks -/

/-- Removing an entry of a list without duplicates. -/
theorem mem_eraseIdx_iff {nodes : List Nat} {index n m : Nat}
    (hnodup : nodes.Nodup) (hindex : nodes[index]? = some n) :
    m ∈ nodes.eraseIdx index ↔ m ∈ nodes ∧ m ≠ n := by
  obtain ⟨hlt, rfl⟩ := List.getElem?_eq_some_iff.mp hindex
  rw [← hnodup.erase_getElem index hlt, hnodup.mem_erase_iff]
  tauto

theorem forall₂_eraseIdx {α β : Type*} {related : α → β → Prop} {as : List α}
    {bs : List β} (h : List.Forall₂ related as bs) (index : Nat) :
    List.Forall₂ related (as.eraseIdx index) (bs.eraseIdx index) := by
  induction h generalizing index with
  | nil => exact List.Forall₂.nil
  | cons hhead htail ih =>
      cases index with
      | zero => exact htail
      | succ index => exact List.Forall₂.cons hhead (ih index)

/-- Without nodes there are no pointers. -/
theorem forall₂_eq_nil_of_empty {α β : Type*} {related : α → β → Prop} {as : List α}
    {bs : List β} (h : List.Forall₂ related as bs) (hempty : { b | b ∈ bs } = ∅) :
    as = [] := by
  have hnil : bs = [] :=
    List.eq_nil_iff_forall_not_mem.mpr fun b hb => Set.notMem_empty b (hempty ▸ hb)
  rw [hnil] at h
  exact List.forall₂_nil_right_iff.mp h

theorem forall₂_imp_mem {α β : Type*} {related related' : α → β → Prop}
    {as : List α} {bs : List β} (h : List.Forall₂ related as bs)
    (himp : ∀ a, ∀ b ∈ bs, related a b → related' a b) :
    List.Forall₂ related' as bs := by
  induction h with
  | nil => exact List.Forall₂.nil
  | cons hhead htail ih =>
      exact List.Forall₂.cons (himp _ _ List.mem_cons_self hhead)
        (ih fun a b hb => himp a b (List.mem_cons_of_mem _ hb))

theorem forall₂_getElem? {α β : Type*} {related : α → β → Prop} {as : List α}
    {bs : List β} (h : List.Forall₂ related as bs) {index : Nat} {a : α}
    (ha : as[index]? = some a) : ∃ b, bs[index]? = some b ∧ related a b := by
  induction h generalizing index with
  | nil => simp at ha
  | cons hhead htail ih =>
      cases index with
      | zero =>
          simp only [List.getElem?_cons_zero, Option.some.injEq] at ha
          exact ⟨_, rfl, ha ▸ hhead⟩
      | succ index => exact ih ha

/-! ## The relation -/

variable {platform : Platform} {keeping : Bookkeeping platform}
  {heap heap' : Heap} {client client' : Client} {tenancy : Tenancy}
  {arena : Arena} {marked : Set Nat} {nodes : List Nat} {grant : Nat → Bool}
  {top top' b n m index request : Nat} {live : Live}

/-- Node `n` is the block of a live pointer. -/
structure Owns (keeping : Bookkeeping platform) (heap : Heap) (top : Nat)
    (live : Live) (n : Nat) : Prop where
  total_le : keeping.allocator.total live.request ≤ maxAlloc
  highest : keeping.highest ≤ bucketOf (keeping.allocator.total live.request)
  level : AtLevel (bucketOf (keeping.allocator.total live.request)) n
  pointer : live.pointer =
    nodeAddr heap.basePtr (bucketOf (keeping.allocator.total live.request)) n +
      keeping.allocator.header
  held : offset 31 (bucketOf (keeping.allocator.total live.request)) n +
    2 ^ (31 - bucketOf (keeping.allocator.total live.request)) ≤ top
  label : keeping.Label heap.memory
    (nodeAddr heap.basePtr (bucketOf (keeping.allocator.total live.request)) n)
    live.request

/-- A heap in use, and the arena and the nodes it stands for. -/
structure Running (keeping : Bookkeeping platform) (heap : Heap)
    (lives : List Live) (arena : Arena) (nodes : List Nat) : Prop where
  sim : Sim platform heap arena { n | n ∈ nodes }
  tracked : keeping.Tracked heap.nodeStatus arena.limit { n | n ∈ nodes }
  nodup : nodes.Nodup
  owns : List.Forall₂ (Owns keeping heap arena.top) lives nodes

/-- A client and the abstract client it stands for. -/
structure Refines (keeping : Bookkeeping platform) (client : Client)
    (tenancy : Tenancy) : Prop where
  fresh : tenancy.arena = none →
    Fresh platform client.heap ∧ client.live = [] ∧ tenancy.live = []
  running : ∀ arena, tenancy.arena = some arena →
    Running keeping client.heap client.live arena tenancy.live
  result_none : tenancy.result = none → client.result = 0
  result_some : ∀ n b, tenancy.result = some n → AtLevel b n →
    client.result = nodeAddr client.heap.basePtr b n + keeping.allocator.header

/-- The heap in which the effects of a call start: the one it is made in, or on
the first call the one in which the base has been placed. -/
def Starts (platform : Platform) (heap heap₀ : Heap) : Prop :=
  heap₀ = heap.clearLog ∨ Fresh platform heap ∧ heap₀ = placeBase heap.clearLog

/-! ## Blocks of live pointers -/

theorem Owns.level_lt (_howns : Owns keeping heap top live n) :
    bucketOf (keeping.allocator.total live.request) < 28 := by
  simpa using bucketOf_lt (keeping.allocator.total live.request)

/-- The size of the block of a live pointer. -/
theorem Owns.blockBytes (howns : Owns keeping heap top live n) :
    keeping.allocator.blockBytes live =
      2 ^ (31 - bucketOf (keeping.allocator.total live.request)) :=
  blockSize_eq (by simpa using howns.total_le)

/-- The start of the block of a live pointer. -/
theorem Owns.blockStart (howns : Owns keeping heap top live n) :
    keeping.allocator.blockStart live = nodeAddr heap.basePtr
      (bucketOf (keeping.allocator.total live.request)) n := by
  unfold Allocator.blockStart
  rw [howns.pointer, Nat.add_sub_cancel]

/-- The bytes of the block of a live pointer. -/
theorem Owns.mem_block (howns : Owns keeping heap top live n) {y : Nat} :
    keeping.allocator.blockStart live ≤ y ∧
        y < keeping.allocator.blockStart live +
          keeping.allocator.blockBytes live ↔
      y ∈ bytesOf heap.basePtr {n} := by
  rw [howns.blockStart, howns.blockBytes,
    mem_node_iff _ howns.level howns.level_lt]
  simp [bytesOf]

/-- A block stays with its pointer while its bytes stay the same. -/
theorem Owns.keep (howns : Owns keeping heap top live n)
    (hbase : heap'.basePtr = heap.basePtr)
    (hmemory : ∀ y, keeping.allocator.blockStart live ≤ y →
      y < keeping.allocator.blockStart live + keeping.allocator.header →
      heap'.memory y = heap.memory y)
    (htop : top ≤ top') : Owns keeping heap' top' live n where
  total_le := howns.total_le
  highest := howns.highest
  level := howns.level
  pointer := hbase ▸ howns.pointer
  held := howns.held.trans htop
  label := by
    rw [howns.blockStart] at hmemory
    rw [hbase]
    exact keeping.label_congr hmemory howns.label

/-- The header lies in the block. -/
theorem Owns.header_lt (howns : Owns keeping heap top live n) :
    keeping.allocator.header < keeping.allocator.blockBytes live := by
  have hheader := keeping.header_lt
  have hsize := sixteen_le_size (b := bucketOf
    (keeping.allocator.total live.request)) (by simpa using howns.level_lt)
  rw [howns.blockBytes]
  omega

/-- Every live pointer has a node. -/
theorem Running.exists_owns {lives : List Live}
    (hrunning : Running keeping heap lives arena nodes)
    (hindex : lives[index]? = some live) :
    ∃ n, nodes[index]? = some n ∧ n ∈ nodes ∧
      Owns keeping heap arena.top live n := by
  obtain ⟨n, hn, howns⟩ := forall₂_getElem? hrunning.owns hindex
  exact ⟨n, hn, List.mem_of_getElem? hn, howns⟩

/-- Different taken nodes have no byte in common. -/
theorem bytesOf_disjoint {base : Nat} (hshape : arena.Shape marked)
    (hn : n ∈ marked) (hm : m ∈ marked) (hne : n ≠ m) {y : Nat}
    (hy : y ∈ bytesOf base {n}) : y ∉ bytesOf base {m} := by
  rintro ⟨x', -, heq, m', rfl, hm'⟩
  obtain ⟨x, -, rfl, n', rfl, hn'⟩ := hy
  have hxx : x = x' := by omega
  subst hxx
  rcases hn'.total hm' with h | h
  · exact hne (hshape.marking.apart _ hn _ hm h)
  · exact hne (hshape.marking.apart _ hm _ hn h).symm

/-- The blocks stay with their pointers while their bytes stay the same. -/
theorem forall₂_owns_keep {lives : List Live}
    (howns : List.Forall₂ (Owns keeping heap top) lives nodes)
    (hbase : heap'.basePtr = heap.basePtr)
    (hmemory : ∀ y ∈ bytesOf heap.basePtr { n | n ∈ nodes },
      heap'.memory y = heap.memory y)
    (htop : top ≤ top') :
    List.Forall₂ (Owns keeping heap' top') lives nodes := by
  refine forall₂_imp_mem howns fun live n hn hlive =>
    hlive.keep hbase (fun y hlow hhigh => hmemory y ?_) htop
  have hlt := hlive.header_lt
  exact bytesOf_mono (Set.singleton_subset_iff.mpr hn)
    (hlive.mem_block.mp ⟨hlow, by omega⟩)

/-! ## Clearing the log -/

theorem Fresh.clearLog (hfresh : Fresh platform heap) :
    Fresh platform heap.clearLog :=
  ⟨hfresh.base, hfresh.asked, hfresh.status, hfresh.above, hfresh.low⟩

theorem Running.clearLog {lives : List Live}
    (hrunning : Running keeping heap lives arena nodes) :
    Running keeping heap.clearLog lives arena nodes where
  sim := hrunning.sim.withMemory [] fun _ _ => rfl
  tracked := hrunning.tracked
  nodup := hrunning.nodup
  owns := hrunning.owns.imp fun _ _ howns =>
    howns.keep rfl (fun _ _ _ => rfl) (le_refl _)

/-! ## `malloc` -/

/-- The taken nodes after a call, as a list. -/
theorem taken_eq (nodes : List Nat) (result : Option Nat) :
    Bookkeeping.taken { n | n ∈ nodes } result =
      { n | n ∈ result.toList ++ nodes } := by
  cases result with
  | none => rfl
  | some n =>
      ext m
      simp [Bookkeeping.taken]

/-- What the client knows after a call of `malloc` that did not fail. -/
theorem Running.answer (guarded : Set Nat) {lives : List Live}
    {result : Option Nat × Arena} {outcome : Nat × Heap}
    (howns : List.Forall₂ (Owns keeping heap arena.top) lives nodes)
    (hnodup : nodes.Nodup)
    (htotal : keeping.allocator.total request ≤ maxAlloc)
    (hanswers : keeping.Answers (bytesOf heap.basePtr { n | n ∈ nodes }) guarded
      (bucketOf (keeping.allocator.total request)) request heap arena
      { n | n ∈ nodes } result outcome) :
    Refines keeping
      { heap := outcome.2
        live := if outcome.1 = 0 then lives else ⟨outcome.1, request⟩ :: lives
        result := outcome.1 }
      { arena := some result.2
        live := result.1.toList ++ nodes
        result := result.1 } := by
  obtain ⟨hpointer, hsim, htracked, heffect, htop, hfresh⟩ := hanswers
  rw [taken_eq] at hsim htracked
  have hkeep := forall₂_owns_keep howns heffect.base heffect.memory htop
  rcases result with ⟨_ | n, arena'⟩
  · -- NULL: the client owns what it owned before.
    simp only [Bookkeeping.pointerTo] at hpointer
    refine ⟨by simp, ?_, fun _ => hpointer, by simp⟩
    rintro _ ⟨⟩
    rw [hpointer, if_pos rfl]
    exact ⟨hsim, htracked, hnodup, hkeep⟩
  · obtain ⟨hhighest, hnot, hlevel, hheld, hlabel⟩ := hfresh n rfl
    simp only [Bookkeeping.pointerTo] at hpointer
    -- A node that is handed out has an address above base_ptr, so the pointer is not NULL.
    have hpos : outcome.1 ≠ 0 := by
      have haddr := hsim.mapped.nodeAddr_ne_zero
        (bucketOf (keeping.allocator.total request)) n
      rw [heffect.base] at haddr
      rw [hpointer]
      omega
    refine ⟨by simp, ?_, by simp, ?_⟩
    · rintro _ ⟨⟩
      rw [if_neg hpos]
      refine ⟨hsim, htracked, List.nodup_cons.mpr ⟨hnot, hnodup⟩,
        List.Forall₂.cons ⟨htotal, hhighest, hlevel, ?_, hheld, ?_⟩ hkeep⟩
      · simp only [heffect.base]
        exact hpointer
      · rw [heffect.base]
        exact hlabel
    · rintro m b ⟨⟩ hb
      simp only [heffect.base]
      rw [hb.unique hlevel]
      exact hpointer

/-- A step that requests memory. -/
theorem step_malloc_iff {allocator : Allocator} :
    step allocator grant client (.malloc request) = some client' ↔
      request < 2 ^ 64 ∧ ∃ outcome,
        allocator.malloc grant request client.heap.clearLog = some outcome ∧
        client' = {
          heap := outcome.2
          live := if outcome.1 = 0 then client.live
            else ⟨outcome.1, request⟩ :: client.live
          result := outcome.1 } := by
  simp only [step]
  by_cases hrequest : request < 2 ^ 64
  · rw [if_pos hrequest]
    simp only [hrequest, true_and, Option.bind_eq_bind,
      Option.bind_eq_some_iff, Option.some.injEq]
    exact exists_congr fun _ => and_congr_right fun _ => eq_comm
  · rw [if_neg hrequest]
    simp only [hrequest, false_and, reduceCtorEq]

/-- An operation that asks for nothing. -/
theorem Refines.idle (hrefines : Refines keeping client tenancy) :
    Refines keeping ⟨client.heap.clearLog, client.live, 0⟩
      { tenancy with result := none } where
  fresh hnone := (hrefines.fresh hnone).imp Fresh.clearLog id
  running arena hsome := (hrefines.running arena hsome).clearLog
  result_none _ := rfl
  result_some _ _ hnode := absurd hnode (by simp)

/-- A call of `malloc` is a call of the abstract client. -/
theorem Refines.malloc (hrefines : Refines keeping client tenancy)
    (hgrant : tenancy.arena = none → grant 0 = true)
    (hstep : step keeping.allocator grant client (.malloc request) =
      some client') :
    Refines keeping client'
        (tenancy.malloc grant (keeping.allocator.total request)) ∧
      ∃ heap₀, Starts platform client.heap heap₀ ∧
        Effect platform (bytesOf heap₀.basePtr tenancy.marked)
          (bytesOf heap₀.basePtr tenancy.marked)
          (tenancy.malloc grant (keeping.allocator.total request)).result.isSome
          heap₀ client'.heap := by
  obtain ⟨hrequest, outcome, hmalloc, rfl⟩ := step_malloc_iff.mp hstep
  unfold Tenancy.malloc
  by_cases hlarge : maxAlloc < keeping.allocator.total request
  · rw [keeping.malloc_refused hlarge, Option.some.injEq] at hmalloc
    subst hmalloc
    rw [if_pos hlarge]
    exact ⟨hrefines.idle, _, Or.inl rfl, Effect.refl _⟩
  · rw [if_neg hlarge]
    have htotal := Nat.not_lt.mp hlarge
    cases harena : tenancy.arena with
    -- The first call sets the heap up before it searches.
    | none =>
        obtain ⟨hfresh, hlive, hnodes⟩ := hrefines.fresh harena
        have hmarked : tenancy.marked = ∅ := by
          unfold Tenancy.marked
          rw [hnodes]
          simp
        have hanswers := keeping.malloc_fresh_spec hfresh.clearLog
          (hgrant harena) htotal hrequest (le_refl ∅) (le_refl ∅)
        rw [hmalloc] at hanswers
        simp only [Bookkeeping.Computes] at hanswers
        have hready : tenancy.ready grant = Arena.initial grant := by
          unfold Tenancy.ready
          rw [harena, Option.getD_none]
        refine ⟨?_, _, Or.inr ⟨hfresh, rfl⟩, ?_⟩
        · simp only [hready, hlive, hnodes]
          have howns : List.Forall₂ (Owns keeping
              (placeBase client.heap.clearLog) (Arena.initial grant).top)
              [] [] := List.Forall₂.nil
          refine Running.answer ∅ howns List.nodup_nil htotal ?_
          simpa [bytesOf_empty] using hanswers
        · rw [hmarked, bytesOf_empty]
          simpa only [hready] using hanswers.effect
    | some arena =>
        obtain ⟨hsim, htracked, hnodup, howns⟩ :=
          (hrefines.running arena harena).clearLog
        have hanswers := keeping.malloc_spec grant hsim htracked
          htotal hrequest (le_refl _) (le_refl _)
        rw [hmalloc] at hanswers
        simp only [Bookkeeping.Computes] at hanswers
        have hready : tenancy.ready grant = arena := by
          unfold Tenancy.ready
          rw [harena, Option.getD_some]
        rw [hready]
        exact ⟨Running.answer _ howns hnodup htotal hanswers, _, Or.inl rfl,
          hanswers.effect⟩

/-- A request that can be recorded is answered. -/
theorem Refines.malloc_answered (hrefines : Refines keeping client tenancy)
    (hgrant : tenancy.arena = none → grant 0 = true) (hrequest : request < 2 ^ 64)
    (hhighest : keeping.allocator.total request ≤ maxAlloc →
      (tenancy.malloc grant (keeping.allocator.total request)).result ≠ none →
      keeping.highest ≤ bucketOf (keeping.allocator.total request)) :
    ∃ client', step keeping.allocator grant client (.malloc request) =
      some client' := by
  have hcall : ∃ outcome,
      keeping.allocator.malloc grant request client.heap.clearLog =
        some outcome := by
    by_cases hlarge : maxAlloc < keeping.allocator.total request
    · exact ⟨_, keeping.malloc_refused hlarge⟩
    · have htotal := Nat.not_lt.mp hlarge
      unfold Tenancy.malloc Tenancy.ready at hhighest
      rw [if_neg hlarge] at hhighest
      cases harena : tenancy.arena with
      | none =>
          obtain ⟨hfresh, -⟩ := hrefines.fresh harena
          rw [harena, Option.getD_none] at hhighest
          exact (keeping.malloc_fresh_spec hfresh.clearLog (hgrant harena) htotal
            hrequest (le_refl ∅) (le_refl ∅)).exists_some (hhighest htotal)
      | some arena =>
          obtain ⟨hsim, htracked, -⟩ :=
            (hrefines.running arena harena).clearLog
          rw [harena, Option.getD_some] at hhighest
          exact (keeping.malloc_spec grant hsim htracked htotal
            hrequest (le_refl _) (le_refl _)).exists_some (hhighest htotal)
  obtain ⟨outcome, hmalloc⟩ := hcall
  exact ⟨_, step_malloc_iff.mpr ⟨hrequest, outcome, hmalloc, rfl⟩⟩

/-! ## `free` -/

/-- Removing a live block from the list removes its node. -/
theorem insert_eraseIdx (hnodup : nodes.Nodup) (hindex : nodes[index]? = some n) :
    { m | m ∈ nodes } = insert n { m | m ∈ nodes.eraseIdx index } ∧
      n ∉ nodes.eraseIdx index := by
  have hmem := List.mem_of_getElem? hindex
  refine ⟨?_, fun h => ((mem_eraseIdx_iff hnodup hindex).mp h).2 rfl⟩
  ext m
  simp only [Set.mem_insert_iff, Set.mem_ofPred_eq,
    mem_eraseIdx_iff hnodup hindex]
  by_cases hmn : m = n
  · simp [hmn, hmem]
  · simp [hmn]

/-- A call of `free` for a live pointer is a call of the abstract client. -/
theorem Refines.free (grant : Nat → Bool)
    (hrefines : Refines keeping client tenancy)
    (hindex : client.live[index]? = some live)
    (hfreeable : ∀ arena, tenancy.arena = some arena →
      keeping.Freeable client.heap.nodeStatus arena.limit
        { n | n ∈ tenancy.live.eraseIdx index }) :
    ∃ client' tenancy',
      step keeping.allocator grant client (.free index) = some client' ∧
      tenancy.free index = some tenancy' ∧ Refines keeping client' tenancy' ∧
      tenancy'.live = tenancy.live.eraseIdx index ∧
      client'.live = client.live.eraseIdx index ∧
      Effect platform (bytesOf client.heap.basePtr tenancy'.marked)
        (bytesOf client.heap.basePtr tenancy.marked) true client.heap.clearLog
        client'.heap := by
  cases harena : tenancy.arena with
  -- Nothing has been handed out yet, so there is no pointer to free.
  | none =>
      obtain ⟨-, hlive, -⟩ := hrefines.fresh harena
      rw [hlive] at hindex
      exact absurd hindex (by simp)
  | some arena =>
      have hrunning := (hrefines.running arena harena).clearLog
      obtain ⟨n, hnode, hmem, howns⟩ := hrunning.exists_owns hindex
      obtain ⟨hinsert, hnot⟩ := insert_eraseIdx hrunning.nodup hnode
      have hsub : { m | m ∈ tenancy.live.eraseIdx index } ⊆ tenancy.marked :=
        fun m hm => ((mem_eraseIdx_iff hrunning.nodup hnode).mp hm).1
      obtain ⟨heap', hfree, hsim, htracked, heffect⟩ := keeping.free_spec
        (hinsert ▸ hrunning.sim) (hinsert ▸ hrunning.tracked) hnot howns.total_le
        howns.highest howns.level howns.held howns.label
        (hfreeable arena harena) (le_refl _) (le_of_eq rfl)
      rw [← howns.pointer] at hfree
      rw [← hinsert] at heffect
      obtain ⟨hlimit, htop, hasked⟩ := Arena.release_fields arena
        (b := bucketOf (keeping.allocator.total live.request)) (n := n)
      have hlevel := howns.level.log2
      refine ⟨⟨heap', client.live.eraseIdx index, 0⟩,
        ⟨some (Arena.release (Nat.log2 n) n arena),
          tenancy.live.eraseIdx index, none⟩, ?_, ?_, ?_, rfl, rfl, heffect⟩
      · simp only [step, hindex, Option.bind_eq_bind, Option.bind_some, hfree]
      · simp only [Tenancy.free, harena, hnode, Option.bind_eq_bind,
          Option.bind_some]
      · refine ⟨by simp, ?_, fun _ => rfl, by simp⟩
        rintro _ ⟨⟩
        rw [hlevel]
        refine ⟨hsim, htracked, hrunning.nodup.sublist
          (List.eraseIdx_sublist _ _), ?_⟩
        exact forall₂_owns_keep (forall₂_eraseIdx hrunning.owns index)
          heffect.base heffect.memory (by omega)

/-! ## Writing -/

/-- The client writes inside the blocks it owns. -/
theorem Owns.written (howns : Owns keeping heap top live n) {offset : Nat}
    (hoffset : offset < keeping.allocator.usable live) :
    live.pointer + offset ∈ bytesOf heap.basePtr {n} ∧
      keeping.allocator.blockStart live + keeping.allocator.header ≤
        live.pointer + offset := by
  have hheader := howns.header_lt
  have hpointer := howns.pointer
  rw [← howns.blockStart] at hpointer
  unfold Allocator.usable at hoffset
  refine ⟨howns.mem_block.mp ⟨?_, ?_⟩, ?_⟩
  · omega
  · omega
  · omega

/-- A write into a live block is invisible to the abstract client. -/
theorem Refines.write (hrefines : Refines keeping client tenancy)
    (hindex : client.live[index]? = some live) {offset : Nat}
    (hoffset : offset < keeping.allocator.usable live) (byte : UInt8) :
    Refines keeping
      { heap := { client.heap.clearLog with
          memory := Function.update client.heap.memory
            (live.pointer + offset) byte }
        live := client.live
        result := 0 }
      { tenancy with result := none } := by
  cases harena : tenancy.arena with
  | none =>
      obtain ⟨-, hlive, -⟩ := hrefines.fresh harena
      rw [hlive] at hindex
      exact absurd hindex (by simp)
  | some arena =>
      have hrunning := hrefines.running arena harena
      obtain ⟨n, hnode, hmem, howns⟩ := hrunning.exists_owns hindex
      obtain ⟨hwritten, habove⟩ := howns.written hoffset
      refine ⟨by simp, ?_, fun _ => rfl, by simp⟩
      intro arena' harena'
      obtain rfl : arena = arena' := by simpa [harena] using harena'
      refine ⟨hrunning.sim.withMemory [] fun y hy => ?_, hrunning.tracked,
        hrunning.nodup, ?_⟩
      · refine Function.update_of_ne ?_ _ _
        rintro rfl
        exact hy (bytesOf_mono (Set.singleton_subset_iff.mpr hmem) hwritten)
      · refine forall₂_imp_mem hrunning.owns fun live' m hm hlive' =>
          hlive'.keep rfl (fun y hlow hhigh => Function.update_of_ne ?_ _ _)
            (le_refl _)
        rintro rfl
        -- The header of the written block lies below the byte, and the header of any other
        -- block outside the written one.
        by_cases hmn : m = n
        · subst hmn
          have hsame := hlive'.level.unique howns.level
          rw [hlive'.blockStart, hsame, ← howns.blockStart] at hhigh
          omega
        · have hlt := hlive'.header_lt
          exact bytesOf_disjoint hrunning.sim.shape hm hmem hmn
            (hlive'.mem_block.mp ⟨hlow, by omega⟩) hwritten

/-! ## Runs -/

/-- The condition on the allocator for a step of the client: nothing but `free`
needs one. -/
def Bookkeeping.Allows (keeping : Bookkeeping platform) (client : Client)
    (tenancy : Tenancy) : Op → Prop
  | .free index => ∀ arena, tenancy.arena = some arena →
      keeping.Freeable client.heap.nodeStatus arena.limit
        { n | n ∈ tenancy.live.eraseIdx index }
  | _ => True

/-- The condition of a step that is no call of `free` is met. -/
theorem Bookkeeping.allows_of_freeable {op : Op}
    (hfreeable : ∀ index arena, op = .free index → tenancy.arena = some arena →
      keeping.Freeable client.heap.nodeStatus arena.limit
        { n | n ∈ tenancy.live.eraseIdx index }) :
    keeping.Allows client tenancy op := by
  cases op with
  | malloc request => trivial
  | free index => exact fun arena harena => hfreeable index arena rfl harena
  | write index offset byte => trivial

theorem Refines.initial : Refines keeping platform.client Tenancy.initial where
  fresh _ := ⟨⟨rfl, rfl, rfl, le_refl _, platform.start_low⟩, rfl, rfl⟩
  running _ hsome := absurd hsome (by simp [Tenancy.initial])
  result_none _ := rfl
  result_some _ _ hsome := absurd hsome (by simp [Tenancy.initial])

/-- Every step of the client is a step of the abstract client. -/
theorem Refines.step (hrefines : Refines keeping client tenancy)
    (hgrant : tenancy.arena = none → grant 0 = true) {op : Op}
    (hstep : step keeping.allocator grant client op = some client')
    (hallows : keeping.Allows client tenancy op) :
    ∃ tenancy', Tenancy.step grant keeping.allocator.total tenancy op =
      some tenancy' ∧ Refines keeping client' tenancy' := by
  cases op with
  | malloc request =>
      exact ⟨_, rfl, (hrefines.malloc hgrant hstep).1⟩
  | free index =>
      cases hindex : client.live[index]? with
      | none => simp [BuddyAlloc.step, hindex] at hstep
      | some live =>
          obtain ⟨client'', tenancy', hstep', hfree, hrefines', -⟩ :=
            hrefines.free grant hindex hallows
          obtain rfl : client'' = client' := by simpa [hstep'] using hstep
          exact ⟨tenancy', hfree, hrefines'⟩
  | write index offset byte =>
      cases hindex : client.live[index]? with
      | none => simp [BuddyAlloc.step, hindex] at hstep
      | some live =>
          by_cases hoffset : offset < keeping.allocator.usable live
          · simp only [BuddyAlloc.step, hindex, Option.bind_eq_bind,
              Option.bind_some, if_pos hoffset, Option.some.injEq] at hstep
            exact ⟨_, rfl, hstep ▸ hrefines.write hindex hoffset byte⟩
          · simp [BuddyAlloc.step, hindex, hoffset] at hstep

/-- Every run of the client is a run of the abstract client, provided that the
allocator allows every step. -/
theorem Refines.run {guard : Client → Op → Client → Prop} {ops : List Op}
    {final : Client} (hgrant : grant 0 = true)
    (hallows : ∀ client op next tenancy, Refines keeping client tenancy →
      guard client op next → keeping.Allows client tenancy op)
    (hrun : GuardedRun (BuddyAlloc.step keeping.allocator grant) guard client
      ops final)
    (hrefines : Refines keeping client tenancy) :
    ∃ tenancy', Library.run (Tenancy.step grant keeping.allocator.total) tenancy
      ops = some tenancy' ∧ Refines keeping final tenancy' := by
  induction hrun generalizing tenancy with
  | nil => exact ⟨tenancy, rfl, hrefines⟩
  | cons hstep hguard _ ih =>
      obtain ⟨tenancy₁, hstep₁, hrefines₁⟩ := hrefines.step (fun _ => hgrant) hstep
        (hallows _ _ _ _ hrefines hguard)
      obtain ⟨tenancy', hrun', hrefines'⟩ := ih hrefines₁
      exact ⟨tenancy', run_cons.mpr ⟨tenancy₁, hstep₁, hrun'⟩, hrefines'⟩

/-- Every legal operation is carried out, unless it asks for a block that is
too large to be recorded. -/
theorem Refines.progress (hrefines : Refines keeping client tenancy)
    (hgrant : tenancy.arena = none → grant 0 = true) {op : Op}
    (hlegal : op.Legal keeping.allocator client)
    (hhighest : ∀ request, op = .malloc request →
      keeping.allocator.total request ≤ maxAlloc →
      (tenancy.malloc grant (keeping.allocator.total request)).result ≠ none →
      keeping.highest ≤ bucketOf (keeping.allocator.total request))
    (hallows : keeping.Allows client tenancy op) :
    ∃ client', BuddyAlloc.step keeping.allocator grant client op =
      some client' := by
  cases op with
  | malloc request =>
      exact hrefines.malloc_answered hgrant hlegal (hhighest request rfl)
  | free index =>
      have hlt : index < client.live.length := hlegal
      obtain ⟨client', -, hstep, -⟩ :=
        hrefines.free grant (List.getElem?_eq_getElem hlt) hallows
      exact ⟨client', hstep⟩
  | write index offset byte =>
      obtain ⟨live, hindex, hoffset⟩ := hlegal
      simp only [BuddyAlloc.step, hindex, Option.bind_eq_bind, Option.bind_some,
        if_pos hoffset]
      exact ⟨_, rfl⟩

end BuddyAlloc
end OsStuff
