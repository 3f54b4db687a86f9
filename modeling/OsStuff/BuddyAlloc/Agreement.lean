import OsStuff.BuddyAlloc.Malloc2Runs

/-!
# The two allocators agree

`malloc_1` adds its header to a request, so a request to `malloc_1` corresponds
to a request to `malloc_2` that is larger by the header.  Both clients refine
the same abstract client, and what is observed of either is determined by it.
`malloc_2` follows only while some block stays live: emptying the heap is where
its counts may go wrong.
-/

namespace OsStuff
namespace BuddyAlloc

open Library Library.DyadicTree

/-- What a client of `malloc_2` does for a client of `malloc_1`.  A byte of the
request lies behind the header. -/
def Op.counterpart : Op → Op
  | .malloc request => .malloc (request + headerSize)
  | .free index => .free index
  | .write index offset byte => .write index (offset + headerSize) byte

/-- Two pointers at the same distance from the bases, the first behind a
header. -/
def SameOffset (heap heap' : Heap) (pointer pointer' : Nat) : Prop :=
  ∃ x, pointer = heap.basePtr + x + headerSize ∧ pointer' = heap'.basePtr + x

/-- The entries of a free list, in order, as distances from the base. -/
def listOffsets (platform : Platform) (heap : Heap) (bucket : Nat) : List Int :=
  (platform.freeList heap bucket).map fun x : Nat => (x : Int) - heap.basePtr

/-- A client of `malloc_1` and one of `malloc_2` that have seen the same. -/
structure Agree (platform platform' : Platform) (client client' : Client) :
    Prop where
  result : client.result = 0 ∧ client'.result = 0 ∨
    SameOffset client.heap client'.heap client.result client'.result
  live : List.Forall₂
    (fun live live' => SameOffset client.heap client'.heap live.pointer
      live'.pointer) client.live client'.live
  limit : client.heap.bucketLimit = client'.heap.bucketLimit
  top : client.heap.maxPtr - client.heap.basePtr =
    client'.heap.maxPtr - client'.heap.basePtr
  lists : ∀ b ∈ client.heap.buckets,
    listOffsets platform client.heap b = listOffsets platform' client'.heap b
  bucket : ∀ live ∈ client'.live,
    ∃ b, bucketForRequest live.request = some b ∧
      Malloc2.bucketForAllocedPointer client'.heap live.pointer = some b

/-- A step of `malloc_1` with requests that stay below half of the largest block,
which does not free the last live block. -/
def StaysLive (client : Client) (op : Op) (next : Client) : Prop :=
  op.AtMost (2 ^ 30 - headerSize) ∧ (client.live ≠ [] → next.live ≠ [])

variable {platform platform' : Platform} {grant : Nat → Bool} {ops : List Op}
  {op : Op} {client client' next next' : Client}
  {tenancy tenancy' : Tenancy}

/-! ## The abstract clients -/

/-- Both allocators look for a block of the same size. -/
theorem tenancy_step_counterpart (hop : op.AtMost (2 ^ 30 - headerSize)) :
    Tenancy.step grant (allocator2 platform').total tenancy op.counterpart =
      Tenancy.step grant (allocator1 platform).total tenancy op := by
  cases op with
  | malloc request =>
      have hrequest : request ≤ 2 ^ 30 - headerSize := hop
      have htotal : (allocator1 platform).total request = request + headerSize :=
        wrap_of_lt (by simp only [headerSize] at *; omega)
      simp only [Op.counterpart, Tenancy.step, htotal]
      rfl
  | free index => rfl
  | write index offset byte => rfl

/-- The node handed out by the last call is taken. -/
theorem tenancy_step_result {total : Nat → Nat}
    (hstep : Tenancy.step grant total tenancy op = some tenancy') :
    ∀ n, tenancy'.result = some n → n ∈ tenancy'.live := by
  intro n hn
  cases op with
  | malloc request =>
      obtain rfl := Option.some.inj hstep
      unfold Tenancy.malloc at hn ⊢
      by_cases hlarge : maxAlloc < total request
      · rw [if_pos hlarge] at hn
        exact absurd hn (by simp)
      · rw [if_neg hlarge] at hn ⊢
        refine List.mem_append_left _ ?_
        simp only at hn
        rw [hn]
        simp
  | free index =>
      obtain ⟨arena, -, hstep⟩ := Option.bind_eq_some_iff.mp hstep
      obtain ⟨m, -, hstep⟩ := Option.bind_eq_some_iff.mp hstep
      obtain rfl := Option.some.inj hstep
      exact absurd hn (by simp)
  | write index offset byte =>
      obtain rfl := Option.some.inj hstep
      exact absurd hn (by simp)

/-- Where the last call's block lies. -/
theorem Refines.result_cases {keeping : Bookkeeping platform}
    (hrefines : Refines keeping client tenancy)
    (hresult : ∀ n, tenancy.result = some n → n ∈ tenancy.live) :
    (client.result = 0 ∧ tenancy.result = none) ∨
      ∃ n b, tenancy.result = some n ∧ AtLevel b n ∧ client.result ≠ 0 ∧
        client.result = nodeAddr client.heap.basePtr b n +
          keeping.allocator.header := by
  cases hnode : tenancy.result with
  | none => exact Or.inl ⟨hrefines.result_none hnode, rfl⟩
  | some n =>
      have hmem := hresult n hnode
      cases harena : tenancy.arena with
      | none =>
          obtain ⟨-, -, hnil⟩ := hrefines.fresh harena
          rw [hnil] at hmem
          exact absurd hmem List.not_mem_nil
      | some arena =>
          have hsim := (hrefines.running arena harena).sim
          obtain ⟨b, hb, -⟩ :=
            pieces_level hsim ((mem_pieces hsim).mpr (Or.inl hmem))
          have haddr := hrefines.result_some n b hnode hb
          refine Or.inr ⟨n, b, rfl, hb, ?_, haddr⟩
          rw [haddr]
          have hne := hsim.mapped.nodeAddr_ne_zero b n
          omega

/-! ## One step -/

/-- Two clients that stand for the same abstract client, with the requests of
the second larger by the header. -/
structure Matched (platform platform' : Platform) (client client' : Client)
    (tenancy : Tenancy) : Prop where
  left : Refines (Malloc1.bookkeeping platform) client tenancy
  right : Refines (Malloc2.bookkeeping platform') client' tenancy
  result : ∀ n, tenancy.result = some n → n ∈ tenancy.live
  requests : List.Forall₂
    (fun live live' => live'.request = live.request + headerSize)
    client.live client'.live

theorem Matched.initial : Matched platform platform' platform.client
    platform'.client Tenancy.initial where
  left := Refines.initial
  right := Refines.initial
  result n hn := absurd hn (by simp [Tenancy.initial])
  requests := List.Forall₂.nil

/-- Freeing a block while another one stays live leaves the root counted. -/
theorem Matched.rootCounted
    (hmatched : Matched platform platform' client client' tenancy)
    (hstep : step (allocator1 platform) grant client op = some next)
    (hstays : StaysLive client op next) :
    Malloc2.RootCounted client' op.counterpart := by
  cases op with
  | malloc request => trivial
  | write index offset byte => trivial
  | free index =>
      intro hlast
      obtain ⟨live, hindex, hstep⟩ := Option.bind_eq_some_iff.mp hstep
      obtain ⟨heap, -, hstep⟩ := Option.bind_eq_some_iff.mp hstep
      obtain rfl := Option.some.inj hstep
      obtain ⟨hlt, -⟩ := List.getElem?_eq_some_iff.mp hindex
      have hnext : client.live.eraseIdx index ≠ [] :=
        hstays.2 (List.ne_nil_of_length_pos (by omega))
      have hlength :=
        (forall₂_eraseIdx hmatched.requests index).length_eq
      rw [hlast, List.length_nil] at hlength
      exact absurd (List.eq_nil_of_length_eq_zero hlength) hnext

/-- A live block of `malloc_1` and its counterpart have the same size. -/
theorem Matched.sameBlock
    (hmatched : Matched platform platform' client client' tenancy) {index : Nat}
    {live : Live} (hindex : client.live[index]? = some live) :
    ∃ live', client'.live[index]? = some live' ∧
      live'.request = live.request + headerSize ∧
      (allocator2 platform').blockBytes live' =
        (allocator1 platform).blockBytes live := by
  obtain ⟨live', hindex', hrequest⟩ :=
    forall₂_getElem? hmatched.requests hindex
  refine ⟨live', hindex', hrequest, ?_⟩
  cases harena : tenancy.arena with
  | none =>
      obtain ⟨-, hnil, -⟩ := hmatched.left.fresh harena
      rw [hnil] at hindex
      exact absurd hindex (by simp)
  | some arena =>
      obtain ⟨n, hn, -, howns⟩ :=
        (hmatched.left.running arena harena).exists_owns hindex
      obtain ⟨n', hn', -, howns'⟩ :=
        (hmatched.right.running arena harena).exists_owns hindex'
      obtain rfl : n = n' := by
        rw [hn] at hn'
        exact Option.some.inj hn'
      exact howns'.blockBytes.trans
        ((howns'.level.unique howns.level) ▸ howns.blockBytes.symm)

/-- What the client of `malloc_1` can do, its counterpart can do. -/
theorem Matched.legal
    (hmatched : Matched platform platform' client client' tenancy)
    (hop : op.AtMost (2 ^ 30 - headerSize))
    (hstep : step (allocator1 platform) grant client op = some next) :
    op.counterpart.Legal (allocator2 platform') client' := by
  cases op with
  | malloc request =>
      have hrequest : request ≤ 2 ^ 30 - headerSize := hop
      change request + headerSize < 2 ^ 64
      simp only [headerSize] at *
      omega
  | free index =>
      obtain ⟨live, hindex, -⟩ := Option.bind_eq_some_iff.mp hstep
      obtain ⟨live', hindex', -⟩ := hmatched.sameBlock hindex
      exact (List.getElem?_eq_some_iff.mp hindex').1
  | write index offset byte =>
      obtain ⟨live, hindex, hstep⟩ := Option.bind_eq_some_iff.mp hstep
      obtain ⟨live', hindex', hrequest, hbytes⟩ := hmatched.sameBlock hindex
      refine ⟨live', hindex', ?_⟩
      by_cases hoffset : offset < (allocator1 platform).usable live
      · unfold Allocator.usable at hoffset ⊢
        rw [hbytes, hrequest]
        simp only [allocator1, allocator2, headerSize] at hoffset ⊢
        omega
      · rw [if_neg hoffset] at hstep
        exact absurd hstep (by simp)

/-- The requests stay matched when both calls fail or both succeed. -/
theorem Matched.step_requests
    (hmatched : Matched platform platform' client client' tenancy)
    (hstep : step (allocator1 platform) grant client op = some next)
    (hstep' : step (allocator2 platform') grant client' op.counterpart =
      some next')
    (hresult : next.result = 0 ↔ next'.result = 0) :
    List.Forall₂ (fun live live' => live'.request = live.request + headerSize)
      next.live next'.live := by
  have hrequests := hmatched.requests
  cases op with
  | malloc request =>
      obtain ⟨-, outcome, -, rfl⟩ := step_malloc_iff.mp hstep
      obtain ⟨-, outcome', -, rfl⟩ := step_malloc_iff.mp hstep'
      simp only at hresult ⊢
      by_cases hfailed : outcome.1 = 0
      · rw [if_pos hfailed, if_pos (hresult.mp hfailed)]
        exact hrequests
      · rw [if_neg hfailed, if_neg fun h => hfailed (hresult.mpr h)]
        exact List.Forall₂.cons rfl hrequests
  | free index =>
      obtain ⟨live, -, hstep⟩ := Option.bind_eq_some_iff.mp hstep
      obtain ⟨heap, -, hstep⟩ := Option.bind_eq_some_iff.mp hstep
      obtain ⟨live', -, hstep'⟩ := Option.bind_eq_some_iff.mp hstep'
      obtain ⟨heap', -, hstep'⟩ := Option.bind_eq_some_iff.mp hstep'
      obtain rfl := Option.some.inj hstep
      obtain rfl := Option.some.inj hstep'
      exact forall₂_eraseIdx hrequests index
  | write index offset byte =>
      obtain ⟨live, -, hstep⟩ := Option.bind_eq_some_iff.mp hstep
      obtain ⟨live', -, hstep'⟩ := Option.bind_eq_some_iff.mp hstep'
      split at hstep
      · split at hstep'
        · obtain rfl := Option.some.inj hstep
          obtain rfl := Option.some.inj hstep'
          exact hrequests
        · exact absurd hstep' (by simp)
      · exact absurd hstep (by simp)

/-- After a step there is an arena. -/
theorem Matched.arena
    (hmatched : Matched platform platform' client client' tenancy)
    (hop : op.AtMost (2 ^ 30 - headerSize))
    (hstep : BuddyAlloc.step (allocator1 platform) grant client op = some next)
    (habstract : Tenancy.step grant (allocator1 platform).total tenancy op =
      some tenancy') : ∃ arena, tenancy'.arena = some arena := by
  cases op with
  | malloc request =>
      have hrequest : request ≤ 2 ^ 30 - headerSize := hop
      have htotal : (allocator1 platform).total request = request + headerSize :=
        wrap_of_lt (by simp only [headerSize] at *; omega)
      obtain rfl := Option.some.inj habstract
      unfold Tenancy.malloc
      rw [if_neg (by rw [htotal]; simp only [headerSize] at *; simp; omega)]
      exact ⟨_, rfl⟩
  | free index =>
      obtain ⟨arena, -, habstract⟩ := Option.bind_eq_some_iff.mp habstract
      obtain ⟨n, -, habstract⟩ := Option.bind_eq_some_iff.mp habstract
      obtain rfl := Option.some.inj habstract
      exact ⟨_, rfl⟩
  | write index offset byte =>
      obtain rfl := Option.some.inj habstract
      cases harena : tenancy.arena with
      | some arena => exact ⟨arena, rfl⟩
      | none =>
          obtain ⟨-, hnil, -⟩ := hmatched.left.fresh harena
          obtain ⟨live, hindex, -⟩ := Option.bind_eq_some_iff.mp hstep
          rw [hnil] at hindex
          exact absurd hindex (by simp)

/-- The client of `malloc_2` follows a step of the client of `malloc_1`. -/
theorem Matched.step (hgrant : grant 0 = true)
    (hmatched : Matched platform platform' client client' tenancy)
    (hstep : BuddyAlloc.step (allocator1 platform) grant client op = some next)
    (hstays : StaysLive client op next) :
    ∃ next' tenancy',
      BuddyAlloc.step (allocator2 platform') grant client' op.counterpart =
        some next' ∧
      Matched platform platform' next next' tenancy' ∧
      tenancy'.arena ≠ none := by
  have hallows := (hmatched.rootCounted hstep hstays).allows hmatched.right
  have hhighest : ∀ request, op.counterpart = .malloc request →
      1 ≤ bucketOf request := by
    intro request hrequest
    cases op with
    | malloc request' =>
        have hbound : request' ≤ 2 ^ 30 - headerSize := hstays.1
        obtain rfl : request' + headerSize = request := Op.malloc.inj hrequest
        apply Malloc2.one_le_bucketOf
        simp only [headerSize] at *
        omega
    | free index => exact absurd hrequest (by simp [Op.counterpart])
    | write index offset byte => exact absurd hrequest (by simp [Op.counterpart])
  obtain ⟨next', hstep'⟩ := hmatched.right.progress (fun _ => hgrant)
    (hmatched.legal hstays.1 hstep)
    (fun request hrequest _ _ => hhighest request hrequest) hallows
  obtain ⟨tenancy₁, habstract, hleft⟩ := hmatched.left.step (fun _ => hgrant) hstep
    (Malloc1.allows client tenancy op)
  obtain ⟨tenancy₂, habstract', hright⟩ :=
    hmatched.right.step (fun _ => hgrant) hstep' hallows
  -- Both refine the same abstract client, whose step does not depend on the allocator.
  have hsame : tenancy₁ = tenancy₂ := by
    have h : Tenancy.step grant (allocator2 platform').total tenancy
        op.counterpart =
        Tenancy.step grant (allocator1 platform).total tenancy op :=
      tenancy_step_counterpart hstays.1
    exact Option.some.inj (habstract.symm.trans (h.symm.trans habstract'))
  subst hsame
  have hresult := tenancy_step_result habstract
  obtain ⟨arena, harena⟩ := hmatched.arena hstays.1 hstep habstract
  refine ⟨next', tenancy₁, hstep', ⟨hleft, hright, hresult,
    hmatched.step_requests hstep hstep' ?_⟩, by simp [harena]⟩
  rcases hleft.result_cases hresult with ⟨hzero, hnone⟩ | ⟨n, b, hn, -, hne, -⟩
  · simp only [hzero, hright.result_none hnone]
  · rcases hright.result_cases hresult with ⟨-, hnone⟩ | ⟨-, -, -, -, hne', -⟩
    · rw [hn] at hnone
      exact absurd hnone (by simp)
    · exact iff_of_false hne hne'

/-! ## What is observed -/

/-- Nodes of the same level have the same offset in both trees. -/
theorem sameOffset_of_addr {heap heap' : Heap} {b n pointer pointer' : Nat}
    (h : pointer = nodeAddr heap.basePtr b n + headerSize)
    (h' : pointer' = nodeAddr heap'.basePtr b n) :
    SameOffset heap heap' pointer pointer' :=
  ⟨offset 31 b n, h, h'⟩

/-- The entries of a free list are the free nodes of its level. -/
theorem Sim.listOffsets {heap : Heap} {arena : Arena} {marked : Set Nat} {b : Nat}
    (hsim : Sim platform heap arena marked) (hb : b ∈ heap.buckets) :
    listOffsets platform heap b =
      (arena.free b).map fun n => (offset 31 b n : Int) := by
  unfold BuddyAlloc.listOffsets
  rw [hsim.freeList hb, List.map_map]
  refine List.map_congr_left fun n _ => ?_
  simp only [Function.comp_apply, nodeAddr, Nat.cast_add]
  omega

/-- Matched clients that have an arena agree. -/
theorem Matched.agree {arena : Arena}
    (hmatched : Matched platform platform' client client' tenancy)
    (harena : tenancy.arena = some arena) :
    Agree platform platform' client client' := by
  have hrunning := hmatched.left.running arena harena
  have hrunning' := hmatched.right.running arena harena
  have hlimit : client.heap.bucketLimit = client'.heap.bucketLimit :=
    hrunning.sim.limit.trans hrunning'.sim.limit.symm
  constructor
  · rcases hmatched.left.result_cases hmatched.result with
      ⟨hzero, hnone⟩ | ⟨n, b, hn, hb, -, hleft⟩
    · exact Or.inl ⟨hzero, hmatched.right.result_none hnone⟩
    · exact Or.inr (sameOffset_of_addr hleft
        (hmatched.right.result_some n b hn hb))
  · refine List.forall₂_iff_get.mpr ⟨hmatched.requests.length_eq,
      fun i hi hi' => ?_⟩
    obtain ⟨n, hn, -, howns⟩ :=
      hrunning.exists_owns (List.getElem?_eq_getElem hi)
    obtain ⟨n', hn', -, howns'⟩ :=
      hrunning'.exists_owns (List.getElem?_eq_getElem hi')
    -- The same index of the two lists of live blocks is the same node.
    obtain rfl : n = n' := by
      rw [hn] at hn'
      exact Option.some.inj hn'
    refine sameOffset_of_addr howns.pointer ?_
    rw [howns.level.unique howns'.level]
    exact howns'.pointer
  · exact hlimit
  · have htop := hrunning.sim.top
    have htop' := hrunning'.sim.top
    omega
  · intro b hb
    have hb' : b ∈ client'.heap.buckets := by
      unfold Heap.buckets at hb ⊢
      rwa [← hlimit]
    rw [hrunning.sim.listOffsets hb, hrunning'.sim.listOffsets hb']
  · intro live hmem
    obtain ⟨index, hindex⟩ := List.mem_iff_getElem?.mp hmem
    obtain ⟨n, -, hn, howns⟩ := hrunning'.exists_owns hindex
    have htotal : live.request ≤ maxAlloc := howns.total_le
    refine ⟨_, bucketForRequest_eq (by simpa using htotal), ?_⟩
    rw [howns.pointer]
    exact Malloc2.bucketForAllocedPointer_spec hrunning'.tracked hrunning'.sim hn
      howns.level howns.highest

/-! ## Runs -/

/-- The client of `malloc_2` follows the client of `malloc_1` through a run. -/
theorem Matched.run (hgrant : grant 0 = true)
    (hrun : GuardedRun (BuddyAlloc.step (allocator1 platform) grant) StaysLive
      client ops next)
    (hmatched : Matched platform platform' client client' tenancy) :
    ∃ next' tenancy',
      Library.run (BuddyAlloc.step (allocator2 platform') grant) client'
        (ops.map Op.counterpart) = some next' ∧
      Matched platform platform' next next' tenancy' ∧
      (ops ≠ [] ∨ tenancy.arena ≠ none → tenancy'.arena ≠ none) := by
  induction hrun generalizing client' tenancy with
  | nil => exact ⟨client', tenancy, rfl, hmatched, by simp⟩
  | cons hstep hguard _ ih =>
      obtain ⟨middle, tenancy₁, hstep', hmatched₁, harena⟩ :=
        hmatched.step hgrant hstep hguard
      obtain ⟨next', tenancy', hrun', hmatched', hkeep⟩ := ih hmatched₁
      exact ⟨next', tenancy', run_cons.mpr ⟨middle, hstep', hrun'⟩, hmatched',
        fun _ => hkeep (Or.inr harena)⟩

/-- As long as a block stays live once there is one, every operation has the
same outcome with both allocators: the same answer at the same offset, the same
tree with the same ordered free lists, and `bucket_for_alloced_pointer` finds
the bucket of every live block. -/
theorem allocators_agree (platform platform' : Platform) (grant : Nat → Bool)
    (hgrant : grant 0 = true) (ops : List Op) (client : Client)
    (hrun : GuardedRun (step (allocator1 platform) grant) StaysLive
      platform.client ops client) :
    ∃ client', runClient (allocator2 platform') platform' grant
        (ops.map Op.counterpart) = some client' ∧
      (ops ≠ [] → Agree platform platform' client client') ∧
      ∀ op : Op, op.Legal (allocator1 platform) client →
        ∃ next, step (allocator1 platform) grant client op = some next := by
  have hinitial : Matched platform platform' platform.client platform'.client
      Tenancy.initial := Matched.initial
  obtain ⟨client', tenancy', hrun', hmatched, harena⟩ := hinitial.run hgrant hrun
  refine ⟨client', hrun', fun hops => ?_, fun op hlegal =>
    Malloc1.step_exists grant op hgrant hmatched.left hlegal⟩
  obtain ⟨arena, heq⟩ := Option.ne_none_iff_exists'.mp (harena (Or.inl hops))
  exact hmatched.agree heq

instance (client : Client) (op : Op) (next : Client) :
    Decidable (StaysLive client op next) :=
  inferInstanceAs (Decidable (_ ∧ _))

/-- Blocks of three sizes, a refused request and a block that is freed. -/
def agreeingOps : List Op :=
  [.malloc 16, .malloc 100, .write 0 3 7, .malloc 40, .free 1, .malloc 4000,
    .malloc 8]

theorem agreeingOps_run : (run (fun client op =>
    (step (allocator1 samplePlatform) Malloc1.sampleGrant client op).filter
      fun next => StaysLive client op next) samplePlatform.client
    agreeingOps).isSome = true := by
  decide +kernel

theorem allocators_agree_sample :
    ∃ client', runClient (allocator2 samplePlatform) samplePlatform
        Malloc1.sampleGrant (agreeingOps.map Op.counterpart) = some client' ∧
      Agree samplePlatform samplePlatform (Option.get _ agreeingOps_run)
        client' := by
  obtain ⟨client', hrun', hagree, -⟩ :=
    allocators_agree samplePlatform samplePlatform Malloc1.sampleGrant rfl
      agreeingOps _ (GuardedRun.of_checked (Option.some_get agreeingOps_run).symm)
  exact ⟨client', hrun', hagree (by simp [agreeingOps])⟩

end BuddyAlloc
end OsStuff
