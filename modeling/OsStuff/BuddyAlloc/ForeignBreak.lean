import OsStuff.BuddyAlloc.Malloc2Runs

/-!
# `malloc_2` beside other users of the break

Other code of the process asks `sbrk` for memory between the calls, as the C library
does for its buffers.  `update_max_ptr` does not look at the address that `sbrk`
returns: it takes the bytes from `max_ptr` on for the ones that it has been given.
-/

namespace OsStuff
namespace BuddyAlloc

open Library Library.DyadicTree

/-- The range that `sbrk` grants to `update_max_ptr`: it begins at the old break. -/
def Request.range (request : Request) : Block :=
  ⟨request.brk, request.newValue - request.maxPtr⟩

/-- The ranges that are granted in a step of the client. -/
def grantedRanges (log : List Event) : List Block :=
  ((requests log).filter Request.granted).map Request.range

/-- The heap after the other code has moved the break. -/
def Heap.moveBreak (heap : Heap) (bytes : Nat) : Heap :=
  { heap with brk := heap.brk + bytes }

/-- The client, and the ranges that `sbrk` has granted to the allocator and to the
other code. -/
structure Process where
  client : Client
  own : List Block
  foreign : List Block

/-- A call by the client, or a request of the other code to `sbrk`. -/
inductive Action
  | call (op : Op)
  | sbrk (bytes : Nat)

/-- The process before its first action. -/
def Platform.process (platform : Platform) : Process where
  client := platform.client
  own := []
  foreign := []

variable {platform : Platform} {keeping : Bookkeeping platform} {heap : Heap}
  {process next : Process} {tenancy : Tenancy} {block block' : Block}
  {client client' : Client} {bytes : Nat} {op : Op}

/-! ## Moving the break -/

/-- Blocks without a common address are apart. -/
theorem apart_of_disjoint (hsize : 0 < block.size) (hsize' : 0 < block'.size)
    (hnone : ∀ y, block.Contains y → ¬ block'.Contains y) : block.Apart block' := by
  by_contra hapart
  simp only [Block.Apart, Block.Contains] at *
  exact hnone (max block.start block'.start) (by omega) (by omega)

/-- The allocator does not notice that the break has moved. -/
theorem Refines.moveBreak (hrefines : Refines keeping client tenancy)
    (hlow : client.heap.brk + bytes < 2 ^ 63) :
    Refines keeping { client with heap := client.heap.moveBreak bytes } tenancy where
  fresh hnone := by
    obtain ⟨hfresh, hlives⟩ := hrefines.fresh hnone
    refine ⟨⟨hfresh.base, hfresh.asked, hfresh.status, ?_, hlow⟩, hlives⟩
    exact hfresh.above.trans (Nat.le_add_right _ _)
  running arena harena := by
    obtain ⟨hsim, htracked, hnodup, howns⟩ := hrefines.running arena harena
    have hmapped := hsim.mapped
    refine ⟨⟨⟨hmapped.above, hmapped.low, ?_⟩, hsim.limit, hsim.top, hsim.asked,
      hsim.shape, hsim.lists.family, hsim.lists.backed⟩, htracked, hnodup, ?_⟩
    · exact hmapped.obtained.trans (Nat.le_add_right _ _)
    · exact howns.imp fun _ _ howns => howns.keep rfl (fun _ _ _ => rfl) (le_refl _)
  result_none := hrefines.result_none
  result_some := hrefines.result_some

namespace Malloc2

/-- One action.  `sbrk` returns the old break and moves it, which stays in the lower
half of the address space. -/
def act (platform : Platform) (process : Process) : Action → Option Process
  | .call op => do
      let client ← step (allocator2 platform) Arena.granting process.client op
      some {
        client := client
        own := process.own ++ grantedRanges client.heap.log
        foreign := process.foreign }
  | .sbrk bytes =>
      let heap := process.client.heap
      if 0 < bytes ∧ heap.brk + bytes < 2 ^ 63 then
        some {
          client := { process.client with heap := heap.moveBreak bytes }
          own := process.own
          foreign := process.foreign ++ [⟨heap.brk, bytes⟩] }
      else
        none

/-- The blocks of the live pointers lie in the ranges that have been granted to the
allocator, and apart from those of the other code. -/
structure Coexists (platform : Platform) (process : Process) : Prop where
  inside : ∀ live ∈ process.client.live, ∀ y,
    ((allocator2 platform).block live).Contains y →
      ∃ range ∈ process.own, range.Contains y
  apart : ∀ live ∈ process.client.live, ∀ range ∈ process.foreign,
    ((allocator2 platform).block live).Apart range

/-- A call finds the root counted, and every request that `update_max_ptr` makes in it
is made while the break is at `max_ptr`. -/
def Undisturbed (process : Process) (action : Action) (next : Process) : Prop :=
  match action with
  | .call op => RootCounted process.client op ∧
      ∀ request ∈ requests next.client.heap.log, request.brk = request.maxPtr
  | .sbrk _ => True

instance (process next : Process) :
    (action : Action) → Decidable (Undisturbed process action next)
  | .call op => inferInstanceAs (Decidable (RootCounted process.client op ∧ _))
  | .sbrk _ => inferInstanceAs (Decidable True)

/-! ## The ranges -/

/-- What holds between actions. -/
structure Shared (platform : Platform) (process : Process) : Prop where
  refines : ∃ tenancy, Refines (bookkeeping platform) process.client tenancy
  own_le : ∀ range ∈ process.own, range.start + range.size ≤ process.client.heap.brk
  foreign_le : ∀ range ∈ process.foreign,
    range.start + range.size ≤ process.client.heap.brk
  foreign_pos : ∀ range ∈ process.foreign, 0 < range.size
  apart : ∀ range ∈ process.own, ∀ other ∈ process.foreign, range.Apart other
  covered : process.client.heap.basePtr ≠ 0 → ∀ y, process.client.heap.basePtr ≤ y →
    y < process.client.heap.maxPtr → ∃ range ∈ process.own, range.Contains y

theorem Shared.initial : Shared platform platform.process where
  refines := ⟨_, Refines.initial⟩
  own_le _ hrange := absurd hrange List.not_mem_nil
  foreign_le _ hrange := absurd hrange List.not_mem_nil
  foreign_pos _ hrange := absurd hrange List.not_mem_nil
  apart _ hrange := absurd hrange List.not_mem_nil
  covered hbase := absurd rfl hbase

theorem mem_grantedRanges {log : List Event} {range : Block} :
    range ∈ grantedRanges log ↔
      ∃ request ∈ requests log, request.granted = true ∧ request.range = range := by
  simp [grantedRanges, and_assoc]

/-- A request of the other code. -/
theorem Shared.sbrk (hshared : Shared platform process) (hbytes : 0 < bytes)
    (hlow : process.client.heap.brk + bytes < 2 ^ 63) :
    Shared platform {
      client := { process.client with heap := process.client.heap.moveBreak bytes }
      own := process.own
      foreign := process.foreign ++ [⟨process.client.heap.brk, bytes⟩] } := by
  obtain ⟨tenancy, hrefines⟩ := hshared.refines
  have hbrk : process.client.heap.brk ≤ (process.client.heap.moveBreak bytes).brk :=
    Nat.le_add_right _ _
  refine ⟨⟨tenancy, hrefines.moveBreak hlow⟩, fun range hrange =>
    (hshared.own_le range hrange).trans hbrk, fun range hrange => ?_, fun range hrange => ?_,
    fun range hrange other hother => ?_, hshared.covered⟩
  · rcases List.mem_append.mp hrange with hmem | hmem
    · exact (hshared.foreign_le range hmem).trans hbrk
    · rw [List.mem_singleton.mp hmem]
      exact le_refl _
  · rcases List.mem_append.mp hrange with hmem | hmem
    · exact hshared.foreign_pos range hmem
    · rw [List.mem_singleton.mp hmem]
      exact hbytes
  · rcases List.mem_append.mp hother with hmem | hmem
    · exact hshared.apart range hrange other hmem
    · -- The new range begins at the break, behind everything granted so far.
      rw [List.mem_singleton.mp hmem]
      exact Or.inl (hshared.own_le range hrange)

/-- A call in which every request is made at `max_ptr`. -/
theorem Shared.call (hshared : Shared platform process)
    (hstep : step (allocator2 platform) Arena.granting process.client op = some client')
    (hcounted : RootCounted process.client op)
    (hbreak : ∀ request ∈ requests client'.heap.log, request.brk = request.maxPtr) :
    Shared platform {
      client := client'
      own := process.own ++ grantedRanges client'.heap.log
      foreign := process.foreign } := by
  obtain ⟨tenancy, hrefines⟩ := hshared.refines
  have hallows := hcounted.allows hrefines
  obtain ⟨tenancy', -, hrefines'⟩ := hrefines.step (fun _ => rfl) hstep hallows
  obtain ⟨heap₀, ok, hstarts, heffect, -⟩ := hrefines.step_effect rfl hstep hallows
  have hbrk₀ : heap₀.brk = process.client.heap.brk := by
    rcases hstarts with rfl | ⟨-, rfl⟩
    · rfl
    · rfl
  have hbrk : process.client.heap.brk ≤ client'.heap.brk := hbrk₀ ▸ heffect.brk_le
  -- What this call is granted lies above the break of before.
  have hgranted : ∀ range ∈ grantedRanges client'.heap.log,
      process.client.heap.brk ≤ range.start ∧
        range.start + range.size ≤ client'.heap.brk := by
    intro range hrange
    obtain ⟨request, hrequest, hgranted, rfl⟩ := mem_grantedRanges.mp hrange
    rcases heffect.fresh request hrequest with hold | ⟨hstart, hend⟩
    · rw [hstarts.log] at hold
      cases hold
    · exact ⟨hbrk₀ ▸ hstart, hend hgranted⟩
  refine ⟨⟨tenancy', hrefines'⟩, fun range hrange => ?_, fun range hrange =>
    (hshared.foreign_le range hrange).trans hbrk, hshared.foreign_pos,
    fun range hrange other hother => ?_, fun hbase y hlow hhigh => ?_⟩
  · rcases List.mem_append.mp hrange with hmem | hmem
    · exact (hshared.own_le range hmem).trans hbrk
    · exact (hgranted range hmem).2
  · rcases List.mem_append.mp hrange with hmem | hmem
    · exact hshared.apart range hmem other hother
    · exact Or.inr ((hshared.foreign_le other hother).trans (hgranted range hmem).1)
  · rw [heffect.base] at hbase hlow
    -- A byte that the call has added to the heap comes from one of its requests, and that
    -- request was made with the break at max_ptr.
    by_cases hnew : heap₀.maxPtr ≤ y
    · obtain ⟨request, hrequest, hgranted, hfrom, hto⟩ := heffect.grown y hnew hhigh
      refine ⟨request.range, List.mem_append_right _ (mem_grantedRanges.mpr
        ⟨request, hrequest, hgranted, rfl⟩), ?_⟩
      have hat := hbreak request hrequest
      simp only [Request.range, Block.Contains]
      omega
    · rcases hstarts with rfl | ⟨-, rfl⟩
      · obtain ⟨range, hrange, hcontains⟩ :=
          hshared.covered hbase y hlow (not_le.mp hnew)
        exact ⟨range, List.mem_append_left _ hrange, hcontains⟩
      · exact absurd hlow (fun hle => hnew hle)

/-! ## Runs -/

theorem shared_act {action : Action} (hshared : Shared platform process)
    (hact : act platform process action = some next)
    (hundisturbed : Undisturbed process action next) : Shared platform next := by
  cases action with
  | call op =>
      obtain ⟨client', hstep, hnext⟩ := Option.bind_eq_some_iff.mp hact
      obtain rfl := Option.some.inj hnext
      exact hshared.call hstep hundisturbed.1 hundisturbed.2
  | sbrk bytes =>
      rw [act] at hact
      split at hact
      · rename_i hcond
        obtain rfl := Option.some.inj hact
        exact hshared.sbrk hcond.1 hcond.2
      · cases hact

/-- The block of a live pointer lies between `base_ptr` and `max_ptr`. -/
theorem Shared.coexists (hshared : Shared platform process) :
    Coexists platform process := by
  obtain ⟨tenancy, hrefines⟩ := hshared.refines
  -- Every byte of a live block is below max_ptr and so in a range of the allocator.
  have hinside : ∀ live ∈ process.client.live,
      0 < ((allocator2 platform).block live).size ∧
      ∀ y, ((allocator2 platform).block live).Contains y →
        ∃ range ∈ process.own, range.Contains y := by
    intro live hlive
    cases harena : tenancy.arena with
    | none =>
        obtain ⟨-, hnil, -⟩ := hrefines.fresh harena
        rw [hnil] at hlive
        cases hlive
    | some arena =>
        have hrunning := hrefines.running arena harena
        obtain ⟨index, hindex⟩ := List.mem_iff_getElem?.mp hlive
        obtain ⟨n, -, -, howns⟩ := hrunning.exists_owns hindex
        have hbase := hrunning.sim.mapped.base_ne_zero
        have htop := hrunning.sim.top
        have hheld := howns.held
        have hstart := howns.blockStart
        have hbytes := howns.blockBytes
        refine ⟨?_, fun y hy => ?_⟩
        · change 0 < (allocator2 platform).blockBytes live
          rw [show (allocator2 platform).blockBytes live = _ from hbytes]
          positivity
        · have hlow : (bookkeeping platform).allocator.blockStart live ≤ y := hy.1
          have hhigh : y < (bookkeeping platform).allocator.blockStart live +
              (bookkeeping platform).allocator.blockBytes live := hy.2
          rw [hstart] at hlow hhigh
          rw [hbytes] at hhigh
          unfold nodeAddr at hlow hhigh
          exact hshared.covered hbase y (by omega) (by omega)
  refine ⟨fun live hlive => (hinside live hlive).2, fun live hlive range hrange => ?_⟩
  obtain ⟨hsize, hcontained⟩ := hinside live hlive
  refine apart_of_disjoint hsize (hshared.foreign_pos range hrange) fun y hy hother => ?_
  obtain ⟨own, hown, hy'⟩ := hcontained y hy
  have hapart := hshared.apart own hown range hrange
  simp only [Block.Apart, Block.Contains] at *
  omega

/-- In a run in which `update_max_ptr` always finds the break at `max_ptr`, and every
step finds the root counted, the live blocks lie in the ranges that were granted to the
allocator, whatever the other code asks for in between, and every legal call is carried
out. -/
theorem blocks_in_granted_ranges (platform : Platform) (actions : List Action)
    (process : Process)
    (hrun : GuardedRun (act platform) Undisturbed platform.process actions process) :
    Coexists platform process ∧
      ∀ op : Op, op.Legal (allocator2 platform) process.client →
        op.AtMost (2 ^ 30) → RootCounted process.client op →
        ∃ next, act platform process (.call op) = some next := by
  have hshared : Shared platform process :=
    hrun.invariant (fun _ _ _ hshared => shared_act hshared) Shared.initial
  refine ⟨hshared.coexists, fun op hlegal hbound hcounted => ?_⟩
  obtain ⟨tenancy, hrefines⟩ := hshared.refines
  have hgrant : Arena.granting 0 = true := rfl
  have hhighest : ∀ request, op = .malloc request → 1 ≤ bucketOf request := by
    rintro request rfl
    exact one_le_bucketOf hbound
  obtain ⟨client', hstep⟩ := hrefines.progress (fun _ => hgrant) hlegal
    (fun request hrequest _ _ => hhighest request hrequest) (hcounted.allows hrefines)
  exact ⟨_, Option.bind_eq_some_iff.mpr ⟨client', hstep, rfl⟩⟩

/-- A buffer is obtained before the first call and another one when the heap need not
grow any more. -/
def undisturbedActions : List Action :=
  [.sbrk 4096, .call (.malloc 16), .call (.malloc 100), .call (.free 1), .sbrk 1024,
    .call (.malloc 64)]

theorem undisturbedActions_run : (run (fun process action =>
    (act samplePlatform process action).filter
      fun next => Undisturbed process action next) samplePlatform.process
        undisturbedActions).isSome = true := by
  decide +kernel

def undisturbedProcess : Process := Option.get _ undisturbedActions_run

theorem blocks_in_granted_ranges_sample :
    undisturbedProcess.client.live = [⟨0x101000, 64⟩, ⟨0x101080, 100⟩] ∧
      undisturbedProcess.foreign = [⟨0x100000, 4096⟩, ⟨0x101100, 1024⟩] ∧
      Coexists samplePlatform undisturbedProcess :=
  ⟨by decide +kernel, by decide +kernel,
    (blocks_in_granted_ranges samplePlatform undisturbedActions undisturbedProcess
      (GuardedRun.of_checked (Option.some_get undisturbedActions_run).symm)).1⟩

/-- A buffer is obtained between two blocks. -/
def disturbedActions : List Action := [.call (.malloc 16), .sbrk 4096, .call (.malloc 16)]

theorem disturbedActions_run :
    (run (act samplePlatform) samplePlatform.process disturbedActions).isSome = true := by
  decide +kernel

def disturbedProcess : Process := Option.get _ disturbedActions_run

/-- The second block is taken from the buffer of the other code. -/
theorem block_in_foreign_range :
    run (act samplePlatform) samplePlatform.process disturbedActions =
        some disturbedProcess ∧
      disturbedProcess.foreign = [⟨0x100010, 4096⟩] ∧
      ¬ Coexists samplePlatform disturbedProcess := by
  have hforeign : disturbedProcess.foreign = [⟨0x100010, 4096⟩] := by decide +kernel
  have hlive : ⟨0x100010, 16⟩ ∈ disturbedProcess.client.live := by decide +kernel
  refine ⟨(Option.some_get disturbedActions_run).symm, hforeign, fun hcoexists => ?_⟩
  have hapart := hcoexists.apart _ hlive ⟨0x100010, 4096⟩ (by rw [hforeign]; simp)
  revert hapart
  decide +kernel

end Malloc2
end BuddyAlloc
end OsStuff
