import OsStuff.BuddyAlloc.Malloc2Runs
import OsStuff.BuddyAlloc.PrintedTree

/-!
# What `main` prints

As long as a block stays live, the lines without children of the printed tree are
the live and the free blocks, unless a live block has the smallest size.
-/

namespace OsStuff
namespace BuddyAlloc
namespace Malloc2

open Library Library.DyadicTree

variable {platform : Platform} {grant : Nat → Bool} {heap : Heap}
  {client next : Client} {arena : Arena} {marked : Set Nat} {nodes : List Nat}
  {lives : List Live} {l p request : Nat}

/-- The printed tree has one line without children for each live block and for
each free block, and their sizes are that of the whole tree. -/
def ShowsBlocks (platform : Platform) (client : Client) : Prop :=
  ∃ lines, buddyDebugPrintTree2 client.heap = some lines ∧
    ((childless lines).map Line.entry).Perm
      (client.live.map (fun live =>
          (Word.used, (allocator2 platform).blockBytes live)) ++
        (client.heap.buckets.flatMap (platform.freeBlocks client.heap)).map
          fun block => (Word.unused, block.size)) ∧
    ((childless lines).map Line.size).sum =
      2 ^ (maxAllocLog2 - client.heap.bucketLimit)

/-! ## The printed blocks -/

/-- The entries of the leaves of the tree are those of the blocks. -/
theorem pieces_entries
    (hrunning : Running (rootedBookkeeping platform) heap lives arena nodes) :
    (pieces nodes heap.buckets arena).map (leafEntry { n | n ∈ nodes }) =
      lives.map (fun live =>
          (Word.used, (allocator2 platform).blockBytes live)) ++
        (heap.buckets.flatMap (platform.freeBlocks heap)).map
          fun block => (Word.unused, block.size) := by
  have hsim := hrunning.sim
  have hblocks : lives.map (allocator2 platform).block =
      nodes.map (nodeBlock heap.basePtr) := hrunning.blocks
  unfold pieces
  rw [List.map_append]
  congr 1
  · calc nodes.map (leafEntry { n | n ∈ nodes })
        = (nodes.map (nodeBlock heap.basePtr)).map
            fun block => (Word.used, block.size) := by
          rw [List.map_map]
          refine List.map_congr_left fun n hn => ?_
          have hmem : n ∈ { n | n ∈ nodes } := hn
          rw [leafEntry, if_pos hmem]
          rfl
      _ = _ := by
          rw [← hblocks, List.map_map]
          rfl
  · rw [List.map_flatMap, List.map_flatMap]
    refine List.flatMap_congr fun b hb => ?_
    rw [hsim.freeBlocks hb, List.map_map]
    refine List.map_congr_left fun n hn => ?_
    have hvacant := ((hsim.shape.free_iff b n).mp hn).1
    rw [leafEntry, if_neg hvacant.not_mem]
    rfl

/-- The walk of the printer starts at the root. -/
theorem walk_root
    (hrunning : Running (rootedBookkeeping platform) heap lives arena nodes)
    (hlive : lives ≠ []) :
    Walk heap arena { n | n ∈ nodes } arena.limit (2 ^ arena.limit) where
  rooted := hrunning.tracked
  shape := hrunning.sim.shape
  first hone := by
    obtain ⟨index, hindex, hnode⟩ := List.mem_iff_getElem.mp hone
    obtain ⟨live, -, howns⟩ := forall₂_getElem? hrunning.owns.flip
      (List.getElem?_eq_some_iff.mpr ⟨hindex, hnode⟩)
    have hhighest : 1 ≤ bucketOf live.request := howns.highest
    have hlevel : AtLevel (bucketOf live.request) 1 := howns.level
    rw [hlevel.unique atLevel_root] at hhighest
    omega
  taken hempty := hlive (forall₂_eq_nil_of_empty hrunning.owns hempty)
  shown := shown_root hrunning.sim.shape.marking
  level := atLevel_two_pow _
  deep := hrunning.sim.shape.limit_lt

/-- The printer starts at the root. -/
theorem buddyDebugPrintTree2_eq (hsim : Sim platform heap arena marked) :
    buddyDebugPrintTree2 heap =
      debugTreeRec heap (27 - arena.limit + 1) (2 ^ arena.limit - 1) [] := by
  have hlt := hsim.shape.limit_lt
  have hroot := hsim.root_index
  have hbuckets : bucketCount - heap.bucketLimit = 27 - arena.limit + 1 := by
    rw [hsim.limit]
    simp only [bucketCount, maxAllocLog2, minAllocLog2]
    omega
  have hle : heap.bucketLimit ≤ bucketCount := by omega
  unfold buddyDebugPrintTree2
  rw [hroot, hbuckets]
  exact if_pos hle

/-- A live block has a node, which is on the last level when the request is at
most the smallest size. -/
theorem small_iff
    (hrunning : Running (rootedBookkeeping platform) heap lives arena nodes) :
    (∀ live ∈ lives, minAlloc < live.request) ↔ ∀ n ∈ nodes, n < 2 ^ 27 := by
  have howns := hrunning.owns
  clear hrunning
  induction howns with
  | nil => simp
  | @cons live n lives nodes hhead _ ih =>
      have hlevel : AtLevel (bucketOf live.request) n := hhead.level
      have htotal : live.request ≤ maxAlloc := hhead.total_le
      have hsmall : minAlloc < live.request ↔ n < 2 ^ 27 := by
        have hlt := bucketOf_lt live.request
        rw [show minAlloc = 2 ^ (31 - 27) by rfl,
          size_lt_iff (by simpa using htotal) (by simp)]
        constructor
        · intro hbucket
          exact hlevel.2.trans_le (Nat.pow_le_pow_right (by omega) (by omega))
        · intro hnode
          by_contra hlast
          have hpow : 2 ^ 27 ≤ 2 ^ bucketOf live.request :=
            Nat.pow_le_pow_right (by omega) (by omega)
          have hlow := hlevel.1
          omega
      rw [List.forall_mem_cons, List.forall_mem_cons, hsmall]
      exact and_congr_right fun _ => ih

/-- The printer shows the blocks of a running allocator unless one of the live
blocks has the smallest size. -/
theorem showsBlocks_iff
    (hrunning : Running (rootedBookkeeping platform) client.heap client.live
      arena nodes)
    (hlive : client.live ≠ []) :
    ShowsBlocks platform client ↔
      ∀ live ∈ client.live, minAlloc < live.request := by
  have hsim := hrunning.sim
  have hwalk := walk_root hrunning hlive
  have hbuckets : arena.limit + (27 - arena.limit) = 27 := by
    have hlt := hsim.shape.limit_lt
    omega
  rw [small_iff hrunning]
  unfold ShowsBlocks
  rw [buddyDebugPrintTree2_eq hsim, hsim.limit]
  constructor
  · rintro ⟨lines, hlines, -⟩ n hn
    by_contra hlast
    rw [hwalk.prints_none hbuckets hn (not_lt.mp hlast)
      (hsim.shape.marking.below n hn) []] at hlines
    exact absurd hlines (by simp)
  · intro hlarge
    obtain ⟨lines, hlines, hshows⟩ := hwalk.prints hbuckets hlarge []
    obtain ⟨leaves, hnodup, hmem, hentries⟩ := hshows.leaves
    refine ⟨lines, hlines, ?_, hshows.sizes⟩
    rw [hentries, ← pieces_entries hrunning]
    refine List.Perm.map _ ((List.perm_ext_iff_of_nodup hnodup
      (pieces_nodup hsim hrunning.nodup)).mpr fun k => ?_)
    rw [hmem, mem_pieces hsim]
    constructor
    · exact fun h => h.1
    · rintro (hk | hvacant)
      · exact ⟨Or.inl hk, hsim.shape.marking.below k hk⟩
      · exact ⟨Or.inr hvacant, hvacant.below⟩

/-! ## Runs of `main` -/

/-- Requests are at most half of the largest block, and only pointers to live
blocks and `NULL` are freed. -/
def Command.Fair (session : Session) : Command → Prop
  | .a allocSize => allocSize ≤ 2 ^ 30
  | .f freeI => ∀ p, session.alloced[freeI]? = some p →
      p = 0 ∨ ∃ live ∈ session.client.live, live.pointer = p

/-- A fair command that does not free the last live block. -/
def KeepsLive (session : Session) (command : Command) (next : Session) : Prop :=
  command.Fair session ∧ (session.client.live ≠ [] → next.client.live ≠ [])

instance (session : Session) :
    (command : Command) → Decidable (command.Fair session)
  | .a _ => inferInstanceAs (Decidable (_ ≤ _))
  | .f freeI =>
      match h : session.alloced[freeI]? with
      | none => isTrue fun p hp => absurd (h.symm.trans hp) (by simp)
      | some p =>
          decidable_of_iff
            (p = 0 ∨ ∃ live ∈ session.client.live, live.pointer = p)
            (by simp [Command.Fair, h])

instance (session : Session) (command : Command) (next : Session) :
    Decidable (KeepsLive session command next) :=
  inferInstanceAs (Decidable (_ ∧ _))

theorem rooted_liftsBare (platform : Platform) :
    (rootedBookkeeping platform).LiftsBare where
  tracked limit hlimit :=
    ⟨Counts.initial.lift hlimit, fun _ => count_zero 1,
      FirstCounts.of_empty (count_zero 1)⟩
  round grant heap arena l hbare hlimit := by
    have hlt := hbare.sim.shape.limit_lt
    have hbound : 2 ^ arena.limit < 2 ^ 28 :=
      Nat.pow_lt_pow_right (by omega) hlt
    have hstatus := getNodeStatus_eq heap (Nat.one_le_two_pow (n := arena.limit))
      hbound
    rw [hbare.status, count_zero] at hstatus
    obtain ⟨heap', hlift, hbare'⟩ := hbare.lift hlimit
    exact ⟨heap', growRound_lifted hbare.sim.root_index hstatus hlift, hbare'⟩

/-- A step of the client that does not free the last live block. -/
theorem reached_rooted {op : Op}
    (hreached : Reached (rootedBookkeeping platform) client)
    (hstep : step (allocator2 platform) grant client op = some next)
    (hsmall : op.AtMost (2 ^ 30))
    (hstays : client.live ≠ [] → next.live ≠ []) :
    Reached (rootedBookkeeping platform) next := by
  have hrecordable : Recordable (rootedBookkeeping platform) grant client op := by
    apply Recordable.of_highest
    rintro request rfl
    exact one_le_bucketOf hsmall
  have hallows : ∀ tenancy, Refines (rootedBookkeeping platform) client tenancy →
      (rootedBookkeeping platform).Allows client tenancy op := by
    intro tenancy hrefines
    refine Bookkeeping.allows_of_freeable fun index arena hop harena hempty => ?_
    subst hop
    obtain ⟨live, hindex, hfreed⟩ := Option.bind_eq_some_iff.mp hstep
    obtain ⟨heap, -, hnext⟩ := Option.bind_eq_some_iff.mp hfreed
    obtain rfl := Option.some.inj hnext
    have hlive : client.live ≠ [] := by
      intro hnil
      rw [hnil] at hindex
      exact absurd hindex (by simp)
    have howns := forall₂_eraseIdx (hrefines.running arena harena).owns index
    exact hstays hlive (forall₂_eq_nil_of_empty howns hempty)
  obtain ⟨next', hstep', hreached'⟩ := hreached.step (rooted_liftsBare platform)
    (Op.legal_of_step hstep) hrecordable hallows
  obtain rfl := Option.some.inj (hstep'.symm.trans hstep)
  exact hreached'

/-- `free_2` does nothing with `NULL`. -/
theorem reached_null (hreached : Reached (rootedBookkeeping platform) client) :
    Reached (rootedBookkeeping platform)
      ⟨client.heap.clearLog, client.live, 0⟩ := by
  rcases hreached with ⟨tenancy, hrefines⟩ | ⟨hlive, arena, hbare⟩
  · exact Or.inl ⟨_, hrefines.idle⟩
  · exact Or.inr ⟨hlive, arena, hbare.clearLog⟩

/-- A round of `main` is a step of the client. -/
theorem reached_command {session next : Session} {command : Command}
    (hreached : Reached (rootedBookkeeping platform) session.client)
    (hcommand : session.command platform grant command = some next)
    (hkeeps : KeepsLive session command next) :
    Reached (rootedBookkeeping platform) next.client := by
  obtain ⟨hfair, hstays⟩ := hkeeps
  cases command with
  | a allocSize =>
      simp only [Session.command] at hcommand
      split at hcommand
      · obtain ⟨client, hstep, hnext⟩ := Option.bind_eq_some_iff.mp hcommand
        obtain rfl := Option.some.inj hnext
        exact reached_rooted hreached hstep hfair hstays
      · exact absurd hcommand (by simp)
  | f freeI =>
      obtain ⟨p, hp, hcommand⟩ := Option.bind_eq_some_iff.mp hcommand
      obtain ⟨heap, hfree, hnext⟩ := Option.bind_eq_some_iff.mp hcommand
      obtain rfl := Option.some.inj hnext
      -- free(NULL) does nothing; every other pointer of the program is the first live one
      -- with this address.
      by_cases hnull : p = 0
      · simp only [free2, if_pos hnull, Option.some.injEq] at hfree
        simp only [dropLive, if_pos hnull, ← hfree]
        exact reached_null hreached
      · obtain ⟨live, hmem, hpointer⟩ := (hfair p hp).resolve_left hnull
        simp only [dropLive, if_neg hnull] at hstays ⊢
        have hlt : session.client.live.findIdx (fun live => live.pointer == p) <
            session.client.live.length :=
          List.findIdx_lt_length_of_exists ⟨live, hmem, by simpa using hpointer⟩
        have hfound := List.findIdx_getElem (w := hlt)
        generalize session.client.live.findIdx (fun live => live.pointer == p) =
          index at *
        have hstep : step (allocator2 platform) grant session.client
            (.free index) =
              some ⟨heap, session.client.live.eraseIdx index, 0⟩ := by
          rw [beq_iff_eq] at hfound
          simp only [step, List.getElem?_eq_getElem hlt, Option.bind_eq_bind,
            Option.bind_some, hfound]
          exact Option.bind_eq_some_iff.mpr ⟨heap, hfree, rfl⟩
        exact reached_rooted hreached hstep trivial hstays

/-- The tree grows to its full size, a block is given back, and a request that
finds no block is followed by a call with `NULL`. -/
def printedCommands : List Command :=
  [.a 100, .a (2 ^ 30), .a 40, .f 2, .a (2 ^ 30), .f 3]

theorem printedCommands_run : (run (fun session command =>
    (Session.command samplePlatform Arena.granting session command).filter
      fun next => KeepsLive session command next)
    (Session.initial samplePlatform) printedCommands).isSome = true := by
  decide +kernel

def printedSession : Session := Option.get _ printedCommands_run

theorem smallCommand_run : (run (fun session command =>
    (Session.command samplePlatform Arena.granting session command).filter
      fun next => KeepsLive session command next)
    (Session.initial samplePlatform) [.a 16]).isSome = true := by
  decide +kernel

def smallSession : Session := Option.get _ smallCommand_run

end Malloc2
end BuddyAlloc
end OsStuff
