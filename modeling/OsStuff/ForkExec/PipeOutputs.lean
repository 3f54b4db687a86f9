import OsStuff.ForkExec.Pipe

/-!
# What the parent reads

`Toward order` says of a state that the children can go on so that they write in
this order and no others write.  Every order that the pipe can hold can be
reached (`Toward.completes`), so that `outputs_iff` says exactly what the parent
can read.  `finishes_iff` says when the programs cannot get stuck: the parent
reads only after its children have ended.
-/

namespace OsStuff
namespace ForkExec

open Library Library.Processes

variable {program : Program} {msgs : List (List UInt8)} {capacity : Nat}
  {state next : State} {event : Event} {events : List Event} {i : Nat}
  {child after : Child} {order : List Nat}

/-! ## How far the programs are from their end -/

def ChildPc.rank : ChildPc → Nat
  | .started => 4
  | .sleeping => 3
  | .asking => 2
  | .writing => 1
  | .exited => 0

def Parent.rank (total : Nat) : Parent → Nat
  | .forking => total + 3
  | .waiting ended => total - ended + 2
  | .reading => 1
  | .returned => 0

def State.remaining (total : Nat) (state : State) : Nat :=
  5 * (total - state.children.length) +
    (state.children.map fun child => child.pc.rank).sum + state.parent.rank total

theorem remaining_set {total : Nat} (hi : state.children[i]? = some child)
    (hlt : after.pc.rank < child.pc.rank) :
    (state.set i after).remaining total < state.remaining total := by
  have hsum := @sum_map_set _ _ _ _ after (fun child : Child => child.pc.rank) hi
  simp only [State.remaining, set_children, set_parent, List.length_set]
  omega

theorem remaining_parent {total : Nat} {parent : Parent} {pipe strBuff : List UInt8}
    (hlt : parent.rank total < state.parent.rank total) :
    ({ state with parent := parent, pipe := pipe, strBuff := strBuff } : State).remaining
      total < state.remaining total := by
  simp only [State.remaining]
  omega

/-! ## Heading for an order -/

/-- A child that can still write if it is to, and only then. -/
def Child.Heading (wanted done : Prop) (child : Child) : Prop :=
  match child.pc with
  | .started | .sleeping => True
  | .asking => child.sigStatus ≠ 0 ↔ wanted
  | .writing => wanted
  | .exited => wanted → done

structure Toward (program : Program) (msgs : List (List UInt8)) (capacity : Nat)
    (order : List Nat) (state : State) : Prop where
  inv : Inv program msgs capacity state
  written : state.written <+: order
  nodup : order.Nodup
  range : ∀ i ∈ order, i < msgs.length
  all : program = .pipe → ∀ i < msgs.length, i ∈ order
  heading : ∀ (i : Nat) (child : Child), state.children[i]? = some child →
    child.Heading (i ∈ order) (i ∈ state.written)

theorem Toward.initial (hnodup : order.Nodup) (hrange : ∀ i ∈ order, i < msgs.length)
    (hall : program = .pipe → ∀ i < msgs.length, i ∈ order) :
    Toward program msgs capacity order .initial where
  inv := Inv.initial
  written := List.nil_prefix
  nodup := hnodup
  range := hrange
  all := hall
  heading := by simp [State.initial]

theorem Toward.moves (htoward : Toward program msgs capacity order state)
    (hi : state.children[i]? = some child) (hmoves : Moves program child after)
    (hheading : after.Heading (i ∈ order) (i ∈ state.written)) :
    Toward program msgs capacity order (state.set i after) :=
  { htoward with
    inv := htoward.inv.moves hi hmoves
    heading := by
      intro j other hother
      rcases set_cases hother with ⟨rfl, rfl⟩ | ⟨_, hother⟩
      · exact hheading
      · exact htoward.heading j other hother }

theorem Toward.write (htoward : Toward program msgs capacity order state)
    (hi : state.children[i]? = some child) (hwriting : child.pc = .writing)
    (hnext : state.written ++ [i] <+: order)
    (hroom : state.pipe.length + (msg msgs i).length ≤ capacity) :
    Toward program msgs capacity order (state.write msgs i child) :=
  { htoward with
    inv := htoward.inv.write hi hwriting hroom
    written := hnext
    heading := by
      intro j other hother
      rcases set_cases hother with ⟨rfl, rfl⟩ | ⟨_, hother⟩
      · exact fun _ => List.mem_append.mpr (Or.inr (List.mem_singleton.mpr rfl))
      · have hheading := htoward.heading j other hother
        unfold Child.Heading at hheading ⊢
        cases hpc : other.pc with
        | exited =>
            simp only [hpc] at hheading
            exact fun hwanted => List.mem_append.mpr (Or.inl (hheading hwanted))
        | started | sleeping => trivial
        | asking | writing => simpa only [hpc] using hheading }

/-- The parent goes on without forking. -/
theorem Toward.parent (htoward : Toward program msgs capacity order state)
    (hstep : step program msgs capacity state .parent = some next)
    (hwritten : next.written = state.written) (hchildren : next.children = state.children) :
    Toward program msgs capacity order next :=
  { htoward with
    inv := htoward.inv.step hstep
    written := hwritten ▸ htoward.written
    heading := by
      rw [hwritten, hchildren]
      exact htoward.heading }

theorem Toward.fork (htoward : Toward program msgs capacity order state)
    (hforking : state.parent = .forking) (hmore : state.children.length < msgs.length) :
    Toward program msgs capacity order
      { state with
        parent := .forking
        children := state.children ++ [⟨.started, 0⟩] } :=
  { htoward with
    inv := htoward.inv.fork hforking hmore
    heading := by
      intro j other hother
      rw [List.getElem?_append] at hother
      split at hother
      · exact htoward.heading j other hother
      · rw [List.mem_singleton.mp (List.mem_of_getElem? hother)]
        trivial }

/-! ## Up to the first `write` -/

/-- All children are forked and at their `write`, or have ended. -/
def State.Prepared (state : State) : Prop :=
  state.parent ≠ .forking ∧ ∀ (i : Nat) (child : Child),
    state.children[i]? = some child → child.pc = .writing ∨ child.pc = .exited

theorem Inv.forked (hinv : Inv program msgs capacity state)
    (hforked : state.parent ≠ .forking) : state.children.length = msgs.length := by
  have hcounted := hinv.counted
  unfold Counted at hcounted
  cases hparent : state.parent with
  | forking => exact absurd hparent hforked
  | waiting ended | reading | returned =>
      simp only [hparent] at hcounted
      exact hcounted.1

theorem Inv.length_le (hinv : Inv program msgs capacity state) :
    state.children.length ≤ msgs.length := by
  by_cases hforking : state.parent = .forking
  · have hcounted := hinv.counted
    rw [Counted, hforking] at hcounted
    exact hcounted
  · exact (hinv.forked hforking).le

theorem step_advance (hi : state.children[i]? = some child)
    (hadvance : child.advance program = some after) :
    step program msgs capacity state (.child i) = some (state.set i after) := by
  have hwriting : child.pc ≠ .writing := by
    intro hpc
    simp [Child.advance, hpc] at hadvance
  simp only [step, hi, Option.bind_some, hwriting, if_false, hadvance, Option.map_some]

/-- A child that has not come to its `write` can come closer to it. -/
theorem Toward.advance (htoward : Toward program msgs capacity order state)
    (hi : state.children[i]? = some child) (hwriting : child.pc ≠ .writing)
    (hexited : child.pc ≠ .exited) :
    ∃ event after, step program msgs capacity state event = some (state.set i after) ∧
      Toward program msgs capacity order (state.set i after) ∧
      after.pc.rank < child.pc.rank := by
  have hsound := htoward.inv.sound i child hi
  have hheading := htoward.heading i child hi
  have hlt := (lt_length hi).trans_le htoward.inv.length_le
  cases hpc : child.pc with
  | started =>
      cases hprogram : program with
      | pipe =>
          have hadvance : child.advance program = some ⟨.writing, child.sigStatus⟩ := by
            simp [Child.advance, hpc, hprogram]
          subst hprogram
          exact ⟨.child i, _, step_advance hi hadvance,
            htoward.moves hi (.advance hadvance) (htoward.all rfl i hlt), by simp [ChildPc.rank]⟩
      | signal =>
          have hadvance : child.advance program = some ⟨.sleeping, child.sigStatus⟩ := by
            simp [Child.advance, hpc, hprogram]
          subst hprogram
          exact ⟨.child i, _, step_advance hi hadvance,
            htoward.moves hi (.advance hadvance) trivial, by simp [ChildPc.rank]⟩
  | sleeping =>
      rw [Child.Sound, hpc] at hsound
      obtain ⟨hsignal, hzero⟩ := hsound
      by_cases hwanted : i ∈ order
      · -- A signal makes it write.
        have hinterrupt : child.interrupt = some ⟨.asking, child.sigStatus + 1⟩ := by
          simp [Child.interrupt, hpc]
        refine ⟨.sigint i, _, ?_,
          htoward.moves hi (.interrupt hsignal hinterrupt) ?_, by simp [ChildPc.rank]⟩
        · simp only [step, hi, Option.bind_some, hsignal, hinterrupt, Option.map_some]
        · show child.sigStatus + 1 ≠ 0 ↔ i ∈ order
          simp [hwanted]
      · have hadvance : child.advance program = some ⟨.asking, child.sigStatus⟩ := by
          simp [Child.advance, hpc]
        refine ⟨.child i, _, step_advance hi hadvance,
          htoward.moves hi (.advance hadvance) ?_, by simp [ChildPc.rank]⟩
        show child.sigStatus ≠ 0 ↔ i ∈ order
        simp [hwanted, hzero]
  | asking =>
      rw [Child.Heading, hpc] at hheading
      by_cases hstatus : child.sigStatus = 0
      · have hadvance : child.advance program = some ⟨.exited, child.sigStatus⟩ := by
          simp [Child.advance, hpc, hstatus]
        refine ⟨.child i, _, step_advance hi hadvance,
          htoward.moves hi (.advance hadvance) ?_, by simp [ChildPc.rank]⟩
        exact fun hwanted => absurd hstatus (hheading.mpr hwanted)
      · have hadvance : child.advance program = some ⟨.writing, child.sigStatus⟩ := by
          simp [Child.advance, hpc, hstatus]
        exact ⟨.child i, _, step_advance hi hadvance,
          htoward.moves hi (.advance hadvance) (hheading.mp hstatus), by simp [ChildPc.rank]⟩
  | writing => exact absurd hpc hwriting
  | exited => exact absurd hpc hexited

/-- Some step brings the state closer to the end. -/
def Toward.Progress (program : Program) (msgs : List (List UInt8)) (capacity : Nat)
    (order : List Nat) (state : State) : Prop :=
  ∃ event next, step program msgs capacity state event = some next ∧
    Toward program msgs capacity order next ∧
    next.remaining msgs.length < state.remaining msgs.length

theorem Toward.prepare (htoward : Toward program msgs capacity order state)
    (hunprepared : ¬ state.Prepared) :
    Toward.Progress program msgs capacity order state := by
  by_cases hforking : state.parent = .forking
  · by_cases hmore : state.children.length < msgs.length
    · refine ⟨.parent, _, ?_, htoward.fork hforking hmore, ?_⟩
      · simp [step, hforking, hmore]
      · simp only [State.remaining, hforking, List.length_append, List.map_append,
          List.sum_append, List.length_singleton, List.map_singleton, List.sum_singleton,
          ChildPc.rank]
        omega
    · have hstep : step program msgs capacity state .parent =
          some { state with parent := .waiting 0 } := by
        simp [step, hforking, hmore]
      refine ⟨.parent, _, hstep, htoward.parent hstep rfl rfl, ?_⟩
      simp only [State.remaining, hforking, Parent.rank]
      omega
  · unfold State.Prepared at hunprepared
    push Not at hunprepared
    obtain ⟨i, child, hi, hwriting, hexited⟩ := hunprepared hforking
    obtain ⟨event, after, hstep, hnext, hlt⟩ := htoward.advance hi hwriting hexited
    exact ⟨event, _, hstep, hnext, remaining_set hi hlt⟩

/-! ## The writes in their order -/

theorem writing_room (hi : state.children[i]? = some child) (hwriting : child.pc = .writing)
    (hroom : state.pipe.length + (msg msgs i).length ≤ capacity) :
    step program msgs capacity state (.child i) = some (state.write msgs i child) := by
  simp only [step, hi, Option.bind_some, hwriting, if_true, hroom]
  rfl

/-- A child that waits for its turn is followed by one whose turn it is. -/
theorem Toward.turn (htoward : Toward program msgs capacity order state)
    (hprepared : state.Prepared) (hi : state.children[i]? = some child)
    (hwriting : child.pc = .writing) :
    ∃ j other, state.children[j]? = some other ∧ other.pc = .writing ∧
      state.written ++ [j] <+: order := by
  have hmem : i ∈ order := by
    have hheading := htoward.heading i child hi
    rwa [Child.Heading, hwriting] at hheading
  have hunwritten : i ∉ state.written := by
    intro hwritten
    obtain ⟨same, hsame, hexited⟩ := htoward.inv.written i hwritten
    rw [hi, Option.some.injEq] at hsame
    rw [← hsame, hwriting] at hexited
    exact absurd hexited (by simp)
  obtain ⟨rest, horder⟩ := htoward.written
  cases rest with
  | nil =>
      rw [List.append_nil] at horder
      exact absurd (horder ▸ hmem) hunwritten
  | cons j rest =>
      have hj : j ∈ order := horder ▸ List.mem_append.mpr (Or.inr List.mem_cons_self)
      have hlt : j < state.children.length := by
        rw [htoward.inv.forked hprepared.1]
        exact htoward.range j hj
      have hother : state.children[j]? = some state.children[j] :=
        List.getElem?_eq_getElem hlt
      refine ⟨j, _, hother, ?_, rest, by rw [List.append_assoc]; exact horder⟩
      rcases hprepared.2 j _ hother with hpc | hpc
      · exact hpc
      · -- It has not ended, or it would have written twice.
        have hheading := htoward.heading j _ hother
        rw [Child.Heading, hpc] at hheading
        have hnodup := htoward.nodup
        rw [← horder] at hnodup
        exact absurd rfl ((List.nodup_append.mp hnodup).2.2 j (hheading hj) j
          List.mem_cons_self)

theorem Toward.finish (htoward : Toward program msgs capacity order state)
    (hprepared : state.Prepared) (hreturned : state.parent ≠ .returned)
    (hfits : (order.flatMap (msg msgs)).length ≤ capacity) :
    Toward.Progress program msgs capacity order state := by
  by_cases hwriting : ∃ (i : Nat) (child : Child),
      state.children[i]? = some child ∧ child.pc = .writing
  · obtain ⟨i, child, hi, hpc⟩ := hwriting
    obtain ⟨j, other, hj, hother, hnext⟩ := htoward.turn hprepared hi hpc
    have hroom : state.pipe.length + (msg msgs j).length ≤ capacity := by
      have hle := (hnext.flatMap (msg msgs)).length_le
      rw [List.flatMap_append, List.length_append, List.flatMap_singleton] at hle
      rw [htoward.inv.pipe hreturned]
      exact hle.trans hfits
    refine ⟨.child j, _, writing_room hj hother hroom, htoward.write hj hother hnext hroom, ?_⟩
    exact @remaining_set _ _ _ { other with pc := .exited } _ hj
      (by simp [hother, ChildPc.rank])
  · have hexited : ∀ child ∈ state.children, child.exited = true := by
      intro child hmem
      obtain ⟨i, hi⟩ := List.mem_iff_getElem?.mp hmem
      exact exited_iff.mpr ((hprepared.2 i child hi).resolve_left
        fun hpc => hwriting ⟨i, child, hi, hpc⟩)
    have hcount : state.children.countP Child.exited = msgs.length := by
      rw [List.countP_eq_length.mpr hexited, htoward.inv.forked hprepared.1]
    have hcounted := htoward.inv.counted
    unfold Counted at hcounted
    cases hparent : state.parent with
    | forking => exact absurd hparent hprepared.1
    | waiting ended =>
        by_cases hmore : ended < msgs.length
        · have hstep : step program msgs capacity state .parent =
              some { state with parent := .waiting (ended + 1) } := by
            simp only [step, hparent, hmore, if_true, hcount]
          refine ⟨.parent, _, hstep, htoward.parent hstep rfl rfl, remaining_parent ?_⟩
          simp only [hparent, Parent.rank]
          omega
        · have hstep : step program msgs capacity state .parent =
              some { state with parent := .reading } := by
            simp only [step, hparent, hmore, if_false]
          refine ⟨.parent, _, hstep, htoward.parent hstep rfl rfl, remaining_parent ?_⟩
          simp [hparent, Parent.rank]
    | reading =>
        have hstep : step program msgs capacity state .parent =
            some { state with
              parent := .returned
              strBuff := state.pipe.take strBuffSize
              pipe := state.pipe.drop strBuffSize } := by
          simp only [step, hparent]
          exact if_pos (Or.inr hexited)
        refine ⟨.parent, _, hstep, htoward.parent hstep rfl rfl, remaining_parent ?_⟩
        simp [hparent, Parent.rank]
    | returned => exact absurd hparent hreturned

/-- Once the parent has returned, all who were to write have written. -/
theorem Toward.returned (htoward : Toward program msgs capacity order state)
    (hreturned : state.parent = .returned) : state.written = order := by
  have hcounted := htoward.inv.counted
  rw [Counted, hreturned] at hcounted
  obtain ⟨hlength, hcount⟩ := hcounted
  have hexited := List.countP_eq_length.mp (hcount.trans hlength.symm)
  obtain ⟨rest, horder⟩ := htoward.written
  cases rest with
  | nil => rw [← horder, List.append_nil]
  | cons j rest =>
      have hj : j ∈ order := horder ▸ List.mem_append.mpr (Or.inr List.mem_cons_self)
      have hlt : j < state.children.length := hlength ▸ htoward.range j hj
      have hheading := htoward.heading j _ (List.getElem?_eq_getElem hlt)
      rw [Child.Heading, exited_iff.mp (hexited _ (List.getElem_mem hlt))] at hheading
      have hnodup := htoward.nodup
      rw [← horder] at hnodup
      exact absurd rfl ((List.nodup_append.mp hnodup).2.2 j (hheading hj) j
        List.mem_cons_self)

theorem Toward.completes (htoward : Toward program msgs capacity order state)
    (hfits : (order.flatMap (msg msgs)).length ≤ capacity) :
    ∃ events final, run (step program msgs capacity) state events = some final ∧
      final.parent = .returned ∧ Toward program msgs capacity order final := by
  apply @run_descend _ _ _ (Toward program msgs capacity order)
    (fun state => state.parent = .returned ∧ Toward program msgs capacity order state)
    (State.remaining msgs.length) _ _ htoward
  intro state htoward hunfinished
  have hreturned : state.parent ≠ .returned := fun h => hunfinished ⟨h, htoward⟩
  by_cases hprepared : state.Prepared
  · exact htoward.finish hprepared hreturned hfits
  · exact htoward.prepare hprepared

/-- The parent reads the messages of some children in some order, cut to its
buffer: of all children in `4_pipe.c`, of any in `5_signal.c`, as long as the
pipe holds them.  Each such text can be read. -/
theorem outputs_iff (program : Program) (msgs : List (List UInt8)) (capacity : Nat)
    (text : List UInt8) :
    (∃ events state,
      run (step program msgs capacity) .initial events = some state ∧
        state.parent = .returned ∧ state.strBuff = text) ↔
      ∃ order : List Nat, order.Nodup ∧ (∀ i ∈ order, i < msgs.length) ∧
        (program = .pipe → ∀ i < msgs.length, i ∈ order) ∧
        (order.flatMap (msg msgs)).length ≤ capacity ∧
        text = (order.flatMap (msg msgs)).take strBuffSize := by
  constructor
  · rintro ⟨events, state, hrun, hreturned, rfl⟩
    have hinv := Inv.run hrun
    have hcounted := hinv.counted
    rw [Counted, hreturned] at hcounted
    obtain ⟨hlength, hcount⟩ := hcounted
    have hexited := List.countP_eq_length.mp (hcount.trans hlength.symm)
    refine ⟨state.written, hinv.nodup, ?_, ?_, hinv.fits, hinv.strBuff hreturned⟩
    · intro i hi
      obtain ⟨child, hchild, _⟩ := hinv.written i hi
      exact hlength ▸ lt_length hchild
    · intro hprogram i hi
      have hlt : i < state.children.length := hlength ▸ hi
      exact hinv.all hprogram i _ (List.getElem?_eq_getElem hlt)
        (exited_iff.mp (hexited _ (List.getElem_mem hlt)))
  · rintro ⟨order, hnodup, hrange, hall, hfits, rfl⟩
    obtain ⟨events, final, hrun, hreturned, htoward⟩ :=
      (Toward.initial hnodup hrange hall).completes hfits
    refine ⟨events, final, hrun, hreturned, ?_⟩
    rw [htoward.inv.strBuff hreturned, State.output, htoward.returned hreturned]

/-! ## Whether the programs can get stuck -/

theorem flatMap_length_le {α β : Type*} {f : α → List β} {few many : List α}
    (hnodup : few.Nodup) (hsubset : few ⊆ many) :
    (few.flatMap f).length ≤ (many.flatMap f).length := by
  obtain ⟨perm, hperm, hsublist⟩ := hnodup.subperm hsubset
  rw [← (hperm.flatMap_right f).length_eq]
  exact (hsublist.flatMap f).length_le

theorem range_flatMap_msg :
    (List.range msgs.length).flatMap (msg msgs) = msgs.flatten := by
  have hmap : (List.range msgs.length).map (msg msgs) = msgs := by
    apply List.ext_getElem
    · simp
    · intro i hleft hright
      simp [msg, hright]
  rw [List.flatMap_def, hmap]

/-- Child `i` can still come to its `write`. -/
def State.mayWrite (state : State) (i : Nat) : Bool :=
  match state.children[i]? with
  | none => true
  | some child =>
      match child.pc with
      | .started | .sleeping | .writing => true
      | .asking => child.sigStatus ≠ 0
      | .exited => false

/-- The order in which those who have not written come after those who have. -/
def State.schedule (total : Nat) (state : State) : List Nat :=
  state.written ++ (List.range total).filter fun i =>
    decide (i ∉ state.written) && state.mayWrite i

theorem mem_schedule {total : Nat} : i ∈ state.schedule total ↔
    i ∈ state.written ∨ i < total ∧ i ∉ state.written ∧ state.mayWrite i = true := by
  simp [State.schedule]

theorem Inv.toward (hinv : Inv program msgs capacity state) :
    Toward program msgs capacity (state.schedule msgs.length) state where
  inv := hinv
  written := List.prefix_append _ _
  nodup := by
    apply List.nodup_append.mpr
    refine ⟨hinv.nodup, List.nodup_range.filter _, ?_⟩
    rintro j hj k hk rfl
    simp [hj] at hk
  range := by
    intro i hi
    rcases mem_schedule.mp hi with hi | ⟨hlt, _⟩
    · obtain ⟨child, hchild, _⟩ := hinv.written i hi
      exact (lt_length hchild).trans_le hinv.length_le
    · exact hlt
  all := by
    intro hprogram i hlt
    by_cases hwritten : i ∈ state.written
    · exact mem_schedule.mpr (Or.inl hwritten)
    · refine mem_schedule.mpr (Or.inr ⟨hlt, hwritten, ?_⟩)
      unfold State.mayWrite
      cases hi : state.children[i]? with
      | none => rfl
      | some child =>
          have hsound := hinv.sound i child hi
          cases hpc : child.pc with
          | started | sleeping | writing => simp [hpc]
          | asking =>
              rw [Child.Sound, hpc, hprogram] at hsound
              exact absurd hsound (by simp)
          | exited => exact absurd (hinv.all hprogram i child hi hpc) hwritten
  heading := by
    intro i child hi
    have hlt := (lt_length hi).trans_le hinv.length_le
    have hunwritten : child.pc ≠ .exited → i ∉ state.written := by
      intro halive hwritten
      obtain ⟨same, hsame, hexited⟩ := hinv.written i hwritten
      rw [hi, Option.some.injEq] at hsame
      exact halive (hsame ▸ hexited)
    have hmay : child.pc ≠ .exited →
        (i ∈ state.schedule msgs.length ↔ state.mayWrite i = true) := by
      intro halive
      rw [mem_schedule]
      have := hunwritten halive
      tauto
    unfold Child.Heading
    cases hpc : child.pc with
    | started | sleeping => trivial
    | asking =>
        rw [hmay (by simp [hpc])]
        simp [State.mayWrite, hi, hpc]
    | writing =>
        rw [hmay (by simp [hpc])]
        simp [State.mayWrite, hi, hpc]
    | exited =>
        intro hmem
        rcases mem_schedule.mp hmem with hwritten | ⟨_, _, hwrites⟩
        · exact hwritten
        · simp [State.mayWrite, hi, hpc] at hwrites

/-- Everyone has written or is about to. -/
def State.AllWrite (total : Nat) (state : State) : Prop :=
  ∀ i < total, i ∈ state.written ∨ ∃ child, state.children[i]? = some child ∧
    child.pc = .writing

theorem Moves.writing (hmoves : Moves program child after)
    (hwriting : child.pc = .writing) : after.pc = .writing := by
  cases hmoves with
  | advance hadvance => simp [Child.advance, hwriting] at hadvance
  | interrupt _ hinterrupt =>
      simp only [Child.interrupt, hwriting, Option.some.injEq] at hinterrupt
      simp [← hinterrupt]

theorem AllWrite.moves {total : Nat} (hall : state.AllWrite total)
    (hi : state.children[i]? = some child) (hmoves : Moves program child after) :
    (state.set i after).AllWrite total := by
  intro j hj
  apply (hall j hj).imp_right
  rintro ⟨other, hother, hwriting⟩
  by_cases hij : i = j
  · subst hij
    rw [hi, Option.some.injEq] at hother
    exact ⟨after, set_self hi, hmoves.writing (hother ▸ hwriting)⟩
  · exact ⟨other, (set_other hij).trans hother, hwriting⟩

theorem AllWrite.step {total : Nat} (hall : state.AllWrite total)
    (hstep : step program msgs capacity state event = some next) :
    next.AllWrite total := by
  cases event with
  | parent =>
      simp only [ForkExec.step] at hstep
      split at hstep
      · split at hstep
        · rw [Option.some.injEq] at hstep
          intro j hj
          rw [← hstep]
          apply (hall j hj).imp_right
          rintro ⟨other, hother, hwriting⟩
          refine ⟨other, ?_, hwriting⟩
          rw [List.getElem?_append_left (lt_length hother)]
          exact hother
        · exact Option.some.inj hstep ▸ hall
      · split at hstep
        · split at hstep
          · exact Option.some.inj hstep ▸ hall
          · exact absurd hstep (by simp)
        · exact Option.some.inj hstep ▸ hall
      · split at hstep
        · exact Option.some.inj hstep ▸ hall
        · exact absurd hstep (by simp)
      · exact absurd hstep (by simp)
  | child i =>
      obtain ⟨child, hi, ⟨after, hmoves, rfl⟩ | ⟨_, _, rfl⟩⟩ := step_child hstep
      · exact AllWrite.moves hall hi hmoves
      · intro j hj
        by_cases hij : i = j
        · exact Or.inl (List.mem_append.mpr (Or.inr (List.mem_singleton.mpr hij.symm)))
        · rcases hall j hj with hwritten | ⟨other, hother, hwriting⟩
          · exact Or.inl (List.mem_append.mpr (Or.inl hwritten))
          · exact Or.inr ⟨other, (set_other hij).trans hother, hwriting⟩
  | sigint i =>
      obtain ⟨child, after, hi, hmoves, rfl⟩ := step_sigint hstep
      exact AllWrite.moves hall hi hmoves

/-- The programs can come to the point where all children are about to write. -/
theorem exists_allWrite (program : Program) (msgs : List (List UInt8)) (capacity : Nat) :
    ∃ events state, run (step program msgs capacity) .initial events = some state ∧
      state.AllWrite msgs.length := by
  have hinitial : Toward program msgs capacity (List.range msgs.length) .initial :=
    Toward.initial List.nodup_range (fun i hi => List.mem_range.mp hi)
      (fun _ i hi => List.mem_range.mpr hi)
  obtain ⟨events, state, hrun, hprepared, htoward⟩ :=
    @run_descend _ _ _ (Toward program msgs capacity (List.range msgs.length))
      (fun state => state.Prepared ∧
        Toward program msgs capacity (List.range msgs.length) state)
      (State.remaining msgs.length)
      (fun state htoward hunprepared => htoward.prepare fun h => hunprepared ⟨h, htoward⟩)
      _ hinitial
  refine ⟨events, state, hrun, ?_⟩
  intro i hi
  have hlt : i < state.children.length := by
    rwa [htoward.inv.forked hprepared.1]
  have hchild : state.children[i]? = some state.children[i] := List.getElem?_eq_getElem hlt
  rcases hprepared.2 i _ hchild with hwriting | hexited
  · exact Or.inr ⟨_, hchild, hwriting⟩
  · have hheading := htoward.heading i _ hchild
    rw [Child.Heading, hexited] at hheading
    exact Or.inl (hheading (List.mem_range.mpr hi))

/-- The programs can always be finished exactly if the pipe holds all messages
at once. -/
theorem finishes_iff (program : Program) (msgs : List (List UInt8)) (capacity : Nat) :
    (∀ events state, run (step program msgs capacity) .initial events = some state →
      ∃ more final, run (step program msgs capacity) state more = some final ∧
        final.parent = .returned) ↔
      msgs.flatten.length ≤ capacity := by
  constructor
  · intro hfinishes
    obtain ⟨events, state, hrun, hall⟩ := exists_allWrite program msgs capacity
    obtain ⟨more, final, hmore, hreturned⟩ := hfinishes events state hrun
    have hinv := Inv.run (run_append.mpr ⟨state, hrun, hmore⟩)
    have hwrite : final.AllWrite msgs.length :=
      run_invariant (fun _ _ _ hall hstep => AllWrite.step hall hstep) hall hmore
    have hsubset : List.range msgs.length ⊆ final.written := by
      intro i hi
      refine (hwrite i (List.mem_range.mp hi)).resolve_right ?_
      rintro ⟨child, hchild, hwriting⟩
      exact (hinv.counted.alive hchild (writing_alive hwriting)).2 hreturned
    rw [← range_flatMap_msg]
    exact (flatMap_length_le List.nodup_range hsubset).trans hinv.fits
  · intro hfits events state hrun
    have htoward := (Inv.run hrun).toward
    have hle : ((state.schedule msgs.length).flatMap (msg msgs)).length ≤ capacity := by
      rw [← range_flatMap_msg] at hfits
      refine (flatMap_length_le htoward.nodup ?_).trans hfits
      exact fun i hi => List.mem_range.mpr (htoward.range i hi)
    obtain ⟨more, final, hmore, hreturned, _⟩ := htoward.completes hle
    exact ⟨more, final, hmore, hreturned⟩

end ForkExec
end OsStuff
