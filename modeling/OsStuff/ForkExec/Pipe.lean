import OsStuff.Library.Processes
import OsStuff.Library.Run

/-!
# `4_pipe.c` and `5_signal.c`

A process forks children that write a message each into one pipe, waits for all
of them, closes its own write end and reads once.  In `5_signal.c` a child
sleeps first and writes only if it has received a `SIGINT` since it installed
its handler; the handler it inherits does nothing.  `4_pipe.c` installs no handler
and is run here without signals: a `SIGINT` would end the process it reaches.

The messages are short enough for a `write` to be atomic: it waits until there
is room for all of it.  `written` is not part of the programs' memory: it is the
children that have written, in that order.

`Inv` is what holds of every reachable state.
-/

namespace OsStuff
namespace ForkExec

open Library Library.Processes

inductive Program
  | pipe
  | signal
  deriving DecidableEq, Repr

/-- `STR_BUFF_SIZE` -/
def strBuffSize : Nat := 64

/-- Where a child is; `started` is before it installs its handler. -/
inductive ChildPc
  | started
  | sleeping
  | asking
  | writing
  | exited
  deriving DecidableEq, Repr

structure Child where
  pc : ChildPc
  sigStatus : Nat
  deriving DecidableEq, Repr

/-- Where the parent is: `waiting k` has seen `k` children end. -/
inductive Parent
  | forking
  | waiting (ended : Nat)
  | reading
  | returned
  deriving DecidableEq, Repr

structure State where
  parent : Parent
  children : List Child
  pipe : List UInt8
  strBuff : List UInt8
  written : List Nat
  deriving DecidableEq, Repr

inductive Event
  | parent
  | child (i : Nat)
  | sigint (i : Nat)
  deriving DecidableEq, Repr

/-- The state with child `i` replaced. -/
def State.set (state : State) (i : Nat) (child : Child) : State :=
  { state with children := state.children.set i child }

def Child.exited (child : Child) : Bool := child.pc = .exited

/-- What a child does up to its `write`. -/
def Child.advance (program : Program) (child : Child) : Option Child :=
  match child.pc with
  | .started =>
      match program with
      | .pipe => some { child with pc := .writing }
      | .signal => some { child with pc := .sleeping }
  | .sleeping => some { child with pc := .asking }
  | .asking =>
      if child.sigStatus ≠ 0 then some { child with pc := .writing }
      else some { child with pc := .exited }
  | .writing | .exited => none

/-- A child that receives a `SIGINT`; a `sleep` ends with it. -/
def Child.interrupt (child : Child) : Option Child :=
  match child.pc with
  -- `do_nothing`
  | .started => some child
  -- `inc_status`
  | .sleeping => some ⟨.asking, child.sigStatus + 1⟩
  | .asking | .writing => some { child with sigStatus := child.sigStatus + 1 }
  | .exited => none

section Step

variable (program : Program) (msgs : List (List UInt8)) (capacity : Nat)

/-- The message of child `i`. -/
def msg (i : Nat) : List UInt8 := msgs.getD i []

def step (state : State) : Event → Option State
  | .parent =>
      match state.parent with
      | .forking =>
          if state.children.length < msgs.length then
            some { state with children := state.children ++ [⟨.started, 0⟩] }
          else some { state with parent := .waiting 0 }
      | .waiting ended =>
          if ended < msgs.length then
            -- `wait` returns when a child has ended that it has not returned yet.
            if ended < state.children.countP Child.exited then
              some { state with parent := .waiting (ended + 1) }
            else none
          else some { state with parent := .reading }
      | .reading =>
          -- `read` returns when there is something to read or no write end is left.
          if state.pipe ≠ [] ∨ ∀ child ∈ state.children, child.exited = true then
            some { state with
              parent := .returned
              strBuff := state.pipe.take strBuffSize
              pipe := state.pipe.drop strBuffSize }
          else none
      | .returned => none
  | .child i => state.children[i]?.bind fun child =>
      if child.pc = .writing then
        if state.pipe.length + (msg msgs i).length ≤ capacity then
          some { state.set i { child with pc := .exited } with
            pipe := state.pipe ++ msg msgs i
            written := state.written ++ [i] }
        else none
      else (child.advance program).map (state.set i)
  | .sigint i => state.children[i]?.bind fun child =>
      match program with
      | .pipe => none
      | .signal => child.interrupt.map (state.set i)

end Step

/-- After the `pipe` call. -/
def State.initial : State := ⟨.forking, [], [], [], []⟩

/-! ## What a step does -/

variable {program : Program} {msgs : List (List UInt8)} {capacity : Nat}
  {state next : State} {event : Event} {events : List Event} {i : Nat}
  {child after : Child}

/-- What the children have written. -/
def State.output (msgs : List (List UInt8)) (state : State) : List UInt8 :=
  state.written.flatMap (msg msgs)

/-- A child that goes on or is interrupted, but does not write. -/
inductive Moves (program : Program) (child after : Child) : Prop
  | advance (hadvance : child.advance program = some after)
  | interrupt (hsignal : program = .signal) (hinterrupt : child.interrupt = some after)

/-- What the child's `pc` and `sig_status` have to do with each other. -/
def Child.Sound (program : Program) (child : Child) : Prop :=
  match child.pc with
  | .sleeping => program = .signal ∧ child.sigStatus = 0
  | .started => child.sigStatus = 0
  | .asking => program = .signal
  | .writing | .exited => True

theorem Moves.not_exited (hmoves : Moves program child after) :
    child.exited = false := by
  unfold Child.exited
  cases hpc : child.pc with
  | exited =>
      cases hmoves with
      | advance hadvance => simp [Child.advance, hpc] at hadvance
      | interrupt _ hinterrupt => simp [Child.interrupt, hpc] at hinterrupt
  | started | sleeping | asking | writing => rfl

/-- Only a child that has received no signal ends without writing. -/
theorem Moves.exited (hmoves : Moves program child after)
    (hexited : after.pc = .exited) : child.pc = .asking ∧ child.sigStatus = 0 := by
  cases hmoves with
  | advance hadvance =>
      cases hpc : child.pc with
      | asking =>
          refine ⟨rfl, ?_⟩
          by_contra hstatus
          simp only [Child.advance, hpc, hstatus, ne_eq, not_false_eq_true, if_true,
            Option.some.injEq] at hadvance
          simp [← hadvance] at hexited
      | started =>
          cases program <;>
          · simp only [Child.advance, hpc, Option.some.injEq] at hadvance
            simp [← hadvance] at hexited
      | sleeping =>
          simp only [Child.advance, hpc, Option.some.injEq] at hadvance
          simp [← hadvance] at hexited
      | writing | exited => simp [Child.advance, hpc] at hadvance
  | interrupt _ hinterrupt =>
      cases hpc : child.pc with
      | started | asking | writing =>
          simp only [Child.interrupt, hpc, Option.some.injEq] at hinterrupt
          simp [← hinterrupt, hpc] at hexited
      | sleeping =>
          simp only [Child.interrupt, hpc, Option.some.injEq] at hinterrupt
          simp [← hinterrupt] at hexited
      | exited => simp [Child.interrupt, hpc] at hinterrupt

theorem Moves.sound (hmoves : Moves program child after)
    (hsound : child.Sound program) : after.Sound program := by
  unfold Child.Sound at hsound
  cases hmoves with
  | advance hadvance =>
      cases hpc : child.pc with
      | started =>
          simp only [hpc] at hsound
          cases program with
          | pipe =>
              simp only [Child.advance, hpc, Option.some.injEq] at hadvance
              exact hadvance ▸ trivial
          | signal =>
              simp only [Child.advance, hpc, Option.some.injEq] at hadvance
              exact hadvance ▸ ⟨rfl, hsound⟩
      | sleeping =>
          simp only [hpc] at hsound
          simp only [Child.advance, hpc, Option.some.injEq] at hadvance
          exact hadvance ▸ hsound.1
      | asking =>
          simp only [Child.advance, hpc] at hadvance
          split at hadvance <;>
          · rw [Option.some.injEq] at hadvance
            exact hadvance ▸ trivial
      | writing | exited => simp [Child.advance, hpc] at hadvance
  | interrupt hsignal hinterrupt =>
      cases hpc : child.pc with
      | started =>
          simp only [Child.interrupt, hpc, Option.some.injEq] at hinterrupt
          simp only [hpc] at hsound
          simp [← hinterrupt, Child.Sound, hpc, hsound]
      | sleeping | asking | writing =>
          simp only [Child.interrupt, hpc, Option.some.injEq] at hinterrupt
          simp [← hinterrupt, Child.Sound, hsignal]
      | exited => simp [Child.interrupt, hpc] at hinterrupt

/-- A child's step is a move or a write. -/
theorem step_child (hstep : step program msgs capacity state (.child i) = some next) :
    ∃ child, state.children[i]? = some child ∧
      ((∃ after, Moves program child after ∧ next = state.set i after) ∨
        (child.pc = .writing ∧
          state.pipe.length + (msg msgs i).length ≤ capacity ∧
          next = { state.set i { child with pc := .exited } with
            pipe := state.pipe ++ msg msgs i
            written := state.written ++ [i] })) := by
  simp only [step, Option.bind_eq_some_iff] at hstep
  obtain ⟨child, hi, hstep⟩ := hstep
  refine ⟨child, hi, ?_⟩
  split at hstep
  · rename_i hwriting
    split at hstep
    · rename_i hroom
      exact Or.inr ⟨hwriting, hroom, (Option.some.inj hstep).symm⟩
    · exact absurd hstep (by simp)
  · rw [Option.map_eq_some_iff] at hstep
    obtain ⟨after, hadvance, hnext⟩ := hstep
    exact Or.inl ⟨after, .advance hadvance, hnext.symm⟩

theorem step_sigint (hstep : step program msgs capacity state (.sigint i) = some next) :
    ∃ child after, state.children[i]? = some child ∧ Moves program child after ∧
      next = state.set i after := by
  simp only [step, Option.bind_eq_some_iff] at hstep
  obtain ⟨child, hi, hstep⟩ := hstep
  cases program with
  | pipe => exact absurd hstep (by simp)
  | signal =>
      simp only [Option.map_eq_some_iff] at hstep
      obtain ⟨after, hinterrupt, hnext⟩ := hstep
      exact ⟨child, after, hi, .interrupt rfl hinterrupt, hnext.symm⟩

/-! ## What holds in every state -/

@[simp] theorem set_parent : (state.set i after).parent = state.parent := rfl
@[simp] theorem set_children :
    (state.set i after).children = state.children.set i after := rfl

/-- The children that the parent knows of. -/
def Counted (total : Nat) (state : State) : Prop :=
  match state.parent with
  | .forking => state.children.length ≤ total
  | .waiting ended => state.children.length = total ∧ ended ≤ total ∧
      ended ≤ state.children.countP Child.exited
  | .reading | .returned => state.children.length = total ∧
      state.children.countP Child.exited = total

structure Inv (program : Program) (msgs : List (List UInt8)) (capacity : Nat)
    (state : State) : Prop where
  counted : Counted msgs.length state
  pipe : state.parent ≠ .returned → state.pipe = state.output msgs
  strBuff : state.parent = .returned →
    state.strBuff = (state.output msgs).take strBuffSize
  fits : (state.output msgs).length ≤ capacity
  nodup : state.written.Nodup
  written : ∀ i ∈ state.written, ∃ child, state.children[i]? = some child ∧
    child.pc = .exited
  all : program = .pipe → ∀ (i : Nat) (child : Child), state.children[i]? = some child →
    child.pc = .exited → i ∈ state.written
  sound : ∀ (i : Nat) (child : Child), state.children[i]? = some child →
    child.Sound program

theorem Inv.initial : Inv program msgs capacity .initial where
  counted := Nat.zero_le _
  pipe := fun _ => rfl
  strBuff := fun h => absurd h (by simp [State.initial])
  fits := Nat.zero_le _
  nodup := List.nodup_nil
  written := by simp [State.initial]
  all := by simp [State.initial]
  sound := by simp [State.initial]

theorem exited_iff : child.exited = true ↔ child.pc = .exited := by
  simp [Child.exited]

/-- As long as a child has not ended, the parent has not seen all of them end. -/
theorem Counted.alive {total : Nat} (hcounted : Counted total state)
    (hi : state.children[i]? = some child) (halive : child.exited = false) :
    state.parent ≠ .reading ∧ state.parent ≠ .returned := by
  have hlt : state.children.countP Child.exited < state.children.length :=
    List.countP_lt_length_iff.mpr ⟨child, List.mem_of_getElem? hi, halive⟩
  unfold Counted at hcounted
  cases hparent : state.parent with
  | forking | waiting ended => simp
  | reading | returned =>
      simp only [hparent] at hcounted
      omega

/-- A step of a child that is alive. -/
theorem Counted.set {total : Nat} (hcounted : Counted total state)
    (hi : state.children[i]? = some child) (halive : child.exited = false) :
    Counted total (state.set i after) := by
  obtain ⟨hreading, hreturned⟩ := hcounted.alive hi halive
  have hle : state.children.countP Child.exited ≤
      (state.children.set i after).countP Child.exited := by
    cases hafter : after.exited with
    | false => exact (countP_set_same hi (hafter.trans halive.symm)).ge
    | true =>
        rw [countP_set_enter hi halive hafter]
        exact Nat.le_succ _
  unfold Counted at hcounted ⊢
  simp only [set_parent, set_children, List.length_set]
  cases hparent : state.parent with
  | forking =>
      simp only [hparent] at hcounted
      exact hcounted
  | waiting ended =>
      simp only [hparent] at hcounted
      obtain ⟨hlength, htotal, hended⟩ := hcounted
      exact ⟨hlength, htotal, hended.trans hle⟩
  | reading => exact absurd hparent hreading
  | returned => exact absurd hparent hreturned

/-- Who has written is still there after a child that is alive has moved. -/
theorem Inv.written_set (hinv : Inv program msgs capacity state)
    (hi : state.children[i]? = some child) (halive : child.exited = false) {j : Nat}
    (hj : j ∈ state.written) : j ≠ i ∧ ∃ other,
      (state.children.set i after)[j]? = some other ∧ other.pc = .exited := by
  obtain ⟨other, hother, hexited⟩ := hinv.written j hj
  have hne : j ≠ i := by
    rintro rfl
    rw [hi, Option.some.injEq] at hother
    rw [hother, exited_iff.mpr hexited] at halive
    exact absurd halive (by simp)
  exact ⟨hne, other, by rw [set_other hne.symm]; exact hother, hexited⟩

theorem Inv.moves (hinv : Inv program msgs capacity state)
    (hi : state.children[i]? = some child) (hmoves : Moves program child after) :
    Inv program msgs capacity (state.set i after) where
  counted := hinv.counted.set hi hmoves.not_exited
  pipe := hinv.pipe
  strBuff := hinv.strBuff
  fits := hinv.fits
  nodup := hinv.nodup
  written := by
    intro j hj
    exact (hinv.written_set hi hmoves.not_exited hj).2
  all := by
    intro hprogram j other hother hexited
    rcases set_cases hother with ⟨rfl, rfl⟩ | ⟨_, hother⟩
    · -- In `4_pipe.c` no child asks.
      have hsound := hinv.sound j child hi
      rw [Child.Sound, (hmoves.exited hexited).1] at hsound
      rw [hprogram] at hsound
      exact absurd hsound (by simp)
    · exact hinv.all hprogram j other hother hexited
  sound := by
    intro j other hother
    rcases set_cases hother with ⟨rfl, rfl⟩ | ⟨_, hother⟩
    · exact hmoves.sound (hinv.sound j child hi)
    · exact hinv.sound j other hother

/-- The state after the `write` of child `i`. -/
def State.write (msgs : List (List UInt8)) (state : State) (i : Nat) (child : Child) :
    State :=
  { state.set i { child with pc := .exited } with
    pipe := state.pipe ++ msg msgs i
    written := state.written ++ [i] }

theorem output_write :
    (state.write msgs i child).output msgs = state.output msgs ++ msg msgs i := by
  simp [State.output, State.write]

theorem writing_alive (hwriting : child.pc = .writing) : child.exited = false := by
  simp [Child.exited, hwriting]

theorem Inv.write (hinv : Inv program msgs capacity state)
    (hi : state.children[i]? = some child) (hwriting : child.pc = .writing)
    (hroom : state.pipe.length + (msg msgs i).length ≤ capacity) :
    Inv program msgs capacity (state.write msgs i child) := by
  have halive := writing_alive hwriting
  obtain ⟨_, hreturned⟩ := hinv.counted.alive hi halive
  have hpipe := hinv.pipe hreturned
  exact
    { counted := @Counted.set _ _ _ _ _ hinv.counted hi halive
      pipe := by
        intro _
        rw [output_write, ← hpipe]
        rfl
      strBuff := fun h => absurd h hreturned
      fits := by
        rw [output_write, List.length_append, ← hpipe]
        exact hroom
      nodup := by
        apply List.nodup_append.mpr
        refine ⟨hinv.nodup, List.nodup_singleton i, ?_⟩
        intro j hj k hk
        rw [List.mem_singleton.mp hk]
        exact (@Inv.written_set _ _ _ _ _ _ child hinv hi halive j hj).1
      written := by
        intro j hj
        rcases List.mem_append.mp hj with hj | hj
        · exact (hinv.written_set hi halive hj).2
        · rw [List.mem_singleton.mp hj]
          exact ⟨_, set_self hi, rfl⟩
      all := by
        intro hprogram j other hother hexited
        apply List.mem_append.mpr
        rcases set_cases hother with ⟨rfl, _⟩ | ⟨_, hother⟩
        · exact Or.inr (List.mem_singleton.mpr rfl)
        · exact Or.inl (hinv.all hprogram j other hother hexited)
      sound := by
        intro j other hother
        rcases set_cases hother with ⟨_, rfl⟩ | ⟨_, hother⟩
        · exact trivial
        · exact hinv.sound j other hother }

private theorem eq_of_singleton {α : Type*} {a b : α} {j : Nat}
    (h : [a][j]? = some b) : b = a :=
  List.mem_singleton.mp (List.mem_of_getElem? h)

/-- The parent forks another child. -/
theorem Inv.fork (hinv : Inv program msgs capacity state)
    (hforking : state.parent = .forking) (hmore : state.children.length < msgs.length) :
    Inv program msgs capacity
      { state with
        parent := .forking
        children := state.children ++ [⟨.started, 0⟩] } where
  counted := by
    show (state.children ++ [Child.mk .started 0]).length ≤ msgs.length
    rw [List.length_append]
    exact hmore
  pipe := fun _ => hinv.pipe (by simp [hforking])
  strBuff := fun h => absurd h (by simp)
  fits := hinv.fits
  nodup := hinv.nodup
  written := by
    intro j hj
    obtain ⟨other, hother, hexited⟩ := hinv.written j hj
    exact ⟨other, by rw [List.getElem?_append_left (lt_length hother)]; exact hother,
      hexited⟩
  all := by
    intro hprogram j other hother hexited
    rw [List.getElem?_append] at hother
    split at hother
    · exact hinv.all hprogram j other hother hexited
    · obtain rfl := eq_of_singleton hother
      exact absurd hexited (by simp)
  sound := by
    intro j other hother
    rw [List.getElem?_append] at hother
    split at hother
    · exact hinv.sound j other hother
    · obtain rfl := eq_of_singleton hother
      rfl

/-- The parent goes on and nothing else changes. -/
theorem Inv.parent (hinv : Inv program msgs capacity state) {parent : Parent}
    (hbefore : state.parent ≠ .returned) (hafter : parent ≠ .returned)
    (hcounted : Counted msgs.length { state with parent := parent }) :
    Inv program msgs capacity { state with parent := parent } :=
  { hinv with
    counted := hcounted
    pipe := fun _ => hinv.pipe hbefore
    strBuff := fun h => absurd h hafter }

theorem Inv.read (hinv : Inv program msgs capacity state)
    (hreading : state.parent = .reading) :
    Inv program msgs capacity
      { state with
        parent := .returned
        strBuff := state.pipe.take strBuffSize
        pipe := state.pipe.drop strBuffSize } :=
  { hinv with
    counted := by
      have hcounted := hinv.counted
      unfold Counted at hcounted ⊢
      simpa only [hreading] using hcounted
    pipe := fun h => absurd rfl h
    strBuff := by
      intro _
      show state.pipe.take strBuffSize = _
      rw [hinv.pipe (by simp [hreading])]
      rfl }

theorem Inv.step (hinv : Inv program msgs capacity state)
    (hstep : step program msgs capacity state event = some next) :
    Inv program msgs capacity next := by
  cases event with
  | parent =>
      have hcounted := hinv.counted
      unfold Counted at hcounted
      cases hparent : state.parent with
      | forking =>
          simp only [ForkExec.step, hparent] at hstep
          simp only [hparent] at hcounted
          split at hstep
          · rename_i hmore
            exact Option.some.inj hstep ▸ hinv.fork hparent hmore
          · rw [Option.some.injEq] at hstep
            rw [← hstep]
            refine hinv.parent (by simp [hparent]) (by simp) ?_
            exact ⟨by simp only; omega, Nat.zero_le _, Nat.zero_le _⟩
      | waiting ended =>
          simp only [ForkExec.step, hparent] at hstep
          simp only [hparent] at hcounted
          obtain ⟨hlength, htotal, hended⟩ := hcounted
          split at hstep
          · rename_i hmore
            split at hstep
            · rename_i hnew
              rw [Option.some.injEq] at hstep
              rw [← hstep]
              exact hinv.parent (by simp [hparent]) (by simp) ⟨hlength, hmore, hnew⟩
            · exact absurd hstep (by simp)
          · rw [Option.some.injEq] at hstep
            rw [← hstep]
            have hle : state.children.countP Child.exited ≤ state.children.length :=
              List.countP_le_length
            refine hinv.parent (by simp [hparent]) (by simp) ⟨hlength, ?_⟩
            show state.children.countP Child.exited = msgs.length
            omega
      | reading =>
          simp only [ForkExec.step, hparent] at hstep
          split at hstep
          · exact Option.some.inj hstep ▸ hinv.read hparent
          · exact absurd hstep (by simp)
      | returned =>
          simp [ForkExec.step, hparent] at hstep
  | child i =>
      obtain ⟨child, hi, ⟨after, hmoves, hnext⟩ | ⟨hwriting, hroom, hnext⟩⟩ :=
        step_child hstep
      · exact hnext ▸ hinv.moves hi hmoves
      · exact hnext ▸ hinv.write hi hwriting hroom
  | sigint i =>
      obtain ⟨child, after, hi, hmoves, hnext⟩ := step_sigint hstep
      exact hnext ▸ hinv.moves hi hmoves

theorem Inv.run
    (hrun : Library.run (ForkExec.step program msgs capacity) .initial events = some state) :
    Inv program msgs capacity state :=
  run_invariant (fun _ _ _ hinv hstep => hinv.step hstep) Inv.initial hrun

end ForkExec
end OsStuff
