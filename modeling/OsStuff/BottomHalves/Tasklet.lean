import OsStuff.BottomHalves.AsciiMap
import OsStuff.Library.Run

/-!
# `tasklet/main.c`

The interrupt hands the scancode over in the `data` word of the tasklet.  A
tasklet that is already scheduled is not scheduled again; when the kernel runs
it, it first takes it off the schedule and then calls the handler with the word.
-/

namespace OsStuff
namespace BottomHalves
namespace Tasklet

open Library

structure State where
  data : Scancode
  scheduled : Bool
  /-- The kernel has taken the tasklet off the schedule and is about to call the
  handler. -/
  running : Bool
  /-- The keys that `tasklet_handler` has printed. -/
  printed : List (Option String)
  deriving DecidableEq, Repr

/-- After `md_init`. -/
def start : State where
  data := 0
  scheduled := false
  running := false
  printed := []

inductive IrqReturn
  | none
  | handled
  deriving DecidableEq, Repr

/-- `tasklet_schedule` -/
def taskletSchedule (state : State) : State :=
  { state with scheduled := true }

/-- `tasklet_handler` -/
def taskletHandler (scancode : Scancode) (state : State) : State :=
  { state with printed := state.printed ++ [key scancode] }

/-- `interrupt_handler`, for the byte at the keyboard port. -/
def interruptHandler (irq : Int) (scancode : Scancode) (state : State) :
    IrqReturn × State :=
  if irq ≠ irqNumber then (.none, state)
  else
    let state :=
      if isPress scancode then taskletSchedule { state with data := scancode }
      else state
    (.handled, state)

inductive Event
  | interrupt (irq : Int) (scancode : Scancode)
  /-- The kernel takes the tasklet off the schedule. -/
  | begin
  /-- The kernel calls the handler. -/
  | call
  deriving DecidableEq, Repr

def step (state : State) : Event → Option State
  | .interrupt irq scancode => some (interruptHandler irq scancode state).2
  | .begin =>
      if state.scheduled ∧ ¬ state.running then
        some { state with scheduled := false, running := true }
      else none
  | .call =>
      if state.running then
        some { taskletHandler state.data state with running := false }
      else none

/-- The scancode that the event is a press of. -/
def Event.press : Event → Option Scancode
  | .interrupt irq scancode =>
      if irq = irqNumber ∧ isPress scancode then some scancode else none
  | _ => none

/-- The keys pressed in a sequence of events. -/
def pressed (events : List Event) : List (Option String) :=
  (events.filterMap Event.press).map key

/-- No handler is pending. -/
def Quiet (state : State) : Prop :=
  state.scheduled = false ∧ state.running = false

/-- A press finds the tasklet off the schedule, and a handler that is about to be
called has the same key to print. -/
def Harmless (state : State) (event : Event) (_ : State) : Prop :=
  ∀ scancode, event.press = some scancode →
    state.scheduled = false ∧ (state.running = true → key state.data = key scancode)

/-! ## What is still to be printed -/

variable {state next final : State} {event : Event} {events : List Event}
  {keys : List (Option String)}

/-- The keys that will be printed if there are no more interrupts. -/
def owed (state : State) : List (Option String) :=
  (if state.running then [key state.data] else []) ++
    (if state.scheduled then [key state.data] else [])

theorem owed_of_quiet (hquiet : Quiet state) : owed state = [] := by
  simp [owed, hquiet.1, hquiet.2]

/-- What a step can do. -/
theorem step_cases (hstep : step state event = some next) :
    (∃ scancode, event.press = some scancode ∧
      next = { state with data := scancode, scheduled := true }) ∨
    event.press = none ∧ (next = state ∨
      event = .begin ∧ state.scheduled = true ∧ state.running = false ∧
        next = { state with scheduled := false, running := true } ∨
      event = .call ∧ state.running = true ∧
        next = { state with
          printed := state.printed ++ [key state.data], running := false }) := by
  cases event with
  | interrupt irq scancode =>
      simp only [step, interruptHandler, Option.some.injEq] at hstep
      by_cases hirq : irq = irqNumber
      · rw [if_neg (by simpa using hirq)] at hstep
        -- The handler takes presses of the keyboard only.
        by_cases hpress : isPress scancode = true
        · left
          refine ⟨scancode, by simp [Event.press, hirq, hpress], ?_⟩
          simpa [hpress, taskletSchedule] using hstep.symm
        · right
          refine ⟨by simp [Event.press, hpress], Or.inl ?_⟩
          simpa [hpress] using hstep.symm
      · rw [if_pos hirq] at hstep
        right
        exact ⟨by simp [Event.press, hirq], Or.inl hstep.symm⟩
  | begin =>
      right
      simp only [step] at hstep
      split at hstep
      · rename_i hcond
        refine ⟨rfl, Or.inr (Or.inl ⟨rfl, hcond.1, by simpa using hcond.2, ?_⟩)⟩
        exact (Option.some.inj hstep).symm
      · exact absurd hstep (by simp)
  | call =>
      right
      simp only [step] at hstep
      split at hstep
      · rename_i hrunning
        exact ⟨rfl, Or.inr (Or.inr ⟨rfl, hrunning, (Option.some.inj hstep).symm⟩)⟩
      · exact absurd hstep (by simp)

/-- A step that is no press prints what is owed, or nothing. -/
theorem total_of_no_press (hstep : step state event = some next)
    (hpress : event.press = none) :
    next.printed ++ owed next = state.printed ++ owed state := by
  obtain ⟨scancode, hsome, -⟩ | ⟨-, rfl | ⟨-, hscheduled, hrunning, rfl⟩ |
    ⟨-, hrunning, rfl⟩⟩ := step_cases hstep
  · exact absurd (hpress.symm.trans hsome) (by simp)
  · rfl
  · simp [owed, hscheduled, hrunning]
  · simp [owed, hrunning]

theorem pressed_cons (event : Event) (events : List Event) :
    pressed (event :: events) =
      (event.press.map key).toList ++ pressed events := by
  cases hpress : event.press <;> simp [pressed, hpress]

/-- A harmless step adds its key to what is printed in the end. -/
theorem total_of_harmless (hstep : step state event = some next)
    (hharmless : Harmless state event next) :
    next.printed ++ owed next =
      state.printed ++ owed state ++ (event.press.map key).toList := by
  cases hpress : event.press with
  | none => simpa [hpress] using total_of_no_press hstep hpress
  | some scancode =>
      obtain ⟨hscheduled, hsame⟩ := hharmless scancode hpress
      obtain ⟨scancode', hsome, rfl⟩ | ⟨hnone, -⟩ := step_cases hstep
      · rw [hpress, Option.some.injEq] at hsome
        subst hsome
        cases hrunning : state.running with
        | false => simp [owed, hscheduled, hrunning]
        | true => simp [owed, hscheduled, hrunning, hsame hrunning]
      · exact absurd (hnone.symm.trans hpress) (by simp)

/-- In a run of harmless steps every key is printed or owed. -/
theorem total_of_guarded (hrun : GuardedRun step Harmless state events final) :
    final.printed ++ owed final = state.printed ++ owed state ++ pressed events := by
  induction hrun with
  | nil state => simp [pressed]
  | cons hstep hharmless _ ih =>
      rw [ih, total_of_harmless hstep hharmless, pressed_cons]
      simp

/-! ## A harmful press is never made up for -/

/-- What has been printed, with the key of a handler that the next press can only
overtake by coming too often. -/
def settled (state : State) : List (Option String) :=
  state.printed ++
    (if state.running ∧ state.scheduled then [key state.data] else [])

/-- The presses so far cannot all be printed in their order any more. -/
def Spoiled (keys : List (Option String)) (state : State) : Prop :=
  (state.printed ++ owed state).length < keys.length ∨
    (state.printed ++ owed state).length = keys.length ∧ ¬ settled state <+: keys

theorem length_owed_press {scancode : Scancode} :
    (owed { state with data := scancode, scheduled := true }).length =
      (owed state).length + (if state.scheduled then 0 else 1) := by
  cases hrunning : state.running <;> cases hscheduled : state.scheduled <;>
    simp [owed, hrunning, hscheduled]

theorem length_settled_le (state : State) :
    (settled state).length ≤ (state.printed ++ owed state).length := by
  cases hrunning : state.running <;> cases hscheduled : state.scheduled <;>
    simp [settled, owed, hrunning, hscheduled]

theorem Spoiled.step (hspoiled : Spoiled keys state)
    (hstep : step state event = some next) :
    Spoiled (keys ++ (event.press.map key).toList) next := by
  cases hpress : event.press with
  | none =>
      have htotal := total_of_no_press hstep hpress
      simp only [Option.map_none, Option.toList_none, List.append_nil]
      rcases hspoiled with hshort | ⟨hlength, hsettled⟩
      · exact Or.inl (by rwa [htotal])
      · refine Or.inr ⟨by rwa [htotal], fun hpref => hsettled ?_⟩
        -- The handlers only settle more.
        refine List.IsPrefix.trans ?_ hpref
        obtain ⟨scancode, hsome, -⟩ | ⟨-, rfl | ⟨-, hscheduled, hrunning, rfl⟩ |
          ⟨-, hrunning, rfl⟩⟩ := step_cases hstep
        · exact absurd (hpress.symm.trans hsome) (by simp)
        · exact List.prefix_refl _
        · simp [settled, hrunning]
        · cases hscheduled : state.scheduled <;> simp [settled, hrunning, hscheduled]
  | some scancode =>
      obtain ⟨scancode', hsome, rfl⟩ | ⟨hnone, -⟩ := step_cases hstep
      · rw [hpress, Option.some.injEq] at hsome
        subst hsome
        unfold Spoiled
        simp only [Option.map_some, Option.toList_some, List.length_append,
          List.length_singleton, length_owed_press]
        simp only [Spoiled, List.length_append] at hspoiled
        rcases hspoiled with hshort | ⟨hlength, hsettled⟩
        · left
          split <;> omega
        · cases hscheduled : state.scheduled with
          | true =>
              left
              simp only [if_true]
              omega
          | false =>
              right
              refine ⟨by simp only [Bool.false_eq_true, if_false]; omega, fun hpref => ?_⟩
              have hle := length_settled_le state
              have hold : settled state <+:
                  settled { state with data := scancode, scheduled := true } := by
                simp [settled, hscheduled]
              refine hsettled (List.prefix_of_prefix_length_le (hold.trans hpref)
                (List.prefix_append _ _) ?_)
              rw [List.length_append] at hle
              omega
      · exact absurd (hnone.symm.trans hpress) (by simp)

/-- A press that is not harmless spoils the run. -/
theorem spoiled_of_not_harmless (htotal : state.printed ++ owed state = keys)
    (hstep : step state event = some next) (hharm : ¬ Harmless state event next) :
    Spoiled (keys ++ (event.press.map key).toList) next := by
  cases hpress : event.press with
  | none =>
      refine absurd (fun scancode hsome => ?_) hharm
      exact absurd (hpress.symm.trans hsome) (by simp)
  | some scancode =>
      obtain ⟨scancode', hsome, rfl⟩ | ⟨hnone, -⟩ := step_cases hstep
      · rw [hpress, Option.some.injEq] at hsome
        subst hsome
        have hlength := congrArg List.length htotal
        rw [List.length_append] at hlength
        unfold Spoiled
        simp only [Option.map_some, Option.toList_some, List.length_append,
          List.length_singleton, length_owed_press]
        cases hscheduled : state.scheduled with
        | true =>
            -- Two presses are left to one call of the handler.
            left
            simp only [if_true]
            omega
        | false =>
            right
            refine ⟨by simp only [Bool.false_eq_true, if_false]; omega, fun hpref => ?_⟩
            apply hharm
            intro scancode' hsome
            rw [hpress, Option.some.injEq] at hsome
            subst hsome
            refine ⟨hscheduled, fun hrunning => ?_⟩
            -- The handler prints the key of the new press in the place of its own.
            rw [← htotal] at hpref
            simp only [settled, owed, hrunning, hscheduled, true_and, if_true,
              Bool.false_eq_true, if_false, List.append_nil, List.append_assoc,
              List.prefix_append_right_inj, List.singleton_append] at hpref
            exact (List.cons_prefix_cons.mp hpref).1.symm
      · exact absurd (hnone.symm.trans hpress) (by simp)

theorem guarded_or_spoiled (hrun : run step state events = some final)
    (htotal : state.printed ++ owed state = keys) :
    GuardedRun step Harmless state events final ∨
      Spoiled (keys ++ pressed events) final := by
  have hspoil : ∀ {events : List Event} {state : State} {keys : List (Option String)},
      run step state events = some final → Spoiled keys state →
        Spoiled (keys ++ pressed events) final := by
    intro events
    induction events with
    | nil =>
        intro state keys hrun hspoiled
        rw [run_nil, Option.some.injEq] at hrun
        simpa [hrun, pressed] using hspoiled
    | cons event events ih =>
        intro state keys hrun hspoiled
        obtain ⟨next, hstep, hrest⟩ := run_cons.mp hrun
        have hlast := ih hrest (hspoiled.step hstep)
        rwa [pressed_cons, ← List.append_assoc]
  induction events generalizing state keys with
  | nil =>
      rw [run_nil, Option.some.injEq] at hrun
      exact Or.inl (hrun ▸ GuardedRun.nil state)
  | cons event events ih =>
      obtain ⟨next, hstep, hrest⟩ := run_cons.mp hrun
      rw [pressed_cons, ← List.append_assoc]
      by_cases hharmless : Harmless state event next
      · have htotal' := total_of_harmless hstep hharmless
        rw [htotal] at htotal'
        rcases ih hrest htotal' with hguarded | hspoiled
        · exact Or.inl (GuardedRun.cons hstep hharmless hguarded)
        · exact Or.inr hspoiled
      · exact Or.inr (hspoil hrest (spoiled_of_not_harmless htotal hstep hharmless))

theorem Spoiled.ne (hspoiled : Spoiled keys state) (hquiet : Quiet state) :
    state.printed ≠ keys := by
  rintro rfl
  rw [Spoiled, owed_of_quiet hquiet, List.append_nil] at hspoiled
  rcases hspoiled with hshort | ⟨-, hsettled⟩
  · exact lt_irrefl _ hshort
  · apply hsettled
    simp [settled, hquiet.1]

/-- The keys printed are the keys pressed exactly when every press is harmless. -/
theorem printed_iff (hrun : run step start events = some final)
    (hquiet : Quiet final) :
    final.printed = pressed events ↔ GuardedRun step Harmless start events final := by
  constructor
  · intro hprinted
    rcases guarded_or_spoiled hrun rfl with hguarded | hspoiled
    · exact hguarded
    · exact absurd hprinted (hspoiled.ne hquiet)
  · intro hguarded
    have htotal := total_of_guarded hguarded
    rw [owed_of_quiet hquiet, List.append_nil] at htotal
    simpa [start, owed] using htotal

end Tasklet
end BottomHalves
end OsStuff
