import Mathlib.Tactic

/-!
# Runs of a partial state machine

`step state event` is the state after `event`, or `none` when the event is not
possible in `state`.  `run` folds a list of events.  `run_invariant` is the
induction rule for properties of every state reached, and `GuardedRun` singles
out the runs all of whose steps meet a condition.
-/

namespace OsStuff
namespace Library

variable {σ ε : Type*} {step : σ → ε → Option σ}

/-- The state after a list of events. -/
def run (step : σ → ε → Option σ) : σ → List ε → Option σ
  | state, [] => some state
  | state, event :: events =>
      (step state event).bind fun next => run step next events

@[simp] theorem run_nil (state : σ) : run step state [] = some state := rfl

theorem run_cons {state final : σ} {event : ε} {events : List ε} :
    run step state (event :: events) = some final ↔
      ∃ next, step state event = some next ∧ run step next events = some final := by
  simp [run, Option.bind_eq_some_iff]

/-- A run splits at any point. -/
theorem run_append {state final : σ} {front back : List ε} :
    run step state (front ++ back) = some final ↔
      ∃ middle, run step state front = some middle ∧
        run step middle back = some final := by
  induction front generalizing state with
  | nil => simp
  | cons event front ih =>
      simp only [List.cons_append, run_cons, ih]
      constructor
      · rintro ⟨next, hstep, middle, hfront, hback⟩
        exact ⟨middle, ⟨next, hstep, hfront⟩, hback⟩
      · rintro ⟨middle, ⟨next, hstep, hfront⟩, hback⟩
        exact ⟨next, hstep, middle, hfront, hback⟩

/-- A run is empty or has a last step. -/
theorem run_last {state final : σ} {events : List ε}
    (hrun : run step state events = some final) :
    final = state ∨ ∃ front event middle,
      events = front ++ [event] ∧ run step state front = some middle ∧
        step middle event = some final := by
  rcases List.eq_nil_or_concat events with rfl | ⟨front, event, rfl⟩
  · rw [run_nil, Option.some.injEq] at hrun
    exact Or.inl hrun.symm
  · rw [List.concat_eq_append, run_append] at hrun
    obtain ⟨middle, hfront, hback⟩ := hrun
    obtain ⟨next, hstep, hnil⟩ := run_cons.mp hback
    rw [run_nil, Option.some.injEq] at hnil
    exact Or.inr ⟨front, event, middle, by simp, hfront, hnil ▸ hstep⟩

/-- A machine that is given its events through a translation. -/
theorem run_map {δ : Type*} (f : δ → ε) (state : σ) (events : List δ) :
    run step state (events.map f) =
      run (fun state event => step state (f event)) state events := by
  induction events generalizing state with
  | nil => rfl
  | cons event events ih =>
      simp only [List.map_cons, run]
      congr 1
      funext next
      exact ih next

/-- A machine that takes only some of the events. -/
theorem run_restrict {p : ε → Bool} {events : List ε} {state final : σ} :
    run (fun state event => if p event then step state event else none) state events =
        some final ↔
      (∀ event ∈ events, p event = true) ∧ run step state events = some final := by
  induction events generalizing state with
  | nil => simp
  | cons event events ih =>
      simp only [run_cons, ih, Option.ite_none_right_eq_some, List.forall_mem_cons]
      constructor
      · rintro ⟨next, ⟨hevent, hstep⟩, hevents, hrest⟩
        exact ⟨⟨hevent, hevents⟩, next, hstep, hrest⟩
      · rintro ⟨⟨hevent, hevents⟩, next, hstep, hrest⟩
        exact ⟨next, ⟨hevent, hstep⟩, hevents, hrest⟩

/-- What holds at the start and is kept by every step holds after every
run. -/
theorem run_invariant {invariant : σ → Prop}
    (hstep : ∀ state event next, invariant state →
      step state event = some next → invariant next) :
    ∀ {events : List ε} {state final : σ}, invariant state →
      run step state events = some final → invariant final := by
  intro events
  induction events with
  | nil =>
      intro state final hstate hrun
      rw [run_nil, Option.some.injEq] at hrun
      exact hrun ▸ hstate
  | cons event events ih =>
      intro state final hstate hrun
      obtain ⟨next, hnext, hrest⟩ := run_cons.mp hrun
      exact ih (hstep state event next hstate hnext) hrest

/-- An invariant that counts the events of one kind. -/
theorem run_count {invariant : Nat → σ → Prop} {p : ε → Bool}
    (hstep : ∀ count state event next, invariant count state →
      step state event = some next →
        invariant (count + if p event then 1 else 0) next) :
    ∀ {events : List ε} {count : Nat} {state final : σ}, invariant count state →
      run step state events = some final →
        invariant (count + events.countP p) final := by
  intro events
  induction events with
  | nil =>
      intro count state final hstate hrun
      rw [run_nil, Option.some.injEq] at hrun
      exact hrun ▸ hstate
  | cons event events ih =>
      intro count state final hstate hrun
      obtain ⟨next, hnext, hrest⟩ := run_cons.mp hrun
      have hcount := ih (hstep count state event next hstate hnext) hrest
      rw [List.countP_cons, Nat.add_comm (events.countP p), ← Nat.add_assoc]
      exact hcount

/-- When every step lowers a measure, the measure bounds the length of every
run. -/
theorem run_length {invariant : σ → Prop} {measure : σ → Nat}
    (hstep : ∀ state event next, invariant state →
      step state event = some next →
        invariant next ∧ measure next < measure state) :
    ∀ {events : List ε} {state final : σ}, invariant state →
      run step state events = some final →
        events.length + measure final ≤ measure state := by
  intro events
  induction events with
  | nil =>
      intro state final _ hrun
      rw [run_nil, Option.some.injEq] at hrun
      simp [hrun]
  | cons event events ih =>
      intro state final hstate hrun
      obtain ⟨next, hnext, hrest⟩ := run_cons.mp hrun
      obtain ⟨hinv, hlt⟩ := hstep state event next hstate hnext
      have htail := ih hinv hrest
      rw [List.length_cons]
      omega

/-- When some step lowers a measure as long as the machine has not finished, it
can be run until it has. -/
theorem run_descend {invariant finished : σ → Prop} {measure : σ → Nat}
    (hprogress : ∀ state, invariant state → ¬ finished state →
      ∃ event next, step state event = some next ∧ invariant next ∧
        measure next < measure state)
    {state : σ} (hstate : invariant state) :
    ∃ events final, run step state events = some final ∧ finished final := by
  induction hmeasure : measure state using Nat.strong_induction_on
    generalizing state with
  | _ bound ih =>
      by_cases hfinished : finished state
      · exact ⟨[], state, run_nil state, hfinished⟩
      · obtain ⟨event, next, hnext, hinv, hlt⟩ := hprogress state hstate hfinished
        obtain ⟨events, final, hrun, hfinal⟩ :=
          ih (measure next) (hmeasure ▸ hlt) hinv rfl
        exact ⟨event :: events, final, run_cons.mpr ⟨next, hnext, hrun⟩, hfinal⟩

/-- When every step lowers a measure and some step is possible as long as the
machine has not finished, it can be run until it has. -/
theorem run_complete {invariant finished : σ → Prop} {measure : σ → Nat}
    (hstep : ∀ state event next, invariant state →
      step state event = some next →
        invariant next ∧ measure next < measure state)
    (hprogress : ∀ state, invariant state → ¬ finished state →
      ∃ event next, step state event = some next)
    {state : σ} (hstate : invariant state) :
    ∃ events final, run step state events = some final ∧ finished final := by
  apply @run_descend _ _ _ invariant finished measure _ _ hstate
  intro state hstate hunfinished
  obtain ⟨event, next, hnext⟩ := hprogress state hstate hunfinished
  exact ⟨event, next, hnext, hstep state event next hstate hnext⟩

/-- A run each of whose steps meets the condition `guard before event after`. -/
inductive GuardedRun (step : σ → ε → Option σ) (guard : σ → ε → σ → Prop) :
    σ → List ε → σ → Prop
  | nil (state : σ) : GuardedRun step guard state [] state
  | cons {state next final : σ} {event : ε} {events : List ε}
      (hstep : step state event = some next) (hguard : guard state event next)
      (hrest : GuardedRun step guard next events final) :
      GuardedRun step guard state (event :: events) final

/-- The induction rule for guarded runs. -/
theorem GuardedRun.invariant {guard : σ → ε → σ → Prop} {invariant : σ → Prop}
    (hkeep : ∀ state event next, invariant state →
      step state event = some next → guard state event next → invariant next)
    {state final : σ} {events : List ε}
    (hrun : GuardedRun step guard state events final) (hstate : invariant state) :
    invariant final := by
  induction hrun with
  | nil => exact hstate
  | cons hstep hguard _ ih => exact ih (hkeep _ _ _ hstate hstep hguard)

/-- A machine that carries out the steps that meet the condition carries out the
whole run. -/
theorem GuardedRun.carried {step' : σ → ε → Option σ} {guard : σ → ε → σ → Prop}
    {invariant : σ → Prop}
    (hcarried : ∀ state event next, invariant state → step state event = some next →
      guard state event next → step' state event = some next ∧ invariant next)
    {state final : σ} {events : List ε}
    (hrun : GuardedRun step guard state events final) (hstate : invariant state) :
    run step' state events = some final ∧ invariant final := by
  induction hrun with
  | nil state => exact ⟨run_nil state, hstate⟩
  | cons hstep hguard _ ih =>
      obtain ⟨hstep', hnext⟩ := hcarried _ _ _ hstate hstep hguard
      obtain ⟨hrest, hfinal⟩ := ih hnext
      exact ⟨run_cons.mpr ⟨_, hstep', hrest⟩, hfinal⟩

/-- Conditions that amount to the same in all states that have the invariant
single out the same runs. -/
theorem GuardedRun.iff_of_invariant {guard guard' : σ → ε → σ → Prop}
    {invariant : σ → Prop}
    (hkeep : ∀ state event next, invariant state →
      step state event = some next → guard state event next → invariant next)
    (hiff : ∀ state event next, invariant state →
      step state event = some next →
      (guard state event next ↔ guard' state event next))
    {state final : σ} {events : List ε} (hstate : invariant state) :
    GuardedRun step guard state events final ↔
      GuardedRun step guard' state events final := by
  constructor
  · intro hrun
    induction hrun with
    | nil state => exact GuardedRun.nil state
    | cons hstep hguard _ ih =>
        exact GuardedRun.cons hstep ((hiff _ _ _ hstate hstep).mp hguard)
          (ih (hkeep _ _ _ hstate hstep hguard))
  · intro hrun
    induction hrun with
    | nil state => exact GuardedRun.nil state
    | cons hstep hguard' _ ih =>
        have hguard := (hiff _ _ _ hstate hstep).mpr hguard'
        exact GuardedRun.cons hstep hguard (ih (hkeep _ _ _ hstate hstep hguard))

/-- A run of events that meet a condition of their own. -/
theorem GuardedRun.of_run {guard : ε → Prop} {state final : σ} {events : List ε}
    (hrun : run step state events = some final)
    (hevents : ∀ event ∈ events, guard event) :
    GuardedRun step (fun _ event _ => guard event) state events final := by
  induction events generalizing state with
  | nil =>
      rw [run_nil, Option.some.injEq] at hrun
      exact hrun ▸ GuardedRun.nil state
  | cons event events ih =>
      obtain ⟨next, hstep, hrest⟩ := run_cons.mp hrun
      exact GuardedRun.cons hstep (hevents event List.mem_cons_self)
        (ih hrest fun e he => hevents e (List.mem_cons_of_mem _ he))

/-- A run whose steps pass a check. -/
theorem GuardedRun.of_checked {check : σ → ε → σ → Prop}
    [∀ state event next, Decidable (check state event next)] {state final : σ}
    {events : List ε}
    (hrun : run (fun state event =>
      (step state event).filter fun next => check state event next) state
        events = some final) :
    GuardedRun step check state events final := by
  induction events generalizing state with
  | nil =>
      rw [run_nil, Option.some.injEq] at hrun
      exact hrun ▸ GuardedRun.nil state
  | cons event events ih =>
      obtain ⟨next, hnext, hrest⟩ := run_cons.mp hrun
      rw [Option.filter_eq_some_iff] at hnext
      exact GuardedRun.cons hnext.1 (of_decide_eq_true hnext.2) (ih hrest)

/-- When exactly the steps that miss the condition fail, the runs that have not
failed are those that meet it. -/
theorem GuardedRun.iff_ok {guard : σ → ε → σ → Prop} {invariant ok : σ → Prop}
    (hkeep : ∀ state event next, invariant state → step state event = some next →
      guard state event next → invariant next ∧ ok next)
    (hfail : ∀ state event next, invariant state → step state event = some next →
      ¬ guard state event next → ¬ ok next)
    (hstuck : ∀ state event, ¬ ok state → step state event = none)
    {events : List ε} : ∀ {state final : σ}, invariant state → ok state →
      run step state events = some final →
        (ok final ↔ GuardedRun step guard state events final) := by
  induction events with
  | nil =>
      intro state final _ hok hrun
      rw [run_nil, Option.some.injEq] at hrun
      exact ⟨fun _ => hrun ▸ GuardedRun.nil state, fun _ => hrun ▸ hok⟩
  | cons event events ih =>
      intro state final hstate hok hrun
      obtain ⟨next, hstep, hrest⟩ := run_cons.mp hrun
      by_cases hguard : guard state event next
      · obtain ⟨hinv, hnext⟩ := hkeep state event next hstate hstep hguard
        refine (ih hinv hnext hrest).trans ⟨GuardedRun.cons hstep hguard, ?_⟩
        intro hguarded
        cases hguarded with
        | cons hstep' _ hrest' =>
            rw [hstep, Option.some.injEq] at hstep'
            exact hstep' ▸ hrest'
      · have hnext := hfail state event next hstate hstep hguard
        constructor
        · intro hfinal
          -- Nothing is possible after the failure.
          cases events with
          | nil =>
              rw [run_nil, Option.some.injEq] at hrest
              exact absurd (hrest ▸ hfinal) hnext
          | cons event' events =>
              obtain ⟨next', hstep', _⟩ := run_cons.mp hrest
              rw [hstuck next event' hnext] at hstep'
              exact absurd hstep' (by simp)
        · intro hguarded
          cases hguarded with
          | cons hstep' hguard' _ =>
              rw [hstep, Option.some.injEq] at hstep'
              exact absurd (hstep' ▸ hguard') hguard

end Library
end OsStuff
