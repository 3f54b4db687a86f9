import Mathlib.Tactic

/-!
# Machines that take one step after another

`step` is the next state, or `none` when the machine has stopped.  `Reaches` is
execution for some number of steps; `Reaches.loop` is the rule for a loop that
counts down.
-/

namespace OsStuff
namespace Library

variable {σ : Type*} {step : σ → Option σ} {s t u : σ} {m n : Nat}

/-- The state after `n` steps. -/
def steps (step : σ → Option σ) : Nat → σ → Option σ
  | 0, s => some s
  | n + 1, s => (step s).bind (steps step n)

theorem steps_add : steps step (m + n) s = (steps step m s).bind (steps step n) := by
  induction m generalizing s with
  | zero => simp [steps]
  | succ m ih =>
      rw [Nat.succ_add, steps, steps, Option.bind_assoc]
      congr 1
      funext next
      exact ih

/-- The machine comes from one state to the other. -/
def Reaches (step : σ → Option σ) (s t : σ) : Prop :=
  ∃ n, steps step n s = some t

theorem Reaches.refl (s : σ) : Reaches step s s := ⟨0, rfl⟩

theorem Reaches.of_step (hstep : step s = some t) : Reaches step s t := by
  refine ⟨1, ?_⟩
  rw [steps, hstep]
  rfl

theorem Reaches.trans (hst : Reaches step s t) (htu : Reaches step t u) :
    Reaches step s u := by
  obtain ⟨m, hm⟩ := hst
  obtain ⟨n, hn⟩ := htu
  refine ⟨m + n, ?_⟩
  rw [steps_add, hm]
  exact hn

/-- A loop whose rounds count down comes to its end. -/
theorem Reaches.loop {invariant : Nat → σ → Prop}
    (hround : ∀ k s, invariant (k + 1) s → ∃ t, Reaches step s t ∧ invariant k t)
    (hs : invariant n s) : ∃ t, Reaches step s t ∧ invariant 0 t := by
  induction n generalizing s with
  | zero => exact ⟨s, Reaches.refl s, hs⟩
  | succ n ih =>
      obtain ⟨t, hst, ht⟩ := hround n s hs
      obtain ⟨u, htu, hu⟩ := ih ht
      exact ⟨u, hst.trans htu, hu⟩

/-- What every step keeps holds in all states that are reached. -/
theorem Reaches.keep {invariant : σ → Prop}
    (hstep : ∀ s t, invariant s → step s = some t → invariant t)
    (hst : Reaches step s t) (hs : invariant s) : invariant t := by
  obtain ⟨n, hn⟩ := hst
  induction n generalizing s with
  | zero =>
      rw [steps, Option.some.injEq] at hn
      exact hn ▸ hs
  | succ n ih =>
      obtain ⟨next, hnext, hrest⟩ := Option.bind_eq_some_iff.mp hn
      exact ih (hstep s next hs hnext) hrest

/-- A loop whose rounds come back to the same kind of state, with nothing but
states of another kind on the way, is never left. -/
theorem never_left {invariant inside : σ → Prop} {length : Nat} (hlength : 0 < length)
    (hround : ∀ s, invariant s → ∃ t, steps step length s = some t ∧ invariant t)
    (hinside : ∀ s, invariant s → ∀ m < length, ∀ t, steps step m s = some t → inside t)
    (hs : invariant s) (hst : Reaches step s t) : inside t := by
  obtain ⟨n, hn⟩ := hst
  induction n using Nat.strong_induction_on generalizing s with
  | _ n ih =>
      by_cases hshort : n < length
      · exact hinside s hs n hshort t hn
      · obtain ⟨k, rfl⟩ : ∃ k, n = length + k := ⟨n - length, by omega⟩
        obtain ⟨middle, hmiddle, hinvariant⟩ := hround s hs
        rw [steps_add, hmiddle, Option.bind_some] at hn
        exact ih k (by omega) hinvariant hn

end Library
end OsStuff
