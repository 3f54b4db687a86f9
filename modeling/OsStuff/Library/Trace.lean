import Mathlib.Tactic

/-!
# Conditions on the entries of a trace

A trace grows at its end.  `EachEntry condition trace` says of every entry what
the condition says of it and the entries before it; a longer trace only has to
be looked at where it grew.
-/

namespace OsStuff
namespace Library

variable {γ : Type*} {condition : List γ → γ → Prop} {trace : List γ} {entry : γ}

/-- Every entry meets the condition, given the entries before it. -/
def EachEntry (condition : List γ → γ → Prop) (trace : List γ) : Prop :=
  ∀ front entry back, trace = front ++ entry :: back → condition front entry

@[simp] theorem eachEntry_nil : EachEntry condition [] := by
  intro front entry back hsplit
  exact absurd hsplit (by simp)

@[simp] theorem eachEntry_concat :
    EachEntry condition (trace ++ [entry]) ↔
      EachEntry condition trace ∧ condition trace entry := by
  constructor
  · intro hall
    refine ⟨fun front entry' back hsplit => ?_, hall trace entry [] rfl⟩
    apply hall front entry' (back ++ [entry])
    rw [hsplit]
    simp
  · rintro ⟨htrace, hentry⟩ front entry' back hsplit
    rcases List.eq_nil_or_concat back with rfl | ⟨back, last, rfl⟩
    · obtain ⟨rfl, hlast⟩ := List.append_inj' hsplit rfl
      rwa [← List.singleton_inj.mp hlast]
    · rw [List.concat_eq_append, ← List.cons_append, ← List.append_assoc] at hsplit
      obtain ⟨hfront, -⟩ := List.append_inj' hsplit rfl
      exact htrace front entry' back hfront

theorem EachEntry.concat (htrace : EachEntry condition trace)
    (hentry : condition trace entry) : EachEntry condition (trace ++ [entry]) :=
  eachEntry_concat.mpr ⟨htrace, hentry⟩

/-- Two entries at once. -/
theorem eachEntry_append_pair {entry' : γ} :
    EachEntry condition (trace ++ [entry, entry']) ↔
      EachEntry condition trace ∧ condition trace entry ∧
        condition (trace ++ [entry]) entry' := by
  have hsplit : trace ++ [entry, entry'] = trace ++ [entry] ++ [entry'] := by simp
  rw [hsplit, eachEntry_concat, eachEntry_concat, and_assoc]

end Library
end OsStuff
