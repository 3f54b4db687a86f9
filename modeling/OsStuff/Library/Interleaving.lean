import OsStuff.Library.Processes
import OsStuff.Library.Run

/-!
# Threads over shared memory

A system is a shared part and a list of local states.  `advance i shared local`
is what one atomic step of thread `i` makes of the shared part and of its own
local state, or `none` when the thread is blocked; an event is the index of the
thread that moves.
-/

namespace OsStuff
namespace Library
namespace Interleaving

open Processes

/-- The shared part and the local state of every thread. -/
structure System (σ α : Type*) where
  shared : σ
  threads : List α
  deriving DecidableEq, Repr

variable {σ α : Type*} {advance : Nat → σ → α → Option (σ × α)}
  {system system' : System σ α} {shared shared' : σ} {thread thread' : α}
  {i : Nat}

/-- One step of thread `i`. -/
def step (advance : Nat → σ → α → Option (σ × α)) (system : System σ α)
    (i : Nat) : Option (System σ α) :=
  system.threads[i]?.bind fun thread =>
    (advance i system.shared thread).map fun (shared, thread) =>
      ⟨shared, system.threads.set i thread⟩

/-- What a step can do. -/
theorem step_cases (hstep : step advance system i = some system') :
    ∃ thread shared' thread', system.threads[i]? = some thread ∧
      advance i system.shared thread = some (shared', thread') ∧
      system' = ⟨shared', system.threads.set i thread'⟩ := by
  obtain ⟨thread, hi, hmap⟩ := Option.bind_eq_some_iff.mp hstep
  obtain ⟨⟨shared', thread'⟩, hadvance, hsystem⟩ := Option.map_eq_some_iff.mp hmap
  exact ⟨thread, shared', thread', hi, hadvance, hsystem.symm⟩

theorem step_eq (hi : system.threads[i]? = some thread)
    (hadvance : advance i system.shared thread = some (shared', thread')) :
    step advance system i = some ⟨shared', system.threads.set i thread'⟩ := by
  unfold step
  rw [hi, Option.bind_some, hadvance, Option.map_some]

/-- Steps of one thread, with nobody else moving. -/
def solo (advance : Nat → σ → α → Option (σ × α)) (i : Nat) :
    Nat → σ → α → Option (σ × α)
  | 0, shared, thread => some (shared, thread)
  | n + 1, shared, thread =>
      (advance i shared thread).bind fun (shared, thread) =>
        solo advance i n shared thread

theorem solo_append {m n : Nat} {shared₁ : σ} {thread₁ : α}
    (hfirst : solo advance i m shared thread = some (shared₁, thread₁))
    (hrest : solo advance i n shared₁ thread₁ = some (shared', thread')) :
    solo advance i (m + n) shared thread = some (shared', thread') := by
  induction m generalizing shared thread with
  | zero =>
      rw [solo, Option.some.injEq, Prod.mk.injEq] at hfirst
      obtain ⟨rfl, rfl⟩ := hfirst
      rwa [Nat.zero_add]
  | succ m ih =>
      obtain ⟨⟨shared₂, thread₂⟩, hadvance, hback⟩ := Option.bind_eq_some_iff.mp hfirst
      rw [Nat.succ_add, solo, hadvance, Option.bind_some]
      exact ih hback

/-- Steps of one thread leave the other threads as they are. -/
theorem run_solo {n : Nat} (hi : system.threads[i]? = some thread)
    (hsolo : solo advance i n system.shared thread = some (shared', thread')) :
    run (step advance) system (List.replicate n i) =
      some ⟨shared', system.threads.set i thread'⟩ := by
  induction n generalizing system thread with
  | zero =>
      rw [solo, Option.some.injEq, Prod.mk.injEq] at hsolo
      obtain ⟨rfl, rfl⟩ := hsolo
      obtain ⟨hlt, hget⟩ := List.getElem?_eq_some_iff.mp hi
      rw [← hget, List.set_getElem_self]
      rfl
  | succ n ih =>
      obtain ⟨⟨shared₁, thread₁⟩, hadvance, hrest⟩ :=
        Option.bind_eq_some_iff.mp hsolo
      refine run_cons.mpr ⟨_, step_eq hi hadvance, ?_⟩
      have hnext : (System.mk shared₁ (system.threads.set i thread₁)).threads[i]? =
          some thread₁ := set_self hi
      have hrun := ih hnext hrest
      rwa [List.set_set] at hrun

/-- `run_solo` by what it leaves: the threads that have not moved are as they
were. -/
theorem exists_run_solo {n : Nat} (hi : system.threads[i]? = some thread)
    (hsolo : solo advance i n system.shared thread = some (shared', thread')) :
    ∃ events system', run (step advance) system events = some system' ∧
      system'.shared = shared' ∧ system'.threads[i]? = some thread' ∧
      ∀ j, j ≠ i → system'.threads[j]? = system.threads[j]? :=
  ⟨_, _, run_solo hi hsolo, rfl, set_self hi, fun _ hj => set_other hj.symm⟩

/-- What no step of a thread changes about itself stays as it was for every
thread. -/
theorem map_run {β : Type*} {f : α → β} {events : List Nat}
    (hkeep : ∀ i shared thread shared' thread',
      advance i shared thread = some (shared', thread') → f thread' = f thread)
    (hrun : run (step advance) system events = some system') :
    system'.threads.map f = system.threads.map f := by
  refine @run_invariant _ _ _
    (fun s : System σ α => s.threads.map f = system.threads.map f)
    ?_ _ _ _ rfl hrun
  intro state i next hstate hstep
  obtain ⟨thread, shared', thread', hi, hadvance, rfl⟩ := step_cases hstep
  obtain ⟨hlt, hget⟩ := List.getElem?_eq_some_iff.mp hi
  rw [← hstate, List.map_set, hkeep _ _ _ _ _ hadvance, ← hget]
  rw [← List.map_set, List.set_getElem_self]

end Interleaving
end Library
end OsStuff
