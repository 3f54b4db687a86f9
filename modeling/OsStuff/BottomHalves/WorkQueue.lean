import OsStuff.BottomHalves.AsciiMap
import OsStuff.Library.Run

/-!
# `wq/main.c`

The interrupt hands every scancode over in a variable, presses and releases alike,
and queues two works.  A work that is already in the queue is not queued again;
the kernel takes a work out of the queue before it calls its handler.  The handler
of `work1` reads the variable twice.
-/

namespace OsStuff
namespace BottomHalves
namespace WorkQueue

open Library

/-- Where `work1_handler` is. -/
inductive Phase
  | idle
  /-- Before the test of the scancode. -/
  | testing
  /-- Behind the test, before the key is looked up. -/
  | printing
  deriving DecidableEq, Repr

structure State where
  scancode : Scancode
  /-- `alloc_workqueue` has returned. -/
  queue : Bool
  pending1 : Bool
  phase : Phase
  pending2 : Bool
  /-- `work2_handler` has been called. -/
  running2 : Bool
  /-- The keys that `work1_handler` has printed. -/
  printed : List (Option String)
  deriving DecidableEq, Repr

/-- After `md_init`. -/
def start : State where
  scancode := 0
  queue := true
  pending1 := false
  phase := .idle
  pending2 := false
  running2 := false
  printed := []

inductive IrqReturn
  | none
  | handled
  deriving DecidableEq, Repr

/-- `irq_handler`, for the byte at the keyboard port.  What `queue_work` returns
is only printed. -/
def irqHandler (irq : Int) (scancode : Scancode) (state : State) : IrqReturn × State :=
  if irq ≠ irqNumber then (.none, state)
  else
    let state := { state with scancode := scancode }
    let state :=
      if state.queue then { state with pending1 := true, pending2 := true } else state
    (.handled, state)

inductive Event
  | interrupt (irq : Int) (scancode : Scancode)
  /-- The kernel takes `work1` out of the queue and calls `work1_handler`. -/
  | begin1
  /-- `work1_handler` tests the scancode. -/
  | test
  /-- `work1_handler` looks the key up and prints it. -/
  | print
  | begin2
  | end2
  deriving DecidableEq, Repr

def step (state : State) : Event → Option State
  | .interrupt irq scancode => some (irqHandler irq scancode state).2
  | .begin1 =>
      if state.pending1 ∧ state.phase = .idle then
        some { state with pending1 := false, phase := .testing }
      else none
  | .test =>
      if state.phase = .testing then
        some { state with
          phase := if isPress state.scancode then .printing else .idle }
      else none
  | .print =>
      if state.phase = .printing then
        some { state with
          printed := state.printed ++ [key state.scancode], phase := .idle }
      else none
  | .begin2 =>
      if state.pending2 ∧ ¬ state.running2 then
        some { state with pending2 := false, running2 := true }
      else none
  | .end2 =>
      if state.running2 then some { state with running2 := false } else none

/-- The scancode that the event puts into the variable. -/
def Event.arrival : Event → Option Scancode
  | .interrupt irq scancode => if irq = irqNumber then some scancode else none
  | _ => none

/-- The scancode that the event is a press of. -/
def Event.press (event : Event) : Option Scancode :=
  event.arrival.filter fun scancode => isPress scancode

/-- The keys pressed in a sequence of events. -/
def pressed (events : List Event) : List (Option String) :=
  (events.filterMap Event.press).map key

/-- No handler is pending. -/
structure Quiet (state : State) : Prop where
  pending1 : state.pending1 = false
  phase : state.phase = .idle
  pending2 : state.pending2 = false
  running2 : state.running2 = false

/-- The variable holds a press for the work in the queue. -/
def Waiting (state : State) : Prop :=
  state.pending1 = true ∧ isPress state.scancode = true

/-- What an interrupt must find.  An idle handler must not have a press waiting
for it.  A handler before its test must have no press to print when a release
arrives, and otherwise the press of the same key, with nothing in the queue.  A
handler behind its test must have the same key to print, and no press waiting. -/
def HarmlessArrival (state : State) (scancode : Scancode) : Prop :=
  match state.phase with
  | .idle => ¬ Waiting state
  | .testing =>
      if isPress scancode then
        isPress state.scancode = true ∧ state.pending1 = false ∧
          key state.scancode = key scancode
      else isPress state.scancode = false
  | .printing => key state.scancode = key scancode ∧ ¬ Waiting state

def Harmless (state : State) (event : Event) (_ : State) : Prop :=
  ∀ scancode, event.arrival = some scancode → HarmlessArrival state scancode

instance (state : State) : Decidable (Waiting state) :=
  inferInstanceAs (Decidable (_ ∧ _))

instance (state : State) (scancode : Scancode) :
    Decidable (HarmlessArrival state scancode) :=
  match h : state.phase with
  | .idle => decidable_of_iff (¬ Waiting state) (by simp [HarmlessArrival, h])
  | .testing => decidable_of_iff _ (by rw [HarmlessArrival, h])
  | .printing => decidable_of_iff _ (by rw [HarmlessArrival, h])

instance (state next : State) (event : Event) : Decidable (Harmless state event next) :=
  inferInstanceAs (Decidable (∀ scancode ∈ event.arrival, HarmlessArrival state scancode))

/-! ## What is still to be printed -/

variable {state next final : State} {event : Event} {events : List Event}

/-- The keys that will be printed if there are no more interrupts. -/
def owed (state : State) : List (Option String) :=
  (match state.phase with
    | .idle => []
    | .testing => if isPress state.scancode then [key state.scancode] else []
    | .printing => [key state.scancode]) ++
  (if state.pending1 ∧ isPress state.scancode then [key state.scancode] else [])

theorem owed_of_quiet (hquiet : Quiet state) : owed state = [] := by
  simp [owed, hquiet.pending1, hquiet.phase]

/-- A step of a handler prints what is owed, or nothing. -/
theorem total_of_handler (hstep : step state event = some next)
    (hhandler : event.arrival = none) :
    next.printed ++ owed next = state.printed ++ owed state ∧
      next.queue = state.queue := by
  cases event with
  | interrupt irq scancode =>
      have hirq : irq ≠ irqNumber := by
        intro hirq
        simp [Event.arrival, hirq] at hhandler
      simp only [step, irqHandler, if_pos hirq, Option.some.injEq] at hstep
      rw [← hstep]
      exact ⟨rfl, rfl⟩
  -- Each part of the handler moves a key from what is owed to what is printed, or leaves
  -- both.
  | begin1 =>
      simp only [step] at hstep
      split at hstep
      · rename_i hcond
        obtain ⟨hpending, hphase⟩ := hcond
        rw [← Option.some.inj hstep]
        simp [owed, hpending, hphase]
      · exact absurd hstep (by simp)
  | test =>
      simp only [step] at hstep
      split at hstep
      · rename_i hphase
        rw [← Option.some.inj hstep]
        cases hpress : isPress state.scancode <;> simp [owed, hphase, hpress]
      · exact absurd hstep (by simp)
  | print =>
      simp only [step] at hstep
      split at hstep
      · rename_i hphase
        rw [← Option.some.inj hstep]
        simp [owed, hphase]
      · exact absurd hstep (by simp)
  | begin2 =>
      simp only [step] at hstep
      split at hstep
      · rw [← Option.some.inj hstep]
        exact ⟨rfl, rfl⟩
      · exact absurd hstep (by simp)
  | end2 =>
      simp only [step] at hstep
      split at hstep
      · rw [← Option.some.inj hstep]
        exact ⟨rfl, rfl⟩
      · exact absurd hstep (by simp)

/-- What an interrupt of the keyboard does. -/
theorem arrival_eq (hqueue : state.queue = true) (hstep : step state event = some next)
    {scancode : Scancode} (harrival : event.arrival = some scancode) :
    next = { state with scancode := scancode, pending1 := true, pending2 := true } := by
  cases event with
  | interrupt irq scancode' =>
      simp only [Event.arrival] at harrival
      split at harrival
      · rename_i hirq
        rw [Option.some.injEq] at harrival
        subst harrival
        simp only [step, irqHandler, hirq, ne_eq, not_true_eq_false, if_false, hqueue,
          if_true, Option.some.injEq] at hstep
        rw [← hstep, hqueue]
      · exact absurd harrival (by simp)
  | begin1 => exact absurd harrival (by simp [Event.arrival])
  | test => exact absurd harrival (by simp [Event.arrival])
  | print => exact absurd harrival (by simp [Event.arrival])
  | begin2 => exact absurd harrival (by simp [Event.arrival])
  | end2 => exact absurd harrival (by simp [Event.arrival])

/-- A step adds its key to what is printed in the end exactly when it is
harmless. -/
theorem harmless_iff (hqueue : state.queue = true)
    (hstep : step state event = some next) :
    Harmless state event next ↔ next.printed ++ owed next =
      state.printed ++ owed state ++ (event.press.map key).toList := by
  cases harrival : event.arrival with
  | none =>
      have htotal := (total_of_handler hstep harrival).1
      constructor
      · intro _
        simpa [Event.press, harrival] using htotal
      · intro _ scancode hsome
        exact absurd (harrival.symm.trans hsome) (by simp)
  | some scancode =>
      rw [arrival_eq hqueue hstep harrival]
      have hone : Harmless state event next ↔ HarmlessArrival state scancode := by
        simp [Harmless, harrival]
      unfold Harmless at hone ⊢
      have hkey : (event.press.map key).toList =
          if isPress scancode then [key scancode] else [] := by
        cases hpress : isPress scancode <;> simp [Event.press, harrival, hpress]
      rw [hone, hkey, List.append_assoc, List.append_cancel_left_eq]
      unfold HarmlessArrival Waiting owed
      cases hpress : isPress scancode <;> cases hold : isPress state.scancode <;>
        cases hpending : state.pending1 <;> cases hphase : state.phase
      all_goals simp
      all_goals exact eq_comm

theorem pressed_append (front back : List Event) :
    pressed (front ++ back) = pressed front ++ pressed back := by
  simp [pressed]

theorem pressed_singleton (event : Event) :
    pressed [event] = (event.press.map key).toList := by
  cases hpress : event.press <;> simp [pressed, hpress]

theorem pressed_of_handlers (hhandlers : ∀ event ∈ events, Event.arrival event = none) :
    pressed events = [] := by
  induction events with
  | nil => rfl
  | cons event events ih =>
      have hfirst := hhandlers event (by simp)
      have hrest := ih fun e he => hhandlers e (List.mem_cons_of_mem _ he)
      simpa [pressed, Event.press, hfirst] using hrest

theorem queue_of_step (hqueue : state.queue = true) (hstep : step state event = some next) :
    next.queue = true := by
  cases harrival : event.arrival with
  | none => exact (total_of_handler hstep harrival).2.trans hqueue
  | some scancode =>
      rw [arrival_eq hqueue hstep harrival]
      exact hqueue

/-- In a run of harmless steps every key is printed or owed. -/
theorem total_of_guarded (hqueue : state.queue = true)
    (hrun : GuardedRun step Harmless state events final) :
    final.queue = true ∧
      final.printed ++ owed final = state.printed ++ owed state ++ pressed events := by
  induction hrun with
  | nil state => exact ⟨hqueue, by simp [pressed]⟩
  | @cons state next final event events hstep hharmless hrest ih =>
      obtain ⟨hqueue', htotal⟩ := ih (queue_of_step hqueue hstep)
      refine ⟨hqueue', ?_⟩
      have hpressed := pressed_append [event] events
      rw [List.singleton_append, pressed_singleton] at hpressed
      rw [htotal, (harmless_iff hqueue hstep).mp hharmless, hpressed, List.append_assoc]

/-! ## The handlers come to an end -/

/-- How many steps the handlers have left. -/
def remaining (state : State) : Nat :=
  (if state.pending1 then 3 else 0) +
    (match state.phase with
      | .idle => 0
      | .testing => 2
      | .printing => 1) +
    (if state.pending2 then 2 else 0) + (if state.running2 then 1 else 0)

/-- While a handler is pending one can take a step. -/
theorem exists_handler (hpending : ¬ Quiet state) :
    ∃ event next, event.arrival = none ∧ step state event = some next ∧
      remaining next < remaining state := by
  cases hphase : state.phase with
  | testing =>
      refine ⟨.test, _, rfl, if_pos hphase, ?_⟩
      cases isPress state.scancode <;> simp [remaining, hphase]
  | printing =>
      refine ⟨.print, _, rfl, if_pos hphase, ?_⟩
      simp [remaining, hphase]
  | idle =>
      cases hone : state.pending1 with
      | true =>
          refine ⟨.begin1, _, rfl, if_pos ⟨hone, hphase⟩, ?_⟩
          simp [remaining, hphase, hone]
      | false =>
          cases hrunning : state.running2 with
          | true =>
              refine ⟨.end2, _, rfl, if_pos hrunning, ?_⟩
              simp [remaining, hrunning]
          | false =>
              cases htwo : state.pending2 with
              | true =>
                  refine ⟨.begin2, _, rfl, if_pos ⟨htwo, by simp [hrunning]⟩, ?_⟩
                  simp [remaining, htwo, hrunning]
              | false => exact absurd ⟨hone, hphase, htwo, hrunning⟩ hpending

/-- Left alone, the handlers print what is owed. -/
theorem exists_drain (state : State) : ∃ handlers final,
    (∀ event ∈ handlers, Event.arrival event = none) ∧
      run step state handlers = some final ∧ Quiet final ∧
        final.printed = state.printed ++ owed state := by
  induction hn : remaining state using Nat.strong_induction_on generalizing state with
  | _ n ih =>
      by_cases hquiet : Quiet state
      · exact ⟨[], state, by simp, rfl, hquiet, by simp [owed_of_quiet hquiet]⟩
      · obtain ⟨event, next, harrival, hstep, hless⟩ := exists_handler hquiet
        obtain ⟨handlers, final, hall, hrun, hfinal, hprinted⟩ :=
          ih (remaining next) (hn ▸ hless) next rfl
        refine ⟨event :: handlers, final, ?_, run_cons.mpr ⟨next, hstep, hrun⟩, hfinal, ?_⟩
        · intro e he
          rcases List.mem_cons.mp he with rfl | he
          · exact harrival
          · exact hall e he
        · rw [hprinted, (total_of_handler hstep harrival).1]

/-- If every interrupt finds the handler as it must, the keys printed are the keys
pressed. -/
theorem printed_of_guarded (hrun : GuardedRun step Harmless start events final)
    (hquiet : Quiet final) : final.printed = pressed events := by
  have htotal := (total_of_guarded rfl hrun).2
  rw [owed_of_quiet hquiet, List.append_nil] at htotal
  simpa [start, owed] using htotal

/-- After the first interrupt that does not, the handlers print something else
unless there are more interrupts. -/
theorem exists_other_printed (hrun : GuardedRun step Harmless start events state)
    (hstep : step state event = some next) (hharm : ¬ Harmless state event next) :
    ∃ handlers final, (∀ event ∈ handlers, Event.arrival event = none) ∧
      run step next handlers = some final ∧ Quiet final ∧
        final.printed ≠ pressed (events ++ [event] ++ handlers) := by
  obtain ⟨hqueue, htotal⟩ := total_of_guarded rfl hrun
  obtain ⟨handlers, final, hhandlers, hdrain, hquiet, hprinted⟩ := exists_drain next
  refine ⟨handlers, final, hhandlers, hdrain, hquiet, fun hall => hharm ?_⟩
  rw [harmless_iff hqueue hstep, ← hprinted, hall, htotal, pressed_append,
    pressed_append, pressed_singleton, pressed_of_handlers hhandlers, List.append_nil]
  simp [start, owed]

end WorkQueue
end BottomHalves
end OsStuff
