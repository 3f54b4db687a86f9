import OsStuff.BottomHalves.WorkQueue

/-!
# Loading and unloading the module of `wq/main.c`

`md_init` registers the interrupt first and creates the queue and the two works
behind it; `md_exit` destroys the queue before it frees the interrupt.  Neither
looks at what the calls of the kernel return, and nothing frees the works.

A use of memory that is not there ends the model's run, whatever it does to the
machine: of a null pointer, a work that no `INIT_WORK` has set up, a queue that has
been destroyed, handlers that have been unloaded, or what lies outside `ascii_map`.
`Hazard` are the moments at which an interrupt, a failed call or a key leads to
one.  `loading_accounted` says that there are no others, and what remains
allocated.
-/

namespace OsStuff
namespace BottomHalves
namespace WorkQueueLoading

open Library

/-- What a pointer of the module points to. -/
inductive Pointer
  | null
  /-- Memory that no `INIT_WORK` has set up. -/
  | raw
  | ready
  | freed
  deriving DecidableEq, Repr

/-- The statement of `md_init` or `md_exit` that comes next; `draining` is within
`destroy_workqueue`, and `oops` is behind a use of memory that is not there. -/
inductive Stage
  | unloaded
  | allocWorkqueue
  | kmalloc1
  | initWork1
  | kmalloc2
  | initWork2
  | ret
  | loaded
  | flushWorkqueue
  | destroyWorkqueue
  | draining
  | freeIrq
  | oops
  deriving DecidableEq, Repr

/-- Which calls of `md_init` succeed. -/
structure Outcomes where
  requestIrq : Bool
  allocWorkqueue : Bool
  kmalloc1 : Bool
  kmalloc2 : Bool
  deriving DecidableEq, Repr

/-- `irq` is set while the kernel calls `irq_handler`; `queues` and `works` are
what is allocated. -/
structure State where
  stage : Stage
  outcomes : Outcomes
  irq : Bool
  queue : Pointer
  work1 : Pointer
  work2 : Pointer
  handlers : WorkQueue.State
  queues : Nat
  works : Nat
  deriving DecidableEq, Repr

inductive Event
  /-- `insmod`, up to the return of `request_irq`. -/
  | insmod (outcomes : Outcomes)
  | rmmod
  /-- The next statement of `md_init` or `md_exit`. -/
  | advance
  | interrupt (scancode : Scancode)
  /-- A step of the handlers of the works. -/
  | worker (event : WorkQueue.Event)
  deriving DecidableEq, Repr

def State.oops (state : State) : State := { state with stage := .oops }

/-- Nothing is queued and no handler is running. -/
def Idle (handlers : WorkQueue.State) : Prop :=
  handlers.pending1 = false ∧ handlers.phase = .idle ∧ handlers.pending2 = false ∧
    handlers.running2 = false

instance (handlers : WorkQueue.State) : Decidable (Idle handlers) := by
  unfold Idle
  infer_instance

/-- The result of `kmalloc`. -/
def kmalloc (success : Bool) : Pointer := if success then .raw else .null

/-- `INIT_WORK` writes to the work. -/
def initWork (work : Pointer) : Option Pointer :=
  match work with
  | .raw | .ready => some .ready
  | .null | .freed => none

def advance (state : State) : Option State :=
  match state.stage with
  | .allocWorkqueue =>
      if state.outcomes.allocWorkqueue then
        some { state with
          stage := .kmalloc1
          queue := .ready
          handlers := { state.handlers with queue := true }
          queues := state.queues + 1 }
      else some { state with stage := .kmalloc1 }
  | .kmalloc1 =>
      some { state with
        stage := .initWork1
        work1 := kmalloc state.outcomes.kmalloc1
        works := state.works + state.outcomes.kmalloc1.toNat }
  | .initWork1 =>
      match initWork state.work1 with
      | some work1 => some { state with stage := .kmalloc2, work1 := work1 }
      | none => some state.oops
  | .kmalloc2 =>
      some { state with
        stage := .initWork2
        work2 := kmalloc state.outcomes.kmalloc2
        works := state.works + state.outcomes.kmalloc2.toNat }
  | .initWork2 =>
      match initWork state.work2 with
      | some work2 => some { state with stage := .ret, work2 := work2 }
      | none => some state.oops
  | .ret =>
      -- A module whose `md_init` fails is not loaded.
      if state.outcomes.requestIrq then some { state with stage := .loaded }
      else some { state with stage := .unloaded }
  | .flushWorkqueue =>
      if state.queue = .ready then some { state with stage := .destroyWorkqueue }
      else some state.oops
  | .destroyWorkqueue => some { state with stage := .draining }
  | .draining =>
      if Idle state.handlers then
        some { state with
          stage := .freeIrq
          queue := .freed
          queues := state.queues - 1 }
      else none
  | .freeIrq => some { state with stage := .unloaded, irq := false }
  | .unloaded | .loaded | .oops => none

/-- `work1_handler` prints what lies outside `ascii_map`. -/
def printsOutside (handlers : WorkQueue.State) : WorkQueue.Event → Prop
  | .print => key handlers.scancode = none
  | _ => False

instance (handlers : WorkQueue.State) (event : WorkQueue.Event) :
    Decidable (printsOutside handlers event) := by
  cases event <;> (unfold printsOutside; infer_instance)

/-- `irq_handler` with what its pointers point to.  A queue that is being drained
does not take works from it. -/
def interrupt (state : State) (scancode : Scancode) : State :=
  if state.queue = .null ∨ state.stage = .draining then
    { state with handlers := { state.handlers with scancode := scancode } }
  else if state.queue = .ready ∧ state.work1 = .ready ∧ state.work2 = .ready then
    { state with handlers := (WorkQueue.irqHandler irqNumber scancode state.handlers).2 }
  else state.oops

def step (state : State) : Event → Option State
  | .insmod outcomes =>
      if state.stage = .unloaded then
        some { state with
          stage := .allocWorkqueue
          outcomes := outcomes
          irq := outcomes.requestIrq
          queue := .null
          work1 := .null
          work2 := .null
          handlers := { state.handlers with scancode := 0, queue := false } }
      else none
  | .rmmod =>
      if state.stage = .loaded then some { state with stage := .flushWorkqueue } else none
  | .advance => advance state
  | .interrupt scancode =>
      if state.irq = true ∧ state.stage ≠ .oops then some (interrupt state scancode) else none
  | .worker event =>
      match event with
      | .interrupt _ _ => none
      | event =>
          if state.stage = .oops then none
          else
            (WorkQueue.step state.handlers event).map fun handlers =>
              -- The handlers are code of the module.
              if state.stage = .unloaded ∨ printsOutside state.handlers event then
                state.oops
              else { state with handlers := handlers }

def State.initial : State where
  stage := .unloaded
  outcomes := ⟨false, false, false, false⟩
  irq := false
  queue := .null
  work1 := .null
  work2 := .null
  handlers := { WorkQueue.start with queue := false }
  queues := 0
  works := 0

/-! ## The fatal moments -/

/-- Between the creation of the queue and that of the second work. -/
def Stage.creating : Stage → Bool
  | .kmalloc1 | .initWork1 | .kmalloc2 | .initWork2 => true
  | _ => false

/-- The event is fatal. -/
def Hazard (state : State) : Event → Prop
  | .interrupt _ =>
      state.stage = .freeIrq ∨
        state.stage.creating = true ∧ state.outcomes.allocWorkqueue = true
  | .advance =>
      state.stage = .initWork1 ∧ state.outcomes.kmalloc1 = false ∨
        state.stage = .initWork2 ∧ state.outcomes.kmalloc2 = false ∨
          state.stage = .flushWorkqueue ∧ state.outcomes.allocWorkqueue = false
  | .worker event => printsOutside state.handlers event
  | _ => False

instance (state : State) (event : Event) : Decidable (Hazard state event) := by
  cases event <;> (unfold Hazard; infer_instance)

variable {state next : State} {event : Event} {events : List Event}
  {scancode : Scancode} {handlers : WorkQueue.State} {count : Nat}

/-- What `alloc_workqueue` has returned. -/
def created (outcomes : Outcomes) : Pointer :=
  if outcomes.allocWorkqueue then .ready else .null

/-- What holds before each statement. -/
def Stage.Assertion (state : State) : Stage → Prop
  | .unloaded => state.irq = false
  | .allocWorkqueue => Idle state.handlers ∧ state.irq = state.outcomes.requestIrq ∧
      state.queue = .null ∧ state.work2 = .null
  | .kmalloc1 => Idle state.handlers ∧ state.irq = state.outcomes.requestIrq ∧
      state.queue = created state.outcomes ∧ state.work2 = .null
  | .initWork1 => Idle state.handlers ∧ state.irq = state.outcomes.requestIrq ∧
      state.queue = created state.outcomes ∧ state.work2 = .null ∧
      state.work1 = kmalloc state.outcomes.kmalloc1
  | .kmalloc2 => Idle state.handlers ∧ state.irq = state.outcomes.requestIrq ∧
      state.queue = created state.outcomes ∧ state.work2 = .null ∧ state.work1 = .ready
  | .initWork2 => Idle state.handlers ∧ state.irq = state.outcomes.requestIrq ∧
      state.queue = created state.outcomes ∧
      state.work2 = kmalloc state.outcomes.kmalloc2 ∧ state.work1 = .ready
  | .ret => state.irq = state.outcomes.requestIrq ∧
      state.queue = created state.outcomes ∧ state.work2 = .ready ∧ state.work1 = .ready
  | .loaded | .flushWorkqueue =>
      state.queue = created state.outcomes ∧ state.work2 = .ready ∧ state.work1 = .ready
  | .destroyWorkqueue | .draining =>
      state.queue = .ready ∧ state.work2 = .ready ∧ state.work1 = .ready
  | .freeIrq => Idle state.handlers ∧ state.queue = .freed
  | .oops => True

structure Inv (state : State) : Prop where
  quiet : state.irq = false → Idle state.handlers
  stage : state.stage.Assertion state

theorem Inv.initial : Inv .initial where
  quiet := fun _ => ⟨rfl, rfl, rfl, rfl⟩
  stage := rfl

theorem Inv.unloaded (hinv : Inv state) (hstage : state.stage = .unloaded) :
    Idle state.handlers := by
  have hassert := hinv.stage
  rw [hstage] at hassert
  exact hinv.quiet hassert

theorem Inv.insmod (hinv : Inv state) (hstage : state.stage = .unloaded)
    (outcomes : Outcomes) :
    Inv { state with
      stage := .allocWorkqueue
      outcomes := outcomes
      irq := outcomes.requestIrq
      queue := .null
      work1 := .null
      work2 := .null
      handlers := { state.handlers with scancode := 0, queue := false } } where
  quiet := fun _ => hinv.unloaded hstage
  stage := ⟨hinv.unloaded hstage, rfl, rfl, rfl⟩

/-! ## Interrupts -/

theorem kmalloc_ne_ready (success : Bool) : kmalloc success ≠ .ready := by
  cases success <;> simp [kmalloc]

theorem created_eq_ready {outcomes : Outcomes} :
    created outcomes = .ready ↔ outcomes.allocWorkqueue = true := by
  cases h : outcomes.allocWorkqueue <;> simp [created, h]

theorem created_eq_null {outcomes : Outcomes} :
    created outcomes = .null ↔ outcomes.allocWorkqueue = false := by
  cases h : outcomes.allocWorkqueue <;> simp [created, h]

/-- An interrupt that finds no queue that takes works. -/
theorem Inv.interrupt_ignored (hinv : Inv state) (hirq : state.irq = true)
    (hignored : state.queue = .null ∨ state.stage = .draining) (hoops : state.stage ≠ .oops) :
    Inv (interrupt state scancode) ∧ (interrupt state scancode).stage ≠ .oops := by
  unfold interrupt
  rw [if_pos hignored]
  refine ⟨⟨fun h => absurd (hirq.symm.trans h) (by simp), ?_⟩, hoops⟩
  have hassert := hinv.stage
  cases hstage : state.stage with
  | _ => rw [hstage] at hassert; exact hassert

/-- An interrupt that queues both works, at a statement that allows for handlers
that run. -/
theorem Inv.interrupt_queues (hinv : Inv state) (hirq : state.irq = true)
    (hready : state.queue = .ready ∧ state.work1 = .ready ∧ state.work2 = .ready)
    (hstage : state.stage = .ret ∨ state.stage = .loaded ∨ state.stage = .flushWorkqueue ∨
      state.stage = .destroyWorkqueue) :
    Inv (interrupt state scancode) ∧ (interrupt state scancode).stage ≠ .oops := by
  have hassert := hinv.stage
  unfold interrupt
  have hnot : ¬ (state.queue = .null ∨ state.stage = .draining) := by
    rw [hready.1]
    rintro (h | h)
    · exact absurd h (by simp)
    · rw [h] at hstage
      exact absurd hstage (by simp)
  rw [if_neg hnot, if_pos hready]
  rcases hstage with h | h | h | h
  all_goals
    refine ⟨⟨fun hfalse => absurd (hirq.symm.trans hfalse) (by simp), ?_⟩, by simp [h]⟩
    show state.stage.Assertion _
    rw [h] at hassert ⊢
    exact hassert

theorem interrupt_oops (hqueue : state.queue ≠ .null) (hstage : state.stage ≠ .draining)
    (hnot : ¬ (state.queue = .ready ∧ state.work1 = .ready ∧ state.work2 = .ready)) :
    (interrupt state scancode).stage = .oops := by
  unfold interrupt
  rw [if_neg (not_or.mpr ⟨hqueue, hstage⟩), if_neg hnot]
  rfl

/-- After the event the module still works, unless the event was fatal. -/
structure Judged (state : State) (event : Event) (next : State) : Prop where
  safe : ¬ Hazard state event → Inv next ∧ next.stage ≠ .oops
  fatal : Hazard state event → next.stage = .oops

theorem Judged.of_safe (hsafe : ¬ Hazard state event)
    (hnext : Inv next ∧ next.stage ≠ .oops) : Judged state event next :=
  ⟨fun _ => hnext, fun h => absurd h hsafe⟩

theorem not_hazard (hcreating : state.stage.creating = false)
    (hfree : state.stage ≠ .freeIrq) : ¬ Hazard state (.interrupt scancode) := by
  rintro (h | ⟨h, _⟩)
  · exact hfree h
  · exact absurd (hcreating.symm.trans h) (by simp)

/-- While the works are created everything depends on the queue. -/
theorem Inv.interrupt_creating (hinv : Inv state) (hirq : state.irq = true)
    (hcreating : state.stage.creating = true)
    (hqueue : state.queue = created state.outcomes) (hwork2 : state.work2 ≠ .ready) :
    Judged state (.interrupt scancode) (interrupt state scancode) := by
  have hstages : state.stage ≠ .oops ∧ state.stage ≠ .freeIrq ∧ state.stage ≠ .draining := by
    refine ⟨?_, ?_, ?_⟩ <;>
    · intro h
      rw [h] at hcreating
      exact absurd hcreating (by simp [Stage.creating])
  obtain ⟨hoops, hfree, hdraining⟩ := hstages
  cases halloc : state.outcomes.allocWorkqueue with
  | false =>
      have hnull : state.queue = .null := hqueue.trans (created_eq_null.mpr halloc)
      refine Judged.of_safe ?_ (hinv.interrupt_ignored hirq (Or.inl hnull) hoops)
      rintro (h | ⟨_, htrue⟩)
      · exact hfree h
      · exact absurd (halloc.symm.trans htrue) (by simp)
  | true =>
      have hready : state.queue = .ready := hqueue.trans (created_eq_ready.mpr halloc)
      refine ⟨fun hsafe => absurd (Or.inr ⟨hcreating, halloc⟩) hsafe, fun _ => ?_⟩
      exact interrupt_oops (by simp [hready]) hdraining (fun h => hwork2 h.2.2)

/-- Later on all three pointers are good or there is no queue. -/
theorem Inv.interrupt_created (hinv : Inv state) (hirq : state.irq = true)
    (hqueue : state.queue = created state.outcomes) (hwork2 : state.work2 = .ready)
    (hwork1 : state.work1 = .ready)
    (hstage : state.stage = .ret ∨ state.stage = .loaded ∨ state.stage = .flushWorkqueue) :
    Judged state (.interrupt scancode) (interrupt state scancode) := by
  have hsafe : ¬ Hazard state (.interrupt scancode) := by
    rcases hstage with h | h | h <;>
    exact not_hazard (by simp [h, Stage.creating]) (by simp [h])
  apply Judged.of_safe hsafe
  cases halloc : state.outcomes.allocWorkqueue with
  | false =>
      have hnull : state.queue = .null := hqueue.trans (created_eq_null.mpr halloc)
      refine hinv.interrupt_ignored hirq (Or.inl hnull) ?_
      rcases hstage with h | h | h <;> simp [h]
  | true =>
      have hready : state.queue = .ready := hqueue.trans (created_eq_ready.mpr halloc)
      apply hinv.interrupt_queues hirq ⟨hready, hwork1, hwork2⟩
      tauto

/-- An interrupt is fatal at the moments of `Hazard` and at no others. -/
theorem Inv.interrupt (hinv : Inv state) (hirq : state.irq = true)
    (hoops : state.stage ≠ .oops) :
    Judged state (.interrupt scancode) (interrupt state scancode) := by
  have hassert := hinv.stage
  cases hstage : state.stage with
  | unloaded =>
      rw [hstage] at hassert
      exact absurd (hirq.symm.trans hassert) (by simp)
  | allocWorkqueue =>
      rw [hstage] at hassert
      exact Judged.of_safe (not_hazard (by simp [hstage, Stage.creating]) (by simp [hstage]))
        (hinv.interrupt_ignored hirq (Or.inl hassert.2.2.1) hoops)
  | kmalloc1 =>
      rw [hstage] at hassert
      obtain ⟨_, _, hqueue, hwork2⟩ := hassert
      exact hinv.interrupt_creating hirq (by simp [hstage, Stage.creating]) hqueue
        (by simp [hwork2])
  | initWork1 | kmalloc2 =>
      rw [hstage] at hassert
      obtain ⟨_, _, hqueue, hwork2, _⟩ := hassert
      exact hinv.interrupt_creating hirq (by simp [hstage, Stage.creating]) hqueue
        (by simp [hwork2])
  | initWork2 =>
      rw [hstage] at hassert
      obtain ⟨_, _, hqueue, hwork2, _⟩ := hassert
      exact hinv.interrupt_creating hirq (by simp [hstage, Stage.creating]) hqueue
        (hwork2 ▸ kmalloc_ne_ready _)
  | ret =>
      rw [hstage] at hassert
      obtain ⟨_, hqueue, hwork2, hwork1⟩ := hassert
      exact hinv.interrupt_created hirq hqueue hwork2 hwork1 (by simp [hstage])
  | loaded | flushWorkqueue =>
      rw [hstage] at hassert
      obtain ⟨hqueue, hwork2, hwork1⟩ := hassert
      exact hinv.interrupt_created hirq hqueue hwork2 hwork1 (by simp [hstage])
  | destroyWorkqueue =>
      rw [hstage] at hassert
      obtain ⟨hqueue, hwork2, hwork1⟩ := hassert
      exact Judged.of_safe (not_hazard (by simp [hstage, Stage.creating]) (by simp [hstage]))
        (hinv.interrupt_queues hirq ⟨hqueue, hwork1, hwork2⟩ (by simp [hstage]))
  | draining =>
      exact Judged.of_safe (not_hazard (by simp [hstage, Stage.creating]) (by simp [hstage]))
        (hinv.interrupt_ignored hirq (Or.inr hstage) hoops)
  | freeIrq =>
      rw [hstage] at hassert
      refine ⟨fun h => absurd (Or.inl hstage) h, fun _ => ?_⟩
      exact interrupt_oops (by simp [hassert.2]) (by simp [hstage]) (by simp [hassert.2])
  | oops => exact absurd hstage hoops

/-! ## The statements -/

/-- A statement that no outcome makes fatal. -/
theorem Judged.of_plain {stage : Stage} (hstage : state.stage = stage)
    (hplain : stage ≠ .initWork1 ∧ stage ≠ .initWork2 ∧ stage ≠ .flushWorkqueue)
    (hnext : Inv next ∧ next.stage ≠ .oops) : Judged state .advance next := by
  apply Judged.of_safe _ hnext
  rintro (⟨h, _⟩ | ⟨h, _⟩ | ⟨h, _⟩)
  · exact hplain.1 (hstage.symm.trans h)
  · exact hplain.2.1 (hstage.symm.trans h)
  · exact hplain.2.2 (hstage.symm.trans h)

theorem Inv.initWork1 (hinv : Inv state) (hstage : state.stage = .initWork1)
    (hadvance : advance state = some next) : Judged state .advance next := by
  have hassert := hinv.stage
  rw [hstage] at hassert
  obtain ⟨hidle, hirq, hqueue, hwork2, hwork1⟩ := hassert
  simp only [advance, hstage, hwork1] at hadvance
  cases hkmalloc : state.outcomes.kmalloc1 with
  | true =>
      simp only [hkmalloc, kmalloc, if_true, initWork, Option.some.injEq] at hadvance
      rw [← hadvance]
      refine Judged.of_safe ?_ ⟨⟨hinv.quiet, hidle, hirq, hqueue, hwork2, rfl⟩, by simp⟩
      rintro (⟨_, h⟩ | ⟨h, _⟩ | ⟨h, _⟩)
      · exact absurd (hkmalloc.symm.trans h) (by simp)
      · exact absurd (hstage.symm.trans h) (by simp)
      · exact absurd (hstage.symm.trans h) (by simp)
  | false =>
      simp only [hkmalloc, kmalloc, Bool.false_eq_true, if_false, initWork,
        Option.some.injEq] at hadvance
      rw [← hadvance]
      exact ⟨fun h => absurd (Or.inl ⟨hstage, hkmalloc⟩) h, fun _ => rfl⟩

theorem Inv.initWork2 (hinv : Inv state) (hstage : state.stage = .initWork2)
    (hadvance : advance state = some next) : Judged state .advance next := by
  have hassert := hinv.stage
  rw [hstage] at hassert
  obtain ⟨hidle, hirq, hqueue, hwork2, hwork1⟩ := hassert
  simp only [advance, hstage, hwork2] at hadvance
  cases hkmalloc : state.outcomes.kmalloc2 with
  | true =>
      simp only [hkmalloc, kmalloc, if_true, initWork, Option.some.injEq] at hadvance
      rw [← hadvance]
      refine Judged.of_safe ?_ ⟨⟨hinv.quiet, hirq, hqueue, rfl, hwork1⟩, by simp⟩
      rintro (⟨h, _⟩ | ⟨_, h⟩ | ⟨h, _⟩)
      · exact absurd (hstage.symm.trans h) (by simp)
      · exact absurd (hkmalloc.symm.trans h) (by simp)
      · exact absurd (hstage.symm.trans h) (by simp)
  | false =>
      simp only [hkmalloc, kmalloc, Bool.false_eq_true, if_false, initWork,
        Option.some.injEq] at hadvance
      rw [← hadvance]
      exact ⟨fun h => absurd (Or.inr (Or.inl ⟨hstage, hkmalloc⟩)) h, fun _ => rfl⟩

theorem Inv.flush (hinv : Inv state) (hstage : state.stage = .flushWorkqueue)
    (hadvance : advance state = some next) : Judged state .advance next := by
  have hassert := hinv.stage
  rw [hstage] at hassert
  obtain ⟨hqueue, hwork2, hwork1⟩ := hassert
  simp only [advance, hstage, hqueue, created_eq_ready] at hadvance
  cases halloc : state.outcomes.allocWorkqueue with
  | true =>
      rw [if_pos halloc, Option.some.injEq] at hadvance
      rw [← hadvance]
      refine Judged.of_safe ?_
        ⟨⟨hinv.quiet, created_eq_ready.mpr halloc, hwork2, hwork1⟩, by simp⟩
      rintro (⟨h, _⟩ | ⟨h, _⟩ | ⟨_, h⟩)
      · exact absurd (hstage.symm.trans h) (by simp)
      · exact absurd (hstage.symm.trans h) (by simp)
      · exact absurd (halloc.symm.trans h) (by simp)
  | false =>
      rw [if_neg (by simp [halloc]), Option.some.injEq] at hadvance
      rw [← hadvance]
      exact ⟨fun h => absurd (Or.inr (Or.inr ⟨hstage, halloc⟩)) h, fun _ => rfl⟩

theorem Inv.advance (hinv : Inv state) (hadvance : advance state = some next) :
    Judged state .advance next := by
  have hassert := hinv.stage
  cases hstage : state.stage with
  | initWork1 => exact hinv.initWork1 hstage hadvance
  | initWork2 => exact hinv.initWork2 hstage hadvance
  | flushWorkqueue => exact hinv.flush hstage hadvance
  | unloaded | loaded | oops => simp [WorkQueueLoading.advance, hstage] at hadvance
  | allocWorkqueue =>
      rw [hstage] at hassert
      obtain ⟨hidle, hirq, hqueue, hwork2⟩ := hassert
      refine Judged.of_plain hstage (by decide) ?_
      simp only [WorkQueueLoading.advance, hstage] at hadvance
      split at hadvance
      · rename_i halloc
        rw [Option.some.injEq] at hadvance
        rw [← hadvance]
        exact ⟨⟨hinv.quiet, hidle, hirq, (created_eq_ready.mpr halloc).symm, hwork2⟩, by simp⟩
      · rename_i halloc
        rw [Option.some.injEq] at hadvance
        rw [← hadvance]
        rw [Bool.not_eq_true] at halloc
        exact ⟨⟨hinv.quiet, hidle, hirq, hqueue.trans (created_eq_null.mpr halloc).symm,
          hwork2⟩, by simp⟩
  | kmalloc1 =>
      rw [hstage] at hassert
      obtain ⟨hidle, hirq, hqueue, hwork2⟩ := hassert
      refine Judged.of_plain hstage (by decide) ?_
      simp only [WorkQueueLoading.advance, hstage, Option.some.injEq] at hadvance
      rw [← hadvance]
      exact ⟨⟨hinv.quiet, hidle, hirq, hqueue, hwork2, rfl⟩, by simp⟩
  | kmalloc2 =>
      rw [hstage] at hassert
      obtain ⟨hidle, hirq, hqueue, _, hwork1⟩ := hassert
      refine Judged.of_plain hstage (by decide) ?_
      simp only [WorkQueueLoading.advance, hstage, Option.some.injEq] at hadvance
      rw [← hadvance]
      exact ⟨⟨hinv.quiet, hidle, hirq, hqueue, rfl, hwork1⟩, by simp⟩
  | ret =>
      rw [hstage] at hassert
      obtain ⟨hirq, hqueue, hwork2, hwork1⟩ := hassert
      refine Judged.of_plain hstage (by decide) ?_
      simp only [WorkQueueLoading.advance, hstage] at hadvance
      split at hadvance
      · rw [Option.some.injEq] at hadvance
        rw [← hadvance]
        exact ⟨⟨hinv.quiet, hqueue, hwork2, hwork1⟩, by simp⟩
      · rename_i hfailed
        rw [Option.some.injEq] at hadvance
        rw [← hadvance]
        exact ⟨⟨hinv.quiet, hirq.trans (Bool.not_eq_true _ ▸ hfailed)⟩, by simp⟩
  | destroyWorkqueue =>
      rw [hstage] at hassert
      refine Judged.of_plain hstage (by decide) ?_
      simp only [WorkQueueLoading.advance, hstage, Option.some.injEq] at hadvance
      rw [← hadvance]
      exact ⟨⟨hinv.quiet, hassert⟩, by simp⟩
  | draining =>
      refine Judged.of_plain hstage (by decide) ?_
      simp only [WorkQueueLoading.advance, hstage] at hadvance
      obtain ⟨hidle, hnext⟩ := Option.ite_none_right_eq_some.mp hadvance
      rw [← Option.some.inj hnext]
      exact ⟨⟨hinv.quiet, hidle, rfl⟩, by simp⟩
  | freeIrq =>
      rw [hstage] at hassert
      refine Judged.of_plain hstage (by decide) ?_
      simp only [WorkQueueLoading.advance, hstage, Option.some.injEq] at hadvance
      rw [← hadvance]
      exact ⟨⟨fun _ => hassert.1, rfl⟩, by simp⟩

/-! ## The handlers -/

/-- Nothing happens where nothing is queued. -/
theorem idle_stuck {event : WorkQueue.Event} (hidle : Idle handlers)
    (hevent : ∀ irq scancode, event ≠ .interrupt irq scancode) :
    WorkQueue.step handlers event = none := by
  obtain ⟨hpending1, hphase, hpending2, hrunning2⟩ := hidle
  cases event with
  | interrupt irq scancode => exact absurd rfl (hevent irq scancode)
  | begin1 | test | print | begin2 | end2 =>
      simp [WorkQueue.step, hpending1, hphase, hpending2, hrunning2]

theorem Inv.worker (hinv : Inv state) {event : WorkQueue.Event}
    (hstep : step state (.worker event) = some next) :
    Judged state (.worker event) next := by
  have hassert := hinv.stage
  have hevent : ∀ irq scancode, event ≠ .interrupt irq scancode := by
    rintro irq scancode rfl
    simp [step] at hstep
  have hmoved : state.stage ≠ .oops ∧ ∃ handlers,
      WorkQueue.step state.handlers event = some handlers ∧
        (if state.stage = .unloaded ∨ printsOutside state.handlers event then state.oops
          else { state with handlers := handlers }) = next := by
    cases event with
    | interrupt irq scancode => exact absurd rfl (hevent irq scancode)
    | begin1 | test | print | begin2 | end2 =>
        simp only [step] at hstep
        obtain ⟨hoops, hstep⟩ := Option.ite_none_left_eq_some.mp hstep
        exact ⟨hoops, Option.map_eq_some_iff.mp hstep⟩
  obtain ⟨hoops, handlers, hhandlers, hnext⟩ := hmoved
  have hbusy : ¬ Idle state.handlers := by
    intro hidle
    rw [idle_stuck hidle hevent] at hhandlers
    exact absurd hhandlers (by simp)
  have hloaded : state.stage ≠ .unloaded := fun h => hbusy (hinv.unloaded h)
  by_cases houtside : printsOutside state.handlers event
  · rw [if_pos (Or.inr houtside)] at hnext
    exact ⟨fun hsafe => absurd houtside hsafe, fun _ => hnext ▸ rfl⟩
  rw [if_neg (not_or.mpr ⟨hloaded, houtside⟩)] at hnext
  rw [← hnext]
  have hsafe : ¬ Hazard state (.worker event) := houtside
  refine Judged.of_safe hsafe ⟨⟨fun hirq => absurd (hinv.quiet hirq) hbusy, ?_⟩, hoops⟩
  -- Wherever handlers run nothing is said of them.
  show state.stage.Assertion _
  cases hstage : state.stage with
  | unloaded => exact absurd hstage hloaded
  | allocWorkqueue | kmalloc1 | initWork1 | kmalloc2 | initWork2 | freeIrq =>
      rw [hstage] at hassert
      exact absurd hassert.1 hbusy
  | ret | loaded | flushWorkqueue | destroyWorkqueue | draining | oops =>
      rw [hstage] at hassert
      exact hassert

/-- Every event is fatal or keeps the invariant. -/
theorem Inv.step (hinv : Inv state) (hstep : step state event = some next) :
    Judged state event next := by
  cases event with
  | insmod outcomes =>
      obtain ⟨hstage, hnext⟩ := Option.ite_none_right_eq_some.mp hstep
      rw [← Option.some.inj hnext]
      exact Judged.of_safe id ⟨hinv.insmod hstage outcomes, by simp⟩
  | rmmod =>
      obtain ⟨hstage, hnext⟩ := Option.ite_none_right_eq_some.mp hstep
      have hassert := hinv.stage
      rw [hstage] at hassert
      rw [← Option.some.inj hnext]
      exact Judged.of_safe id ⟨⟨hinv.quiet, hassert⟩, by simp⟩
  | advance => exact hinv.advance hstep
  | interrupt scancode =>
      obtain ⟨⟨hirq, hoops⟩, hnext⟩ := Option.ite_none_right_eq_some.mp hstep
      exact Option.some.inj hnext ▸ hinv.interrupt hirq hoops
  | worker event => exact hinv.worker hstep

/-! ## What remains allocated -/

def Event.loads : Event → Bool
  | .insmod _ => true
  | _ => false

/-- A load that fails after it has created the queue. -/
def Event.strands : Event → Bool
  | .insmod outcomes => !outcomes.requestIrq && outcomes.allocWorkqueue
  | _ => false

/-- The works that a load has still to allocate. -/
def worksLeft (outcomes : Outcomes) : Stage → Nat
  | .allocWorkqueue | .kmalloc1 => 2
  | .initWork1 => 1 + (!outcomes.kmalloc1).toNat
  | .kmalloc2 => 1
  | .initWork2 => (!outcomes.kmalloc2).toNat
  | _ => 0

/-- The queues that the load under way has still to strand. -/
def queuesLeft (outcomes : Outcomes) : Stage → Nat
  | .allocWorkqueue => (!outcomes.requestIrq && outcomes.allocWorkqueue).toNat
  | _ => 0

/-- The queues that will be destroyed. -/
def queuesHeld (outcomes : Outcomes) : Stage → Nat
  | .kmalloc1 | .initWork1 | .kmalloc2 | .initWork2 | .ret =>
      (outcomes.requestIrq && outcomes.allocWorkqueue).toNat
  | .loaded | .flushWorkqueue => outcomes.allocWorkqueue.toNat
  | .destroyWorkqueue | .draining => 1
  | _ => 0

structure Accounted (loads strands : Nat) (state : State) : Prop where
  works : state.works + worksLeft state.outcomes state.stage = 2 * loads
  queues : state.queues + queuesLeft state.outcomes state.stage =
    strands + queuesHeld state.outcomes state.stage

variable {loads strands : Nat}

/-- An event that leaves the module where it is. -/
theorem Accounted.kept (haccounted : Accounted loads strands state)
    (hkept : next.stage = state.stage ∧ next.outcomes = state.outcomes ∧
      next.works = state.works ∧ next.queues = state.queues) :
    Accounted loads strands next := by
  obtain ⟨hstage, houtcomes, hworks, hqueues⟩ := hkept
  constructor
  · rw [hstage, houtcomes, hworks]
    exact haccounted.works
  · rw [hstage, houtcomes, hqueues]
    exact haccounted.queues

theorem Accounted.interrupt (haccounted : Accounted loads strands state) :
    (interrupt state scancode).stage = .oops ∨
      Accounted loads strands (interrupt state scancode) := by
  unfold WorkQueueLoading.interrupt
  split
  · exact Or.inr (haccounted.kept ⟨rfl, rfl, rfl, rfl⟩)
  · split
    · exact Or.inr (haccounted.kept ⟨rfl, rfl, rfl, rfl⟩)
    · exact Or.inl rfl

theorem Accounted.worker (haccounted : Accounted loads strands state)
    {event : WorkQueue.Event} (hstep : step state (.worker event) = some next) :
    next.stage = .oops ∨ Accounted loads strands next := by
  cases event with
  | interrupt irq scancode => simp [step] at hstep
  | begin1 | test | print | begin2 | end2 =>
      simp only [step] at hstep
      obtain ⟨_, hstep⟩ := Option.ite_none_left_eq_some.mp hstep
      obtain ⟨handlers, _, hnext⟩ := Option.map_eq_some_iff.mp hstep
      rw [← hnext]
      split
      · exact Or.inl rfl
      · exact Or.inr (haccounted.kept ⟨rfl, rfl, rfl, rfl⟩)

theorem Accounted.advance (haccounted : Accounted loads strands state) (hinv : Inv state)
    (hadvance : advance state = some next) :
    next.stage = .oops ∨ Accounted loads strands next := by
  have hassert := hinv.stage
  obtain ⟨hworks, hqueues⟩ := haccounted
  cases hstage : state.stage with
  | unloaded | loaded | oops => simp [WorkQueueLoading.advance, hstage] at hadvance
  | allocWorkqueue =>
      simp only [hstage, worksLeft, queuesLeft, queuesHeld] at hworks hqueues
      simp only [WorkQueueLoading.advance, hstage] at hadvance
      split at hadvance
      · rename_i halloc
        rw [Option.some.injEq] at hadvance
        rw [← hadvance]
        refine Or.inr ⟨hworks, ?_⟩
        cases hirq : state.outcomes.requestIrq with
        | true =>
            simp only [hirq, halloc, Bool.not_true, Bool.false_and, Bool.toNat_false] at hqueues
            simp only [queuesLeft, queuesHeld, hirq, halloc, Bool.and_self, Bool.toNat_true]
            omega
        | false =>
            simp only [hirq, halloc, Bool.not_false, Bool.and_self, Bool.toNat_true] at hqueues
            simp only [queuesLeft, queuesHeld, hirq, Bool.false_and, Bool.toNat_false]
            omega
      · rename_i halloc
        rw [Option.some.injEq] at hadvance
        rw [← hadvance]
        rw [Bool.not_eq_true] at halloc
        refine Or.inr ⟨hworks, ?_⟩
        simp only [halloc, Bool.and_false, Bool.toNat_false] at hqueues
        simp only [queuesLeft, queuesHeld, halloc, Bool.and_false, Bool.toNat_false]
        omega
  | kmalloc1 =>
      simp only [hstage, worksLeft] at hworks
      rw [hstage] at hqueues
      simp only [WorkQueueLoading.advance, hstage, Option.some.injEq] at hadvance
      rw [← hadvance]
      refine Or.inr ⟨?_, hqueues⟩
      cases hkmalloc : state.outcomes.kmalloc1 <;>
      · simp only [worksLeft, hkmalloc, Bool.not_true, Bool.not_false, Bool.toNat_true,
          Bool.toNat_false]
        omega
  | initWork1 =>
      rw [hstage] at hassert
      obtain ⟨_, _, _, _, hwork1⟩ := hassert
      simp only [hstage, worksLeft] at hworks
      rw [hstage] at hqueues
      simp only [WorkQueueLoading.advance, hstage, hwork1] at hadvance
      cases hkmalloc : state.outcomes.kmalloc1 with
      | true =>
          simp only [hkmalloc, kmalloc, if_true, initWork, Option.some.injEq] at hadvance
          rw [hkmalloc] at hworks
          rw [← hadvance]
          exact Or.inr ⟨hworks, hqueues⟩
      | false =>
          simp only [hkmalloc, kmalloc, Bool.false_eq_true, if_false, initWork,
            Option.some.injEq] at hadvance
          exact Or.inl (hadvance ▸ rfl)
  | kmalloc2 =>
      simp only [hstage, worksLeft] at hworks
      rw [hstage] at hqueues
      simp only [WorkQueueLoading.advance, hstage, Option.some.injEq] at hadvance
      rw [← hadvance]
      refine Or.inr ⟨?_, hqueues⟩
      cases hkmalloc : state.outcomes.kmalloc2 <;>
      · simp only [worksLeft, hkmalloc, Bool.not_true, Bool.not_false, Bool.toNat_true,
          Bool.toNat_false]
        omega
  | initWork2 =>
      rw [hstage] at hassert
      obtain ⟨_, _, _, hwork2, _⟩ := hassert
      simp only [hstage, worksLeft] at hworks
      rw [hstage] at hqueues
      simp only [WorkQueueLoading.advance, hstage, hwork2] at hadvance
      cases hkmalloc : state.outcomes.kmalloc2 with
      | true =>
          simp only [hkmalloc, kmalloc, if_true, initWork, Option.some.injEq] at hadvance
          rw [hkmalloc] at hworks
          rw [← hadvance]
          exact Or.inr ⟨hworks, hqueues⟩
      | false =>
          simp only [hkmalloc, kmalloc, Bool.false_eq_true, if_false, initWork,
            Option.some.injEq] at hadvance
          exact Or.inl (hadvance ▸ rfl)
  | ret =>
      rw [hstage] at hworks
      simp only [hstage, queuesLeft, queuesHeld] at hqueues
      simp only [WorkQueueLoading.advance, hstage] at hadvance
      split at hadvance
      · rename_i hirq
        rw [Option.some.injEq] at hadvance
        rw [← hadvance]
        rw [hirq, Bool.true_and] at hqueues
        exact Or.inr ⟨hworks, hqueues⟩
      · rename_i hirq
        rw [Option.some.injEq] at hadvance
        rw [← hadvance]
        rw [Bool.not_eq_true] at hirq
        rw [hirq, Bool.false_and] at hqueues
        exact Or.inr ⟨hworks, hqueues⟩
  | flushWorkqueue =>
      rw [hstage] at hassert hworks
      simp only [hstage, queuesLeft, queuesHeld] at hqueues
      simp only [WorkQueueLoading.advance, hstage] at hadvance
      split at hadvance
      · rename_i hready
        rw [Option.some.injEq] at hadvance
        rw [← hadvance]
        rw [created_eq_ready.mp (hassert.1.symm.trans hready)] at hqueues
        exact Or.inr ⟨hworks, hqueues⟩
      · rw [Option.some.injEq] at hadvance
        exact Or.inl (hadvance ▸ rfl)
  | destroyWorkqueue =>
      rw [hstage] at hworks hqueues
      simp only [WorkQueueLoading.advance, hstage, Option.some.injEq] at hadvance
      exact Or.inr (hadvance ▸ ⟨hworks, hqueues⟩)
  | draining =>
      rw [hstage] at hworks
      simp only [hstage, queuesLeft, queuesHeld] at hqueues
      simp only [WorkQueueLoading.advance, hstage] at hadvance
      obtain ⟨_, hnext⟩ := Option.ite_none_right_eq_some.mp hadvance
      rw [← Option.some.inj hnext]
      refine Or.inr ⟨hworks, ?_⟩
      simp only [queuesLeft, queuesHeld]
      omega
  | freeIrq =>
      rw [hstage] at hworks hqueues
      simp only [WorkQueueLoading.advance, hstage, Option.some.injEq] at hadvance
      exact Or.inr (hadvance ▸ ⟨hworks, hqueues⟩)

theorem Accounted.step (haccounted : Accounted loads strands state) (hinv : Inv state)
    (hstep : step state event = some next) :
    next.stage = .oops ∨ Accounted (loads + if event.loads then 1 else 0)
      (strands + if event.strands then 1 else 0) next := by
  cases event with
  | insmod outcomes =>
      obtain ⟨hstage, hnext⟩ := Option.ite_none_right_eq_some.mp hstep
      obtain ⟨hworks, hqueues⟩ := haccounted
      simp only [hstage, worksLeft] at hworks
      simp only [hstage, queuesLeft, queuesHeld] at hqueues
      rw [← Option.some.inj hnext]
      refine Or.inr ⟨?_, ?_⟩
      · simp only [worksLeft, Event.loads, if_true]
        omega
      · simp only [queuesLeft, queuesHeld, Event.strands]
        obtain ⟨requestIrq, allocWorkqueue, _, _⟩ := outcomes
        cases requestIrq <;> cases allocWorkqueue <;> simp <;> omega
  | rmmod =>
      obtain ⟨hstage, hnext⟩ := Option.ite_none_right_eq_some.mp hstep
      obtain ⟨hworks, hqueues⟩ := haccounted
      rw [hstage] at hworks hqueues
      exact Or.inr (Option.some.inj hnext ▸ ⟨hworks, hqueues⟩)
  | advance => exact haccounted.advance hinv hstep
  | interrupt scancode =>
      obtain ⟨_, hnext⟩ := Option.ite_none_right_eq_some.mp hstep
      exact Option.some.inj hnext ▸ haccounted.interrupt
  | worker event => exact haccounted.worker hstep

/-! ## All loads and unloads -/

theorem oops_stuck (hoops : state.stage = .oops) : step state event = none := by
  cases event with
  | insmod outcomes | rmmod | interrupt scancode => simp [step, hoops]
  | advance => simp [step, advance, hoops]
  | worker event => cases event <;> simp [step, hoops]

/-- The invariant of whole runs, for a count of the events. -/
def Loaded (accounted : Nat → State → Prop) (count : Nat) (state : State) : Prop :=
  state.stage = .oops ∨ Inv state ∧ accounted count state

theorem Loaded.step {accounted : Nat → State → Prop} {p : Event → Bool}
    (haccounted : ∀ count state event next, Inv state → accounted count state →
      step state event = some next →
        next.stage = .oops ∨ accounted (count + if p event then 1 else 0) next)
    (hloaded : Loaded accounted count state) (hstep : step state event = some next) :
    Loaded accounted (count + if p event then 1 else 0) next := by
  rcases hloaded with hoops | ⟨hinv, hcount⟩
  · rw [oops_stuck hoops] at hstep
    exact absurd hstep (by simp)
  · by_cases hhazard : Hazard state event
    · exact Or.inl ((hinv.step hstep).fatal hhazard)
    · have hnext := ((hinv.step hstep).safe hhazard).1
      exact (haccounted count state event next hinv hcount hstep).imp_right
        fun h => ⟨hnext, h⟩

theorem loaded_run {accounted : Nat → State → Prop} {p : Event → Bool}
    (haccounted : ∀ count state event next, Inv state → accounted count state →
      step state event = some next →
        next.stage = .oops ∨ accounted (count + if p event then 1 else 0) next)
    (hinitial : accounted 0 .initial) (hrun : run step .initial events = some state) :
    Loaded accounted (events.countP p) state := by
  have hcount := @run_count _ _ step (Loaded accounted) p
    (fun _ _ _ _ hloaded hstep => hloaded.step haccounted hstep)
    _ _ _ _ (Or.inr ⟨Inv.initial, hinitial⟩) hrun
  rwa [Nat.zero_add] at hcount

/-- The module uses no memory that is not there exactly as long as no interrupt
comes between the creation of the queue and that of the second work, or between the
destruction of the queue and `free_irq`, no call fails whose result is used, and no
key is printed that has no text.  Whenever it is unloaded, nothing of it runs or is
queued, the two works of every load are still allocated, and so is the queue of
every load that has failed to register the interrupt. -/
theorem loading_accounted (hrun : run step .initial events = some state) :
    (state.stage ≠ .oops ↔
      GuardedRun step (fun before event _ => ¬ Hazard before event) .initial events state) ∧
    (state.stage = .unloaded →
      Idle state.handlers ∧ state.works = 2 * events.countP Event.loads ∧
        state.queues = events.countP Event.strands) := by
  constructor
  · apply @GuardedRun.iff_ok _ _ _ _ Inv (fun state => state.stage ≠ .oops) _ _ _ _ _ _
      Inv.initial (by simp [State.initial]) hrun
    · intro state event next hinv hstep hsafe
      exact (hinv.step hstep).safe hsafe
    · intro state event next hinv hstep hhazard hok
      exact hok ((hinv.step hstep).fatal (not_not.mp hhazard))
    · intro state event hoops
      exact oops_stuck (not_not.mp hoops)
  · intro hunloaded
    have hinitial : Accounted 0 0 .initial := ⟨rfl, rfl⟩
    have hloads := @loaded_run _ _ (fun loads state => ∃ strands, Accounted loads strands state)
      Event.loads (fun _ _ _ _ hinv ⟨strands, haccounted⟩ hstep =>
        (haccounted.step hinv hstep).imp_right fun h => ⟨_, h⟩) ⟨0, hinitial⟩ hrun
    have hstrands := @loaded_run _ _ (fun strands state => ∃ loads, Accounted loads strands state)
      Event.strands (fun _ _ _ _ hinv ⟨loads, haccounted⟩ hstep =>
        (haccounted.step hinv hstep).imp_right fun h => ⟨_, h⟩) ⟨0, hinitial⟩ hrun
    rcases hloads with hoops | ⟨hinv, strands, hworks, _⟩
    · exact absurd (hunloaded.symm.trans hoops) (by simp)
    rcases hstrands with hoops | ⟨_, loads, _, hqueues⟩
    · exact absurd (hunloaded.symm.trans hoops) (by simp)
    rw [hunloaded] at hworks hqueues
    exact ⟨hinv.unloaded hunloaded, hworks, hqueues⟩

/-- A load, a key and an unload, and a load that cannot register the interrupt. -/
def twoLoads : List Event :=
  .insmod ⟨true, true, true, true⟩ :: List.replicate 6 .advance ++
    [.interrupt 30, .worker .begin1, .worker .test, .worker .print, .worker .begin2,
      .worker .end2, .rmmod] ++ List.replicate 4 .advance ++
    .insmod ⟨false, true, true, true⟩ :: List.replicate 6 .advance

theorem loading_accounted_twoLoads :
    ∃ state, run step .initial twoLoads = some state ∧
      state.stage = .unloaded ∧ state.works = 4 ∧ state.queues = 1 := by
  have hsome : (run step .initial twoLoads).isSome = true := by rfl
  obtain ⟨state, hrun⟩ := Option.isSome_iff_exists.mp hsome
  have hunloaded : (run step .initial twoLoads).map State.stage = some .unloaded := by rfl
  rw [hrun, Option.map_some, Option.some.injEq] at hunloaded
  obtain ⟨_, hworks, hqueues⟩ := (loading_accounted hrun).2 hunloaded
  exact ⟨state, hrun, hunloaded, hworks, hqueues⟩

end WorkQueueLoading
end BottomHalves
end OsStuff
