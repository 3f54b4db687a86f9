import OsStuff.Library.Processes
import OsStuff.Library.Run

/-!
# `touch_tablet_init` and `touch_tablet_exit`

The loading and unloading of the module, one call at a time, and what the USB
core does with the tablets while the driver is registered.  `usb_register` and
`usb_deregister` are two steps each, as tablets may be probed and disconnected
while they run; both return without a tablet when the driver is not registered
any more.  `flush_workqueue` and `destroy_workqueue` wait for the queued work.

The driver registers before it creates the work queue and destroys the work
queue before it deregisters, so that what `tablet_irq` finds depends on which
tablets are open at that time.

`queueCalls` is not part of the driver's memory: it is what `workq` was at each
call of `queue_work`.
-/

namespace OsStuff
namespace TabletDriver
namespace TouchTabletInit

open Library Library.Processes

inductive Workq
  | null
  | created
  | destroyed
  deriving DecidableEq, Repr

/-- The next call of the module, or how it has ended. -/
inductive Loader
  | usbRegister
  | registering
  | createWorkqueue
  | failed (result : Int)
  | loaded
  | flushWorkqueue
  | destroyWorkqueue
  | usbDeregister
  | deregistering
  | unloaded
  deriving DecidableEq, Repr

/-- A tablet that has been probed: whether it is open and whether its URB is with
the USB core.  A URB may be in flight without an open tablet, as `work_irq` does
not ask whether the tablet has been closed before it submits again. -/
inductive Device
  | connected (opened inFlight : Bool)
  | disconnected
  deriving DecidableEq, Repr

def Device.inFlight : Device → Bool
  | .connected _ inFlight => inFlight
  | .disconnected => false

structure State where
  loader : Loader
  registered : Bool
  workq : Workq
  devices : List Device
  work : List Nat
  queueCalls : List Workq
  deriving DecidableEq, Repr

inductive Event
  /-- `touch_tablet_init` calls `usb_register`. -/
  | usbRegister
  /-- `usb_register` returns. -/
  | registered (result : Int)
  | createWorkqueue (created : Bool)
  /-- The module is unloaded: `touch_tablet_exit` begins. -/
  | touchTabletExit
  | flushWorkqueue
  | destroyWorkqueue
  /-- `touch_tablet_exit` calls `usb_deregister`. -/
  | usbDeregister
  /-- `usb_deregister` returns. -/
  | deregistered
  | probe
  | tabletOpen (i : Nat) (submitted : Bool)
  /-- The URB completes or is cancelled, and `tablet_irq` allocates a container. -/
  | tabletIrq (i : Nat) (allocated : Bool)
  /-- A queued `work_irq` runs and submits the URB again or does not. -/
  | workIrq (k : Nat) (submitted : Bool)
  | tabletClose (i : Nat)
  | tabletDisconnect (i : Nat)
  deriving DecidableEq, Repr

def State.set (state : State) (i : Nat) (device : Device) : State :=
  { state with devices := state.devices.set i device }

/-- `queue_work` with the container of tablet `i`. -/
def State.queueWork (state : State) (i : Nat) : State :=
  { state with
    queueCalls := state.queueCalls ++ [state.workq]
    work := if state.workq = .created then state.work ++ [i] else state.work }

def step (state : State) : Event → Option State
  | .usbRegister =>
      if state.loader = .usbRegister then
        some { state with loader := .registering, registered := true }
      else none
  | .registered result =>
      if state.loader = .registering then
        if result < 0 then
          if ∀ device ∈ state.devices, device = .disconnected then
            some { state with loader := .failed result, registered := false }
          else none
        else some { state with loader := .createWorkqueue }
      else none
  | .createWorkqueue created =>
      if state.loader = .createWorkqueue then
        if created then some { state with loader := .loaded, workq := .created }
        else some { state with loader := .failed (-1) }
      else none
  | .touchTabletExit =>
      if state.loader = .loaded then
        some { state with loader := .flushWorkqueue }
      else none
  | .flushWorkqueue =>
      if state.loader = .flushWorkqueue ∧ state.work = [] then
        some { state with loader := .destroyWorkqueue }
      else none
  | .destroyWorkqueue =>
      if state.loader = .destroyWorkqueue ∧ state.work = [] then
        some { state with loader := .usbDeregister, workq := .destroyed }
      else none
  | .usbDeregister =>
      if state.loader = .usbDeregister then
        some { state with loader := .deregistering }
      else none
  | .deregistered =>
      if state.loader = .deregistering ∧
          ∀ device ∈ state.devices, device = .disconnected then
        some { state with loader := .unloaded, registered := false }
      else none
  | .probe =>
      if state.registered then
        some { state with devices := state.devices ++ [.connected false false] }
      else none
  | .tabletOpen i submitted =>
      match state.devices[i]? with
      | some (.connected false inFlight) =>
          -- A URB that is in flight cannot be submitted, and the call fails.
          if submitted then
            if inFlight then none else some (state.set i (.connected true true))
          else some state
      | _ => none
  | .tabletIrq i allocated =>
      match state.devices[i]? with
      | some (.connected opened true) =>
          if allocated then some ((state.set i (.connected opened false)).queueWork i)
          else some (state.set i (.connected opened false))
      | _ => none
  | .workIrq k submitted =>
      state.work[k]?.bind fun i =>
        if submitted then
          match state.devices[i]? with
          | some (.connected opened false) =>
              some { state.set i (.connected opened true) with
                work := state.work.eraseIdx k }
          | _ => none
        else some { state with work := state.work.eraseIdx k }
  | .tabletClose i =>
      if state.devices[i]? = some (.connected true false) then
        some (state.set i (.connected false false))
      else none
  | .tabletDisconnect i =>
      match state.devices[i]? with
      | some (.connected _ false) => some (state.set i .disconnected)
      | _ => none

/-- Before the module is loaded. -/
def State.initial : State where
  loader := .usbRegister
  registered := false
  workq := .null
  devices := []
  work := []
  queueCalls := []

/-- The work queue was there at every call of `queue_work`, and a module that
has not been loaded has left nothing registered. -/
structure Outlives (state : State) : Prop where
  queue_calls : ∀ workq ∈ state.queueCalls, workq = .created
  failed : ∀ result, state.loader = .failed result → state.registered = false

/-- The steps that keep every URB in flight within the life of the work
queue. -/
def Within (state : State) (event : Event) (_ : State) : Prop :=
  match event with
  | .tabletOpen _ true => state.workq = .created
  | .createWorkqueue created => created = true
  | .destroyWorkqueue => ∀ device ∈ state.devices, device.inFlight = false
  | _ => True

variable {state state' : State} {event : Event} {i : Nat} {device after : Device}

/-! ## The invariant -/

/-- The driver is registered between `usb_register` and `usb_deregister`. -/
def Loader.registered : Loader → Bool
  | .usbRegister => false
  | .registering => true
  | .createWorkqueue => true
  | .failed _ => false
  | .loaded => true
  | .flushWorkqueue => true
  | .destroyWorkqueue => true
  | .usbDeregister => true
  | .deregistering => true
  | .unloaded => false

/-- Without a work queue nothing is in flight or queued. -/
structure Inv (state : State) : Prop where
  quiet : state.workq ≠ .created →
    (∀ device ∈ state.devices, device.inFlight = false) ∧ state.work = []
  queue_calls : ∀ workq ∈ state.queueCalls, workq = .created
  registered : state.registered = state.loader.registered

theorem Inv.outlives (hinv : Inv state) : Outlives state := by
  refine ⟨hinv.queue_calls, fun result hfailed => ?_⟩
  rw [hinv.registered, hfailed]
  rfl

theorem Inv.initial : Inv State.initial := by
  constructor
  · exact fun _ => ⟨by simp [State.initial], rfl⟩
  · simp [State.initial]
  · rfl

/-- A URB in flight finds the work queue. -/
theorem Inv.created_of_inFlight (hinv : Inv state)
    (hi : state.devices[i]? = some device) (hflight : device.inFlight = true) :
    state.workq = .created := by
  by_contra hworkq
  have hnone := (hinv.quiet hworkq).1 device (List.mem_of_getElem? hi)
  exact absurd (hflight.symm.trans hnone) (by simp)

/-- A tablet that is not given to the USB core. -/
theorem Inv.set (hinv : Inv state) (hafter : after.inFlight = false) :
    Inv (state.set i after) := by
  constructor
  · intro hworkq
    obtain ⟨hdevices, hwork⟩ := hinv.quiet hworkq
    refine ⟨fun device hdevice => ?_, hwork⟩
    rcases List.mem_or_eq_of_mem_set hdevice with hold | hnew
    · exact hdevices device hold
    · rw [hnew]
      exact hafter
  · exact hinv.queue_calls
  · exact hinv.registered

/-- While the work queue is there the USB core does as it likes. -/
theorem Inv.of_created (hinv : Inv state) (hworkq : state.workq = .created)
    (hworkq' : state'.workq = state.workq)
    (hcalls : ∀ workq ∈ state'.queueCalls, workq = .created)
    (hloader : state'.loader = state.loader)
    (hregistered : state'.registered = state.registered) : Inv state' := by
  constructor
  · intro hnot
    exact absurd (hworkq'.trans hworkq) hnot
  · exact hcalls
  · rw [hregistered, hloader, hinv.registered]

/-! ## Steps -/

/-- What the submission of `tablet_open` does. -/
theorem step_tabletOpen (hstep : step state (.tabletOpen i true) = some state') :
    state.devices[i]? = some (.connected false false) ∧
      state' = state.set i (.connected true true) := by
  simp only [step, if_true] at hstep
  split at hstep
  · rename_i inFlight hi
    cases inFlight with
    | true => exact absurd hstep (by simp)
    | false => exact ⟨hi, (Option.some.inj hstep).symm⟩
  · exact absurd hstep (by simp)

/-- Only a URB in flight completes. -/
theorem step_tabletIrq {allocated : Bool}
    (hstep : step state (.tabletIrq i allocated) = some state') :
    ∃ opened, state.devices[i]? = some (.connected opened true) ∧
      (if allocated then some ((state.set i (.connected opened false)).queueWork i)
        else some (state.set i (.connected opened false))) = some state' := by
  simp only [step] at hstep
  split at hstep
  · rename_i opened hi
    exact ⟨opened, hi, hstep⟩
  · exact absurd hstep (by simp)

/-- Every step that keeps the URBs within the life of the work queue keeps the
invariant. -/
theorem Inv.step (hinv : Inv state)
    (hstep : TouchTabletInit.step state event = some state')
    (hwithin : Within state event state') : Inv state' := by
  cases event with
  | usbRegister =>
      simp only [TouchTabletInit.step, Option.ite_none_right_eq_some,
        Option.some.injEq] at hstep
      obtain ⟨-, rfl⟩ := hstep
      exact ⟨hinv.quiet, hinv.queue_calls, rfl⟩
  | registered result =>
      simp only [TouchTabletInit.step, Option.ite_none_right_eq_some] at hstep
      obtain ⟨hloader, hstep⟩ := hstep
      have hregistered := hinv.registered
      rw [hloader] at hregistered
      split at hstep
      · simp only [Option.ite_none_right_eq_some, Option.some.injEq] at hstep
        obtain ⟨-, rfl⟩ := hstep
        exact ⟨hinv.quiet, hinv.queue_calls, rfl⟩
      · rw [Option.some.injEq] at hstep
        exact hstep ▸ ⟨hinv.quiet, hinv.queue_calls, hregistered⟩
  | createWorkqueue created =>
      simp only [TouchTabletInit.step, Option.ite_none_right_eq_some] at hstep
      obtain ⟨hloader, hstep⟩ := hstep
      have hregistered := hinv.registered
      rw [hloader] at hregistered
      -- The condition of the step: the work queue is created.
      have hcreated : created = true := hwithin
      rw [if_pos hcreated, Option.some.injEq] at hstep
      subst hstep
      exact ⟨fun hnot => absurd rfl hnot, hinv.queue_calls, hregistered⟩
  | touchTabletExit | usbDeregister =>
      simp only [TouchTabletInit.step, Option.ite_none_right_eq_some,
        Option.some.injEq] at hstep
      obtain ⟨hloader, rfl⟩ := hstep
      have hregistered := hinv.registered
      rw [hloader] at hregistered
      exact ⟨hinv.quiet, hinv.queue_calls, hregistered⟩
  | flushWorkqueue =>
      simp only [TouchTabletInit.step, Option.ite_none_right_eq_some,
        Option.some.injEq] at hstep
      obtain ⟨⟨hloader, -⟩, rfl⟩ := hstep
      have hregistered := hinv.registered
      rw [hloader] at hregistered
      exact ⟨hinv.quiet, hinv.queue_calls, hregistered⟩
  | destroyWorkqueue =>
      simp only [TouchTabletInit.step, Option.ite_none_right_eq_some,
        Option.some.injEq] at hstep
      obtain ⟨⟨hloader, hwork⟩, rfl⟩ := hstep
      have hregistered := hinv.registered
      rw [hloader] at hregistered
      -- No URB is in flight, by the condition, and the queue has been flushed.
      exact ⟨fun _ => ⟨hwithin, hwork⟩, hinv.queue_calls, hregistered⟩
  | deregistered =>
      simp only [TouchTabletInit.step, Option.ite_none_right_eq_some,
        Option.some.injEq] at hstep
      obtain ⟨-, rfl⟩ := hstep
      exact ⟨hinv.quiet, hinv.queue_calls, rfl⟩
  | probe =>
      simp only [TouchTabletInit.step, Option.ite_none_right_eq_some,
        Option.some.injEq] at hstep
      obtain ⟨-, rfl⟩ := hstep
      refine ⟨fun hworkq => ?_, hinv.queue_calls, hinv.registered⟩
      obtain ⟨hdevices, hwork⟩ := hinv.quiet hworkq
      refine ⟨fun device hdevice => ?_, hwork⟩
      rcases List.mem_append.mp hdevice with hold | hnew
      · exact hdevices device hold
      · rw [List.mem_singleton.mp hnew]
        rfl
  | tabletOpen i submitted =>
      cases submitted with
      | true =>
          obtain ⟨-, rfl⟩ := step_tabletOpen hstep
          exact hinv.of_created hwithin rfl hinv.queue_calls rfl rfl
      | false =>
          simp only [TouchTabletInit.step] at hstep
          split at hstep
          · exact Option.some.inj hstep ▸ hinv
          · exact absurd hstep (by simp)
  | tabletIrq i allocated =>
      obtain ⟨opened, hi, hstep⟩ := step_tabletIrq hstep
      have hworkq := hinv.created_of_inFlight hi rfl
      split at hstep
      · rw [Option.some.injEq] at hstep
        subst hstep
        -- The queue that `tablet_irq` finds joins those it has found before.
        refine hinv.of_created hworkq rfl (fun workq hmem => ?_) rfl rfl
        rcases List.mem_append.mp hmem with hold | hnew
        · exact hinv.queue_calls workq hold
        · exact (List.mem_singleton.mp hnew).trans hworkq
      · rw [Option.some.injEq] at hstep
        exact hstep ▸ hinv.set rfl
  | workIrq k submitted =>
      obtain ⟨i, hk, hstep⟩ := Option.bind_eq_some_iff.mp hstep
      -- There is work, so the queue has not been destroyed.
      have hworkq : state.workq = .created := by
        by_contra hnot
        rw [(hinv.quiet hnot).2] at hk
        exact absurd hk (by simp)
      split at hstep
      · split at hstep
        · rw [Option.some.injEq] at hstep
          subst hstep
          exact hinv.of_created hworkq rfl hinv.queue_calls rfl rfl
        · exact absurd hstep (by simp)
      · rw [Option.some.injEq] at hstep
        subst hstep
        exact hinv.of_created hworkq rfl hinv.queue_calls rfl rfl
  | tabletClose i =>
      simp only [TouchTabletInit.step, Option.ite_none_right_eq_some,
        Option.some.injEq] at hstep
      obtain ⟨-, rfl⟩ := hstep
      exact hinv.set rfl
  | tabletDisconnect i =>
      simp only [TouchTabletInit.step] at hstep
      split at hstep
      · rw [Option.some.injEq] at hstep
        exact hstep ▸ hinv.set rfl
      · exact absurd hstep (by simp)

/-! ## What other steps lead to -/

/-- A run goes on to find no work queue or to leave a driver registered. -/
def Breaks (state : State) : Prop :=
  ∃ events later, GuardedRun step Within state events later ∧ ¬ Outlives later

/-- A URB in flight without a work queue. -/
theorem breaks_of_inFlight {opened : Bool}
    (hi : state.devices[i]? = some (.connected opened true))
    (hworkq : state.workq ≠ .created) : Breaks state := by
  have hstep : step state (.tabletIrq i true) =
      some ((state.set i (.connected opened false)).queueWork i) := by
    simp only [step, hi, if_true]
  refine ⟨[.tabletIrq i true], _,
    GuardedRun.cons hstep trivial (GuardedRun.nil _), fun houtlives => ?_⟩
  exact hworkq (houtlives.queue_calls state.workq (by simp [State.queueWork, State.set]))

/-- Every other step can be followed by steps that find no work queue or leaves
a driver registered. -/
theorem Inv.breaks (hinv : Inv state)
    (hstep : TouchTabletInit.step state event = some state')
    (hnot : ¬ Within state event state') : Breaks state' := by
  unfold Within at hnot
  -- A tablet is opened without a work queue, the queue cannot be created, or it is
  -- destroyed under a URB in flight.
  split at hnot
  · next i =>
      obtain ⟨hi, rfl⟩ := step_tabletOpen hstep
      have hflight : (state.set i (.connected true true)).devices[i]? =
          some (.connected true true) := set_self hi
      exact breaks_of_inFlight hflight hnot
  · next created =>
      simp only [TouchTabletInit.step, Option.ite_none_right_eq_some] at hstep
      obtain ⟨hloader, hstep⟩ := hstep
      rw [if_neg hnot, Option.some.injEq] at hstep
      subst hstep
      refine ⟨[], _, GuardedRun.nil _, fun houtlives => ?_⟩
      have hregistered : state.registered = true := by
        rw [hinv.registered, hloader]
        rfl
      exact absurd (hregistered.symm.trans (houtlives.failed (-1) rfl)) (by simp)
  · simp only [TouchTabletInit.step, Option.ite_none_right_eq_some,
      Option.some.injEq] at hstep
    obtain ⟨-, rfl⟩ := hstep
    -- It may be a URB that `work_irq` has submitted after `tablet_close`.
    obtain ⟨device, hmem, hflight⟩ : ∃ device ∈ state.devices,
        device.inFlight = true := by simpa using hnot
    obtain ⟨i, hi⟩ := List.mem_iff_getElem?.mp hmem
    cases device with
    | connected opened inFlight =>
        have hinFlight : inFlight = true := hflight
        exact @breaks_of_inFlight _ i opened (hinFlight ▸ hi) (by simp)
    | disconnected => exact absurd hflight (by simp [Device.inFlight])
  · exact absurd trivial hnot

/-! ## Runs -/

/-- In a run in which the work queue is created, tablets are opened only while
it is there and none has its URB in flight when it is destroyed, `tablet_irq`
always finds it and no failed module is left registered; and a run that takes
another step can go on to break this. -/
theorem workqueue_outlives {events : List Event}
    (hrun : GuardedRun step Within State.initial events state) :
    Outlives state ∧ ∀ event state', step state event = some state' →
      ¬ Within state event state' → Breaks state' := by
  have hinv : Inv state := hrun.invariant
    (fun _ _ _ hinv hstep hwithin => hinv.step hstep hwithin) Inv.initial
  exact ⟨hinv.outlives, fun event state' hstep hnot => hinv.breaks hstep hnot⟩

/-- A tablet is opened, a packet arrives and the tablet is closed; the queued
`work_irq` submits the URB again, which is back before the module is unloaded. -/
def reopenedByWork : List Event :=
  [.usbRegister, .probe, .registered 0, .createWorkqueue true, .tabletOpen 0 true,
    .tabletIrq 0 true, .tabletClose 0, .workIrq 0 true, .tabletIrq 0 true,
    .workIrq 0 false, .touchTabletExit, .flushWorkqueue, .destroyWorkqueue,
    .usbDeregister, .tabletDisconnect 0, .deregistered]

theorem workqueue_outlives_sample :
    ∃ state, GuardedRun step Within State.initial reopenedByWork state ∧
      Outlives state := by
  have hrun : ∃ state, GuardedRun step Within State.initial reopenedByWork state := by
    refine ⟨_, GuardedRun.cons rfl trivial (GuardedRun.cons rfl trivial
      (GuardedRun.cons rfl trivial (GuardedRun.cons rfl rfl
        (GuardedRun.cons rfl rfl (GuardedRun.cons rfl trivial
          (GuardedRun.cons rfl trivial (GuardedRun.cons rfl trivial
            (GuardedRun.cons rfl trivial (GuardedRun.cons rfl trivial
              (GuardedRun.cons rfl trivial (GuardedRun.cons rfl trivial
                (GuardedRun.cons rfl ?_ (GuardedRun.cons rfl trivial
                  (GuardedRun.cons rfl trivial (GuardedRun.cons rfl trivial
                    (GuardedRun.nil _))))))))))))))))⟩
    show ∀ device ∈ [Device.connected false false], device.inFlight = false
    decide
  obtain ⟨state, hrun⟩ := hrun
  exact ⟨state, hrun, (workqueue_outlives hrun).1⟩

/-- Open, packet, close and unload: the URB that `work_irq` submits after
`tablet_close` comes back to a queue that has been destroyed. -/
example :
    (run step State.initial
      [.usbRegister, .probe, .registered 0, .createWorkqueue true, .tabletOpen 0 true,
        .tabletIrq 0 true, .tabletClose 0, .touchTabletExit, .workIrq 0 true,
        .flushWorkqueue, .destroyWorkqueue, .tabletIrq 0 true]).map State.queueCalls =
      some [.created, .destroyed] := rfl

/-- A tablet that is opened as soon as it is probed finds no work queue, and
when the work queue cannot be created the driver stays registered. -/
theorem workqueue_missing :
    ¬ (∀ (events : List Event) (state : State),
        run step State.initial events = some state →
          ∀ workq ∈ state.queueCalls, workq = .created) ∧
      ¬ (∀ (events : List Event) (state : State),
        run step State.initial events = some state →
          ∀ result, state.loader = .failed result → state.registered = false) := by
  constructor
  · intro hall
    have hrun : ∃ state, run step State.initial
        [.usbRegister, .probe, .registered 0, .tabletOpen 0 true,
          .tabletIrq 0 true] = some state ∧ state.queueCalls = [.null] :=
      ⟨_, rfl, rfl⟩
    obtain ⟨state, hrun, hcalls⟩ := hrun
    exact absurd (hall _ state hrun .null (by simp [hcalls])) (by simp)
  · intro hall
    have hrun : ∃ state, run step State.initial
        [.usbRegister, .registered 0, .createWorkqueue false] = some state ∧
          state.loader = .failed (-1) ∧ state.registered = true :=
      ⟨_, rfl, rfl, rfl⟩
    obtain ⟨state, hrun, hloader, hregistered⟩ := hrun
    exact absurd (hregistered.symm.trans (hall _ state hrun _ hloader)) (by simp)

end TouchTabletInit
end TabletDriver
end OsStuff
