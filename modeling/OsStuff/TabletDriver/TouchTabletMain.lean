import OsStuff.Library.Processes
import OsStuff.Library.Run
import OsStuff.TabletDriver.WorkIrq

/-!
# `touch_tablet_main.c`: one tablet

A probed tablet with its URB, the containers that `tablet_irq` has queued and
the threads of the work queue that run `work_irq`, one statement at a time and
any number of them at once.  The input core calls `tablet_open` and
`tablet_close` in turn under a lock of its own, the USB core calls
`tablet_disconnect` once.

`usb_kill_urb` refuses submissions while it runs and returns when the URB is not
in flight and no completion handler runs; it does not wait for the work queue.
The device writes the buffer only while the URB is in flight.

`arrived`, `completed` and `handled` are not part of the driver's memory: the
last packet that the USB core gave back, the packets whose container was queued,
and the packets that a handler has been through.
-/

namespace OsStuff
namespace TabletDriver
namespace TouchTablet

open Library

/-- `-EINPROGRESS`, the status of a URB in flight. -/
def inProgress : Int := -115

/-- What the USB core keeps of the URB: whether it is in flight, the completion
handlers that run for it and the calls of `usb_kill_urb` that do. -/
structure Urb where
  inFlight : Bool
  completing : Nat
  reject : Nat
  status : Int
  actualLength : Nat
  deriving DecidableEq, Repr

/-- The outcome of `usb_submit_urb`: the URB is in flight, or an error is
returned before or after the status has been set. -/
inductive Submission
  | granted
  | refused
  | refusedLate
  deriving DecidableEq, Repr

/-- `usb_submit_urb`: the URB afterwards and whether it is in flight now. -/
def usbSubmitUrb (urb : Urb) : Submission → Option (Urb × Bool)
  | .granted =>
      if urb.inFlight = false ∧ urb.reject = 0 then
        some ({ urb with
          inFlight := true, status := inProgress, actualLength := 0 }, true)
      else none
  | .refused => some (urb, false)
  | .refusedLate =>
      if urb.inFlight = false then
        some ({ urb with status := inProgress, actualLength := 0 }, false)
      else none

/-- The next statement of a `work_irq`.  While it handles the packet it may read
any byte of the buffer; `reads` are the bytes it has read. -/
inductive Worker
  | status
  | length
  | handling (actualLength : Nat) (reads : List (Fin usbPacketLen × Byte))
  | resubmit
  | free
  | returned
  deriving DecidableEq, Repr

/-- Where `tablet_disconnect` is. -/
inductive Disconnect
  | notCalled
  | killing
  | unregistering
  | closing
  | freeingUrb
  | freeingData
  | freeingTablet
  | returned
  deriving DecidableEq, Repr

structure State where
  urb : Urb
  tablet : Tablet
  history : History
  reports : List Report
  queue : Nat
  workers : List Worker
  registered : Bool
  isOpen : Bool
  closing : Bool
  disconnect : Disconnect
  urbFreed : Bool
  dataFreed : Bool
  tabletFreed : Bool
  arrived : Packet
  completed : List Packet
  handled : List Packet

inductive Event
  /-- `tablet_open`, with the result of `usb_autopm_get_interface`. -/
  | tabletOpen (autopm : Bool) (submission : Submission)
  /-- `tablet_close` calls `usb_kill_urb`. -/
  | tabletClose
  /-- `usb_kill_urb` and `tablet_close` return. -/
  | closed
  /-- `tablet_disconnect` calls `usb_kill_urb`. -/
  | tabletDisconnect
  /-- `usb_kill_urb` returns to `tablet_disconnect`. -/
  | killed
  /-- `input_unregister_device`, which calls `tablet_close` on an open device. -/
  | unregister
  /-- That `tablet_close` returns. -/
  | disconnectClosed
  | usbFreeUrb
  | usbFreeCoherent
  | kfreeTablet
  /-- The device writes a byte of the buffer. -/
  | dma (index : Fin usbPacketLen) (byte : Byte)
  /-- The USB core completes the URB and calls `tablet_irq`. -/
  | giveback (status : Int) (actualLength : Nat)
  /-- `tablet_irq`, with the result of `kzalloc`. -/
  | tabletIrq (allocated : Bool)
  /-- A thread of the work queue takes a container. -/
  | work
  /-- The next statement of a `work_irq` that touches neither buffer nor core. -/
  | advance (i : Nat)
  /-- A `work_irq` reads a byte of the buffer. -/
  | read (i : Nat) (index : Fin usbPacketLen)
  /-- A `work_irq` calls `usb_submit_urb`. -/
  | resubmit (i : Nat) (submission : Submission)
  deriving DecidableEq, Repr

/-- `usb_kill_urb` may return. -/
def Urb.idle (urb : Urb) : Prop :=
  urb.inFlight = false ∧ urb.completing = 0

instance (urb : Urb) : Decidable urb.idle :=
  inferInstanceAs (Decidable (_ ∧ _))

def Urb.startKill (urb : Urb) : Urb :=
  { urb with reject := urb.reject + 1 }

def Urb.endKill (urb : Urb) : Urb :=
  { urb with reject := urb.reject - 1 }

/-- The state with worker `i` replaced. -/
def State.set (state : State) (i : Nat) (worker : Worker) : State :=
  { state with workers := state.workers.set i worker }

/-- The handler for the packet in the buffer. -/
def State.handle (state : State) (actualLength : Nat) : State :=
  let (history, tablet, reports) :=
    handleData state.history state.tablet actualLength
  { state with
    history := history
    tablet := tablet
    reports := state.reports ++ reports
    handled := state.handled ++ [⟨0, actualLength, state.tablet.data⟩] }

/-- The next statement of a `work_irq`, except for its call of
`usb_submit_urb`. -/
def advance (state : State) (i : Nat) : Worker → Option State
  | .status =>
      if state.urb.status ≠ 0 then some (state.set i .free)
      else some (state.set i .length)
  | .length => some (state.set i (.handling state.urb.actualLength []))
  | .handling actualLength _ =>
      some ((state.handle actualLength).set i .resubmit)
  | .free => some (state.set i .returned)
  | .resubmit | .returned => none

def step (state : State) : Event → Option State
  | .tabletOpen autopm submission =>
      if state.registered ∧ ¬ state.isOpen ∧ ¬ state.closing then
        if autopm then
          (usbSubmitUrb state.urb submission).map fun (urb, submitted) =>
            { state with urb := urb, isOpen := submitted }
        else some state
      else none
  | .tabletClose =>
      if state.registered ∧ state.isOpen ∧ ¬ state.closing then
        some { state with urb := state.urb.startKill, closing := true }
      else none
  | .closed =>
      if state.closing ∧ state.urb.idle then
        some { state with
          urb := state.urb.endKill, isOpen := false, closing := false }
      else none
  | .tabletDisconnect =>
      if state.disconnect = .notCalled then
        some { state with urb := state.urb.startKill, disconnect := .killing }
      else none
  | .killed =>
      if state.disconnect = .killing ∧ state.urb.idle then
        some { state with urb := state.urb.endKill, disconnect := .unregistering }
      else none
  | .unregister =>
      if state.disconnect = .unregistering ∧ ¬ state.closing then
        if state.isOpen then
          some { state with
            urb := state.urb.startKill, registered := false
            disconnect := .closing }
        else some { state with registered := false, disconnect := .freeingUrb }
      else none
  | .disconnectClosed =>
      if state.disconnect = .closing ∧ state.urb.idle then
        some { state with
          urb := state.urb.endKill, isOpen := false, disconnect := .freeingUrb }
      else none
  | .usbFreeUrb =>
      if state.disconnect = .freeingUrb then
        some { state with urbFreed := true, disconnect := .freeingData }
      else none
  | .usbFreeCoherent =>
      if state.disconnect = .freeingData then
        some { state with dataFreed := true, disconnect := .freeingTablet }
      else none
  | .kfreeTablet =>
      if state.disconnect = .freeingTablet then
        some { state with tabletFreed := true, disconnect := .returned }
      else none
  | .dma index byte =>
      if state.urb.inFlight then
        some { state with tablet := { state.tablet with
          data := state.tablet.data.set index byte } }
      else none
  | .giveback status actualLength =>
      if state.urb.inFlight then
        some { state with
          urb := { state.urb with
            inFlight := false
            completing := state.urb.completing + 1
            status := status
            actualLength := actualLength }
          arrived := ⟨status, actualLength, state.tablet.data⟩ }
      else none
  | .tabletIrq allocated =>
      if 0 < state.urb.completing then
        if allocated then
          some { state with
            urb := { state.urb with completing := state.urb.completing - 1 }
            queue := state.queue + 1
            completed := state.completed ++ [state.arrived] }
        else
          some { state with
            urb := { state.urb with completing := state.urb.completing - 1 } }
      else none
  | .work =>
      if 0 < state.queue then
        some { state with
          queue := state.queue - 1, workers := state.workers ++ [.status] }
      else none
  | .advance i => state.workers[i]?.bind fun worker => advance state i worker
  | .read i index =>
      match state.workers[i]? with
      | some (.handling actualLength reads) =>
          some (state.set i (.handling actualLength
            (reads ++ [(index, state.tablet.data[index])])))
      | _ => none
  | .resubmit i submission =>
      if state.workers[i]? = some .resubmit then
        (usbSubmitUrb state.urb submission).map fun (urb, _) =>
          { state.set i .free with urb := urb }
      else none

/-- A tablet as `tablet_probe` leaves it. -/
def State.initial (data : Data) : State where
  urb := ⟨false, 0, 0, 0, 0⟩
  tablet := .probed data
  history := .initial
  reports := []
  queue := 0
  workers := []
  registered := true
  isOpen := false
  closing := false
  disconnect := .notCalled
  urbFreed := false
  dataFreed := false
  tabletFreed := false
  arrived := ⟨0, 0, data⟩
  completed := []
  handled := []

/-! ## Where a `work_irq` is -/

/-- The status was zero and the URB has not been submitted again. -/
def Worker.checked : Worker → Bool
  | .status => false
  | .length => true
  | .handling _ _ => true
  | .resubmit => true
  | .free => false
  | .returned => false

/-- The URB or the tablet is still used. -/
def Worker.uses : Worker → Bool
  | .status => true
  | .length => true
  | .handling _ _ => true
  | .resubmit => true
  | .free => false
  | .returned => false

/-- The packet has not been handled yet. -/
def Worker.pending : Worker → Bool
  | .status => true
  | .length => true
  | .handling _ _ => true
  | .resubmit => false
  | .free => false
  | .returned => false

/-- The number of `work_irq` that use the URB or the tablet. -/
def State.using (state : State) : Nat :=
  state.workers.countP Worker.uses

end TouchTablet
end TabletDriver
end OsStuff
