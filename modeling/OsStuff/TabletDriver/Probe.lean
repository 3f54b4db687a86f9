import OsStuff.Library.Ledger
import OsStuff.Library.Run
import OsStuff.TabletDriver.InputDevice

/-!
# `tablet_probe` and `tablet_disconnect`

What the driver takes from the kernel for an interface and what it gives back,
call by call, for every outcome of the calls.  The USB core probes an interface
that no driver is bound to, binds it when the result is zero, and disconnects
only bound interfaces.

A probe with `driver_info` whose packets are longer than the buffer returns
without giving back the `struct tablet`; the id table has no such entry.
-/

namespace OsStuff
namespace TabletDriver
namespace Probe

open Library

/-- `-ENOMEM` -/
def enomem : Int := -12

/-- What `kzalloc`, `usb_alloc_coherent`, `usb_alloc_urb` and
`input_allocate_device` hand out. -/
inductive Resource
  | tablet
  | coherent
  | urb
  | report
  | inputDevice
  | repData
  deriving DecidableEq, Repr

abbrev Handle := Nat × Resource

/-- A request of `wacom_set_report`. -/
structure SetReport where
  request : Byte
  value : Nat
  index : Byte
  data : List Byte
  deriving DecidableEq, Repr

structure Kernel where
  ledger : Ledger Resource
  requests : List SetReport
  deriving DecidableEq, Repr

def Kernel.alloc (kernel : Kernel) (resource : Resource) : Kernel × Handle :=
  ({ kernel with ledger := (kernel.ledger.alloc resource).1 },
    (kernel.ledger.alloc resource).2)

def Kernel.free (kernel : Kernel) (handle : Handle) : Kernel :=
  { kernel with ledger := kernel.ledger.free handle }

/-- The results of the calls: whether something was allocated, an error, and
what came with it. -/
structure Outcomes where
  tablet : Bool
  coherent : Bool
  urb : Bool
  hidDescriptor : Int × BitVec 16
  endpointDescriptor : Int × BitVec 16
  report : Bool
  received : Int
  bytes : Nat → Byte
  inputDevice : Bool
  registered : Int
  repData : Bool
  sent : Int

/-- What the driver reads of a `struct usb_interface`. -/
structure UsbInterface where
  bInterfaceNumber : Byte
  bEndpointAddress : Byte
  bInterval : Byte
  deriving DecidableEq, Repr

/-- What `usb_fill_int_urb` fills in. -/
structure Urb where
  handle : Handle
  endpoint : Byte
  transferBuffer : Handle
  bufferLength : Nat
  context : Handle
  interval : Byte
  deriving DecidableEq, Repr

structure InputDevice where
  handle : Handle
  drvdata : Handle
  capabilities : Capabilities

/-- The `struct tablet` of a bound interface. -/
structure Tablet where
  handle : Handle
  data : Handle
  urb : Urb
  inputDev : InputDevice
  features : WacomFeatures

variable (kernel : Kernel) (interface : UsbInterface) (features : WacomFeatures)
  (outcomes : Outcomes)

/-- `parse_hid`, which does not return if its loop does not end. -/
def parseHid (wDescriptorLength : BitVec 16) :
    Option (Kernel × Except Int WacomFeatures) :=
  if outcomes.report then
    let (kernel, report) := kernel.alloc .report
    if outcomes.received < 0 then some (kernel.free report, .ok features)
    else do
      let (hid, _) ← TabletDriver.parseHid outcomes.bytes wDescriptorLength.toNat
        features.toHidFeatures
      some (kernel.free report, .ok { features with toHidFeatures := hid })
  else some (kernel, .error enomem)

def parseHidDescriptor : Option (Kernel × Except Int WacomFeatures) :=
  let features := { features with deviceType := .btnToolPen }
  if outcomes.hidDescriptor.1 ≠ 0 then
    if outcomes.endpointDescriptor.1 ≠ 0 then
      some (kernel, .error outcomes.endpointDescriptor.1)
    else parseHid kernel features outcomes outcomes.endpointDescriptor.2
  else parseHid kernel features outcomes outcomes.hidDescriptor.2

/-- The registered device of a tablet. -/
def setupInputDev (tablet : Handle) : Kernel × Except Int InputDevice :=
  if outcomes.inputDevice then
    let (kernel, inputDev) := kernel.alloc .inputDevice
    let (error, capabilities) := setupInputDevCapabilities .none features
    if error ≠ 0 then (kernel, .error error)
    else if outcomes.registered ≠ 0 then
      (kernel.free inputDev, .error outcomes.registered)
    else (kernel, .ok ⟨inputDev, tablet, capabilities⟩)
  else (kernel, .error enomem)

def wacomSetReport : Kernel × Int :=
  let reportId : Byte := 2
  let mode : Byte := 2
  if outcomes.repData then
    let (kernel, repData) := kernel.alloc .repData
    let request : SetReport :=
      ⟨0x09, 0x03 <<< 8 + reportId.toNat, interface.bInterfaceNumber, [reportId, mode]⟩
    let kernel := { kernel with requests := kernel.requests ++ [request] }
    if outcomes.sent < 0 then (kernel.free repData, outcomes.sent)
    else (kernel.free repData, 0)
  else (kernel, enomem)

/-- The error, or the interface data of a result of zero. -/
def tabletProbe : Option (Kernel × Except Int Tablet) :=
  if outcomes.tablet = false then some (kernel, .error enomem)
  else
  let (kernel, tablet) := kernel.alloc .tablet
  -- the `struct tablet` is not given back here
  if usbPacketLen < features.pktlen then some (kernel, .error enomem)
  else if outcomes.coherent = false then some (kernel.free tablet, .error enomem)
  else
  let (kernel, data) := kernel.alloc .coherent
  if outcomes.urb = false then
    some ((kernel.free data).free tablet, .error enomem)
  else
  let (kernel, urb) := kernel.alloc .urb
  match parseHidDescriptor kernel features outcomes with
  | none => none
  | some (kernel, .error error) =>
      some (((kernel.free urb).free data).free tablet, .error error)
  | some (kernel, .ok features) =>
  match setupInputDev kernel features outcomes tablet with
  | (kernel, .error error) =>
      some (((kernel.free urb).free data).free tablet, .error error)
  | (kernel, .ok inputDev) =>
      let kernel :=
        if features.deviceType = .btnToolPen then
          (wacomSetReport kernel interface outcomes).1
        else kernel
      some (kernel, .ok
        { handle := tablet
          data := data
          urb := ⟨urb, interface.bEndpointAddress, data, features.pktlen, tablet,
            interface.bInterval⟩
          inputDev := inputDev
          features := features })

/-- `tablet_disconnect`, given the interface data. -/
def tabletDisconnect (intfdata : Option Tablet) : Kernel :=
  match intfdata with
  | some tablet =>
      -- `input_unregister_device` drops the last reference
      let kernel := kernel.free tablet.inputDev.handle
      let kernel := kernel.free tablet.urb.handle
      let kernel := kernel.free tablet.data
      kernel.free tablet.handle
  | none => kernel

/-! ## Interfaces -/

/-- An interface for the USB core. -/
inductive Binding
  | unbound
  | bound (intfdata : Option Tablet)

structure State where
  kernel : Kernel
  interfaces : List Binding

inductive Event
  | probe (i : Nat) (interface : UsbInterface) (features : WacomFeatures)
      (outcomes : Outcomes)
  | disconnect (i : Nat)

/-- A result of zero binds the interface. -/
def bindingOf : Except Int Tablet → Binding
  | .ok tablet => .bound (some tablet)
  | .error error => if error = 0 then .bound none else .unbound

def step (state : State) : Event → Option State
  | .probe i interface features outcomes =>
      match state.interfaces[i]? with
      | some .unbound =>
          (tabletProbe state.kernel interface features outcomes).map
            fun (kernel, result) =>
              ⟨kernel, state.interfaces.set i (bindingOf result)⟩
      | _ => none
  | .disconnect i =>
      match state.interfaces[i]? with
      | some (.bound intfdata) =>
          some ⟨tabletDisconnect state.kernel intfdata,
            state.interfaces.set i .unbound⟩
      | _ => none

/-- Before the first probe. -/
def State.initial (interfaces : Nat) : State where
  kernel := ⟨.empty, []⟩
  interfaces := List.replicate interfaces .unbound

/-! ## What an interface holds -/

/-- What is out is `owned`, and nothing was given back wrongly. -/
def Kernel.Holds (kernel : Kernel) (owned : List Handle) : Prop :=
  kernel.ledger.Holds 0 owned

theorem Kernel.Holds.alloc {kernel : Kernel} {owned : List Handle}
    (hholds : kernel.Holds owned) (resource : Resource) :
    (kernel.alloc resource).1.Holds ((kernel.alloc resource).2 :: owned) :=
  Ledger.Holds.alloc hholds resource

theorem Kernel.Holds.free {kernel : Kernel} {owned : List Handle} {handle : Handle}
    (hholds : kernel.Holds (handle :: owned)) : (kernel.free handle).Holds owned :=
  Ledger.Holds.free hholds

/-- In the order in which `tablet_disconnect` gives them back. -/
def Tablet.handles (tablet : Tablet) : List Handle :=
  [tablet.inputDev.handle, tablet.urb.handle, tablet.data, tablet.handle]

def Binding.handles : Binding → List Handle
  | .bound (some tablet) => tablet.handles
  | _ => []

/-- The tablet, its URB and its input device belong together, and no packet is
longer than the buffer. -/
structure Tablet.Sound (tablet : Tablet) : Prop where
  buffer : tablet.urb.transferBuffer = tablet.data
  context : tablet.urb.context = tablet.handle
  drvdata : tablet.inputDev.drvdata = tablet.handle
  length : tablet.urb.bufferLength ≤ usbPacketLen
  finger : tablet.features.deviceType = .btnToolFinger →
    tablet.urb.bufferLength = usbPacketLen
  capabilities : tablet.inputDev.capabilities =
    (setupInputDevCapabilities .none tablet.features).2

/-- A bound interface has a tablet. -/
def Binding.Sound : Binding → Prop
  | .unbound => True
  | .bound none => False
  | .bound (some tablet) => tablet.Sound

/-- The probe returns without giving back the `struct tablet`. -/
def leaks (features : WacomFeatures) (outcomes : Outcomes) : Bool :=
  outcomes.tablet && decide (usbPacketLen < features.pktlen)

def Event.leaks : Event → Bool
  | .probe _ _ features outcomes => Probe.leaks features outcomes
  | .disconnect _ => false

/-- What is out is what the bound interfaces hold and `count` further
`struct tablet`. -/
def State.Accounted (state : State) (count : Nat) : Prop :=
  ∃ leaked : List Handle,
    state.kernel.Holds
        (state.interfaces.flatMap Binding.handles ++ leaked) ∧
      leaked.map Prod.snd = List.replicate count .tablet

/-! ## The loop of `parse_hid` -/

/-- What parsing keeps of the features that a finger device has. -/
structure Parsed (pktlen : Nat) (hid : HidFeatures) : Prop where
  pktlen : hid.pktlen = pktlen ∨ hid.pktlen = usbPacketLen
  finger : hid.deviceType = .btnToolFinger → hid.pktlen = usbPacketLen

section Parsing

variable {report : Nat → Byte} {state : HidState} {pktlen : Nat}

theorem handleUsage_parsed (hparsed : Parsed pktlen state.features) (data : Word) :
    Parsed pktlen (handleUsage report state data).1.features := by
  obtain ⟨hlength, hfinger⟩ := hparsed
  unfold handleUsage
  dsimp only
  split_ifs
  · exact ⟨Or.inr rfl, fun _ => rfl⟩
  · exact ⟨hlength, nofun⟩
  all_goals exact ⟨hlength, hfinger⟩

theorem parseItem_i : (parseItem report state).1.i =
    state.i + (itemData report state.i).1 + 1 := rfl

theorem parseItem_parsed (hparsed : Parsed pktlen state.features) :
    Parsed pktlen (parseItem report state).1.features := by
  unfold parseItem handleItem
  dsimp only
  split_ifs
  · exact hparsed
  · exact handleUsage_parsed hparsed _
  · exact handleUsage_parsed hparsed _
  · exact hparsed
  · exact hparsed

/-- The loop ends, as every round passes at least one byte. -/
theorem parseLoop_returns (length rounds : Nat) (hrounds : length ≤ state.i + rounds)
    (hparsed : Parsed pktlen state.features) :
    ∃ final visits, parseLoop report length rounds state = some (final, visits) ∧
      Parsed pktlen final.features := by
  induction rounds generalizing state with
  | zero =>
      refine ⟨state, [], ?_, hparsed⟩
      rw [parseLoop, if_neg (by omega)]
  | succ rounds ih =>
      by_cases hi : state.i < length
      · have hrest : length ≤ (parseItem report state).1.i + rounds := by
          rw [parseItem_i]
          omega
        obtain ⟨final, visits, hloop, hfinal⟩ := ih hrest (parseItem_parsed hparsed)
        refine ⟨final, (parseItem report state).2 :: visits, ?_, hfinal⟩
        rw [parseLoop, if_pos hi]
        dsimp only
        rw [hloop]
        rfl
      · exact ⟨state, [], by rw [parseLoop, if_neg hi], hparsed⟩

end Parsing

/-! ## What the calls hold -/

/-- The error is one, or the value has the property. -/
def Returns {α : Type} (p : α → Prop) : Except Int α → Prop
  | .ok value => p value
  | .error error => error ≠ 0

/-- What parsing makes of the features of `driver_info`. -/
def Fitted (before after : WacomFeatures) : Prop :=
  Parsed before.pktlen after.toHidFeatures ∧ after.toFeatures = before.toFeatures

theorem enomem_ne_zero : enomem ≠ 0 := by decide

section Calls

variable {kernel : Kernel} {interface : UsbInterface} {features : WacomFeatures}
  {outcomes : Outcomes} {owned : List Handle}

theorem parseHid_holds (hholds : kernel.Holds owned)
    (wDescriptorLength : BitVec 16) (hpen : features.deviceType = .btnToolPen) :
    ∃ kernel' result,
      parseHid kernel features outcomes wDescriptorLength = some (kernel', result) ∧
        kernel'.Holds owned ∧ Returns (Fitted features) result := by
  have hparsed : Parsed features.pktlen features.toHidFeatures := by
    constructor
    · exact Or.inl rfl
    · rw [hpen]
      nofun
  have hheld := (hholds.alloc .report).free
  unfold parseHid
  by_cases hreport : outcomes.report
  · rw [if_pos hreport]
    dsimp only
    by_cases hreceived : outcomes.received < 0
    · rw [if_pos hreceived]
      exact ⟨_, _, rfl, hheld, hparsed, rfl⟩
    · rw [if_neg hreceived]
      obtain ⟨final, visits, hloop, hfinal⟩ :=
        @parseLoop_returns outcomes.bytes ⟨0, 0, false, false, features.toHidFeatures⟩
          features.pktlen wDescriptorLength.toNat wDescriptorLength.toNat
          (Nat.le_add_left _ _) hparsed
      unfold TabletDriver.parseHid
      rw [hloop]
      exact ⟨_, _, rfl, hheld, hfinal, rfl⟩
  · rw [if_neg hreport]
    exact ⟨_, _, rfl, hholds, enomem_ne_zero⟩

theorem parseHidDescriptor_holds (hholds : kernel.Holds owned) :
    ∃ kernel' result,
      parseHidDescriptor kernel features outcomes = some (kernel', result) ∧
        kernel'.Holds owned ∧ Returns (Fitted features) result := by
  have hparse (wDescriptorLength : BitVec 16) :=
    @parseHid_holds _ { features with deviceType := .btnToolPen } outcomes _ hholds
      wDescriptorLength rfl
  unfold parseHidDescriptor
  dsimp only
  split_ifs with hhid hendpoint
  · exact ⟨_, _, rfl, hholds, hendpoint⟩
  · exact hparse outcomes.endpointDescriptor.2
  · exact hparse outcomes.hidDescriptor.2

theorem setupInputDev_holds (hholds : kernel.Holds owned) (tablet : Handle) :
    (∃ kernel' inputDev,
      setupInputDev kernel features outcomes tablet = (kernel', .ok inputDev) ∧
        kernel'.Holds (inputDev.handle :: owned) ∧
        inputDev.drvdata = tablet ∧
        inputDev.capabilities = (setupInputDevCapabilities .none features).2) ∨
    ∃ kernel' error,
      setupInputDev kernel features outcomes tablet = (kernel', .error error) ∧
        kernel'.Holds owned ∧ error ≠ 0 := by
  have hheld := hholds.alloc .inputDevice
  unfold setupInputDev
  by_cases hdevice : outcomes.inputDevice
  · rw [if_pos hdevice]
    dsimp only
    rw [if_neg (not_not.mpr setupInputDevCapabilities_result)]
    by_cases hregistered : outcomes.registered = 0
    · rw [if_neg (not_not.mpr hregistered)]
      exact Or.inl ⟨_, _, rfl, hheld, rfl, rfl⟩
    · rw [if_pos hregistered]
      exact Or.inr ⟨_, _, rfl, hheld.free, hregistered⟩
  · rw [if_neg hdevice]
    exact Or.inr ⟨_, _, rfl, hholds, enomem_ne_zero⟩

theorem wacomSetReport_holds (hholds : kernel.Holds owned) :
    (wacomSetReport kernel interface outcomes).1.Holds owned := by
  have hheld := (hholds.alloc .repData).free
  unfold wacomSetReport
  dsimp only
  split_ifs
  · exact hheld
  · exact hheld
  · exact hholds

theorem bindingOf_error {error : Int} (herror : error ≠ 0) :
    bindingOf (.error error) = .unbound :=
  if_neg herror

theorem bindingOf_sound {result : Except Int Tablet}
    (hreturns : Returns (fun tablet => tablet.Sound ∧
      tablet.features.toFeatures = features.toFeatures) result) :
    (bindingOf result).Sound := by
  cases result with
  | ok tablet => exact hreturns.1
  | error error =>
      rw [bindingOf_error hreturns]
      trivial

/-- A probe returns, and takes what its interface holds afterwards or leaks. -/
theorem tabletProbe_holds (hholds : kernel.Holds owned)
    (interface : UsbInterface) (features : WacomFeatures) (outcomes : Outcomes) :
    ∃ kernel' result leaked,
      tabletProbe kernel interface features outcomes = some (kernel', result) ∧
        kernel'.Holds ((bindingOf result).handles ++ (leaked ++ owned)) ∧
        leaked.map Prod.snd =
          List.replicate (if leaks features outcomes then 1 else 0) .tablet ∧
        Returns (fun tablet => tablet.Sound ∧
          tablet.features.toFeatures = features.toFeatures) result := by
  -- a probe that fails holds nothing
  have hfails {kernel' : Kernel} {error : Int} (hheld : kernel'.Holds owned)
      (herror : error ≠ 0) :
      kernel'.Holds ((bindingOf (.error error)).handles ++ ([] ++ owned)) := by
    rw [bindingOf_error herror]
    exact hheld
  unfold tabletProbe leaks
  by_cases htablet : outcomes.tablet
  · have htaken := hholds.alloc .tablet
    rw [if_neg (by simp [htablet])]
    dsimp only
    by_cases hpktlen : usbPacketLen < features.pktlen
    · rw [if_pos hpktlen]
      have hunbound := bindingOf_error enomem_ne_zero
      refine ⟨_, _, [(kernel.alloc .tablet).2], rfl, ?_, ?_, enomem_ne_zero⟩
      · rw [hunbound]
        exact htaken
      · simp [htablet, hpktlen, Kernel.alloc, Ledger.alloc]
    · have hnone : ([] : List Handle).map Prod.snd = List.replicate
          (if (outcomes.tablet && decide (usbPacketLen < features.pktlen)) = true
            then 1 else 0) Resource.tablet := by
        simp [hpktlen]
      rw [if_neg hpktlen]
      by_cases hcoherent : outcomes.coherent
      · have hdata := htaken.alloc .coherent
        rw [if_neg (by simp [hcoherent])]
        by_cases hallocated : outcomes.urb
        · have hurb := hdata.alloc .urb
          rw [if_neg (by simp [hallocated])]
          obtain ⟨parsedKernel, parsedResult, hparse, hparsed, hreturns⟩ :=
            @parseHidDescriptor_holds _ features outcomes _ hurb
          rw [hparse]
          cases parsedResult with
          | error error =>
              have hheld := hfails hparsed.free.free.free hreturns
              exact ⟨_, _, [], rfl, hheld, hnone, hreturns⟩
          | ok fitted =>
              obtain ⟨hfitted, hkept⟩ := hreturns
              rcases setupInputDev_holds hparsed (kernel.alloc .tablet).2 with
                ⟨setKernel, inputDev, hsetup, hset, hdrvdata, hcapabilities⟩ |
                ⟨setKernel, error, hsetup, hset, herror⟩
              · dsimp only
                rw [hsetup]
                refine ⟨_, _, [], rfl, ?_, hnone, ?_, hkept⟩
                · split_ifs
                  · exact wacomSetReport_holds hset
                  · exact hset
                · exact
                    { buffer := rfl
                      context := rfl
                      drvdata := hdrvdata
                      length := by
                        have hlength := hfitted.pktlen
                        dsimp only
                        omega
                      finger := hfitted.finger
                      capabilities := hcapabilities }
              · dsimp only
                rw [hsetup]
                have hheld := hfails hset.free.free.free herror
                exact ⟨_, _, [], rfl, hheld, hnone, herror⟩
        · rw [if_pos (by simpa using hallocated)]
          have hheld := hfails hdata.free.free enomem_ne_zero
          exact ⟨_, _, [], rfl, hheld, hnone, enomem_ne_zero⟩
      · rw [if_pos (by simpa using hcoherent)]
        have hheld := hfails htaken.free enomem_ne_zero
        exact ⟨_, _, [], rfl, hheld, hnone, enomem_ne_zero⟩
  · rw [if_pos (by simpa using htablet)]
    have hheld := hfails hholds enomem_ne_zero
    exact ⟨_, _, [], rfl, hheld, by simp [htablet], enomem_ne_zero⟩

theorem tabletDisconnect_holds {intfdata : Option Tablet}
    (hholds : kernel.Holds ((Binding.bound intfdata).handles ++ owned)) :
    (tabletDisconnect kernel intfdata).Holds owned := by
  cases intfdata with
  | none => exact hholds
  | some tablet => exact hholds.free.free.free.free

end Calls

/-! ## Runs -/

/-- The invariant after probes that have leaked `count` times. -/
structure Inv (count : Nat) (state : State) : Prop where
  accounted : state.Accounted count
  sound : ∀ binding ∈ state.interfaces, binding.Sound

section Runs

variable {state next : State} {count i : Nat}

theorem sound_set {interfaces : List Binding} {binding : Binding}
    (hsound : ∀ other ∈ interfaces, other.Sound) (hbinding : binding.Sound) :
    ∀ other ∈ interfaces.set i binding, other.Sound := by
  intro other hother
  rcases List.mem_or_eq_of_mem_set hother with hother | rfl
  · exact hsound other hother
  · exact hbinding

theorem Inv.probe (hinv : Inv count state) (hi : state.interfaces[i]? = some .unbound)
    (interface : UsbInterface) (features : WacomFeatures) (outcomes : Outcomes) :
    ∃ next, step state (.probe i interface features outcomes) = some next ∧
      Inv (count + if leaks features outcomes then 1 else 0) next := by
  obtain ⟨leaked, hholds, hleaked⟩ := hinv.accounted
  obtain ⟨kernel', result, more, hprobe, hheld, hmore, hreturns⟩ :=
    tabletProbe_holds hholds interface features outcomes
  refine ⟨⟨kernel', state.interfaces.set i (bindingOf result)⟩, ?_, ?_, ?_⟩
  · unfold step
    dsimp only
    rw [hi, hprobe]
    rfl
  · refine ⟨leaked ++ more, Ledger.Holds.perm hheld ?_, ?_⟩
    · have hset : (Binding.unbound.handles ++
          (state.interfaces.set i (bindingOf result)).flatMap Binding.handles).Perm
          ((bindingOf result).handles ++ state.interfaces.flatMap Binding.handles) :=
        flatMap_set_perm hi _
      have hmoved : (more ++ (state.interfaces.flatMap Binding.handles ++ leaked)).Perm
          (state.interfaces.flatMap Binding.handles ++ (leaked ++ more)) := by
        rw [← List.append_assoc _ leaked more]
        exact List.perm_append_comm
      have hall := hset.symm.append_right (leaked ++ more)
      rw [List.append_assoc (bindingOf result).handles] at hall
      exact (hmoved.append_left _).trans hall
    · rw [List.map_append, hleaked, hmore, List.replicate_add]
  · exact sound_set hinv.sound (bindingOf_sound hreturns)

theorem Inv.disconnect (hinv : Inv count state) {intfdata : Option Tablet}
    (hi : state.interfaces[i]? = some (.bound intfdata)) :
    Inv count ⟨tabletDisconnect state.kernel intfdata,
      state.interfaces.set i .unbound⟩ := by
  obtain ⟨leaked, hholds, hleaked⟩ := hinv.accounted
  have hset : ((Binding.bound intfdata).handles ++
      (state.interfaces.set i .unbound).flatMap Binding.handles).Perm
      (state.interfaces.flatMap Binding.handles) :=
    flatMap_set_perm hi _
  have hheld := Ledger.Holds.perm hholds (hset.symm.append_right leaked)
  rw [List.append_assoc] at hheld
  constructor
  · exact ⟨leaked, tabletDisconnect_holds hheld, hleaked⟩
  · exact sound_set hinv.sound trivial

theorem Inv.step (hinv : Inv count state) {event : Event}
    (hstep : Probe.step state event = some next) :
    Inv (count + if event.leaks then 1 else 0) next := by
  cases event with
  | probe i interface features outcomes =>
      have hi : state.interfaces[i]? = some .unbound := by
        unfold Probe.step at hstep
        dsimp only at hstep
        split at hstep
        · assumption
        · contradiction
      obtain ⟨next', hnext, hinv'⟩ := hinv.probe hi interface features outcomes
      rw [hnext, Option.some.injEq] at hstep
      exact hstep ▸ hinv'
  | disconnect i =>
      unfold Probe.step at hstep
      dsimp only at hstep
      split at hstep
      · rw [Option.some.injEq] at hstep
        exact hstep ▸ hinv.disconnect (by assumption)
      · contradiction

theorem Inv.initial (interfaces : Nat) : Inv 0 (State.initial interfaces) := by
  have hnone : (List.replicate interfaces Binding.unbound).flatMap
      Binding.handles = [] := by
    rw [List.flatMap_eq_nil_iff]
    intro binding hbinding
    rw [List.eq_of_mem_replicate hbinding]
    rfl
  constructor
  · refine ⟨[], ?_, rfl⟩
    show Kernel.Holds _ ((List.replicate interfaces Binding.unbound).flatMap
      Binding.handles ++ [])
    rw [hnone]
    exact Ledger.Holds.empty
  · intro binding hbinding
    rw [List.eq_of_mem_replicate hbinding]
    trivial

/-- Whatever the outcomes of the calls, and in any order of probes and
disconnects: nothing is given back that is not out; what is out is what the
bound interfaces hold, apart from each other, and one `struct tablet` for each
probe with packets longer than the buffer; the parts of a bound tablet belong
together; and every probe returns. -/
theorem probes_accounted {interfaces : Nat} {events : List Event}
    (hrun : Library.run Probe.step (State.initial interfaces) events = some state) :
    state.Accounted (events.countP Event.leaks) ∧
      (∀ binding ∈ state.interfaces, binding.Sound) ∧
      ∀ i interface features outcomes, state.interfaces[i]? = some .unbound →
        ∃ next, Probe.step state (.probe i interface features outcomes) = some next := by
  have hinv := @run_count _ _ Probe.step Inv Event.leaks
    (fun _ _ _ _ hinv hstep => hinv.step hstep) _ _ _ _ (Inv.initial interfaces) hrun
  rw [Nat.zero_add] at hinv
  refine ⟨hinv.accounted, hinv.sound, ?_⟩
  intro i interface features outcomes hi
  obtain ⟨next, hnext, -⟩ := hinv.probe hi interface features outcomes
  exact ⟨next, hnext⟩

/-- Every call succeeds, on a report descriptor with a finger usage and its X
usage. -/
def fingerOutcomes : Outcomes where
  tablet := true
  coherent := true
  urb := true
  hidDescriptor := (0, 10)
  endpointDescriptor := (0, 0)
  report := true
  received := 10
  bytes k := [0x05, 0x0d, 0x09, 0x22, 0x05, 0x01, 0x09, 0x30, 0x00, 0x00].getD k 0
  inputDevice := true
  registered := 0
  repData := true
  sent := 2

/-- Two interfaces come, the second in vain, and the first goes. -/
def comeAndGo : List Event :=
  [.probe 0 ⟨0, 0x81, 1⟩ driverInfo0xD1 fingerOutcomes,
    .probe 1 ⟨1, 0x82, 1⟩ driverInfo0xD1 { fingerOutcomes with registered := -5 },
    .disconnect 0]

theorem probes_accounted_come_and_go : ∃ state,
    Library.run Probe.step (State.initial 2) comeAndGo = some state ∧
      state.Accounted 0 := by
  have hsome : (Library.run Probe.step (State.initial 2) comeAndGo).isSome := rfl
  obtain ⟨state, hrun⟩ := Option.isSome_iff_exists.mp hsome
  exact ⟨state, hrun, (probes_accounted hrun).1⟩

end Runs

end Probe
end TabletDriver
end OsStuff
