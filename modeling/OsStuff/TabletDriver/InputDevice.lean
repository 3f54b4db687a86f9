import OsStuff.TabletDriver.HidParse

/-!
# `wacom.c`: the input device

`setup_input_dev_capabilities` and the features it reads.  `BTN_MOUSE` is the
same code as `BTN_LEFT`.  The input core drops an event that the device has not
declared.
-/

namespace OsStuff
namespace TabletDriver

/-- `struct wacom_features`, without its name and type, which nothing reads. -/
structure WacomFeatures extends HidFeatures, Features where
  pressureMax : Nat
  xResolution : Nat
  yResolution : Nat
  deriving DecidableEq, Repr

/-- The `driver_info` of the only entry of the id table; `device_type` is
overwritten before it is read. -/
def driverInfo0xD1 : WacomFeatures where
  deviceType := .btnToolPen
  pktlen := wacomPkglenBbfun
  xMax := 14720
  yMax := 9200
  distanceMax := 31
  touchMax := 2
  pressureMax := 1023
  xResolution := 100
  yResolution := 100

example : driverInfo0xD1.toFeatures = wacomFeatures0xD1 := rfl

/-- A bit of `evbit`. -/
inductive EventType
  | key
  | rel
  | abs
  deriving DecidableEq, Repr

/-- A bit of `keybit`: the keys that the handlers report and those that they do
not. -/
inductive KeyBit
  | key (key : Key)
  | toolPen
  | toolRubber
  | zoomIn
  | zoomOut
  deriving DecidableEq, Repr

structure AbsInfo where
  minimum : Int
  maximum : Int
  fuzz : Int
  flat : Int
  resolution : Int
  deriving DecidableEq, Repr

structure Capabilities where
  evbit : List EventType
  keybit : List KeyBit
  relbit : List Rel
  absbit : List Abs
  pointer : Bool
  absinfo : Abs → AbsInfo

/-- As `input_allocate_device` leaves them. -/
def Capabilities.none : Capabilities where
  evbit := []
  keybit := []
  relbit := []
  absbit := []
  pointer := false
  absinfo := fun _ => ⟨0, 0, 0, 0, 0⟩

def Capabilities.setKeys (device : Capabilities) (keys : List KeyBit) : Capabilities :=
  { device with keybit := keys ++ device.keybit }

/-- `input_set_abs_params`, which declares the axis too. -/
def Capabilities.inputSetAbsParams (device : Capabilities) (axis : Abs)
    (minimum maximum fuzz flat : Int) : Capabilities :=
  { device with
    evbit := .abs :: device.evbit
    absbit := axis :: device.absbit
    absinfo := Function.update device.absinfo axis
      ⟨minimum, maximum, fuzz, flat, (device.absinfo axis).resolution⟩ }

/-- `input_abs_set_res`. -/
def Capabilities.inputAbsSetRes (device : Capabilities) (axis : Abs)
    (resolution : Int) : Capabilities :=
  { device with
    absinfo := Function.update device.absinfo axis
      { device.absinfo axis with resolution := resolution } }

/-- The result and the device afterwards. -/
def setupInputDevCapabilities (device : Capabilities) (features : WacomFeatures) :
    Int × Capabilities :=
  let device := { device with evbit := .key :: device.evbit }
  let device := device.setKeys [.key .touch]
  let device :=
    match features.deviceType with
    | .btnToolPen =>
        let device := { device with
          absbit := .misc :: device.absbit, evbit := .abs :: device.evbit }
        let device := device.inputSetAbsParams .x 0 features.xMax 4 0
        let device := device.inputSetAbsParams .y 0 features.yMax 4 0
        let device := device.inputSetAbsParams .pressure 0 features.pressureMax 0 0
        let device := device.inputAbsSetRes .x features.xResolution
        let device := device.inputAbsSetRes .y features.yResolution
        let device := { device with pointer := true }
        let device := device.setKeys [.toolRubber, .toolPen, .key .stylus, .key .stylus2]
        device.inputSetAbsParams .distance 0 features.distanceMax 1 0
    | .btnToolFinger =>
        let device := { device with
          evbit := .rel :: device.evbit
          relbit := [Rel.wheel, .hwheel, .x, .y] ++ device.relbit }
        device.setKeys [.key .left, .key .right, .key .middle, .key .forward,
          .key .back, .zoomIn, .zoomOut]
  -- `BTN_MOUSE`
  (0, device.setKeys [.key .left])

/-- The input core passes the event on. -/
def Capabilities.declares (device : Capabilities) : Report → Bool
  | .key code _ => .key ∈ device.evbit ∧ .key code ∈ device.keybit
  | .rel code _ => .rel ∈ device.evbit ∧ code ∈ device.relbit
  | .abs code _ => .abs ∈ device.evbit ∧ code ∈ device.absbit
  | .sync => true

/-! ## What is declared -/

variable {features : WacomFeatures} {report : Report}

theorem setupInputDevCapabilities_result {device : Capabilities} :
    (setupInputDevCapabilities device features).1 = 0 := rfl

/-- What a device of the type declares. -/
def DeviceType.declares : DeviceType → Report → Bool
  | .btnToolPen, .key code _ => code ∈ [Key.touch, .stylus, .stylus2, .left]
  | .btnToolPen, .rel _ _ => false
  | .btnToolPen, .abs _ _ => true
  | .btnToolFinger, .key code _ => code ∉ [Key.stylus, .stylus2]
  | .btnToolFinger, .rel _ _ => true
  | .btnToolFinger, .abs _ _ => false
  | _, .sync => true

/-- The type decides what is declared, whatever the other features. -/
theorem declares_eq : (setupInputDevCapabilities .none features).2.declares report =
    features.deviceType.declares report := by
  unfold setupInputDevCapabilities
  cases htype : features.deviceType <;> cases report with
  | key code value => cases code <;> rfl
  | rel code value => cases code <;> rfl
  | abs code value => cases code <;> rfl
  | sync => rfl

/-- The declared range of the distance. -/
theorem absinfo_distance (htype : features.deviceType = .btnToolPen) :
    (setupInputDevCapabilities .none features).2.absinfo .distance =
      ⟨0, features.distanceMax, 1, 0, 0⟩ := by
  unfold setupInputDevCapabilities
  rw [htype]
  rfl

end TabletDriver
end OsStuff
