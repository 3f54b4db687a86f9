import Mathlib.Tactic

/-!
# `wacom.h`

What the handlers read and change of a `struct tablet`, and the calls they make
on its input device.
-/

namespace OsStuff
namespace TabletDriver

abbrev Byte := BitVec 8

abbrev usbPacketLen : Nat := 20
abbrev wacomPkglenBbfun : Nat := 9

def stylusDeviceId : Int := 0x02
def eraserDeviceId : Int := 0x0A

/-- Keys of the input device. -/
inductive Key
  | touch
  | stylus
  | stylus2
  | left
  | right
  | middle
  | back
  | forward
  deriving DecidableEq, Repr

/-- Relative axes of the input device. -/
inductive Rel
  | x
  | y
  | wheel
  | hwheel
  deriving DecidableEq, Repr

/-- Absolute axes of the input device. -/
inductive Abs
  | x
  | y
  | pressure
  | distance
  | misc
  deriving DecidableEq, Repr

/-- A call of `input_report_key`, `input_report_rel`, `input_report_abs` or
`input_sync`. -/
inductive Report
  | key (code : Key) (value : Int)
  | rel (code : Rel) (value : Int)
  | abs (code : Abs) (value : Int)
  | sync
  deriving DecidableEq, Repr

/-- What a pen packet sets `tool[0]` to. -/
inductive Tool
  | none
  | pen
  | rubber
  deriving DecidableEq, Repr

/-- The members of `wacom_features` that the handlers read. -/
structure Features where
  distanceMax : Nat
  touchMax : Nat
  deriving DecidableEq, Repr

def wacomFeatures0xD1 : Features where
  distanceMax := 31
  touchMax := 2

/-- The packet buffer of a tablet. -/
abbrev Data := Vector Byte usbPacketLen

/-! The bytes of a packet that the handlers test one by one. -/

theorem index_zero : 0 < usbPacketLen := by decide

theorem index_one : 1 < usbPacketLen := by decide

theorem index_two : 2 < usbPacketLen := by decide

theorem index_three : 3 < usbPacketLen := by decide

theorem index_four : 4 < usbPacketLen := by decide

theorem index_five : 5 < usbPacketLen := by decide

theorem index_six : 6 < usbPacketLen := by decide

theorem index_seven : 7 < usbPacketLen := by decide

/-- A tablet; `id` and `tool` are the first entries of the arrays. -/
structure Tablet where
  features : Features
  data : Data
  reportingData : Bool
  id : Int
  tool : Tool
  deriving DecidableEq, Repr

/-- A tablet as `tablet_probe` leaves it. -/
def Tablet.probed (data : Data) : Tablet where
  features := wacomFeatures0xD1
  data := data
  reportingData := false
  id := 0
  tool := .none

/-- `le16_to_cpup` of the two bytes from `low` on. -/
def le16ToCpup (low high : Byte) : BitVec 16 :=
  high ++ low

/-- `get_unaligned_be16` of the two bytes from `high` on. -/
def getUnalignedBe16 (high low : Byte) : BitVec 16 :=
  high ++ low

end TabletDriver
end OsStuff
