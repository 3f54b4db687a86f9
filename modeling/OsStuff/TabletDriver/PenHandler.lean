import OsStuff.TabletDriver.Wacom

/-!
# `pen_handler.c`
-/

namespace OsStuff
namespace TabletDriver

/-- The tablet after a pen packet and what is reported. -/
def irqPen (tablet : Tablet) : Tablet × List Report :=
  let data := tablet.data
  let range : Bool := data[1] &&& 0x80 = 0x80
  let proximity : Bool := data[1] &&& 0x40 = 0x40
  let ready : Bool := data[1] &&& 0x20 = 0x20
  let pressure : Int := if ready then (le16ToCpup data[6] data[7]).toNat else 0
  let pen : Int := if ready then (data[1] &&& 0x01).toNat else 0
  let btn1 : Int := if ready then (data[1] &&& 0x02).toNat else 0
  let btn2 : Int := if ready then (data[1] &&& 0x04).toNat else 0
  let x : Int := if proximity then (le16ToCpup data[2] data[3]).toNat else 0
  let y : Int := if proximity then (le16ToCpup data[4] data[5]).toNat else 0
  let tablet :=
    if proximity then
      if data[1] &&& 0x08 ≠ 0 then
        { tablet with tool := .rubber, id := eraserDeviceId, reportingData := true }
      else
        { tablet with tool := .pen, id := stylusDeviceId, reportingData := true }
    else tablet
  let distance : Int :=
    if range then
      if data[8].toNat ≤ tablet.features.distanceMax then
        tablet.features.distanceMax - data[8].toNat
      else 0
    else 0
  let tablet := if range then tablet else { tablet with id := 0 }
  let reports :=
    if tablet.reportingData then
      [.key .touch pen, .key .stylus btn1, .key .stylus2 btn2] ++
        (if proximity || !range then [.abs .x x, .abs .y y] else []) ++
        [.abs .pressure pressure, .abs .distance distance, .abs .misc tablet.id]
    else []
  let tablet := if range then tablet else { tablet with reportingData := false }
  (tablet, reports)

end TabletDriver
end OsStuff
