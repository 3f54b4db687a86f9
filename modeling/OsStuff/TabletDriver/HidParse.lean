import OsStuff.TabletDriver.Wacom

/-!
# `hid_parse.c`

The loop of `parse_hid` over the report descriptor.  `report` is the buffer and
what lies behind it in memory; a `Visit` records what the loop looks at for one
item.  The length of the descriptor has sixteen bits, so the position never
overflows an `int`; the shifts of `data` and `page` keep the low 32 bits.
-/

namespace OsStuff
namespace TabletDriver

abbrev Word := BitVec 32

def hidUsagePage : Byte := 0x04
def hidUsagePageDigitizer : Word := 0x0d
def hidUsagePageDesktop : Word := 0x01
def hidUsagePageWacomtouch : Word := 0xff00
def hidUsage : Byte := 0x08
def hidUsageX : Word := hidUsagePageDesktop <<< 16 ||| 0x30
def hidUsageY : Word := hidUsagePageDesktop <<< 16 ||| 0x31
def hidUsageFinger : Word := hidUsagePageDigitizer <<< 16 ||| 0x22
def hidUsageStylus : Word := hidUsagePageDigitizer <<< 16 ||| 0x20
def hidUsageWtFinger : Word := hidUsagePageWacomtouch <<< 16 ||| 0x22
def hidUsageWtStylus : Word := hidUsagePageWacomtouch <<< 16 ||| 0x20
def hidCollectionEnd : Byte := 0xc0

inductive DeviceType
  | btnToolPen
  | btnToolFinger
  deriving DecidableEq, Repr

/-- The members of `wacom_features` that `parse_hid` sets. -/
structure HidFeatures where
  deviceType : DeviceType
  pktlen : Nat
  xMax : Nat
  yMax : Nat
  deriving DecidableEq, Repr

/-- The variables of the loop. -/
structure HidState where
  i : Nat
  page : Word
  finger : Bool
  pen : Bool
  features : HidFeatures
  deriving DecidableEq, Repr

/-- One round of the loop: the position of the prefix, the data, and the
positions that are read. -/
structure Visit where
  i : Nat
  data : Word
  reads : List Nat
  deriving DecidableEq, Repr

/-- `get_unaligned_le16` of the two bytes from a position on. -/
def leExtent (report : Nat → Byte) (i : Nat) : Nat :=
  (le16ToCpup (report i) (report (i + 1))).toNat

/-! ## The data of an item -/

def caseOne (report : Nat → Byte) (i : Nat) (data : Word) : Word × List Nat :=
  (data ||| (report (i + 1)).setWidth 32, [i + 1])

/-- Falls through to the next case. -/
def caseTwo (report : Nat → Byte) (i : Nat) (data : Word) : Word × List Nat :=
  let data := data ||| (report (i + 2)).setWidth 32 <<< 8
  let (data, reads) := caseOne report i data
  (data, (i + 2) :: reads)

/-- Falls through to the next case. -/
def caseThree (report : Nat → Byte) (i : Nat) (data : Word) : Word × List Nat :=
  let data := data ||| (report (i + 4)).setWidth 32 <<< 24
  let data := data ||| (report (i + 3)).setWidth 32 <<< 16
  let (data, reads) := caseTwo report i data
  (data, (i + 4) :: (i + 3) :: reads)

/-- The first `switch`: the length, the data and what is read for it. -/
def itemData (report : Nat → Byte) (i : Nat) : Nat × Word × List Nat :=
  let len := (report i &&& 0x03).toNat
  if len = 3 then (4, caseThree report i 0)
  else if len = 2 then (len, caseTwo report i 0)
  else if len = 1 then (len, caseOne report i 0)
  else (len, 0, [])

/-! ## The meaning of an item -/

/-- The `switch` over the usages; its other cases do nothing. -/
def handleUsage (report : Nat → Byte) (state : HidState) (data : Word) :
    HidState × List Nat :=
  let i := state.i
  let features := state.features
  if data = hidUsageX then
    if state.finger then
      ({ state with
          features := { features with
            deviceType := .btnToolFinger
            pktlen := 20
            xMax := leExtent report (i + 8) } }, [i + 8, i + 9])
    else if state.pen then
      ({ state with features := { features with deviceType := .btnToolPen } }, [])
    else (state, [])
  else if data = hidUsageY then
    if state.finger then
      ({ state with features := { features with yMax := leExtent report (i + 6) } },
        [i + 6, i + 7])
    else if state.pen then
      ({ state with features := { features with yMax := leExtent report (i + 3) } },
        [i + 3, i + 4])
    else (state, [])
  else if data = hidUsageWtFinger ∨ data = hidUsageFinger then
    ({ state with finger := true }, [])
  else if data = hidUsageWtStylus ∨ data = hidUsageStylus then
    ({ state with pen := true }, [])
  else (state, [])

/-- The second `switch`; its other cases do nothing. -/
def handleItem (report : Nat → Byte) (state : HidState) (item : Byte) (len : Nat)
    (data : Word) : HidState × List Nat :=
  if item = hidUsagePage then
    ({ state with page := data }, [])
  else if item = hidUsage then
    handleUsage report state (if len < 4 then data ||| state.page <<< 16 else data)
  else if item = hidCollectionEnd then
    ({ state with finger := false, page := 0 }, [])
  else (state, [])

/-- One round of the loop, with the two steps of `i`. -/
def parseItem (report : Nat → Byte) (state : HidState) : HidState × Visit :=
  let item := report state.i &&& 0xFC
  let (len, data, reads) := itemData report state.i
  let (next, extents) := handleItem report state item len data
  ({ next with i := state.i + len + 1 },
    ⟨state.i, data, state.i :: (reads ++ extents)⟩)

/-- The loop, for at most `rounds` rounds. -/
def parseLoop (report : Nat → Byte) (wDescriptorLength : Nat) :
    Nat → HidState → Option (HidState × List Visit)
  | 0, state => if state.i < wDescriptorLength then none else some (state, [])
  | rounds + 1, state =>
      if state.i < wDescriptorLength then do
        let (next, visit) := parseItem report state
        let (final, visits) ← parseLoop report wDescriptorLength rounds next
        some (final, visit :: visits)
      else
        some (state, [])

/-- `parse_hid`, once the descriptor has been read into the buffer. -/
def parseHid (report : Nat → Byte) (wDescriptorLength : Nat)
    (features : HidFeatures) : Option (HidFeatures × List Visit) := do
  let (final, visits) ← parseLoop report wDescriptorLength wDescriptorLength
    ⟨0, 0, false, false, features⟩
  some (final.features, visits)

end TabletDriver
end OsStuff
