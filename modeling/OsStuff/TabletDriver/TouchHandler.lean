import OsStuff.TabletDriver.Wacom

/-!
# `touch_handler.c`

The static variables of `irq_touch` and `button_handler` are a `History`, which
every call reads and returns.  The driver has one of it, whatever the number of
tablets.  Coordinates are eleven bits or `-1`, so that no `int` overflows.
-/

namespace OsStuff
namespace TabletDriver

def touchSensitivity : Int := 1
def dataTouchOffset : Nat := 9
def maxFingersCnt : Nat := 2

structure MtInfo where
  x : Int
  y : Int
  deriving DecidableEq, Repr, Inhabited

/-- No contact. -/
def MtInfo.none : MtInfo := ⟨-1, -1⟩

/-- The static variables of `button_handler`. -/
structure Latches where
  lmb : Bool
  rmb : Bool
  cmb : Bool
  bmb : Bool
  fmb : Bool
  deriving DecidableEq, Repr

def Latches.released : Latches := ⟨false, false, false, false, false⟩

/-- The static variables of the file. -/
structure History where
  mtInfo : List MtInfo
  newMtInfo : List MtInfo
  latches : Latches
  deriving DecidableEq, Repr

/-- The static variables when the module is loaded. -/
def History.initial : History where
  mtInfo := List.replicate maxFingersCnt .none
  newMtInfo := List.replicate maxFingersCnt ⟨0, 0⟩
  latches := .released

def mtInfoFingerCnt (mtInfoArr : List MtInfo) (len : Nat) : Nat :=
  (mtInfoArr.take len).countP fun cur => cur.x != -1 && cur.y != -1

def mtInfoRelX (prev cur : MtInfo) : Int :=
  if prev.x = -1 ∨ cur.x = -1 then -1 else cur.x - prev.x

def mtInfoRelY (prev cur : MtInfo) : Int :=
  if prev.y = -1 ∨ cur.y = -1 then -1 else cur.y - prev.y

def mtInfoAssign (dst src : List MtInfo) (cnt : Nat) : List MtInfo :=
  src.take cnt ++ dst.drop cnt

def mtInfoInit (mtInfo : List MtInfo) (cnt : Nat) : List MtInfo :=
  List.replicate cnt .none ++ mtInfo.drop cnt

def mtInfoAnyNotInit (mtInfo : List MtInfo) (cnt : Nat) : Bool :=
  (mtInfo.take cnt).any fun cur => cur.x == -1 && cur.y == -1

/-- The contact in the slot whose bytes begin at `offset`. -/
def parseTouch (data : Data) (offset : Nat) : MtInfo :=
  if data[offset + 3]! &&& 0b10000000 ≠ 0 then
    ⟨(getUnalignedBe16 data[offset + 3]! data[offset + 4]! &&& 0x7ff).toNat,
      (getUnalignedBe16 data[offset + 5]! data[offset + 6]! &&& 0x7ff).toNat⟩
  else .none

/-- The release of a button that is held. -/
def unclick (held : Bool) (code : Key) : List Report :=
  if held then [.key code 0] else []

def buttonHandler (latches : Latches) (data : Data) : Latches × List Report :=
  let buttonData := getElem data 1 index_one
  let (latches, unclicked) :=
    if buttonData = 0b00000000 then
      (Latches.released,
        unclick latches.lmb .left ++ unclick latches.rmb .right ++
          unclick latches.cmb .middle ++ unclick latches.bmb .back ++
          unclick latches.fmb .forward)
    else (latches, [])
  let (latches, clicked) :=
    if buttonData = 0b00000011 ∧ latches.cmb = false then
      ({ latches with cmb := true }, [.key .middle 1])
    else if buttonData = 0b00000001 ∧ latches.lmb = false then
      ({ latches with lmb := true }, [.key .left 1])
    else if buttonData = 0b00000010 ∧ latches.rmb = false then
      ({ latches with rmb := true }, [.key .right 1])
    else (latches, [])
  let (latches, forward) :=
    if buttonData = 0b00000100 ∧ latches.fmb = false then
      ({ latches with fmb := true }, [.key .forward 1])
    else (latches, [])
  let (latches, back) :=
    if buttonData = 0b00001000 ∧ latches.bmb = false then
      ({ latches with bmb := true }, [.key .back 1])
    else (latches, [])
  (latches, unclicked ++ clicked ++ forward ++ back)

/-- The new `prev_mt_info` and what is reported. -/
def oneFingerHandler (data : Data) (cur prev : List MtInfo)
    (maxFingersCnt : Nat) : List MtInfo × List Report :=
  let movX := mtInfoRelX prev[0]! cur[0]!
  let movY := mtInfoRelY prev[0]! cur[0]!
  (mtInfoAssign prev cur maxFingersCnt,
    [.rel .x (movX * touchSensitivity), .rel .y (movY * touchSensitivity),
      .key .middle
        (if getElem data 2 index_two &&& 0b11110000 = 0b11110000 then 1 else 0)])

/-- Whether two contacts moved together, and what is reported for it. -/
def scroll (prevF1 prevF2 curF1 curF2 : MtInfo) : List Report :=
  let dx1 := prevF1.x - curF1.x
  let dy1 := prevF1.y - curF1.y
  let dx2 := prevF2.x - curF2.x
  let dy2 := prevF2.y - curF2.y
  if (dx1 - dx2).natAbs < 2 ∧ (dy1 - dy2).natAbs < 2 then
    let dxm := (dx1 + dx2).tdiv 2
    let dym := (dy1 + dy2).tdiv 2
    if dxm.natAbs < 2 ∧ 2 < dym.natAbs then [.rel .wheel (-dym)]
    else if 2 < dxm.natAbs ∧ dym.natAbs < 2 then [.rel .hwheel dxm]
    else []
  else []

/-- The new `prev_mt_info` and what is reported. -/
def twoFingersHandler (cur prev : List MtInfo) (maxFingersCnt : Nat) :
    List MtInfo × List Report :=
  if mtInfoAnyNotInit prev maxFingersCnt then
    (mtInfoAssign prev cur maxFingersCnt, [])
  else
    (mtInfoAssign prev cur maxFingersCnt,
      scroll prev[0]! prev[1]! cur[0]! cur[1]!)

/-- The result (whether to call `input_sync`), the static variables after the
call and what is reported. -/
def irqTouch (history : History) (tablet : Tablet) :
    Bool × History × List Report :=
  let maxFingerCnt := tablet.features.touchMax
  let data := tablet.data
  if data[0] ≠ 0b00000010 then (false, history, [])
  else
    let newMtInfo :=
      (List.range maxFingerCnt).map (fun i =>
        parseTouch data (i * dataTouchOffset)) ++
        history.newMtInfo.drop maxFingerCnt
    let handled : Option (List MtInfo × List Report) :=
      match mtInfoFingerCnt newMtInfo 2 with
      | 0 => some (mtInfoInit history.mtInfo maxFingerCnt, [])
      | 1 => some (oneFingerHandler data newMtInfo history.mtInfo maxFingerCnt)
      | 2 => some (twoFingersHandler newMtInfo history.mtInfo maxFingerCnt)
      | _ => none
    match handled with
    | none => (false, { history with newMtInfo := newMtInfo }, [])
    | some (mtInfo, moved) =>
        let (latches, clicked) := buttonHandler history.latches data
        (true, ⟨mtInfo, newMtInfo, latches⟩, moved ++ clicked)

end TabletDriver
end OsStuff
