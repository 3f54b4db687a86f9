import OsStuff.TabletDriver.PenHandler
import OsStuff.TabletDriver.TouchHistory

/-!
# The packets of `work_irq`

What `work_irq` does with a completed URB between its two accesses to the USB
core: nothing if the URB failed, else the handler for the length of the packet
and `input_sync`.
-/

namespace OsStuff
namespace TabletDriver

/-- A completed URB and the content of the buffer. -/
structure Packet where
  status : Int
  actualLength : Nat
  data : Data
  deriving DecidableEq, Repr

/-- The handler for a packet of the given length in the buffer of the tablet. -/
def handleData (history : History) (tablet : Tablet) (actualLength : Nat) :
    History × Tablet × List Report :=
  if actualLength = usbPacketLen then
    let (sync, history, reports) := irqTouch history tablet
    (history, tablet, reports ++ if sync then [.sync] else [])
  else if actualLength = wacomPkglenBbfun then
    let (tablet, reports) := irqPen tablet
    (history, tablet, reports ++ [.sync])
  else (history, tablet, [])

/-- A packet of the tablet. -/
def handlePacket (history : History) (tablet : Tablet) (packet : Packet) :
    History × Tablet × List Report :=
  if packet.status ≠ 0 then (history, tablet, [])
  else handleData history { tablet with data := packet.data } packet.actualLength

/-- The driver with all its tablets: the static variables are shared, the rest
is per tablet. -/
structure Driver where
  history : History
  tablets : Nat → Tablet
  reports : Nat → List Report

/-- All tablets probed and nothing handled yet. -/
def Driver.initial (data : Nat → Data) : Driver where
  history := .initial
  tablets := fun i => .probed (data i)
  reports := fun _ => []

/-- The next packet of tablet `i`. -/
def Driver.handle (driver : Driver) (i : Nat) (packet : Packet) : Driver :=
  let (history, tablet, reports) :=
    handlePacket driver.history (driver.tablets i) packet
  { history := history
    tablets := Function.update driver.tablets i tablet
    reports := Function.update driver.reports i (driver.reports i ++ reports) }

/-- Packets of any tablets, one after the other. -/
def Driver.run (driver : Driver) (events : List (Nat × Packet)) : Driver :=
  events.foldl (fun driver event => driver.handle event.1 event.2) driver

/-- The packets of tablet `i` among those of all tablets. -/
def packetsOf (i : Nat) (events : List (Nat × Packet)) : List Packet :=
  (events.filter fun event => event.1 = i).map Prod.snd

/-- A tablet that sends the packets `own` reports the same whatever the other
tablets send in between. -/
def Unaffected (own : List Packet) : Prop :=
  ∀ (data : Nat → Data) (i : Nat) (events : List (Nat × Packet)),
    packetsOf i events = own →
      ((Driver.initial data).run events).reports i =
        ((Driver.initial data).run (own.map fun packet => (i, packet))).reports i

/-! ## Which packets are touch packets -/

/-- A packet that `irq_touch` handles to its end. -/
def Packet.IsTouch (packet : Packet) : Prop :=
  packet.status = 0 ∧ packet.actualLength = usbPacketLen ∧
    getElem packet.data 0 index_zero = 2

instance (packet : Packet) : Decidable packet.IsTouch :=
  inferInstanceAs (Decidable (_ ∧ _ ∧ _))

variable {history : History} {tablet : Tablet} {packet : Packet}

/-- A touch packet from end to end. -/
theorem handlePacket_touch (hvalid : history.Valid)
    (hmax : tablet.features.touchMax = 2) (htouch : packet.IsTouch) :
    handlePacket history tablet packet =
      (history.after packet.data,
        { tablet with data := packet.data },
        moved packet.data history.mtInfo ++
          (buttonHandler history.latches packet.data).2 ++ [.sync]) := by
  obtain ⟨hstatus, hlength, hdata⟩ := htouch
  unfold handlePacket handleData
  rw [if_neg (not_not.mpr hstatus), if_pos hlength]
  have hirq := @irqTouch_eq history { tablet with data := packet.data }
    hvalid hmax hdata
  rw [hirq]
  rfl

/-- Other packets neither read nor change the static variables. -/
theorem handlePacket_of_not_touch (htouch : ¬ packet.IsTouch) (h' : History) :
    (handlePacket history tablet packet).1 = history ∧
      (handlePacket history tablet packet).2 =
        (handlePacket h' tablet packet).2 := by
  unfold handlePacket
  by_cases hstatus : packet.status = 0
  · rw [if_neg (not_not.mpr hstatus), if_neg (not_not.mpr hstatus)]
    unfold handleData
    by_cases hlength : packet.actualLength = usbPacketLen
    · have hdata : packet.data[0] ≠ 2 :=
        fun hdata => htouch ⟨hstatus, hlength, hdata⟩
      rw [if_pos hlength, if_pos hlength, irqTouch_of_ne hdata,
        irqTouch_of_ne hdata]
      exact ⟨rfl, rfl⟩
    · rw [if_neg hlength, if_neg hlength]
      split
      · exact ⟨rfl, rfl⟩
      · exact ⟨rfl, rfl⟩
  · rw [if_pos hstatus, if_pos hstatus]
    exact ⟨rfl, rfl⟩

/-- Every packet keeps the static variables valid. -/
theorem handlePacket_valid (hvalid : history.Valid)
    (hmax : tablet.features.touchMax = 2) :
    (handlePacket history tablet packet).1.Valid := by
  by_cases htouch : packet.IsTouch
  · rw [handlePacket_touch hvalid hmax htouch]
    exact history.valid_after packet.data
  · rwa [(handlePacket_of_not_touch htouch history).1]

theorem irqPen_features : (irqPen tablet).1.features = tablet.features := by
  unfold irqPen
  dsimp only
  split_ifs <;> rfl

/-- No packet changes the features. -/
theorem handlePacket_features :
    (handlePacket history tablet packet).2.1.features = tablet.features := by
  unfold handlePacket
  split
  · rfl
  · unfold handleData
    split
    · rfl
    · split
      · exact irqPen_features
      · rfl

end TabletDriver
end OsStuff
