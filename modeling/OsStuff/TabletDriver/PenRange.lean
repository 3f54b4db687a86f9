import OsStuff.TabletDriver.MouseButtons
import OsStuff.TabletDriver.PenHandler

/-!
# Leaving range

When the range bit of a pen packet is clear `irq_pen` reports for the last time
and stops.  What it reports is nothing but zeros if the packet carries no tip
data and no position; the two bits that say so are not looked at together with
the range bit.
-/

namespace OsStuff
namespace TabletDriver

open Library

/-- The last value reported for an absolute axis, if any. -/
def lastAbs (code : Abs) : List Report → Option Int
  | [] => none
  | .abs c value :: reports =>
      (lastAbs code reports).or (if c = code then some value else none)
  | .rel _ _ :: reports => lastAbs code reports
  | .key _ _ :: reports => lastAbs code reports
  | .sync :: reports => lastAbs code reports

/-- The tablet, and the values last reported; a value that has never been
reported is `0`. -/
structure Pen where
  tablet : Tablet
  keys : Key → Int
  axes : Abs → Int

/-- A tablet that has been probed, with nothing reported. -/
def Pen.initial (data : Data) : Pen := ⟨.probed data, fun _ => 0, fun _ => 0⟩

/-- The tablet after the next packet and what is reported. -/
def Pen.irq (pen : Pen) (data : Data) : Tablet × List Report :=
  irqPen { pen.tablet with data := data }

/-- The next packet. -/
def Pen.step (pen : Pen) (data : Data) : Option Pen :=
  let (tablet, reports) := pen.irq data
  some ⟨tablet, fun key => (lastKey key reports).getD (pen.keys key),
    fun axis => (lastAbs axis reports).getD (pen.axes axis)⟩

/-- The range bit. -/
def InRange (data : Data) : Prop := getElem data 1 index_one &&& 0x80 = 0x80

/-- The proximity bit. -/
def InProximity (data : Data) : Prop := getElem data 1 index_one &&& 0x40 = 0x40

/-- The bit that announces tip data. -/
def IsReady (data : Data) : Prop := getElem data 1 index_one &&& 0x20 = 0x20

instance (data : Data) : Decidable (InRange data) :=
  inferInstanceAs (Decidable (_ = _))

instance (data : Data) : Decidable (InProximity data) :=
  inferInstanceAs (Decidable (_ = _))

instance (data : Data) : Decidable (IsReady data) :=
  inferInstanceAs (Decidable (_ = _))

/-- The keys of the pen. -/
def penKeys : List Key := [.touch, .stylus, .stylus2]

/-- Everything is reported as zero. -/
structure Pen.Resting (pen : Pen) : Prop where
  keys : ∀ key ∈ penKeys, pen.keys key = 0
  axes : ∀ axis, pen.axes axis = 0

/-- Nothing is reported for packets without the proximity bit. -/
def Pen.Silent (pen : Pen) : Prop :=
  ∀ later middle data, run Pen.step pen later = some middle →
    (∀ d ∈ later, ¬ InProximity d) → ¬ InProximity data →
      (middle.irq data).2 = []

/-- The last packet left the range, and so the pen has come to rest. -/
def RangeLeft (data : Data) (pen : Pen) : Prop :=
  ¬ InRange data → pen.Resting ∧ pen.Silent

/-- A packet that leaves the range and is reported has no pressure or button
where it announces tip data, and no coordinates where it announces proximity. -/
def LeavesEmpty (pen : Pen) (data : Data) : Prop :=
  ¬ InRange data → pen.tablet.reportingData = true ∨ InProximity data →
    (IsReady data →
      getElem data 6 index_six = 0 ∧ getElem data 7 index_seven = 0 ∧
        getElem data 1 index_one &&& 0x07 = 0) ∧
      (InProximity data →
        getElem data 2 index_two = 0 ∧ getElem data 3 index_three = 0 ∧
          getElem data 4 index_four = 0 ∧ getElem data 5 index_five = 0)

variable {pen pen' : Pen} {data : Data} {tablet : Tablet} {key : Key}
  {axis : Abs}

/-! ## One packet -/

theorem Pen.step_eq (pen : Pen) (data : Data) : pen.step data = some
    ⟨(pen.irq data).1,
      fun key => (lastKey key (pen.irq data).2).getD (pen.keys key),
      fun axis => (lastAbs axis (pen.irq data).2).getD (pen.axes axis)⟩ :=
  rfl

/-- Reports are made exactly when reporting has begun or begins now. -/
def Reporting (pen : Pen) (data : Data) : Prop :=
  pen.tablet.reportingData = true ∨ InProximity data

instance (pen : Pen) (data : Data) : Decidable (Reporting pen data) :=
  inferInstanceAs (Decidable (_ ∨ _))

/-- Nothing is reported for any other packet. -/
theorem irq_silent (hreporting : ¬ Reporting pen data) :
    (pen.irq data).2 = [] := by
  obtain ⟨hbefore, hproximity⟩ := not_or.mp hreporting
  have hbit : (decide (data[1] &&& 0x40 = 0x40)) = false :=
    decide_eq_false hproximity
  unfold Pen.irq irqPen
  simp only [hbit]
  split_ifs <;> simp_all

/-- Reporting goes on until the range is left. -/
theorem irq_reportingData :
    (pen.irq data).1.reportingData = true ↔ InRange data ∧ Reporting pen data := by
  unfold Pen.irq irqPen Reporting
  by_cases hrange : InRange data
  · have hbit : decide (data[1] &&& 0x80 = 0x80) = true := decide_eq_true hrange
    by_cases hproximity : InProximity data
    · have hbit' : decide (data[1] &&& 0x40 = 0x40) = true :=
        decide_eq_true hproximity
      simp only [hbit, hbit', hrange, hproximity]
      split_ifs <;> simp
    · have hbit' : decide (data[1] &&& 0x40 = 0x40) = false :=
        decide_eq_false hproximity
      simp only [hbit, hbit', hrange, hproximity]
      simp
  · have hbit : decide (data[1] &&& 0x80 = 0x80) = false := decide_eq_false hrange
    simp only [hbit, hrange]
    simp

/-- What is reported for the tip. -/
def tip (data : Data) (value : Nat) : Int :=
  if IsReady data then value else 0

/-- What is reported for the position. -/
def position (data : Data) (value : Nat) : Int :=
  if InProximity data then value else 0

/-- The last reports before the range is left. -/
theorem irq_leaving (hrange : ¬ InRange data) (hreporting : Reporting pen data) :
    (pen.irq data).2 =
      [.key .touch (tip data (data[1] &&& 0x01).toNat),
        .key .stylus (tip data (data[1] &&& 0x02).toNat),
        .key .stylus2 (tip data (data[1] &&& 0x04).toNat),
        .abs .x (position data (le16ToCpup data[2] data[3]).toNat),
        .abs .y (position data (le16ToCpup data[4] data[5]).toNat),
        .abs .pressure (tip data (le16ToCpup data[6] data[7]).toNat),
        .abs .distance 0, .abs .misc 0] := by
  have hbit : decide (data[1] &&& 0x80 = 0x80) = false := decide_eq_false hrange
  have hready : decide (data[1] &&& 0x20 = 0x20) = decide (IsReady data) := rfl
  unfold Pen.irq irqPen tip position
  by_cases hproximity : InProximity data
  · have hbit' : decide (data[1] &&& 0x40 = 0x40) = true :=
      decide_eq_true hproximity
    simp only [hbit, hbit', hready, hproximity, Bool.false_eq_true, if_false,
      if_true, decide_eq_true_eq, Bool.not_false, Bool.or_true]
    -- The rubber only chooses the tool, which is not reported.
    by_cases hrubber : data[1] &&& 0x08 ≠ 0
    · rw [if_pos hrubber]
      split_ifs <;> simp_all
    · rw [if_neg hrubber]
      split_ifs <;> simp_all
  · have hbit' : decide (data[1] &&& 0x40 = 0x40) = false :=
      decide_eq_false hproximity
    have hbefore := hreporting.resolve_right hproximity
    simp only [hbit, hbit', hready, hproximity, hbefore]
    simp

theorem le16ToCpup_eq_zero (low high : Byte) :
    (le16ToCpup low high).toNat = 0 ↔ low = 0 ∧ high = 0 := by
  unfold le16ToCpup
  rw [BitVec.toNat_append, Nat.or_eq_zero_iff, Nat.shiftLeft_eq_zero_iff]
  simp [BitVec.toNat_eq, and_comm]

theorem tipBits_eq_zero : ∀ byte : Byte, byte &&& 0x07 = 0 ↔
    (byte &&& 0x01).toNat = 0 ∧ (byte &&& 0x02).toNat = 0 ∧
      (byte &&& 0x04).toNat = 0 := by
  decide +kernel

theorem tip_eq_zero (value : Nat) :
    tip data value = 0 ↔ (IsReady data → value = 0) := by
  unfold tip
  split_ifs with hready
  · simp [hready]
  · simp [hready]

theorem position_eq_zero (value : Nat) :
    position data value = 0 ↔ (InProximity data → value = 0) := by
  unfold position
  split_ifs with hproximity
  · simp [hproximity]
  · simp [hproximity]

/-- The values after the packet that is reported last. -/
theorem step_leaving (hrange : ¬ InRange data) (hreporting : Reporting pen data)
    (hstep : pen.step data = some pen') :
    pen'.keys .touch = tip data (data[1] &&& 0x01).toNat ∧
      pen'.keys .stylus = tip data (data[1] &&& 0x02).toNat ∧
      pen'.keys .stylus2 = tip data (data[1] &&& 0x04).toNat ∧
      pen'.axes .x = position data (le16ToCpup data[2] data[3]).toNat ∧
      pen'.axes .y = position data (le16ToCpup data[4] data[5]).toNat ∧
      pen'.axes .pressure = tip data (le16ToCpup data[6] data[7]).toNat ∧
      pen'.axes .distance = 0 ∧ pen'.axes .misc = 0 := by
  rw [Pen.step_eq, Option.some.injEq, irq_leaving hrange hreporting] at hstep
  subst hstep
  exact ⟨rfl, rfl, rfl, rfl, rfl, rfl, rfl, rfl⟩

/-- The packet that is reported last leaves nothing but zeros exactly when it
announces nothing else. -/
theorem resting_leaving (hrange : ¬ InRange data) (hreporting : Reporting pen data)
    (hstep : pen.step data = some pen') :
    pen'.Resting ↔
      (IsReady data → data[6] = 0 ∧ data[7] = 0 ∧ data[1] &&& 0x07 = 0) ∧
        (InProximity data →
          data[2] = 0 ∧ data[3] = 0 ∧ data[4] = 0 ∧ data[5] = 0) := by
  obtain ⟨htouch, hstylus, hstylus2, hx, hy, hpressure, hdistance, hmisc⟩ :=
    step_leaving hrange hreporting hstep
  -- Bytes are zero exactly when the values made of them are.
  rw [tipBits_eq_zero, ← and_assoc (a := data[6] = 0), ← le16ToCpup_eq_zero,
    ← and_assoc (a := data[2] = 0), ← le16ToCpup_eq_zero, ← le16ToCpup_eq_zero]
  constructor
  · rintro ⟨hkeys, haxes⟩
    have htouch' := hkeys .touch (by decide)
    have hstylus' := hkeys .stylus (by decide)
    have hstylus2' := hkeys .stylus2 (by decide)
    have hx' := haxes .x
    have hy' := haxes .y
    have hpressure' := haxes .pressure
    rw [htouch, tip_eq_zero] at htouch'
    rw [hstylus, tip_eq_zero] at hstylus'
    rw [hstylus2, tip_eq_zero] at hstylus2'
    rw [hx, position_eq_zero] at hx'
    rw [hy, position_eq_zero] at hy'
    rw [hpressure, tip_eq_zero] at hpressure'
    exact ⟨fun h => ⟨hpressure' h, htouch' h, hstylus' h, hstylus2' h⟩,
      fun h => ⟨hx' h, hy' h⟩⟩
  · rintro ⟨htip, hposition⟩
    constructor
    · intro key hkey
      cases key with
      | touch => exact htouch.trans ((tip_eq_zero _).mpr fun h => (htip h).2.1)
      | stylus => exact hstylus.trans ((tip_eq_zero _).mpr fun h => (htip h).2.2.1)
      | stylus2 =>
          exact hstylus2.trans ((tip_eq_zero _).mpr fun h => (htip h).2.2.2)
      | left => exact absurd hkey (by decide)
      | right => exact absurd hkey (by decide)
      | middle => exact absurd hkey (by decide)
      | back => exact absurd hkey (by decide)
      | forward => exact absurd hkey (by decide)
    · intro axis
      cases axis with
      | x => exact hx.trans ((position_eq_zero _).mpr fun h => (hposition h).1)
      | y => exact hy.trans ((position_eq_zero _).mpr fun h => (hposition h).2)
      | pressure => exact hpressure.trans ((tip_eq_zero _).mpr fun h => (htip h).1)
      | distance => exact hdistance
      | misc => exact hmisc

theorem step_reportingData (hstep : pen.step data = some pen') :
    pen'.tablet.reportingData = true ↔ InRange data ∧ Reporting pen data := by
  rw [Pen.step_eq, Option.some.injEq] at hstep
  subst hstep
  exact irq_reportingData

/-- A pen that does not report is silent until a packet has the proximity
bit. -/
theorem silent_of_not_reporting (hpen : pen.tablet.reportingData = false) :
    pen.Silent := by
  intro later middle data hrun hlater hdata
  -- Only a packet with the proximity bit turns reporting on.
  let Off : Pen → Prop := fun pen => pen.tablet.reportingData = false
  have hmiddle : Off middle := by
    refine (GuardedRun.of_run hrun hlater).invariant
      (fun before data after hbefore hstep hfar => ?_) hpen
    by_contra hon
    rcases ((step_reportingData hstep).mp (by simpa [Off] using hon)).2 with
      hon | hnear
    · exact absurd hbefore (by simp [Off, hon])
    · exact hfar hnear
  refine irq_silent fun hreporting => ?_
  rcases hreporting with hon | hnear
  · exact absurd hmiddle (by simp [Off, hon])
  · exact hdata hnear

/-! ## Runs -/

/-- A pen that does not report has come to rest. -/
def Pen.Quiet (pen : Pen) : Prop :=
  pen.tablet.reportingData = false → pen.Resting

theorem Pen.quiet_initial (data : Data) : (Pen.initial data).Quiet :=
  fun _ => ⟨fun _ _ => rfl, fun _ => rfl⟩

/-- A packet that is not reported changes no value. -/
theorem step_silent (hreporting : ¬ Reporting pen data)
    (hstep : pen.step data = some pen') :
    pen'.keys = pen.keys ∧ pen'.axes = pen.axes := by
  rw [Pen.step_eq, Option.some.injEq, irq_silent hreporting] at hstep
  subst hstep
  exact ⟨rfl, rfl⟩

/-- A packet after which the pen is as it should be keeps it quiet. -/
theorem Pen.Quiet.step (hquiet : pen.Quiet) (hstep : pen.step data = some pen')
    (hleft : RangeLeft data pen') : pen'.Quiet := by
  intro hoff
  by_cases hrange : InRange data
  · -- In range a pen that does not report afterwards has not reported this packet either.
    have hreporting : ¬ Reporting pen data := fun hreporting =>
      absurd ((step_reportingData hstep).mpr ⟨hrange, hreporting⟩) (by simp [hoff])
    have hbefore : pen.tablet.reportingData = false := by
      simpa using fun hon => hreporting (Or.inl hon)
    obtain ⟨hkeys, haxes⟩ := step_silent hreporting hstep
    obtain ⟨hrest, hrest'⟩ := hquiet hbefore
    rw [← hkeys] at hrest
    rw [← haxes] at hrest'
    exact ⟨hrest, hrest'⟩
  · exact (hleft hrange).1

/-- The condition on a packet is exact. -/
theorem leavesEmpty_iff (hquiet : pen.Quiet) (hstep : pen.step data = some pen') :
    LeavesEmpty pen data ↔ RangeLeft data pen' := by
  by_cases hrange : InRange data
  · exact iff_of_true (fun h => absurd hrange h) (fun h => absurd hrange h)
  · have hsilent : pen'.Silent := silent_of_not_reporting (by
      simpa [hrange] using step_reportingData hstep)
    by_cases hreporting : Reporting pen data
    · have hrest := resting_leaving hrange hreporting hstep
      constructor
      · exact fun hempty _ => ⟨hrest.mpr (hempty hrange hreporting), hsilent⟩
      · exact fun hleft _ _ => hrest.mp (hleft hrange).1
    · -- Nothing is reported any more, and the last packet left zeros.
      have hbefore : pen.tablet.reportingData = false := by
        simpa using fun hon => hreporting (Or.inl hon)
      obtain ⟨hkeys, haxes⟩ := step_silent hreporting hstep
      obtain ⟨hrest, hrest'⟩ := hquiet hbefore
      rw [← hkeys] at hrest
      rw [← haxes] at hrest'
      exact iff_of_true (fun _ h => absurd h hreporting)
        fun _ => ⟨⟨hrest, hrest'⟩, hsilent⟩

/-- After every packet of a run that leaves the range the pen is at rest and
silent, exactly when no such packet announces anything but zeros. -/
theorem range_left_iff (data : Data) (packets : List Data) (pen : Pen) :
    GuardedRun Pen.step (fun before packet _ => LeavesEmpty before packet)
        (Pen.initial data) packets pen ↔
      GuardedRun Pen.step (fun _ packet after => RangeLeft packet after)
        (Pen.initial data) packets pen := by
  have hiff : ∀ before packet after, Pen.Quiet before →
      Pen.step before packet = some after →
      (RangeLeft packet after ↔ LeavesEmpty before packet) :=
    fun _ _ _ hquiet hstep => (leavesEmpty_iff hquiet hstep).symm
  exact (GuardedRun.iff_of_invariant
    (fun _ _ _ hquiet hstep hleft => Pen.Quiet.step hquiet hstep hleft) hiff
    (Pen.quiet_initial data)).symm

/-- The pen touches the tablet. -/
def touchingPacket : Data :=
  #v[2, 0xe1, 0, 0, 0, 0, 5, 0, 9, 0, 0, 0, 0, 0, 0, 0, 0, 0, 0, 0]

/-- A packet without the range bit that announces tip data. -/
def strayPacket : Data :=
  #v[2, 0x21, 0, 0, 0, 0, 5, 0, 9, 0, 0, 0, 0, 0, 0, 0, 0, 0, 0, 0]

theorem stuckPen_run : (run Pen.step (Pen.initial liftedPacket)
    [touchingPacket, strayPacket]).isSome = true := by
  decide +kernel

def stuckPen : Pen := Option.get _ stuckPen_run

/-- The range is left while the tip is reported as touching. -/
theorem tip_stays_down :
    run Pen.step (Pen.initial liftedPacket) [touchingPacket, strayPacket] =
        some stuckPen ∧
      ¬ InRange strayPacket ∧ stuckPen.keys .touch = 1 ∧ stuckPen.Silent ∧
      ¬ RangeLeft strayPacket stuckPen := by
  have hrange : ¬ InRange strayPacket := by decide +kernel
  have hkey : stuckPen.keys .touch = 1 := by decide +kernel
  refine ⟨(Option.some_get stuckPen_run).symm, hrange, hkey,
    silent_of_not_reporting (by decide +kernel), fun hleft => ?_⟩
  have hrest := (hleft hrange).1.keys .touch (by decide)
  rw [hkey] at hrest
  exact absurd hrest (by decide)

end TabletDriver
end OsStuff
