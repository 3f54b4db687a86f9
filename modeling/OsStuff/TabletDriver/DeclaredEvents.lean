import OsStuff.TabletDriver.Isolation
import OsStuff.TabletDriver.PenRange
import OsStuff.TabletDriver.Probe

/-!
# Reported events and declared events

The handlers are chosen by the length of a packet, the capabilities of the input
device by the report descriptor.  A packet is at most as long as the URB's
buffer, so that the handler of touch packets never runs for a tablet whose URB
is shorter; the handler of pen packets can run for a finger device, and its
events are not declared there.
-/

namespace OsStuff
namespace TabletDriver
namespace DeclaredEvents

open Library

/-- A packet from which `irq_pen` begins to report. -/
def StartsPen (packet : Packet) : Prop :=
  packet.status = 0 ∧ packet.actualLength = wacomPkglenBbfun ∧
    InProximity packet.data

instance (packet : Packet) : Decidable (StartsPen packet) :=
  inferInstanceAs (Decidable (_ ∧ _ ∧ _))

/-- A pen device with these features declares the event, and a distance is in
the declared range. -/
def PenDeclared (features : Features) (report : Report) : Prop :=
  DeviceType.btnToolPen.declares report = true ∧
    ∀ value, report = .abs .distance value →
      0 ≤ value ∧ value ≤ features.distanceMax

variable {history : History} {tablet : Tablet} {packet : Packet} {driver : Driver}
  {i : Nat} {report : Report}

/-! ## What the handlers report -/

/-- `irq_pen` reports what a pen device declares. -/
theorem irqPen_declared (hreport : report ∈ (irqPen tablet).2) :
    DeviceType.btnToolPen.declares report = true := by
  unfold irqPen at hreport
  simp only [List.mem_ite_nil_right, List.mem_append, List.mem_cons, List.not_mem_nil,
    or_false] at hreport
  obtain ⟨-, ((rfl | rfl | rfl) | ⟨-, rfl | rfl⟩) | rfl | rfl | rfl⟩ := hreport
  all_goals rfl

/-- The distance is never out of its declared range. -/
theorem irqPen_distance {value : Int}
    (hreport : .abs .distance value ∈ (irqPen tablet).2) :
    0 ≤ value ∧ value ≤ tablet.features.distanceMax := by
  unfold irqPen at hreport
  simp only [List.mem_ite_nil_right, List.mem_append, List.mem_cons, List.not_mem_nil,
    or_false, reduceCtorEq, Report.abs.injEq, and_false, false_or, false_and, true_and]
    at hreport
  obtain ⟨-, rfl⟩ := hreport
  split_ifs
  all_goals try dsimp only at *
  all_goals omega

theorem declared_append {type : DeviceType} {front back : List Report}
    (hfront : ∀ report ∈ front, type.declares report = true)
    (hback : ∀ report ∈ back, type.declares report = true) :
    ∀ report ∈ front ++ back, type.declares report = true := by
  intro report hreport
  rcases List.mem_append.mp hreport with hreport | hreport
  · exact hfront report hreport
  · exact hback report hreport

theorem buttonHandler_declared (latches : Latches) (data : Data) :
    ∀ report ∈ (buttonHandler latches data).2,
      DeviceType.btnToolFinger.declares report = true := by
  have hunclick : ∀ (held : Bool) (key : Key), key ∉ [Key.stylus, .stylus2] →
      ∀ report ∈ unclick held key, DeviceType.btnToolFinger.declares report = true := by
    intro held key hkey report hreport
    unfold unclick at hreport
    obtain ⟨-, hreport⟩ := List.mem_ite_nil_right.mp hreport
    rw [List.mem_singleton.mp hreport]
    exact decide_eq_true hkey
  unfold buttonHandler
  dsimp only
  apply declared_append
  · apply declared_append
    · apply declared_append
      · split_ifs
        · repeat apply declared_append
          all_goals exact hunclick _ _ (by decide)
        · exact List.forall_mem_nil _
      · split_ifs
        all_goals simp [DeviceType.declares]
    · split_ifs
      all_goals simp [DeviceType.declares]
  · split_ifs
    all_goals simp [DeviceType.declares]

theorem moved_declared (data : Data) (prev : List MtInfo) :
    ∀ report ∈ moved data prev, DeviceType.btnToolFinger.declares report = true := by
  have hone : ∀ report ∈ (oneFingerHandler data (contacts data) prev 2).2,
      DeviceType.btnToolFinger.declares report = true := by
    simp [oneFingerHandler, DeviceType.declares]
  have htwo : ∀ report ∈ (twoFingersHandler (contacts data) prev 2).2,
      DeviceType.btnToolFinger.declares report = true := by
    unfold twoFingersHandler scroll
    dsimp only
    split_ifs
    all_goals simp [DeviceType.declares]
  unfold moved
  split_ifs
  · exact htwo
  · exact hone
  · exact hone
  · exact List.forall_mem_nil _

/-! ## One packet -/

/-- A finger device that has not begun to report as a pen declares what is
reported for any packet that does not begin it. -/
theorem handlePacket_finger (hvalid : history.Valid)
    (hmax : tablet.features.touchMax = 2) (hsilent : tablet.reportingData = false)
    (hpacket : ¬ StartsPen packet) :
    (handlePacket history tablet packet).2.1.reportingData = false ∧
      ∀ report ∈ (handlePacket history tablet packet).2.2,
        DeviceType.btnToolFinger.declares report = true := by
  by_cases htouch : packet.IsTouch
  · rw [handlePacket_touch hvalid hmax htouch]
    refine ⟨hsilent, ?_⟩
    apply declared_append
    · exact declared_append (moved_declared _ _) (buttonHandler_declared _ _)
    · simp [DeviceType.declares]
  · unfold handlePacket handleData
    by_cases hstatus : packet.status = 0
    · rw [if_neg (not_not.mpr hstatus)]
      by_cases hlength : packet.actualLength = usbPacketLen
      · have hdata : packet.data[0] ≠ 2 := fun h => htouch ⟨hstatus, hlength, h⟩
        rw [if_pos hlength, irqTouch_of_ne hdata]
        exact ⟨hsilent, List.forall_mem_nil _⟩
      · rw [if_neg hlength]
        by_cases hpen : packet.actualLength = wacomPkglenBbfun
        · have hproximity : ¬ InProximity packet.data :=
            fun h => hpacket ⟨hstatus, hpen, h⟩
          rw [if_pos hpen]
          let pen : Pen := ⟨tablet, fun _ => 0, fun _ => 0⟩
          have hreporting : ¬ Reporting pen packet.data := by
            rintro (hbefore | hbegins)
            · rw [show pen.tablet.reportingData = false from hsilent] at hbefore
              contradiction
            · exact hproximity hbegins
          have hreports : (irqPen { tablet with data := packet.data }).2 = [] :=
            irq_silent hreporting
          have hafter : ¬ (irqPen { tablet with data := packet.data }).1.reportingData =
              true := fun h => hreporting ((@irq_reportingData pen packet.data).mp h).2
          dsimp only
          rw [hreports]
          refine ⟨Bool.eq_false_iff.mpr hafter, ?_⟩
          simp [DeviceType.declares]
        · rw [if_neg hpen]
          exact ⟨hsilent, List.forall_mem_nil _⟩
    · rw [if_pos hstatus]
      exact ⟨hsilent, List.forall_mem_nil _⟩

/-- A packet that begins it reports the button of the stylus. -/
theorem handlePacket_stylus (hpacket : StartsPen packet) :
    ∃ value, .key .stylus value ∈ (handlePacket history tablet packet).2.2 := by
  obtain ⟨hstatus, hlength, hproximity⟩ := hpacket
  have hbit : decide (packet.data[1] &&& 0x40 = 0x40) = true := decide_eq_true hproximity
  have hshort : packet.actualLength ≠ usbPacketLen := by
    rw [hlength]
    decide
  unfold handlePacket handleData
  rw [if_neg (not_not.mpr hstatus), if_neg hshort, if_pos hlength]
  unfold irqPen
  simp only [hbit, if_true, List.mem_append, List.mem_ite_nil_right, List.mem_cons]
  refine ⟨_, Or.inl ⟨?_, Or.inl (Or.inl (Or.inr (Or.inl rfl)))⟩⟩
  split_ifs <;> rfl

/-- A pen device declares what is reported for any packet that is not as long as
a touch packet. -/
theorem handlePacket_pen (hlength : packet.actualLength ≠ usbPacketLen) :
    ∀ report ∈ (handlePacket history tablet packet).2.2,
      PenDeclared tablet.features report := by
  unfold handlePacket handleData
  split_ifs with hstatus hpen
  · exact List.forall_mem_nil _
  · intro report hreport
    rcases List.mem_append.mp hreport with hreport | hreport
    · refine ⟨irqPen_declared hreport, ?_⟩
      rintro value rfl
      have hdistance := irqPen_distance hreport
      exact hdistance
    · rw [List.mem_singleton.mp hreport]
      exact ⟨rfl, nofun⟩
  · exact List.forall_mem_nil _

/-! ## Runs -/

/-- What has been reported stays reported. -/
theorem reports_run (events : List (Nat × Packet))
    (hreport : report ∈ driver.reports i) :
    report ∈ (driver.run events).reports i := by
  induction events generalizing driver with
  | nil => exact hreport
  | cons event events ih =>
      apply ih
      by_cases hi : i = event.1
      · subst hi
        rw [Driver.handle_reports]
        exact List.mem_append_left _ hreport
      · rw [(Driver.handle_other event.2 hi).2]
        exact hreport

theorem run_finger (hvalid : driver.Valid)
    (hsilent : (driver.tablets i).reportingData = false)
    (hdeclared : ∀ report ∈ driver.reports i,
      DeviceType.btnToolFinger.declares report = true)
    (events : List (Nat × Packet)) :
    (∀ report ∈ (driver.run events).reports i,
        DeviceType.btnToolFinger.declares report = true) ↔
      ∀ packet ∈ packetsOf i events, ¬ StartsPen packet := by
  induction events generalizing driver with
  | nil => simpa [packetsOf] using hdeclared
  | cons event events ih =>
      obtain ⟨j, packet⟩ := event
      rw [Driver.run_cons]
      by_cases hi : i = j
      · subst hi
        rw [packetsOf_cons_self, List.forall_mem_cons]
        by_cases hstarts : StartsPen packet
        · obtain ⟨value, hvalue⟩ := @handlePacket_stylus driver.history
            (driver.tablets i) packet hstarts
          constructor
          · intro hall
            have hmem : .key .stylus value ∈ (driver.handle i packet).reports i := by
              rw [Driver.handle_reports]
              exact List.mem_append_right _ hvalue
            have hstylus := hall _ (reports_run events hmem)
            contradiction
          · exact fun hnone => absurd hstarts hnone.1
        · obtain ⟨hafter, hreports⟩ := handlePacket_finger hvalid.history
            (hvalid.touchMax i) hsilent hstarts
          have hrest := ih (hvalid.handle i packet)
            (by rw [Driver.handle_tablet]; exact hafter)
            (by rw [Driver.handle_reports]; exact declared_append hdeclared hreports)
          rw [hrest]
          exact (and_iff_right hstarts).symm
      · obtain ⟨htablet, hreports⟩ := @Driver.handle_other driver i j packet hi
        rw [packetsOf_cons_other hi]
        exact ih (hvalid.handle j packet) (by rw [htablet]; exact hsilent)
          (by rw [hreports]; exact hdeclared)

theorem run_pen {features : Features} (hfeatures : (driver.tablets i).features = features)
    (hdeclared : ∀ report ∈ driver.reports i, PenDeclared features report)
    (events : List (Nat × Packet))
    (hlength : ∀ packet ∈ packetsOf i events, packet.actualLength ≠ usbPacketLen) :
    ∀ report ∈ (driver.run events).reports i, PenDeclared features report := by
  induction events generalizing driver with
  | nil => exact hdeclared
  | cons event events ih =>
      obtain ⟨j, packet⟩ := event
      rw [Driver.run_cons]
      by_cases hi : i = j
      · subst hi
        rw [packetsOf_cons_self, List.forall_mem_cons] at hlength
        apply ih
        · rw [Driver.handle_tablet, handlePacket_features]
          exact hfeatures
        · rw [Driver.handle_reports]
          intro report hreport
          rcases List.mem_append.mp hreport with hreport | hreport
          · exact hdeclared report hreport
          · subst hfeatures
            exact handlePacket_pen hlength.1 report hreport
        · exact hlength.2
      · obtain ⟨htablet, hreports⟩ := @Driver.handle_other driver i j packet hi
        rw [packetsOf_cons_other hi] at hlength
        apply ih
        · rw [htablet]
          exact hfeatures
        · rw [hreports]
          exact hdeclared
        · exact hlength

/-- A tablet that has been probed after any other probes and disconnects, with
packets that fit its URB, among the packets of all tablets: a finger device
declares what is reported exactly if no packet begins a report of the pen; a pen
device with a URB shorter than the touch packets declares everything, and no
distance is out of the declared range. -/
theorem reports_declared {interfaces : Nat} {before : List Probe.Event}
    {state : Probe.State} {interface : Probe.UsbInterface} {outcomes : Probe.Outcomes}
    {kernel' : Probe.Kernel} {probed : Probe.Tablet}
    (hrun : run Probe.step (Probe.State.initial interfaces) before = some state)
    (hprobe : Probe.tabletProbe state.kernel interface driverInfo0xD1 outcomes =
      some (kernel', .ok probed))
    (data : Nat → Data) (i : Nat) (events : List (Nat × Packet))
    (hlength : ∀ packet ∈ packetsOf i events,
      packet.actualLength ≤ probed.urb.bufferLength) :
    (probed.features.deviceType = .btnToolFinger →
      ((∀ report ∈ ((Driver.initial data).run events).reports i,
          probed.inputDev.capabilities.declares report = true) ↔
        ∀ packet ∈ packetsOf i events, ¬ StartsPen packet)) ∧
    (probed.features.deviceType = .btnToolPen →
      probed.urb.bufferLength < usbPacketLen →
      ∀ report ∈ ((Driver.initial data).run events).reports i,
        probed.inputDev.capabilities.declares report = true ∧
          ∀ value, report = .abs .distance value →
            (probed.inputDev.capabilities.absinfo .distance).minimum ≤ value ∧
              value ≤ (probed.inputDev.capabilities.absinfo .distance).maximum) := by
  obtain ⟨leaked, hholds, -⟩ := (Probe.probes_accounted hrun).1
  obtain ⟨kernel'', result, more, hprobe', -, -, hreturns⟩ :=
    Probe.tabletProbe_holds hholds interface driverInfo0xD1 outcomes
  rw [hprobe, Option.some.injEq, Prod.mk.injEq] at hprobe'
  obtain ⟨-, rfl⟩ := hprobe'
  obtain ⟨hsound, hkept⟩ := hreturns
  rw [hsound.capabilities]
  constructor
  · intro hfinger
    simp only [declares_eq, hfinger]
    exact run_finger (Driver.valid_initial data) rfl (List.forall_mem_nil _) events
  · intro hpen hshort
    rw [absinfo_distance hpen]
    simp only [declares_eq, hpen]
    have hpackets : ∀ packet ∈ packetsOf i events,
        packet.actualLength ≠ usbPacketLen := by
      intro packet hpacket
      have hle := hlength packet hpacket
      omega
    have hfeatures : ((Driver.initial data).tablets i).features =
        probed.features.toFeatures := hkept.symm
    exact run_pen hfeatures (List.forall_mem_nil _) events hpackets

/-- A packet with one contact in column `x` and these buttons. -/
def draggingPacket (buttons x : Byte) : Packet :=
  ⟨0, usbPacketLen, (((Vector.replicate usbPacketLen 0).set 0 2 index_zero).set 1 buttons
    index_one |>.set 3 0x80 index_three).set 4 x index_four⟩

/-- The contact moves while the left button is held, and moves on without it. -/
def dragging : List (Nat × Packet) :=
  [(0, draggingPacket 1 5), (0, draggingPacket 1 9), (0, draggingPacket 0 12)]

theorem reports_declared_dragging : ∃ kernel' probed,
    Probe.tabletProbe (Probe.State.initial 1).kernel ⟨0, 0x81, 1⟩ driverInfo0xD1
        Probe.fingerOutcomes = some (kernel', .ok probed) ∧
      (.key .left 1 ∈ ((Driver.initial fun _ => (draggingPacket 0 0).data).run
        dragging).reports 0 ∧
      .rel .x 4 ∈ ((Driver.initial fun _ => (draggingPacket 0 0).data).run
        dragging).reports 0) ∧
      ∀ report ∈ ((Driver.initial fun _ => (draggingPacket 0 0).data).run
          dragging).reports 0,
        probed.inputDev.capabilities.declares report = true := by
  refine ⟨_, _, rfl, by decide +kernel, ?_⟩
  have hdeclared := @reports_declared 1 [] (Probe.State.initial 1) ⟨0, 0x81, 1⟩
    Probe.fingerOutcomes _ _ (run_nil _) rfl (fun _ => (draggingPacket 0 0).data) 0
    dragging (by decide +kernel)
  exact (hdeclared.1 rfl).mpr (by decide +kernel)

end DeclaredEvents
end TabletDriver
end OsStuff
