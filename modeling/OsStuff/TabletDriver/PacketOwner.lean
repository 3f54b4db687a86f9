import OsStuff.TabletDriver.TouchTabletMain

/-!
# Who owns the packet buffer

While a tablet stays open its buffer is with one party at a time: the device,
the completion handler, a queued container or the `work_irq` that has not
submitted the URB again.  So the packets whose container was queued are handled
once each, in order and on the bytes with which they arrived.
-/

namespace OsStuff
namespace TabletDriver
namespace TouchTablet

open Library Library.Processes

/-- The events of an open tablet without failed transfers. -/
def Event.Streaming : Event → Prop
  | .dma _ _ => True
  | .giveback status _ => status = 0
  | .tabletIrq _ => True
  | .work => True
  | .advance _ => True
  | .read _ _ => True
  | .resubmit _ _ => True
  | .tabletOpen _ _ => False
  | .tabletClose => False
  | .closed => False
  | .tabletDisconnect => False
  | .killed => False
  | .unregister => False
  | .disconnectClosed => False
  | .usbFreeUrb => False
  | .usbFreeCoherent => False
  | .kfreeTablet => False

/-- The state after a first `tablet_open` that has succeeded. -/
def State.opened (data : Data) : State :=
  { State.initial data with
    urb := ⟨true, 0, 0, inProgress, 0⟩, isOpen := true }

example (data : Data) :
    step (State.initial data) (.tabletOpen true .granted) =
      some (State.opened data) := rfl

/-- What the handlers make of packets handled one after the other. -/
def replay (data : Data) (packets : List Packet) :
    History × Tablet × List Report :=
  packets.foldl (fun before packet =>
    let (history, tablet, reports) := handlePacket before.1 before.2.1 packet
    (history, tablet, before.2.2 ++ reports))
    (.initial, .probed data, [])

/-- The packets queued or about to be handled. -/
def State.pending (state : State) : Nat :=
  state.queue + state.workers.countP Worker.pending

/-- The parties that have the buffer. -/
def State.owners (state : State) : Nat :=
  state.urb.inFlight.toNat + state.urb.completing + state.queue + state.using

/-- The invariant of an open tablet. -/
structure Owned (data : Data) (state : State) : Prop where
  -- The device, the completion handler, the queue and a `work_irq` own the buffer one at a
  -- time.
  one : state.owners ≤ 1
  reject : state.urb.reject = 0
  waiting : 0 < state.urb.completing + state.pending →
    state.arrived = ⟨0, state.urb.actualLength, state.tablet.data⟩ ∧
      state.urb.status = 0
  -- All packets that were completed have been handled, or all but the one that waits.
  quiet : state.pending = 0 → state.completed = state.handled
  behind : 0 < state.pending →
    state.completed = state.handled ++ [state.arrived]
  handling : ∀ (i actualLength : Nat) (reads : List (Fin usbPacketLen × Byte)),
    state.workers[i]? = some (.handling actualLength reads) →
    actualLength = state.arrived.actualLength ∧
      ∀ read ∈ reads, read.2 = state.arrived.data[read.1]
  history : state.history = (replay data state.handled).1
  tablet : state.tablet =
    { (replay data state.handled).2.1 with data := state.tablet.data }
  reports : state.reports = (replay data state.handled).2.2

variable {data : Data} {state state' : State} {i : Nat} {worker after : Worker}
  {event : Event}

theorem pending_le_using (workers : List Worker) :
    workers.countP Worker.pending ≤ workers.countP Worker.uses := by
  apply List.countP_mono_left
  intro worker _ hpending
  cases worker with
  | status => rfl
  | length => rfl
  | handling actualLength reads => rfl
  | resubmit => exact absurd hpending Bool.false_ne_true
  | free => exact absurd hpending Bool.false_ne_true
  | returned => exact absurd hpending Bool.false_ne_true

/-- A `work_irq` that uses the URB is the only owner. -/
theorem Owned.alone (howned : Owned data state)
    (hi : state.workers[i]? = some worker) (huses : worker.uses) :
    state.urb.inFlight = false ∧ state.urb.completing = 0 ∧ state.queue = 0 ∧
      state.using = 1 := by
  have hone := howned.one
  have hpos : 0 < state.using := countP_pos hi huses
  unfold State.owners at hone
  have hflight : state.urb.inFlight.toNat = 0 := by omega
  exact ⟨by simpa using hflight, by omega, by omega, by omega⟩

/-- While the device or the completion handler has the buffer, no `work_irq`
uses it. -/
theorem Owned.nobody (howned : Owned data state)
    (howner : 1 ≤ state.urb.inFlight.toNat + state.urb.completing) :
    state.queue = 0 ∧ state.using = 0 ∧ state.pending = 0 := by
  have hone := howned.one
  have hle := pending_le_using state.workers
  unfold State.owners at hone
  unfold State.pending State.using at *
  omega

theorem Owned.not_handling (hnone : state.using = 0) {actualLength : Nat}
    {reads : List (Fin usbPacketLen × Byte)} :
    state.workers[i]? ≠ some (.handling actualLength reads) := by
  intro hi
  have hpos : 0 < state.using := countP_pos hi rfl
  omega

/-! ## Steps -/

theorem Owned.dma (howned : Owned data state) (hflight : state.urb.inFlight)
    (index : Fin usbPacketLen) (byte : Byte) :
    Owned data { state with tablet := { state.tablet with
      data := state.tablet.data.set index byte index.isLt } } := by
  obtain ⟨hqueue, husing, hpending⟩ := howned.nobody (by rw [hflight]; simp)
  -- The device is the only owner, so nobody reads the byte that it writes.
  have hcompleting : state.urb.completing = 0 := by
    have hone := howned.one
    unfold State.owners at hone
    rw [hflight, Bool.toNat_true] at hone
    omega
  constructor
  · exact howned.one
  · exact howned.reject
  · intro hpos
    exact absurd hpos (by
      change ¬ 0 < state.urb.completing + state.pending
      omega)
  · exact howned.quiet
  · exact howned.behind
  · intro i actualLength reads hi
    exact absurd hi (Owned.not_handling husing)
  · exact howned.history
  · have htablet := howned.tablet
    rw [htablet]
  · exact howned.reports

theorem Owned.giveback (howned : Owned data state) (hflight : state.urb.inFlight)
    (actualLength : Nat) :
    Owned data { state with
      urb := { state.urb with
        inFlight := false
        completing := state.urb.completing + 1
        status := 0
        actualLength := actualLength }
      arrived := ⟨0, actualLength, state.tablet.data⟩ } := by
  obtain ⟨hqueue, husing, hpending⟩ := howned.nobody (by rw [hflight]; simp)
  have hone := howned.one
  constructor
  · unfold State.owners at hone ⊢
    rw [hflight] at hone
    simp only [Bool.toNat_true, Bool.toNat_false, State.using] at hone ⊢
    omega
  · exact howned.reject
  · -- From here on the buffer and `arrived` are the same bytes.
    exact fun _ => ⟨rfl, rfl⟩
  · exact howned.quiet
  · intro hpos
    exact absurd hpending hpos.ne'
  · intro i actualLength reads hi
    exact absurd hi (Owned.not_handling husing)
  · exact howned.history
  · exact howned.tablet
  · exact howned.reports

theorem Owned.tabletIrq (howned : Owned data state)
    (hcompleting : 0 < state.urb.completing) (allocated : Bool)
    (hstep : step state (.tabletIrq allocated) = some state') :
    Owned data state' := by
  obtain ⟨hqueue, husing, hpending⟩ := howned.nobody (by omega)
  have hone := howned.one
  have hquiet := howned.quiet hpending
  have hwaiting := howned.waiting (by omega)
  have hworkers : state.workers.countP Worker.pending = 0 := by
    unfold State.pending at hpending
    omega
  simp only [step, if_pos hcompleting] at hstep
  cases allocated with
  | true =>
      simp only [if_true, Option.some.injEq] at hstep
      subst hstep
      constructor
      · unfold State.owners State.using at *
        simp only
        omega
      · exact howned.reject
      · exact fun _ => hwaiting
      · -- The packet is in the queue now, so it is still to be handled.
        intro hnone
        simp only [State.pending] at hnone
        omega
      · intro _
        exact congrArg (· ++ [state.arrived]) hquiet
      · exact howned.handling
      · exact howned.history
      · exact howned.tablet
      · exact howned.reports
  -- `kzalloc` has failed: the packet is dropped and the URB is not submitted again.
  | false =>
      simp only [Bool.false_eq_true, if_false, Option.some.injEq] at hstep
      subst hstep
      constructor
      · unfold State.owners State.using at *
        simp only
        omega
      · exact howned.reject
      · exact fun _ => hwaiting
      · exact fun _ => hquiet
      · exact howned.behind
      · exact howned.handling
      · exact howned.history
      · exact howned.tablet
      · exact howned.reports

theorem Owned.work (howned : Owned data state) (hqueue : 0 < state.queue) :
    Owned data { state with
      queue := state.queue - 1, workers := state.workers ++ [.status] } := by
  have hone := howned.one
  have hpending : State.pending { state with
      queue := state.queue - 1, workers := state.workers ++ [.status] } =
        state.pending := by
    simp only [State.pending, List.countP_append]
    change state.queue - 1 + (state.workers.countP Worker.pending + 1) = _
    omega
  constructor
  · unfold State.owners State.using at *
    simp only [List.countP_append]
    change state.urb.inFlight.toNat + state.urb.completing + (state.queue - 1) +
      (state.workers.countP Worker.uses + 1) ≤ 1
    omega
  · exact howned.reject
  · rw [hpending]
    exact howned.waiting
  · rw [hpending]
    exact howned.quiet
  · rw [hpending]
    exact howned.behind
  · -- The new `work_irq` has read nothing yet.
    intro i actualLength reads hi
    by_cases hlt : i < state.workers.length
    · rw [List.getElem?_append_left hlt] at hi
      exact howned.handling i actualLength reads hi
    · rw [List.getElem?_append_right (Nat.le_of_not_lt hlt)] at hi
      have hmem := List.mem_of_getElem? hi
      simp at hmem
  · exact howned.history
  · exact howned.tablet
  · exact howned.reports

/-- A `work_irq` that moves on without giving up the buffer or finishing with
its packet. -/
theorem Owned.move (howned : Owned data state)
    (hi : state.workers[i]? = some worker) (huses : after.uses = worker.uses)
    (hpending : after.pending = worker.pending)
    (hafter : ∀ (actualLength : Nat) (reads : List (Fin usbPacketLen × Byte)),
      after = .handling actualLength reads →
      actualLength = state.arrived.actualLength ∧
        ∀ read ∈ reads, read.2 = state.arrived.data[read.1]) :
    Owned data (state.set i after) := by
  have husing : (state.set i after).using = state.using := countP_set_same hi huses
  have hpendings : (state.set i after).pending = state.pending :=
    congrArg (state.queue + ·) (countP_set_same hi hpending)
  constructor
  · have hone := howned.one
    unfold State.owners at hone ⊢
    rw [husing]
    exact hone
  · exact howned.reject
  · rw [hpendings]
    exact howned.waiting
  · rw [hpendings]
    exact howned.quiet
  · rw [hpendings]
    exact howned.behind
  · intro j actualLength reads hj
    rcases set_cases hj with ⟨-, heq⟩ | ⟨-, hj⟩
    · exact hafter actualLength reads heq.symm
    · exact howned.handling j actualLength reads hj
  · exact howned.history
  · exact howned.tablet
  · exact howned.reports

theorem replay_append (data : Data) (packets : List Packet) (packet : Packet) :
    replay data (packets ++ [packet]) =
      let before := replay data packets
      let after := handlePacket before.1 before.2.1 packet
      (after.1, after.2.1, before.2.2 ++ after.2.2) := by
  unfold replay
  rw [List.foldl_append]
  rfl

/-- A `work_irq` that has the buffer handles the packet that arrived. -/
theorem Owned.handle (howned : Owned data state) {actualLength : Nat}
    {reads : List (Fin usbPacketLen × Byte)}
    (hi : state.workers[i]? = some (.handling actualLength reads)) :
    Owned data ((state.handle actualLength).set i .resubmit) := by
  obtain ⟨hflight, hcompleting, hqueue, husing⟩ := howned.alone hi rfl
  have hpos : 0 < state.workers.countP Worker.pending := countP_pos hi rfl
  have hpending : 0 < state.pending := Nat.add_pos_right _ hpos
  have hle := pending_le_using state.workers
  obtain ⟨harrived, hstatus⟩ := howned.waiting (by omega)
  obtain ⟨hlength, -⟩ := howned.handling i actualLength reads hi
  -- The buffer still holds the packet that arrived.
  have hpacket : state.arrived = ⟨0, actualLength, state.tablet.data⟩ := by
    rw [hlength, harrived]
  have hleave : (state.workers.set i .resubmit).countP Worker.pending + 1 =
      state.workers.countP Worker.pending := countP_set_leave hi rfl rfl
  -- There was only this packet to handle.
  have hnone : ((state.handle actualLength).set i .resubmit).pending = 0 := by
    change state.queue + (state.workers.set i .resubmit).countP Worker.pending = 0
    unfold State.using at husing
    omega
  have huses : (state.workers.set i .resubmit).countP Worker.uses =
      state.workers.countP Worker.uses := countP_set_same hi rfl
  have hreplay := replay_append data state.handled
    ⟨0, actualLength, state.tablet.data⟩
  have hdata : handleData state.history state.tablet actualLength =
      handlePacket (replay data state.handled).1
        (replay data state.handled).2.1 ⟨0, actualLength, state.tablet.data⟩ := by
    rw [howned.history]
    conv_lhs => rw [howned.tablet]
    rfl
  constructor
  · have hone := howned.one
    unfold State.owners at hone ⊢
    change state.urb.inFlight.toNat + state.urb.completing + state.queue +
      (state.workers.set i .resubmit).countP Worker.uses ≤ 1
    rw [huses]
    exact hone
  · exact howned.reject
  · intro hwaiting
    rw [hnone] at hwaiting
    change 0 < state.urb.completing + 0 at hwaiting
    omega
  · intro _
    change state.completed = state.handled ++
      [⟨0, actualLength, state.tablet.data⟩]
    rw [howned.behind hpending, hpacket]
  · intro hwaiting
    exact absurd hnone hwaiting.ne'
  · intro j length reads' hj
    rcases set_cases hj with ⟨-, heq⟩ | ⟨-, hj⟩
    · exact absurd heq (by simp)
    · exact howned.handling j length reads' hj
  · change (handleData state.history state.tablet actualLength).1 =
      (replay data (state.handled ++ [⟨0, actualLength, state.tablet.data⟩])).1
    rw [hreplay, hdata]
  · change (handleData state.history state.tablet actualLength).2.1 =
      { (replay data (state.handled ++
        [⟨0, actualLength, state.tablet.data⟩])).2.1 with
          data := (handleData state.history state.tablet actualLength).2.1.data }
    rw [hreplay, hdata]
  · change state.reports ++
        (handleData state.history state.tablet actualLength).2.2 =
      (replay data (state.handled ++
        [⟨0, actualLength, state.tablet.data⟩])).2.2
    rw [hreplay, hdata, howned.reports]

theorem Owned.advance (howned : Owned data state)
    (hi : state.workers[i]? = some worker)
    (hadvance : advance state i worker = some state') : Owned data state' := by
  cases worker with
  | status =>
      obtain ⟨-, -, -, husing⟩ := howned.alone hi rfl
      have hpos : 0 < state.workers.countP Worker.pending := countP_pos hi rfl
      obtain ⟨-, hstatus⟩ := howned.waiting (by unfold State.pending; omega)
      -- Without failed transfers the status is zero, so the packet is not skipped.
      simp only [TouchTablet.advance, hstatus, ne_eq, not_true_eq_false, if_false,
        Option.some.injEq] at hadvance
      subst hadvance
      exact howned.move hi rfl rfl (by simp)
  | length =>
      have hpos : 0 < state.workers.countP Worker.pending := countP_pos hi rfl
      obtain ⟨harrived, -⟩ := howned.waiting (by unfold State.pending; omega)
      simp only [TouchTablet.advance, Option.some.injEq] at hadvance
      subst hadvance
      refine howned.move hi ?_ ?_ ?_
      · rfl
      · rfl
      · intro actualLength reads heq
        obtain ⟨rfl, rfl⟩ := Worker.handling.inj heq
        rw [harrived]
        exact ⟨rfl, by simp⟩
  | handling actualLength reads =>
      simp only [TouchTablet.advance, Option.some.injEq] at hadvance
      subst hadvance
      exact howned.handle hi
  | resubmit => exact absurd hadvance (by simp [TouchTablet.advance])
  | free =>
      simp only [TouchTablet.advance, Option.some.injEq] at hadvance
      subst hadvance
      exact howned.move hi rfl rfl (by simp)
  | returned => exact absurd hadvance (by simp [TouchTablet.advance])

/-- A `work_irq` reads a byte as it arrived. -/
theorem Owned.read (howned : Owned data state) {actualLength : Nat}
    {reads : List (Fin usbPacketLen × Byte)}
    (hi : state.workers[i]? = some (.handling actualLength reads))
    (index : Fin usbPacketLen) :
    Owned data (state.set i (.handling actualLength
      (reads ++ [(index, getElem state.tablet.data index index.isLt)]))) := by
  have hpos : 0 < state.workers.countP Worker.pending := countP_pos hi rfl
  obtain ⟨harrived, -⟩ := howned.waiting (by unfold State.pending; omega)
  obtain ⟨hlength, hreads⟩ := howned.handling i actualLength reads hi
  refine howned.move hi ?_ ?_ ?_
  · rfl
  · rfl
  · intro actualLength' reads' heq
    obtain ⟨rfl, rfl⟩ := Worker.handling.inj heq
    refine ⟨hlength, fun read hread => ?_⟩
    rcases List.mem_append.mp hread with hold | hnew
    · exact hreads read hold
    · rw [List.mem_singleton.mp hnew, harrived]

/-- The URB goes back to the device, or nobody has the buffer any more. -/
theorem Owned.resubmit (howned : Owned data state)
    (hi : state.workers[i]? = some .resubmit) {submission : Submission}
    (hstep : step state (.resubmit i submission) = some state') :
    Owned data state' := by
  obtain ⟨hflight, hcompleting, hqueue, husing⟩ := howned.alone hi rfl
  have hleave : (state.workers.set i .free).countP Worker.uses + 1 =
      state.workers.countP Worker.uses := countP_set_leave hi rfl rfl
  have hsame : (state.workers.set i .free).countP Worker.pending =
      state.workers.countP Worker.pending := countP_set_same hi rfl
  have hle := pending_le_using (state.workers.set i .free)
  unfold State.using at husing
  have hpending : state.pending = 0 := by
    unfold State.pending
    omega
  simp only [step, if_pos hi, Option.map_eq_some_iff] at hstep
  obtain ⟨⟨urb, submitted⟩, hsubmit, rfl⟩ := hstep
  -- Whether or not the core accepts the URB, no completion is running and nobody rejects
  -- it.
  have hurb : urb.completing = 0 ∧ urb.reject = 0 := by
    cases submission <;> simp only [usbSubmitUrb] at hsubmit <;>
      (try split at hsubmit) <;> simp at hsubmit <;> rw [← hsubmit.1] <;>
      exact ⟨hcompleting, howned.reject⟩
  have hnone : State.pending { state.set i .free with urb := urb } = 0 := by
    change state.queue + (state.workers.set i .free).countP Worker.pending = 0
    omega
  constructor
  · unfold State.owners
    change urb.inFlight.toNat + urb.completing + state.queue +
      (state.workers.set i .free).countP Worker.uses ≤ 1
    -- The device owns the buffer if the URB was accepted, and nobody does otherwise.
    have hbool := urb.inFlight.toNat_le
    omega
  · exact hurb.2
  · intro hwaiting
    rw [hnone] at hwaiting
    change 0 < urb.completing + 0 at hwaiting
    omega
  · exact fun _ => howned.quiet hpending
  · intro hwaiting
    exact absurd hnone hwaiting.ne'
  · intro j actualLength reads hj
    rcases set_cases hj with ⟨-, heq⟩ | ⟨-, hj⟩
    · exact absurd heq (by simp)
    · exact howned.handling j actualLength reads hj
  · exact howned.history
  · exact howned.tablet
  · exact howned.reports

/-- Every step of an open tablet keeps the buffer with one owner. -/
theorem Owned.step (howned : Owned data state) (hevent : event.Streaming)
    (hstep : step state event = some state') : Owned data state' := by
  cases event with
  | tabletOpen autopm submission => exact hevent.elim
  | tabletClose => exact hevent.elim
  | closed => exact hevent.elim
  | tabletDisconnect => exact hevent.elim
  | killed => exact hevent.elim
  | unregister => exact hevent.elim
  | disconnectClosed => exact hevent.elim
  | usbFreeUrb => exact hevent.elim
  | usbFreeCoherent => exact hevent.elim
  | kfreeTablet => exact hevent.elim
  -- The controller, the interrupt, the queue and the workers are what is left while the
  -- device streams.
  | dma index byte =>
      simp only [TouchTablet.step, Option.ite_none_right_eq_some,
        Option.some.injEq] at hstep
      obtain ⟨hflight, rfl⟩ := hstep
      exact howned.dma hflight index byte
  | giveback status actualLength =>
      simp only [TouchTablet.step, Option.ite_none_right_eq_some,
        Option.some.injEq] at hstep
      obtain ⟨hflight, rfl⟩ := hstep
      have hzero : status = 0 := hevent
      subst hzero
      exact howned.giveback hflight actualLength
  | tabletIrq allocated =>
      have hcompleting : 0 < state.urb.completing := by
        by_contra hnone
        simp only [TouchTablet.step, if_neg hnone] at hstep
        exact absurd hstep (by simp)
      exact howned.tabletIrq hcompleting allocated hstep
  | work =>
      simp only [TouchTablet.step, Option.ite_none_right_eq_some,
        Option.some.injEq] at hstep
      obtain ⟨hqueue, rfl⟩ := hstep
      exact howned.work hqueue
  | advance i =>
      obtain ⟨worker, hi, hadvance⟩ := Option.bind_eq_some_iff.mp hstep
      exact howned.advance hi hadvance
  | read i index =>
      simp only [TouchTablet.step] at hstep
      split at hstep
      · next actualLength reads hi =>
          rw [Option.some.injEq] at hstep
          subst hstep
          exact howned.read hi index
      · exact absurd hstep (by simp)
  | resubmit i submission =>
      have hi : state.workers[i]? = some .resubmit := by
        by_contra hnone
        simp only [TouchTablet.step, if_neg hnone] at hstep
        exact absurd hstep (by simp)
      exact howned.resubmit hi hstep

theorem Owned.opened (data : Data) : Owned data (State.opened data) := by
  constructor
  · exact le_refl 1
  · rfl
  · intro hwaiting
    exact absurd hwaiting (Nat.lt_irrefl 0)
  · exact fun _ => rfl
  · intro hwaiting
    exact absurd hwaiting (Nat.lt_irrefl 0)
  · intro i actualLength reads hi
    exact absurd hi (by simp [State.opened, State.initial])
  · rfl
  · rfl
  · rfl

/-! ## Runs -/

/-- One owner of the buffer at a time, and every packet whose container was
queued handled once, in order, on the bytes with which it arrived. -/
structure OneOwner (data : Data) (state : State) : Prop where
  one_owner : state.owners ≤ 1
  in_order : state.handled <+: state.completed
  all_handled : state.pending = 0 → state.handled = state.completed
  not_overwritten : 0 < state.pending → state.pending = 1 ∧
    ∃ packet, state.completed = state.handled ++ [packet] ∧
      state.tablet.data = packet.data
  read_as_arrived : ∀ (i actualLength : Nat)
    (reads : List (Fin usbPacketLen × Byte)),
    state.workers[i]? = some (.handling actualLength reads) →
    ∃ packet, state.completed = state.handled ++ [packet] ∧
      actualLength = packet.actualLength ∧ state.tablet.data = packet.data ∧
      ∀ read ∈ reads, read.2 = packet.data[read.1]
  reports : state.reports = (replay data state.handled).2.2

theorem Owned.oneOwner (howned : Owned data state) : OneOwner data state := by
  have hone := howned.one
  have hle := pending_le_using state.workers
  have harrived : 0 < state.pending →
      state.tablet.data = state.arrived.data := by
    intro hpos
    rw [(howned.waiting (by omega)).1]
  constructor
  · exact hone
  · by_cases hpending : state.pending = 0
    · rw [howned.quiet hpending]
    · rw [howned.behind (Nat.pos_of_ne_zero hpending)]
      exact List.prefix_append _ _
  · exact fun hpending => (howned.quiet hpending).symm
  · intro hpos
    -- A packet that waits is the last one completed, and the buffer has not changed since.
    refine ⟨?_, state.arrived, howned.behind hpos, harrived hpos⟩
    unfold State.owners State.using at hone
    unfold State.pending at hpos ⊢
    omega
  · intro i actualLength reads hi
    have hcount : 0 < state.workers.countP Worker.pending := countP_pos hi rfl
    have hpos : 0 < state.pending := Nat.add_pos_right _ hcount
    obtain ⟨hlength, hreads⟩ := howned.handling i actualLength reads hi
    exact ⟨state.arrived, howned.behind hpos, hlength, harrived hpos, hreads⟩
  · exact howned.reports

/-- In every run of an open tablet without failed transfers the packet buffer
has one owner at a time. -/
theorem packet_buffer_owned (data : Data) {events : List Event}
    (hrun : run step (State.opened data) events = some state)
    (hevents : ∀ event ∈ events, event.Streaming) : OneOwner data state := by
  have hguarded := GuardedRun.of_run hrun hevents
  have howned : Owned data state := hguarded.invariant
    (fun _ _ _ howned hstep hevent => howned.step hevent hstep) (Owned.opened data)
  exact howned.oneOwner

/-- A packet written, completed, queued and handled up to its resubmission. -/
theorem packet_buffer_owned_sample :
    ∃ state, run step (State.opened (Vector.replicate usbPacketLen 0))
        [.dma 1 7, .giveback 0 5, .tabletIrq true, .work, .advance 0, .advance 0,
          .read 0 1, .advance 0, .resubmit 0 .granted] = some state ∧
      OneOwner (Vector.replicate usbPacketLen 0) state ∧
      state.handled = [⟨0, 5, (Vector.replicate usbPacketLen 0).set 1 7⟩] := by
  have hrun : ∃ state, run step (State.opened (Vector.replicate usbPacketLen 0))
      [.dma 1 7, .giveback 0 5, .tabletIrq true, .work, .advance 0, .advance 0,
        .read 0 1, .advance 0, .resubmit 0 .granted] = some state ∧
      state.handled = [⟨0, 5, (Vector.replicate usbPacketLen 0).set 1 7⟩] :=
    ⟨_, rfl, rfl⟩
  obtain ⟨state, hrun, hhandled⟩ := hrun
  refine ⟨state, hrun, packet_buffer_owned _ hrun ?_, hhandled⟩
  intro event hevent
  simp only [List.mem_cons, List.not_mem_nil, or_false] at hevent
  rcases hevent with rfl | rfl | rfl | rfl | rfl | rfl | rfl | rfl | rfl
  all_goals first
    | exact trivial
    | exact (rfl : (0 : Int) = 0)

end TouchTablet
end TabletDriver
end OsStuff
