import OsStuff.TabletDriver.TouchTabletMain

/-!
# How long `work_irq` may live

Neither `tablet_close` nor `tablet_disconnect` waits for the work queue.  A run
respects the lifetime of the URB and the tablet when these calls happen to find
the work queue empty enough: no `work_irq` left that will submit the URB when
`tablet_close` returns, and none that uses it when `tablet_disconnect` frees it.
-/

namespace OsStuff
namespace TabletDriver
namespace TouchTablet

open Library Library.Processes

/-- The containers whose status has not been looked at. -/
def State.unchecked (state : State) : Nat :=
  state.queue + state.workers.countP fun worker => worker = .status

/-- The `work_irq` that will submit the URB. -/
def State.checked (state : State) : Nat :=
  state.workers.countP Worker.checked

/-- No `work_irq` will submit the URB as long as it has the status it has. -/
def State.Settled (state : State) : Prop :=
  state.checked = 0 ∧ (state.urb.status = 0 → state.unchecked = 0)

instance (state : State) : Decidable state.Settled :=
  inferInstanceAs (Decidable (_ ∧ _))

/-- Nothing of the tablet is left in the work queue. -/
def State.Drained (state : State) : Prop :=
  state.queue = 0 ∧ state.using = 0

instance (state : State) : Decidable state.Drained :=
  inferInstanceAs (Decidable (_ ∧ _))

/-- The steps that leave the work queue no chance to do harm. -/
def Quiescent (state : State) (event : Event) (_ : State) : Prop :=
  match event with
  | .closed => state.Settled
  | .disconnectClosed => state.Settled
  | .usbFreeUrb => state.Drained
  | _ => True

instance (state next : State) (event : Event) : Decidable (Quiescent state event next) := by
  unfold Quiescent
  split <;> infer_instance

/-- Something of what `tablet_disconnect` frees has been freed. -/
def State.freed (state : State) : Bool :=
  state.urbFreed || state.dataFreed || state.tabletFreed

/-- No `work_irq` runs on what has been freed, and the URB of a device that is
not open is not in flight. -/
structure Lifetime (state : State) : Prop where
  no_use : state.freed = true → state.using = 0
  not_submitted : state.isOpen = false → state.urb.inFlight = false

/-! ## The invariant -/

/-- `tablet_disconnect` is past `input_unregister_device`. -/
def Disconnect.late : Disconnect → Bool
  | .notCalled => false
  | .killing => false
  | .unregistering => false
  | .closing => false
  | .freeingUrb => true
  | .freeingData => true
  | .freeingTablet => true
  | .returned => true

/-- `tablet_disconnect` has freed the URB. -/
def Disconnect.frees : Disconnect → Bool
  | .notCalled => false
  | .killing => false
  | .unregistering => false
  | .closing => false
  | .freeingUrb => false
  | .freeingData => true
  | .freeingTablet => true
  | .returned => true

theorem Disconnect.late_of_frees {disconnect : Disconnect}
    (hfrees : disconnect.frees = true) : disconnect.late = true := by
  cases disconnect with
  | notCalled => exact absurd hfrees Bool.false_ne_true
  | killing => exact absurd hfrees Bool.false_ne_true
  | unregistering => exact absurd hfrees Bool.false_ne_true
  | closing => exact absurd hfrees Bool.false_ne_true
  | freeingUrb => exact absurd hfrees Bool.false_ne_true
  | freeingData => rfl
  | freeingTablet => rfl
  | returned => rfl

/-- A device that is not open is quiet, and `tablet_disconnect` has closed it
before it frees anything. -/
structure Inv (state : State) : Prop where
  quiet : state.isOpen = false → state.urb.idle ∧ state.Settled
  closing : state.closing = true → state.isOpen = true
  closed : state.disconnect = .closing →
    state.registered = false ∧ state.isOpen = true ∧ state.closing = false
  late : state.disconnect.late = true →
    state.registered = false ∧ state.isOpen = false ∧ state.closing = false
  freed : state.freed = true → state.disconnect.frees = true
  drained : state.disconnect.frees = true → state.Drained

variable {state state' : State} {i : Nat} {worker after : Worker}
  {event : Event} {data : Data}

theorem Inv.lifetime (hinv : Inv state) : Lifetime state :=
  ⟨fun hfreed => (hinv.drained (hinv.freed hfreed)).2, fun hopen => (hinv.quiet hopen).1.1⟩

/-- Nothing has been freed before `tablet_disconnect` begins to free. -/
theorem Inv.not_freed (hinv : Inv state) (hfrees : state.disconnect.frees = false) :
    state.freed = false := by
  by_contra hfreed
  have hsome := hinv.freed (by simpa using hfreed)
  exact absurd (hsome.symm.trans hfrees) (by simp)

/-- While the device is open, only the device and the work queue move. -/
theorem Inv.of_open (hinv : Inv state) (hopen : state.isOpen = true)
    (hopen' : state'.isOpen = state.isOpen)
    (hregistered : state'.registered = state.registered)
    (hclosing : state'.closing = state.closing)
    (hdisconnect : state'.disconnect = state.disconnect)
    (hfreed : state'.freed = state.freed) : Inv state' := by
  have hnot : state.disconnect.late = false := by
    by_contra hlate
    obtain ⟨-, hclosed, -⟩ := hinv.late (by simpa using hlate)
    exact absurd (hopen.symm.trans hclosed) (by simp)
  constructor
  · intro hclosed
    exact absurd (hopen.symm.trans (hopen'.symm.trans hclosed)) (by simp)
  · intro _
    rw [hopen', hopen]
  · rw [hdisconnect, hregistered, hopen', hclosing]
    exact hinv.closed
  · intro hlate
    rw [hdisconnect, hnot] at hlate
    exact absurd hlate Bool.false_ne_true
  · rw [hfreed, hdisconnect]
    exact hinv.freed
  · intro hfrees
    rw [hdisconnect] at hfrees
    exact absurd ((Disconnect.late_of_frees hfrees).symm.trans hnot) (by simp)

/-- Outside of an open device no `work_irq` is about to submit the URB. -/
theorem Inv.open_of_checked (hinv : Inv state)
    (hi : state.workers[i]? = some worker) (hchecked : worker.checked) :
    state.isOpen = true := by
  by_contra hclosed
  have hpos : 0 < state.checked := countP_pos hi hchecked
  have hnone := (hinv.quiet (by simpa using hclosed)).2.1
  omega

/-- Nor is the URB with the device or the completion handler. -/
theorem Inv.open_of_busy (hinv : Inv state) (hbusy : ¬ state.urb.idle) :
    state.isOpen = true := by
  by_contra hclosed
  exact hbusy (hinv.quiet (by simpa using hclosed)).1

/-! ## Steps -/

theorem Inv.tabletOpen (hinv : Inv state) {autopm : Bool}
    {submission : Submission}
    (hstep : step state (.tabletOpen autopm submission) = some state') :
    Inv state' := by
  simp only [step, Option.ite_none_right_eq_some] at hstep
  obtain ⟨⟨hregistered, hopen, hclosing⟩, hstep⟩ := hstep
  have hclosed : state.isOpen = false := by simpa using hopen
  obtain ⟨hidle, hsettled⟩ := hinv.quiet hclosed
  -- A registered device has not been unregistered by `tablet_disconnect`.
  have hnot : state.disconnect.late = false := by
    by_contra hlate
    obtain ⟨hunregistered, -⟩ := hinv.late (by simpa using hlate)
    exact absurd (hregistered.symm.trans hunregistered) (by simp)
  have hnotClosing : state.disconnect ≠ .closing := by
    intro hdisconnect
    obtain ⟨hunregistered, -⟩ := hinv.closed hdisconnect
    exact absurd (hregistered.symm.trans hunregistered) (by simp)
  cases autopm with
  | false =>
      simp only [Bool.false_eq_true, if_false, Option.some.injEq] at hstep
      exact hstep ▸ hinv
  | true =>
      simp only [if_true, Option.map_eq_some_iff] at hstep
      obtain ⟨⟨urb, submitted⟩, hsubmit, rfl⟩ := hstep
      -- A submission that is refused leaves the URB idle; only the late refusal touches the
      -- status, and sets it to `-EINPROGRESS`.
      have hquiet : submitted = false →
          urb.idle ∧ (urb.status = state.urb.status ∨ urb.status = inProgress) := by
        intro hrefused
        cases submission with
        | granted =>
            simp only [usbSubmitUrb, Option.ite_none_right_eq_some,
              Option.some.injEq, Prod.mk.injEq] at hsubmit
            exact absurd (hsubmit.2.2.trans hrefused) (by simp)
        | refused =>
            simp only [usbSubmitUrb, Option.some.injEq, Prod.mk.injEq] at hsubmit
            exact hsubmit.1 ▸ ⟨hidle, Or.inl rfl⟩
        | refusedLate =>
            simp only [usbSubmitUrb, Option.ite_none_right_eq_some,
              Option.some.injEq, Prod.mk.injEq] at hsubmit
            exact hsubmit.2.1 ▸ ⟨hidle, Or.inr rfl⟩
      constructor
      · intro hrefused
        obtain ⟨hidle', hstatus⟩ := hquiet hrefused
        refine ⟨hidle', hsettled.1, fun hzero => ?_⟩
        cases hstatus with
        | inl hsame => exact hsettled.2 (hsame ▸ hzero)
        | inr hprogress =>
            exact absurd (hprogress.symm.trans hzero) (by decide)
      · intro hclosing'
        exact absurd hclosing' hclosing
      · intro hdisconnect
        exact absurd hdisconnect hnotClosing
      · intro hlate
        exact absurd (hnot.symm.trans hlate) (by simp)
      · exact hinv.freed
      · intro hfrees
        exact absurd (hnot.symm.trans (Disconnect.late_of_frees hfrees)) (by simp)

theorem Inv.work (hinv : Inv state) (hqueue : 0 < state.queue) :
    Inv { state with
      queue := state.queue - 1, workers := state.workers ++ [.status] } := by
  have hchecked : State.checked { state with
      queue := state.queue - 1, workers := state.workers ++ [.status] } =
        state.checked := by
    simp only [State.checked, List.countP_append]
    rfl
  have hunchecked : State.unchecked { state with
      queue := state.queue - 1, workers := state.workers ++ [.status] } =
        state.unchecked := by
    simp only [State.unchecked, List.countP_append]
    change state.queue - 1 + (_ + 1) = _
    omega
  constructor
  · intro hclosed
    obtain ⟨hidle, hsettled⟩ := hinv.quiet hclosed
    refine ⟨hidle, hchecked.trans hsettled.1, fun hzero => ?_⟩
    exact hunchecked.trans (hsettled.2 hzero)
  · exact hinv.closing
  · exact hinv.closed
  · exact hinv.late
  · exact hinv.freed
  · intro hfrees
    have hnone := (hinv.drained hfrees).1
    omega

/-- A `work_irq` that has nothing more to do with the URB. -/
theorem Inv.leave (hinv : Inv state) (hi : state.workers[i]? = some worker)
    (hchecked : after.checked = worker.checked) (hafter : after ≠ .status)
    (huses : after.uses = false) : Inv (state.set i after) := by
  have hsame : (state.set i after).checked = state.checked :=
    countP_set_same hi hchecked
  -- The `work_irq` may have been one that had not looked at the status yet.
  have hless : (state.set i after).unchecked ≤ state.unchecked := by
    unfold State.unchecked
    apply Nat.add_le_add_left
    by_cases hworker : worker = .status
    · have hleave := countP_set_leave (p := fun worker : Worker =>
        decide (worker = .status)) hi (decide_eq_true hworker)
        (decide_eq_false hafter)
      exact Nat.le_of_lt (by rw [← hleave]; exact Nat.lt_succ_self _)
    · exact (countP_set_same hi (by
        rw [decide_eq_false hafter, decide_eq_false hworker])).le
  constructor
  · intro hclosed
    obtain ⟨hidle, hsettled⟩ := hinv.quiet hclosed
    refine ⟨hidle, hsame.trans hsettled.1, fun hzero => ?_⟩
    exact Nat.le_zero.mp (hless.trans (hsettled.2 hzero).le)
  · exact hinv.closing
  · exact hinv.closed
  · exact hinv.late
  · exact hinv.freed
  · intro hfrees
    obtain ⟨hqueue, husing⟩ := hinv.drained hfrees
    have hworker : worker.uses = false := not_of_countP_zero husing hi
    refine ⟨hqueue, ?_⟩
    exact (countP_set_same hi (huses.trans hworker.symm)).trans husing

theorem Inv.advance (hinv : Inv state) (hi : state.workers[i]? = some worker)
    (hadvance : advance state i worker = some state') : Inv state' := by
  cases worker with
  | status =>
      simp only [TouchTablet.advance] at hadvance
      split at hadvance
      · rw [Option.some.injEq] at hadvance
        exact hadvance ▸ hinv.leave hi rfl (by simp) rfl
      · next hstatus =>
          rw [Option.some.injEq] at hadvance
          have hzero : state.urb.status = 0 := not_not.mp hstatus
          -- Status zero on a closed device: `Settled` excludes it.
          have hopen : state.isOpen = true := by
            by_contra hclosed
            have hnone := (hinv.quiet (by simpa using hclosed)).2.2 hzero
            have hpos := countP_pos (p := fun worker : Worker =>
              decide (worker = .status)) hi rfl
            unfold State.unchecked at hnone
            omega
          subst hadvance
          exact hinv.of_open hopen rfl rfl rfl rfl rfl
  | length =>
      rw [TouchTablet.advance, Option.some.injEq] at hadvance
      subst hadvance
      exact hinv.of_open (hinv.open_of_checked hi rfl) rfl rfl rfl rfl rfl
  | handling actualLength reads =>
      rw [TouchTablet.advance, Option.some.injEq] at hadvance
      subst hadvance
      exact hinv.of_open (hinv.open_of_checked hi rfl) rfl rfl rfl rfl rfl
  | resubmit => exact absurd hadvance (by simp [TouchTablet.advance])
  | free =>
      rw [TouchTablet.advance, Option.some.injEq] at hadvance
      exact hadvance ▸ hinv.leave hi rfl (by simp) rfl
  | returned => exact absurd hadvance (by simp [TouchTablet.advance])

/-- Every step that leaves the work queue no chance to do harm keeps the
invariant. -/
theorem Inv.step (hinv : Inv state)
    (hstep : TouchTablet.step state event = some state')
    (hquiescent : Quiescent state event state') : Inv state' := by
  cases event with
  | tabletOpen autopm submission => exact hinv.tabletOpen hstep
  | tabletClose =>
      simp only [TouchTablet.step, Option.ite_none_right_eq_some,
        Option.some.injEq] at hstep
      obtain ⟨⟨hregistered, hopen, -⟩, rfl⟩ := hstep
      constructor
      · intro hclosed
        exact absurd (hopen.symm.trans hclosed) (by simp)
      · exact fun _ => hopen
      · intro hdisconnect
        exact absurd (hregistered.symm.trans (hinv.closed hdisconnect).1) (by simp)
      · intro hlate
        exact absurd (hregistered.symm.trans (hinv.late hlate).1) (by simp)
      · exact hinv.freed
      · exact hinv.drained
  | closed =>
      simp only [TouchTablet.step, Option.ite_none_right_eq_some,
        Option.some.injEq] at hstep
      obtain ⟨⟨hclosing, hidle⟩, rfl⟩ := hstep
      constructor
      · -- What the work queue does while the device is closed is the condition of the step.
        exact fun _ => ⟨hidle, hquiescent⟩
      · exact fun h => absurd h Bool.false_ne_true
      · intro hdisconnect
        exact absurd (hclosing.symm.trans (hinv.closed hdisconnect).2.2) (by simp)
      · intro hlate
        exact absurd (hclosing.symm.trans (hinv.late hlate).2.2) (by simp)
      · exact hinv.freed
      · exact hinv.drained
  | tabletDisconnect =>
      simp only [TouchTablet.step, Option.ite_none_right_eq_some,
        Option.some.injEq] at hstep
      obtain ⟨hdisconnect, rfl⟩ := hstep
      constructor
      · exact hinv.quiet
      · exact hinv.closing
      · exact fun h => absurd h (by simp)
      · exact fun h => absurd h Bool.false_ne_true
      · have hfreed := hinv.not_freed (by rw [hdisconnect]; rfl)
        exact fun h => absurd (hfreed.symm.trans h) (by simp)
      · exact fun h => absurd h Bool.false_ne_true
  | killed =>
      simp only [TouchTablet.step, Option.ite_none_right_eq_some,
        Option.some.injEq] at hstep
      obtain ⟨⟨hdisconnect, -⟩, rfl⟩ := hstep
      constructor
      · exact hinv.quiet
      · exact hinv.closing
      · exact fun h => absurd h (by simp)
      · exact fun h => absurd h Bool.false_ne_true
      · have hfreed := hinv.not_freed (by rw [hdisconnect]; rfl)
        exact fun h => absurd (hfreed.symm.trans h) (by simp)
      · exact fun h => absurd h Bool.false_ne_true
  | unregister =>
      simp only [TouchTablet.step, Option.ite_none_right_eq_some] at hstep
      obtain ⟨⟨hdisconnect, hclosing⟩, hstep⟩ := hstep
      -- `input_unregister_device` closes a device that is still open.
      have hfreed := hinv.not_freed (by rw [hdisconnect]; rfl)
      have hnotClosing : state.closing = false := by simpa using hclosing
      split at hstep
      · next hopen =>
          rw [Option.some.injEq] at hstep
          subst hstep
          constructor
          · exact hinv.quiet
          · exact hinv.closing
          · exact fun _ => ⟨rfl, hopen, hnotClosing⟩
          · exact fun h => absurd h Bool.false_ne_true
          · exact fun h => absurd (hfreed.symm.trans h) (by simp)
          · exact fun h => absurd h Bool.false_ne_true
      · next hopen =>
          rw [Option.some.injEq] at hstep
          subst hstep
          constructor
          · exact hinv.quiet
          · exact hinv.closing
          · exact fun h => absurd h (by simp)
          · exact fun _ => ⟨rfl, by simpa using hopen, hnotClosing⟩
          · exact fun h => absurd (hfreed.symm.trans h) (by simp)
          · exact fun h => absurd h Bool.false_ne_true
  | disconnectClosed =>
      simp only [TouchTablet.step, Option.ite_none_right_eq_some,
        Option.some.injEq] at hstep
      obtain ⟨⟨hdisconnect, hidle⟩, rfl⟩ := hstep
      obtain ⟨hregistered, -, hclosing⟩ := hinv.closed hdisconnect
      constructor
      · exact fun _ => ⟨hidle, hquiescent⟩
      · exact fun h => absurd (hclosing.symm.trans h) (by simp)
      · exact fun h => absurd h (by simp)
      · exact fun _ => ⟨hregistered, rfl, hclosing⟩
      · have hfreed := hinv.not_freed (by rw [hdisconnect]; rfl)
        exact fun h => absurd (hfreed.symm.trans h) (by simp)
      · exact fun h => absurd h Bool.false_ne_true
  | usbFreeUrb =>
      simp only [TouchTablet.step, Option.ite_none_right_eq_some,
        Option.some.injEq] at hstep
      obtain ⟨hdisconnect, rfl⟩ := hstep
      constructor
      · exact hinv.quiet
      · exact hinv.closing
      · exact fun h => absurd h (by simp)
      · exact fun _ => hinv.late (by rw [hdisconnect]; rfl)
      · exact fun _ => rfl
      · exact fun _ => hquiescent
  | usbFreeCoherent | kfreeTablet =>
      simp only [TouchTablet.step, Option.ite_none_right_eq_some,
        Option.some.injEq] at hstep
      obtain ⟨hdisconnect, rfl⟩ := hstep
      constructor
      · exact hinv.quiet
      · exact hinv.closing
      · exact fun h => absurd h (by simp)
      · exact fun _ => hinv.late (by rw [hdisconnect]; rfl)
      · exact fun _ => rfl
      · exact fun _ => hinv.drained (by rw [hdisconnect]; rfl)
  | dma index byte =>
      simp only [TouchTablet.step, Option.ite_none_right_eq_some,
        Option.some.injEq] at hstep
      obtain ⟨hflight, rfl⟩ := hstep
      have hopen := hinv.open_of_busy fun hidle =>
        absurd (hflight.symm.trans hidle.1) (by simp)
      exact hinv.of_open hopen rfl rfl rfl rfl rfl
  | giveback status actualLength =>
      simp only [TouchTablet.step, Option.ite_none_right_eq_some,
        Option.some.injEq] at hstep
      obtain ⟨hflight, rfl⟩ := hstep
      have hopen := hinv.open_of_busy fun hidle =>
        absurd (hflight.symm.trans hidle.1) (by simp)
      exact hinv.of_open hopen rfl rfl rfl rfl rfl
  | tabletIrq allocated =>
      simp only [TouchTablet.step, Option.ite_none_right_eq_some] at hstep
      obtain ⟨hcompleting, hstep⟩ := hstep
      have hopen := hinv.open_of_busy fun hidle => by
        have hnone := hidle.2
        omega
      split at hstep
      · rw [Option.some.injEq] at hstep
        exact hstep ▸ hinv.of_open hopen rfl rfl rfl rfl rfl
      · rw [Option.some.injEq] at hstep
        exact hstep ▸ hinv.of_open hopen rfl rfl rfl rfl rfl
  | work =>
      simp only [TouchTablet.step, Option.ite_none_right_eq_some,
        Option.some.injEq] at hstep
      obtain ⟨hqueue, rfl⟩ := hstep
      exact hinv.work hqueue
  | advance i =>
      obtain ⟨worker, hi, hadvance⟩ := Option.bind_eq_some_iff.mp hstep
      exact hinv.advance hi hadvance
  | read i index =>
      simp only [TouchTablet.step] at hstep
      split at hstep
      · next actualLength reads hi =>
          rw [Option.some.injEq] at hstep
          subst hstep
          exact hinv.of_open (hinv.open_of_checked hi rfl) rfl rfl rfl rfl rfl
      · exact absurd hstep (by simp)
  | resubmit i submission =>
      simp only [TouchTablet.step, Option.ite_none_right_eq_some,
        Option.map_eq_some_iff] at hstep
      obtain ⟨hi, ⟨urb, submitted⟩, hsubmit, rfl⟩ := hstep
      exact hinv.of_open (hinv.open_of_checked hi rfl) rfl rfl rfl rfl rfl

theorem Inv.initial (data : Data) : Inv (State.initial data) := by
  constructor
  · exact fun _ => ⟨⟨rfl, rfl⟩, rfl, fun _ => rfl⟩
  · exact fun h => absurd h Bool.false_ne_true
  · exact fun h => absurd h (by simp [State.initial])
  · exact fun h => absurd h Bool.false_ne_true
  · exact fun h => absurd h Bool.false_ne_true
  · exact fun h => absurd h Bool.false_ne_true

/-! ## What a step that is not quiescent leads to -/

/-- `usb_kill_urb` is running for `tablet_disconnect`. -/
def Disconnect.kills (disconnect : Disconnect) : Bool :=
  disconnect = .killing || disconnect = .closing

/-- The URB refuses submissions while `usb_kill_urb` runs, and only then. -/
def State.Rejects (state : State) : Prop :=
  state.urb.reject = state.closing.toNat + state.disconnect.kills.toNat

theorem usbSubmitUrb_reject {urb urb' : Urb} {submission : Submission}
    {submitted : Bool}
    (hsubmit : usbSubmitUrb urb submission = some (urb', submitted)) :
    urb'.reject = urb.reject := by
  cases submission with
  | granted =>
      simp only [usbSubmitUrb, Option.ite_none_right_eq_some, Option.some.injEq,
        Prod.mk.injEq] at hsubmit
      exact hsubmit.2.1 ▸ rfl
  | refused =>
      simp only [usbSubmitUrb, Option.some.injEq, Prod.mk.injEq] at hsubmit
      exact hsubmit.1 ▸ rfl
  | refusedLate =>
      simp only [usbSubmitUrb, Option.ite_none_right_eq_some, Option.some.injEq,
        Prod.mk.injEq] at hsubmit
      exact hsubmit.2.1 ▸ rfl

theorem advance_rejects (hrejects : state.Rejects)
    (hadvance : TouchTablet.advance state i worker = some state') :
    state'.Rejects := by
  cases worker with
  | status =>
      simp only [TouchTablet.advance] at hadvance
      split at hadvance
      · rw [Option.some.injEq] at hadvance
        exact hadvance ▸ hrejects
      · rw [Option.some.injEq] at hadvance
        exact hadvance ▸ hrejects
  | length | handling actualLength reads | free =>
      rw [TouchTablet.advance, Option.some.injEq] at hadvance
      exact hadvance ▸ hrejects
  | resubmit | returned => exact absurd hadvance (by simp [TouchTablet.advance])

theorem step_rejects (hrejects : state.Rejects)
    (hstep : step state event = some state') : state'.Rejects := by
  unfold State.Rejects at hrejects
  cases event with
  | tabletOpen autopm submission =>
      simp only [step, Option.ite_none_right_eq_some] at hstep
      obtain ⟨-, hstep⟩ := hstep
      split at hstep
      · obtain ⟨⟨urb, submitted⟩, hsubmit, rfl⟩ := Option.map_eq_some_iff.mp hstep
        exact (usbSubmitUrb_reject hsubmit).trans hrejects
      · rw [Option.some.injEq] at hstep
        exact hstep ▸ hrejects
  | tabletClose =>
      simp only [step, Option.ite_none_right_eq_some, Option.some.injEq] at hstep
      obtain ⟨⟨-, -, hclosing⟩, rfl⟩ := hstep
      -- Each `usb_kill_urb` counts `reject` up when it is called and down when it returns;
      -- here no call for `tablet_close` was running.
      have hzero : state.closing.toNat = 0 := by simpa using hclosing
      change state.urb.reject + 1 = 1 + state.disconnect.kills.toNat
      omega
  | closed =>
      simp only [step, Option.ite_none_right_eq_some, Option.some.injEq] at hstep
      obtain ⟨⟨hclosing, -⟩, rfl⟩ := hstep
      rw [hclosing, Bool.toNat_true] at hrejects
      change state.urb.reject - 1 = 0 + state.disconnect.kills.toNat
      omega
  | tabletDisconnect =>
      simp only [step, Option.ite_none_right_eq_some, Option.some.injEq] at hstep
      obtain ⟨hdisconnect, rfl⟩ := hstep
      rw [hdisconnect] at hrejects
      change state.urb.reject + 1 = state.closing.toNat + 1
      exact congrArg (· + 1) hrejects
  | killed =>
      simp only [step, Option.ite_none_right_eq_some, Option.some.injEq] at hstep
      obtain ⟨⟨hdisconnect, -⟩, rfl⟩ := hstep
      rw [hdisconnect] at hrejects
      change state.urb.reject - 1 = state.closing.toNat + 0
      change state.urb.reject = state.closing.toNat + 1 at hrejects
      omega
  | unregister =>
      simp only [step, Option.ite_none_right_eq_some] at hstep
      obtain ⟨⟨hdisconnect, -⟩, hstep⟩ := hstep
      rw [hdisconnect] at hrejects
      split at hstep
      · rw [Option.some.injEq] at hstep
        subst hstep
        exact congrArg (· + 1) hrejects
      · rw [Option.some.injEq] at hstep
        subst hstep
        exact hrejects
  | disconnectClosed =>
      simp only [step, Option.ite_none_right_eq_some, Option.some.injEq] at hstep
      obtain ⟨⟨hdisconnect, -⟩, rfl⟩ := hstep
      rw [hdisconnect] at hrejects
      change state.urb.reject - 1 = state.closing.toNat + 0
      change state.urb.reject = state.closing.toNat + 1 at hrejects
      omega
  | usbFreeUrb | usbFreeCoherent | kfreeTablet =>
      simp only [step, Option.ite_none_right_eq_some, Option.some.injEq] at hstep
      obtain ⟨hdisconnect, rfl⟩ := hstep
      rw [hdisconnect] at hrejects
      exact hrejects
  | dma index byte | giveback status actualLength | work =>
      simp only [step, Option.ite_none_right_eq_some, Option.some.injEq] at hstep
      obtain ⟨-, rfl⟩ := hstep
      exact hrejects
  | tabletIrq allocated =>
      simp only [step, Option.ite_none_right_eq_some] at hstep
      obtain ⟨-, hstep⟩ := hstep
      split at hstep
      · rw [Option.some.injEq] at hstep
        exact hstep ▸ hrejects
      · rw [Option.some.injEq] at hstep
        exact hstep ▸ hrejects
  | advance i =>
      obtain ⟨worker, -, hadvance⟩ := Option.bind_eq_some_iff.mp hstep
      exact advance_rejects hrejects hadvance
  | read i index =>
      simp only [step] at hstep
      split at hstep
      · rw [Option.some.injEq] at hstep
        exact hstep ▸ hrejects
      · exact absurd hstep (by simp)
  | resubmit i submission =>
      simp only [step, Option.ite_none_right_eq_some,
        Option.map_eq_some_iff] at hstep
      obtain ⟨-, ⟨urb, submitted⟩, hsubmit, rfl⟩ := hstep
      exact (usbSubmitUrb_reject hsubmit).trans hrejects

/-- A run goes on to break the lifetime of the URB or the tablet. -/
def Breaks (state : State) : Prop :=
  ∃ events later, GuardedRun step Quiescent state events later ∧
    ¬ Lifetime later

theorem Breaks.cons (hstep : step state event = some state')
    (hquiescent : Quiescent state event state') (hbreaks : Breaks state') :
    Breaks state := by
  obtain ⟨events, later, hrun, hnot⟩ := hbreaks
  exact ⟨event :: events, later, GuardedRun.cons hstep hquiescent hrun, hnot⟩

/-- The device is not open and nothing keeps the URB from being submitted. -/
structure Exposed (state : State) : Prop where
  isOpen : state.isOpen = false
  inFlight : state.urb.inFlight = false
  reject : state.urb.reject = 0

theorem Exposed.resubmit (hexposed : Exposed state)
    (hi : state.workers[i]? = some .resubmit) : Breaks state := by
  -- Nobody rejects the URB, so the core accepts it, for a device that is closed.
  have hstep : step state (.resubmit i .granted) = some
      { state.set i .free with urb := { state.urb with
        inFlight := true, status := inProgress, actualLength := 0 } } := by
    simp only [step, if_pos hi, usbSubmitUrb, hexposed.inFlight, hexposed.reject,
      and_self, if_true, Option.map_some]
  refine ⟨[.resubmit i .granted], _,
    GuardedRun.cons hstep trivial (GuardedRun.nil _), fun hlifetime => ?_⟩
  exact absurd (hlifetime.not_submitted hexposed.isOpen).symm Bool.false_ne_true

/-- The steps of a `work_irq` whose packet has status zero. -/
theorem Exposed.checked (hexposed : Exposed state)
    (hi : state.workers[i]? = some worker) (hchecked : worker.checked) :
    Breaks state := by
  -- The last two steps are the same from wherever the `work_irq` is.
  have hhandling : ∀ (state : State) (actualLength : Nat)
      (reads : List (Fin usbPacketLen × Byte)), Exposed state →
      state.workers[i]? = some (.handling actualLength reads) →
      Breaks state := by
    intro state actualLength reads hexposed hi
    have hstep : step state (.advance i) =
        some ((state.handle actualLength).set i .resubmit) := by
      simp only [step, hi, Option.bind_some, TouchTablet.advance]
    exact Breaks.cons hstep trivial
      (Exposed.resubmit ⟨hexposed.isOpen, hexposed.inFlight, hexposed.reject⟩
        (set_self hi))
  cases worker with
  | status => exact absurd hchecked Bool.false_ne_true
  | length =>
      have hstep : step state (.advance i) =
          some (state.set i (.handling state.urb.actualLength [])) := by
        simp only [step, hi, Option.bind_some, TouchTablet.advance]
      exact Breaks.cons hstep trivial
        (hhandling _ _ _ ⟨hexposed.isOpen, hexposed.inFlight, hexposed.reject⟩
          (set_self hi))
  | handling actualLength reads => exact hhandling _ _ _ hexposed hi
  | resubmit => exact hexposed.resubmit hi
  | free => exact absurd hchecked Bool.false_ne_true
  | returned => exact absurd hchecked Bool.false_ne_true

theorem Exposed.status (hexposed : Exposed state)
    (hi : state.workers[i]? = some .status) (hzero : state.urb.status = 0) :
    Breaks state := by
  have hstep : step state (.advance i) = some (state.set i .length) := by
    simp only [step, hi, Option.bind_some, TouchTablet.advance, hzero, ne_eq,
      not_true_eq_false, if_false]
  have hnext : (state.set i .length).workers[i]? = some .length := set_self hi
  have hexposed' : Exposed (state.set i .length) :=
    ⟨hexposed.isOpen, hexposed.inFlight, hexposed.reject⟩
  exact Breaks.cons hstep trivial (hexposed'.checked hnext rfl)

/-- A work queue that is not settled submits the URB. -/
theorem Exposed.breaks (hexposed : Exposed state) (hnot : ¬ state.Settled) :
    Breaks state := by
  -- Either a `work_irq` has already seen status zero, or the status is zero and a packet
  -- has not been looked at.
  by_cases hchecked : state.checked = 0
  · have hunsettled : state.urb.status = 0 ∧ state.unchecked ≠ 0 := by
      by_contra hnone
      exact hnot ⟨hchecked, fun hzero => by
        by_contra hpos
        exact hnone ⟨hzero, hpos⟩⟩
    obtain ⟨hzero, hunchecked⟩ := hunsettled
    by_cases hqueue : state.queue = 0
    · have hpos : 0 < state.workers.countP fun worker => worker = .status := by
        unfold State.unchecked at hunchecked
        omega
      obtain ⟨i, worker, hi, hworker⟩ := exists_of_countP hpos
      obtain rfl : worker = .status := by simpa using hworker
      exact hexposed.status hi hzero
    · have hstep : step state .work = some { state with
          queue := state.queue - 1, workers := state.workers ++ [.status] } :=
        if_pos (Nat.pos_of_ne_zero hqueue)
      refine Breaks.cons hstep trivial (Exposed.status (i := state.workers.length)
        ⟨hexposed.isOpen, hexposed.inFlight, hexposed.reject⟩ ?_ hzero)
      simp
  · obtain ⟨i, worker, hi, hworker⟩ :=
      exists_of_countP (Nat.pos_of_ne_zero hchecked)
    exact hexposed.checked hi hworker

/-- Every step that is not quiescent can be followed by steps that break the
lifetime of the URB or the tablet. -/
theorem Inv.breaks (hinv : Inv state) (hrejects : state.Rejects)
    (hstep : TouchTablet.step state event = some state')
    (hnot : ¬ Quiescent state event state') : Breaks state' := by
  unfold State.Rejects at hrejects
  unfold Quiescent at hnot
  -- Only the returns of `usb_kill_urb` and `usb_free_urb` have a condition.
  split at hnot
  · simp only [TouchTablet.step, Option.ite_none_right_eq_some,
      Option.some.injEq] at hstep
    obtain ⟨⟨hclosing, hidle⟩, rfl⟩ := hstep
    rw [hclosing, Bool.toNat_true] at hrejects
    have hnotClosing : state.disconnect ≠ .closing := fun hdisconnect =>
      absurd (hclosing.symm.trans (hinv.closed hdisconnect).2.2) (by simp)
    by_cases hkilling : state.disconnect = .killing
    · -- `tablet_disconnect` still refuses submissions: its call returns first.
      rw [hkilling] at hrejects
      change state.urb.reject = 1 + 1 at hrejects
      have hkilled : TouchTablet.step { state with
          urb := state.urb.endKill, isOpen := false, closing := false } .killed =
            some { state with
              urb := state.urb.endKill.endKill, isOpen := false
              closing := false, disconnect := .unregistering } :=
        if_pos ⟨hkilling, hidle⟩
      apply Breaks.cons hkilled trivial
      refine Exposed.breaks ⟨?_, ?_, ?_⟩ ?_
      · rfl
      · exact hidle.1
      · change state.urb.reject - 1 - 1 = 0
        omega
      · exact hnot
    · have hkills : state.disconnect.kills = false := by
        simp [Disconnect.kills, hkilling, hnotClosing]
      rw [hkills, Bool.toNat_false] at hrejects
      refine Exposed.breaks ⟨?_, ?_, ?_⟩ ?_
      · rfl
      · exact hidle.1
      · change state.urb.reject - 1 = 0
        omega
      · exact hnot
  · simp only [TouchTablet.step, Option.ite_none_right_eq_some,
      Option.some.injEq] at hstep
    obtain ⟨⟨hdisconnect, hidle⟩, rfl⟩ := hstep
    obtain ⟨-, -, hclosing⟩ := hinv.closed hdisconnect
    rw [hclosing, hdisconnect] at hrejects
    change state.urb.reject = 0 + 1 at hrejects
    refine Exposed.breaks ⟨?_, ?_, ?_⟩ ?_
    · rfl
    · exact hidle.1
    · change state.urb.reject - 1 = 0
      omega
    · exact hnot
  · simp only [TouchTablet.step, Option.ite_none_right_eq_some,
      Option.some.injEq] at hstep
    obtain ⟨-, rfl⟩ := hstep
    -- A packet in the queue gets a thread after the URB has been freed.
    by_cases husing : state.using = 0
    · have hqueue : 0 < state.queue := by
        by_contra hzero
        exact hnot ⟨Nat.eq_zero_of_not_pos hzero, husing⟩
      refine ⟨[.work], _, GuardedRun.cons (if_pos hqueue) trivial
        (GuardedRun.nil _), fun hlifetime => ?_⟩
      have hnone := hlifetime.no_use rfl
      simp only [State.using, List.countP_append] at hnone
      change _ + 1 = 0 at hnone
      omega
    · exact ⟨[], _, GuardedRun.nil _, fun hlifetime =>
        husing (hlifetime.no_use rfl)⟩
  · exact absurd trivial hnot

/-! ## Runs -/

/-- Runs in which the work queue is quiescent when `tablet_close` returns and
when `tablet_disconnect` frees the URB respect the lifetime of the URB and the
tablet; and a run that takes another step can go on to break it. -/
theorem lifetime_of_quiescent {data : Data} {events : List Event}
    (hrun : GuardedRun step Quiescent (State.initial data) events state) :
    Lifetime state ∧ ∀ event state', step state event = some state' →
      ¬ Quiescent state event state' → Breaks state' := by
  have hkeep : ∀ state event state', Inv state ∧ state.Rejects →
      step state event = some state' → Quiescent state event state' →
      Inv state' ∧ state'.Rejects :=
    fun _ _ _ hboth hstep hquiescent =>
      ⟨hboth.1.step hstep hquiescent, step_rejects hboth.2 hstep⟩
  have hboth := hrun.invariant hkeep ⟨Inv.initial data, rfl⟩
  refine ⟨hboth.1.lifetime, fun event state' hstep hnot => ?_⟩
  exact hboth.1.breaks hboth.2 hstep hnot

/-- A packet is handled and its URB submitted again; the device is closed, which
cancels the URB, and disconnected after the work queue has seen the cancelled URB. -/
def handledThenGone : List Event :=
  [.tabletOpen true .granted, .dma 0 2, .giveback 0 20, .tabletIrq true, .work, .advance 0,
    .advance 0, .read 0 0, .advance 0, .resubmit 0 .granted, .advance 0, .tabletClose,
    .giveback (-2) 0, .tabletIrq true, .closed, .tabletDisconnect, .killed, .work,
    .advance 1, .advance 1, .unregister, .usbFreeUrb, .usbFreeCoherent, .kfreeTablet]

theorem lifetime_of_quiescent_sample :
    ∃ state, GuardedRun step Quiescent (State.initial (Vector.replicate usbPacketLen 0))
        handledThenGone state ∧
      state.tabletFreed = true ∧ state.handled.length = 1 ∧ Lifetime state := by
  have hsome : ((run (fun state event =>
      (step state event).filter fun next => Quiescent state event next)
        (State.initial (Vector.replicate usbPacketLen 0)) handledThenGone).map
          fun state => (state.tabletFreed, state.handled.length)) = some (true, 1) := by
    decide +kernel
  obtain ⟨state, hrun, hstate⟩ := Option.map_eq_some_iff.mp hsome
  rw [Prod.mk.injEq] at hstate
  have hguarded := GuardedRun.of_checked hrun
  exact ⟨state, hguarded, hstate.1, hstate.2, (lifetime_of_quiescent hguarded).1⟩

/-- A packet that is in the work queue when the device is disconnected is handled
on a freed URB; one that is there when it is closed submits the URB again. -/
theorem work_outlives :
    ¬ (∀ (data : Data) (events : List Event) (state : State),
        run step (State.initial data) events = some state →
          state.freed = true → state.using = 0) ∧
      ¬ (∀ (data : Data) (events : List Event) (state : State),
        run step (State.initial data) events = some state →
          state.isOpen = false → state.urb.inFlight = false) := by
  constructor
  · intro hall
    have hrun : ∃ state, run step (State.initial (Vector.replicate usbPacketLen 0))
        [.tabletOpen true .granted, .giveback 0 9, .tabletIrq true,
          .tabletDisconnect, .killed, .unregister, .disconnectClosed,
          .usbFreeUrb, .work] = some state ∧ state.freed = true ∧
            state.using = 1 := ⟨_, rfl, rfl, rfl⟩
    obtain ⟨state, hrun, hfreed, husing⟩ := hrun
    have hnone := hall _ _ state hrun hfreed
    omega
  · intro hall
    have hrun : ∃ state, run step (State.initial (Vector.replicate usbPacketLen 0))
        [.tabletOpen true .granted, .giveback 0 9, .tabletIrq true, .tabletClose,
          .closed, .work, .advance 0, .advance 0, .advance 0,
          .resubmit 0 .granted] = some state ∧ state.isOpen = false ∧
            state.urb.inFlight = true := ⟨_, rfl, rfl, rfl⟩
    obtain ⟨state, hrun, hclosed, hflight⟩ := hrun
    exact absurd (hflight.symm.trans (hall _ _ state hrun hclosed)) (by simp)

end TouchTablet
end TabletDriver
end OsStuff
