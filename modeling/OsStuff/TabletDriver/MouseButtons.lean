import OsStuff.Library.Run
import OsStuff.TabletDriver.PointerMotion

/-!
# Mouse buttons

`button_handler` keeps a latch for every button and reports a change of the
latch only.  `one_finger_handler` reports the middle button by the pressure of
the finger and does not touch the latch.  The two agree on the middle button
unless a packet of one kind follows the other at the wrong moment.
-/

namespace OsStuff
namespace TabletDriver

open Library

/-- The buttons that `irq_touch` reports. -/
def mouseKeys : List Key := [.left, .right, .middle, .back, .forward]

/-- The latch of a button. -/
def Latches.held (latches : Latches) : Key → Bool
  | .left => latches.lmb
  | .right => latches.rmb
  | .middle => latches.cmb
  | .back => latches.bmb
  | .forward => latches.fmb
  | .touch => false
  | .stylus => false
  | .stylus2 => false

/-- The last value reported for a key, if any. -/
def lastKey (code : Key) : List Report → Option Int
  | [] => none
  | .key c value :: reports =>
      (lastKey code reports).or (if c = code then some value else none)
  | .rel _ _ :: reports => lastKey code reports
  | .abs _ _ :: reports => lastKey code reports
  | .sync :: reports => lastKey code reports

/-- The static variables, and the value last reported for each key. -/
structure Mouse where
  history : History
  keys : Key → Int

/-- Nothing pressed. -/
def Mouse.initial : Mouse := ⟨.initial, fun _ => 0⟩

/-- The next packet. -/
def Mouse.step (mouse : Mouse) (data : Data) : Option Mouse :=
  let (history, reports) := mouse.history.touch data
  some ⟨history, fun key => (lastKey key reports).getD (mouse.keys key)⟩

/-- A packet with exactly one contact. -/
def OneFinger (data : Data) : Prop :=
  getElem data 0 index_zero = 2 ∧ (Touched data 0 ↔ ¬ Touched data dataTouchOffset)

/-- The contact presses hard. -/
def PressedHard (data : Data) : Prop :=
  getElem data 2 index_two &&& 0b11110000 = 0b11110000

/-- The button byte is that of no button. -/
def NoButton (data : Data) : Prop :=
  getElem data 1 index_one = 0b00000000

/-- The button byte is that of the middle button. -/
def MiddleButton (data : Data) : Prop :=
  getElem data 1 index_one = 0b00000011

instance (data : Data) : Decidable (NoButton data) :=
  inferInstanceAs (Decidable (_ = _))

instance (data : Data) : Decidable (MiddleButton data) :=
  inferInstanceAs (Decidable (_ = _))

instance (data : Data) : Decidable (OneFinger data) :=
  inferInstanceAs (Decidable (_ ∧ _))

instance (data : Data) : Decidable (PressedHard data) :=
  inferInstanceAs (Decidable (_ = _))

/-- The values last reported are those that the driver believes in. -/
def ButtonsAgree (data : Data) (mouse : Mouse) : Prop :=
  ∀ key ∈ mouseKeys, mouse.keys key = 1 ↔
    mouse.history.latches.held key = true ∨
      key = .middle ∧ OneFinger data ∧ PressedHard data

/-- The two handlers do not contradict each other.  With one contact, a latch
that is set needs a hard press exactly when the button byte does not release it.
Otherwise the middle button is reported as the latch has it, or is reported now
by `button_handler`. -/
def MiddleSettled (mouse : Mouse) (data : Data) : Prop :=
  if OneFinger data then
    mouse.history.latches.cmb = true → (PressedHard data ↔ ¬ NoButton data)
  else
    (mouse.keys .middle = 1 ↔ mouse.history.latches.cmb = true) ∨
      getElem data 0 index_zero = 2 ∧
        (NoButton data ∧ mouse.history.latches.cmb = true ∨
          MiddleButton data ∧ mouse.history.latches.cmb = false)

instance (mouse : Mouse) (data : Data) : Decidable (MiddleSettled mouse data) :=
  inferInstanceAs (Decidable (if OneFinger data then
      mouse.history.latches.cmb = true → (PressedHard data ↔ ¬ NoButton data)
    else
      (mouse.keys .middle = 1 ↔ mouse.history.latches.cmb = true) ∨ _))

variable {mouse mouse' : Mouse} {data : Data} {latches : Latches} {key : Key}
  {reports reports' : List Report}

/-! ## Reports of a packet -/

theorem lastKey_append : lastKey key (reports ++ reports') =
    (lastKey key reports').or (lastKey key reports) := by
  induction reports with
  | nil => simp [lastKey]
  | cons report reports ih =>
      cases report with
      | key c value => simp only [List.cons_append, lastKey, ih, Option.or_assoc]
      | rel c value => simpa only [List.cons_append, lastKey] using ih
      | abs c value => simpa only [List.cons_append, lastKey] using ih
      | sync => simpa only [List.cons_append, lastKey] using ih

/-- What is reported for a key follows its latch. -/
def Follows (key : Key) (before after : Latches) (reports : List Report) : Prop :=
  lastKey key reports = none ∧ after.held key = before.held key ∨
    lastKey key reports = some (if after.held key then 1 else 0)

instance (key : Key) (before after : Latches) (reports : List Report) :
    Decidable (Follows key before after reports) :=
  inferInstanceAs (Decidable (_ ∧ _ ∨ _))

/-- A packet with the given button byte. -/
def buttonPacket (button : Byte) : Data :=
  #v[2, button, 0, 0, 0, 0, 0, 0, 0, 0, 0, 0, 0, 0, 0, 0, 0, 0, 0, 0]

/-- What `button_handler` does to the middle button. -/
def MiddleHandled (latches : Latches) (data : Data) : Prop :=
  lastKey .middle (buttonHandler latches data).2 =
      (if NoButton data ∧ latches.cmb = true then some 0
        else if MiddleButton data ∧ latches.cmb = false then some 1 else none) ∧
    (buttonHandler latches data).1.cmb =
      if NoButton data then false
      else if MiddleButton data then true else latches.cmb

instance (latches : Latches) (data : Data) :
    Decidable (MiddleHandled latches data) :=
  inferInstanceAs (Decidable (_ ∧ _))

/-- The bytes that `button_handler` reacts to, with all latches. -/
theorem buttonHandler_table : ∀ button ∈ buttonBytes,
    ∀ lmb rmb cmb bmb fmb : Bool,
      (∀ key ∈ mouseKeys, Follows key ⟨lmb, rmb, cmb, bmb, fmb⟩
        (buttonHandler ⟨lmb, rmb, cmb, bmb, fmb⟩ (buttonPacket button)).1
        (buttonHandler ⟨lmb, rmb, cmb, bmb, fmb⟩ (buttonPacket button)).2) ∧
      MiddleHandled ⟨lmb, rmb, cmb, bmb, fmb⟩ (buttonPacket button) := by
  decide +kernel

/-- `button_handler` reports every button as its latch. -/
theorem buttonHandler_follows (latches : Latches) (data : Data) :
    (∀ key ∈ mouseKeys, Follows key latches (buttonHandler latches data).1
        (buttonHandler latches data).2) ∧
      MiddleHandled latches data := by
  by_cases hdata : data[1] ∈ buttonBytes
  · obtain ⟨lmb, rmb, cmb, bmb, fmb⟩ := latches
    have hsame : buttonHandler ⟨lmb, rmb, cmb, bmb, fmb⟩ data =
        buttonHandler ⟨lmb, rmb, cmb, bmb, fmb⟩ (buttonPacket data[1]) :=
      buttonHandler_congr rfl _
    have htable := buttonHandler_table data[1] hdata lmb rmb cmb bmb fmb
    unfold MiddleHandled at htable ⊢
    rw [hsame]
    exact htable
  · have hnothing : buttonHandler latches data = (latches, []) :=
      buttonHandler_of_not_mem hdata
    have hzero : ¬ NoButton data := fun h : data[1] = 0 =>
      hdata (by rw [h]; decide)
    have hthree : ¬ MiddleButton data := fun h : data[1] = 3 =>
      hdata (by rw [h]; decide)
    unfold MiddleHandled
    rw [hnothing, if_neg hzero, if_neg hthree, if_neg fun h => hzero h.1,
      if_neg fun h => hthree h.1]
    exact ⟨fun key _ => Or.inl ⟨rfl, rfl⟩, rfl, rfl⟩

theorem lastKey_scroll (prevF1 prevF2 curF1 curF2 : MtInfo) :
    lastKey key (scroll prevF1 prevF2 curF1 curF2) = none := by
  unfold scroll
  dsimp only
  split_ifs <;> rfl

/-- The contacts are reported for the middle button only, and only when there is
one. -/
theorem lastKey_moved (hdata : data[0] = 2) (prev : List MtInfo) :
    lastKey key (moved data prev) =
      if key = .middle ∧ OneFinger data then
        some (if PressedHard data then 1 else 0)
      else none := by
  have hone : lastKey key (oneFingerHandler data (contacts data) prev 2).2 =
      if key = .middle then some (if PressedHard data then 1 else 0) else none := by
    simp [oneFingerHandler, lastKey, PressedHard, eq_comm]
  have htwo : lastKey key (twoFingersHandler (contacts data) prev 2).2 = none := by
    unfold twoFingersHandler
    split
    · rfl
    · exact lastKey_scroll _ _ _ _
  unfold moved OneFinger
  by_cases hfirst : Touched data 0
  · by_cases hsecond : Touched data dataTouchOffset
    · simp [hfirst, hsecond, htwo]
    · simp [hfirst, hsecond, hone, hdata]
  · by_cases hsecond : Touched data dataTouchOffset
    · simp [hfirst, hsecond, hone, hdata]
    · simp [hfirst, hsecond, lastKey]

/-! ## Steps -/

/-- The state after a touch packet. -/
theorem Mouse.step_touch (hvalid : mouse.history.Valid) (hdata : data[0] = 2) :
    mouse.step data = some
      ⟨mouse.history.after data, fun key =>
        ((lastKey key (buttonHandler mouse.history.latches data).2).or
          (if key = .middle ∧ OneFinger data then
            some (if PressedHard data then 1 else 0)
          else none)).getD (mouse.keys key)⟩ := by
  unfold Mouse.step
  rw [History.touch_eq hvalid hdata]
  simp only [lastKey_append, lastKey_moved hdata]

/-- Other packets change and report nothing. -/
theorem Mouse.step_of_ne (hdata : data[0] ≠ 2) : mouse.step data = some mouse := by
  have htouch : mouse.history.touch data = (mouse.history, []) := by
    unfold History.touch
    rw [irqTouch_of_ne hdata]
  unfold Mouse.step
  rw [htouch]
  rfl

/-- All buttons but the middle one are always reported as their latches. -/
structure Mouse.Settled (mouse : Mouse) : Prop where
  valid : mouse.history.Valid
  others : ∀ key ∈ mouseKeys, key ≠ .middle →
    (mouse.keys key = 1 ↔ mouse.history.latches.held key = true)

theorem Mouse.settled_initial : Mouse.initial.Settled :=
  ⟨History.valid_initial, by decide⟩

theorem Mouse.Settled.step (hsettled : mouse.Settled)
    (hstep : mouse.step data = some mouse') : mouse'.Settled := by
  by_cases hdata : data[0] = 2
  · rw [Mouse.step_touch hsettled.valid hdata, Option.some.injEq] at hstep
    subst hstep
    refine ⟨mouse.history.valid_after data, fun key hkey hne => ?_⟩
    have hfollows := (buttonHandler_follows mouse.history.latches data).1 key hkey
    have hothers := hsettled.others key hkey hne
    have hcontacts : ¬ (key = .middle ∧ OneFinger data) := fun h => hne h.1
    simp only [if_neg hcontacts, Option.or_none]
    change _ ↔ (buttonHandler mouse.history.latches data).1.held key = true
    rcases hfollows with ⟨hnone, hsame⟩ | hsome
    · rw [hnone, Option.getD_none, hothers, hsame]
    · rw [hsome, Option.getD_some]
      split_ifs with hheld
      · simp [hheld]
      · simp [hheld]
  · rw [Mouse.step_of_ne hdata, Option.some.injEq] at hstep
    exact hstep ▸ hsettled

/-- Only the middle button can be reported wrongly. -/
theorem buttonsAgree_iff (hsettled : mouse.Settled) :
    ButtonsAgree data mouse ↔ (mouse.keys .middle = 1 ↔
      mouse.history.latches.cmb = true ∨ OneFinger data ∧ PressedHard data) := by
  constructor
  · intro hagree
    have hmiddle := hagree .middle (by decide)
    rw [hmiddle]
    simp [Latches.held]
  · intro hmiddle key hkey
    by_cases hne : key = .middle
    · subst hne
      rw [hmiddle]
      simp [Latches.held]
    · rw [hsettled.others key hkey hne]
      simp [hne]

/-- After a packet the buttons agree exactly when the handlers did not contradict
each other. -/
theorem middleSettled_iff (hsettled : mouse.Settled)
    (hstep : mouse.step data = some mouse') :
    MiddleSettled mouse data ↔ ButtonsAgree data mouse' := by
  rw [buttonsAgree_iff (hsettled.step hstep)]
  by_cases hdata : data[0] = 2
  · obtain ⟨hlast, hlatch⟩ :=
      (buttonHandler_follows mouse.history.latches data).2
    rw [Mouse.step_touch hsettled.valid hdata, Option.some.injEq] at hstep
    subst hstep
    unfold MiddleSettled
    simp only [History.after, hlast, hlatch, true_and]
    have hdistinct : NoButton data → ¬ MiddleButton data :=
      fun (hzero : data[1] = 0) (hthree : data[1] = 3) =>
        absurd (hzero.symm.trans hthree) (by decide)
    -- The latch only changes with a button byte that the handler knows.
    by_cases hzero : NoButton data
    · have hthree := hdistinct hzero
      cases hcmb : mouse.history.latches.cmb with
      | false =>
          by_cases hone : OneFinger data
          · by_cases hhard : PressedHard data <;> simp [hone, hhard, hzero, hthree]
          · simp [hone, hzero, hthree]
      | true => simp [hzero, hdata]
    · by_cases hthree : MiddleButton data
      · cases hcmb : mouse.history.latches.cmb with
        | false =>
            by_cases hone : OneFinger data
            · by_cases hhard : PressedHard data <;> simp [hone, hhard, hzero, hthree]
            · simp [hone, hzero, hthree, hdata]
        | true =>
            by_cases hone : OneFinger data
            · by_cases hhard : PressedHard data <;> simp [hone, hhard, hzero, hthree]
            · simp [hone, hzero, hthree]
      · by_cases hone : OneFinger data
        · by_cases hhard : PressedHard data <;> simp [hone, hhard, hzero, hthree]
        · simp [hone, hzero, hthree]
  · have hone : ¬ OneFinger data := fun h => hdata h.1
    rw [Mouse.step_of_ne hdata, Option.some.injEq] at hstep
    subst hstep
    unfold MiddleSettled
    rw [if_neg hone]
    simp only [hone, false_and, or_false]
    exact or_iff_left fun h => hdata h.1

/-! ## Runs -/

/-- After every packet of a run the values last reported are those that the
driver believes in, exactly when no packet of the run makes the two handlers
contradict each other on the middle button. -/
theorem buttons_agree_iff (packets : List Data) (mouse : Mouse) :
    GuardedRun Mouse.step (fun before data _ => MiddleSettled before data)
        Mouse.initial packets mouse ↔
      GuardedRun Mouse.step (fun _ data after => ButtonsAgree data after)
        Mouse.initial packets mouse :=
  GuardedRun.iff_of_invariant
    (fun _ _ _ hsettled hstep _ => Mouse.Settled.step hsettled hstep)
    (fun _ _ _ hsettled hstep => middleSettled_iff hsettled hstep)
    Mouse.settled_initial

/-- A contact that presses hard. -/
def hardPacket : Data :=
  #v[2, 0, 0xf0, 0x80, 5, 0, 7, 0, 0, 0, 0, 0, 0, 0, 0, 0, 0, 0, 0, 0]

theorem stuckMouse_run :
    (run Mouse.step Mouse.initial [hardPacket, liftedPacket]).isSome = true := by
  decide +kernel

def stuckMouse : Mouse := Option.get _ stuckMouse_run

/-- When the finger is lifted after a hard press, the middle button stays
pressed although no latch is set. -/
theorem lifted_finger_keeps_middle :
    run Mouse.step Mouse.initial [hardPacket, liftedPacket] = some stuckMouse ∧
      NoContact liftedPacket ∧ NoButton liftedPacket ∧
      stuckMouse.keys .middle = 1 ∧ stuckMouse.history.latches = .released ∧
      ¬ ButtonsAgree liftedPacket stuckMouse := by
  have hkey : stuckMouse.keys .middle = 1 := by decide +kernel
  have hlatches : stuckMouse.history.latches = .released := by decide +kernel
  have hone : ¬ OneFinger liftedPacket := by decide +kernel
  refine ⟨(Option.some_get stuckMouse_run).symm, noContact_liftedPacket,
    by decide +kernel, hkey, hlatches, fun hagree => ?_⟩
  rcases (hagree .middle (by decide)).mp hkey with hheld | ⟨-, hfinger, -⟩
  · rw [hlatches] at hheld
    exact absurd hheld (by decide)
  · exact hone hfinger

end TabletDriver
end OsStuff
