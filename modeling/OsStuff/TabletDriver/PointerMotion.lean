import OsStuff.TabletDriver.TouchHistory

/-!
# Relative motion

`mt_info_rel_x` and `mt_info_rel_y` answer `-1` when one of the contacts is
absent, and `one_finger_handler` reports the answer as a displacement.  So the
first packet of a stroke moves the pointer by `-1` on both axes, and the sum of
all reports falls short of the displacement of the finger by as much.
-/

namespace OsStuff
namespace TabletDriver

/-- `irq_touch` for a packet of a tablet that has been probed. -/
def History.touch (history : History) (data : Data) : History × List Report :=
  (irqTouch history (.probed data)).2

/-- Packets one after another. -/
def History.touchAll (history : History) : List Data → History × List Report
  | [] => (history, [])
  | data :: rest =>
      let (history, reports) := history.touch data
      let (history, later) := history.touchAll rest
      (history, reports ++ later)

/-- The sum of the values reported for a relative axis. -/
def motion (code : Rel) : List Report → Int
  | [] => 0
  | .rel c value :: reports =>
      (if c = code then value else 0) + motion code reports
  | .key _ _ :: reports => motion code reports
  | .abs _ _ :: reports => motion code reports
  | .sync :: reports => motion code reports

/-- A touch packet without a contact. -/
def NoContact (data : Data) : Prop :=
  getElem data 0 index_zero = 2 ∧ ¬ Touched data 0 ∧ ¬ Touched data dataTouchOffset

/-- A touch packet with a contact in the first slot only. -/
def OnlyFirst (data : Data) : Prop :=
  getElem data 0 index_zero = 2 ∧ Touched data 0 ∧ ¬ Touched data dataTouchOffset

/-- A touch packet with a contact in the second slot only. -/
def OnlySecond (data : Data) : Prop :=
  getElem data 0 index_zero = 2 ∧ ¬ Touched data 0 ∧ Touched data dataTouchOffset

instance (data : Data) : Decidable (NoContact data) :=
  inferInstanceAs (Decidable (_ ∧ _ ∧ _))

instance (data : Data) : Decidable (OnlyFirst data) :=
  inferInstanceAs (Decidable (_ ∧ _ ∧ _))

instance (data : Data) : Decidable (OnlySecond data) :=
  inferInstanceAs (Decidable (_ ∧ _ ∧ _))

/-- The first contact of a packet on an axis. -/
def coordinate (code : Rel) (data : Data) : Int :=
  match code with
  | .x => (parseTouch data 0).x
  | .y => (parseTouch data 0).y
  | .wheel => 0
  | .hwheel => 0

variable {history : History} {data : Data} {code : Rel}
  {reports reports' : List Report}

/-! ## Sums of reports -/

@[simp] theorem motion_append :
    motion code (reports ++ reports') =
      motion code reports + motion code reports' := by
  induction reports with
  | nil => simp [motion]
  | cons report reports ih =>
      cases report with
      | rel c value => simp only [List.cons_append, motion, ih, add_assoc]
      | key c value => simpa only [List.cons_append, motion] using ih
      | abs c value => simpa only [List.cons_append, motion] using ih
      | sync => simpa only [List.cons_append, motion] using ih

theorem motion_unclick (held : Bool) (key : Key) :
    motion code (unclick held key) = 0 := by
  cases held with
  | false => rfl
  | true => rfl

/-- The buttons do not move the pointer. -/
theorem motion_buttonHandler (latches : Latches) (data : Data) :
    motion code (buttonHandler latches data).2 = 0 := by
  unfold buttonHandler
  dsimp only
  split_ifs <;> simp [motion, motion_unclick]

/-! ## One packet -/

theorem History.touch_eq (hvalid : history.Valid) (hdata : data[0] = 2) :
    history.touch data =
      (history.after data,
        moved data history.mtInfo ++ (buttonHandler history.latches data).2) := by
  unfold History.touch
  rw [irqTouch_eq hvalid rfl hdata]
  rfl

theorem History.touch_valid (history : History) (hvalid : history.Valid) (data : Data) :
    (history.touch data).1.Valid :=
  irqTouch_valid hvalid rfl

theorem History.touchAll_valid (hvalid : history.Valid) (packets : List Data) :
    (history.touchAll packets).1.Valid := by
  induction packets generalizing history with
  | nil => exact hvalid
  | cons data rest ih => exact ih (history.touch_valid hvalid data)

/-- The displacement reported for an axis. -/
def relative (code : Rel) (prev cur : MtInfo) : Int :=
  match code with
  | .x => mtInfoRelX prev cur
  | .y => mtInfoRelY prev cur
  | .wheel => 0
  | .hwheel => 0

theorem motion_oneFingerHandler (data : Data) (cur prev : List MtInfo) :
    motion code (oneFingerHandler data cur prev 2).2 =
      touchSensitivity * relative code prev[0]! cur[0]! := by
  cases code with
  | x => simp [oneFingerHandler, motion, relative, mul_comm]
  | y => simp [oneFingerHandler, motion, relative, mul_comm]
  | wheel => simp [oneFingerHandler, motion, relative]
  | hwheel => simp [oneFingerHandler, motion, relative]

/-- A packet without a contact moves nothing. -/
theorem motion_noContact (hvalid : history.Valid) (hdata : NoContact data) :
    motion code (history.touch data).2 = 0 := by
  obtain ⟨htouch, hfirst, hsecond⟩ := hdata
  rw [History.touch_eq hvalid htouch]
  unfold moved
  rw [if_neg hfirst, if_neg hsecond, List.nil_append, motion_buttonHandler]

/-- The motion of a packet with one contact is taken from the first slot. -/
theorem motion_one (code : Rel) (hvalid : history.Valid) (hdata : data[0] = 2)
    (hone : Touched data 0 ↔ ¬ Touched data dataTouchOffset) :
    motion code (history.touch data).2 =
      touchSensitivity *
        relative code history.mtInfo[0]! (parseTouch data 0) := by
  have hmoved : moved data history.mtInfo =
      (oneFingerHandler data (contacts data) history.mtInfo 2).2 := by
    unfold moved
    -- In either slot one contact is handed to the handler of one finger, which looks at the
    -- first slot.
    by_cases hfirst : Touched data 0
    · rw [if_pos hfirst, if_neg (hone.mp hfirst)]
    · rw [if_neg hfirst, if_pos (not_not.mp fun h => hfirst (hone.mpr h))]
  rw [History.touch_eq hvalid hdata, hmoved, motion_append,
    motion_oneFingerHandler, motion_buttonHandler, add_zero]
  rfl

/-- Between two contacts the motion is the difference of their coordinates. -/
theorem relative_touched {prev : Data} (hprev : Touched prev 0)
    (hdata : Touched data 0) :
    relative code (parseTouch prev 0) (parseTouch data 0) =
      coordinate code data - coordinate code prev := by
  have hbounds := parseTouch_of_touched hprev
  have hbounds' := parseTouch_of_touched hdata
  cases code with
  | x =>
      have habsent : ¬ ((parseTouch prev 0).x = -1 ∨ (parseTouch data 0).x = -1) := by
        omega
      exact if_neg habsent
  | y =>
      have habsent : ¬ ((parseTouch prev 0).y = -1 ∨ (parseTouch data 0).y = -1) := by
        omega
      exact if_neg habsent
  | wheel => rfl
  | hwheel => rfl

/-- An absent contact counts as a displacement by `-1`. -/
theorem relative_absent {prev cur : MtInfo} (habsent : prev = .none ∨ cur = .none)
    (hcode : code = .x ∨ code = .y) : relative code prev cur = -1 := by
  rcases hcode with rfl | rfl
  · refine if_pos ?_
    rcases habsent with rfl | rfl
    · exact Or.inl rfl
    · exact Or.inr rfl
  · refine if_pos ?_
    rcases habsent with rfl | rfl
    · exact Or.inl rfl
    · exact Or.inr rfl

/-! ## Strokes -/

/-- While the finger stays on the tablet the motions add up. -/
theorem motion_touchAll {prev : Data} (code : Rel) (hvalid : history.Valid)
    (hprev : Touched prev 0) (hmtInfo : history.mtInfo = contacts prev)
    (packets : List Data) (hpackets : ∀ data ∈ packets, OnlyFirst data) :
    motion code (history.touchAll packets).2 = touchSensitivity *
      (coordinate code ((prev :: packets).getLast (List.cons_ne_nil _ _)) -
        coordinate code prev) := by
  induction packets generalizing history prev with
  | nil => simp [History.touchAll, motion]
  | cons data rest ih =>
      -- The sum telescopes: the next packet moves from where this one was.
      obtain ⟨hdata, hfirst, hsecond⟩ := hpackets data List.mem_cons_self
      have hafter := History.touch_eq hvalid hdata
      have hrest := ih
        (history.touch_valid hvalid data) hfirst (by rw [hafter]; rfl)
        fun d hd => hpackets d (List.mem_cons_of_mem _ hd)
      have hmoved := motion_one code hvalid hdata
        (iff_of_true hfirst hsecond)
      rw [hmtInfo, show (contacts prev)[0]! = parseTouch prev 0 from rfl,
        relative_touched hprev hfirst] at hmoved
      have hlast : (prev :: data :: rest).getLast (List.cons_ne_nil _ _) =
          (data :: rest).getLast (List.cons_ne_nil _ _) :=
        List.getLast_cons (List.cons_ne_nil _ _)
      change motion code ((history.touch data).2 ++
        ((history.touch data).1.touchAll rest).2) = _
      rw [motion_append, hmoved, hrest, hlast]
      ring

theorem motion_noContacts (code : Rel) (hvalid : history.Valid) (packets : List Data)
    (hpackets : ∀ data ∈ packets, NoContact data) :
    motion code (history.touchAll packets).2 = 0 := by
  induction packets generalizing history with
  | nil => rfl
  | cons data rest ih =>
      have hdata := hpackets data List.mem_cons_self
      change motion code ((history.touch data).2 ++
        ((history.touch data).1.touchAll rest).2) = 0
      rw [motion_append, motion_noContact hvalid hdata,
        ih (history.touch_valid hvalid data) fun d hd =>
          hpackets d (List.mem_cons_of_mem _ hd), add_zero]

theorem touchAll_append (history : History) (front back : List Data) :
    history.touchAll (front ++ back) =
      (((history.touchAll front).1.touchAll back).1,
        (history.touchAll front).2 ++
          ((history.touchAll front).1.touchAll back).2) := by
  induction front generalizing history with
  | nil => rfl
  | cons data rest ih =>
      simp only [List.cons_append, History.touchAll, ih, List.append_assoc]

/-- The packets of one stroke: none of them touches before or after. -/
structure Stroke (start : Data) (moves lifted : List Data) : Prop where
  start : NoContact start
  nonempty : moves ≠ []
  moves : ∀ data ∈ moves, OnlyFirst data
  lifted : ∀ data ∈ lifted, NoContact data

/-- A stroke falls short of the displacement of the finger by one. -/
theorem motion_stroke {start : Data} {moves lifted : List Data}
    (hvalid : history.Valid) (hstroke : Stroke start moves lifted)
    (hcode : code = .x ∨ code = .y) :
    motion code (history.touchAll (start :: moves ++ lifted)).2 =
      touchSensitivity * (coordinate code (moves.getLast hstroke.nonempty) -
        coordinate code (moves.head hstroke.nonempty)) - touchSensitivity := by
  obtain ⟨hstart, hnonempty, hmoves, hlifted⟩ := hstroke
  obtain ⟨first, rest, rfl⟩ := List.exists_cons_of_ne_nil hnonempty
  obtain ⟨hdata, hfirst, hsecond⟩ := hmoves first List.mem_cons_self
  -- The history after the packet without a contact, and after the first one.
  have hvalid₁ := history.touch_valid hvalid start
  have hvalid₂ := (history.touch start).1.touch_valid hvalid₁ first
  have hmtInfo₁ : (history.touch start).1.mtInfo[0]! = .none := by
    rw [History.touch_eq hvalid hstart.1]
    exact parseTouch_of_not_touched hstart.2.1
  have hmtInfo₂ : ((history.touch start).1.touch first).1.mtInfo =
      contacts first := by
    rw [History.touch_eq hvalid₁ hdata]
    rfl
  -- The first contact is compared with none, which counts as `-1`.
  have hjump := motion_one code hvalid₁ hdata
    (iff_of_true hfirst hsecond)
  rw [hmtInfo₁, relative_absent (Or.inl rfl) hcode] at hjump
  have hrest := motion_touchAll code hvalid₂ hfirst hmtInfo₂ rest
    fun d hd => hmoves d (List.mem_cons_of_mem _ hd)
  have hlift := motion_noContacts code
    (History.touchAll_valid hvalid (start :: first :: rest)) lifted hlifted
  rw [touchAll_append, motion_append, hlift]
  change motion code ((history.touch start).2 ++
    (((history.touch start).1.touch first).2 ++
      (((history.touch start).1.touch first).1.touchAll rest).2)) + 0 = _
  rw [motion_append, motion_append, motion_noContact hvalid hstart, hjump, hrest]
  simp only [List.head_cons]
  ring

/-- No stroke adds up on either axis, and every packet with a contact in the
second slot only is reported as a motion. -/
theorem strokes_never_add_up (before : List Data) :
    (∀ start moves lifted, (hstroke : Stroke start moves lifted) →
      ∀ code, code = .x ∨ code = .y →
        motion code ((History.initial.touchAll before).1.touchAll
            (start :: moves ++ lifted)).2 ≠
          touchSensitivity * (coordinate code (moves.getLast hstroke.nonempty) -
            coordinate code (moves.head hstroke.nonempty))) ∧
      ∀ data, OnlySecond data →
        ∀ code, code = .x ∨ code = .y →
          motion code ((History.initial.touchAll before).1.touch data).2 ≠ 0 := by
  have hvalid : (History.initial.touchAll before).1.Valid :=
    History.touchAll_valid History.valid_initial before
  constructor
  · intro start moves lifted hstroke code hcode
    rw [motion_stroke hvalid hstroke hcode]
    simp only [touchSensitivity]
    omega
  · rintro data ⟨hdata, hfirst, hsecond⟩ code hcode
    have hone : Touched data 0 ↔ ¬ Touched data dataTouchOffset :=
      iff_of_false hfirst (not_not.mpr hsecond)
    rw [motion_one code hvalid hdata hone, parseTouch_of_not_touched hfirst,
      relative_absent (Or.inr rfl) hcode]
    decide

/-- A packet with the first contact at the given coordinates, below 256. -/
def fingerPacket (x y : Byte) : Data :=
  #v[2, 0, 0, 0x80, x, 0, y, 0, 0, 0, 0, 0, 0, 0, 0, 0, 0, 0, 0, 0]

/-- A packet without a contact. -/
def liftedPacket : Data :=
  #v[2, 0, 0, 0, 0, 0, 0, 0, 0, 0, 0, 0, 0, 0, 0, 0, 0, 0, 0, 0]

/-- A packet with a contact in the second slot. -/
def secondPacket : Data :=
  #v[2, 0, 0, 0, 0, 0, 0, 0, 0, 0, 0, 0, 0x80, 5, 0, 7, 0, 0, 0, 0]

theorem onlyFirst_fingerPacket (x y : Byte) : OnlyFirst (fingerPacket x y) := by
  have hfirst : (0x80 : Byte) &&& 0b10000000 ≠ 0 := by decide
  have hsecond : ¬ (0 : Byte) &&& 0b10000000 ≠ 0 := by decide
  exact ⟨rfl, hfirst, hsecond⟩

theorem noContact_liftedPacket : NoContact liftedPacket := by decide +kernel

theorem sampleStroke :
    Stroke liftedPacket [fingerPacket 5 7, fingerPacket 9 3] [liftedPacket] where
  start := noContact_liftedPacket
  nonempty := List.cons_ne_nil _ _
  moves := by
    intro data hdata
    rcases List.mem_cons.mp hdata with rfl | hdata
    · exact onlyFirst_fingerPacket 5 7
    · rw [List.mem_singleton.mp hdata]
      exact onlyFirst_fingerPacket 9 3
  lifted := by
    intro data hdata
    rw [List.mem_singleton.mp hdata]
    exact noContact_liftedPacket

theorem strokes_never_add_up_sample :
    motion .x ((History.initial.touchAll []).1.touchAll
        [liftedPacket, fingerPacket 5 7, fingerPacket 9 3, liftedPacket]).2 ≠
          touchSensitivity * (coordinate .x (fingerPacket 9 3) -
            coordinate .x (fingerPacket 5 7)) ∧
      motion .y ((History.initial.touchAll []).1.touch secondPacket).2 ≠ 0 :=
  ⟨(strokes_never_add_up []).1 _ _ _ sampleStroke .x (Or.inl rfl),
    (strokes_never_add_up []).2 _ (by decide +kernel) .y (Or.inr rfl)⟩

/-- A finger that does not move is reported as a motion by `-1`, and so is a
contact in the second slot. -/
theorem resting_finger_moves :
    Stroke liftedPacket [fingerPacket 5 7] [] ∧
      (History.initial.touchAll [liftedPacket, fingerPacket 5 7]).2 =
        [.rel .x (-1), .rel .y (-1), .key .middle 0] ∧
      OnlySecond secondPacket ∧
      (History.initial.touch secondPacket).2 =
        [.rel .x (-1), .rel .y (-1), .key .middle 0] := by
  have hstroke : Stroke liftedPacket [fingerPacket 5 7] [] := by
    refine ⟨noContact_liftedPacket, List.cons_ne_nil _ _, fun data hdata => ?_,
      fun data hdata => absurd hdata List.not_mem_nil⟩
    rw [List.mem_singleton.mp hdata]
    exact onlyFirst_fingerPacket 5 7
  refine ⟨hstroke, ?_, ?_, ?_⟩
  · decide +kernel
  · decide +kernel
  · decide +kernel

end TabletDriver
end OsStuff
