import OsStuff.TabletDriver.TouchHandler

/-!
# What a touch packet reads and leaves of the static variables

After a touch packet the static contacts are those of the packet, whatever they
were before; the latches change by the button byte alone.  What is reported is a
part for the contacts, which reads the static contacts, and a part for the
buttons, which reads the latches.
-/

namespace OsStuff
namespace TabletDriver

variable {data : Data} {offset : Nat} {history : History} {tablet : Tablet}
  {latches : Latches}

/-! ## Contacts -/

/-- The slot has a contact. -/
def Touched (data : Data) (offset : Nat) : Prop :=
  data[offset + 3]! &&& 0b10000000 ≠ 0

instance (data : Data) (offset : Nat) : Decidable (Touched data offset) :=
  inferInstanceAs (Decidable (_ ≠ _))

/-- A contact as it comes out of `parse_touch`. -/
def MtInfo.Parsed (info : MtInfo) : Prop :=
  info = .none ∨ 0 ≤ info.x ∧ info.x ≤ 2047 ∧ 0 ≤ info.y ∧ info.y ≤ 2047

theorem and_0x7ff_toNat_le (x : BitVec 16) : (x &&& 0x7ff).toNat ≤ 2047 := by
  rw [BitVec.toNat_and]
  exact Nat.and_le_right

theorem parseTouch_of_not_touched (h : ¬ Touched data offset) :
    parseTouch data offset = .none :=
  if_neg h

theorem parseTouch_of_touched (h : Touched data offset) :
    0 ≤ (parseTouch data offset).x ∧ (parseTouch data offset).x ≤ 2047 ∧
      0 ≤ (parseTouch data offset).y ∧ (parseTouch data offset).y ≤ 2047 := by
  have hparse : parseTouch data offset =
      ⟨(getUnalignedBe16 data[offset + 3]! data[offset + 4]! &&& 0x7ff).toNat,
        (getUnalignedBe16 data[offset + 5]! data[offset + 6]! &&& 0x7ff).toNat⟩ :=
    if_pos h
  rw [hparse]
  have hx := and_0x7ff_toNat_le
    (getUnalignedBe16 data[offset + 3]! data[offset + 4]!)
  have hy := and_0x7ff_toNat_le
    (getUnalignedBe16 data[offset + 5]! data[offset + 6]!)
  simp only
  omega

theorem parseTouch_parsed (data : Data) (offset : Nat) :
    (parseTouch data offset).Parsed := by
  by_cases h : Touched data offset
  · exact Or.inr (parseTouch_of_touched h)
  · exact Or.inl (parseTouch_of_not_touched h)

/-- The contacts of a packet. -/
def contacts (data : Data) : List MtInfo :=
  [parseTouch data 0, parseTouch data dataTouchOffset]

theorem mtInfoFingerCnt_contacts (data : Data) :
    mtInfoFingerCnt (contacts data) 2 =
      (if Touched data 0 then 1 else 0) +
        (if Touched data dataTouchOffset then 1 else 0) := by
  -- A contact that was parsed has coordinates that are not -1, and none has both -1.
  have hcount : ∀ offset, (if ((parseTouch data offset).x != -1 &&
      (parseTouch data offset).y != -1) = true then 1 else 0) =
        if Touched data offset then 1 else 0 := by
    intro offset
    by_cases h : Touched data offset
    · have hbounds := parseTouch_of_touched h
      rw [if_pos h, if_pos]
      simp only [Bool.and_eq_true, bne_iff_ne, ne_eq]
      omega
    · rw [if_neg h, parseTouch_of_not_touched h]
      rfl
  unfold mtInfoFingerCnt contacts
  simp only [List.take_succ_cons, List.take_zero, List.countP_cons,
    List.countP_nil, hcount]
  omega

/-- What is reported for the contacts of a packet after those in `prev`. -/
def moved (data : Data) (prev : List MtInfo) : List Report :=
  if Touched data 0 then
    if Touched data dataTouchOffset then
      (twoFingersHandler (contacts data) prev 2).2
    else (oneFingerHandler data (contacts data) prev 2).2
  else if Touched data dataTouchOffset then
    (oneFingerHandler data (contacts data) prev 2).2
  else []

/-- The static variables as calls of the handlers leave them. -/
structure History.Valid (history : History) : Prop where
  mtInfo : ∃ a b : MtInfo, history.mtInfo = [a, b] ∧ a.Parsed ∧ b.Parsed
  newMtInfo : history.newMtInfo.length = 2

theorem History.valid_initial : History.initial.Valid :=
  ⟨⟨.none, .none, rfl, Or.inl rfl, Or.inl rfl⟩, rfl⟩

/-- The static variables after a touch packet. -/
def History.after (history : History) (data : Data) : History :=
  ⟨contacts data, contacts data, (buttonHandler history.latches data).1⟩

theorem History.valid_after (history : History) (data : Data) :
    (history.after data).Valid :=
  ⟨⟨_, _, rfl, parseTouch_parsed _ _, parseTouch_parsed _ _⟩, rfl⟩

/-- The handlers of one and two fingers keep the contacts of the packet. -/
theorem mtInfoAssign_contacts (hvalid : history.Valid) (data : Data) :
    mtInfoAssign history.mtInfo (contacts data) 2 = contacts data := by
  obtain ⟨a, b, hmtInfo, -, -⟩ := hvalid.mtInfo
  rw [hmtInfo]
  rfl

/-- A touch packet from end to end. -/
theorem irqTouch_eq (hvalid : history.Valid) (hmax : tablet.features.touchMax = 2)
    (hdata : tablet.data[0] = 2) :
    irqTouch history tablet =
      (true, history.after tablet.data,
        moved tablet.data history.mtInfo ++
          (buttonHandler history.latches tablet.data).2) := by
  -- The loop over the fingers fills both entries of `new_mt_info`.
  have hnew : (List.range tablet.features.touchMax).map (fun i =>
      parseTouch tablet.data (i * dataTouchOffset)) ++
        history.newMtInfo.drop tablet.features.touchMax =
          contacts tablet.data := by
    rw [hmax, List.drop_eq_nil_of_le hvalid.newMtInfo.le, List.append_nil]
    rfl
  have hassign := mtInfoAssign_contacts hvalid tablet.data
  have hone : ∀ prev, oneFingerHandler tablet.data (contacts tablet.data) prev 2 =
      (mtInfoAssign prev (contacts tablet.data) 2,
        (oneFingerHandler tablet.data (contacts tablet.data) prev 2).2) :=
    fun _ => rfl
  have htwo : ∀ prev, twoFingersHandler (contacts tablet.data) prev 2 =
      (mtInfoAssign prev (contacts tablet.data) 2,
        (twoFingersHandler (contacts tablet.data) prev 2).2) := by
    intro prev
    unfold twoFingersHandler
    split
    · rfl
    · rfl
  unfold irqTouch History.after
  simp only [hnew]
  rw [if_neg (not_not.mpr hdata), mtInfoFingerCnt_contacts, hmax]
  unfold moved
  by_cases hfirst : Touched tablet.data 0
  · by_cases hsecond : Touched tablet.data dataTouchOffset
    · simp only [if_pos hfirst, if_pos hsecond]
      rw [htwo, hassign]
    · simp only [if_pos hfirst, if_neg hsecond]
      rw [hone, hassign]
  · by_cases hsecond : Touched tablet.data dataTouchOffset
    · simp only [if_neg hfirst, if_pos hsecond]
      rw [hone, hassign]
    · simp only [if_neg hfirst, if_neg hsecond]
      obtain ⟨a, b, hmtInfo, -, -⟩ := hvalid.mtInfo
      -- Without a contact `mt_info_init` leaves what `mt_info_assign` would leave.
      have hnone : mtInfoInit history.mtInfo 2 = contacts tablet.data := by
        rw [hmtInfo]
        unfold contacts
        rw [parseTouch_of_not_touched hfirst, parseTouch_of_not_touched hsecond]
        rfl
      rw [hnone]

/-- Not a touch packet. -/
theorem irqTouch_of_ne (hdata : tablet.data[0] ≠ 2) :
    irqTouch history tablet = (false, history, []) := by
  unfold irqTouch
  rw [if_pos hdata]

/-- Touch packets keep the static variables valid. -/
theorem irqTouch_valid (hvalid : history.Valid)
    (hmax : tablet.features.touchMax = 2) :
    (irqTouch history tablet).2.1.Valid := by
  by_cases hdata : tablet.data[0] = 2
  · rw [irqTouch_eq hvalid hmax hdata]
    exact history.valid_after tablet.data
  · rw [irqTouch_of_ne hdata]
    exact hvalid

/-! ## Buttons -/

/-- The button bytes that `button_handler` reacts to. -/
def buttonBytes : List Byte := [0, 1, 2, 3, 4, 8]

/-- Any other button byte changes and reports nothing. -/
theorem buttonHandler_of_not_mem (hdata : data[1] ∉ buttonBytes) :
    buttonHandler latches data = (latches, []) := by
  simp only [buttonBytes, List.mem_cons, List.not_mem_nil, or_false, not_or]
    at hdata
  obtain ⟨h0, h1, h2, h3, h4, h8⟩ := hdata
  unfold buttonHandler
  simp only [h0, h1, h2, h3, h4, h8, if_false, false_and]
  rfl

/-- The button handler reads nothing but the button byte. -/
theorem buttonHandler_congr {data' : Data} (hdata : data[1] = data'[1])
    (latches : Latches) :
    buttonHandler latches data = buttonHandler latches data' := by
  unfold buttonHandler
  rw [hdata]

end TabletDriver
end OsStuff
