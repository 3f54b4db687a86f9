import OsStuff.TabletDriver.WorkIrq

/-!
# When tablets do not influence each other

The static variables of the touch handlers are one copy for all tablets.  A
packet is handled as if its tablet were alone exactly when it does not depend on
them: a pen packet, a packet that is dropped, or a touch packet whose button
byte is none that the button handler knows and whose contacts cannot be compared
with earlier ones.  The last is the case without a contact in the first slot,
and for two contacts in opposite corners, with which no earlier contacts can
have moved together.
-/

namespace OsStuff
namespace TabletDriver

/-! ## Packets that read the static variables -/

/-- One coordinate near its lower and one near its upper end. -/
def Far (a b : Int) : Prop :=
  a < 3 ∧ 2044 < b ∨ b < 3 ∧ 2044 < a

instance (a b : Int) : Decidable (Far a b) :=
  inferInstanceAs (Decidable (_ ∨ _))

/-- Two contacts in opposite corners. -/
def Opposite (a b : MtInfo) : Prop :=
  Far a.x b.x ∧ Far a.y b.y

instance (a b : MtInfo) : Decidable (Opposite a b) :=
  inferInstanceAs (Decidable (_ ∧ _))

/-- What is reported for the contacts depends on those before. -/
def ReadsContacts (data : Data) : Prop :=
  Touched data 0 ∧
    ¬ (Touched data dataTouchOffset ∧
      Opposite (parseTouch data 0) (parseTouch data dataTouchOffset))

instance (data : Data) : Decidable (ReadsContacts data) :=
  inferInstanceAs (Decidable (_ ∧ _))

/-- A touch packet whose reports depend on the static variables. -/
def Packet.ReadsHistory (packet : Packet) : Prop :=
  packet.IsTouch ∧ (ReadsContacts packet.data ∨
    getElem packet.data 1 index_one ∈ buttonBytes)

instance (packet : Packet) : Decidable packet.ReadsHistory :=
  inferInstanceAs (Decidable (_ ∧ _))

variable {data data' : Data} {history history' : History} {tablet : Tablet}
  {packet : Packet} {driver driver' : Driver} {i j : Nat}

/-! ## Packets that do not -/

theorem bounds_of_natAbs_lt {z : Int} (h : z.natAbs < 2) : -2 < z ∧ z < 2 := by
  omega

theorem natAbs_half_le {z : Int} (hlow : -6 < z) (hhigh : z < 6) :
    (z.tdiv 2).natAbs ≤ 2 := by
  rw [Int.natAbs_tdiv]
  change z.natAbs / 2 ≤ 2
  omega

/-- No earlier contacts moved together with two in opposite corners. -/
theorem scroll_opposite {prev₁ prev₂ cur₁ cur₂ : MtInfo}
    (hprev₁ : 0 ≤ prev₁.x ∧ prev₁.x ≤ 2047 ∧ 0 ≤ prev₁.y ∧ prev₁.y ≤ 2047)
    (hprev₂ : 0 ≤ prev₂.x ∧ prev₂.x ≤ 2047 ∧ 0 ≤ prev₂.y ∧ prev₂.y ≤ 2047)
    (hopposite : Opposite cur₁ cur₂) :
    scroll prev₁ prev₂ cur₁ cur₂ = [] := by
  obtain ⟨hx, hy⟩ := hopposite
  unfold Far at hx hy
  unfold scroll
  dsimp only
  split
  · next htogether =>
      -- What moved together has moved by half of the sum, which the corners keep small.
      have hdx := bounds_of_natAbs_lt htogether.1
      have hdy := bounds_of_natAbs_lt htogether.2
      have hdxm : ((prev₁.x - cur₁.x + (prev₂.x - cur₂.x)).tdiv 2).natAbs ≤ 2 :=
        natAbs_half_le (by omega) (by omega)
      have hdym : ((prev₁.y - cur₁.y + (prev₂.y - cur₂.y)).tdiv 2).natAbs ≤ 2 :=
        natAbs_half_le (by omega) (by omega)
      rw [if_neg (fun h => absurd h.2 (by omega)),
        if_neg (fun h => absurd h.1 (by omega))]
  · rfl

/-- A parsed contact that is one. -/
theorem MtInfo.Parsed.bounds {info : MtInfo} (hparsed : info.Parsed)
    (hinit : ¬ (info.x = -1 ∧ info.y = -1)) :
    0 ≤ info.x ∧ info.x ≤ 2047 ∧ 0 ≤ info.y ∧ info.y ≤ 2047 := by
  cases hparsed with
  | inl hnone =>
      subst hnone
      exact absurd ⟨rfl, rfl⟩ hinit
  | inr hbounds => exact hbounds

/-- The contacts of such a packet are reported whatever was before. -/
theorem moved_eq (hreads : ¬ ReadsContacts data) (hvalid : history.Valid)
    (hvalid' : history'.Valid) :
    moved data history.mtInfo = moved data history'.mtInfo := by
  obtain ⟨a, b, hmtInfo, ha, hb⟩ := hvalid.mtInfo
  obtain ⟨a', b', hmtInfo', ha', hb'⟩ := hvalid'.mtInfo
  rw [hmtInfo, hmtInfo']
  unfold moved
  by_cases hfirst : Touched data 0
  · have hboth : Touched data dataTouchOffset ∧
        Opposite (parseTouch data 0) (parseTouch data dataTouchOffset) :=
      not_not.mp fun hnot => hreads ⟨hfirst, hnot⟩
    simp only [if_pos hfirst, if_pos hboth.1]
    -- Two fingers in opposite corners scroll by nothing, wherever the earlier ones were.
    have hnothing : ∀ a b : MtInfo, a.Parsed → b.Parsed →
        (twoFingersHandler (contacts data) [a, b] 2).2 = [] := by
      intro a b ha hb
      unfold twoFingersHandler
      split
      · rfl
      · next hinit =>
          simp only [mtInfoAnyNotInit, List.take_succ_cons, List.take_zero,
            List.any_cons, List.any_nil, Bool.or_false, Bool.or_eq_true,
            Bool.and_eq_true, beq_iff_eq, not_or] at hinit
          exact scroll_opposite (ha.bounds hinit.1) (hb.bounds hinit.2) hboth.2
    rw [hnothing a b ha hb, hnothing a' b' ha' hb']
  · by_cases hsecond : Touched data dataTouchOffset
    · simp only [if_neg hfirst, if_pos hsecond]
      -- A second contact alone is compared with entry 0, which is not set.
      have hx : ∀ prev, mtInfoRelX prev (parseTouch data 0) = -1 := by
        intro prev
        rw [parseTouch_of_not_touched hfirst]
        exact if_pos (Or.inr rfl)
      have hy : ∀ prev, mtInfoRelY prev (parseTouch data 0) = -1 := by
        intro prev
        rw [parseTouch_of_not_touched hfirst]
        exact if_pos (Or.inr rfl)
      simp [oneFingerHandler, contacts, hx, hy]
    · simp only [if_neg hfirst, if_neg hsecond]

/-- Such a packet is handled alike whatever the static variables. -/
theorem handlePacket_eq (hreads : ¬ packet.ReadsHistory)
    (hvalid : history.Valid) (hvalid' : history'.Valid)
    (hmax : tablet.features.touchMax = 2) :
    (handlePacket history tablet packet).2 =
      (handlePacket history' tablet packet).2 := by
  by_cases htouch : packet.IsTouch
  · have hnot : ¬ (ReadsContacts packet.data ∨ packet.data[1] ∈ buttonBytes) :=
      fun hor => hreads ⟨htouch, hor⟩
    rw [not_or] at hnot
    rw [handlePacket_touch hvalid hmax htouch,
      handlePacket_touch hvalid' hmax htouch,
      buttonHandler_of_not_mem hnot.2, buttonHandler_of_not_mem hnot.2,
      moved_eq hnot.1 hvalid hvalid']
  · exact (handlePacket_of_not_touch htouch history').2

/-! ## Packets that make a difference -/

theorem idleData_size (button : Byte) :
    #[2, button, 0, 0, 0, 0, 0, 0, 0, 0, 0, 0, 0, 0, 0, 0, 0, 0, 0, 0].size =
      usbPacketLen := rfl

/-- A touch packet without contacts. -/
def idleData (button : Byte) : Data :=
  ⟨#[2, button, 0, 0, 0, 0, 0, 0, 0, 0, 0, 0, 0, 0, 0, 0, 0, 0, 0, 0],
    idleData_size button⟩

/-- A touch packet with two contacts. -/
def contactsData (x₁ y₁ x₂ y₂ : Nat) : Data :=
  #v[2, 0x10, 0, 0x80 ||| BitVec.ofNat 8 (x₁ / 256), BitVec.ofNat 8 x₁,
    BitVec.ofNat 8 (y₁ / 256), BitVec.ofNat 8 y₁, 0, 0, 0, 0, 0,
    0x80 ||| BitVec.ofNat 8 (x₂ / 256), BitVec.ofNat 8 x₂,
    BitVec.ofNat 8 (y₂ / 256), BitVec.ofNat 8 y₂, 0, 0, 0, 0]

/-- A coordinate consists of three bits of its high byte and the low byte. -/
theorem toNat_coordinate (high low : Byte) :
    (getUnalignedBe16 high low &&& 0x7ff).toNat = high.toNat % 8 * 256 + low.toNat := by
  have hlow : low.toNat < 2 ^ 8 := low.isLt
  have hmask : (getUnalignedBe16 high low).toNat &&& (2 ^ 11 - 1) =
      (high.toNat * 256 + low.toNat) % 2 ^ 11 := by
    rw [Nat.and_two_pow_sub_one_eq_mod, getUnalignedBe16, BitVec.toNat_append,
      ← Nat.shiftLeft_add_eq_or_of_lt hlow, Nat.shiftLeft_eq]
  rw [BitVec.toNat_and]
  change (getUnalignedBe16 high low).toNat &&& (2 ^ 11 - 1) = _
  rw [hmask]
  omega

/-- The bit that says that there is a contact is none of the three. -/
theorem touched_high : ∀ high : Fin 8,
    (0x80 ||| BitVec.ofNat 8 high.val : Byte) &&& 0b10000000 ≠ 0 ∧
      (0x80 ||| BitVec.ofNat 8 high.val : Byte).toNat % 8 = high.val := by
  decide

theorem coordinate_touched (v : Fin 2048) :
    (0x80 ||| BitVec.ofNat 8 (v.val / 256) : Byte) &&& 0b10000000 ≠ 0 ∧
      (getUnalignedBe16 (0x80 ||| BitVec.ofNat 8 (v.val / 256))
        (BitVec.ofNat 8 v.val) &&& 0x7ff).toNat = v.val ∧
      (getUnalignedBe16 (BitVec.ofNat 8 (v.val / 256))
        (BitVec.ofNat 8 v.val) &&& 0x7ff).toNat = v.val := by
  have hlt := v.isLt
  obtain ⟨htouched, hhigh⟩ := touched_high ⟨v.val / 256, by omega⟩
  refine ⟨htouched, ?_, ?_⟩
  · rw [toNat_coordinate, hhigh, BitVec.toNat_ofNat]
    simp only
    omega
  · rw [toNat_coordinate, BitVec.toNat_ofNat, BitVec.toNat_ofNat]
    omega

/-- The contacts of such a packet are those it was made from. -/
theorem contacts_contactsData {x₁ y₁ x₂ y₂ : Nat} (hx₁ : x₁ < 2048)
    (hy₁ : y₁ < 2048) (hx₂ : x₂ < 2048) (hy₂ : y₂ < 2048) :
    contacts (contactsData x₁ y₁ x₂ y₂) = [⟨x₁, y₁⟩, ⟨x₂, y₂⟩] := by
  have hparse : ∀ (offset x y : Nat) (hx : x < 2048) (hy : y < 2048)
      (data : Data), data[offset + 3]! = 0x80 ||| BitVec.ofNat 8 (x / 256) →
      data[offset + 4]! = BitVec.ofNat 8 x →
      data[offset + 5]! = BitVec.ofNat 8 (y / 256) →
      data[offset + 6]! = BitVec.ofNat 8 y →
      parseTouch data offset = ⟨x, y⟩ := by
    intro offset x y hx hy data h3 h4 h5 h6
    obtain ⟨htouched, hxvalue, -⟩ := coordinate_touched ⟨x, hx⟩
    obtain ⟨-, -, hyvalue⟩ := coordinate_touched ⟨y, hy⟩
    simp only at htouched hxvalue hyvalue
    unfold parseTouch
    rw [h3, h4, h5, h6, if_pos htouched, hxvalue, hyvalue]
  unfold contacts
  rw [hparse 0 x₁ y₁ hx₁ hy₁ _ rfl rfl rfl rfl,
    hparse dataTouchOffset x₂ y₂ hx₂ hy₂ _ rfl rfl rfl rfl]

/-- Two contacts move together by `(dx, dy)`, a distance that is reported. -/
def Shift (dx dy : Int) : Prop :=
  dx = 0 ∧ (dy = 3 ∨ dy = -3) ∨ dy = 0 ∧ (dx = 3 ∨ dx = -3)

theorem scroll_shift {dx dy : Int} (hshift : Shift dx dy) (cur₁ cur₂ : MtInfo) :
    scroll ⟨cur₁.x + dx, cur₁.y + dy⟩ ⟨cur₂.x + dx, cur₂.y + dy⟩ cur₁ cur₂ ≠
      [] := by
  unfold scroll
  simp only [add_sub_cancel_left]
  rcases hshift with ⟨rfl, rfl | rfl⟩ | ⟨rfl, rfl | rfl⟩ <;> decide

/-- Unless they are in opposite corners there is room for two contacts to have
moved together. -/
theorem exists_shift {cur₁ cur₂ : MtInfo}
    (hcur₁ : 0 ≤ cur₁.x ∧ cur₁.x ≤ 2047 ∧ 0 ≤ cur₁.y ∧ cur₁.y ≤ 2047)
    (hcur₂ : 0 ≤ cur₂.x ∧ cur₂.x ≤ 2047 ∧ 0 ≤ cur₂.y ∧ cur₂.y ≤ 2047)
    (hopposite : ¬ Opposite cur₁ cur₂) :
    ∃ dx dy : Int, Shift dx dy ∧
      0 ≤ cur₁.x + dx ∧ cur₁.x + dx < 2048 ∧
      0 ≤ cur₁.y + dy ∧ cur₁.y + dy < 2048 ∧
      0 ≤ cur₂.x + dx ∧ cur₂.x + dx < 2048 ∧
      0 ≤ cur₂.y + dy ∧ cur₂.y + dy < 2048 := by
  have hroom : ∀ a b : Int, ¬ Far a b → (3 ≤ a ∧ 3 ≤ b) ∨ (a ≤ 2044 ∧ b ≤ 2044) := by
    intro a b hfar
    unfold Far at hfar
    omega
  rcases Classical.not_and_iff_not_or_not.mp hopposite with hx | hy
  · cases hroom _ _ hx with
    | inl hlow => exact ⟨-3, 0, Or.inr ⟨rfl, Or.inr rfl⟩, by omega⟩
    | inr hhigh => exact ⟨3, 0, Or.inr ⟨rfl, Or.inl rfl⟩, by omega⟩
  · cases hroom _ _ hy with
    | inl hlow => exact ⟨0, -3, Or.inl ⟨rfl, Or.inr rfl⟩, by omega⟩
    | inr hhigh => exact ⟨0, 3, Or.inl ⟨rfl, Or.inl rfl⟩, by omega⟩

/-- Two contacts that are not in opposite corners are reported for some earlier
contacts. -/
theorem exists_scroll (hfirst : Touched data 0)
    (hsecond : Touched data dataTouchOffset)
    (hopposite : ¬ Opposite (parseTouch data 0)
      (parseTouch data dataTouchOffset)) :
    ∃ data' : Data, data'[0] = 2 ∧ data'[1] = 0x10 ∧
      moved data (contacts data') ≠ [] := by
  obtain ⟨dx, dy, hshift, hx₁, hx₁', hy₁, hy₁', hx₂, hx₂', hy₂, hy₂'⟩ :=
    exists_shift (parseTouch_of_touched hfirst) (parseTouch_of_touched hsecond)
      hopposite
  have hscroll := scroll_shift hshift (parseTouch data 0)
    (parseTouch data dataTouchOffset)
  lift (parseTouch data 0).x + dx to Nat using hx₁ with x₁ hx
  lift (parseTouch data 0).y + dy to Nat using hy₁ with y₁ hy
  lift (parseTouch data dataTouchOffset).x + dx to Nat using hx₂ with x₂ hx
  lift (parseTouch data dataTouchOffset).y + dy to Nat using hy₂ with y₂ hy
  refine ⟨contactsData x₁ y₁ x₂ y₂, rfl, rfl, ?_⟩
  rw [contacts_contactsData (by omega) (by omega) (by omega) (by omega)]
  unfold moved
  rw [if_pos hfirst, if_pos hsecond]
  unfold twoFingersHandler
  rw [if_neg]
  · exact hscroll
  · simp [mtInfoAnyNotInit]

/-- The first contact of a packet alone, with a button byte that means
nothing. -/
def firstContactData (data : Data) : Data :=
  #v[2, 0x10, 0, data[0 + 3]!, data[0 + 4]!, data[0 + 5]!, data[0 + 6]!, 0, 0, 0,
    0, 0, 0, 0, 0, 0, 0, 0, 0, 0]

theorem contacts_firstContactData (data : Data) :
    contacts (firstContactData data) = [parseTouch data 0, .none] := by
  have hfirst : parseTouch (firstContactData data) 0 = parseTouch data 0 := by
    unfold parseTouch
    rfl
  have hsecond : parseTouch (firstContactData data) dataTouchOffset = .none := by
    apply parseTouch_of_not_touched
    have hzero : (firstContactData data)[dataTouchOffset + 3]! = 0 := rfl
    rw [Touched, hzero]
    decide
  unfold contacts
  rw [hfirst, hsecond]

/-- Contacts that are compared with others are reported in different ways after
two packets with a button byte that means nothing. -/
theorem exists_moved_ne (hreads : ReadsContacts data) :
    ∃ data₁ data₂ : Data, data₁[0] = 2 ∧ data₁[1] = 0x10 ∧ data₂[0] = 2 ∧
      data₂[1] = 0x10 ∧
      moved data (contacts data₁) ≠ moved data (contacts data₂) := by
  obtain ⟨hfirst, hnot⟩ := hreads
  have hidle : contacts (idleData 0x10) = [.none, .none] := rfl
  by_cases hsecond : Touched data dataTouchOffset
  · have hopposite : ¬ Opposite (parseTouch data 0)
        (parseTouch data dataTouchOffset) := fun h => hnot ⟨hsecond, h⟩
    obtain ⟨data', hdata', hbutton, hmoved⟩ :=
      exists_scroll hfirst hsecond hopposite
    refine ⟨idleData 0x10, data', rfl, rfl, hdata', hbutton, ?_⟩
    rw [hidle]
    have hnothing : moved data [.none, .none] = [] := by
      unfold moved
      rw [if_pos hfirst, if_pos hsecond]
      rfl
    rw [hnothing]
    exact hmoved.symm
  · -- After no contact the finger has moved by nothing, and after itself by zero.
    refine ⟨idleData 0x10, firstContactData data, rfl, rfl, rfl, rfl, ?_⟩
    rw [hidle, contacts_firstContactData]
    obtain ⟨hx, -⟩ := parseTouch_of_touched hfirst
    intro heq
    simp only [moved, if_pos hfirst, if_neg hsecond, oneFingerHandler,
      List.cons.injEq, Report.rel.injEq] at heq
    obtain ⟨⟨-, hmoved⟩, -⟩ := heq
    simp [mtInfoRelX, contacts, MtInfo.none, touchSensitivity] at hmoved
    omega

/-- Releasing all buttons and pressing one are seen by the next packet with a
button byte that the button handler knows. -/
theorem clicked_ne (lmb rmb cmb bmb fmb : Bool) :
    ∀ button ∈ buttonBytes,
      (buttonHandler (buttonHandler ⟨lmb, rmb, cmb, bmb, fmb⟩
          (idleData 0)).1 (idleData button)).2 ≠
        (buttonHandler (buttonHandler ⟨lmb, rmb, cmb, bmb, fmb⟩
          (idleData (if button = 0 then 1 else button))).1
            (idleData button)).2 := by
  revert lmb rmb cmb bmb fmb
  decide +kernel

/-- A touch packet that reads the static variables is reported in different
ways after two touch packets of another tablet. -/
theorem exists_reports_ne (hreads : packet.ReadsHistory) (history : History)
    (hmax : tablet.features.touchMax = 2) :
    ∃ data₁ data₂ : Data, data₁[0] = 2 ∧ data₂[0] = 2 ∧
      (handlePacket (history.after data₁) tablet packet).2.2 ≠
        (handlePacket (history.after data₂) tablet packet).2.2 := by
  obtain ⟨htouch, hor⟩ := hreads
  have hreports : ∀ data, (handlePacket (history.after data) tablet packet).2.2 =
      moved packet.data (contacts data) ++
        (buttonHandler (buttonHandler history.latches data).1 packet.data).2 ++
          [.sync] := by
    intro data
    rw [handlePacket_touch (history.valid_after data) hmax htouch]
    rfl
  cases hor with
  -- Both packets before keep the latches, so only the movement differs.
  | inl hcontacts =>
      obtain ⟨data₁, data₂, hfirst₁, hbutton₁, hfirst₂, hbutton₂, hne⟩ :=
        exists_moved_ne hcontacts
      refine ⟨data₁, data₂, hfirst₁, hfirst₂, ?_⟩
      have hlatches₁ :
          (buttonHandler history.latches data₁).1 = history.latches := by
        rw [buttonHandler_of_not_mem (by rw [hbutton₁]; decide)]
      have hlatches₂ :
          (buttonHandler history.latches data₂).1 = history.latches := by
        rw [buttonHandler_of_not_mem (by rw [hbutton₂]; decide)]
      rw [hreports, hreports, hlatches₁, hlatches₂]
      intro heq
      exact hne (List.append_cancel_right (List.append_cancel_right heq))
  -- Both packets before have no contacts, so only the buttons differ.
  | inr hbutton =>
      refine ⟨idleData 0,
        idleData (if packet.data[1] = 0 then 1 else packet.data[1]), rfl, rfl, ?_⟩
      have hdata : packet.data[1] = (idleData packet.data[1])[1] := rfl
      rw [hreports, hreports, buttonHandler_congr hdata,
        buttonHandler_congr hdata]
      intro heq
      have heq' := List.append_cancel_left (List.append_cancel_right heq)
      cases hlatches : history.latches with
      | mk lmb rmb cmb bmb fmb =>
          rw [hlatches] at heq'
          exact clicked_ne lmb rmb cmb bmb fmb packet.data[1] hbutton heq'

/-! ## Runs of the driver -/

/-- What holds of the driver after any packets. -/
structure Driver.Valid (driver : Driver) : Prop where
  history : driver.history.Valid
  touchMax : ∀ i, (driver.tablets i).features.touchMax = 2

theorem Driver.valid_initial (data : Nat → Data) :
    (Driver.initial data).Valid :=
  ⟨History.valid_initial, fun _ => rfl⟩

theorem Driver.Valid.handle (hvalid : driver.Valid) (i : Nat) (packet : Packet) :
    (driver.handle i packet).Valid := by
  constructor
  · exact handlePacket_valid hvalid.history (hvalid.touchMax i)
  · intro j
    unfold Driver.handle
    dsimp only
    by_cases hji : j = i
    · subst hji
      rw [Function.update_self, handlePacket_features]
      exact hvalid.touchMax j
    · rw [Function.update_of_ne hji]
      exact hvalid.touchMax j

theorem Driver.handle_history :
    (driver.handle i packet).history =
      (handlePacket driver.history (driver.tablets i) packet).1 := rfl

theorem Driver.handle_tablet :
    (driver.handle i packet).tablets i =
      (handlePacket driver.history (driver.tablets i) packet).2.1 :=
  Function.update_self ..

theorem Driver.handle_reports :
    (driver.handle i packet).reports i = driver.reports i ++
      (handlePacket driver.history (driver.tablets i) packet).2.2 :=
  Function.update_self ..

/-- A packet of one tablet changes another only through the static variables. -/
theorem Driver.handle_other (packet : Packet) (hij : i ≠ j) :
    (driver.handle j packet).tablets i = driver.tablets i ∧
      (driver.handle j packet).reports i = driver.reports i :=
  ⟨Function.update_of_ne hij .., Function.update_of_ne hij ..⟩

@[simp] theorem Driver.run_nil : driver.run [] = driver := rfl

@[simp] theorem Driver.run_cons (event : Nat × Packet)
    (events : List (Nat × Packet)) :
    driver.run (event :: events) =
      (driver.handle event.1 event.2).run events := rfl

theorem Driver.run_append (front back : List (Nat × Packet)) :
    driver.run (front ++ back) = (driver.run front).run back := by
  unfold Driver.run
  rw [List.foldl_append]

theorem Driver.Valid.run (hvalid : driver.Valid)
    (events : List (Nat × Packet)) : (driver.run events).Valid := by
  induction events generalizing driver with
  | nil => exact hvalid
  | cons event events ih => exact ih (hvalid.handle event.1 event.2)

theorem packetsOf_own (i : Nat) (own : List Packet) :
    packetsOf i (own.map fun packet => (i, packet)) = own := by
  unfold packetsOf
  rw [List.filter_eq_self.mpr, List.map_map]
  · exact List.map_id own
  · intro event hevent
    obtain ⟨packet, -, rfl⟩ := List.mem_map.mp hevent
    exact decide_eq_true rfl

theorem packetsOf_cons_self (packet : Packet) (events : List (Nat × Packet)) :
    packetsOf i ((i, packet) :: events) = packet :: packetsOf i events := by
  simp [packetsOf]

theorem packetsOf_cons_other (hij : i ≠ j) (packet : Packet)
    (events : List (Nat × Packet)) :
    packetsOf i ((j, packet) :: events) = packetsOf i events := by
  simp [packetsOf, hij.symm]

theorem packetsOf_append (front back : List (Nat × Packet)) :
    packetsOf i (front ++ back) = packetsOf i front ++ packetsOf i back := by
  simp [packetsOf]

/-- Packets that do not read the static variables are reported alike with and
without those of other tablets. -/
theorem Driver.run_agree (hvalid : driver.Valid) (hvalid' : driver'.Valid)
    (htablet : driver.tablets i = driver'.tablets i)
    (events : List (Nat × Packet))
    (hreads : ∀ packet ∈ packetsOf i events, ¬ packet.ReadsHistory) :
    ∃ reports, (driver.run events).reports i = driver.reports i ++ reports ∧
      (driver'.run ((packetsOf i events).map fun packet =>
        (i, packet))).reports i = driver'.reports i ++ reports := by
  induction events generalizing driver driver' with
  | nil => exact ⟨[], (List.append_nil _).symm, (List.append_nil _).symm⟩
  | cons event events ih =>
      obtain ⟨j, packet⟩ := event
      by_cases hij : i = j
      · subst hij
        rw [packetsOf_cons_self] at hreads ⊢
        have heq := handlePacket_eq (hreads packet List.mem_cons_self)
          hvalid.history hvalid'.history (hvalid.touchMax i)
        have htablet' : (driver.handle i packet).tablets i =
            (driver'.handle i packet).tablets i := by
          rw [Driver.handle_tablet, Driver.handle_tablet, ← htablet, heq]
        obtain ⟨reports, hall, halone⟩ := ih (hvalid.handle i packet)
          (hvalid'.handle i packet) htablet'
          fun packet hpacket => hreads packet (List.mem_cons_of_mem _ hpacket)
        rw [Driver.handle_reports, List.append_assoc] at hall halone
        rw [← htablet, ← heq] at halone
        exact ⟨_, hall, halone⟩
      · rw [packetsOf_cons_other hij] at hreads ⊢
        obtain ⟨htablet', hreports⟩ := driver.handle_other packet hij
        have hnext := ih (hvalid.handle j packet) hvalid'
          (htablet'.trans htablet) hreads
        rwa [hreports] at hnext

/-- The last element with a property. -/
theorem exists_last {α : Type*} {p : α → Prop} {l : List α} (h : ∃ x ∈ l, p x) :
    ∃ front x back, l = front ++ x :: back ∧ p x ∧ ∀ y ∈ back, ¬ p y := by
  induction l with
  | nil => exact absurd h (by simp)
  | cons head tail ih =>
      by_cases htail : ∃ x ∈ tail, p x
      · obtain ⟨front, x, back, rfl, hx, hback⟩ := ih htail
        exact ⟨head :: front, x, back, rfl, hx, hback⟩
      · obtain ⟨x, hmem, hx⟩ := h
        cases hmem with
        | head => exact ⟨[], head, tail, rfl, hx, fun y hy hp => htail ⟨y, hy, hp⟩⟩
        | tail _ hmem => exact absurd ⟨x, hmem, hx⟩ htail

/-- The packets of another tablet before the last packet that reads the static
variables make a difference. -/
theorem exists_run_ne {own : List Packet}
    (hreads : ∃ packet ∈ own, packet.ReadsHistory) (data : Nat → Data)
    (hij : i ≠ j) :
    ∃ events₁ events₂, packetsOf i events₁ = own ∧ packetsOf i events₂ = own ∧
      ((Driver.initial data).run events₁).reports i ≠
        ((Driver.initial data).run events₂).reports i := by
  obtain ⟨front, packet, back, rfl, hpacket, hback⟩ := exists_last hreads
  have hvalid := (Driver.valid_initial data).run
    (front.map fun packet => (i, packet))
  have htouch := hpacket.1
  generalize hbefore : (Driver.initial data).run
    (front.map fun packet => (i, packet)) = before at hvalid
  obtain ⟨data₁, data₂, hdata₁, hdata₂, hne⟩ := exists_reports_ne hpacket
    before.history (hvalid.touchMax i)
  have hafter : ∀ data' : Data, data'[0] = 2 →
      (before.handle j ⟨0, usbPacketLen, data'⟩).history =
        before.history.after data' := by
    intro data' hdata'
    rw [Driver.handle_history,
      handlePacket_touch hvalid.history (hvalid.touchMax j) ⟨rfl, rfl, hdata'⟩]
  have hown : ∀ other : Packet, packetsOf i
      ((front.map fun packet => (i, packet)) ++
        (j, other) :: (i, packet) :: back.map fun packet => (i, packet)) =
          front ++ packet :: back := by
    intro other
    rw [packetsOf_append, packetsOf_own, packetsOf_cons_other hij,
      packetsOf_cons_self, packetsOf_own]
  refine ⟨_, _, hown ⟨0, usbPacketLen, data₁⟩, hown ⟨0, usbPacketLen, data₂⟩, ?_⟩
  rw [Driver.run_append, Driver.run_append, hbefore]
  simp only [Driver.run_cons]
  -- The packets after the last one that reads the static variables add the same.
  obtain ⟨htablet₁, hreports₁⟩ :=
    before.handle_other ⟨0, usbPacketLen, data₁⟩ hij
  obtain ⟨htablet₂, hreports₂⟩ :=
    before.handle_other ⟨0, usbPacketLen, data₂⟩ hij
  have hvalid₁ := hvalid.handle j ⟨0, usbPacketLen, data₁⟩
  have hvalid₂ := hvalid.handle j ⟨0, usbPacketLen, data₂⟩
  have htablet : ((before.handle j ⟨0, usbPacketLen, data₁⟩).handle i
      packet).tablets i = ((before.handle j ⟨0, usbPacketLen, data₂⟩).handle i
        packet).tablets i := by
    rw [Driver.handle_tablet, Driver.handle_tablet,
      handlePacket_touch hvalid₁.history (hvalid₁.touchMax i) htouch,
      handlePacket_touch hvalid₂.history (hvalid₂.touchMax i) htouch,
      htablet₁, htablet₂]
  obtain ⟨reports, hrun₁, hrun₂⟩ := Driver.run_agree
    (hvalid₁.handle i packet) (hvalid₂.handle i packet) htablet
    (back.map fun packet => (i, packet)) (by rwa [packetsOf_own])
  rw [packetsOf_own] at hrun₂
  rw [hrun₁, hrun₂]
  intro heq
  have heq' := List.append_cancel_right heq
  rw [Driver.handle_reports, Driver.handle_reports, hreports₁, hreports₂,
    hafter data₁ hdata₁, hafter data₂ hdata₂, htablet₁, htablet₂] at heq'
  exact hne (List.append_cancel_left heq')

/-- A tablet is unaffected by others exactly when none of its packets reads the
static variables. -/
theorem unaffected_iff (own : List Packet) :
    Unaffected own ↔ ∀ packet ∈ own, ¬ packet.ReadsHistory := by
  constructor
  · intro hunaffected packet hpacket hreads
    obtain ⟨events₁, events₂, hown₁, hown₂, hne⟩ := exists_run_ne
      ⟨packet, hpacket, hreads⟩ (fun _ => idleData 0) Nat.zero_ne_one
    exact hne ((hunaffected _ 0 events₁ hown₁).trans
      (hunaffected _ 0 events₂ hown₂).symm)
  · intro hreads data i events hown
    have hvalid := Driver.valid_initial data
    obtain ⟨reports, hall, halone⟩ := Driver.run_agree (i := i) hvalid hvalid
      rfl events (by rwa [hown])
    rw [hown] at halone
    exact hall.trans halone.symm

/-- A left click is not reported while another tablet holds its left button. -/
theorem click_lost : ¬ Unaffected [⟨0, usbPacketLen, idleData 1⟩] := by
  intro hunaffected
  have hreports := hunaffected (fun _ => idleData 0) 0
    [(1, ⟨0, usbPacketLen, idleData 1⟩), (0, ⟨0, usbPacketLen, idleData 1⟩)] rfl
  exact absurd hreports (by decide)

end TabletDriver
end OsStuff
