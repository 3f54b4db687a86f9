import OsStuff.Library.ShortItems
import OsStuff.TabletDriver.HidParse

/-!
# The items of a report descriptor

`Reading` is what a list of short items says about the tablet, item by item.
The loop of `parse_hid` follows it: it stops at the prefix of every item, decodes
the data and ends with the same device type and packet length.  Its reads stay
in the descriptor exactly when the descriptor consists of complete items and the
extents it looks for are there.
-/

namespace OsStuff
namespace TabletDriver

open Library.ShortItems

/-! ## What the items say -/

/-- What has been read of a descriptor. -/
structure Reading where
  page : Nat
  finger : Bool
  stylus : Bool
  deviceType : DeviceType
  pktlen : Nat
  deriving DecidableEq, Repr

/-- The tags of the items that matter. -/
def usagePageTag : Nat := 1
def usageTag : Nat := 2
def endCollectionTag : Nat := 48

def desktopX : Nat := 0x00010030
def desktopY : Nat := 0x00010031
def fingerUsages : List Nat := [0xff000022, 0x000d0022]
def stylusUsages : List Nat := [0xff000020, 0x000d0020]

namespace Reading

/-- The full usage of an item: a short one is completed by the page. -/
def usage (reading : Reading) (item : Item) : Nat :=
  if dataSize item.lead < 4 then
    (reading.page * 2 ^ 16 + item.value) % 2 ^ 32
  else item.value

/-- The touch type if a finger has been seen, else the pen type if a stylus has
been seen. -/
def chooseType (reading : Reading) : Reading :=
  if reading.finger then
    { reading with deviceType := .btnToolFinger, pktlen := 20 }
  else if reading.stylus then
    { reading with deviceType := .btnToolPen }
  else reading

/-- The next item. -/
def next (reading : Reading) (item : Item) : Reading :=
  if item.tag = usagePageTag then { reading with page := item.value }
  else if item.tag = usageTag then
    if reading.usage item = desktopX then reading.chooseType
    else if reading.usage item ∈ fingerUsages then { reading with finger := true }
    else if reading.usage item ∈ stylusUsages then { reading with stylus := true }
    else reading
  else if item.tag = endCollectionTag then
    { reading with page := 0, finger := false }
  else reading

/-- Nothing has been read. -/
def start (features : HidFeatures) : Reading :=
  ⟨0, false, false, features.deviceType, features.pktlen⟩

/-- How many bytes from its prefix on the loop looks at for the extent of an
item. -/
def extent (reading : Reading) (item : Item) : Nat :=
  if item.tag = usageTag then
    if reading.usage item = desktopX then if reading.finger then 10 else 0
    else if reading.usage item = desktopY then
      if reading.finger then 8 else if reading.stylus then 5 else 0
    else 0
  else 0

end Reading

variable {report : Nat → Byte} {state : HidState} {reading : Reading} {item : Item}
  {items : List Item} {features : HidFeatures} {i length : Nat}

/-! ## Bits -/

theorem and_0x03_toNat : ∀ lead : Byte, (lead &&& 0x03).toNat = lead.toNat % 4 := by
  decide +kernel

theorem and_0xFC_eq_iff : ∀ lead : Byte,
    (lead &&& 0xFC = hidUsagePage ↔ lead.toNat / 4 = usagePageTag) ∧
      (lead &&& 0xFC = hidUsage ↔ lead.toNat / 4 = usageTag) ∧
      (lead &&& 0xFC = hidCollectionEnd ↔ lead.toNat / 4 = endCollectionTag) := by
  -- There are only 256 prefix bytes.
  decide +kernel

/-- A number shifted by sixteen bits is completed by a shorter one. -/
theorem or_shift_eq (page value : Nat) (hvalue : value < 2 ^ 16) :
    BitVec.ofNat 32 value ||| BitVec.ofNat 32 page <<< 16 =
      BitVec.ofNat 32 (page * 2 ^ 16 + value) := by
  apply BitVec.eq_of_toNat_eq
  rw [BitVec.toNat_or, BitVec.toNat_shiftLeft, BitVec.toNat_ofNat,
    BitVec.toNat_ofNat, BitVec.toNat_ofNat, Nat.or_comm]
  -- Shifting drops the upper half of the page.
  have hshift : (page % 2 ^ 32) <<< 16 % 2 ^ 32 = (page % 2 ^ 16) <<< 16 := by
    rw [Nat.shiftLeft_eq, Nat.shiftLeft_eq]
    omega
  rw [hshift, Nat.mod_eq_of_lt (show value < 2 ^ 32 by omega),
    ← Nat.shiftLeft_add_eq_or_of_lt hvalue, Nat.shiftLeft_eq]
  omega

/-- A byte shifted to its place. -/
theorem byte_shift_toNat (byte : Byte) (k : Nat) (hk : k ≤ 24) :
    (byte.setWidth 32 <<< k).toNat = byte.toNat <<< k := by
  have hbyte : byte.toNat < 2 ^ 8 := byte.isLt
  have hpow : 2 ^ k ≤ 2 ^ 24 := Nat.pow_le_pow_right (by omega) hk
  have hlt : byte.toNat * 2 ^ k < 2 ^ 32 :=
    calc byte.toNat * 2 ^ k ≤ byte.toNat * 2 ^ 24 := Nat.mul_le_mul_left _ hpow
      _ < 2 ^ 32 := by omega
  rw [BitVec.toNat_shiftLeft, BitVec.toNat_setWidth,
    Nat.mod_eq_of_lt (show byte.toNat < 2 ^ 32 by omega), Nat.shiftLeft_eq,
    Nat.mod_eq_of_lt hlt]

theorem caseOne_data (report : Nat → Byte) (i high : Nat) (data : Word)
    (hdata : data.toNat = high <<< 8) :
    (caseOne report i data).1 =
      BitVec.ofNat 32 ((report (i + 1)).toNat + 256 * high) := by
  have hbyte : (report (i + 1)).toNat < 2 ^ 8 := (report (i + 1)).isLt
  apply BitVec.eq_of_toNat_eq
  rw [caseOne, BitVec.toNat_or, hdata, BitVec.toNat_setWidth,
    Nat.mod_eq_of_lt (show (report (i + 1)).toNat < 2 ^ 32 by omega),
    ← Nat.shiftLeft_add_eq_or_of_lt hbyte, BitVec.toNat_ofNat, Nat.shiftLeft_eq]
  omega

theorem caseTwo_data (report : Nat → Byte) (i high : Nat) (data : Word)
    (hdata : data.toNat = high <<< 16) :
    (caseTwo report i data).1 = BitVec.ofNat 32 ((report (i + 1)).toNat +
      256 * ((report (i + 2)).toNat + 256 * high)) := by
  have hbyte : (report (i + 2)).toNat < 2 ^ 8 := (report (i + 2)).isLt
  refine caseOne_data report i _ _ ?_
  have hlow : (report (i + 2)).toNat <<< 8 < 2 ^ 16 := by
    rw [Nat.shiftLeft_eq]
    omega
  rw [BitVec.toNat_or, hdata, byte_shift_toNat _ 8 (by omega),
    ← Nat.shiftLeft_add_eq_or_of_lt hlow, Nat.shiftLeft_eq, Nat.shiftLeft_eq,
    Nat.shiftLeft_eq]
  omega

theorem caseThree_data (report : Nat → Byte) (i : Nat) :
    (caseThree report i 0).1 = BitVec.ofNat 32 ((report (i + 1)).toNat +
      256 * ((report (i + 2)).toNat + 256 * ((report (i + 3)).toNat +
        256 * (report (i + 4)).toNat))) := by
  have hbyte : (report (i + 3)).toNat < 2 ^ 8 := (report (i + 3)).isLt
  have hbyte' : (report (i + 4)).toNat < 2 ^ 8 := (report (i + 4)).isLt
  refine caseTwo_data report i _ _ ?_
  have hlow : (report (i + 3)).toNat <<< 16 < 2 ^ 24 := by
    rw [Nat.shiftLeft_eq]
    omega
  rw [BitVec.toNat_or, BitVec.toNat_or, byte_shift_toNat _ 16 (by omega),
    byte_shift_toNat _ 24 (by omega)]
  rw [show (0 : Word).toNat = 0 from rfl, Nat.zero_or,
    ← Nat.shiftLeft_add_eq_or_of_lt hlow, Nat.shiftLeft_eq, Nat.shiftLeft_eq,
    Nat.shiftLeft_eq]
  omega

/-! ## One item -/

/-- The first `switch` decodes the data of the item. -/
theorem itemData_spec (report : Nat → Byte) (i : Nat) :
    (itemData report i).1 = dataSize (report i) ∧
      (itemData report i).2.1 = BitVec.ofNat 32 (itemAt report i).value ∧
      ∀ j, j ∈ (itemData report i).2.2 ↔ i < j ∧ j ≤ i + dataSize (report i) := by
  have hmod : (report i).toNat % 4 < 4 := Nat.mod_lt _ (by omega)
  unfold itemData
  rw [and_0x03_toNat]
  -- The cases of the `switch` fall through, from the longest item to the empty one.
  by_cases h3 : (report i).toNat % 4 = 3
  · have hsize : dataSize (report i) = 4 := if_pos h3
    have hvalue : (itemAt report i).value = (report (i + 1)).toNat +
        256 * ((report (i + 2)).toNat + 256 * ((report (i + 3)).toNat +
          256 * (report (i + 4)).toNat)) := by
      simp [Item.value, itemAt, hsize, List.range_succ, littleEndian]
    rw [if_pos h3, hsize, hvalue]
    refine ⟨rfl, caseThree_data report i, fun j => ?_⟩
    simp only [caseThree, caseTwo, caseOne, List.mem_cons, List.not_mem_nil,
      or_false]
    omega
  · rw [if_neg h3]
    have hsize : dataSize (report i) = (report i).toNat % 4 := if_neg h3
    by_cases h2 : (report i).toNat % 4 = 2
    · have hvalue : (itemAt report i).value = (report (i + 1)).toNat +
          256 * ((report (i + 2)).toNat + 256 * 0) := by
        simp [Item.value, itemAt, hsize, h2, List.range_succ, littleEndian]
      rw [if_pos h2, hsize, hvalue, h2]
      refine ⟨rfl, caseTwo_data report i 0 0 rfl, fun j => ?_⟩
      simp only [caseTwo, caseOne, List.mem_cons, List.not_mem_nil, or_false]
      omega
    · rw [if_neg h2]
      by_cases h1 : (report i).toNat % 4 = 1
      · have hvalue : (itemAt report i).value =
            (report (i + 1)).toNat + 256 * 0 := by
          simp [Item.value, itemAt, hsize, h1, List.range_succ, littleEndian]
        rw [if_pos h1, hsize, hvalue, h1]
        refine ⟨rfl, caseOne_data report i 0 0 rfl, fun j => ?_⟩
        simp only [caseOne, List.mem_cons, List.not_mem_nil, or_false]
        omega
      · have h0 : (report i).toNat % 4 = 0 := by omega
        have hvalue : (itemAt report i).value = 0 := by
          simp [Item.value, itemAt, hsize, h0, littleEndian]
        rw [if_neg h1, hsize, hvalue, h0]
        refine ⟨rfl, rfl, fun j => ?_⟩
        simp only [List.not_mem_nil, false_iff]
        omega

/-- The variables of the loop are those of the reading. -/
structure Tracks (state : HidState) (reading : Reading) : Prop where
  page : state.page = BitVec.ofNat 32 reading.page
  finger : state.finger = reading.finger
  pen : state.pen = reading.stylus
  deviceType : state.features.deviceType = reading.deviceType
  pktlen : state.features.pktlen = reading.pktlen

/-- Words are compared as numbers. -/
theorem ofNat_eq_iff {a c : Nat} {word : Word} (ha : a < 2 ^ 32) (hc : c < 2 ^ 32)
    (hword : word = BitVec.ofNat 32 c) : BitVec.ofNat 32 a = word ↔ a = c := by
  subst hword
  constructor
  · intro heq
    have hnat := congrArg BitVec.toNat heq
    rwa [BitVec.toNat_ofNat, BitVec.toNat_ofNat, Nat.mod_eq_of_lt ha,
      Nat.mod_eq_of_lt hc] at hnat
  · exact fun heq => by rw [heq]

theorem Reading.usage_lt (reading : Reading) (item : Item) :
    reading.usage item < 2 ^ 32 := by
  unfold Reading.usage
  split_ifs
  · exact Nat.mod_lt _ (by norm_num)
  · exact item.value_lt

/-- The data of a usage item, completed by the page, are the usage. -/
theorem usage_data (htracks : Tracks state reading) (item : Item) :
    (if dataSize item.lead < 4 then
        BitVec.ofNat 32 item.value ||| state.page <<< 16
      else BitVec.ofNat 32 item.value) =
      BitVec.ofNat 32 (reading.usage item) := by
  unfold Reading.usage
  -- Usages of four bytes bring their page along; shorter ones get the current page.
  split_ifs with hshort
  · rw [htracks.page, or_shift_eq _ _ (item.value_lt_of_short hshort)]
    apply BitVec.eq_of_toNat_eq
    simp
  · rfl

/-- What the loop looks at for the extent ends where it should. -/
def EndsAt (extents : List Nat) (i extent : Nat) : Prop :=
  (∀ j ∈ extents, j < i + extent) ∧
    (extent = 0 ∨ ∃ j ∈ extents, j + 1 = i + extent)

theorem endsAt_nil (i : Nat) : EndsAt [] i 0 :=
  ⟨fun _ hj => absurd hj List.not_mem_nil, Or.inl rfl⟩

theorem endsAt_pair (i k : Nat) : EndsAt [i + k, i + (k + 1)] i (k + 2) := by
  refine ⟨fun j hj => ?_, Or.inr ⟨i + (k + 1), by simp, by omega⟩⟩
  rcases List.mem_pair.mp hj with rfl | rfl
  · omega
  · omega

/-- The `switch` over the usages follows the reading. -/
theorem handleUsage_spec (htracks : Tracks state reading)
    (htag : item.tag = usageTag) :
    Tracks (handleUsage report state
        (BitVec.ofNat 32 (reading.usage item))).1 (reading.next item) ∧
      EndsAt (handleUsage report state (BitVec.ofNat 32 (reading.usage item))).2
        state.i (reading.extent item) := by
  have hlt := reading.usage_lt item
  -- The words of the source against the numbers of the reading.
  have hX : BitVec.ofNat 32 (reading.usage item) = hidUsageX ↔
      reading.usage item = desktopX := ofNat_eq_iff hlt (by decide) (by decide)
  have hY : BitVec.ofNat 32 (reading.usage item) = hidUsageY ↔
      reading.usage item = desktopY := ofNat_eq_iff hlt (by decide) (by decide)
  have hfingers : (BitVec.ofNat 32 (reading.usage item) = hidUsageWtFinger ∨
      BitVec.ofNat 32 (reading.usage item) = hidUsageFinger) ↔
        reading.usage item ∈ fingerUsages := by
    rw [fingerUsages, List.mem_pair]
    exact or_congr (ofNat_eq_iff hlt (by decide) (by decide))
      (ofNat_eq_iff hlt (by decide) (by decide))
  have hstyli : (BitVec.ofNat 32 (reading.usage item) = hidUsageWtStylus ∨
      BitVec.ofNat 32 (reading.usage item) = hidUsageStylus) ↔
        reading.usage item ∈ stylusUsages := by
    rw [stylusUsages, List.mem_pair]
    exact or_congr (ofNat_eq_iff hlt (by decide) (by decide))
      (ofNat_eq_iff hlt (by decide) (by decide))
  have hpage : ¬ usageTag = usagePageTag := by decide
  have hfinger : state.finger = true ↔ reading.finger = true := by
    rw [htracks.finger]
  have hpen : state.pen = true ↔ reading.stylus = true := by rw [htracks.pen]
  unfold handleUsage Reading.next Reading.extent
  simp only [hX, hY, hfingers, hstyli, htag, if_neg hpage, if_true, hfinger, hpen]
  -- A horizontal position chooses the device type: by then a finger or a stylus has been
  -- read.
  by_cases hx : reading.usage item = desktopX
  · simp only [if_pos hx, Reading.chooseType]
    by_cases hf : reading.finger = true
    · simp only [if_pos hf]
      exact ⟨⟨htracks.page, htracks.finger, htracks.pen, rfl, rfl⟩,
        endsAt_pair _ 8⟩
    · by_cases hs : reading.stylus = true
      · simp only [if_neg hf, if_pos hs]
        exact ⟨⟨htracks.page, htracks.finger, htracks.pen, rfl, htracks.pktlen⟩,
          endsAt_nil _⟩
      · simp only [if_neg hf, if_neg hs]
        exact ⟨htracks, endsAt_nil _⟩
  · by_cases hy : reading.usage item = desktopY
    · -- The largest ordinate is not part of the reading.
      have hnone : reading.usage item ∉ fingerUsages ∧
          reading.usage item ∉ stylusUsages := by
        rw [hy]
        exact ⟨by decide, by decide⟩
      simp only [if_neg hx, if_pos hy, if_neg hnone.1, if_neg hnone.2]
      by_cases hf : reading.finger = true
      · simp only [if_pos hf]
        exact ⟨⟨htracks.page, htracks.finger, htracks.pen, htracks.deviceType,
          htracks.pktlen⟩, endsAt_pair _ 6⟩
      · by_cases hs : reading.stylus = true
        · simp only [if_neg hf, if_pos hs]
          exact ⟨⟨htracks.page, htracks.finger, htracks.pen, htracks.deviceType,
            htracks.pktlen⟩, endsAt_pair _ 3⟩
        · simp only [if_neg hf, if_neg hs]
          exact ⟨htracks, endsAt_nil _⟩
    · simp only [if_neg hx, if_neg hy]
      by_cases hf : reading.usage item ∈ fingerUsages
      · simp only [if_pos hf]
        exact ⟨⟨htracks.page, rfl, htracks.pen, htracks.deviceType,
          htracks.pktlen⟩, endsAt_nil _⟩
      · by_cases hs : reading.usage item ∈ stylusUsages
        · simp only [if_neg hf, if_pos hs]
          exact ⟨⟨htracks.page, htracks.finger, rfl, htracks.deviceType,
            htracks.pktlen⟩, endsAt_nil _⟩
        · simp only [if_neg hf, if_neg hs]
          exact ⟨htracks, endsAt_nil _⟩

/-- The second `switch` follows the reading. -/
theorem handleItem_spec (htracks : Tracks state reading) (item : Item) :
    Tracks (handleItem report state (item.lead &&& 0xFC) (dataSize item.lead)
        (BitVec.ofNat 32 item.value)).1 (reading.next item) ∧
      EndsAt (handleItem report state (item.lead &&& 0xFC) (dataSize item.lead)
        (BitVec.ofNat 32 item.value)).2 state.i (reading.extent item) := by
  obtain ⟨hpage, husage, hend⟩ :
      (item.lead &&& 0xFC = hidUsagePage ↔ item.tag = usagePageTag) ∧
        (item.lead &&& 0xFC = hidUsage ↔ item.tag = usageTag) ∧
        (item.lead &&& 0xFC = hidCollectionEnd ↔ item.tag = endCollectionTag) :=
    and_0xFC_eq_iff item.lead
  have hdistinct : usagePageTag ≠ usageTag := by decide
  unfold handleItem
  simp only [hpage, husage, hend, usage_data htracks]
  by_cases htag : item.tag = usageTag
  · rw [if_neg fun h => hdistinct (h.symm.trans htag), if_pos htag]
    exact handleUsage_spec htracks htag
  · have hextent : reading.extent item = 0 := if_neg htag
    rw [hextent]
    unfold Reading.next
    by_cases hpageTag : item.tag = usagePageTag
    · rw [if_pos hpageTag, if_pos hpageTag]
      exact ⟨⟨rfl, htracks.finger, htracks.pen, htracks.deviceType,
        htracks.pktlen⟩, endsAt_nil _⟩
    · rw [if_neg hpageTag, if_neg hpageTag, if_neg htag, if_neg htag]
      by_cases hendTag : item.tag = endCollectionTag
      · rw [if_pos hendTag, if_pos hendTag]
        exact ⟨⟨rfl, rfl, htracks.pen, htracks.deviceType, htracks.pktlen⟩,
          endsAt_nil _⟩
      · rw [if_neg hendTag, if_neg hendTag]
        exact ⟨htracks, endsAt_nil _⟩

/-- One round of the loop. -/
theorem parseItem_spec (report : Nat → Byte) (htracks : Tracks state reading) :
    (parseItem report state).1.i =
        state.i + (itemAt report state.i).bytes.length ∧
      Tracks (parseItem report state).1
        (reading.next (itemAt report state.i)) ∧
      (parseItem report state).2.i = state.i ∧
      (parseItem report state).2.data =
        BitVec.ofNat 32 (itemAt report state.i).value ∧
      ∃ extents, EndsAt extents state.i
          (reading.extent (itemAt report state.i)) ∧
        ∀ j, j ∈ (parseItem report state).2.reads ↔
          state.i ≤ j ∧ j < state.i + (itemAt report state.i).bytes.length ∨
            j ∈ extents := by
  obtain ⟨hlen, hdata, hreads⟩ := itemData_spec report state.i
  obtain ⟨htracks', hends⟩ :=
    handleItem_spec htracks (itemAt report state.i)
  have hlead : (itemAt report state.i).lead = report state.i := rfl
  rw [hlead] at htracks' hends
  rw [Item.length_bytes, hlead]
  unfold parseItem
  rcases hitem : itemData report state.i with ⟨len, data, reads⟩
  rw [hitem] at hlen hdata hreads
  simp only at hlen hdata hreads
  subst hlen hdata
  refine ⟨rfl, ⟨htracks'.page, htracks'.finger, htracks'.pen,
    htracks'.deviceType, htracks'.pktlen⟩, rfl, rfl, _, hends, fun j => ?_⟩
  rw [List.mem_cons, List.mem_append, hreads]
  constructor
  · rintro (rfl | ⟨hlow, hhigh⟩ | hj)
    · -- The prefix byte.
      exact Or.inl ⟨le_refl _, by omega⟩
    · exact Or.inl ⟨by omega, by omega⟩
    · exact Or.inr hj
  · rintro (⟨hlow, hhigh⟩ | hj)
    · by_cases hfirst : j = state.i
      · exact Or.inl hfirst
      · exact Or.inr (Or.inl ⟨by omega, by omega⟩)
    · exact Or.inr (Or.inr hj)

/-! ## The loop -/

/-- At the end of the descriptor the loop is left. -/
theorem parseLoop_end (report : Nat → Byte) (rounds : Nat) (hend : length ≤ state.i) :
    parseLoop report length rounds state = some (state, []) := by
  have hnot : ¬ state.i < length := not_lt.mpr hend
  cases rounds with
  | zero => exact if_neg hnot
  | succ rounds => exact if_neg hnot

theorem parseLoop_round {rounds : Nat} {final : HidState} {visits : List Visit}
    (hin : state.i < length)
    (hrest : parseLoop report length rounds (parseItem report state).1 =
      some (final, visits)) :
    parseLoop report length (rounds + 1) state =
      some (final, (parseItem report state).2 :: visits) := by
  unfold parseLoop
  rw [if_pos hin]
  simp only [hrest, Option.bind_eq_bind, Option.bind_some]

/-- The loop goes from item to item. -/
theorem parseLoop_items (length : Nat) (items : List Item) (rounds : Nat)
    (htracks : Tracks state reading) (hholds : Holds report state.i (encode items))
    (hlength : length = state.i + (encode items).length)
    (hrounds : (encode items).length ≤ rounds) :
    ∃ final visits,
      parseLoop report length rounds state = some (final, visits) ∧
        Tracks final (items.foldl Reading.next reading) ∧
        visits.map (fun visit => (visit.i, visit.data)) =
          (placed state.i items).map fun place =>
            (place.1, BitVec.ofNat 32 place.2.value) := by
  induction items generalizing rounds state reading with
  | nil =>
      refine ⟨state, [], parseLoop_end report rounds ?_, htracks, rfl⟩
      rw [hlength]
      exact le_refl _
  | cons item items ih =>
      rw [encode_cons] at hholds hlength hrounds
      rw [List.length_append] at hlength hrounds
      obtain ⟨hfirst, hrest⟩ := holds_append.mp hholds
      have hsize := item.length_bytes
      obtain ⟨hi, htracks', hposition, hdata, -⟩ := parseItem_spec report htracks
      rw [itemAt_eq hfirst] at hi htracks' hdata
      -- Every item has a prefix, so the rounds last.
      cases rounds with
      | zero => omega
      | succ rounds =>
          obtain ⟨final, visits, hloop, hfinal, hvisits⟩ :=
            ih rounds htracks' (hi ▸ hrest) (by omega) (by omega)
          refine ⟨final, _, parseLoop_round (by omega) hloop, hfinal, ?_⟩
          rw [List.map_cons, hvisits, hposition, hdata, hi]
          rfl

/-- The buffer of a descriptor, and what lies behind it. -/
def descriptor (bytes : List Byte) (behind : Nat → Byte) (k : Nat) : Byte :=
  bytes.getD k (behind k)

theorem holds_descriptor (bytes : List Byte) (behind : Nat → Byte) :
    Holds (descriptor bytes behind) 0 bytes := by
  intro k hk
  rw [Nat.zero_add]
  simp [descriptor, List.getD_eq_getElem?_getD, hk]

theorem tracks_start (features : HidFeatures) :
    Tracks ⟨0, 0, false, false, features⟩ (Reading.start features) :=
  ⟨rfl, rfl, rfl, rfl, rfl⟩

theorem parseHid_of_loop {bytes : List Byte} {behind : Nat → Byte} {final : HidState}
    {visits : List Visit}
    (hloop : parseLoop (descriptor bytes behind) bytes.length bytes.length
      ⟨0, 0, false, false, features⟩ = some (final, visits)) :
    parseHid (descriptor bytes behind) bytes.length features =
      some (final.features, visits) := by
  unfold parseHid
  rw [hloop]
  rfl

/-- Parsing a concatenation of complete items visits their prefixes in order,
decodes their data and ends with what the items say. -/
theorem items_followed (items : List Item) (behind : Nat → Byte)
    (features : HidFeatures) :
    ∃ final visits,
      parseHid (descriptor (encode items) behind) (encode items).length
          features = some (final, visits) ∧
        visits.map (fun visit => (visit.i, visit.data)) =
          ((placed 0 items).map fun place =>
            (place.1, BitVec.ofNat 32 place.2.value)) ∧
        final.deviceType =
          (items.foldl Reading.next (.start features)).deviceType ∧
        final.pktlen = (items.foldl Reading.next (.start features)).pktlen := by
  obtain ⟨final, visits, hloop, hfinal, hvisits⟩ :=
    parseLoop_items (encode items).length items _
      (tracks_start features) (holds_descriptor (encode items) behind) (by simp)
      (le_refl _)
  exact ⟨final.features, visits, parseHid_of_loop hloop, hvisits,
    hfinal.deviceType, hfinal.pktlen⟩

/-! ## Reads -/

/-- The bytes are complete items, and for every item that the reading looks for
an extent of they go on far enough. -/
inductive Fits : Reading → List Byte → Prop
  | nil (reading : Reading) : Fits reading []
  | cons (reading : Reading) (item : Item) (rest : List Byte)
      (hextent : reading.extent item ≤ item.bytes.length + rest.length)
      (hrest : Fits (reading.next item) rest) : Fits reading (item.bytes ++ rest)

/-- All reads of the loop are below a bound. -/
def ReadsBelow (length : Nat) (visits : List Visit) : Prop :=
  ∀ visit ∈ visits, ∀ j ∈ visit.reads, j < length

/-- Bytes that fit begin with the item at their position. -/
theorem Fits.first {bytes : List Byte} (hfits : Fits reading bytes)
    (hnonempty : bytes ≠ []) (hholds : Holds report i bytes) :
    ∃ rest, bytes = (itemAt report i).bytes ++ rest ∧
      reading.extent (itemAt report i) ≤ bytes.length ∧
      Fits (reading.next (itemAt report i)) rest := by
  cases hfits with
  | nil => exact absurd rfl hnonempty
  | cons _ item rest hextent hrest =>
      obtain ⟨hfirst, -⟩ := holds_append.mp hholds
      rw [itemAt_eq hfirst]
      exact ⟨rest, rfl, by rwa [List.length_append], hrest⟩

/-- The loop stays in the descriptor exactly when the rest of it fits. -/
theorem parseLoop_fits (length rounds : Nat) {bytes : List Byte}
    (htracks : Tracks state reading) (hholds : Holds report state.i bytes)
    (hlength : length = state.i + bytes.length) (hrounds : bytes.length ≤ rounds) :
    ∃ final visits,
      parseLoop report length rounds state = some (final, visits) ∧
        (ReadsBelow length visits ↔ Fits reading bytes) := by
  induction rounds generalizing state reading bytes with
  | zero =>
      obtain rfl := List.eq_nil_of_length_eq_zero (Nat.le_zero.mp hrounds)
      refine ⟨state, [], parseLoop_end report 0 (le_of_eq hlength), ?_⟩
      exact iff_of_true (fun _ h => absurd h List.not_mem_nil) (Fits.nil reading)
  | succ rounds ih =>
      by_cases hempty : bytes = []
      · subst hempty
        refine ⟨state, [], parseLoop_end report _ (le_of_eq hlength), ?_⟩
        exact iff_of_true (fun _ h => absurd h List.not_mem_nil) (Fits.nil reading)
      · have hpositive := List.length_pos_iff.mpr hempty
        obtain ⟨hi, htracks', -, -, extents, ⟨hbelow, hends⟩, hreads⟩ :=
          parseItem_spec report htracks
        have hsize := (itemAt report state.i).length_bytes
        by_cases hcomplete : (itemAt report state.i).bytes.length ≤ bytes.length
        · -- The item is complete, and the loop goes on behind it.
          have hsplit := eq_append_of_holds hholds
            (holds_itemAt report state.i) hcomplete
          generalize bytes.drop (itemAt report state.i).bytes.length = rest
            at hsplit
          subst hsplit
          obtain ⟨-, hrest⟩ := holds_append.mp hholds
          rw [List.length_append] at hlength hrounds
          obtain ⟨final, visits, hloop, hiff⟩ :=
            ih htracks' (hi ▸ hrest) (by omega) (by omega)
          refine ⟨final, _, parseLoop_round (by omega) hloop, ?_⟩
          constructor
          · intro hall
            refine Fits.cons _ _ _ ?_ (hiff.mp fun visit hvisit =>
              hall visit (List.mem_cons_of_mem _ hvisit))
            rcases hends with hzero | ⟨j, hj, hlast⟩
            · omega
            · -- The last byte that is looked at for the extent is in the descriptor.
              have hlt := hall _ List.mem_cons_self j
                ((hreads j).mpr (Or.inr hj))
              omega
          · intro hfits visit hvisit j hj
            obtain ⟨rest', hsame, hextent, hfits'⟩ := hfits.first hempty hholds
            obtain rfl := List.append_cancel_left hsame
            rw [List.length_append] at hextent
            rcases List.mem_cons.mp hvisit with rfl | hvisit
            · rcases (hreads j).mp hj with hown | hextents
              · omega
              · have hlt := hbelow j hextents
                omega
            · exact hiff.mpr hfits' visit hvisit j hj
        · -- The data of the last item are missing.
          refine ⟨_, _, parseLoop_round (by omega)
            (parseLoop_end report rounds (by omega)), iff_of_false ?_ ?_⟩
          · intro hall
            have hlt := hall _ List.mem_cons_self
              (state.i + (itemAt report state.i).bytes.length - 1)
              ((hreads _).mpr (Or.inl ⟨by omega, by omega⟩))
            omega
          · intro hfits
            obtain ⟨rest, hsame, -, -⟩ := hfits.first hempty hholds
            have hlen := congrArg List.length hsame
            rw [List.length_append] at hlen
            omega

/-- Parsing looks at nothing but the descriptor exactly when the descriptor
consists of complete items that are followed by the extents looked for. -/
theorem reads_below_iff (bytes : List Byte) (behind : Nat → Byte)
    (features : HidFeatures) :
    ∃ final visits,
      parseHid (descriptor bytes behind) bytes.length features =
          some (final, visits) ∧
        (ReadsBelow bytes.length visits ↔ Fits (.start features) bytes) := by
  obtain ⟨final, visits, hloop, hiff⟩ :=
    parseLoop_fits bytes.length bytes.length (tracks_start features)
      (holds_descriptor bytes behind) (by simp) (le_refl _)
  exact ⟨final.features, visits, parseHid_of_loop hloop, hiff⟩

/-- A descriptor that ends with the prefix of a usage item. -/
def truncatedDescriptor : List Byte := [0x05, 0x0d, 0x09]

/-- The usage is read behind the end of the descriptor. -/
theorem truncated_item_read :
    ∃ final visits,
      parseHid (descriptor truncatedDescriptor fun _ => 0)
          truncatedDescriptor.length ⟨.btnToolPen, 9, 0, 0⟩ =
        some (final, visits) ∧
        (∃ visit ∈ visits, 3 ∈ visit.reads) ∧
        ¬ ReadsBelow truncatedDescriptor.length visits := by
  have hrun : parseHid (descriptor truncatedDescriptor fun _ => 0)
      truncatedDescriptor.length ⟨.btnToolPen, 9, 0, 0⟩ =
        some (⟨.btnToolPen, 9, 0, 0⟩,
          [⟨0, 0x0d, [0, 1]⟩, ⟨2, 0, [2, 3]⟩]) := by
    decide +kernel
  refine ⟨_, _, hrun, ⟨⟨2, 0, [2, 3]⟩, by simp, by simp⟩, fun hall => ?_⟩
  exact absurd (hall ⟨2, 0, [2, 3]⟩ (by simp) 3 (by simp)) (by decide)

end TabletDriver
end OsStuff
