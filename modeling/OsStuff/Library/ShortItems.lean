import Mathlib.Tactic

/-!
# Short items

A short item is a prefix byte and the data bytes that its low two bits announce:
none, one, two or four, the least significant first.  A descriptor is a
concatenation of items in a buffer of bytes; `Holds` says where in the buffer.
-/

namespace OsStuff
namespace Library
namespace ShortItems

/-- The number of data bytes that a prefix announces. -/
def dataSize (lead : BitVec 8) : Nat :=
  if lead.toNat % 4 = 3 then 4 else lead.toNat % 4

/-- A complete item. -/
structure Item where
  lead : BitVec 8
  data : List (BitVec 8)
  complete : data.length = dataSize lead

/-- The number that bytes stand for, the least significant first. -/
def littleEndian : List (BitVec 8) → Nat
  | [] => 0
  | byte :: bytes => byte.toNat + 256 * littleEndian bytes

namespace Item

/-- The bits of the prefix above the size. -/
def tag (item : Item) : Nat := item.lead.toNat / 4

def bytes (item : Item) : List (BitVec 8) := item.lead :: item.data

def value (item : Item) : Nat := littleEndian item.data

end Item

/-- The bytes of items one after another. -/
def encode (items : List Item) : List (BitVec 8) :=
  items.flatMap Item.bytes

/-- The items with the positions of their prefixes. -/
def placed (start : Nat) : List Item → List (Nat × Item)
  | [] => []
  | item :: items => (start, item) :: placed (start + item.bytes.length) items

/-- The buffer has the bytes from a position on. -/
def Holds (buffer : Nat → BitVec 8) (start : Nat) (bytes : List (BitVec 8)) : Prop :=
  ∀ k (hk : k < bytes.length), buffer (start + k) = bytes[k]

variable {buffer : Nat → BitVec 8} {start k : Nat} {bytes bytes' : List (BitVec 8)}
  {byte : BitVec 8} {item : Item} {items : List Item}

theorem littleEndian_lt (bytes : List (BitVec 8)) :
    littleEndian bytes < 256 ^ bytes.length := by
  induction bytes with
  | nil => simp [littleEndian]
  | cons byte bytes ih =>
      have hbyte : byte.toNat < 256 := byte.isLt
      simp only [littleEndian, List.length_cons, Nat.pow_succ]
      omega

theorem dataSize_le (lead : BitVec 8) : dataSize lead ≤ 4 := by
  unfold dataSize
  split_ifs
  · omega
  · omega

theorem Item.value_lt (item : Item) : item.value < 2 ^ 32 := by
  have hlt := littleEndian_lt item.data
  have hle : 256 ^ item.data.length ≤ 256 ^ 4 :=
    Nat.pow_le_pow_right (by omega) (item.complete ▸ dataSize_le item.lead)
  unfold Item.value
  omega

/-- Up to two data bytes make a number of sixteen bits. -/
theorem Item.value_lt_of_short (hshort : dataSize item.lead < 4) :
    item.value < 2 ^ 16 := by
  have hlt := littleEndian_lt item.data
  have htwo : dataSize item.lead ≤ 2 := by
    unfold dataSize at hshort ⊢
    split_ifs at hshort ⊢ with hfour
    · omega
    · omega
  have hle : 256 ^ item.data.length ≤ 256 ^ 2 :=
    Nat.pow_le_pow_right (by omega) (item.complete ▸ htwo)
  unfold Item.value
  omega

theorem Item.length_bytes (item : Item) :
    item.bytes.length = dataSize item.lead + 1 := by
  rw [Item.bytes, List.length_cons, item.complete]

theorem encode_cons (item : Item) (items : List Item) :
    encode (item :: items) = item.bytes ++ encode items := by
  simp [encode]

theorem holds_append : Holds buffer start (bytes ++ bytes') ↔
    Holds buffer start bytes ∧ Holds buffer (start + bytes.length) bytes' := by
  constructor
  · intro hholds
    constructor
    · intro k hk
      rw [hholds k (by rw [List.length_append]; omega),
        List.getElem_append_left hk]
    · intro k hk
      rw [Nat.add_assoc, hholds (bytes.length + k)
        (by rw [List.length_append]; omega), List.getElem_append_right (by omega)]
      simp
  · rintro ⟨hfront, hback⟩ k hk
    by_cases hlt : k < bytes.length
    · rw [hfront k hlt, List.getElem_append_left hlt]
    · have hback' := hback (k - bytes.length)
        (by rw [List.length_append] at hk; omega)
      rw [show start + bytes.length + (k - bytes.length) = start + k by omega]
        at hback'
      rw [hback', List.getElem_append_right (by omega)]

theorem holds_cons : Holds buffer start (byte :: bytes) ↔
    buffer start = byte ∧ Holds buffer (start + 1) bytes := by
  have happend : Holds buffer start ([byte] ++ bytes) ↔
      Holds buffer start [byte] ∧ Holds buffer (start + [byte].length) bytes :=
    holds_append
  rw [List.singleton_append] at happend
  rw [happend]
  have hsingle : Holds buffer start [byte] ↔ buffer start = byte := by
    constructor
    · intro hholds
      simpa using hholds 0 (by simp)
    · intro hbyte k hk
      obtain rfl : k = 0 := by simpa using hk
      simpa using hbyte
  rw [hsingle]
  rfl

/-- Shorter bytes at the same position are the first ones. -/
theorem eq_append_of_holds (hholds : Holds buffer start bytes)
    (hfront : Holds buffer start bytes') (hle : bytes'.length ≤ bytes.length) :
    bytes = bytes' ++ bytes.drop bytes'.length := by
  have htake : bytes.take bytes'.length = bytes' := by
    refine List.ext_getElem (by simp [hle]) fun k hk hk' => ?_
    rw [List.getElem_take, ← hholds k (by omega), ← hfront k hk']
  calc bytes = bytes.take bytes'.length ++ bytes.drop bytes'.length :=
        (List.take_append_drop _ _).symm
    _ = bytes' ++ bytes.drop bytes'.length := by rw [htake]

/-- The item whose prefix is at a position. -/
def itemAt (buffer : Nat → BitVec 8) (start : Nat) : Item where
  lead := buffer start
  data := (List.range (dataSize (buffer start))).map fun k => buffer (start + 1 + k)
  complete := by simp

theorem holds_itemAt (buffer : Nat → BitVec 8) (start : Nat) :
    Holds buffer start (itemAt buffer start).bytes := by
  refine holds_cons.mpr ⟨rfl, fun k hk => ?_⟩
  simp [itemAt]

/-- A buffer that has an item at a position has no other one there. -/
theorem itemAt_eq (hholds : Holds buffer start item.bytes) :
    itemAt buffer start = item := by
  obtain ⟨lead, data, complete⟩ := item
  obtain ⟨hlead, hdata⟩ := holds_cons.mp hholds
  have hsame : (itemAt buffer start).data = data := by
    refine List.ext_getElem (by simp [itemAt, hlead, complete]) fun k hk hk' => ?_
    rw [← hdata k hk']
    simp [itemAt]
  unfold itemAt at hsame ⊢
  simp only [Item.mk.injEq]
  exact ⟨hlead, hsame⟩

end ShortItems
end Library
end OsStuff
