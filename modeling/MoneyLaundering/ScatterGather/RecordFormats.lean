import MoneyLaundering.Lib.RecordFormat
import MoneyLaundering.ScatterGather.Wire

/-!
# The formats of transactions and Q4 records

`TransactionSerializer` and the serializers of `scatter_gather_serializer.py` as formats of
fixed-size records. Text is padded with NUL and stripped when it is read, so it must not end in one;
a text that is longer than its field makes the serializer raise.
-/

namespace MoneyLaundering

open Bytes TransactionSerializer

/-! ## Fields -/

/-- The text does not end in NUL. -/
def Unpadded (s : String) : Prop := ∀ c, s.toList.getLast? = some c → c ≠ '\x00'

/-- The text is not longer than a field of `width` bytes. -/
def Within (width : Nat) (s : String) : Prop := (encodeText s).length ≤ width

section fields
variable {s fieldName : String} {width : Nat}

theorem encodeFixed_eq_ok_iff {bs : Bytes} :
    encodeFixed s width fieldName = .ok bs ↔ Within width s ∧ padded width s = bs := by
  unfold encodeFixed Except.raiseIf Within
  by_cases h : width < (encodeText s).length
  · rw [if_pos h]
    exact ⟨nofun, fun ⟨hle, _⟩ => absurd h (by omega)⟩
  · rw [if_neg h]
    exact ⟨fun he => ⟨by omega, Except.ok.inj he⟩, fun ⟨_, he⟩ => congrArg Except.ok he⟩

theorem length_padded_of_within (h : Within width s) : (padded width s).length = width := by
  unfold Within at h
  rw [padded, List.length_append, List.length_replicate]
  omega

/-- The text of a field at a cursor. -/
theorem decodeFixed_of_at {data rest : Bytes} {offset : Nat} (hu : Unpadded s) (hw : Within width s)
    (h : At data offset (padded width s ++ rest)) :
    decodeFixed data offset width = .ok s ∧ At data (offset + width) rest := by
  refine ⟨?_, (field_of_at h (length_padded_of_within hw)).2⟩
  obtain ⟨front, rfl, rfl⟩ := h
  exact decodeFixed_of_fits ⟨hw, hu⟩ front rest

/-- The number of a field at a cursor. -/
theorem beDecode_of_at {data rest : Bytes} {offset n : Nat} (hn : n < 256 ^ width)
    (h : At data offset (beEncode width n ++ rest)) :
    beDecode ((data.drop offset).take width) = n ∧ At data (offset + width) rest := by
  obtain ⟨hfield, ha⟩ := field_of_at h (length_beEncode width n)
  exact ⟨by rw [hfield, beDecode_beEncode hn], ha⟩

end fields

/-! ## Transactions -/

namespace TransactionSerializer

/-- `serialize_batch`. -/
def serializeBatch (transactions : List Transaction) : Except String Bytes := do
  return (← transactions.mapM serialize).flatten

end TransactionSerializer

namespace Transaction

/-- No text ends in NUL, and the row number fits. -/
structure Storable (tx : Transaction) : Prop where
  date : Unpadded tx.date
  fromBank : Unpadded tx.fromBank
  fromAccount : Unpadded tx.fromAccount
  toBank : Unpadded tx.toBank
  toAccount : Unpadded tx.toAccount
  currency : Unpadded tx.currency
  format : Unpadded tx.format
  rowNumber : tx.rowNumber < 256 ^ 8

/-- No text exceeds its field. -/
structure WithinFields (tx : Transaction) : Prop where
  date : Within dateSize tx.date
  fromBank : Within bankSize tx.fromBank
  fromAccount : Within accountSize tx.fromAccount
  toBank : Within bankSize tx.toBank
  toAccount : Within accountSize tx.toAccount
  currency : Within currencySize tx.currency
  format : Within formatSize tx.format

/-- The bytes of a transaction whose texts do not exceed their fields. -/
def wire (tx : Transaction) : Bytes :=
  padded dateSize tx.date ++ padded bankSize tx.fromBank ++ padded accountSize tx.fromAccount ++
    padded bankSize tx.toBank ++ padded accountSize tx.toAccount ++ beEncode 8 tx.amount.toNat ++
    padded currencySize tx.currency ++ padded formatSize tx.format ++ beEncode 8 tx.rowNumber

variable {tx : Transaction}

theorem serialize_eq_ok_iff {bs : Bytes} :
    TransactionSerializer.serialize tx = .ok bs ↔
      tx.WithinFields ∧ tx.rowNumber < 256 ^ 8 ∧ tx.wire = bs := by
  constructor
  · intro h
    obtain ⟨_, h₁, h⟩ := Except.ok_of_bind h
    obtain ⟨_, h₂, h⟩ := Except.ok_of_bind h
    obtain ⟨_, h₃, h⟩ := Except.ok_of_bind h
    obtain ⟨_, h₄, h⟩ := Except.ok_of_bind h
    obtain ⟨_, h₅, h⟩ := Except.ok_of_bind h
    obtain ⟨_, h₆, h⟩ := Except.ok_of_bind h
    obtain ⟨_, h₇, h⟩ := Except.ok_of_bind h
    obtain ⟨_, h₈, h⟩ := Except.ok_of_bind h
    obtain ⟨l₁, rfl⟩ := encodeFixed_eq_ok_iff.mp h₁
    obtain ⟨l₂, rfl⟩ := encodeFixed_eq_ok_iff.mp h₂
    obtain ⟨l₃, rfl⟩ := encodeFixed_eq_ok_iff.mp h₃
    obtain ⟨l₄, rfl⟩ := encodeFixed_eq_ok_iff.mp h₄
    obtain ⟨l₅, rfl⟩ := encodeFixed_eq_ok_iff.mp h₅
    obtain ⟨l₆, rfl⟩ := encodeFixed_eq_ok_iff.mp h₆
    obtain ⟨l₇, rfl⟩ := encodeFixed_eq_ok_iff.mp h₇
    obtain ⟨l₈, rfl⟩ := pack_eq_ok_iff.mp h₈
    exact ⟨⟨l₁, l₂, l₃, l₄, l₅, l₆, l₇⟩, l₈, Except.ok.inj h⟩
  · rintro ⟨hw, hrow, rfl⟩
    simp only [TransactionSerializer.serialize, encodeFixed_eq_ok_iff.mpr ⟨hw.date, rfl⟩,
      encodeFixed_eq_ok_iff.mpr ⟨hw.fromBank, rfl⟩, encodeFixed_eq_ok_iff.mpr ⟨hw.fromAccount, rfl⟩,
      encodeFixed_eq_ok_iff.mpr ⟨hw.toBank, rfl⟩, encodeFixed_eq_ok_iff.mpr ⟨hw.toAccount, rfl⟩,
      encodeFixed_eq_ok_iff.mpr ⟨hw.currency, rfl⟩, encodeFixed_eq_ok_iff.mpr ⟨hw.format, rfl⟩,
      pack_eq_ok_iff.mpr ⟨hrow, rfl⟩, Except.ok_bind]
    rfl

theorem length_wire (hw : tx.WithinFields) : tx.wire.length = TransactionSerializer.size := by
  simp only [wire, List.length_append, length_beEncode, length_padded_of_within hw.date,
    length_padded_of_within hw.fromBank, length_padded_of_within hw.fromAccount,
    length_padded_of_within hw.toBank, length_padded_of_within hw.toAccount,
    length_padded_of_within hw.currency, length_padded_of_within hw.format]
  rfl

theorem deserialize_wire (hs : tx.Storable) (hw : tx.WithinFields) :
    TransactionSerializer.deserialize tx.wire = .ok tx := by
  have h₀ := at_zero tx.wire
  nth_rewrite 2 [wire] at h₀
  rw [← List.append_nil (beEncode 8 tx.rowNumber)] at h₀
  simp only [List.append_assoc] at h₀
  obtain ⟨r₁, h₁⟩ := decodeFixed_of_at hs.date hw.date h₀
  obtain ⟨r₂, h₂⟩ := decodeFixed_of_at hs.fromBank hw.fromBank h₁
  obtain ⟨r₃, h₃⟩ := decodeFixed_of_at hs.fromAccount hw.fromAccount h₂
  obtain ⟨r₄, h₄⟩ := decodeFixed_of_at hs.toBank hw.toBank h₃
  obtain ⟨r₅, h₅⟩ := decodeFixed_of_at hs.toAccount hw.toAccount h₄
  obtain ⟨r₆, h₆⟩ := beDecode_of_at (by simpa using tx.amount.toNat_lt) h₅
  obtain ⟨r₇, h₇⟩ := decodeFixed_of_at hs.currency hw.currency h₆
  obtain ⟨r₈, h₈⟩ := decodeFixed_of_at hs.format hw.format h₇
  obtain ⟨r₉, -⟩ := beDecode_of_at hs.rowNumber h₈
  simp only [dateSize, bankSize, accountSize, currencySize, formatSize, Nat.reduceAdd]
    at r₁ r₂ r₃ r₄ r₅ r₆ r₇ r₈ r₉
  rw [TransactionSerializer.deserialize, Except.raiseIf_of_not (not_not.mpr (length_wire hw)),
    Except.ok_bind]
  simp only [dateSize, bankSize, accountSize, currencySize, formatSize, r₁, r₂, r₃, r₄, r₅,
    r₆, r₇, r₈, r₉, Except.ok_bind, UInt64.ofNat_toNat]
  rfl

/-- The format of `TransactionSerializer`. -/
def recordFormat : RecordFormat Transaction where
  size := TransactionSerializer.size
  serialize := TransactionSerializer.serialize
  deserialize := TransactionSerializer.deserialize
  deserializeBatch := TransactionSerializer.deserializeBatch

theorem recordFormat_lawful : recordFormat.Lawful Storable WithinFields where
  size_pos := by decide
  written hs hw := ⟨_, serialize_eq_ok_iff.mpr ⟨hw, hs.rowNumber, rfl⟩⟩
  writable _ hb := (serialize_eq_ok_iff.mp hb).1
  length _ hb := by
    obtain ⟨hw, -, rfl⟩ := serialize_eq_ok_iff.mp hb
    exact length_wire hw
  read hs hb := by
    obtain ⟨hw, -, rfl⟩ := serialize_eq_ok_iff.mp hb
    exact deserialize_wire hs hw
  batch {data n} hd := by
    change data.length = n * 195 at hd
    have hcount : (data.length + TransactionSerializer.size - 1) /
        TransactionSerializer.size = n := by
      change (data.length + 195 - 1) / 195 = n
      omega
    exact (congrArg (fun m => (List.range m).mapM _) hcount)

end Transaction

/-! ## Account ids -/

namespace Q4AccountId

/-- `Q4AccountIdSerializer.serialize_batch`. -/
def serializeBatch (accountIds : List Q4AccountId) : Except String Bytes := do
  return (← accountIds.mapM serialize).flatten

/-- No text ends in NUL. -/
structure Storable (a : Q4AccountId) : Prop where
  bankId : Unpadded a.bankId
  account : Unpadded a.account

/-- No text exceeds its field. -/
structure WithinFields (a : Q4AccountId) : Prop where
  bankId : Within bankSize a.bankId
  account : Within accountSize a.account

variable {a : Q4AccountId}

theorem Storable.fits (hs : a.Storable) (hw : a.WithinFields) : a.Fits :=
  ⟨⟨hw.bankId, hs.bankId⟩, ⟨hw.account, hs.account⟩⟩

theorem serialize_eq_ok_iff {bs : Bytes} :
    a.serialize = .ok bs ↔ a.WithinFields ∧ a.encoded = bs := by
  constructor
  · intro h
    obtain ⟨_, h₁, h⟩ := Except.ok_of_bind h
    obtain ⟨_, h₂, h⟩ := Except.ok_of_bind h
    obtain ⟨l₁, rfl⟩ := encodeFixed_eq_ok_iff.mp h₁
    obtain ⟨l₂, rfl⟩ := encodeFixed_eq_ok_iff.mp h₂
    exact ⟨⟨l₁, l₂⟩, Except.ok.inj h⟩
  · rintro ⟨hw, rfl⟩
    rw [serialize, encodeFixed_eq_ok_iff.mpr ⟨hw.bankId, rfl⟩, Except.ok_bind,
      encodeFixed_eq_ok_iff.mpr ⟨hw.account, rfl⟩]
    rfl

/-- The format of `Q4AccountIdSerializer`. -/
def recordFormat : RecordFormat Q4AccountId where
  size := size
  serialize := serialize
  deserialize := deserialize
  deserializeBatch := deserializeBatch

theorem recordFormat_lawful : recordFormat.Lawful Storable WithinFields where
  size_pos := by decide
  written _ hw := ⟨_, serialize_eq_ok_iff.mpr ⟨hw, rfl⟩⟩
  writable _ hb := (serialize_eq_ok_iff.mp hb).1
  length hs hb := by
    obtain ⟨hw, rfl⟩ := serialize_eq_ok_iff.mp hb
    exact (hs.fits hw).length_encoded
  read hs hb := by
    obtain ⟨hw, rfl⟩ := serialize_eq_ok_iff.mp hb
    exact (hs.fits hw).deserialize
  batch hd := readRecords_of_length (by decide) hd

/-- An id in its slot of a longer record. -/
theorem deserialize_of_at {data rest : Bytes} {offset : Nat} (hs : a.Storable) (hw : a.WithinFields)
    (h : At data offset (a.encoded ++ rest)) :
    deserialize ((data.drop offset).take size) = .ok a ∧ At data (offset + size) rest := by
  obtain ⟨hfield, ha⟩ := field_of_at h (hs.fits hw).length_encoded
  exact ⟨by rw [hfield]; exact (hs.fits hw).deserialize, ha⟩

end Q4AccountId

/-! ## Edges -/

@[simp] theorem Q4EdgeRole.ofNat?_toNat (role : Q4EdgeRole) : ofNat? role.toNat = some role := by
  cases role <;> rfl

theorem Q4EdgeRole.toNat_lt (role : Q4EdgeRole) : role.toNat < 256 ^ 1 := by cases role <;> decide

namespace Q4CountedEdge

/-- No text ends in NUL, and the count fits. -/
structure Storable (edge : Q4CountedEdge) : Prop where
  intermediate : edge.intermediate.Storable
  endpoint : edge.endpoint.Storable
  count : edge.count < 256 ^ 8

/-- No text exceeds its field. -/
structure WithinFields (edge : Q4CountedEdge) : Prop where
  intermediate : edge.intermediate.WithinFields
  endpoint : edge.endpoint.WithinFields

/-- The bytes of an edge whose texts do not exceed their fields. -/
def wire (edge : Q4CountedEdge) : Bytes :=
  beEncode 1 edge.role.toNat ++ edge.intermediate.encoded ++ edge.endpoint.encoded ++
    beEncode 8 edge.count

variable {edge : Q4CountedEdge}

theorem serialize_eq_ok_iff {bs : Bytes} :
    edge.serialize = .ok bs ↔ edge.WithinFields ∧ edge.count < 256 ^ 8 ∧ edge.wire = bs := by
  constructor
  · intro h
    obtain ⟨_, h₁, h⟩ := Except.ok_of_bind h
    obtain ⟨_, h₂, h⟩ := Except.ok_of_bind h
    obtain ⟨_, h₃, h⟩ := Except.ok_of_bind h
    obtain ⟨_, h₄, h⟩ := Except.ok_of_bind h
    obtain ⟨-, rfl⟩ := pack_eq_ok_iff.mp h₁
    obtain ⟨l₂, rfl⟩ := Q4AccountId.serialize_eq_ok_iff.mp h₂
    obtain ⟨l₃, rfl⟩ := Q4AccountId.serialize_eq_ok_iff.mp h₃
    obtain ⟨l₄, rfl⟩ := pack_eq_ok_iff.mp h₄
    exact ⟨⟨l₂, l₃⟩, l₄, Except.ok.inj h⟩
  · rintro ⟨hw, hcount, rfl⟩
    rw [serialize, pack_eq_ok_iff.mpr ⟨edge.role.toNat_lt, rfl⟩, Except.ok_bind,
      Q4AccountId.serialize_eq_ok_iff.mpr ⟨hw.intermediate, rfl⟩, Except.ok_bind,
      Q4AccountId.serialize_eq_ok_iff.mpr ⟨hw.endpoint, rfl⟩, Except.ok_bind,
      pack_eq_ok_iff.mpr ⟨hcount, rfl⟩]
    rfl

theorem length_wire (hs : edge.Storable) (hw : edge.WithinFields) : edge.wire.length = size := by
  simp only [wire, List.length_append, length_beEncode,
    (hs.intermediate.fits hw.intermediate).length_encoded,
      (hs.endpoint.fits hw.endpoint).length_encoded]
  rfl

theorem deserialize_wire (hs : edge.Storable) (hw : edge.WithinFields) :
    deserialize edge.wire = .ok edge := by
  have h₀ := at_zero edge.wire
  nth_rewrite 2 [wire] at h₀
  rw [← List.append_nil (beEncode 8 edge.count)] at h₀
  simp only [List.append_assoc] at h₀
  obtain ⟨r₁, h₁⟩ := beDecode_of_at edge.role.toNat_lt h₀
  obtain ⟨r₂, h₂⟩ := Q4AccountId.deserialize_of_at hs.intermediate hw.intermediate h₁
  obtain ⟨r₃, h₃⟩ := Q4AccountId.deserialize_of_at hs.endpoint hw.endpoint h₂
  obtain ⟨r₄, -⟩ := beDecode_of_at hs.count h₃
  simp only [Q4AccountId.size, Nat.reduceAdd, List.drop_zero] at r₁ r₂ r₃ r₄
  rw [deserialize, Except.raiseIf_of_not (not_not.mpr (length_wire hs hw)), Except.ok_bind, r₁,
    Q4EdgeRole.ofNat?_toNat]
  simp only [Q4AccountId.size, r₂, r₃, r₄, Except.ok_bind]
  rfl

/-- The format of `Q4CountedEdgeSerializer`. -/
def recordFormat : RecordFormat Q4CountedEdge where
  size := size
  serialize := serialize
  deserialize := deserialize
  deserializeBatch := deserializeBatch

theorem recordFormat_lawful : recordFormat.Lawful Storable WithinFields where
  size_pos := by decide
  written hs hw := ⟨_, serialize_eq_ok_iff.mpr ⟨hw, hs.count, rfl⟩⟩
  writable _ hb := (serialize_eq_ok_iff.mp hb).1
  length hs hb := by
    obtain ⟨hw, -, rfl⟩ := serialize_eq_ok_iff.mp hb
    exact length_wire hs hw
  read hs hb := by
    obtain ⟨hw, -, rfl⟩ := serialize_eq_ok_iff.mp hb
    exact deserialize_wire hs hw
  batch hd := readRecords_of_length (by decide) hd

end Q4CountedEdge

namespace Q4BlockJoinEdge

/-- `Q4BlockJoinEdgeSerializer.SIZE`. -/
def size : Nat := 113

/-- `Q4BlockJoinEdgeSerializer.serialize`. -/
def serialize (edge : Q4BlockJoinEdge) : Except String Bytes := do
  let role ← pack 1 edge.role.toNat
  let intermediate ← edge.intermediate.serialize
  let endpoint ← edge.endpoint.serialize
  let aBucket ← pack 4 edge.aBucket
  let bBucket ← pack 4 edge.bBucket
  let count ← pack 8 edge.count
  return role ++ intermediate ++ endpoint ++ aBucket ++ bBucket ++ count

/-- `Q4BlockJoinEdgeSerializer.serialize_batch`. -/
def serializeBatch (edges : List Q4BlockJoinEdge) : Except String Bytes := do
  return (← edges.mapM Q4BlockJoinEdge.serialize).flatten

/-- `Q4BlockJoinEdgeSerializer.deserialize`. -/
def deserialize (data : Bytes) : Except String Q4BlockJoinEdge := do
  Except.raiseIf (data.length ≠ size) s!"invalid Q4 block join edge size: {data.length}"
  match Q4EdgeRole.ofNat? (beDecode (data.take 1)) with
  | none => .error s!"invalid Q4 edge role: {beDecode (data.take 1)}"
  | some role =>
    return {
      role
      intermediate := ← Q4AccountId.deserialize ((data.drop 1).take Q4AccountId.size)
      endpoint := ← Q4AccountId.deserialize ((data.drop 49).take Q4AccountId.size)
      aBucket := beDecode ((data.drop 97).take 4)
      bBucket := beDecode ((data.drop 101).take 4)
      count := beDecode ((data.drop 105).take 8) }

/-- `Q4BlockJoinEdgeSerializer.deserialize_batch`. -/
def deserializeBatch : Bytes → Except String (List Q4BlockJoinEdge) :=
  readRecords size deserialize "Q4 block join edge"

/-- No text ends in NUL, and the numbers fit. -/
structure Storable (edge : Q4BlockJoinEdge) : Prop where
  intermediate : edge.intermediate.Storable
  endpoint : edge.endpoint.Storable
  aBucket : edge.aBucket < 256 ^ 4
  bBucket : edge.bBucket < 256 ^ 4
  count : edge.count < 256 ^ 8

/-- No text exceeds its field. -/
structure WithinFields (edge : Q4BlockJoinEdge) : Prop where
  intermediate : edge.intermediate.WithinFields
  endpoint : edge.endpoint.WithinFields

/-- The bytes of an edge whose texts do not exceed their fields. -/
def wire (edge : Q4BlockJoinEdge) : Bytes :=
  beEncode 1 edge.role.toNat ++ edge.intermediate.encoded ++ edge.endpoint.encoded ++
    beEncode 4 edge.aBucket ++ beEncode 4 edge.bBucket ++ beEncode 8 edge.count

variable {edge : Q4BlockJoinEdge}

theorem serialize_eq_ok_iff (hs : edge.Storable) {bs : Bytes} :
    edge.serialize = .ok bs ↔ edge.WithinFields ∧ edge.wire = bs := by
  constructor
  · intro h
    obtain ⟨_, h₁, h⟩ := Except.ok_of_bind h
    obtain ⟨_, h₂, h⟩ := Except.ok_of_bind h
    obtain ⟨_, h₃, h⟩ := Except.ok_of_bind h
    obtain ⟨_, h₄, h⟩ := Except.ok_of_bind h
    obtain ⟨_, h₅, h⟩ := Except.ok_of_bind h
    obtain ⟨_, h₆, h⟩ := Except.ok_of_bind h
    obtain ⟨-, rfl⟩ := pack_eq_ok_iff.mp h₁
    obtain ⟨l₂, rfl⟩ := Q4AccountId.serialize_eq_ok_iff.mp h₂
    obtain ⟨l₃, rfl⟩ := Q4AccountId.serialize_eq_ok_iff.mp h₃
    obtain ⟨-, rfl⟩ := pack_eq_ok_iff.mp h₄
    obtain ⟨-, rfl⟩ := pack_eq_ok_iff.mp h₅
    obtain ⟨-, rfl⟩ := pack_eq_ok_iff.mp h₆
    exact ⟨⟨l₂, l₃⟩, Except.ok.inj h⟩
  · rintro ⟨hw, rfl⟩
    rw [serialize, pack_eq_ok_iff.mpr ⟨edge.role.toNat_lt, rfl⟩, Except.ok_bind,
      Q4AccountId.serialize_eq_ok_iff.mpr ⟨hw.intermediate, rfl⟩, Except.ok_bind,
      Q4AccountId.serialize_eq_ok_iff.mpr ⟨hw.endpoint, rfl⟩, Except.ok_bind,
      pack_eq_ok_iff.mpr ⟨hs.aBucket, rfl⟩, Except.ok_bind, pack_eq_ok_iff.mpr ⟨hs.bBucket, rfl⟩,
      Except.ok_bind, pack_eq_ok_iff.mpr ⟨hs.count, rfl⟩]
    rfl

theorem length_wire (hs : edge.Storable) (hw : edge.WithinFields) : edge.wire.length = size := by
  simp only [wire, List.length_append, length_beEncode,
    (hs.intermediate.fits hw.intermediate).length_encoded,
      (hs.endpoint.fits hw.endpoint).length_encoded]
  rfl

theorem deserialize_wire (hs : edge.Storable) (hw : edge.WithinFields) :
    deserialize edge.wire = .ok edge := by
  have h₀ := at_zero edge.wire
  nth_rewrite 2 [wire] at h₀
  rw [← List.append_nil (beEncode 8 edge.count)] at h₀
  simp only [List.append_assoc] at h₀
  obtain ⟨r₁, h₁⟩ := beDecode_of_at edge.role.toNat_lt h₀
  obtain ⟨r₂, h₂⟩ := Q4AccountId.deserialize_of_at hs.intermediate hw.intermediate h₁
  obtain ⟨r₃, h₃⟩ := Q4AccountId.deserialize_of_at hs.endpoint hw.endpoint h₂
  obtain ⟨r₄, h₄⟩ := beDecode_of_at hs.aBucket h₃
  obtain ⟨r₅, h₅⟩ := beDecode_of_at hs.bBucket h₄
  obtain ⟨r₆, -⟩ := beDecode_of_at hs.count h₅
  simp only [Q4AccountId.size, Nat.reduceAdd, List.drop_zero] at r₁ r₂ r₃ r₄ r₅ r₆
  rw [deserialize, Except.raiseIf_of_not (not_not.mpr (length_wire hs hw)), Except.ok_bind, r₁,
    Q4EdgeRole.ofNat?_toNat]
  simp only [Q4AccountId.size, r₂, r₃, r₄, r₅, r₆, Except.ok_bind]
  rfl

/-- The format of `Q4BlockJoinEdgeSerializer`. -/
def recordFormat : RecordFormat Q4BlockJoinEdge where
  size := size
  serialize := serialize
  deserialize := deserialize
  deserializeBatch := deserializeBatch

theorem recordFormat_lawful : recordFormat.Lawful Storable WithinFields where
  size_pos := by decide
  written hs hw := ⟨_, (serialize_eq_ok_iff hs).mpr ⟨hw, rfl⟩⟩
  writable hs hb := ((serialize_eq_ok_iff hs).mp hb).1
  length hs hb := by
    obtain ⟨hw, rfl⟩ := (serialize_eq_ok_iff hs).mp hb
    exact length_wire hs hw
  read hs hb := by
    obtain ⟨hw, rfl⟩ := (serialize_eq_ok_iff hs).mp hb
    exact deserialize_wire hs hw
  batch hd := readRecords_of_length (by decide) hd

end Q4BlockJoinEdge

/-- **Record batches.** For transactions, counted edges, block join edges and account ids whose
texts do not end in NUL and whose numbers fit: a batch is either refused, and then some text exceeds
its field, or reads back as it was; the bytes of two batches read back as both lists; and no two
records share their bytes. -/
theorem record_batches :
    Transaction.recordFormat.BatchLaws Transaction.Storable Transaction.WithinFields ∧
    Q4CountedEdge.recordFormat.BatchLaws Q4CountedEdge.Storable Q4CountedEdge.WithinFields ∧
    Q4BlockJoinEdge.recordFormat.BatchLaws Q4BlockJoinEdge.Storable Q4BlockJoinEdge.WithinFields ∧
    Q4AccountId.recordFormat.BatchLaws Q4AccountId.Storable Q4AccountId.WithinFields :=
  ⟨Transaction.recordFormat_lawful.batchLaws, Q4CountedEdge.recordFormat_lawful.batchLaws,
    Q4BlockJoinEdge.recordFormat_lawful.batchLaws, Q4AccountId.recordFormat_lawful.batchLaws⟩

end MoneyLaundering
