import MoneyLaundering.ScatterGather.Records

/-!
# Records on the wire

The fixed-width formats of `scatter_gather_serializer.py` that the durable Q4 workers read and
write. An account id is two padded texts; an id that was read from the wire fits its fields and is
read back as it was written. A pair is written with at most `Q4_QUALIFY_THRESHOLD` paths.
-/

namespace MoneyLaundering

open Bytes TransactionSerializer

/-! ## Account ids -/

namespace Q4AccountId

/-- `Q4AccountIdSerializer.SIZE`. -/
def size : Nat := 48

/-- `Q4AccountIdSerializer.serialize`. -/
def serialize (a : Q4AccountId) : Except String Bytes := do
  let bankId ← encodeFixed a.bankId bankSize "bank_id"
  let account ← encodeFixed a.account accountSize "account"
  return bankId ++ account

/-- `Q4AccountIdSerializer.deserialize`. -/
def deserialize (data : Bytes) : Except String Q4AccountId := do
  Except.raiseIf (data.length ≠ size) s!"invalid Q4 account id size: {data.length}"
  return { bankId := ← decodeFixed data 0 bankSize, account := ← decodeFixed data 16 accountSize }

/-- `Q4AccountIdSerializer.deserialize_batch`. -/
def deserializeBatch : Bytes → Except String (List Q4AccountId) :=
  readRecords size deserialize "Q4 account id"

/-- The id can be written and is read back as it was. -/
structure Fits (a : Q4AccountId) : Prop where
  bankId : Bytes.Fits bankSize a.bankId
  account : Bytes.Fits accountSize a.account

/-- The bytes of an id that fits. -/
def encoded (a : Q4AccountId) : Bytes := padded bankSize a.bankId ++ padded accountSize a.account

variable {a : Q4AccountId}

theorem Fits.serialize (h : a.Fits) : a.serialize = .ok a.encoded := by
  rw [Q4AccountId.serialize, encodeFixed_of_fits h.bankId, encodeFixed_of_fits h.account]
  rfl

theorem Fits.length_encoded (h : a.Fits) : a.encoded.length = size := by
  rw [encoded, List.length_append, h.bankId.length_padded, h.account.length_padded]
  rfl

theorem Fits.deserialize (h : a.Fits) : deserialize a.encoded = .ok a := by
  have hbank : decodeFixed a.encoded 0 bankSize = .ok a.bankId := decodeFixed_of_fits h.bankId [] _
  have haccount : decodeFixed a.encoded 16 accountSize = .ok a.account := by
    have hfield := decodeFixed_of_fits h.account (padded bankSize a.bankId) []
    rwa [h.bankId.length_padded, List.append_nil] at hfield
  rw [Q4AccountId.deserialize, Except.raiseIf_of_not (not_not.mpr h.length_encoded),
    Except.ok_bind, hbank, Except.ok_bind, haccount]
  rfl

/-- The id came over the wire. -/
def OnWire (a : Q4AccountId) : Prop := ∃ data, deserialize data = .ok a

theorem OnWire.fits (h : a.OnWire) : a.Fits := by
  obtain ⟨data, h⟩ := h
  unfold Q4AccountId.deserialize at h
  obtain ⟨-, h⟩ := Except.ok_of_raiseIf h
  obtain ⟨bankId, hbank, h⟩ := Except.ok_of_bind h
  obtain ⟨account, haccount, h⟩ := Except.ok_of_bind h
  cases h
  exact ⟨fits_of_decodeFixed hbank, fits_of_decodeFixed haccount⟩

end Q4AccountId

/-! ## Counted edges -/

/-- The number of a role. -/
def Q4EdgeRole.toNat : Q4EdgeRole → Nat
  | incoming => 1
  | outgoing => 2

/-- `_validate_q4_role` of a number that was read. -/
def Q4EdgeRole.ofNat? : Nat → Option Q4EdgeRole
  | 1 => some incoming
  | 2 => some outgoing
  | _ => none

namespace Q4CountedEdge

/-- `Q4CountedEdgeSerializer.SIZE`. -/
def size : Nat := 105

/-- `Q4CountedEdgeSerializer.serialize`. -/
def serialize (edge : Q4CountedEdge) : Except String Bytes := do
  let role ← pack 1 edge.role.toNat
  let intermediate ← edge.intermediate.serialize
  let endpoint ← edge.endpoint.serialize
  let count ← pack 8 edge.count
  return role ++ intermediate ++ endpoint ++ count

/-- `Q4CountedEdgeSerializer.serialize_batch`. -/
def serializeBatch (edges : List Q4CountedEdge) : Except String Bytes := do
  return (← edges.mapM Q4CountedEdge.serialize).flatten

/-- `Q4CountedEdgeSerializer.deserialize`. -/
def deserialize (data : Bytes) : Except String Q4CountedEdge := do
  Except.raiseIf (data.length ≠ size) s!"invalid Q4 counted edge size: {data.length}"
  match Q4EdgeRole.ofNat? (beDecode (data.take 1)) with
  | none => .error s!"invalid Q4 edge role: {beDecode (data.take 1)}"
  | some role =>
    return {
      role
      intermediate := ← Q4AccountId.deserialize ((data.drop 1).take Q4AccountId.size)
      endpoint := ← Q4AccountId.deserialize ((data.drop 49).take Q4AccountId.size)
      count := beDecode ((data.drop 97).take 8) }

/-- `Q4CountedEdgeSerializer.deserialize_batch`. -/
def deserializeBatch : Bytes → Except String (List Q4CountedEdge) :=
  readRecords size deserialize "Q4 counted edge"

end Q4CountedEdge

/-! ## Pairs -/

namespace Q4PairPaths

/-- `Q4PairPathsSerializer.SIZE`. -/
def size : Nat := 104

/-- `Q4PairPathsSerializer.serialize`. -/
def serialize (p : Q4PairPaths) : Except String Bytes := do
  let source ← p.source.serialize
  let target ← p.target.serialize
  let pathCount ← pack 8 (min p.pathCount q4QualifyThreshold)
  return source ++ target ++ pathCount

/-- `Q4PairPathsSerializer.serialize_batch`. -/
def serializeBatch (items : List Q4PairPaths) : Except String Bytes := do
  return (← items.mapM Q4PairPaths.serialize).flatten

/-- `Q4PairPathsSerializer.deserialize`. -/
def deserialize (data : Bytes) : Except String Q4PairPaths := do
  Except.raiseIf (data.length ≠ size) s!"invalid Q4 pair paths size: {data.length}"
  return {
    source := ← Q4AccountId.deserialize (data.take Q4AccountId.size)
    target := ← Q4AccountId.deserialize ((data.drop 48).take Q4AccountId.size)
    pathCount := beDecode ((data.drop 96).take 8) }

/-- `Q4PairPathsSerializer.deserialize_batch`. -/
def deserializeBatch : Bytes → Except String (List Q4PairPaths) :=
  readRecords size deserialize "Q4 pair paths"

/-- The paths cut at the threshold. -/
def capped (p : Q4PairPaths) : Q4PairPaths :=
  { p with pathCount := min p.pathCount q4QualifyThreshold }

/-- The bytes of a pair of ids that fit. -/
def encoded (p : Q4PairPaths) : Bytes :=
  p.source.encoded ++ (p.target.encoded ++ beEncode 8 (min p.pathCount q4QualifyThreshold))

variable {p : Q4PairPaths}

theorem serialize_eq_encoded (hs : p.source.Fits) (ht : p.target.Fits) :
    p.serialize = .ok p.encoded := by
  have hcount : min p.pathCount q4QualifyThreshold < 256 ^ 8 :=
    lt_of_le_of_lt (min_le_right _ _) (by decide)
  rw [serialize, hs.serialize, ht.serialize, pack_eq_ok_iff.mpr ⟨hcount, rfl⟩]
  simp only [Except.ok_bind, pure, Except.pure, encoded, List.append_assoc]

theorem length_encoded (hs : p.source.Fits) (ht : p.target.Fits) : p.encoded.length = size := by
  rw [encoded, List.length_append, List.length_append, hs.length_encoded, ht.length_encoded,
    length_beEncode]
  rfl

/-- What is read back is the pair with its paths cut. -/
theorem deserialize_encoded (hs : p.source.Fits) (ht : p.target.Fits) :
    deserialize p.encoded = .ok p.capped := by
  have hsource : p.encoded.take Q4AccountId.size = p.source.encoded :=
    List.take_left' hs.length_encoded
  have htarget : (p.encoded.drop 48).take Q4AccountId.size = p.target.encoded :=
    take_drop_field hs.length_encoded ht.length_encoded
  have hcount : (p.encoded.drop 96).take 8 = beEncode 8 (min p.pathCount q4QualifyThreshold) := by
    rw [encoded, ← List.append_assoc, ← List.append_nil (beEncode 8 _)]
    exact take_drop_field
      (by rw [List.length_append, hs.length_encoded, ht.length_encoded]; rfl) (length_beEncode _ _)
  have hlt : min p.pathCount q4QualifyThreshold < 256 ^ 8 :=
    lt_of_le_of_lt (min_le_right _ _) (by decide)
  rw [deserialize, Except.raiseIf_of_not (not_not.mpr (length_encoded hs ht)),
    Except.ok_bind, hsource,
    hs.deserialize, Except.ok_bind, htarget, ht.deserialize, Except.ok_bind, hcount,
      beDecode_beEncode hlt]
  rfl

/-- A batch that is written is read back with all paths cut. -/
theorem deserializeBatch_serializeBatch {items : List Q4PairPaths}
    (h : ∀ p ∈ items, p.source.Fits ∧ p.target.Fits) :
    ∃ payload, serializeBatch items = .ok payload ∧
    deserializeBatch payload = .ok (items.map capped) := by
  refine ⟨(items.map encoded).flatten, ?_, ?_⟩
  · rw [serializeBatch, Except.mapM_eq_map fun p hp => serialize_eq_encoded (h p hp).1 (h p hp).2]
    rfl
  · exact readRecords_flatten (by decide) (fun p hp => length_encoded (h p hp).1 (h p hp).2)
      fun p hp => deserialize_encoded (h p hp).1 (h p hp).2

end Q4PairPaths

end MoneyLaundering
