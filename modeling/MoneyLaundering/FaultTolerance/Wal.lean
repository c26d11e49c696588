import MoneyLaundering.FaultTolerance.Inbox
import MoneyLaundering.FaultTolerance.Outbox

/-!
# The write-ahead log

The binary log of finished steps (`wal/writer.py`, `wal/reader.py`, `wal/wal.py`): a record is a
one-byte type, a four-byte length and a payload, appended at the end of the file.

What was appended is what is replayed (`Wal.replay_appendAll`). The reader stops silently at a
record that a crash cut short, but the writer opens the file in append mode, so the next record is
framed together with the torn bytes: `Wal.replay_across_torn_tail_iff` says that records appended
after a torn tail survive exactly when the tail is empty.
-/

namespace MoneyLaundering

open Bytes

/-- `json.dumps` and `_decode_json_state_change` on the state changes of a worker: changes that are
written are read back. -/
structure StateChangeCodec (Δ : Type) where
  dumps : Δ → Except String Bytes
  loads : Bytes → Except String Δ
  loads_dumps : ∀ change bs, dumps change = .ok bs → loads bs = .ok change

/-- A codec that knows a few values and their texts. -/
def StateChangeCodec.ofTable {Δ : Type} [DecidableEq Δ] (table : List (Δ × Bytes)) :
    StateChangeCodec Δ where
  loads bs :=
    match table.find? fun e => e.2 == bs with
    | some e => .ok e.1
    | none => .error "unknown text"
  dumps change :=
    match table.find? fun e => e.1 == change with
    | some e =>
      match table.find? fun e' => e'.2 == e.2 with
      | some e' => if e'.1 = change then .ok e.2 else .error "ambiguous text"
      | none => .error "unknown value"
    | none => .error "unknown value"
  loads_dumps change bs h := by
    split at h
    · split at h
      · next e' he' =>
        split at h
        · next heq =>
          cases h
          rw [he']
          exact congrArg Except.ok heq
        · cases h
      · cases h
    · cases h

/-- `WalRecord`: `InputApplied` or `InputDone`. -/
inductive WalRecord (Δ : Type) where
  | inputApplied (msgId : String) (key : InputKey) (stateChange : Δ) (outputs : List OutboxEntry)
  | inputDone (msgId : String) (key : InputKey)
  deriving DecidableEq

/-- `RecordType`. -/
inductive RecordType where
  | inputApplied | inputDone
  deriving DecidableEq, Repr

namespace RecordType

def toNat : RecordType → Nat
  | inputApplied => 1
  | inputDone => 2

def ofNat? : Nat → Option RecordType
  | 1 => some inputApplied
  | 2 => some inputDone
  | _ => none

@[simp] theorem ofNat?_toNat (t : RecordType) : ofNat? t.toNat = some t := by cases t <;> rfl

theorem toNat_lt (t : RecordType) : t.toNat < 256 ^ 1 := by cases t <;> decide

theorem toNat_of_ofNat? {n : Nat} {t : RecordType} (h : ofNat? n = some t) : t.toNat = n := by
  unfold ofNat? at h
  split at h <;> first | contradiction | (cases h; rfl)

end RecordType

theorem MsgKind.toNat_of_ofNat? {n : Nat} {kind : MsgKind} (h : MsgKind.ofNat? n = some kind) :
    kind.toNat = n := by
  unfold MsgKind.ofNat? at h
  split at h <;> first | contradiction | (cases h; rfl)

theorem MsgKind.toNat_lt_byte (kind : MsgKind) : kind.toNat < 256 ^ 1 := by
  have := kind.toNat_lt; omega

namespace Wal

variable {Δ : Type}

/-! ## Writing -/

/-- The coordinates of an input, as both record types write them after the message id. -/
def keyBytes (key : InputKey) : Except String Bytes := do
  let clientId ← pack 4 key.clientId
  let senderId ← pack 4 key.senderId
  let kind ← pack 1 key.kind.toNat
  let seq ← pack 4 key.seq
  return clientId ++ senderId ++ kind ++ seq

/-- The payload of `write_input_applied`. -/
def inputAppliedPayload (json : StateChangeCodec Δ) (msgId : String) (key : InputKey)
    (stateChange : Δ) (outputs : List OutboxEntry) : Except String Bytes := do
  let stateChange ← json.dumps stateChange
  Except.raiseIf (maxUint16 < (encodeText msgId).length) "msg_id too long"
  Except.raiseIf (maxUint32 < stateChange.length) "state_change too long"
  Except.raiseIf (maxUint16 < outputs.length) "too many outbox entries"
  let outboxBlob ← OutboxEntry.serializeAll outputs
  let coordinates ← keyBytes key
  return lengthPrefixed 2 (encodeText msgId) ++ coordinates ++ lengthPrefixed 4 stateChange ++
    beEncode 2 outputs.length ++ outboxBlob

/-- The payload of `write_input_done`. -/
def inputDonePayload (msgId : String) (key : InputKey) : Except String Bytes := do
  Except.raiseIf (maxUint16 < (encodeText msgId).length) "msg_id too long"
  let coordinates ← keyBytes key
  return lengthPrefixed 2 (encodeText msgId) ++ coordinates

/-- The bytes `_write_record` puts at the end of the file. -/
def frame (t : RecordType) (payload : Bytes) : Except String Bytes := do
  Except.raiseIf (maxUint32 < payload.length) "payload too long"
  return beEncode 1 t.toNat ++ lengthPrefixed 4 payload

/-- The bytes of one record. -/
def encode (json : StateChangeCodec Δ) : WalRecord Δ → Except String Bytes
  | .inputApplied msgId key stateChange outputs => do
    frame .inputApplied (← inputAppliedPayload json msgId key stateChange outputs)
  | .inputDone msgId key => do
    frame .inputDone (← inputDonePayload msgId key)

/-- `Wal.append`: the file is open in append mode. -/
def append (json : StateChangeCodec Δ) (file : Bytes) (record : WalRecord Δ) :
    Except String Bytes := do
  let bs ← encode json record
  return file ++ bs

/-- A list of records appended one after the other. -/
def appendAll (json : StateChangeCodec Δ) (file : Bytes) : List (WalRecord Δ) → Except String Bytes
  | [] => .ok file
  | record :: records => do
    appendAll json (← append json file record) records

/-! ## Reading -/

/-- `WALRawRecord`. -/
structure RawRecord where
  lsn : Nat
  recordType : RecordType
  payload : Bytes
  deriving DecidableEq

/-- `HEADER_SIZE`. -/
def headerSize : Nat := 5

/-- `WALReader.records` on what remains of the file at `lsn`: the records it yields; an error is
raised in place of the last one. -/
def records (lsn : Nat) (rest : Bytes) : List (Except String RawRecord) :=
  if rest.length < headerSize then []
  else
    let rawType := beDecode (rest.take 1)
    let length := beDecode ((rest.drop 1).take 4)
    let payload := (rest.drop headerSize).take length
    if payload.length < length then []
    else
      match RecordType.ofNat? rawType with
      | none => [.error s!"unknown WAL record type {rawType} at LSN {lsn}"]
      | some t =>
        .ok ⟨lsn, t, payload⟩ ::
          records (lsn + headerSize + length) (rest.drop (headerSize + length))
termination_by rest.length
decreasing_by
  simp only [List.length_drop, headerSize] at *
  omega

/-- `_decode_text`. -/
def decodeText (field : String) (data : Bytes) : Except String String :=
  match decodeText? data with
  | some s => .ok s
  | none => .error s!"invalid UTF-8 in WAL {field}"

/-- `MsgKind(value)`. -/
def toMsgKind (value : Nat) : Except String MsgKind :=
  match MsgKind.ofNat? value with
  | some kind => .ok kind
  | none => .error s!"{value} is not a valid MsgKind"

/-- `_ensure_consumed`. -/
def ensureConsumed (payload : Bytes) (offset : Nat) : Except String PUnit :=
  Except.raiseIf (offset ≠ payload.length)
    s!"record payload has {payload.length - offset} unexpected trailing bytes"

def decodeInputApplied (json : StateChangeCodec Δ) (payload : Bytes) :
    Except String (WalRecord Δ) := do
  let (msgId, offset) ← readLengthPrefixed 2 payload 0
  let (clientId, offset) ← readUint 4 payload offset
  let (senderId, offset) ← readUint 4 payload offset
  let (kindRaw, offset) ← readUint 1 payload offset
  let (seq, offset) ← readUint 4 payload offset
  let (stateChange, offset) ← readLengthPrefixed 4 payload offset
  let (outboxCount, offset) ← readUint 2 payload offset
  let (outputs, offset) ← OutboxEntry.deserializeAll payload outboxCount offset
  ensureConsumed payload offset
  let msgId ← decodeText "msg_id" msgId
  let stateChange ← json.loads stateChange
  let kind ← toMsgKind kindRaw
  return .inputApplied msgId { clientId, kind, senderId, seq } stateChange outputs

def decodeInputDone (payload : Bytes) : Except String (WalRecord Δ) := do
  let (msgId, offset) ← readLengthPrefixed 2 payload 0
  let (clientId, offset) ← readUint 4 payload offset
  let (senderId, offset) ← readUint 4 payload offset
  let (kindRaw, offset) ← readUint 1 payload offset
  let (seq, offset) ← readUint 4 payload offset
  ensureConsumed payload offset
  let msgId ← decodeText "msg_id" msgId
  let kind ← toMsgKind kindRaw
  return .inputDone msgId { clientId, kind, senderId, seq }

def decodeRecord (json : StateChangeCodec Δ) (record : RawRecord) : Except String (WalRecord Δ) :=
  match record.recordType with
  | .inputApplied => decodeInputApplied json record.payload
  | .inputDone => decodeInputDone record.payload

/-- `WALReader.records_after`. -/
def recordsAfter (file : Bytes) (checkpointLsn : Int) : List (Except String RawRecord) :=
  (records 0 file).filter fun
    | .ok record => decide (checkpointLsn < record.lsn)
    | .error _ => true

/-- `Wal.replay`, run to its end. -/
def replay (json : StateChangeCodec Δ) (file : Bytes) (fromRecord : Int) :
    Except String (List (WalRecord Δ)) :=
  (recordsAfter file fromRecord).mapM fun raw => raw >>= decodeRecord json

/-! ## Reading back what was written -/

section roundTrip
variable {json : StateChangeCodec Δ}

@[simp] theorem decodeText_encodeText (field s : String) :
    decodeText field (encodeText s) = .ok s := by simp [decodeText]

@[simp] theorem toMsgKind_toNat (kind : MsgKind) : toMsgKind kind.toNat = .ok kind := by
  simp [toMsgKind]

theorem keyBytes_eq_ok {key : InputKey} {bs : Bytes} (h : keyBytes key = .ok bs) :
    key.clientId < 256 ^ 4 ∧ key.senderId < 256 ^ 4 ∧ key.seq < 256 ^ 4 ∧
    bs = beEncode 4 key.clientId ++ beEncode 4 key.senderId ++ beEncode 1 key.kind.toNat ++
      beEncode 4 key.seq := by
  unfold keyBytes at h
  obtain ⟨_, h₁, h⟩ := Except.ok_of_bind h
  obtain ⟨_, h₂, h⟩ := Except.ok_of_bind h
  obtain ⟨_, h₃, h⟩ := Except.ok_of_bind h
  obtain ⟨_, h₄, h⟩ := Except.ok_of_bind h
  obtain ⟨l₁, rfl⟩ := pack_eq_ok_iff.mp h₁
  obtain ⟨l₂, rfl⟩ := pack_eq_ok_iff.mp h₂
  obtain ⟨-, rfl⟩ := pack_eq_ok_iff.mp h₃
  obtain ⟨l₄, rfl⟩ := pack_eq_ok_iff.mp h₄
  exact ⟨l₁, l₂, l₄, (Except.ok.inj h).symm⟩

theorem decodeInputDone_payload {msgId : String} {key : InputKey} {payload : Bytes}
    (h : inputDonePayload msgId key = .ok payload) :
    decodeInputDone payload = .ok (.inputDone (Δ := Δ) msgId key) := by
  unfold inputDonePayload at h
  obtain ⟨hm, h⟩ := Except.ok_of_raiseIf h
  obtain ⟨coordinates, hk, h⟩ := Except.ok_of_bind h
  obtain ⟨h₁, h₂, h₃, rfl⟩ := keyBytes_eq_ok hk
  cases h
  have h := at_zero (lengthPrefixed 2 (encodeText msgId) ++ (beEncode 4 key.clientId ++
    beEncode 4 key.senderId ++ beEncode 1 key.kind.toNat ++ beEncode 4 key.seq))
  simp only [List.append_assoc] at h
  obtain ⟨r₁, h⟩ := readLengthPrefixed_of_at h (lt_of_le_maxUint16 (by omega))
  obtain ⟨r₂, h⟩ := readUint_of_at h h₁
  obtain ⟨r₃, h⟩ := readUint_of_at h h₂
  obtain ⟨r₄, h⟩ := readUint_of_at h (MsgKind.toNat_lt_byte _)
  rw [← List.append_nil (beEncode 4 key.seq)] at h
  obtain ⟨r₅, h⟩ := readUint_of_at h h₃
  rw [List.append_nil] at r₅ h
  simp only [decodeInputDone, List.append_assoc, r₁, r₂, r₃, r₄, r₅, Except.ok_bind, ensureConsumed]
  rw [Except.raiseIf_of_not (not_not_intro (h.eq_nil_iff.mpr rfl))]
  simp only [Except.ok_bind, decodeText_encodeText, toMsgKind_toNat]
  rfl

theorem decodeInputApplied_payload {msgId : String} {key : InputKey} {stateChange : Δ}
    {outputs : List OutboxEntry} {payload : Bytes}
    (h : inputAppliedPayload json msgId key stateChange outputs = .ok payload) :
    decodeInputApplied json payload = .ok (.inputApplied msgId key stateChange outputs) := by
  unfold inputAppliedPayload at h
  obtain ⟨change, hj, h⟩ := Except.ok_of_bind h
  obtain ⟨hm, h⟩ := Except.ok_of_raiseIf h
  obtain ⟨hc, h⟩ := Except.ok_of_raiseIf h
  obtain ⟨ho, h⟩ := Except.ok_of_raiseIf h
  obtain ⟨blob, hb, h⟩ := Except.ok_of_bind h
  obtain ⟨coordinates, hk, h⟩ := Except.ok_of_bind h
  obtain ⟨h₁, h₂, h₃, rfl⟩ := keyBytes_eq_ok hk
  cases h
  have h := at_zero (lengthPrefixed 2 (encodeText msgId) ++ (beEncode 4 key.clientId ++
    beEncode 4 key.senderId ++ beEncode 1 key.kind.toNat ++ beEncode 4 key.seq) ++
    lengthPrefixed 4 change ++ beEncode 2 outputs.length ++ blob)
  simp only [List.append_assoc] at h
  obtain ⟨r₁, h⟩ := readLengthPrefixed_of_at h (lt_of_le_maxUint16 (by omega))
  obtain ⟨r₂, h⟩ := readUint_of_at h h₁
  obtain ⟨r₃, h⟩ := readUint_of_at h h₂
  obtain ⟨r₄, h⟩ := readUint_of_at h (MsgKind.toNat_lt_byte _)
  obtain ⟨r₅, h⟩ := readUint_of_at h h₃
  obtain ⟨r₆, h⟩ := readLengthPrefixed_of_at h (lt_of_le_maxUint32 (by omega))
  obtain ⟨r₇, h⟩ := readUint_of_at h (lt_of_le_maxUint16 (by omega))
  rw [← List.append_nil blob] at h
  obtain ⟨r₈, h⟩ := OutboxEntry.deserializeAll_of_at hb h
  rw [List.append_nil] at r₈ h
  simp only [decodeInputApplied, List.append_assoc, r₁, r₂, r₃, r₄, r₅, r₆, r₇, r₈, Except.ok_bind,
    ensureConsumed]
  rw [Except.raiseIf_of_not (not_not_intro (h.eq_nil_iff.mpr rfl))]
  simp only [Except.ok_bind, decodeText_encodeText, toMsgKind_toNat,
    json.loads_dumps stateChange change hj]
  rfl

/-- What the bytes of a record are: a header with the length of the payload, and the payload, which
decodes to the record. -/
theorem encode_eq_ok {record : WalRecord Δ} {bs : Bytes} (h : encode json record = .ok bs) :
    ∃ t payload, payload.length < 256 ^ 4 ∧ bs = beEncode 1 t.toNat ++ lengthPrefixed 4 payload ∧
      ∀ lsn, decodeRecord json ⟨lsn, t, payload⟩ = .ok record := by
  cases record with
  | inputApplied msgId key stateChange outputs =>
    obtain ⟨payload, hp, h⟩ := Except.ok_of_bind h
    obtain ⟨hl, h⟩ := Except.ok_of_raiseIf h
    exact ⟨.inputApplied, payload, lt_of_le_maxUint32 (by omega), (Except.ok.inj h).symm,
      fun _ => decodeInputApplied_payload hp⟩
  | inputDone msgId key =>
    obtain ⟨payload, hp, h⟩ := Except.ok_of_bind h
    obtain ⟨hl, h⟩ := Except.ok_of_raiseIf h
    exact ⟨.inputDone, payload, lt_of_le_maxUint32 (by omega), (Except.ok.inj h).symm,
      fun _ => decodeInputDone_payload hp⟩

/-- A complete frame is yielded, and reading goes on behind it. -/
theorem records_frame {t : RecordType} {payload : Bytes} (hl : payload.length < 256 ^ 4) (lsn : Nat)
    (rest : Bytes) :
    records lsn (beEncode 1 t.toNat ++ lengthPrefixed 4 payload ++ rest) =
      .ok ⟨lsn, t, payload⟩ :: records (lsn + headerSize + payload.length) rest := by
  have htake : (beEncode 1 t.toNat ++ lengthPrefixed 4 payload ++ rest).take 1 =
      beEncode 1 t.toNat := by
    rw [List.append_assoc]; exact List.take_left' (length_beEncode _ _)
  have hdrop : (beEncode 1 t.toNat ++ lengthPrefixed 4 payload ++ rest).drop 1 =
      beEncode 4 payload.length ++ (payload ++ rest) := by
    rw [List.append_assoc, lengthPrefixed, List.append_assoc]
    exact List.drop_left' (length_beEncode _ _)
  have hlen : beDecode (((beEncode 1 t.toNat ++ lengthPrefixed 4 payload ++ rest).drop 1).take 4) =
      payload.length := by
    rw [hdrop, List.take_left' (length_beEncode _ _), beDecode_beEncode hl]
  have hbody : (beEncode 1 t.toNat ++ lengthPrefixed 4 payload ++ rest).drop headerSize =
      payload ++ rest := by
    rw [headerSize, ← List.drop_drop (i := 4) (j := 1), hdrop]
    exact List.drop_left' (length_beEncode _ _)
  have hnext : (beEncode 1 t.toNat ++ lengthPrefixed 4 payload ++ rest).drop
      (headerSize + payload.length) = rest := by
    rw [← List.drop_drop, hbody, List.drop_left]
  rw [records, if_neg (by simp [headerSize]; omega)]
  simp only [htake, hlen, hbody, hnext, List.take_left, lt_irrefl, if_false,
    beDecode_beEncode t.toNat_lt, RecordType.ofNat?_toNat]

/-- The decoding loop of `replay` from a position on. -/
def replayFrom (json : StateChangeCodec Δ) (lsn : Nat) (rest : Bytes) :
    Except String (List (WalRecord Δ)) :=
  (records lsn rest).mapM fun raw => raw >>= decodeRecord json

/-- `replay(-1)` filters nothing out. -/
theorem replay_all (file : Bytes) : replay json file (-1) = replayFrom json 0 file := by
  have h : recordsAfter file (-1) = records 0 file := by
    refine List.filter_eq_self.mpr fun raw _ => ?_
    cases raw with
    | error e => rfl
    | ok r => exact decide_eq_true (by omega)
  rw [replay, h, replayFrom]

@[simp] theorem replayFrom_nil (lsn : Nat) : replayFrom json lsn [] = .ok [] := by
  rw [replayFrom, records, if_pos (by decide)]; rfl

theorem replayFrom_encode {record : WalRecord Δ} {bs : Bytes} (h : encode json record = .ok bs)
    (lsn : Nat) (rest : Bytes) :
    replayFrom json lsn (bs ++ rest) =
      (replayFrom json (lsn + bs.length) rest).map (record :: ·) := by
  obtain ⟨t, payload, hl, rfl, hd⟩ := encode_eq_ok h
  have hlen : lsn + (beEncode 1 t.toNat ++ lengthPrefixed 4 payload).length =
      lsn + headerSize + payload.length := by
    simp [headerSize]; omega
  rw [replayFrom, records_frame hl, List.mapM_cons, Except.ok_bind, hd, Except.ok_bind, hlen,
    replayFrom]
  cases (records (lsn + headerSize + payload.length) rest).mapM
    (fun raw => raw >>= decodeRecord json) <;> rfl

theorem append_eq_ok {file file' : Bytes} {record : WalRecord Δ}
    (h : append json file record = .ok file') :
    ∃ bs, encode json record = .ok bs ∧ file' = file ++ bs := by
  obtain ⟨bs, hb, h⟩ := Except.ok_of_bind h
  exact ⟨bs, hb, (Except.ok.inj h).symm⟩

/-- Appending a list of records adds bytes that replay to that list, whatever follows. -/
theorem appendAll_eq_ok {file file' : Bytes} {rs : List (WalRecord Δ)}
    (h : appendAll json file rs = .ok file') :
    ∃ bs, file' = file ++ bs ∧ ∀ lsn rest, replayFrom json lsn (bs ++ rest) =
      (replayFrom json (lsn + bs.length) rest).map (rs ++ ·) := by
  induction rs generalizing file with
  | nil =>
    refine ⟨[], by rw [List.append_nil]; exact (Except.ok.inj h).symm, fun lsn rest => ?_⟩
    simp only [List.nil_append, List.length_nil, Nat.add_zero]
    cases replayFrom json lsn rest <;> rfl
  | cons r rs ih =>
    obtain ⟨mid, hmid, h⟩ := Except.ok_of_bind h
    obtain ⟨b₁, hb, rfl⟩ := append_eq_ok hmid
    obtain ⟨b₂, rfl, hr⟩ := ih h
    refine ⟨b₁ ++ b₂, by rw [List.append_assoc], fun lsn rest => ?_⟩
    rw [List.append_assoc, replayFrom_encode hb, hr, List.length_append, ← Nat.add_assoc]
    cases replayFrom json (lsn + b₁.length + b₂.length) rest <;> rfl

/-- What was appended to an empty file is what is replayed. -/
theorem replay_appendAll {file : Bytes} {rs : List (WalRecord Δ)}
    (h : appendAll json [] rs = .ok file) : replay json file (-1) = .ok rs := by
  obtain ⟨bs, rfl, hr⟩ := appendAll_eq_ok h
  have hall := hr 0 []
  rw [replayFrom_nil, List.append_nil] at hall
  rw [replay_all, hall]
  simp [Except.map]

theorem appendAll_append {file mid file' : Bytes} {rs rs' : List (WalRecord Δ)}
    (h : appendAll json file rs = .ok mid) (h' : appendAll json mid rs' = .ok file') :
    appendAll json file (rs ++ rs') = .ok file' := by
  induction rs generalizing file with
  | nil => cases h; exact h'
  | cons r rs ih =>
    obtain ⟨next, hn, h⟩ := Except.ok_of_bind h
    rw [List.cons_append, appendAll, hn, Except.ok_bind]
    exact ih h

end roundTrip

/-! ## A torn tail -/

section torn
variable {json : StateChangeCodec Δ}

/-- A yielded record stands at the head of the file. -/
theorem eq_frame_of_records {lsn : Nat} {rest : Bytes} {raw : RawRecord}
    {tail : List (Except String RawRecord)} (h : records lsn rest = .ok raw :: tail) :
    ∃ rest', rest = beEncode 1 raw.recordType.toNat ++ lengthPrefixed 4 raw.payload ++ rest' := by
  rw [records] at h
  split at h
  · contradiction
  next hlen =>
    simp only at h
    split at h
    · contradiction
    next hpay =>
      split at h
      · simp at h
      next t ht =>
        simp only [List.cons.injEq, Except.ok.injEq] at h
        obtain ⟨rfl, -⟩ := h
        have hlen : 5 ≤ rest.length := by simpa [headerSize] using hlen
        have hn : ((rest.drop headerSize).take (beDecode ((rest.drop 1).take 4))).length =
            beDecode ((rest.drop 1).take 4) := by
          rw [List.length_take] at hpay ⊢; omega
        have htype : beEncode 1 t.toNat = rest.take 1 := by
          rw [RecordType.toNat_of_ofNat? ht]
          have := beEncode_beDecode (rest.take 1)
          rwa [List.length_take, min_eq_left (by omega)] at this
        have hlength : beEncode 4 (beDecode ((rest.drop 1).take 4)) = (rest.drop 1).take 4 := by
          have := beEncode_beDecode ((rest.drop 1).take 4)
          rwa [List.length_take, List.length_drop, min_eq_left (by omega)] at this
        refine ⟨(rest.drop headerSize).drop (beDecode ((rest.drop 1).take 4)), ?_⟩
        rw [lengthPrefixed, hn, htype, hlength, List.append_assoc, List.append_assoc,
          List.take_append_drop, headerSize, ← List.drop_drop (i := 4) (j := 1),
          List.take_append_drop, List.take_append_drop]

/-- An `InputDone` has one payload only. -/
theorem inputDonePayload_of_decode {payload : Bytes} {msgId : String} {key : InputKey}
    (h : decodeInputDone payload = .ok (.inputDone (Δ := Δ) msgId key)) :
    payload = lengthPrefixed 2 (encodeText msgId) ++ (beEncode 4 key.clientId ++
      (beEncode 4 key.senderId ++ (beEncode 1 key.kind.toNat ++ beEncode 4 key.seq))) := by
  have ha := at_zero payload
  unfold decodeInputDone at h
  obtain ⟨⟨m, o⟩, r, h⟩ := Except.ok_of_bind h
  obtain ⟨-, rest₁, he₁, ha⟩ := at_of_readLengthPrefixed ha r
  obtain ⟨⟨c, o⟩, r, h⟩ := Except.ok_of_bind h
  obtain ⟨-, rest₂, he₂, ha⟩ := at_of_readUint ha r
  obtain ⟨⟨s, o⟩, r, h⟩ := Except.ok_of_bind h
  obtain ⟨-, rest₃, he₃, ha⟩ := at_of_readUint ha r
  obtain ⟨⟨k, o⟩, r, h⟩ := Except.ok_of_bind h
  obtain ⟨-, rest₄, he₄, ha⟩ := at_of_readUint ha r
  obtain ⟨⟨q, o⟩, r, h⟩ := Except.ok_of_bind h
  obtain ⟨-, rest₅, he₅, ha⟩ := at_of_readUint ha r
  obtain ⟨hcons, h⟩ := Except.ok_of_raiseIf h
  obtain rfl : rest₅ = [] := ha.eq_nil_iff.mp (not_not.mp hcons)
  obtain ⟨m', hm, h⟩ := Except.ok_of_bind h
  obtain ⟨k', hk, h⟩ := Except.ok_of_bind h
  cases h
  have hm : encodeText msgId = m := by
    unfold decodeText at hm
    split at hm
    · next hd => cases hm; exact encodeText_of_decodeText? hd
    · cases hm
  have hk : k'.toNat = k := by
    unfold toMsgKind at hk
    split at hk
    · next hd => cases hk; exact MsgKind.toNat_of_ofNat? hd
    · cases hk
  subst hm hk
  rw [he₁, he₂, he₃, he₄, he₅, List.append_nil]

theorem decodeInputApplied_ne_inputDone {payload : Bytes} {msgId : String} {key : InputKey} :
    decodeInputApplied json payload ≠ .ok (.inputDone msgId key) := by
  intro h
  unfold decodeInputApplied at h
  repeat obtain ⟨_, -, h⟩ := Except.ok_of_bind h
  cases h

/-- The smallest record. -/
def blank : WalRecord Δ := .inputDone "" { clientId := 0, kind := .data, senderId := 0, seq := 0 }

/-- The bytes of `blank`. -/
def blankBytes : Bytes := 2 :: 0 :: 0 :: 0 :: 15 :: List.replicate 15 0

theorem encode_blank : encode json blank = .ok blankBytes := by rfl

/-- Bytes that replay to `blank` begin with its bytes. -/
theorem blankBytes_of_replayFrom {lsn : Nat} {rest : Bytes}
    (h : replayFrom json lsn rest = .ok [blank]) : ∃ rest', rest = blankBytes ++ rest' := by
  unfold replayFrom at h
  cases hr : records lsn rest with
  | nil => rw [hr] at h; cases h
  | cons first tail =>
    rw [hr, List.mapM_cons] at h
    obtain ⟨record, hd, h⟩ := Except.ok_of_bind h
    obtain ⟨others, -, h⟩ := Except.ok_of_bind h
    obtain ⟨rfl, -⟩ := List.cons.inj (Except.ok.inj h)
    obtain ⟨raw, rfl, hraw⟩ := Except.ok_of_bind hd
    obtain ⟨rest', he⟩ := eq_frame_of_records hr
    unfold decodeRecord at hraw
    split at hraw
    · exact absurd hraw decodeInputApplied_ne_inputDone
    · next ht =>
      rw [ht, inputDonePayload_of_decode hraw] at he
      exact ⟨rest', he⟩

/-- The type byte of `blank` occurs at its head only. -/
theorem blankBytes_ne_two : ∀ i < 20, 0 < i → blankBytes[i]? ≠ some 2 := by decide

/-- No bytes of an unfinished record can be completed by the next record to that record. -/
theorem torn_append_blank_ne {further : WalRecord Δ} {bs torn rest : Bytes}
    (hb : encode json further = .ok bs) (ht : torn <+: bs) (hp : torn ≠ bs) (hne : torn ≠ []) :
    torn ++ blankBytes ≠ blankBytes ++ rest := by
  intro he
  have hpos := List.length_pos_iff.mpr hne
  by_cases hlt : torn.length < 20
  · have h₁ : (torn ++ blankBytes)[torn.length]? = some 2 := by
      rw [List.getElem?_append_right le_rfl, Nat.sub_self]; rfl
    rw [he, List.getElem?_append_left hlt] at h₁
    exact blankBytes_ne_two _ hlt hpos h₁
  · -- the tail holds all of `blank`, so its header announces the 15 bytes it already has
    have hpre : blankBytes <+: torn := by
      have hall : blankBytes <+: torn ++ blankBytes := ⟨rest, he.symm⟩
      refine List.prefix_of_prefix_length_le hall (List.prefix_append _ _) ?_
      simpa [blankBytes] using hlt
    obtain ⟨more, rfl⟩ := hpre.trans ht
    obtain ⟨t, payload, hl, hbs, -⟩ := encode_eq_ok hb
    have htake : ((blankBytes ++ more).drop 1).take 4 = beEncode 4 payload.length := by
      rw [hbs, List.drop_left' (length_beEncode _ _), lengthPrefixed,
        List.take_left' (length_beEncode _ _)]
    have hlen : payload.length = 15 := by
      rw [← beDecode_beEncode hl, ← htake]; rfl
    have htot : (blankBytes ++ more).length = 20 := by
      rw [hbs, List.length_append, length_beEncode, length_lengthPrefixed, hlen]
    exact hp (ht.eq_of_length_le (by omega))

/-- **Torn tails.** Let `file` hold the records `first`, let a crash leave the bytes `torn` of one
further record behind them, and let a new writer append to the same file. Every list of records
appended afterwards is replayed behind `first` if and only if the crash left no byte at all. -/
theorem replay_across_torn_tail_iff (json : StateChangeCodec Δ) {first : List (WalRecord Δ)}
    {file : Bytes} (hfirst : appendAll json [] first = .ok file) {further : WalRecord Δ}
    {bs torn : Bytes} (hfurther : encode json further = .ok bs) (htorn : torn <+: bs)
    (hproper : torn ≠ bs) :
    (∀ second file', appendAll json (file ++ torn) second = .ok file' →
      replay json file' (-1) = .ok (first ++ second)) ↔ torn = [] := by
  constructor
  · intro h
    by_contra hne
    have happ : appendAll json (file ++ torn) [blank] = .ok (file ++ torn ++ blankBytes) := by
      rw [appendAll, append, encode_blank]; rfl
    have hall := h [blank] _ happ
    obtain ⟨bs', he, hr⟩ := appendAll_eq_ok hfirst
    rw [List.nil_append] at he
    subst he
    rw [replay_all, List.append_assoc, hr] at hall
    have htail : replayFrom json (0 + file.length) (torn ++ blankBytes) = .ok [blank] := by
      cases hx : replayFrom json (0 + file.length) (torn ++ blankBytes) with
      | error e => rw [hx] at hall; cases hall
      | ok rs =>
        rw [hx] at hall
        exact congrArg Except.ok (List.append_cancel_left (Except.ok.inj hall))
    obtain ⟨rest, hrest⟩ := blankBytes_of_replayFrom htail
    exact torn_append_blank_ne hfurther htorn hproper hne hrest
  · rintro rfl second file' h
    rw [List.append_nil] at h
    exact replay_appendAll (appendAll_append hfirst h)

end torn

/-- A worker whose only state change is the empty dictionary. -/
def emptyChange : StateChangeCodec Unit where
  dumps _ := .ok (encodeText "\x7b\x7d")
  loads bs :=
    if bs = encodeText "\x7b\x7d" then .ok ()
    else .error "invalid JSON state_change in WAL record"
  loads_dumps := by rintro ⟨⟩ bs h; cases h; rfl

/-- A crash before the first byte of a second record leaves the log intact. -/
theorem replay_across_torn_tail_iff_nothing_torn :
    appendAll emptyChange [] [blank] = .ok blankBytes ∧
    ∀ second file', appendAll emptyChange (blankBytes ++ []) second = .ok file' →
      replay emptyChange file' (-1) = .ok ([blank] ++ second) :=
  have hfirst : appendAll emptyChange [] [blank] = .ok blankBytes := rfl
  have hblank : encode emptyChange blank = .ok blankBytes := encode_blank
  ⟨hfirst, (replay_across_torn_tail_iff emptyChange hfirst hblank List.nil_prefix
    (by decide)).mpr rfl⟩

/-- One torn byte swallows the record appended behind it: the first five bytes then announce a
payload of 33554432 bytes, and the reader takes the rest of the file for a torn record. -/
theorem record_behind_torn_byte_is_lost :
    ¬ ∀ (first : List (WalRecord Unit)) (further : WalRecord Unit) (bs torn : Bytes)
        (second : List (WalRecord Unit)) (file file' : Bytes),
      appendAll emptyChange [] first = .ok file → encode emptyChange further = .ok bs →
      torn <+: bs → torn ≠ bs → appendAll emptyChange (file ++ torn) second = .ok file' →
      replay emptyChange file' (-1) = .ok (first ++ second) := by
  intro h
  have h := h [] blank blankBytes [2] [blank] [] ([2] ++ blankBytes) rfl encode_blank
    (by decide) (by decide) rfl
  have hnone : records 0 ([2] ++ blankBytes) = [] := by
    rw [records, if_neg (by decide)]
    exact if_pos (by decide)
  rw [replay_all, replayFrom, hnone] at h
  cases h

end Wal

end MoneyLaundering
