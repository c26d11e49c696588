import MoneyLaundering.FaultTolerance.Wal

/-!
# What a reader yields of a log

`WALReader.decoded_records` goes through the file frame by frame and yields every record with its
LSN, the offset that the writer returned for it. Records whose fields fit are written, and a reader
yields exactly these, whatever part of one more record a crash left behind them.
-/

namespace MoneyLaundering

open Bytes

namespace OutboxEntry

/-- The bytes of an entry: four lengths, three texts, the body and the shard. -/
def size (e : OutboxEntry) : Nat :=
  (encodeText e.outputId).length + (encodeText e.inputId).length +
    (encodeText e.destination).length +
    e.body.length + 14

/-- The fields of an entry fit their widths. One shard number is taken by the encoding of no
shard. -/
structure Fits (e : OutboxEntry) : Prop where
  outputId : (encodeText e.outputId).length ≤ maxUint16
  inputId : (encodeText e.inputId).length ≤ maxUint16
  destination : (encodeText e.destination).length ≤ maxUint16
  body : e.body.length ≤ maxUint32
  shard : ∀ shard ∈ e.shard, shard < 2 ^ 32 - 1

theorem Fits.serialize {e : OutboxEntry} (h : e.Fits) :
    ∃ bs, e.serialize = .ok bs ∧ bs.length = e.size := by
  have hshard : encodeShard e.shard < 256 ^ 4 := by
    cases hs : e.shard with
    | none => decide
    | some shard =>
      have := h.shard shard hs
      simp only [encodeShard]
      omega
  unfold OutboxEntry.serialize
  rw [Except.raiseIf_of_not (not_lt.mpr h.outputId), Except.ok_bind,
    Except.raiseIf_of_not (not_lt.mpr h.inputId), Except.ok_bind,
    Except.raiseIf_of_not (not_lt.mpr h.destination), Except.ok_bind,
    Except.raiseIf_of_not (not_lt.mpr h.body), Except.ok_bind, pack_eq_ok_iff.mpr ⟨hshard, rfl⟩]
  refine ⟨_, rfl, ?_⟩
  simp only [List.length_append, length_lengthPrefixed, length_beEncode, size]
  omega

theorem serializeAll_of_fits {es : List OutboxEntry} (h : ∀ e ∈ es, e.Fits) :
    ∃ bs, serializeAll es = .ok bs ∧ bs.length = (es.map size).sum := by
  induction es with
  | nil => exact ⟨[], rfl, rfl⟩
  | cons e es ih =>
    obtain ⟨b₁, h₁, l₁⟩ := (h e List.mem_cons_self).serialize
    obtain ⟨b₂, h₂, l₂⟩ := ih fun e' he => h e' (List.mem_cons_of_mem _ he)
    refine ⟨b₁ ++ b₂, ?_, by simp [l₁, l₂]⟩
    rw [serializeAll, h₁, Except.ok_bind, h₂]
    rfl

end OutboxEntry

namespace Wal

variable {Δ : Type}

/-! ## The records that are written -/

/-- The coordinates of an input fit their widths. -/
def KeyFits (key : InputKey) : Prop :=
  key.clientId < 2 ^ 32 ∧ key.senderId < 2 ^ 32 ∧ key.seq < 2 ^ 32

instance (key : InputKey) : Decidable (KeyFits key) := inferInstanceAs (Decidable (_ ∧ _))

/-- The length of the payload of an `InputApplied` with this text of its change. -/
def appliedSize (msgId : String) (text : Bytes) (outputs : List OutboxEntry) : Nat :=
  (encodeText msgId).length + text.length + (outputs.map OutboxEntry.size).sum + 21

/-- The fields of a record fit their widths, and its change has a text. -/
def Fits (json : StateChangeCodec Δ) : WalRecord Δ → Prop
  | .inputApplied msgId key stateChange outputs =>
    (encodeText msgId).length ≤ maxUint16 ∧ KeyFits key ∧ outputs.length ≤ maxUint16 ∧
      (∀ e ∈ outputs, e.Fits) ∧
      ∃ text, json.dumps stateChange = .ok text ∧ appliedSize msgId text outputs ≤ maxUint32
  | .inputDone msgId key => (encodeText msgId).length ≤ maxUint16 ∧ KeyFits key

/-- `write_input_applied` and `write_input_done`: the file and the LSN of the record. -/
def writeRecord (json : StateChangeCodec Δ) (file : Bytes) (record : WalRecord Δ) :
    Except String (Bytes × Nat) := do
  let bs ← encode json record
  return (file ++ bs, file.length)

/-- Records written one after the other: the file and their LSNs. -/
def writeAll (json : StateChangeCodec Δ) (file : Bytes) :
    List (WalRecord Δ) → Except String (Bytes × List Nat)
  | [] => .ok (file, [])
  | record :: records => do
    let (file, lsn) ← writeRecord json file record
    let (file, lsns) ← writeAll json file records
    return (file, lsn :: lsns)

/-- `WALReader.decoded_records` on what remains of the file at `lsn`. An error stands where the
iteration raises. -/
def decodedFrom (json : StateChangeCodec Δ) (lsn : Nat) (rest : Bytes) :
    List (Except String (Nat × WalRecord Δ)) :=
  (records lsn rest).map fun raw => do
    let raw ← raw
    return (raw.lsn, ← decodeRecord json raw)

/-- `WALReader.decoded_records`. -/
def decodedRecords (json : StateChangeCodec Δ) (file : Bytes) :
    List (Except String (Nat × WalRecord Δ)) :=
  decodedFrom json 0 file

section
variable {json : StateChangeCodec Δ}

theorem KeyFits.keyBytes {key : InputKey} (h : KeyFits key) :
    ∃ bs, keyBytes key = .ok bs ∧ bs.length = 13 := by
  unfold Wal.keyBytes
  rw [pack_eq_ok_iff.mpr ⟨h.1, rfl⟩, Except.ok_bind, pack_eq_ok_iff.mpr ⟨h.2.1, rfl⟩,
    Except.ok_bind, pack_eq_ok_iff.mpr ⟨MsgKind.toNat_lt_byte key.kind, rfl⟩, Except.ok_bind,
    pack_eq_ok_iff.mpr ⟨h.2.2, rfl⟩]
  exact ⟨_, rfl, by simp⟩

theorem frame_of_le {t : RecordType} {payload : Bytes} (h : payload.length ≤ maxUint32) :
    frame t payload = .ok (beEncode 1 t.toNat ++ lengthPrefixed 4 payload) := by
  rw [frame, Except.raiseIf_of_not (not_lt.mpr h)]
  rfl

/-- A record whose fields fit is written. -/
theorem Fits.encode {record : WalRecord Δ} (h : Fits json record) :
    ∃ bs, encode json record = .ok bs := by
  cases record with
  | inputApplied msgId key stateChange outputs =>
    obtain ⟨hmsg, hkey, hcount, hout, text, hdumps, hsize⟩ := h
    obtain ⟨blob, hblob, hlen⟩ := OutboxEntry.serializeAll_of_fits hout
    obtain ⟨coordinates, hcoord, h13⟩ := hkey.keyBytes
    unfold appliedSize at hsize
    have htext : text.length ≤ maxUint32 := by omega
    have hpayload : inputAppliedPayload json msgId key stateChange outputs =
        .ok (lengthPrefixed 2 (encodeText msgId) ++ coordinates ++ lengthPrefixed 4 text ++
          beEncode 2 outputs.length ++ blob) := by
      rw [inputAppliedPayload, hdumps, Except.ok_bind, Except.raiseIf_of_not (not_lt.mpr hmsg),
        Except.ok_bind, Except.raiseIf_of_not (not_lt.mpr htext), Except.ok_bind,
        Except.raiseIf_of_not (not_lt.mpr hcount), Except.ok_bind, hblob, Except.ok_bind, hcoord]
      rfl
    rw [Wal.encode, hpayload, Except.ok_bind]
    refine ⟨_, frame_of_le ?_⟩
    simp only [List.length_append, length_lengthPrefixed, length_beEncode]
    omega
  | inputDone msgId key =>
    obtain ⟨hmsg, hkey⟩ := h
    obtain ⟨coordinates, hcoord, h13⟩ := hkey.keyBytes
    have hpayload :
        inputDonePayload msgId key = .ok (lengthPrefixed 2 (encodeText msgId) ++ coordinates) := by
      rw [inputDonePayload, Except.raiseIf_of_not (not_lt.mpr hmsg), Except.ok_bind, hcoord]
      rfl
    rw [Wal.encode, hpayload, Except.ok_bind]
    refine ⟨_, frame_of_le ?_⟩
    simp only [List.length_append, length_lengthPrefixed]
    simp only [maxUint16, maxUint32] at *
    omega

/-- The end of an input that was recorded can be recorded. -/
theorem encode_inputDone {msgId : String} {key : InputKey} {change : Δ}
    {outputs : List OutboxEntry} {bs : Bytes}
    (h : encode json (.inputApplied msgId key change outputs) = .ok bs) :
    ∃ bs', encode json (.inputDone msgId key) = .ok bs' := by
  obtain ⟨payload, hp, -⟩ := Except.ok_of_bind h
  unfold inputAppliedPayload at hp
  obtain ⟨_, -, hp⟩ := Except.ok_of_bind hp
  obtain ⟨hmsg, hp⟩ := Except.ok_of_raiseIf hp
  obtain ⟨-, hp⟩ := Except.ok_of_raiseIf hp
  obtain ⟨-, hp⟩ := Except.ok_of_raiseIf hp
  obtain ⟨_, -, hp⟩ := Except.ok_of_bind hp
  obtain ⟨_, hkey, -⟩ := Except.ok_of_bind hp
  obtain ⟨hclient, hsender, hseq, -⟩ := keyBytes_eq_ok hkey
  have hfits : Fits json (.inputDone msgId key) :=
    ⟨not_lt.mp hmsg, by omega, by omega, by omega⟩
  exact hfits.encode

/-! ## The records that are read -/

/-- A complete record is yielded with its LSN, and reading goes on behind it. -/
theorem decodedFrom_encode {record : WalRecord Δ} {bs : Bytes} (h : encode json record = .ok bs)
    (lsn : Nat) (rest : Bytes) :
    0 < bs.length ∧
      decodedFrom json lsn (bs ++ rest) = .ok (lsn, record) :: decodedFrom json
        (lsn + bs.length) rest := by
  obtain ⟨t, payload, hl, rfl, hd⟩ := encode_eq_ok h
  have hlen : lsn + (beEncode 1 t.toNat ++ lengthPrefixed 4 payload).length =
      lsn + headerSize + payload.length := by
    simp [headerSize]; omega
  refine ⟨by simp, ?_⟩
  rw [decodedFrom, records_frame hl, List.map_cons, hlen, decodedFrom, Except.ok_bind, hd,
    Except.ok_bind]
  rfl

/-- A part of a record yields nothing. -/
theorem decodedFrom_torn {record : WalRecord Δ} {bs torn : Bytes} (h : encode json record = .ok bs)
    (ht : torn <+: bs) (hne : torn ≠ bs) (lsn : Nat) : decodedFrom json lsn torn = [] := by
  obtain ⟨t, payload, hl, rfl, -⟩ := encode_eq_ok h
  obtain ⟨more, he⟩ := ht
  have hlen := congrArg List.length he
  simp only [List.length_append, length_lengthPrefixed, length_beEncode] at hlen
  have hmore : 0 < more.length := by
    refine List.length_pos_iff.mpr ?_
    rintro rfl
    exact hne (by rw [← he, List.append_nil])
  suffices hnone : records lsn torn = [] by rw [decodedFrom, hnone, List.map_nil]
  rw [records]
  by_cases hshort : torn.length < headerSize
  · exact if_pos hshort
  · -- the header is whole, so the length it announces is that of the whole payload
    simp only [headerSize, not_lt] at hshort
    have hannounced : (torn.drop 1).take 4 = beEncode 4 payload.length := by
      have htake : ((torn ++ more).drop 1).take 4 = (torn.drop 1).take 4 := by
        rw [List.drop_append_of_le_length (by omega),
          List.take_append_of_le_length (by simp; omega)]
      rw [← htake, he, List.drop_left' (length_beEncode _ _), lengthPrefixed,
        List.take_left' (length_beEncode _ _)]
    rw [if_neg (by simpa [headerSize] using hshort)]
    simp only [hannounced, beDecode_beEncode hl]
    refine if_pos ?_
    simp only [List.length_take, List.length_drop, headerSize]
    omega

/-- What was written is yielded, with the LSNs that the writer returned. -/
theorem decodedFrom_writeAll {file file' : Bytes} {rs : List (WalRecord Δ)} {lsns : List Nat}
    (h : writeAll json file rs = .ok (file', lsns)) :
    lsns.length = rs.length ∧ (∀ lsn ∈ lsns, file.length ≤ lsn) ∧ lsns.Pairwise (· < ·) ∧
      ∃ bs, file' = file ++ bs ∧ ∀ rest, decodedFrom json file.length (bs ++ rest) =
        (lsns.zip rs).map .ok ++ decodedFrom json file'.length rest := by
  induction rs generalizing file lsns with
  | nil =>
    cases h
    exact ⟨rfl, by simp, .nil, [], (List.append_nil _).symm, fun rest => rfl⟩
  | cons record rs ih =>
    obtain ⟨⟨mid, lsn⟩, hwrite, h⟩ := Except.ok_of_bind h
    obtain ⟨⟨last, lsns'⟩, hall, h⟩ := Except.ok_of_bind h
    obtain ⟨b₁, hb, hwrite⟩ := Except.ok_of_bind hwrite
    cases h
    cases hwrite
    obtain ⟨hcount, hfrom, hsorted, b₂, rfl, hread⟩ := ih hall
    rw [List.length_append] at hfrom hread
    have hpos := (decodedFrom_encode hb 0 []).1
    refine ⟨by simp [hcount], ?_, ?_, b₁ ++ b₂, by rw [List.append_assoc], fun rest => ?_⟩
    · intro l hl
      rcases List.mem_cons.mp hl with rfl | hl
      · exact le_rfl
      · have := hfrom l hl; omega
    · exact .cons (fun l hl => by have := hfrom l hl; omega) hsorted
    · rw [List.append_assoc, (decodedFrom_encode hb file.length (b₂ ++ rest)).2, hread]
      rfl

/-- **Torn tails are read as their whole records.** Records that fit are written one after the
other; followed by any proper part of one more record, a reader yields exactly these, in order, each
with the LSN that the writer returned, and raises nowhere. The LSNs increase. -/
theorem decodedRecords_of_torn (json : StateChangeCodec Δ) {rs : List (WalRecord Δ)}
    (hrs : ∀ record ∈ rs, Fits json record) :
    ∃ file lsns, writeAll json [] rs = .ok (file, lsns) ∧ lsns.length = rs.length ∧
      lsns.Pairwise (· < ·) ∧
      ∀ further, Fits json further → ∃ bs, encode json further = .ok bs ∧
        ∀ torn, torn <+: bs → torn ≠ bs → decodedRecords json (file ++ torn) =
          (lsns.zip rs).map .ok := by
  have hwritten : ∀ file, ∃ r, writeAll json file rs = .ok r := by
    induction rs with
    | nil => exact fun file => ⟨_, rfl⟩
    | cons record rs ih =>
      intro file
      obtain ⟨bs, hb⟩ := (hrs record List.mem_cons_self).encode
      obtain ⟨r, hr⟩ := ih (fun r hr => hrs r (List.mem_cons_of_mem _ hr)) (file ++ bs)
      refine ⟨(r.1, file.length :: r.2), ?_⟩
      rw [writeAll, writeRecord, hb, Except.ok_bind]
      simp only [pure_bind, hr, Except.ok_bind]
      rfl
  obtain ⟨⟨file, lsns⟩, hall⟩ := hwritten []
  obtain ⟨hcount, -, hsorted, bs, he, hread⟩ := decodedFrom_writeAll hall
  refine ⟨file, lsns, hall, hcount, hsorted, fun further hf => ?_⟩
  obtain ⟨b, hb⟩ := hf.encode
  refine ⟨b, hb, fun torn ht hne => ?_⟩
  rw [List.nil_append] at he
  subst he
  rw [decodedRecords]
  exact (hread torn).trans (by rw [decodedFrom_torn hb ht hne, List.append_nil])

end

/-- An input with two outputs, one for any partition and one for the first. -/
def shardedInput : WalRecord Unit :=
  .inputApplied "3:1" { clientId := 7, kind := .data, senderId := 3, seq := 1 } ()
    [{ outputId := "n:7:3:1#0", inputId := "3:1", destination := "results", body := [1, 2] },
      { outputId := "n:7:3:1#1", inputId := "3:1", destination := "results", body := [],
        shard := some 0 }]

theorem fits_shardedInput : Fits emptyChange shardedInput := by
  refine ⟨by decide, by decide, by decide, ?_, encodeText "\x7b\x7d", rfl, by decide +kernel⟩
  intro e he
  rcases List.mem_cons.mp he with rfl | he
  · exact ⟨by decide +kernel, by decide +kernel, by decide +kernel, by decide, by simp⟩
  · obtain rfl := List.mem_singleton.mp he
    exact ⟨by decide +kernel, by decide +kernel, by decide +kernel, by decide, by simp⟩

/-- A finished input with outputs, and any part of a further record. -/
theorem decodedRecords_of_torn_sharded :
    ∃ file lsns, writeAll emptyChange [] [shardedInput, blank] = .ok (file, lsns) ∧
      lsns.length = [shardedInput, blank].length ∧ lsns.Pairwise (· < ·) ∧
      ∀ further, Fits emptyChange further → ∃ bs, encode emptyChange further = .ok bs ∧
        ∀ torn, torn <+: bs → torn ≠ bs →
          decodedRecords emptyChange (file ++ torn) = (lsns.zip [shardedInput, blank]).map .ok :=
  decodedRecords_of_torn emptyChange (by
    intro record hr
    rcases List.mem_cons.mp hr with rfl | hr
    · exact fits_shardedInput
    · obtain rfl := List.mem_singleton.mp hr
      exact ⟨by decide, by decide⟩)

end Wal

end MoneyLaundering
