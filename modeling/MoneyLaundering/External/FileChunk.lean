import MoneyLaundering.Lib.Connection
import MoneyLaundering.LineBatch

/-!
# Chunks of files on the wire

`FileChunkHeader`, `FileChunk` and `FileEof` (`common/message_protocol/external`). The constructors
validate their arguments, so a header carries the bounds of its fields and is serialized without a
check.
-/

namespace MoneyLaundering

open Bytes Connection

namespace FileProtocol

/-- The keys of `FILE_TYPE_NAMES`. -/
def fileTypes : List Nat := [fileTypeTransactions, fileTypeAccounts]

/-- `_validate_uint` with the greatest number of `w` bytes as `max_value`. What it lets through is
in range. -/
def validateUint (name : String) (w value : Nat) : Except String (PLift (value < 256 ^ w)) :=
  if h : value < 256 ^ w then .ok ⟨h⟩
  else .error s!"{name} must be less than or equal to {256 ^ w - 1}"

/-- `_validate_file_type`. -/
def validateFileType (fileType : Nat) : Except String (PLift (fileType ∈ fileTypes)) := do
  let _ ← validateUint "file_type" 1 fileType
  if h : fileType ∈ fileTypes then .ok ⟨h⟩ else .error s!"unknown file_type: {fileType}"

/-- `path_size_for`. -/
def pathSizeFor (relPath : String) : Nat := (encodeText relPath).length

theorem fileType_lt {fileType : Nat} (h : fileType ∈ fileTypes) : fileType < 256 ^ 1 := by
  revert fileType
  decide

theorem validateUint_of_lt {name : String} {w value : Nat} (h : value < 256 ^ w) :
    validateUint name w value = .ok ⟨h⟩ := dif_pos h

theorem validateFileType_of_mem {fileType : Nat} (h : fileType ∈ fileTypes) :
    validateFileType fileType = .ok ⟨h⟩ := by
  rw [validateFileType, validateUint_of_lt (fileType_lt h), Except.ok_bind, dif_pos h]

end FileProtocol

open FileProtocol

/-! ## The header of a chunk -/

structure FileChunkHeader where
  relPath : String
  clientId : Nat
  fileType : Nat
  offset : Nat
  payloadSize : Nat
  clientId_lt : clientId < 256 ^ 4
  fileType_mem : fileType ∈ fileTypes
  offset_lt : offset < 256 ^ 8
  payloadSize_lt : payloadSize < 256 ^ 4
  pathSize_lt : pathSizeFor relPath < 256 ^ 4
  deriving DecidableEq

namespace FileChunkHeader

/-- `HEADER_SIZE`. -/
def headerSize : Nat := 21

/-- `__init__`. -/
def create (relPath : String) (clientId fileType offset payloadSize : Nat) :
    Except String FileChunkHeader := do
  let clientId_lt ← validateUint "client_id" 4 clientId
  let fileType_mem ← validateFileType fileType
  let offset_lt ← validateUint "offset" 8 offset
  let payloadSize_lt ← validateUint "payload_size" 4 payloadSize
  let pathSize_lt ← validateUint "path_size" 4 (pathSizeFor relPath)
  return ⟨relPath, clientId, fileType, offset, payloadSize, clientId_lt.down, fileType_mem.down,
    offset_lt.down, payloadSize_lt.down, pathSize_lt.down⟩

/-- `serialized_size_for_path`. -/
def serializedSizeForPath (relPath : String) : Nat := headerSize + pathSizeFor relPath

variable (h : FileChunkHeader)

def serialize : Bytes :=
  beEncode 4 h.clientId ++ beEncode 1 h.fileType ++ beEncode 4 h.payloadSize ++
    beEncode 4 (pathSizeFor h.relPath) ++ beEncode 8 h.offset ++ encodeText h.relPath

def deserialize (data : Bytes) : Except String FileChunkHeader := do
  Except.raiseIf (data.length < headerSize) "not enough bytes for FileChunkHeader"
  let pathSize := beDecode ((data.drop 9).take 4)
  Except.raiseIf (data.length < headerSize + pathSize) "not enough bytes for FileChunkHeader path"
  let relPath ← LineBatchSerializer.decode ((data.drop headerSize).take pathSize)
  create relPath (beDecode (data.take 4)) (beDecode ((data.drop 4).take 1))
    (beDecode ((data.drop 13).take 8)) (beDecode ((data.drop 5).take 4))

/-- `recv`. -/
def recv {ε : Type} : Program UInt8 ε FileChunkHeader := do
  let fixed ← Program.receive headerSize
  let pathBytes ← Program.receive (beDecode ((fixed.drop 9).take 4))
  Program.ofExcept (deserialize (fixed ++ pathBytes))

/-- What is in range makes a header. -/
theorem create_self : create h.relPath h.clientId h.fileType h.offset h.payloadSize = .ok h := by
  rw [create, validateUint_of_lt h.clientId_lt, Except.ok_bind,
    validateFileType_of_mem h.fileType_mem,
    Except.ok_bind, validateUint_of_lt h.offset_lt, Except.ok_bind,
    validateUint_of_lt h.payloadSize_lt, Except.ok_bind, validateUint_of_lt h.pathSize_lt]
  rfl

variable {h}

/-- A header has the fields it was made of. -/
theorem of_create {relPath : String} {clientId fileType offset payloadSize : Nat}
    (hc : create relPath clientId fileType offset payloadSize = .ok h) : h.relPath = relPath ∧
      h.clientId = clientId ∧ h.fileType = fileType ∧ h.offset = offset ∧
      h.payloadSize = payloadSize := by
  obtain ⟨_, -, hc⟩ := Except.ok_of_bind hc
  obtain ⟨_, -, hc⟩ := Except.ok_of_bind hc
  obtain ⟨_, -, hc⟩ := Except.ok_of_bind hc
  obtain ⟨_, -, hc⟩ := Except.ok_of_bind hc
  obtain ⟨_, -, hc⟩ := Except.ok_of_bind hc
  cases hc
  exact ⟨rfl, rfl, rfl, rfl, rfl⟩

@[simp] theorem length_serialize : h.serialize.length = headerSize + pathSizeFor h.relPath := by
  simp [serialize, headerSize, pathSizeFor]
  omega

/-- The fixed part of a header. -/
def fixedPart (h : FileChunkHeader) : Bytes :=
  beEncode 4 h.clientId ++ beEncode 1 h.fileType ++ beEncode 4 h.payloadSize ++
    beEncode 4 (pathSizeFor h.relPath) ++ beEncode 8 h.offset

theorem serialize_eq : h.serialize = h.fixedPart ++ encodeText h.relPath := rfl

@[simp] theorem length_fixedPart : h.fixedPart.length = headerSize := by
  simp [fixedPart, headerSize]

/-- The numbers of the fixed part, whatever stands behind it. -/
theorem fields_fixedPart (rest : Bytes) :
    beDecode ((h.fixedPart ++ rest).take 4) = h.clientId ∧
    beDecode (((h.fixedPart ++ rest).drop 4).take 1) = h.fileType ∧
    beDecode (((h.fixedPart ++ rest).drop 5).take 4) = h.payloadSize ∧
    beDecode (((h.fixedPart ++ rest).drop 9).take 4) = pathSizeFor h.relPath ∧
    beDecode (((h.fixedPart ++ rest).drop 13).take 8) = h.offset := by
  simp only [fixedPart, List.append_assoc]
  obtain ⟨e₁, a₁⟩ := field_of_at (at_zero _) (length_beEncode 4 h.clientId)
  obtain ⟨e₂, a₂⟩ := field_of_at a₁ (length_beEncode 1 h.fileType)
  obtain ⟨e₃, a₃⟩ := field_of_at a₂ (length_beEncode 4 h.payloadSize)
  obtain ⟨e₄, a₄⟩ := field_of_at a₃ (length_beEncode 4 (pathSizeFor h.relPath))
  obtain ⟨e₅, -⟩ := field_of_at a₄ (length_beEncode 8 h.offset)
  refine ⟨?_, ?_, ?_, ?_, ?_⟩
  · rw [List.drop_zero] at e₁
    rw [e₁, beDecode_beEncode h.clientId_lt]
  · rw [e₂, beDecode_beEncode (fileType_lt h.fileType_mem)]
  · rw [e₃, beDecode_beEncode h.payloadSize_lt]
  · rw [e₄, beDecode_beEncode h.pathSize_lt]
  · rw [e₅, beDecode_beEncode h.offset_lt]

theorem deserialize_serialize (rest : Bytes) : deserialize (h.serialize ++ rest) = .ok h := by
  obtain ⟨f₁, f₂, f₃, f₄, f₅⟩ := h.fields_fixedPart (encodeText h.relPath ++ rest)
  have hpath : ((h.serialize ++ rest).drop headerSize).take (pathSizeFor h.relPath) =
      encodeText h.relPath := by
    rw [serialize_eq, List.append_assoc]
    exact take_drop_field length_fixedPart rfl
  rw [← List.append_assoc, ← serialize_eq] at f₁ f₂ f₃ f₄ f₅
  have hlen : (h.serialize ++ rest).length = headerSize + pathSizeFor h.relPath + rest.length := by
    rw [List.length_append, length_serialize]
  unfold deserialize
  rw [Except.raiseIf_of_not (by omega), Except.ok_bind]
  simp only [f₁, f₂, f₃, f₄, f₅]
  rw [Except.raiseIf_of_not (by omega), Except.ok_bind, hpath, LineBatchSerializer.decode,
    decodeText?_encodeText]
  exact h.create_self

/-- An accepted input begins with what the header serializes to. -/
theorem serialize_of_deserialize {data : Bytes} (hd : deserialize data = .ok h) :
    ∃ rest, data = h.serialize ++ rest := by
  obtain ⟨hshort, hd⟩ := Except.ok_of_raiseIf hd
  obtain ⟨hpath, hd⟩ := Except.ok_of_raiseIf hd
  obtain ⟨relPath, hdecode, hd⟩ := Except.ok_of_bind hd
  obtain ⟨h₁, h₂, h₃, h₄, h₅⟩ := of_create hd
  have htext := LineBatchSerializer.encodeText_of_decode hdecode
  rw [headerSize, Nat.not_lt] at hshort
  rw [headerSize, Nat.not_lt] at hpath
  have hfield : ∀ i w, i + w ≤ 21 → beEncode w (beDecode ((data.drop i).take w)) =
      (data.drop i).take w := by
    intro i w hw
    have hlen : ((data.drop i).take w).length = w := by
      rw [List.length_take, List.length_drop]
      omega
    conv_lhs =>
      congr
      rw [← hlen]
    exact beEncode_beDecode _
  refine ⟨data.drop (21 + beDecode ((data.drop 9).take 4)), ?_⟩
  have hsize : pathSizeFor h.relPath = beDecode ((data.drop 9).take 4) := by
    rw [pathSizeFor, h₁, htext, List.length_take, List.length_drop, headerSize]
    omega
  have h₀ := hfield 0 4 (by omega)
  rw [List.drop_zero] at h₀
  rw [serialize, hsize, h₁, h₂, h₃, h₄, h₅, htext, h₀, hfield 4 1 (by omega), hfield 5 4 (by omega),
    hfield 9 4 (by omega), hfield 13 8 (by omega), headerSize]
  have hcut : ∀ i w, (data.drop i).take w ++ data.drop (i + w) = data.drop i := by
    intro i w
    rw [← List.drop_drop, List.take_append_drop]
  simp only [List.append_assoc]
  rw [← List.drop_drop, List.take_append_drop, hcut 13 8, hcut 9 4, hcut 5 4, hcut 4 1,
    List.take_append_drop]

/-- A header is received, and nothing behind it is touched. -/
theorem eval_recv {ε : Type} (h : FileChunkHeader) (rest : Bytes) :
    (recv : Program UInt8 ε FileChunkHeader).eval (h.serialize ++ rest) = ⟨[], .ok h, rest⟩ := by
  have hsize := (h.fields_fixedPart []).2.2.2.1
  have hpath : (encodeText h.relPath).length = pathSizeFor h.relPath := rfl
  rw [List.append_nil] at hsize
  rw [recv, serialize_eq, List.append_assoc,
    Program.eval_bind_of_ok (Program.eval_receive h.length_fixedPart), hsize,
    Program.Outcome.after_nil, Program.eval_bind_of_ok (Program.eval_receive hpath),
    ← serialize_eq]
  have hd := h.deserialize_serialize []
  rw [List.append_nil] at hd
  rw [hd]
  rfl

theorem of_eval_recv {ε : Type} {input rest : Bytes} {es : List ε}
    (he : (recv : Program UInt8 ε FileChunkHeader).eval input = ⟨es, .ok h, rest⟩) :
    es = [] ∧ input = h.serialize ++ rest := by
  obtain ⟨_, fixed, _, _, h₁, hafter, rfl⟩ := Program.ok_of_eval_bind he
  obtain ⟨_, path, _, _, h₂, hread, rfl⟩ := Program.ok_of_eval_bind hafter
  obtain ⟨rfl, hl₁, rfl⟩ := Program.ok_of_eval_receive h₁
  obtain ⟨rfl, hl₂, rfl⟩ := Program.ok_of_eval_receive h₂
  obtain ⟨hd, rfl, rfl⟩ := Program.ok_of_eval_ofExcept hread
  obtain ⟨extra, hextra⟩ := serialize_of_deserialize hd
  refine ⟨rfl, ?_⟩
  -- the path that was received is the whole path, so nothing is left over
  have hsize : beDecode ((fixed.drop 9).take 4) = pathSizeFor h.relPath := by
    have hf := (h.fields_fixedPart (encodeText h.relPath ++ extra)).2.2.2.1
    rw [← List.append_assoc, ← serialize_eq, ← hextra] at hf
    rw [← hf, List.drop_append_of_le_length (by rw [hl₁]; decide),
      List.take_append_of_le_length (by rw [List.length_drop, hl₁]; decide)]
  have hlen := congrArg List.length hextra
  rw [List.length_append, List.length_append, length_serialize, hl₁, hl₂, hsize] at hlen
  obtain rfl : extra = [] := List.length_eq_zero_iff.mp (by omega)
  rw [← List.append_assoc, hextra, List.append_nil]

end FileChunkHeader

/-! ## A chunk -/

structure FileChunk where
  header : FileChunkHeader
  data : Bytes
  length_data : data.length = header.payloadSize
  deriving DecidableEq

namespace FileChunk

/-- `__init__`. -/
def create (relPath : String) (clientId fileType offset : Nat) (data : Bytes) :
    Except String FileChunk :=
  match h : FileChunkHeader.create relPath clientId fileType offset data.length with
  | .ok header => .ok ⟨header, data, (FileChunkHeader.of_create h).2.2.2.2.symm⟩
  | .error error => .error error

variable (c : FileChunk)

def serialize : Bytes := c.header.serialize ++ c.data

/-- `message_size`. -/
def messageSize (messageTypeSize : Nat) : Nat :=
  messageTypeSize + (FileChunkHeader.serializedSizeForPath c.header.relPath + c.header.payloadSize)

/-- `message_overhead_for`. -/
def messageOverheadFor (relPath : String) (messageTypeSize : Nat) : Nat :=
  messageTypeSize + FileChunkHeader.serializedSizeForPath relPath

/-- `max_payload_size_for_message`. -/
def maxPayloadSizeForMessage (relPath : String) (maxMessageSize messageTypeSize : Nat) :
    Except String Nat := do
  Except.raiseIf (maxMessageSize = 0) "max_message_size must be greater than 0"
  Except.raiseIf (messageTypeSize = 0) "message_type_size must be greater than 0"
  let overhead := messageOverheadFor relPath messageTypeSize
  Except.raiseIf (maxMessageSize ≤ overhead)
    (s!"max_message_size leaves no room for payload " ++
      s!"(max_message_size={maxMessageSize}, overhead={overhead}, rel_path='{relPath}')")
  return maxMessageSize - overhead

def deserialize (data : Bytes) : Except String FileChunk := do
  let header ← FileChunkHeader.deserialize data
  let start := FileChunkHeader.headerSize + pathSizeFor header.relPath
  Except.raiseIf (data.length < start + header.payloadSize) "not enough bytes for FileChunk payload"
  create header.relPath header.clientId header.fileType header.offset
    ((data.drop start).take header.payloadSize)

/-- `recv`. -/
def recv {ε : Type} : Program UInt8 ε FileChunk := do
  let header ← FileChunkHeader.recv
  let payload ← Program.receive header.payloadSize
  Program.ofExcept (create header.relPath header.clientId header.fileType header.offset payload)

/-- A payload of the announced size makes a chunk. -/
theorem create_self :
    create c.header.relPath c.header.clientId c.header.fileType c.header.offset c.data = .ok c := by
  have hc := c.header.create_self
  rw [← c.length_data] at hc
  unfold create
  split
  next header h =>
    rw [hc] at h
    cases h
    rfl
  next error h =>
    rw [hc] at h
    cases h

variable {c}

theorem of_create {relPath : String} {clientId fileType offset : Nat} {data : Bytes}
    (h : create relPath clientId fileType offset data = .ok c) :
    FileChunkHeader.create relPath clientId fileType offset data.length = .ok c.header ∧
    c.data = data := by
  unfold create at h
  split at h
  next header hh =>
    cases h
    exact ⟨hh, rfl⟩
  next => cases h

@[simp] theorem length_serialize :
    c.serialize.length = FileChunkHeader.headerSize + pathSizeFor c.header.relPath +
      c.data.length := by
  rw [serialize, List.length_append, FileChunkHeader.length_serialize]

theorem deserialize_serialize (rest : Bytes) : deserialize (c.serialize ++ rest) = .ok c := by
  rw [deserialize, serialize, List.append_assoc, FileChunkHeader.deserialize_serialize,
    Except.ok_bind]
  dsimp only
  rw [Except.raiseIf_of_not (by simp [c.length_data]), Except.ok_bind,
    take_drop_field FileChunkHeader.length_serialize c.length_data]
  exact c.create_self

theorem serialize_of_deserialize {data : Bytes} (h : deserialize data = .ok c) :
    ∃ rest, data = c.serialize ++ rest := by
  obtain ⟨header, hheader, h⟩ := Except.ok_of_bind h
  obtain ⟨hshort, h⟩ := Except.ok_of_raiseIf h
  obtain ⟨hc, hdata⟩ := of_create h
  obtain ⟨rest, rfl⟩ := FileChunkHeader.serialize_of_deserialize hheader
  rw [List.length_append, FileChunkHeader.length_serialize] at hshort
  rw [List.drop_left' FileChunkHeader.length_serialize] at hc hdata
  have hlen : (rest.take header.payloadSize).length = header.payloadSize :=
    List.length_take_of_le (by omega)
  rw [hlen, header.create_self] at hc
  cases hc
  exact ⟨rest.drop c.header.payloadSize, by rw [serialize, hdata, List.append_assoc,
    List.take_append_drop]⟩

theorem silent_recv {ε : Type} : Program.Silent (recv : Program UInt8 ε FileChunk) := by
  have hheader : Program.Silent (FileChunkHeader.recv : Program UInt8 ε FileChunkHeader) :=
    (Program.silent_receive _).bind fun _ => (Program.silent_receive _).bind fun _ =>
      Program.silent_ofExcept _
  exact hheader.bind fun _ => (Program.silent_receive _).bind fun _ => Program.silent_ofExcept _

/-- A chunk is received, and nothing behind it is touched. -/
theorem eval_recv {ε : Type} (c : FileChunk) (rest : Bytes) :
    (recv : Program UInt8 ε FileChunk).eval (c.serialize ++ rest) = ⟨[], .ok c, rest⟩ := by
  rw [recv, serialize, List.append_assoc, Program.eval_bind_of_ok (FileChunkHeader.eval_recv _ _),
    Program.eval_bind_of_ok (Program.eval_receive c.length_data), c.create_self]
  rfl

/-- What is received is what a chunk serializes to. -/
theorem of_eval_recv {ε : Type} {input rest : Bytes} {es : List ε}
    (he : (recv : Program UInt8 ε FileChunk).eval input = ⟨es, .ok c, rest⟩) :
    es = [] ∧ input = c.serialize ++ rest := by
  obtain ⟨_, header, _, _, h₁, hafter, rfl⟩ := Program.ok_of_eval_bind he
  obtain ⟨_, payload, _, _, h₂, hmade, rfl⟩ := Program.ok_of_eval_bind hafter
  obtain ⟨rfl, rfl⟩ := FileChunkHeader.of_eval_recv h₁
  obtain ⟨rfl, hlen, rfl⟩ := Program.ok_of_eval_receive h₂
  obtain ⟨hcreate, rfl, rfl⟩ := Program.ok_of_eval_ofExcept hmade
  obtain ⟨hc, rfl⟩ := of_create hcreate
  rw [hlen, header.create_self] at hc
  cases hc
  exact ⟨rfl, by rw [serialize, List.append_assoc]⟩

/-- **A chunk on the connection.** However the bytes are cut into pieces, a chunk is received from
them exactly when its serialization stands at their beginning, and then what is behind it is
left. -/
theorem recv_pieces {ε : Type} {pieces : List Bytes} (hp : Pieces pieces) (c : FileChunk)
    (rest : Bytes) :
    (∃ left, (recv : Program UInt8 ε FileChunk).run pieces = ([], .ok c, left) ∧
      left.flatten = rest) ↔
      pieces.flatten = c.serialize ++ rest := by
  obtain ⟨left, hrun, hflat, -⟩ := (recv : Program UInt8 ε FileChunk).run_eval hp
  constructor
  · rintro ⟨left', hrun', rfl⟩
    rw [hrun] at hrun'
    simp only [Prod.mk.injEq] at hrun'
    obtain ⟨hemitted, hresult, rfl⟩ := hrun'
    have heval : (recv : Program UInt8 ε FileChunk).eval pieces.flatten =
        ⟨[], .ok c, left.flatten⟩ := by
      rw [hflat, ← hemitted, ← hresult]
    exact (of_eval_recv heval).2
  · intro h
    rw [h, eval_recv] at hrun hflat
    exact ⟨left, hrun, hflat⟩

/-- Two bytes of a file. -/
def twoBytes : FileChunk where
  header :=
    ⟨"t.csv", 7, fileTypeTransactions, 0, 2, by decide, by decide, by decide, by decide, by decide⟩
  data := [65, 66]
  length_data := rfl

theorem recv_pieces_bytes :
    ∃ left, (recv : Program UInt8 Unit FileChunk).run (twoBytes.serialize.map fun b => [b]) =
    ([], .ok twoBytes, left) ∧ left.flatten = [] := by
  have hp : Pieces (twoBytes.serialize.map fun b => [b]) := by
    intro piece hpiece
    obtain ⟨b, -, rfl⟩ := List.mem_map.mp hpiece
    exact List.cons_ne_nil _ _
  refine (recv_pieces hp twoBytes []).mpr ?_
  rw [List.append_nil]
  exact List.flatMap_singleton' _

end FileChunk

/-! ## The end of a file -/

structure FileEof where
  relPath : String
  clientId : Nat
  fileType : Nat
  clientId_lt : clientId < 256 ^ 4
  fileType_mem : fileType ∈ fileTypes
  pathSize_lt : pathSizeFor relPath < 256 ^ 4
  deriving DecidableEq

namespace FileEof

/-- `HEADER_SIZE`. -/
def headerSize : Nat := 9

/-- `__init__`. -/
def create (relPath : String) (clientId fileType : Nat) : Except String FileEof := do
  let clientId_lt ← validateUint "client_id" 4 clientId
  let fileType_mem ← validateFileType fileType
  let pathSize_lt ← validateUint "path_size" 4 (pathSizeFor relPath)
  return ⟨relPath, clientId, fileType, clientId_lt.down, fileType_mem.down, pathSize_lt.down⟩

variable (e : FileEof)

def serialize : Bytes :=
  beEncode 4 e.clientId ++ beEncode 1 e.fileType ++ beEncode 4 (pathSizeFor e.relPath) ++
    encodeText e.relPath

def deserialize (data : Bytes) : Except String FileEof := do
  Except.raiseIf (data.length < headerSize) "not enough bytes for FileEof"
  let pathSize := beDecode ((data.drop 5).take 4)
  Except.raiseIf (data.length < headerSize + pathSize) "not enough bytes for FileEof path"
  Except.raiseIf (data.length ≠ headerSize + pathSize) "too many bytes for FileEof"
  let relPath ← LineBatchSerializer.decode ((data.drop headerSize).take pathSize)
  create relPath (beDecode (data.take 4)) (beDecode ((data.drop 4).take 1))

theorem create_self : create e.relPath e.clientId e.fileType = .ok e := by
  rw [create, validateUint_of_lt e.clientId_lt, Except.ok_bind,
    validateFileType_of_mem e.fileType_mem, Except.ok_bind, validateUint_of_lt e.pathSize_lt]
  rfl

variable {e}

@[simp] theorem length_serialize : e.serialize.length = headerSize + pathSizeFor e.relPath := by
  simp [serialize, headerSize, pathSizeFor]
  omega

theorem deserialize_serialize : deserialize e.serialize = .ok e := by
  have hserialize : e.serialize = beEncode 4 e.clientId ++ (beEncode 1 e.fileType ++
      (beEncode 4 (pathSizeFor e.relPath) ++ encodeText e.relPath)) := by
    simp only [serialize, List.append_assoc]
  have a₀ := at_zero e.serialize
  rw [hserialize] at a₀
  obtain ⟨e₁, a₁⟩ := field_of_at a₀ (length_beEncode 4 e.clientId)
  obtain ⟨e₂, a₂⟩ := field_of_at a₁ (length_beEncode 1 e.fileType)
  obtain ⟨e₃, a₃⟩ := field_of_at a₂ (length_beEncode 4 (pathSizeFor e.relPath))
  have hpath := a₃.drop
  rw [← hserialize] at e₁ e₂ e₃ hpath
  rw [List.drop_zero] at e₁
  unfold deserialize
  rw [Except.raiseIf_of_not (by simp), Except.ok_bind]
  simp only [e₁, e₂, e₃, beDecode_beEncode e.clientId_lt,
    beDecode_beEncode (fileType_lt e.fileType_mem), beDecode_beEncode e.pathSize_lt]
  rw [Except.raiseIf_of_not (by simp), Except.ok_bind, Except.raiseIf_of_not (by simp),
    Except.ok_bind,
    headerSize, hpath, pathSizeFor, List.take_length, LineBatchSerializer.decode,
      decodeText?_encodeText]
  exact e.create_self

end FileEof

end MoneyLaundering
