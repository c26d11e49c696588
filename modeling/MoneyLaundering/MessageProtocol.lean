import MoneyLaundering.Lib.Bytes

/-!
# Packets between workers

The packet headers of `message_protocol/internal/protocol.py`, the control payload of
`control_message_serializer.py` and the digest sharding of `routing.py`. The SHA-256 digest is a
parameter wherever it is used.
-/

namespace MoneyLaundering

open Bytes

/-- `MessageType`. -/
inductive MessageType where
  | data | eof | processedRequest | processedAnswer | flushOrder | flushAck | aggregatedCount
  | eofReceived | abort
  deriving DecidableEq, Repr

/-- `int(msg_type)`. -/
def MessageType.toNat : MessageType → Nat
  | data => 0
  | eof => 1
  | processedRequest => 2
  | processedAnswer => 3
  | flushOrder => 4
  | flushAck => 5
  | aggregatedCount => 6
  | eofReceived => 7
  | abort => 8

theorem MessageType.toNat_injective : Function.Injective toNat := by
  intro a b h
  cases a <;> cases b <;> first | rfl | contradiction

/-- `MessageType(n)`. -/
def MessageType.ofNat? : Nat → Option MessageType
  | 0 => some data
  | 1 => some eof
  | 2 => some processedRequest
  | 3 => some processedAnswer
  | 4 => some flushOrder
  | 5 => some flushAck
  | 6 => some aggregatedCount
  | 7 => some eofReceived
  | 8 => some abort
  | _ => none

@[simp] theorem MessageType.ofNat?_toNat (t : MessageType) : ofNat? t.toNat = some t := by
  cases t <;> rfl

theorem MessageType.toNat_of_ofNat? {n : Nat} {t : MessageType} (h : ofNat? n = some t) :
    t.toNat = n := by
  unfold ofNat? at h
  split at h <;> cases h <;> rfl

namespace InternalProtocol

/-- `HEADER_SIZE`. -/
def headerSize : Nat := 17

/-- `ADDRESSED_HEADER_SIZE`. -/
def addressedHeaderSize : Nat := 25

/-- `create_packet`, with `client_id.to_bytes(16)`. -/
def createPacket (msgType clientId : Nat) (payload : Bytes) : Except String Bytes := do
  let clientIdBytes ← pack 16 clientId
  let msgType ← pack 1 msgType
  return msgType ++ clientIdBytes ++ payload

/-- `create_addressed_packet`, with `client_id.to_bytes(16)`. -/
def createAddressedPacket (msgType clientId senderId seq : Nat) (payload : Bytes) :
    Except String Bytes := do
  let clientIdBytes ← pack 16 clientId
  let msgType ← pack 1 msgType
  let senderId ← pack 4 senderId
  let seq ← pack 4 seq
  return msgType ++ clientIdBytes ++ senderId ++ seq ++ payload

/-- `unpack_packet`: message type, client and payload. -/
def unpackPacket (packet : Bytes) : Except String (Nat × Nat × Bytes) := do
  Except.raiseIf ((packet.take headerSize).length ≠ headerSize)
    "unpack requires a buffer of 17 bytes"
  return (beDecode (packet.take 1), beDecode ((packet.drop 1).take 16), packet.drop headerSize)

/-- The fields of an addressed packet. -/
structure Addressed where
  msgType : Nat
  clientId : Nat
  senderId : Nat
  seq : Nat
  payload : Bytes
  deriving DecidableEq

/-- `unpack_addressed_packet`. -/
def unpackAddressedPacket (packet : Bytes) : Except String Addressed := do
  Except.raiseIf ((packet.take addressedHeaderSize).length ≠ addressedHeaderSize)
    "unpack requires a buffer of 25 bytes"
  return {
    msgType := beDecode (packet.take 1)
    clientId := beDecode ((packet.drop 1).take 16)
    senderId := beDecode ((packet.drop 17).take 4)
    seq := beDecode ((packet.drop 21).take 4)
    payload := packet.drop addressedHeaderSize }

theorem unpackPacket_createPacket {msgType clientId : Nat} {payload packet : Bytes}
    (h : createPacket msgType clientId payload = .ok packet) :
    unpackPacket packet = .ok (msgType, clientId, payload) := by
  unfold createPacket at h
  obtain ⟨_, h₁, h⟩ := Except.ok_of_bind h
  obtain ⟨_, h₂, h⟩ := Except.ok_of_bind h
  obtain ⟨l₁, rfl⟩ := pack_eq_ok_iff.mp h₁
  obtain ⟨l₂, rfl⟩ := pack_eq_ok_iff.mp h₂
  cases h
  have hhead : (beEncode 1 msgType ++ beEncode 16 clientId).length = headerSize := by
    simp [headerSize]
  rw [unpackPacket, List.take_left' hhead, List.drop_left' hhead,
    Except.raiseIf_of_not (not_not_intro hhead), Except.ok_bind, List.append_assoc,
    List.take_left' (length_beEncode 1 msgType), take_drop_field (length_beEncode _ _)
    (length_beEncode _ _), beDecode_beEncode l₁, beDecode_beEncode l₂]
  rfl

/-- An addressed packet reads back as the fields it was made of. -/
theorem unpackAddressedPacket_create {msgType clientId senderId seq : Nat} {payload packet : Bytes}
    (h : createAddressedPacket msgType clientId senderId seq payload = .ok packet) :
    unpackAddressedPacket packet = .ok ⟨msgType, clientId, senderId, seq, payload⟩ := by
  unfold createAddressedPacket at h
  obtain ⟨_, h₁, h⟩ := Except.ok_of_bind h
  obtain ⟨_, h₂, h⟩ := Except.ok_of_bind h
  obtain ⟨_, h₃, h⟩ := Except.ok_of_bind h
  obtain ⟨_, h₄, h⟩ := Except.ok_of_bind h
  obtain ⟨l₁, rfl⟩ := pack_eq_ok_iff.mp h₁
  obtain ⟨l₂, rfl⟩ := pack_eq_ok_iff.mp h₂
  obtain ⟨l₃, rfl⟩ := pack_eq_ok_iff.mp h₃
  obtain ⟨l₄, rfl⟩ := pack_eq_ok_iff.mp h₄
  cases h
  have hhead : (beEncode 1 msgType ++ beEncode 16 clientId ++ beEncode 4 senderId ++
      beEncode 4 seq).length = addressedHeaderSize := by simp [addressedHeaderSize]
  have hseq : ((beEncode 1 msgType ++ beEncode 16 clientId ++ beEncode 4 senderId ++
      beEncode 4 seq ++ payload).drop 21).take 4 = beEncode 4 seq := by
    rw [List.append_assoc]
    exact take_drop_field (by simp) (length_beEncode _ _)
  have hsender : ((beEncode 1 msgType ++ beEncode 16 clientId ++ beEncode 4 senderId ++
      beEncode 4 seq ++ payload).drop 17).take 4 = beEncode 4 senderId := by
    rw [List.append_assoc, List.append_assoc]
    exact take_drop_field (by simp) (length_beEncode _ _)
  have hclient : ((beEncode 1 msgType ++ beEncode 16 clientId ++ beEncode 4 senderId ++
      beEncode 4 seq ++ payload).drop 1).take 16 = beEncode 16 clientId := by
    rw [List.append_assoc, List.append_assoc, List.append_assoc]
    exact take_drop_field (by simp) (length_beEncode _ _)
  have htype : (beEncode 1 msgType ++ beEncode 16 clientId ++ beEncode 4 senderId ++
      beEncode 4 seq ++ payload).take 1 = beEncode 1 msgType := by
    rw [List.append_assoc, List.append_assoc, List.append_assoc]
    exact List.take_left' (length_beEncode _ _)
  rw [unpackAddressedPacket, List.take_left' hhead, List.drop_left' hhead,
    Except.raiseIf_of_not (not_not_intro hhead), Except.ok_bind, hseq, hsender, hclient, htype,
    beDecode_beEncode l₁, beDecode_beEncode l₂, beDecode_beEncode l₃, beDecode_beEncode l₄]
  rfl

theorem length_createAddressedPacket {msgType clientId senderId seq : Nat}
    {payload packet : Bytes}
    (h : createAddressedPacket msgType clientId senderId seq payload = .ok packet) :
    packet.length = addressedHeaderSize + payload.length := by
  obtain ⟨_, h₁, h⟩ := Except.ok_of_bind h
  obtain ⟨_, h₂, h⟩ := Except.ok_of_bind h
  obtain ⟨_, h₃, h⟩ := Except.ok_of_bind h
  obtain ⟨_, h₄, h⟩ := Except.ok_of_bind h
  obtain ⟨-, rfl⟩ := pack_eq_ok_iff.mp h₁
  obtain ⟨-, rfl⟩ := pack_eq_ok_iff.mp h₂
  obtain ⟨-, rfl⟩ := pack_eq_ok_iff.mp h₃
  obtain ⟨-, rfl⟩ := pack_eq_ok_iff.mp h₄
  cases h
  simp only [List.length_append, length_beEncode, addressedHeaderSize]

/-- Fields that fit their widths make a packet. -/
theorem exists_createAddressedPacket {msgType clientId senderId seq : Nat} (payload : Bytes)
    (ht : msgType < 2 ^ 8) (hc : clientId < 2 ^ 128) (hs : senderId < 2 ^ 32) (hq : seq < 2 ^ 32) :
    ∃ packet, createAddressedPacket msgType clientId senderId seq payload = .ok packet := by
  unfold createAddressedPacket
  rw [pack_eq_ok_iff.mpr ⟨show clientId < 256 ^ 16 by omega, rfl⟩, Except.ok_bind,
    pack_eq_ok_iff.mpr ⟨show msgType < 256 ^ 1 by omega, rfl⟩, Except.ok_bind,
    pack_eq_ok_iff.mpr ⟨show senderId < 256 ^ 4 by omega, rfl⟩, Except.ok_bind,
    pack_eq_ok_iff.mpr ⟨show seq < 256 ^ 4 by omega, rfl⟩, Except.ok_bind]
  exact ⟨_, rfl⟩

/-- The first byte of a packet is its type. -/
theorem msgType_of_createPacket {msgType clientId : Nat} {payload packet : Bytes}
    (h : createPacket msgType clientId payload = .ok packet) :
    beDecode (packet.take 1) = msgType := by
  obtain ⟨_, h₁, h⟩ := Except.ok_of_bind h
  obtain ⟨_, h₂, h⟩ := Except.ok_of_bind h
  obtain ⟨l₂, rfl⟩ := pack_eq_ok_iff.mp h₂
  cases h
  rw [List.append_assoc, List.take_left' (length_beEncode 1 msgType), beDecode_beEncode l₂]

theorem msgType_of_createAddressedPacket {msgType clientId senderId seq : Nat}
    {payload packet : Bytes}
    (h : createAddressedPacket msgType clientId senderId seq payload = .ok packet) :
    beDecode (packet.take 1) = msgType := by
  obtain ⟨_, h₁, h⟩ := Except.ok_of_bind h
  obtain ⟨_, h₂, h⟩ := Except.ok_of_bind h
  obtain ⟨_, h₃, h⟩ := Except.ok_of_bind h
  obtain ⟨_, h₄, h⟩ := Except.ok_of_bind h
  obtain ⟨l₂, rfl⟩ := pack_eq_ok_iff.mp h₂
  cases h
  rw [List.append_assoc, List.append_assoc, List.append_assoc,
    List.take_left' (length_beEncode 1 msgType), beDecode_beEncode l₂]

theorem msgType_of_unpackPacket {packet payload : Bytes} {msgType clientId : Nat}
    (h : unpackPacket packet = .ok (msgType, clientId, payload)) :
    msgType = beDecode (packet.take 1) := by
  obtain ⟨-, h⟩ := Except.ok_of_raiseIf h
  cases h
  rfl

theorem msgType_of_unpackAddressedPacket {packet : Bytes} {m : Addressed}
    (h : unpackAddressedPacket packet = .ok m) : m.msgType = beDecode (packet.take 1) := by
  obtain ⟨-, h⟩ := Except.ok_of_raiseIf h
  cases h
  rfl

end InternalProtocol

/-! ## Control messages -/

/-- `ControlMessage`. -/
structure ControlMessage where
  senderId : Nat
  expectedTotal : Nat
  processedCount : Nat := 0
  deriving DecidableEq, Repr

namespace ControlMessage

/-- `ControlMessageSerializer.serialize`. -/
def serialize (m : ControlMessage) : Except String Bytes := do
  let senderId ← pack 4 m.senderId
  let expectedTotal ← pack 4 m.expectedTotal
  let processedCount ← pack 4 m.processedCount
  return senderId ++ expectedTotal ++ processedCount

/-- `ControlMessageSerializer.deserialize`. -/
def deserialize (payload : Bytes) : Except String ControlMessage := do
  Except.raiseIf (payload.length ≠ 12) "unpack requires a buffer of 12 bytes"
  return {
    senderId := beDecode (payload.take 4)
    expectedTotal := beDecode ((payload.drop 4).take 4)
    processedCount := beDecode ((payload.drop 8).take 4) }

theorem exists_serialize_iff {m : ControlMessage} : (∃ payload, m.serialize = .ok payload) ↔
    m.senderId < 256 ^ 4 ∧ m.expectedTotal < 256 ^ 4 ∧ m.processedCount < 256 ^ 4 := by
  constructor
  · rintro ⟨payload, h⟩
    obtain ⟨_, h₁, h⟩ := Except.ok_of_bind h
    obtain ⟨_, h₂, h⟩ := Except.ok_of_bind h
    obtain ⟨_, h₃, h⟩ := Except.ok_of_bind h
    exact ⟨(pack_eq_ok_iff.mp h₁).1, (pack_eq_ok_iff.mp h₂).1, (pack_eq_ok_iff.mp h₃).1⟩
  · rintro ⟨l₁, l₂, l₃⟩
    refine ⟨beEncode 4 m.senderId ++ beEncode 4 m.expectedTotal ++ beEncode 4 m.processedCount, ?_⟩
    rw [serialize, pack_eq_ok_iff.mpr ⟨l₁, rfl⟩, pack_eq_ok_iff.mpr ⟨l₂, rfl⟩,
      pack_eq_ok_iff.mpr ⟨l₃, rfl⟩]
    rfl

theorem deserialize_serialize {m : ControlMessage} {payload : Bytes}
    (h : m.serialize = .ok payload) : deserialize payload = .ok m := by
  obtain ⟨_, h₁, h⟩ := Except.ok_of_bind h
  obtain ⟨_, h₂, h⟩ := Except.ok_of_bind h
  obtain ⟨_, h₃, h⟩ := Except.ok_of_bind h
  obtain ⟨l₁, rfl⟩ := pack_eq_ok_iff.mp h₁
  obtain ⟨l₂, rfl⟩ := pack_eq_ok_iff.mp h₂
  obtain ⟨l₃, rfl⟩ := pack_eq_ok_iff.mp h₃
  cases h
  have hlast : ((beEncode 4 m.senderId ++ beEncode 4 m.expectedTotal ++
      beEncode 4 m.processedCount).drop 8).take 4 = beEncode 4 m.processedCount := by
    rw [List.drop_left' (by simp)]
    exact List.take_of_length_le (by simp)
  rw [deserialize, Except.raiseIf_of_not (by simp), Except.ok_bind, hlast, List.append_assoc,
    List.take_left' (length_beEncode _ _),
    take_drop_field (length_beEncode _ _) (length_beEncode _ _),
    beDecode_beEncode l₁, beDecode_beEncode l₂, beDecode_beEncode l₃]
  rfl

end ControlMessage

/-! ## Routing -/

/-- `shard_for_key` on bytes: the digest of the key, modulo the shard count. -/
def shardForKey (sha256 : Bytes → Bytes) (key : Bytes) (shardCount : Nat) : Except String Nat := do
  Except.raiseIf (shardCount = 0) "shard_count must be greater than 0"
  return beDecode (sha256 key) % shardCount

/-- `shard_for_client_id`. -/
def shardForClientId (clientId shardCount : Nat) : Except String Nat := do
  Except.raiseIf (shardCount = 0) "shard_count must be greater than 0"
  return clientId % shardCount

end MoneyLaundering
