import Mathlib.Order.Defs.LinearOrder
import MoneyLaundering.Eof.WorkerChange
import MoneyLaundering.Lib.Base64
import MoneyLaundering.Transaction

/-!
# The Q3 barrier

`Q3BarrierState` and the message handlers of `Q3BarrierWorker` (`workers/q3_barrier/`). The averages
of a client are kept in memory, its candidates in a file on disk; when both streams have ended, the
candidates below their threshold are emitted and the client is closed.

The files are part of the state here: `apply_change` writes to them. Amounts and thresholds are
numbers of an ordered type.
-/

namespace MoneyLaundering

open Bytes InternalProtocol

/-! ## The candidate log -/

namespace DiskLog

/-- `_RECORD_LEN_SIZE`. -/
def recordLenSize : Nat := 4

/-- What `append` writes. A payload of `2 ^ 32` bytes does not fit the log of the worker either. -/
def frame (payload : Bytes) : Bytes := beEncode recordLenSize payload.length ++ payload

/-- The loop of `iter_raw_batches` over what is left of the file. -/
def iterFrom : Nat → Bytes → List Bytes
  | 0, _ => []
  | fuel + 1, data =>
    if data.length < recordLenSize then []
    else
      (data.drop recordLenSize).take (beDecode (data.take recordLenSize)) ::
        iterFrom fuel (data.drop (recordLenSize + beDecode (data.take recordLenSize)))

/-- `iter_raw_batches`. -/
def iterRawBatches (file : Bytes) : List Bytes := iterFrom file.length file

end DiskLog

/-! ## The state -/

/-- One change of `Q3BarrierState`, apart from a bundle of them. -/
inductive Q3Op where
  | avgData (clientId : Nat) (paymentFormat : String) (average : UInt64)
  | avgEof (clientId : Nat)
  | candidateData (clientId : Nat) (payload : List Char)
  | candidateEof (clientId expectedTotal : Nat)
  | close (clientId : Nat)
  deriving DecidableEq

/-- A change of `Q3BarrierState`. The worker bundles single changes only. -/
inductive Q3Change where
  | single (op : Q3Op)
  | compound (changes : List Q3Op)
  deriving DecidableEq

def Q3Change.ops : Q3Change → List Q3Op
  | single op => [op]
  | compound changes => changes

/-- `Q3BarrierState`: the maps in memory, the open logs with their `byte_count`, and the candidate
files of the node by client. -/
structure Q3BarrierState where
  averagesByClient : Dict Nat (Dict String UInt64) := ∅
  avgEofByClient : Finset Nat := ∅
  candidatesEofByClient : Finset Nat := ∅
  expectedTotalByClient : Dict Nat Nat := ∅
  closedByClient : Finset Nat := ∅
  diskLogs : Dict Nat Nat := ∅
  files : Dict Nat Bytes := ∅

namespace Q3BarrierState

/-- `candidate_data_change`. -/
def candidateDataChange (clientId : Nat) (payload : Bytes) : Q3Change :=
  .single (.candidateData clientId (Base64.encode payload))

section reading
variable (s : Q3BarrierState) (clientId : Nat)

def averages : Dict String UInt64 := s.averagesByClient.getD clientId ∅
def hasAvgEof : Bool := decide (clientId ∈ s.avgEofByClient)
def hasCandidateEof : Bool := decide (clientId ∈ s.candidatesEofByClient)
def isClosed : Bool := decide (clientId ∈ s.closedByClient)

/-- The content of a candidate file. -/
def file : Bytes := s.files.getD clientId []

/-- The batches of `disk_log(client_id)`, none when no log is open. -/
def rawBatches : List Bytes :=
  if s.diskLogs.contains clientId then DiskLog.iterRawBatches (s.file clientId) else []

end reading

/-- `_disk_log_for`: a log that is not open is opened at the end of its file. -/
def openLog (s : Q3BarrierState) (clientId : Nat) : Q3BarrierState :=
  if s.diskLogs.contains clientId then s
  else { s with
    files := s.files.set clientId (s.file clientId)
    diskLogs := s.diskLogs.set clientId (s.file clientId).length }

/-- `_DiskLog.append` on an open log. -/
def appendLog (s : Q3BarrierState) (clientId : Nat) (payload : Bytes) : Q3BarrierState :=
  { s with
    files := s.files.set clientId (s.file clientId ++ DiskLog.frame payload)
    diskLogs := s.diskLogs.set clientId
      (s.diskLogs.getD clientId 0 + (DiskLog.recordLenSize + payload.length)) }

/-- `_apply_avg_data`. -/
def applyAvgData (s : Q3BarrierState) (clientId : Nat) (paymentFormat : String) (average : UInt64) :
    Q3BarrierState :=
  if clientId ∈ s.closedByClient then s
  else { s with
    averagesByClient :=
      s.averagesByClient.set clientId ((s.averages clientId).set paymentFormat average) }

/-- `_apply_avg_eof`. -/
def applyAvgEof (s : Q3BarrierState) (clientId : Nat) : Q3BarrierState :=
  if clientId ∈ s.closedByClient then s
  else { s with avgEofByClient := insert clientId s.avgEofByClient }

/-- `_apply_candidate_data`. -/
def applyCandidateData (s : Q3BarrierState) (clientId : Nat) (payload : List Char) :
    Q3BarrierState :=
  if clientId ∈ s.closedByClient then s
  else (s.openLog clientId).appendLog clientId ((Base64.decode payload).getD [])

/-- `_apply_candidate_eof`. -/
def applyCandidateEof (s : Q3BarrierState) (clientId expectedTotal : Nat) : Q3BarrierState :=
  if clientId ∈ s.closedByClient then s
  else { s with
    candidatesEofByClient := insert clientId s.candidatesEofByClient
    expectedTotalByClient := s.expectedTotalByClient.set clientId expectedTotal }

/-- `_apply_close`: the file goes with its log, if the log is open. -/
def applyClose (s : Q3BarrierState) (clientId : Nat) : Q3BarrierState where
  files := if s.diskLogs.contains clientId then s.files.erase clientId else s.files
  diskLogs := s.diskLogs.erase clientId
  averagesByClient := s.averagesByClient.erase clientId
  avgEofByClient := s.avgEofByClient.erase clientId
  candidatesEofByClient := s.candidatesEofByClient.erase clientId
  expectedTotalByClient := s.expectedTotalByClient.erase clientId
  closedByClient := insert clientId s.closedByClient

def applyOp (s : Q3BarrierState) : Q3Op → Q3BarrierState
  | .avgData clientId paymentFormat average => s.applyAvgData clientId paymentFormat average
  | .avgEof clientId => s.applyAvgEof clientId
  | .candidateData clientId payload => s.applyCandidateData clientId payload
  | .candidateEof clientId expectedTotal => s.applyCandidateEof clientId expectedTotal
  | .close clientId => s.applyClose clientId

/-- `apply_change`. -/
def applyChange (s : Q3BarrierState) (change : Q3Change) : Q3BarrierState :=
  change.ops.foldl applyOp s

end Q3BarrierState

/-! ## Messages -/

/-- A message of one of the two streams, unpacked. -/
inductive Q3Body where
  | average (paymentFormat : String) (average : UInt64)
  | avgEof
  | batch (payload : Bytes)
  | candidateEof (expectedTotal : Nat)
  | abort
  deriving DecidableEq

structure Q3Message where
  clientId : Nat
  senderId : Nat
  seq : Nat
  body : Q3Body
  deriving DecidableEq

/-- The coordinates that the inbox knows the message by. -/
def Q3Message.key (m : Q3Message) : InputKey :=
  match m.body with
  | .average .. | .avgEof => ⟨m.clientId, .q3Averages, m.senderId, m.seq⟩
  | .batch .. | .candidateEof .. => ⟨m.clientId, .q3Candidates, m.senderId, m.seq⟩
  | .abort => ⟨m.clientId, .abort, m.senderId, m.seq⟩

/-- `Q3AverageResultSerializer.deserialize`: the payment format and the bits of the average. -/
def Q3AverageResult.deserialize (payload : Bytes) : Except String (String × UInt64) := do
  Except.raiseIf (payload.length ≠ TransactionSerializer.formatSize + 8)
    "unpack requires a buffer of 40 bytes"
  let paymentFormat ← TransactionSerializer.decodeFixed payload 0 TransactionSerializer.formatSize
  return (paymentFormat, UInt64.ofNat (beDecode (payload.drop TransactionSerializer.formatSize)))

/-- The environment of a barrier. `amount` and `threshold` read the bits of an amount and of an
average divided by `THRESHOLD_DIVISOR`. -/
structure Q3BarrierConfig (α : Type) where
  id : Nat
  outputQueue : String
  amount : UInt64 → α
  threshold : UInt64 → α
  outputBatchBytes : Nat := 1024 * 1024
  outputBatchMaxTx : Nat := 5000
  snapshotInterval : Nat
  sha256 : Bytes → Bytes
  changeJson : StateChangeCodec Q3Change

/-! ## The emit -/

/-- A packet to the gateway: transactions, or the `EOF` with its total. -/
inductive Q3Emission where
  | data (transactions : List Transaction)
  | eof (expectedTotal : Nat)
  deriving DecidableEq

namespace Q3BarrierConfig

variable {α : Type} [LinearOrder α] (cfg : Q3BarrierConfig α)

/-- The test of `_emit_outputs`. -/
def passes (averages : Dict String UInt64) (tx : Transaction) : Bool :=
  match averages.get? tx.format with
  | none => false
  | some avg => !decide (cfg.threshold avg ≤ cfg.amount tx.amount)

/-- The variables of the loop of `_emit_outputs`: the packets so far, the batch that is being filled
and its size, and the number of transactions. -/
structure EmitState where
  packets : List Q3Emission := []
  batch : List Transaction := []
  batchBytes : Nat := 0
  emitted : Nat := 0

/-- The body of the loop. -/
def emitStep (averages : Dict String UInt64) (st : EmitState) (tx : Transaction) : EmitState :=
  if cfg.passes averages tx then
    if cfg.outputBatchMaxTx ≤ (st.batch ++ [tx]).length ∨
        cfg.outputBatchBytes ≤ st.batchBytes + TransactionSerializer.size then
      { packets := st.packets ++ [.data (st.batch ++ [tx])]
        emitted := st.emitted + 1 }
    else
      { st with
        batch := st.batch ++ [tx]
        batchBytes := st.batchBytes + TransactionSerializer.size
        emitted := st.emitted + 1 }
  else st

/-- The packets of `_emit_outputs`. -/
def emissions (averages : Dict String UInt64) (candidates : List Transaction) : List Q3Emission :=
  let st := candidates.foldl (cfg.emitStep averages) {}
  st.packets ++ (if st.batch = [] then [] else [.data st.batch]) ++ [.eof st.emitted]

/-- The transactions of the candidate log. -/
def candidatesOf (s : Q3BarrierState) (clientId : Nat) : Except String (List Transaction) := do
  let batches ← (s.rawBatches clientId).mapM TransactionSerializer.deserializeBatch
  return batches.flatten

/-- The change and the packets for a message of an open client; the later of the two `EOF`s closes
the barrier. -/
def changeFor (s : Q3BarrierState) (m : Q3Message) : Except String (Q3Change × List Q3Emission) :=
  match m.body with
  | .average paymentFormat average =>
    .ok (.single (.avgData m.clientId paymentFormat average), [])
  | .batch payload => .ok (Q3BarrierState.candidateDataChange m.clientId payload, [])
  | .avgEof =>
    if s.hasCandidateEof m.clientId then do
      let candidates ← candidatesOf s m.clientId
      return (.compound [.avgEof m.clientId, .close m.clientId],
        cfg.emissions (s.averages m.clientId) candidates)
    else .ok (.single (.avgEof m.clientId), [])
  | .candidateEof expectedTotal =>
    if s.hasAvgEof m.clientId then do
      let candidates ← candidatesOf s m.clientId
      return (.compound [.candidateEof m.clientId expectedTotal, .close m.clientId],
        cfg.emissions (s.averages m.clientId) candidates)
    else .ok (.single (.candidateEof m.clientId expectedTotal), [])
  | .abort => .ok (.single (.close m.clientId), [])

/-- `_packet` of an emission, for the output queue. -/
def packet (clientId : Nat) : Q3Emission → Except String LogicalOutput
  | .data transactions => do
    let payloads ← transactions.mapM TransactionSerializer.serialize
    let body ← createPacket MessageType.data.toNat clientId payloads.flatten
    return { destination := cfg.outputQueue, body }
  | .eof expectedTotal => do
    let payload ← ControlMessage.serialize { senderId := cfg.id, expectedTotal }
    let body ← createPacket MessageType.eof.toNat clientId payload
    return { destination := cfg.outputQueue, body }

/-! ## The worker -/

/-- A message of one of the two queues. -/
inductive Delivery where
  | averages (body : Bytes)
  | candidates (body : Bytes)
  deriving DecidableEq

def Delivery.body : Delivery → Bytes
  | averages body | candidates body => body

/-- The kind under which a message of the queue is an input, `none` for a type it does not
support. -/
def Delivery.kind (d : Delivery) (msgType : Nat) : Option MsgKind :=
  match MessageType.ofNat? msgType with
  | some .abort => some .abort
  | some .data | some .eof =>
    match d with
    | averages _ => some .q3Averages
    | candidates _ => some .q3Candidates
  | _ => none

/-- What a message handler reads from the payload of a message of an open client. -/
def Delivery.parse (d : Delivery) (m : Addressed) : Except String Q3Body :=
  match d, MessageType.ofNat? m.msgType with
  | _, some .abort => .ok .abort
  | .averages _, some .data => do
    let (paymentFormat, average) ← Q3AverageResult.deserialize m.payload
    return .average paymentFormat average
  | .averages _, some .eof => .ok .avgEof
  | .candidates _, some .data => .ok (.batch m.payload)
  | .candidates _, some .eof => do
    let control ← ControlMessage.deserialize m.payload
    return .candidateEof control.expectedTotal
  | _, _ => .error "unsupported Q3 message type"

/-- A message handler on an unpacked message. -/
def onMessage (s : Q3BarrierState) (m : Q3Message) : Reaction Q3BarrierState Q3Change :=
  if s.isClosed m.clientId then .skip m.key
  else
    .handle m.key s do
      let (change, emitted) ← cfg.changeFor s m
      return (change, ← emitted.mapM (cfg.packet m.clientId))

/-- The message ids of the two streams. -/
def tags : MsgIdTags where
  tag
    | .q3Averages => ["avg".toList]
    | .q3Candidates => ["cand".toList]
    | .abort => ["abort".toList]
    | kind => [Text.ofNat kind.toNat]
  noColon := by intro kind; cases kind <;> decide
  prefixFree := by intro a b; cases a <;> cases b <;> decide

/-- `_handle_average` and `_handle_candidate`: a message of a closed client is acked before its
payload is read. -/
def react (s : Q3BarrierState) (d : Delivery) : Reaction Q3BarrierState Q3Change :=
  match unpackAddressedPacket d.body with
  | .error _ => .refuse
  | .ok m =>
    if s.isClosed m.clientId then
      match d.kind m.msgType with
      | some kind => .skip ⟨m.clientId, kind, m.senderId, m.seq⟩
      | none => .direct s []
    else
      match d.parse m with
      | .error _ => .refuse
      | .ok body => cfg.onMessage s ⟨m.clientId, m.senderId, m.seq, body⟩

/-- The worker and its durable handler. -/
def consumer : ConsumerConfig Q3BarrierState Q3Change Delivery where
  nodeId := workerNodeId "q3b" cfg.id
  nodeId_noColon := workerNodeId_noColon (by decide) _
  sha256 := cfg.sha256
  fresh := {}
  applyChange := Q3BarrierState.applyChange
  json := cfg.changeJson
  snapshotEvery := cfg.snapshotInterval
  tags := tags
  react := cfg.react

end Q3BarrierConfig

end MoneyLaundering
