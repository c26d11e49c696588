import MoneyLaundering.Eof.WorkerChange
import MoneyLaundering.LineBatch
import MoneyLaundering.Transaction

/-!
# The file ingestor

`FileIngestorState` and the message handlers of `FileIngestor` (`workers/file_ingestor/`): line
batches become batches of transactions for every output, and the replicas agree on the end of a
client in the broadcast mode of the coordinator.

Upstream EOFs, `FLUSH_ORDER` and `FLUSH_ACK` go through the durable handler. `EOF_RECEIVED`,
`PROCESSED_REQUEST` and `PROCESSED_ANSWER` reach the coordinator outside the log, so what they
change lives in memory and in snapshots only.
-/

namespace MoneyLaundering

open Bytes InternalProtocol

/-- A change of `FileIngestorState`. A `data` change carries the number of forwarded transactions,
and an abort is a change of its own. -/
inductive FileIngestorChange where
  | worker (change : WorkerChange Nat)
  | abort (clientId : Nat)
  deriving DecidableEq

/-- `FileIngestorState`. -/
structure FileIngestorState where
  coordinator : EofCoordinator := {}
  processedByClient : Dict Nat Nat := ∅
  closedByClient : Finset Nat := ∅
  batchesConsumed : Nat := 0

/-- The fields of `FileIngestorOutputConfig` that the ingestor computes with. -/
structure FileIngestorOutputConfig where
  name : String
  shardCount : Nat

/-- `FileIngestorConfig`, with the row parser, the codec of the log and the hash of the routing. -/
structure FileIngestorConfig where
  id : Nat
  totalInstances : Nat
  outputs : List FileIngestorOutputConfig
  controlQueuePrefix : String
  responseQueuePrefix : String
  snapshotInterval : Nat := 1000
  parseLine : List String → Bytes → Nat → Except String Transaction
  changeJson : StateChangeCodec FileIngestorChange
  sha256 : Bytes → Bytes

namespace FileIngestorConfig

variable (cfg : FileIngestorConfig)

def coordinator : CoordinatorConfig where
  instanceId := cfg.id
  totalInstances := cfg.totalInstances
  controlQueuePrefix := cfg.controlQueuePrefix
  responseQueuePrefix := cfg.responseQueuePrefix

/-- `_output_edges`. -/
def outputEdges : Dict String EdgeSpec :=
  Dict.ofList (cfg.outputs.map fun output => (output.name, ⟨cfg.id, output.shardCount⟩))

end FileIngestorConfig

namespace FileIngestorState

variable (cfg : FileIngestorConfig)

section reading
variable (s : FileIngestorState) (clientId : Nat)

def isClosed : Bool := decide (clientId ∈ s.closedByClient)
def processedCount : Nat := s.processedByClient.getD clientId 0

end reading

/-- `_apply_data`. -/
def applyData (s : FileIngestorState) (clientId transactionsForwarded : Nat) : FileIngestorState :=
  if clientId ∈ s.closedByClient then s
  else { s with
    processedByClient := s.processedByClient.set clientId
      (s.processedCount clientId + transactionsForwarded)
    batchesConsumed := s.batchesConsumed + 1 }

/-- `_apply_close`. -/
def applyClose (s : FileIngestorState) (clientId : Nat) : FileIngestorState :=
  { s with
    closedByClient := insert clientId s.closedByClient
    processedByClient := s.processedByClient.erase clientId }

def applyOp (s : FileIngestorState) (op : WorkerOp Nat) : FileIngestorState :=
  match op with
  | .data clientId transactionsForwarded => s.applyData clientId transactionsForwarded
  | .close clientId => s.applyClose clientId
  | op => { s with coordinator := op.applyCoordinator cfg.coordinator s.coordinator }

/-- `apply_change`. -/
def applyChange (s : FileIngestorState) : FileIngestorChange → FileIngestorState
  | .worker change => change.ops.foldl (applyOp cfg) s
  | .abort clientId =>
    { s with
      coordinator := (s.coordinator.cleanupClient clientId).cleanupLeaderState cfg.coordinator
        clientId }.applyClose clientId

end FileIngestorState

/-! ## The message handlers -/

/-- What a message handler does while it holds the lock. -/
inductive IngestorReaction where
  /-- It raises or refuses the message: a nack. -/
  | refuse
  /-- It acks the message. -/
  | skip
  /-- It calls `handle`. -/
  | handle (key : InputKey) (businessFn : BusinessFn FileIngestorState FileIngestorChange)
  /-- It calls the coordinator outside the log. -/
  | direct (coordinator : EofCoordinator) (action : Option CoordinatorAction)

namespace FileIngestorConfig

variable (cfg : FileIngestorConfig)

/-- `_packet`. -/
def packet (msgType : MessageType) (clientId : Nat) (payload : Bytes) : Except String Bytes :=
  createPacket msgType.toNat clientId payload

/-- `_eof_payload`. -/
def eofPayload (expectedTotal : Nat) : Except String Bytes :=
  ControlMessage.serialize { senderId := cfg.id, expectedTotal, processedCount := 0 }

/-- `_downstream_eof_outputs`. -/
def downstreamEofOutputs (clientId totalForwarded : Nat) : Except String (List LogicalOutput) := do
  let body ← packet .eof clientId (← cfg.eofPayload totalForwarded)
  return cfg.outputs.map fun output => { destination := output.name, body }

/-- `_downstream_abort_outputs`. -/
def downstreamAbortOutputs (clientId : Nat) : Except String (List LogicalOutput) := do
  let body ← packet .abort clientId []
  return cfg.outputs.flatMap fun output =>
    (List.range output.shardCount).map fun shard =>
      { destination := output.name, body, shard := some shard }

/-- One batch of transactions for every output, unless there is none. -/
def dataOutputs (clientId : Nat) : List Transaction → Except String (List LogicalOutput)
  | [] => .ok []
  | transactions => do
    let records ← transactions.mapM TransactionSerializer.serialize
    let body ← packet .data clientId records.flatten
    return cfg.outputs.map fun output => { destination := output.name, body }

/-- `_data_process_payload`. -/
def dataProcessPayload (clientId : Nat) (payload : Bytes) :
    BusinessFn FileIngestorState FileIngestorChange := fun s => do
  if s.isClosed clientId then return (.worker (.single (.data clientId 0)), [])
  let batch ← LineBatchSerializer.deserialize payload
  let transactions ← LineBatchParser.parse cfg.parseLine batch
  let outputs ← cfg.dataOutputs clientId transactions
  return (.worker (.single (.data clientId transactions.length)), outputs)

/-- `bfn` of `_handle_upstream_eof`. With several replicas the EOF is announced to all of them. -/
def upstreamEofBusiness (clientId expectedTotal : Nat) :
    BusinessFn FileIngestorState FileIngestorChange := fun s => do
  let count := s.processedCount clientId
  let eofOp := WorkerOp.coordinatorUpstreamEof clientId expectedTotal count count
  if 1 < cfg.totalInstances then
    let body ← packet .eofReceived clientId (← cfg.eofPayload expectedTotal)
    return (.worker (.single eofOp), (List.range cfg.totalInstances).map fun i =>
      { destination := cfg.coordinator.controlQueueFor i, body })
  let outputs ← cfg.downstreamEofOutputs clientId count
  return (.worker (.compound [eofOp, .close clientId]), outputs)

/-- `bfn` of `_handle_flush_order`. -/
def flushOrderBusiness (clientId leaderId : Nat) :
    BusinessFn FileIngestorState FileIngestorChange := fun s => do
  let body ← (EofCoordinator.buildFlushAck cfg.coordinator clientId
      (s.processedCount clientId)).toBytes
  return (.worker (.compound [.coordinatorCleanup clientId, .close clientId]),
    [{ destination := cfg.coordinator.responseQueueFor leaderId, body }])

/-- `bfn` of `_handle_flush_ack`, with what the handler reads of the coordinator before it. -/
def flushAckBusiness (clientId : Nat) (ctrl : ControlMessage) :
    BusinessFn FileIngestorState FileIngestorChange := fun s => do
  let acks := s.coordinator.flushAcks.getD clientId ∅
  let already := decide (ctrl.senderId ∈ acks)
  let newAckCount := acks.card + if already then 0 else 1
  let ackOp := WorkerOp.coordinatorMsg .flushAck clientId ctrl 0 0
  if cfg.totalInstances - 1 ≤ newAckCount then
    let totalFwd := s.coordinator.forwardedFromAcks.getD clientId 0 +
      (if already then 0 else ctrl.processedCount) + s.processedCount clientId
    let outputs ← cfg.downstreamEofOutputs clientId totalFwd
    return (.worker (.compound [ackOp, .close clientId]), outputs)
  return (.worker (.single ackOp), [])

section handlers
variable (s : FileIngestorState) (inbox : Inbox)

/-- A client that is closed acks everything but an input that is in progress. -/
def openOrApplied (key : InputKey) (reaction : IngestorReaction) : IngestorReaction :=
  if s.isClosed key.clientId ∧ inbox.classify key ≠ .applied then .skip else reaction

/-- `_handle_upstream_eof`. -/
def handleUpstreamEof (m : Addressed) : IngestorReaction :=
  match ControlMessage.deserialize m.payload with
  | .error _ => .refuse
  | .ok ctrl =>
    let key : InputKey := ⟨m.clientId, .ctrlUpstreamEof, m.senderId, m.seq⟩
    openOrApplied s inbox key
      (.handle key (cfg.upstreamEofBusiness m.clientId ctrl.expectedTotal))

/-- `_handle_abort`. -/
def handleAbort (m : Addressed) : IngestorReaction :=
  let key : InputKey := ⟨m.clientId, .abort, m.senderId, m.seq⟩
  openOrApplied s inbox key (.handle key fun _ => do
    return (.abort m.clientId, ← cfg.downstreamAbortOutputs m.clientId))

/-- `_on_input_message`. -/
def onInputMessage (body : Bytes) : IngestorReaction :=
  match body with
  | [] => .refuse
  | msgType :: _ =>
    match unpackAddressedPacket body with
    | .error _ => .refuse
    | .ok m =>
      match MessageType.ofNat? msgType.toNat with
      | some .data =>
        .handle ⟨m.clientId, .data, m.senderId, m.seq⟩ (cfg.dataProcessPayload m.clientId m.payload)
      | some .eof => cfg.handleUpstreamEof s inbox m
      | some .abort => cfg.handleAbort s inbox m
      | _ => .refuse

/-- `_handle_flush_order`. The leader ignores its own order. -/
def handleFlushOrder (clientId : Nat) (ctrl : ControlMessage) : IngestorReaction :=
  let key : InputKey := ⟨clientId, .ctrlFlushOrder, ctrl.senderId, clientId⟩
  openOrApplied s inbox key
    (if (s.coordinator.leaderExpected.get? clientId).isSome then .skip
    else .handle key (cfg.flushOrderBusiness clientId ctrl.senderId))

/-- `_handle_control`, after `parse_message`. -/
def handleControl (p : ControlPacket) : IngestorReaction :=
  match p.msgType with
  | .flushOrder => cfg.handleFlushOrder s inbox p.clientId p.ctrl
  | msgType =>
    let count := s.processedCount p.clientId
    let (coordinator, action) :=
      s.coordinator.processControlMessage cfg.coordinator msgType p.clientId p.ctrl count count
    .direct coordinator action

/-- `_handle_flush_ack`. -/
def handleFlushAck (clientId : Nat) (ctrl : ControlMessage) : IngestorReaction :=
  let key : InputKey := ⟨clientId, .ctrlFlushAck, ctrl.senderId, clientId⟩
  openOrApplied s inbox key
    (if inbox.classify key ≠ .applied ∧ s.coordinator.leaderExpected.get? clientId = none then .skip
    else .handle key (cfg.flushAckBusiness clientId ctrl))

/-- `_handle_response`, after `parse_message`. -/
def handleResponse (p : ControlPacket) : IngestorReaction :=
  match p.msgType with
  | .flushAck => cfg.handleFlushAck s inbox p.clientId p.ctrl
  | msgType =>
    let (coordinator, action) :=
      s.coordinator.processControlMessage cfg.coordinator msgType p.clientId p.ctrl 0 0
    .direct coordinator action

end handlers

/-! ## The durable handler -/

/-- The parts of a message id: `f"{sender}:{seq}"` of the runner, `f"d:…"`, `f"abort:…"`, `f"fo:…"`
and `f"fa:…"`. A control input has its client as seq; other seqs and kinds do not occur and are
spelled out. -/
def msgIdParts (key : InputKey) : List (List Char) :=
  let stream (tag : List Char) :=
    [tag, Text.ofNat key.senderId, Text.ofNat key.clientId, Text.ofNat key.seq]
  let control (tag : List Char) :=
    if key.seq = key.clientId then [tag, Text.ofNat key.clientId, Text.ofNat key.senderId]
    else [tag, Text.ofNat key.clientId, Text.ofNat key.senderId, Text.ofNat key.seq, []]
  match key.kind with
  | .data => [Text.ofNat key.senderId, Text.ofNat key.seq]
  | .ctrlUpstreamEof => stream ['d']
  | .abort => stream "abort".toList
  | .ctrlFlushOrder => control ['f', 'o']
  | .ctrlFlushAck => control ['f', 'a']
  | kind => [Text.ofNat kind.toNat, Text.ofNat key.senderId, Text.ofNat key.seq]

def msgId (key : InputKey) : String := String.ofList (Text.join ':' (msgIdParts key))

theorem msgIdParts_spec (key : InputKey) :
    msgIdParts key ≠ [] ∧ ∀ part ∈ msgIdParts key, ':' ∉ part := by
  have hn : ∀ n, ':' ∉ Text.ofNat n := Text.not_mem_ofNat (by decide)
  unfold msgIdParts
  dsimp only
  split <;> (try split) <;> simp [hn]

theorem msgId_inj (a b : InputKey) (hc : a.clientId = b.clientId) (h : msgId a = msgId b) :
    a = b := by
  have heq := Text.join_inj (msgIdParts_spec a) (msgIdParts_spec b) (String.ofList_injective h)
  have hinj : ∀ m n, Text.ofNat m = Text.ofNat n ↔ m = n := fun _ _ => Text.ofNat_injective.eq_iff
  -- the tags of control inputs are no numbers
  have hf : ∀ c n, ['f', c] ≠ Text.ofNat n := fun c n e =>
    Text.not_mem_ofNat (by decide) n (e ▸ List.mem_cons_self : 'f' ∈ Text.ofNat n)
  have hf' : ∀ c n, Text.ofNat n ≠ ['f', c] := fun c n => (hf c n).symm
  obtain ⟨ac, ak, as, aq⟩ := a
  obtain ⟨bc, bk, bs, bq⟩ := b
  cases hc
  clear h
  unfold msgIdParts at heq
  cases ak <;> cases bk <;> simp only [MsgKind.toNat] at heq <;> (try split at heq) <;>
    (try split at heq) <;> simp_all

def handler : HandlerConfig FileIngestorState FileIngestorState FileIngestorChange where
  nodeId := workerNodeId "file_ingestor" cfg.id
  nodeId_noColon := workerNodeId_noColon (by decide) _
  edges := cfg.outputEdges
  sha256 := cfg.sha256
  worker := ⟨{}, fun s => s, fun s => s, FileIngestorState.applyChange cfg, fun _ => rfl⟩
  json := cfg.changeJson
  snapshotEvery := cfg.snapshotInterval
  msgId := msgId
  msgId_inj := msgId_inj

end FileIngestorConfig

end MoneyLaundering
