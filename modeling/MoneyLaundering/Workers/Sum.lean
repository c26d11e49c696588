import MoneyLaundering.Eof.WorkerChange
import MoneyLaundering.Lib.Base64
import MoneyLaundering.Transaction

/-!
# The sum worker

`SumState` and the message handlers of `SumWorker` (`workers/sum/sum_state.py`, `sums.py`): partial
results of every client, forwarded to the aggregator shards when the replicas have agreed that the
client's input is complete.
-/

namespace MoneyLaundering

open Bytes InternalProtocol

/-- `SumProcessor`, on the accumulated value of a client. -/
structure SumProcessor (π : Type) where
  create : π
  process : π → Transaction → π
  partials : π → Except String (List (String × Bytes))

/-- A change of `SumState`; a `DATA` change carries its payload as base64 text. -/
abbrev SumChange := WorkerChange (List Char)

/-- The environment of a sum worker. -/
structure SumConfig (π : Type) where
  id : Nat
  sumAmount : Nat
  sumPrefix : String
  aggregationAmount : Nat
  aggregationPrefix : String
  snapshotInterval : Nat
  sha256 : Bytes → Bytes
  processor : SumProcessor π
  changeJson : StateChangeCodec SumChange

/-- `SumState`. -/
structure SumState (π : Type) where
  coordinator : EofCoordinator := {}
  processedByClient : Dict Nat Nat := ∅
  processorsByClient : Dict Nat π := ∅
  closedByClient : Finset Nat := ∅

namespace SumConfig

variable {π : Type} (cfg : SumConfig π)

def coordinator : CoordinatorConfig where
  instanceId := cfg.id
  totalInstances := cfg.sumAmount
  controlQueuePrefix := s!"{cfg.sumPrefix}_control"
  responseQueuePrefix := s!"{cfg.sumPrefix}_response"

end SumConfig

namespace SumState

variable {π : Type} (cfg : SumConfig π)

/-- `data_change`. -/
def dataChange (clientId : Nat) (payload : Bytes) : SumChange :=
  .single (.data clientId (Base64.encode payload))

section reading
variable (s : SumState π) (clientId : Nat)

def isClosed : Bool := decide (clientId ∈ s.closedByClient)
def processedCount : Nat := s.processedByClient.getD clientId 0

/-- `partials_for`. -/
def partialsFor : Except String (List (String × Bytes)) :=
  match s.processorsByClient.get? clientId with
  | some processor => cfg.processor.partials processor
  | none => .ok []

end reading

/-- The transactions of a payload, assumed to decode: on others `apply_change` raises, which
`SumChanges.applyData` has. -/
def transactionsOf (text : List Char) : List Transaction :=
  match TransactionSerializer.deserializeBatch ((Base64.decode text).getD []) with
  | .ok transactions => transactions
  | .error _ => []

/-- `_apply_data`. -/
def applyData (s : SumState π) (clientId : Nat) (payload : List Char) : SumState π :=
  if clientId ∈ s.closedByClient then s
  else { s with
    processorsByClient := s.processorsByClient.set clientId
      ((transactionsOf payload).foldl cfg.processor.process
        (s.processorsByClient.getD clientId cfg.processor.create))
    processedByClient := s.processedByClient.set clientId
      (s.processedCount clientId + (transactionsOf payload).length) }

/-- `_apply_close`. -/
def applyClose (s : SumState π) (clientId : Nat) : SumState π :=
  { s with
    closedByClient := insert clientId s.closedByClient
    processorsByClient := s.processorsByClient.erase clientId
    processedByClient := s.processedByClient.erase clientId }

def applyOp (s : SumState π) (op : WorkerOp (List Char)) : SumState π :=
  match op with
  | .data clientId payload => s.applyData cfg clientId payload
  | .close clientId => s.applyClose clientId
  | op => { s with coordinator := op.applyCoordinator cfg.coordinator s.coordinator }

/-- `apply_change`. -/
def applyChange (s : SumState π) (change : SumChange) : SumState π :=
  change.ops.foldl (applyOp cfg) s

end SumState

/-! ## The worker -/

/-- `SumWorker` in memory. The counters of the edges to the aggregators are not logged. -/
structure SumWorker (π : Type) where
  state : SumState π := {}
  aggSeqByClient : Dict Nat Nat := ∅

/-- Code that advances the counters and may raise; what it advanced stays advanced. -/
abbrev CountingM := ExceptT String (StateM (Dict Nat Nat))

/-- A call of `handle` whose `business_fn` calls the coordinator and advances the counters. -/
def SumWorker.handleWith {π : Type} (w : SumWorker π) (key : InputKey)
    (coordinator : EofCoordinator)
    (business : CountingM (SumChange × List LogicalOutput)) : Reaction (SumWorker π) SumChange :=
  let (result, seqs) := (business.run.run w.aggSeqByClient : Except _ _ × Dict Nat Nat)
  .handle key { state := { w.state with coordinator }, aggSeqByClient := seqs } result

namespace SumConfig

variable {π : Type} (cfg : SumConfig π)

/-- `_next_agg_seq`. -/
def nextAggSeq (clientId : Nat) : CountingM Nat := do
  let seqs ← get
  set (seqs.set clientId ((seqs.getD clientId 0 + 1) % 2 ^ 32))
  return seqs.getD clientId 0

/-- The output for a shard, with the next seq of the client. -/
def shardOutput (msgType : MessageType) (clientId index : Nat) (payload : Bytes) :
    CountingM LogicalOutput := do
  let seq ← nextAggSeq clientId
  let body ← liftM (createAddressedPacket msgType.toNat clientId cfg.id seq payload)
  return { destination := s!"{cfg.aggregationPrefix}_{index}", body }

/-- `_partials_outputs`. -/
def partialsOutputs (clientId : Nat) (partials : List (String × Bytes)) :
    CountingM (List LogicalOutput) :=
  partials.mapM fun (partitionKey, payload) => do
    let index ← liftM (shardForKey cfg.sha256 (encodeText partitionKey) cfg.aggregationAmount)
    cfg.shardOutput .data clientId index payload

/-- `_eof_outputs`. -/
def eofOutputs (clientId totalForwarded : Nat) : CountingM (List LogicalOutput) := do
  let payload ← liftM
      (ControlMessage.serialize { senderId := cfg.id, expectedTotal := totalForwarded })
  (List.range cfg.aggregationAmount).mapM fun index => cfg.shardOutput .eof clientId index payload

/-- `_downstream_abort_outputs`. -/
def downstreamAbortOutputs (clientId : Nat) : CountingM (List LogicalOutput) :=
  (List.range cfg.aggregationAmount).mapM fun index => cfg.shardOutput .abort clientId index []

section handlers
variable (w : SumWorker π)

/-- `_handle_data`. A payload that is no batch of transactions does not come from a filter. -/
def handleData (m : Addressed) : Reaction (SumWorker π) SumChange :=
  match TransactionSerializer.deserializeBatch m.payload with
  | .error _ => .refuse
  | .ok _ =>
    w.handleWith ⟨m.clientId, .data, m.senderId, m.seq⟩ w.state.coordinator
      (return (SumState.dataChange m.clientId m.payload, []))

/-- `_handle_upstream_eof`. -/
def handleUpstreamEof (m : Addressed) : Reaction (SumWorker π) SumChange :=
  match ControlMessage.deserialize m.payload with
  | .error _ => .refuse
  | .ok ctrl =>
    if w.state.isClosed m.clientId then .skip ⟨m.clientId, .data, m.senderId, m.seq⟩
    else
      let count := w.state.processedCount m.clientId
      let (coordinator, action) :=
        w.state.coordinator.onUpstreamEof cfg.coordinator m.clientId ctrl.expectedTotal count count
      let eofOp := WorkerOp.coordinatorUpstreamEof m.clientId ctrl.expectedTotal count count
      w.handleWith ⟨m.clientId, .data, m.senderId, m.seq⟩ coordinator do
        match action with
        | some (.broadcast queueNames message sleep) =>
          return (.single eofOp, ← liftM (actionOutputs (.broadcast queueNames message sleep)))
        | some (.flush ..) =>
          let partials ← liftM (w.state.partialsFor cfg m.clientId)
          let outputs ← cfg.partialsOutputs m.clientId partials
          let eofs ← cfg.eofOutputs m.clientId partials.length
          return (.compound [eofOp, .close m.clientId], outputs ++ eofs)
        | _ => return (.single eofOp, [])

/-- `_handle_abort`. -/
def handleAbort (m : Addressed) : Reaction (SumWorker π) SumChange :=
  if w.state.isClosed m.clientId then .skip ⟨m.clientId, .abort, m.senderId, m.seq⟩
  else
    w.handleWith ⟨m.clientId, .abort, m.senderId, m.seq⟩ w.state.coordinator
      (return (.abort m.clientId, ← cfg.downstreamAbortOutputs m.clientId))

/-- `_process_message`. -/
def processMessage (body : Bytes) : Reaction (SumWorker π) SumChange :=
  match unpackAddressedPacket body with
  | .error _ => .refuse
  | .ok m =>
    match MessageType.ofNat? m.msgType with
    | some .data => handleData w m
    | some .eof => cfg.handleUpstreamEof w m
    | some .abort => cfg.handleAbort w m
    | _ => .refuse

/-- `_handle_eof_received`. -/
def handleEofReceived (clientId : Nat) (ctrl : ControlMessage) : Reaction (SumWorker π) SumChange :=
  let count := w.state.processedCount clientId
  let (coordinator, action) :=
    w.state.coordinator.processControlMessage cfg.coordinator .eofReceived
    clientId ctrl count count
  w.handleWith ⟨clientId, .ctrlEofReceived, ctrl.senderId, clientId⟩ coordinator do
    let change := WorkerChange.single (.coordinatorMsg .eofReceived clientId ctrl count count)
    match action with
    | some (.sendAnswer queueName message) =>
      return (change, ← liftM (actionOutputs (.sendAnswer queueName message)))
    | _ => return (change, [])

/-- `_handle_processed_request`. -/
def handleProcessedRequest (clientId : Nat) (ctrl : ControlMessage) :
    Reaction (SumWorker π) SumChange :=
  let count := w.state.processedCount clientId
  .ofAction w
    (w.state.coordinator.processControlMessage cfg.coordinator .processedRequest clientId ctrl
    count count).2

/-- `_handle_flush_order`. -/
def handleFlushOrder (clientId : Nat) (ctrl : ControlMessage) : Reaction (SumWorker π) SumChange :=
  let key : InputKey := ⟨clientId, .ctrlFlushOrder, ctrl.senderId, clientId⟩
  if (w.state.coordinator.leaderExpected.get? clientId).isSome then .skip key
  else if w.state.isClosed clientId then .skip key
  else
    w.handleWith key w.state.coordinator do
      let partials ← liftM (w.state.partialsFor cfg clientId)
      let outputs ← cfg.partialsOutputs clientId partials
      let flushAck ← liftM
        (EofCoordinator.buildFlushAck cfg.coordinator clientId partials.length).toBytes
      return (.compound [.coordinatorCleanup clientId, .close clientId],
        outputs ++
          [{ destination := cfg.coordinator.responseQueueFor ctrl.senderId, body := flushAck }])

/-- `_handle_control`. -/
def handleControl (body : Bytes) : Reaction (SumWorker π) SumChange :=
  match EofCoordinator.parseMessage body with
  | .error _ => .refuse
  | .ok (msgType, clientId, ctrl) =>
    match msgType with
    | some .eofReceived => cfg.handleEofReceived w clientId ctrl
    | some .processedRequest => cfg.handleProcessedRequest w clientId ctrl
    | some .flushOrder => cfg.handleFlushOrder w clientId ctrl
    | _ => .direct w []

/-- `_handle_processed_answer`. -/
def handleProcessedAnswer (clientId : Nat) (ctrl : ControlMessage) :
    Reaction (SumWorker π) SumChange :=
  let (coordinator, action) := w.state.coordinator.processControlMessage cfg.coordinator
    .processedAnswer clientId ctrl 0 0
  .ofAction { w with state := { w.state with coordinator } } action

/-- `_handle_flush_ack`. -/
def handleFlushAck (clientId : Nat) (ctrl : ControlMessage) : Reaction (SumWorker π) SumChange :=
  let key : InputKey := ⟨clientId, .ctrlFlushAck, ctrl.senderId, clientId⟩
  if w.state.isClosed clientId then .skip key
  else
    let acks := w.state.coordinator.flushAcks.getD clientId ∅
    let already := decide (ctrl.senderId ∈ acks)
    let newAckCount := acks.card + if already then 0 else 1
    w.handleWith key w.state.coordinator do
      let ackOp := WorkerOp.coordinatorMsg .flushAck clientId ctrl 0 0
      if newAckCount < cfg.sumAmount - 1 then return (.single ackOp, [])
      else
        let ownPartials ← liftM (w.state.partialsFor cfg clientId)
        let acksFwd := w.state.coordinator.forwardedFromAcks.getD clientId 0 +
          if already then 0 else ctrl.processedCount
        let outputs ← cfg.partialsOutputs clientId ownPartials
        let eofs ← cfg.eofOutputs clientId (acksFwd + ownPartials.length)
        return (.compound [ackOp, .close clientId], outputs ++ eofs)

/-- `_handle_response`. -/
def handleResponse (body : Bytes) : Reaction (SumWorker π) SumChange :=
  match EofCoordinator.parseMessage body with
  | .error _ => .refuse
  | .ok (msgType, clientId, ctrl) =>
    match msgType with
    | some .processedAnswer => cfg.handleProcessedAnswer w clientId ctrl
    | some .flushAck => cfg.handleFlushAck w clientId ctrl
    | _ => .direct w []

end handlers

/-- The worker and its durable handler. -/
def consumer : ConsumerConfig (SumWorker π) SumChange WorkerDelivery where
  nodeId := workerNodeId "sum" cfg.id
  nodeId_noColon := workerNodeId_noColon (by decide) _
  sha256 := cfg.sha256
  fresh := {}
  applyChange w change := { w with state := w.state.applyChange cfg change }
  json := cfg.changeJson
  snapshotEvery := cfg.snapshotInterval
  tags := coordinatedTags
  react w
    | .input body => cfg.processMessage w body
    | .control body => cfg.handleControl w body
    | .response body => cfg.handleResponse w body

end SumConfig

end MoneyLaundering
