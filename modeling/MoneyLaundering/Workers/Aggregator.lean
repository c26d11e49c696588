import MoneyLaundering.Eof.WorkerChange
import MoneyLaundering.Lib.Base64

/-!
# The aggregator worker

`AggregatorState` and the message handlers of `AggregatorWorker`
(`workers/aggregator/aggregator_state.py`, `aggregators.py`): the final reduction of every client,
emitted when the replicas have agreed that the client's input is complete. The leader is fixed, and
every replica gets its own upstream EOF.
-/

namespace MoneyLaundering

open Bytes InternalProtocol

/-- `AggregatorProcessor`, on the accumulated value of a client. -/
structure AggregatorProcessor (π : Type) where
  create : π
  accept : π → Bytes → π
  results : π → Except String (List Bytes)

/-- A change of `AggregatorState`; a `DATA` change carries its payload as base64 text. -/
abbrev AggregatorChange := WorkerChange (List Char)

/-- The environment of an aggregator. -/
structure AggregatorConfig (π : Type) where
  id : Nat
  aggregationAmount : Nat
  aggregationPrefix : String
  outputQueue : String
  snapshotInterval : Nat
  sha256 : Bytes → Bytes
  processor : AggregatorProcessor π
  changeJson : StateChangeCodec AggregatorChange

/-- `AggregatorState`. -/
structure AggregatorState (π : Type) where
  coordinator : EofCoordinator := {}
  dataCountByClient : Dict Nat Nat := ∅
  processorsByClient : Dict Nat π := ∅
  closedByClient : Finset Nat := ∅

/-- `LEADER_ID`. -/
def aggregatorLeaderId : Nat := 0

namespace AggregatorConfig

variable {π : Type} (cfg : AggregatorConfig π)

def coordinator : CoordinatorConfig where
  instanceId := cfg.id
  totalInstances := cfg.aggregationAmount
  controlQueuePrefix := s!"{cfg.aggregationPrefix}_control"
  responseQueuePrefix := s!"{cfg.aggregationPrefix}_response"
  mode := .flushOrder
  leaderId := aggregatorLeaderId

end AggregatorConfig

namespace AggregatorState

variable {π : Type} (cfg : AggregatorConfig π)

/-- `data_change`. -/
def dataChange (clientId : Nat) (payload : Bytes) : AggregatorChange :=
  .single (.data clientId (Base64.encode payload))

section reading
variable (s : AggregatorState π) (clientId : Nat)

def isClosed : Bool := decide (clientId ∈ s.closedByClient)
def dataCount : Nat := s.dataCountByClient.getD clientId 0

/-- `results_for`. -/
def resultsFor : Except String (List Bytes) :=
  match s.processorsByClient.get? clientId with
  | some processor => cfg.processor.results processor
  | none => .ok []

end reading

/-- `_apply_data`. -/
def applyData (s : AggregatorState π) (clientId : Nat) (payload : List Char) : AggregatorState π :=
  if clientId ∈ s.closedByClient then s
  else { s with
    processorsByClient := s.processorsByClient.set clientId
      (cfg.processor.accept (s.processorsByClient.getD clientId cfg.processor.create)
        ((Base64.decode payload).getD []))
    dataCountByClient := s.dataCountByClient.set clientId (s.dataCount clientId + 1) }

/-- `_apply_close`. -/
def applyClose (s : AggregatorState π) (clientId : Nat) : AggregatorState π :=
  { s with
    closedByClient := insert clientId s.closedByClient
    processorsByClient := s.processorsByClient.erase clientId
    dataCountByClient := s.dataCountByClient.erase clientId }

def applyOp (s : AggregatorState π) (op : WorkerOp (List Char)) : AggregatorState π :=
  match op with
  | .data clientId payload => s.applyData cfg clientId payload
  | .close clientId => s.applyClose clientId
  | op => { s with coordinator := op.applyCoordinator cfg.coordinator s.coordinator }

/-- `apply_change`. -/
def applyChange (s : AggregatorState π) (change : AggregatorChange) : AggregatorState π :=
  change.ops.foldl (applyOp cfg) s

end AggregatorState

/-! ## The worker -/

namespace AggregatorConfig

variable {π : Type} (cfg : AggregatorConfig π)

/-- `_build_result_outputs`: the results are numbered from `0`, and the EOF comes last. -/
def buildResultOutputs (clientId : Nat) (results : List Bytes) :
    Except String (List LogicalOutput) := do
  let datas ← results.zipIdx.mapM fun (payload, seq) =>
    createAddressedPacket MessageType.data.toNat clientId cfg.id seq payload
  let payload ← ControlMessage.serialize { senderId := cfg.id, expectedTotal := results.length }
  let eof ← createAddressedPacket MessageType.eof.toNat clientId cfg.id results.length payload
  return (datas ++ [eof]).map fun body => { destination := cfg.outputQueue, body }

section handlers
variable (s : AggregatorState π)

/-- `DATA`. -/
def handleData (m : Addressed) : Reaction (AggregatorState π) AggregatorChange :=
  .handle ⟨m.clientId, .data, m.senderId, m.seq⟩ s
    (.ok (AggregatorState.dataChange m.clientId m.payload, []))

/-- The upstream `EOF`. -/
def handleUpstreamEof (m : Addressed) : Reaction (AggregatorState π) AggregatorChange :=
  match ControlMessage.deserialize m.payload with
  | .error _ => .refuse
  | .ok ctrl =>
    if s.isClosed m.clientId then .skip ⟨m.clientId, .data, m.senderId, m.seq⟩
    else
      let count := s.dataCount m.clientId
      let (coordinator, action) :=
        s.coordinator.onUpstreamEof cfg.coordinator m.clientId ctrl.expectedTotal count 0
      let eofOp := WorkerOp.coordinatorUpstreamEof m.clientId ctrl.expectedTotal count 0
      .handle ⟨m.clientId, .data, m.senderId, m.seq⟩ { s with coordinator } do
        match action with
        | some (.sendAnswer queueName message) =>
          return (.single eofOp, ← actionOutputs (.sendAnswer queueName message))
        | some (.flush ..) =>
          let results ← s.resultsFor cfg m.clientId
          return (.compound [eofOp, .close m.clientId], ← cfg.buildResultOutputs m.clientId results)
        | _ => return (.single eofOp, [])

/-- `_handle_abort`. -/
def handleAbort (m : Addressed) : Reaction (AggregatorState π) AggregatorChange :=
  if s.isClosed m.clientId then .skip ⟨m.clientId, .abort, m.senderId, m.seq⟩
  else
    .handle ⟨m.clientId, .abort, m.senderId, m.seq⟩ s do
      let body ← createAddressedPacket MessageType.abort.toNat m.clientId cfg.id 0 []
      return (.abort m.clientId, [{ destination := cfg.outputQueue, body }])

/-- `_process_data_message`. -/
def processDataMessage (body : Bytes) : Reaction (AggregatorState π) AggregatorChange :=
  match unpackAddressedPacket body with
  | .error _ => .refuse
  | .ok m =>
    match MessageType.ofNat? m.msgType with
    | some .data => handleData s m
    | some .eof => cfg.handleUpstreamEof s m
    | some .abort => cfg.handleAbort s m
    | _ => .refuse

/-- `_handle_control`. -/
def handleControl (body : Bytes) : Reaction (AggregatorState π) AggregatorChange :=
  match EofCoordinator.parseMessage body with
  | .error _ => .refuse
  | .ok (msgType, clientId, ctrl) =>
    if msgType ≠ some .flushOrder then .direct s []
    else if cfg.id = aggregatorLeaderId then
      .skip ⟨clientId, .ctrlFlushOrder, ctrl.senderId, clientId⟩
    else if s.isClosed clientId then .skip ⟨clientId, .ctrlFlushOrder, ctrl.senderId, clientId⟩
    else
      .handle ⟨clientId, .ctrlFlushOrder, ctrl.senderId, clientId⟩ s do
        let results ← s.resultsFor cfg clientId
        let outputs ← cfg.buildResultOutputs clientId results
        let flushAck ← (EofCoordinator.buildFlushAck cfg.coordinator clientId 0).toBytes
        return (.compound [.coordinatorCleanup clientId, .close clientId],
          outputs ++ [{ destination := cfg.coordinator.responseQueueFor aggregatorLeaderId
                        body := flushAck }])

/-- `PROCESSED_ANSWER`, at the leader. -/
def handleProcessedAnswer (clientId : Nat) (ctrl : ControlMessage) :
    Reaction (AggregatorState π) AggregatorChange :=
  let (coordinator, action) :=
    s.coordinator.processControlMessage cfg.coordinator .processedAnswer clientId ctrl 0 0
  .ofAction { s with coordinator } action

/-- `FLUSH_ACK`, at the leader. -/
def handleFlushAck (clientId : Nat) (ctrl : ControlMessage) :
    Reaction (AggregatorState π) AggregatorChange :=
  if s.isClosed clientId then .skip ⟨clientId, .ctrlFlushAck, ctrl.senderId, clientId⟩
  else
    let acks := s.coordinator.flushAcks.getD clientId ∅
    let newAckCount := acks.card + if ctrl.senderId ∈ acks then 0 else 1
    let ackOp := WorkerOp.coordinatorMsg .flushAck clientId ctrl 0 0
    .handle ⟨clientId, .ctrlFlushAck, ctrl.senderId, clientId⟩ s do
      if newAckCount < cfg.aggregationAmount - 1 then return (.single ackOp, [])
      else
        let results ← s.resultsFor cfg clientId
        return (.compound [ackOp, .close clientId], ← cfg.buildResultOutputs clientId results)

/-- `_handle_response`. -/
def handleResponse (body : Bytes) : Reaction (AggregatorState π) AggregatorChange :=
  match EofCoordinator.parseMessage body with
  | .error _ => .refuse
  | .ok (msgType, clientId, ctrl) =>
    match msgType with
    | some .processedAnswer => cfg.handleProcessedAnswer s clientId ctrl
    | some .flushAck => cfg.handleFlushAck s clientId ctrl
    | _ => .direct s []

end handlers

/-- The worker and its durable handler. -/
def consumer : ConsumerConfig (AggregatorState π) AggregatorChange WorkerDelivery where
  nodeId := workerNodeId "agg" cfg.id
  nodeId_noColon := workerNodeId_noColon (by decide) _
  sha256 := cfg.sha256
  fresh := {}
  applyChange := AggregatorState.applyChange cfg
  json := cfg.changeJson
  snapshotEvery := cfg.snapshotInterval
  tags := coordinatedTags
  react s
    | .input body => cfg.processDataMessage s body
    | .control body => cfg.handleControl s body
    | .response body => cfg.handleResponse s body

end AggregatorConfig

end MoneyLaundering
