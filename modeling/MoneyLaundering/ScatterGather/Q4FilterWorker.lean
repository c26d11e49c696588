import MoneyLaundering.Eof.Rounds
import MoneyLaundering.Eof.WorkerChange
import MoneyLaundering.FaultTolerance.History
import MoneyLaundering.FaultTolerance.Unlogged
import MoneyLaundering.Lib.Base64
import MoneyLaundering.ScatterGather.Q4Filter
import MoneyLaundering.ScatterGather.Wire

/-!
# The durable worker of `q4_filter`

`Q4FilterState` with its coordinator and the message handlers of `Q4FilterWorker`
(`q4_filter/q4_filter_state.py`, `filters.py`). The replicas agree on the end of a client in the
flush-order mode of the coordinator, with replica `0` as the leader.

Upstream EOFs and `PROCESSED_ANSWER`s go through the durable handler: `business_fn` asks the
coordinator what it would do, restores it, and logs the message; the coordinator is called again
when the change is applied.
-/

namespace MoneyLaundering

open Bytes InternalProtocol

/-! ## The state -/

/-- A change of `Q4FilterState`; a `DATA` change carries its payload as base64 text. -/
abbrev Q4FilterChange := WorkerChange (List Char)

/-- `Q4FilterState`. -/
structure Q4FilterState where
  coordinator : EofCoordinator := {}
  byClient : Dict Nat Q4FilterClient := ∅
  closedByClient : Finset Nat := ∅

/-- The environment of a q4_filter worker. -/
structure Q4FilterConfig where
  deployment : Q4Config
  id : Nat
  q4FilterPrefix : String
  snapshotInterval : Nat
  sha256 : Bytes → Bytes
  changeJson : StateChangeCodec Q4FilterChange

/-- `LEADER_ID`. -/
def q4FilterLeaderId : Nat := 0

/-- `Q4_SUM_EDGE`. -/
def q4SumEdge : String := "q4_sum"

namespace Q4FilterConfig

variable (cfg : Q4FilterConfig)

def coordinator : CoordinatorConfig where
  instanceId := cfg.id
  totalInstances := cfg.deployment.filterAmount
  controlQueuePrefix := s!"{cfg.q4FilterPrefix}_control"
  responseQueuePrefix := s!"{cfg.q4FilterPrefix}_response"
  mode := .flushOrder
  leaderId := q4FilterLeaderId

/-- The edges of the transactions of a payload. -/
def edgesOf (payload : Bytes) : Except String (List Q4TransactionEdge) := do
  (← TransactionSerializer.deserializeBatch payload).mapM (edgeFromTx cfg.deployment.unicode)

end Q4FilterConfig

namespace Q4FilterState

variable (cfg : Q4FilterConfig)

/-- `data_change`. -/
def dataChange (clientId : Nat) (payload : Bytes) : Q4FilterChange :=
  .single (.data clientId (Base64.encode payload))

section reading
variable (s : Q4FilterState) (clientId : Nat)

def isClosed : Bool := decide (clientId ∈ s.closedByClient)
def client : Q4FilterClient := s.byClient.getD clientId {}
def processedCount : Nat := (s.client clientId).processed

/-- `forwarded_total`. -/
def forwardedTotal : Nat := ((s.client clientId).forwardedByPartition.entries.map Prod.snd).sum

end reading

/-- `_apply_data`. A payload that cannot be read raised in `business_fn` and is not applied. -/
def applyData (s : Q4FilterState) (clientId : Nat) (payload : List Char) : Q4FilterState :=
  if clientId ∈ s.closedByClient then s
  else
    match cfg.edgesOf ((Base64.decode payload).getD []) with
    | .error _ => s
    | .ok edges =>
      { s with
        byClient := s.byClient.set clientId
          (Q4Filter.applyData cfg.deployment (s.client clientId) edges) }

/-- `_apply_close`. -/
def applyClose (s : Q4FilterState) (clientId : Nat) : Q4FilterState :=
  { s with
    byClient := s.byClient.erase clientId
    closedByClient := insert clientId s.closedByClient }

def applyOp (s : Q4FilterState) (op : WorkerOp (List Char)) : Q4FilterState :=
  match op with
  | .data clientId payload => s.applyData cfg clientId payload
  | .close clientId => s.applyClose clientId
  | op => { s with coordinator := op.applyCoordinator cfg.coordinator s.coordinator }

/-- `apply_change`. -/
def applyChange (s : Q4FilterState) (change : Q4FilterChange) : Q4FilterState :=
  change.ops.foldl (applyOp cfg) s

end Q4FilterState

/-! ## Business functions -/

namespace Q4FilterConfig

variable (cfg : Q4FilterConfig)

/-- `_packet`, for a partition of the q4_sum stage. -/
def sumOutput (msgType : MessageType) (clientId partition : Nat) (payload : Bytes) :
    Except String LogicalOutput := do
  let body ← createPacket msgType.toNat clientId payload
  return { destination := q4SumEdge, body, shard := some partition }

/-- The packet of an output of the stage. -/
def outputPacket (clientId : Nat) (output : Output Q4CountedEdge) : Except String LogicalOutput :=
  match output.body with
  | .data batch => do
    sumOutput .data clientId output.shard (← Q4CountedEdge.serializeBatch batch)
  | .eof control => do
    sumOutput .eof clientId output.shard (← control.serialize)

/-- `_build_data_outputs`. -/
def buildDataOutputs (s : Q4FilterState) (clientId : Nat) (payload : Bytes) :
    Except String (List LogicalOutput) := do
  if s.isClosed clientId then return []
  let edges ← cfg.edgesOf payload
  (Q4Filter.buildDataOutputs cfg.deployment (s.client clientId) edges).mapM (outputPacket clientId)

/-- `_build_eof_outputs`. -/
def buildEofOutputs (s : Q4FilterState) (clientId : Nat) : Except String (List LogicalOutput) :=
  (Q4Filter.buildEofOutputs cfg.deployment cfg.id (s.client clientId)).mapM (outputPacket clientId)

/-- `bfn` of a `DATA` message. -/
def dataBusiness (clientId : Nat) (payload : Bytes) : BusinessFn Q4FilterState Q4FilterChange :=
  fun s => do
  return (Q4FilterState.dataChange clientId payload, ← cfg.buildDataOutputs s clientId payload)

/-- The change and the outputs of `_handle_abort`. -/
def abortBusiness (clientId : Nat) : BusinessFn Q4FilterState Q4FilterChange := fun _ => do
  let outputs ← (List.range cfg.deployment.sumAmount).mapM fun partition =>
    sumOutput .abort clientId partition []
  return (.abort clientId, outputs)

/-- `bfn` of `_handle_upstream_eof`: the call of the coordinator is undone. -/
def upstreamEofBusiness (clientId expectedTotal : Nat) : BusinessFn Q4FilterState Q4FilterChange :=
  fun s => do
  let count := s.processedCount clientId
  let forwarded := s.forwardedTotal clientId
  let eofOp := WorkerOp.coordinatorUpstreamEof clientId expectedTotal count forwarded
  match (s.coordinator.onUpstreamEof cfg.coordinator clientId expectedTotal count forwarded).2 with
  | some (.sendAnswer queueName message) =>
    return (.single eofOp, ← actionOutputs (.sendAnswer queueName message))
  | some (.flush ..) =>
    return (.compound [eofOp, .close clientId], ← cfg.buildEofOutputs s clientId)
  | _ => return (.single eofOp, [])

/-- `bfn` of `_handle_processed_answer`: the call of the coordinator is undone. -/
def processedAnswerBusiness (clientId : Nat) (ctrl : ControlMessage) :
    BusinessFn Q4FilterState Q4FilterChange := fun s => do
  let answerOp := WorkerOp.coordinatorMsg .processedAnswer clientId ctrl 0 0
  match (s.coordinator.processControlMessage cfg.coordinator .processedAnswer clientId
    ctrl 0 0).2 with
  | some (.broadcast queueNames message sleep) =>
    return (.single answerOp, ← actionOutputs (.broadcast queueNames message sleep))
  | _ => return (.single answerOp, [])

/-- `bfn` of `_handle_flush_order`. -/
def flushOrderBusiness (clientId : Nat) : BusinessFn Q4FilterState Q4FilterChange := fun s => do
  let eofs ← cfg.buildEofOutputs s clientId
  let body ← (EofCoordinator.buildFlushAck cfg.coordinator clientId 0).toBytes
  return (.compound [.coordinatorCleanup clientId, .close clientId],
    eofs ++ [{ destination := cfg.coordinator.responseQueueFor q4FilterLeaderId, body }])

/-- `bfn` of `_handle_flush_ack`, with what the handler reads of the coordinator before it. -/
def flushAckBusiness (clientId : Nat) (ctrl : ControlMessage) :
    BusinessFn Q4FilterState Q4FilterChange := fun s => do
  let acks := s.coordinator.flushAcks.getD clientId ∅
  let newAckCount := acks.card + if ctrl.senderId ∈ acks then 0 else 1
  let ackOp := WorkerOp.coordinatorMsg .flushAck clientId ctrl 0 0
  if cfg.deployment.filterAmount - 1 ≤ newAckCount then
    return (.compound [ackOp, .close clientId], ← cfg.buildEofOutputs s clientId)
  return (.single ackOp, [])

/-! ## The message handlers -/

/-- What a message handler does while it holds the lock. -/
inductive Reaction where
  /-- It raises: a nack. -/
  | refuse
  /-- It acks the message. -/
  | skip
  /-- It calls `handle`. -/
  | handle (key : InputKey) (businessFn : BusinessFn Q4FilterState Q4FilterChange)
  /-- It sends packets past the log, and acks. -/
  | send (sends : List (String × Bytes))

section handlers
variable (h : Handler Q4FilterState)

/-- A client that is closed acks everything but an input that is in progress. -/
def openOrApplied (key : InputKey) (reaction : Reaction) : Reaction :=
  if h.workerState.isClosed key.clientId ∧ h.inbox.classify key ≠ .applied then .skip else reaction

/-- `_handle_upstream_eof`. -/
def handleUpstreamEof (m : Addressed) : Reaction :=
  match ControlMessage.deserialize m.payload with
  | .error _ => .refuse
  | .ok ctrl =>
    openOrApplied h ⟨m.clientId, .data, m.senderId, m.seq⟩
      (.handle ⟨m.clientId, .data, m.senderId, m.seq⟩
        (cfg.upstreamEofBusiness m.clientId ctrl.expectedTotal))

/-- `_handle_abort`. -/
def handleAbort (m : Addressed) : Reaction :=
  if h.workerState.isClosed m.clientId then .skip
  else .handle ⟨m.clientId, .abort, m.senderId, m.seq⟩ (cfg.abortBusiness m.clientId)

/-- `_process_data_message`. -/
def processDataMessage (body : Bytes) : Reaction :=
  match unpackAddressedPacket body with
  | .error _ => .refuse
  | .ok m =>
    match MessageType.ofNat? m.msgType with
    | some .data =>
      .handle ⟨m.clientId, .data, m.senderId, m.seq⟩ (cfg.dataBusiness m.clientId m.payload)
    | some .eof => cfg.handleUpstreamEof h m
    | some .abort => cfg.handleAbort h m
    | _ => .refuse

/-- `_handle_flush_order`. -/
def handleFlushOrder (clientId : Nat) (ctrl : ControlMessage) : Reaction :=
  if cfg.id = q4FilterLeaderId then .skip
  else openOrApplied h ⟨clientId, .ctrlFlushOrder, ctrl.senderId, clientId⟩
    (.handle ⟨clientId, .ctrlFlushOrder, ctrl.senderId, clientId⟩ (cfg.flushOrderBusiness clientId))

/-- The direct answer to `PROCESSED_REQUEST`. -/
def handleProcessedRequest (clientId : Nat) (ctrl : ControlMessage) : Reaction :=
  match (h.workerState.coordinator.processControlMessage cfg.coordinator
    .processedRequest clientId ctrl
    (h.workerState.processedCount clientId) (h.workerState.forwardedTotal clientId)).2 with
  | some (.sendAnswer queueName message) =>
    match message.toBytes with
    | .error _ => .refuse
    | .ok body => .send [(queueName, body)]
  | _ => .skip

/-- `_handle_control`. -/
def handleControl (body : Bytes) : Reaction :=
  match EofCoordinator.parseMessage body with
  | .error _ => .refuse
  | .ok (msgType, clientId, ctrl) =>
    match msgType with
    | some .flushOrder => cfg.handleFlushOrder h clientId ctrl
    | some .processedRequest => cfg.handleProcessedRequest h clientId ctrl
    | _ => .skip

/-- The input that a `PROCESSED_ANSWER` is. -/
def answerKey (clientId senderId : Nat) : InputKey :=
  ⟨clientId, .ctrlProcessedAnswer, senderId, clientId⟩

/-- `_handle_processed_answer`. -/
def handleProcessedAnswer (clientId : Nat) (ctrl : ControlMessage) : Reaction :=
  .handle (answerKey clientId ctrl.senderId) (cfg.processedAnswerBusiness clientId ctrl)

/-- `_handle_flush_ack`. -/
def handleFlushAck (clientId : Nat) (ctrl : ControlMessage) : Reaction :=
  openOrApplied h ⟨clientId, .ctrlFlushAck, ctrl.senderId, clientId⟩
    (.handle ⟨clientId, .ctrlFlushAck, ctrl.senderId, clientId⟩
      (cfg.flushAckBusiness clientId ctrl))

/-- `_handle_response`. -/
def handleResponse (body : Bytes) : Reaction :=
  match EofCoordinator.parseMessage body with
  | .error _ => .refuse
  | .ok (msgType, clientId, ctrl) =>
    match msgType with
    | some .processedAnswer => cfg.handleProcessedAnswer clientId ctrl
    | some .flushAck => cfg.handleFlushAck h clientId ctrl
    | _ => .skip

def react : WorkerDelivery → Reaction
  | .input body => cfg.processDataMessage h body
  | .control body => cfg.handleControl h body
  | .response body => cfg.handleResponse h body

end handlers

/-! ## The durable handler -/

/-- The prefixes of the message ids. The kinds that the worker does not handle are numbered. -/
def tags : MsgIdTags where
  tag
    | .data => [['d']]
    | .abort => ["abort".toList]
    | .ctrlFlushOrder => [['f', 'o']]
    | .ctrlProcessedAnswer => [['p', 'a']]
    | .ctrlFlushAck => [['f', 'a']]
    | kind => [Text.ofNat kind.toNat]
  noColon := by intro kind; cases kind <;> decide
  prefixFree := by intro a b; cases a <;> cases b <;> decide

def outputEdges : Dict String EdgeSpec :=
  Dict.ofList [(q4SumEdge, ⟨cfg.id, cfg.deployment.sumAmount⟩)]

def handler : HandlerConfig Q4FilterState Q4FilterState Q4FilterChange where
  nodeId := workerNodeId "q4_filter" cfg.id
  nodeId_noColon := workerNodeId_noColon (by decide) _
  edges := cfg.outputEdges
  sha256 := cfg.sha256
  worker := ⟨{}, fun s => s, fun s => s, Q4FilterState.applyChange cfg, fun _ => rfl⟩
  json := cfg.changeJson
  snapshotEvery := cfg.snapshotInterval
  msgId := tags.msgId
  msgId_inj := tags.msgId_inj

end Q4FilterConfig

/-! ## Runs -/

namespace Q4FilterWorker

/-- A worker with its disk. -/
abbrev State := Node Q4FilterState Q4FilterState Q4FilterChange

/-- What can happen: a message of one of the queues is delivered, for the first time or again, or
`commit_done` follows the publication of the outputs of an input. Every step may end in a failed
append or in a crash and the recovery from it. -/
inductive Label where
  | deliver (message : WorkerDelivery) (outcome : Outcome)
  | commit (key : InputKey) (outcome : Outcome)

variable (cfg : Q4FilterConfig)

def init : State := Node.init cfg.handler

/-- The call of the durable handler that a message leads to, if any. -/
def callFor (n : State) (message : WorkerDelivery) : Option (Call Q4FilterState Q4FilterChange) :=
  match cfg.react n.handler message with
  | .handle key businessFn => some (.handle key businessFn)
  | _ => none

/-- A step with an optional call. -/
def runCall (n : State) (call : Option (Call Q4FilterState Q4FilterChange)) (outcome : Outcome) :
    Option State :=
  match call with
  | some c => (n.exec cfg.handler (outcome.event c)).toOption
  | none => if outcome.isCrash then (n.exec cfg.handler (.crashDuring .snapshotNow 0)).toOption
      else some n

/-- One step, `none` when it is not enabled. -/
def exec (n : State) : Label → Option State
  | .deliver message outcome => runCall cfg n (callFor cfg n message) outcome
  | .commit key outcome =>
    if appliedRecords n.history key = [] then none
      else runCall cfg n (some (.commitDone key)) outcome

/-- What the outputs of an instruction are on the wire. -/
def packetsOf : WorkerLoopInstruction → List (String × Bytes)
  | .ack => []
  | .publishThenCommit outputs _ _ => outputs.map fun entry => (entry.destination, entry.body)

/-- A message that is processed to its end: it is handled, its outputs are published, and the end of
the input is committed. Returns the worker it leaves and what was published. -/
def process (n : State) (message : WorkerDelivery) : State × List (String × Bytes) :=
  match cfg.react n.handler message with
  | .handle key businessFn =>
    match n.effect cfg.handler (.ok ⟨⟩) (.handle key businessFn) with
    | .error _ => (n, [])
    | .ok effect =>
      let n' := n.call cfg.handler (.ok ⟨⟩) (.handle key businessFn)
      match effect.instruction with
      | .ack => (n', [])
      | .publishThenCommit outputs msgId key =>
        (n'.call cfg.handler (.ok ⟨⟩) (.commitDone key),
          packetsOf (.publishThenCommit outputs msgId key))
  | .send sends => (n, sends)
  | _ => (n, [])

/-- One message after the other, with all that is published. -/
def processAll (n : State) : List WorkerDelivery → State × List (String × Bytes)
  | [] => (n, [])
  | message :: messages =>
    let (n', sent) := process cfg n message
    let (n'', rest) := processAll n' messages
    (n'', sent ++ rest)

end Q4FilterWorker

end MoneyLaundering
