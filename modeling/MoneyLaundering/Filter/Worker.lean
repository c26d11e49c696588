import MoneyLaundering.Filter.State
import MoneyLaundering.Transaction

/-!
# The filter worker

`FilterWorker` (`workers/filter/filters.py`): how a transaction is routed under each configuration,
the business functions of its inputs, and what each message handler does while it holds the lock.

A replica consumes three queues on three threads. What a handler does under the lock is a `Section`:
coordinator calls outside the log, at most one call of the durable handler, and packets sent
directly. `FilterWorker.exec` runs one section, or one commit, to its end, to a failing append or to
a crash.
-/

namespace MoneyLaundering

open Bytes InternalProtocol

/-- `CONFIGURATION`. -/
inductive Configuration where
  | q1 | q5 | usd | date
  deriving DecidableEq, Repr

def Configuration.name : Configuration → String
  | q1 => "Q1"
  | q5 => "Q5"
  | usd => "USD"
  | date => "DATE"

theorem Configuration.name_noColon (c : Configuration) : ':' ∉ c.name.toList := by
  cases c <;> decide

/-- The environment of a filter. The payload of a `FLUSH_ACK` is the JSON text of its sender and its
counts. The last field says which packets of the data queue are EOFs: a client, a sender and a seq
name one packet of the upstream. -/
structure FilterConfig where
  id : Nat
  configuration : Configuration
  gatewayQueue : String
  filterDateQueue : String
  filterQ1Queue : String
  scatterGatherMapperQueue : String
  filterQ5UsdQueue : String
  q4FilterInputExchange : Bool
  q4FilterInputRoutingPrefix : String
  q4FilterAmount : Nat
  q3CandidatesQueue : String
  q3BarrierAmount : Nat
  sumQ3Queue : String
  sumQ3Amount : Nat
  filterAmount : Nat
  filterPrefix : String
  usdEnableQ1 : Bool
  usdEnableQ2 : Bool
  usdEnableDate : Bool
  dateEnableQ3 : Bool
  dateEnableQ4 : Bool
  filterQ1Amount : Nat
  filterQ5UsdAmount : Nat
  sumQ2Amount : Nat
  filterDateAmount : Nat
  limits : BatchLimits
  snapshotInterval : Nat
  sha256 : Bytes → Bytes
  unicode : UnicodeDigits
  changeJson : StateChangeCodec FilterChange
  flushAckJson : StateChangeCodec (Nat × Dict String Nat)
  isEof : InputKey → Bool

/-- `SUM_Q2_OUTPUT`. -/
def sumQ2Output : String := "sum_q2"

/-- `Q4_FILTER_OUTPUT`. -/
def q4FilterOutput : String := "q4_filter"

/-! ## Message ids -/

/-- The tag of a control message in its id. The filter handles three kinds of them; the others are
numbered here. -/
def controlTag : MsgKind → List Char
  | .ctrlEofReceived => ['e', 'r']
  | .ctrlFlushOrder => ['f', 'o']
  | .ctrlFlushAck => ['f', 'a']
  | kind => Text.ofNat kind.toNat

/-- The parts of the id of an input. The data thread names an EOF by sender, client and seq, and a
control message carries its client as seq; another seq does not occur there and is spelled out. -/
def filterMsgIdParts (isEof : InputKey → Bool) (key : InputKey) : List (List Char) :=
  match key.kind with
  | .data =>
    if isEof key then
      [['d'], Text.ofNat key.senderId, Text.ofNat key.clientId, Text.ofNat key.seq]
    else [Text.ofNat key.senderId, Text.ofNat key.seq]
  | .abort =>
    ["abort".toList, Text.ofNat key.senderId, Text.ofNat key.clientId, Text.ofNat key.seq]
  | kind =>
    if key.seq = key.clientId then
      [controlTag kind, Text.ofNat key.clientId, Text.ofNat key.senderId]
    else
      [controlTag kind, Text.ofNat key.clientId, Text.ofNat key.senderId, Text.ofNat key.seq, []]

def filterMsgId (isEof : InputKey → Bool) (key : InputKey) : String :=
  String.ofList (Text.join ':' (filterMsgIdParts isEof key))

theorem controlTag_injective : Function.Injective controlTag := by
  intro a b h
  cases a <;> cases b <;> first | rfl | (revert h; decide)

theorem filterMsgIdParts_spec (isEof : InputKey → Bool) (key : InputKey) :
    filterMsgIdParts isEof key ≠ [] ∧ ∀ part ∈ filterMsgIdParts isEof key, ':' ∉ part := by
  have hn : ∀ n, ':' ∉ Text.ofNat n := Text.not_mem_ofNat (by decide)
  have ht : ∀ kind, ':' ∉ controlTag kind := by intro kind; cases kind <;> decide
  unfold filterMsgIdParts
  split
  · split <;> simp [hn]
  · simp [hn]
  · split <;> simp [hn, ht]

theorem filterMsgIdParts_inj {isEof : InputKey → Bool} {a b : InputKey}
    (hc : a.clientId = b.clientId) (h : filterMsgIdParts isEof a = filterMsgIdParts isEof b) :
    a = b := by
  have hinj : ∀ m n, Text.ofNat m = Text.ofNat n ↔ m = n := fun _ _ => Text.ofNat_injective.eq_iff
  obtain ⟨ac, ak, as, aq⟩ := a
  obtain ⟨bc, bk, bs, bq⟩ := b
  simp only at hc
  subst hc
  -- the number of parts and the first one tell the kinds apart
  unfold filterMsgIdParts at h
  split at h <;> split at h <;> (try split at h) <;> (try split at h) <;>
    simp_all [controlTag_injective.eq_iff]

theorem filterMsgId_inj (isEof : InputKey → Bool) (a b : InputKey) (hc : a.clientId = b.clientId)
    (h : filterMsgId isEof a = filterMsgId isEof b) : a = b := by
  have heq : filterMsgIdParts isEof a = filterMsgIdParts isEof b :=
    Text.join_inj (filterMsgIdParts_spec isEof a) (filterMsgIdParts_spec isEof b)
      (String.ofList_injective h)
  exact filterMsgIdParts_inj hc heq

namespace FilterConfig

variable (cfg : FilterConfig)

/-! ## Names -/

/-- `f"filter_{CONFIGURATION}_{ID}"`. -/
def nodeId : String :=
  String.ofList ("filter_".toList ++ cfg.configuration.name.toList ++ '_' :: Text.ofNat cfg.id)

theorem nodeId_noColon : ':' ∉ cfg.nodeId.toList := by
  have hf : ':' ∉ "filter_".toList := by decide
  have hc := cfg.configuration.name_noColon
  have hn : ':' ∉ Text.ofNat cfg.id := Text.not_mem_ofNat (by decide) _
  unfold nodeId
  generalize cfg.configuration.name = name at hc ⊢
  rw [String.toList_ofList]
  simp only [List.mem_append, List.mem_cons, not_or]
  exact ⟨⟨hf, hc⟩, by decide, hn⟩

def coordinator : CoordinatorConfig where
  instanceId := cfg.id
  totalInstances := cfg.filterAmount
  controlQueuePrefix := s!"{cfg.filterPrefix}_{cfg.configuration.name}_control"
  responseQueuePrefix := s!"{cfg.filterPrefix}_{cfg.configuration.name}_response"

def state : FilterStateConfig where
  coordinator := cfg.coordinator
  limits := cfg.limits

/-- `_q4_filter_routing_key`. -/
def q4FilterRoutingKey (partition : Nat) : String :=
  queueNameForWorker cfg.q4FilterInputRoutingPrefix partition

/-- `_q4_filter_output_names`. -/
def q4FilterOutputNames : List String :=
  if cfg.q4FilterInputExchange then (List.range cfg.q4FilterAmount).map cfg.q4FilterRoutingKey
  else [cfg.scatterGatherMapperQueue]

/-- `_build_output_edges`. -/
def outputEdges : Dict String EdgeSpec :=
  .ofList <| match cfg.configuration with
    | .q1 => []
    | .q5 => [(cfg.filterQ5UsdQueue, ⟨cfg.id, cfg.filterQ5UsdAmount⟩)]
    | .usd =>
      (if cfg.usdEnableQ1 then [(cfg.filterQ1Queue, ⟨cfg.id, cfg.filterQ1Amount⟩)] else []) ++
      (if cfg.usdEnableQ2 then [(sumQ2Output, ⟨cfg.id, cfg.sumQ2Amount⟩)] else []) ++
      (if cfg.usdEnableDate then [(cfg.filterDateQueue, ⟨cfg.id, cfg.filterDateAmount⟩)] else [])
    | .date =>
      (if cfg.dateEnableQ3 then
        [(cfg.sumQ3Queue, ⟨cfg.id, cfg.sumQ3Amount⟩),
         (cfg.q3CandidatesQueue, ⟨cfg.id, cfg.q3BarrierAmount⟩)] else []) ++
      (if cfg.dateEnableQ4 then cfg.q4FilterOutputNames.map fun name => (name, ⟨cfg.id, 1⟩) else [])

/-- `_addressed_outputs`. -/
def addressedOutputs : List String :=
  [sumQ2Output, cfg.sumQ3Queue, cfg.filterQ5UsdQueue, cfg.filterQ1Queue, cfg.filterDateQueue] ++
  (if cfg.configuration = .date ∧ cfg.dateEnableQ4 then cfg.q4FilterOutputNames else []) ++
  (if cfg.configuration = .date ∧ cfg.dateEnableQ3 then [cfg.q3CandidatesQueue] else [])

/-- The handler of the worker. -/
def handler : HandlerConfig FilterState FilterState FilterChange where
  nodeId := cfg.nodeId
  nodeId_noColon := cfg.nodeId_noColon
  edges := cfg.outputEdges
  sha256 := cfg.sha256
  worker := FilterState.worker cfg.state
  json := cfg.changeJson
  snapshotEvery := cfg.snapshotInterval
  msgId := filterMsgId cfg.isEof
  msgId_inj := filterMsgId_inj cfg.isEof

/-- The worker state up to what the coordinator keeps in memory only. -/
def view : View cfg.handler.worker FilterState := FilterState.view cfg.state

/-! ## Routing -/

/-- `_filter_transaction`, with no dates given. -/
def filterTransaction (tx : Transaction) : Bool :=
  match cfg.configuration with
  | .q1 => tx.ltFifty
  | .q5 => tx.format == "Wire" || tx.format == "ACH"
  | .usd => tx.currency == "US Dollar"
  | .date => true

/-- `_filter_transaction_by_raw_timestamp`: text is compared by code points. -/
def filterTransactionByRawTimestamp (tx : Transaction) (startTimestamp endTimestamp : String) :
    Bool :=
  let timestamp := String.ofList (Text.strip tx.date.toList)
  decide (startTimestamp ≤ timestamp) && decide (timestamp ≤ endTimestamp)

/-- `_q4_filter_output_for_transaction`. -/
def q4FilterOutputForTransaction (tx : Transaction) : Except String String :=
  if cfg.q4FilterInputExchange then do
    let bank ← notebookBankId cfg.unicode tx.fromBank
    let partition ← partitionForParts cfg.sha256
      [bank, String.ofList (Text.strip tx.fromAccount.toList)] cfg.q4FilterAmount
    return cfg.q4FilterRoutingKey partition
  else .ok cfg.scatterGatherMapperQueue

/-- The logical output that all destinations of q4 roll up to. -/
def q4LogicalOutput : String :=
  if cfg.q4FilterInputExchange then q4FilterOutput else cfg.scatterGatherMapperQueue

/-- `_route_transaction`: pairs of a destination and a logical output. -/
def routeTransaction (tx : Transaction) : Except String (List (String × String)) :=
  match cfg.configuration with
  | .q1 => .ok (if cfg.filterTransaction tx then [(cfg.gatewayQueue, cfg.gatewayQueue)] else [])
  | .q5 =>
    .ok (if cfg.filterTransaction tx then [(cfg.filterQ5UsdQueue, cfg.filterQ5UsdQueue)] else [])
  | .usd =>
    .ok (if cfg.filterTransaction tx then
      (if cfg.usdEnableQ1 then [(cfg.filterQ1Queue, cfg.filterQ1Queue)] else []) ++
      (if cfg.usdEnableQ2 then [(sumQ2Output, sumQ2Output)] else []) ++
      (if cfg.usdEnableDate then [(cfg.filterDateQueue, cfg.filterDateQueue)] else [])
    else [])
  | .date => do
    let q4 ←
      if cfg.dateEnableQ4 && filterTransactionByRawTimestamp tx "2022/09/01" "2022/09/06" then do
        let dest ← cfg.q4FilterOutputForTransaction tx
        pure [(dest, cfg.q4LogicalOutput)]
      else pure []
    return (if cfg.dateEnableQ3 && filterTransactionByRawTimestamp tx "2022/09/01" "2022/09/06" then
        [(cfg.sumQ3Queue, cfg.sumQ3Queue)] else []) ++
      (if cfg.dateEnableQ3 && filterTransactionByRawTimestamp tx "2022/09/06" "2022/09/15" then
        [(cfg.q3CandidatesQueue, cfg.q3CandidatesQueue)] else []) ++ q4

/-- `appends_by_dest` and `forwarded_by_output` of a batch. -/
abbrev Routes := Dict String (List Bytes) × Dict String Nat

/-- The inner loop over the routes of one transaction. -/
def addRoutes (acc : Routes) (serialized : Bytes) (routes : List (String × String)) : Routes :=
  routes.foldl (fun acc route =>
    (acc.1.set route.1 (acc.1.getD route.1 [] ++ [serialized]),
     acc.2.set route.2 (acc.2.getD route.2 0 + 1))) acc

/-- The loop of `_data_process_payload` over the transactions. -/
def routeBatch : Routes → List Transaction → Except String Routes
  | acc, [] => .ok acc
  | acc, tx :: txs => do
    match ← cfg.routeTransaction tx with
    | [] => routeBatch acc txs
    | routes =>
      let serialized ← TransactionSerializer.serialize tx
      routeBatch (addRoutes acc serialized routes) txs

/-! ## Outputs -/

/-- `_output_shard`. -/
def outputShard (outputName : String) (clientId : Nat) : Except String (Option Nat) :=
  match cfg.outputEdges.get? outputName with
  | none => .ok none
  | some spec => do return some (← shardForClientId clientId spec.shardCount)

/-- `_output_packet`. A q4 output is always an edge, so the branch that addresses it by hand is
never taken; `sumSeq` is what `_next_sum_seq` returns on a legacy edge. -/
def outputPacket (outputName : String) (msgType : MessageType) (clientId sumSeq : Nat)
    (payload : Bytes) : Except String Bytes :=
  if (cfg.outputEdges.get? outputName).isSome then createPacket msgType.toNat clientId payload
  else if outputName ∈ cfg.addressedOutputs then
    createAddressedPacket msgType.toNat clientId cfg.id sumSeq payload
  else createPacket msgType.toNat clientId payload

/-- A packet that still has to be addressed: its destination, type and payload. -/
structure Packet where
  destination : String
  msgType : MessageType
  payload : Bytes
  deriving DecidableEq

/-- `_logical_output` of `_output_packet` for one packet after the other. The counters of the legacy
edges live in memory only, so they start from anything. -/
def logicalOutputs (clientId : Nat) :
    (String → Nat) → List Packet → Except String (List LogicalOutput)
  | _, [] => .ok []
  | sumSeq, p :: packets => do
    let body ← cfg.outputPacket p.destination p.msgType clientId (sumSeq p.destination) p.payload
    let shard ← cfg.outputShard p.destination clientId
    let rest ← logicalOutputs clientId (fun name =>
      if name = p.destination then (sumSeq name + 1) % 2 ^ 32 else sumSeq name) packets
    return { destination := p.destination, body, shard } :: rest

/-- The packets of `_drain_outputs`. -/
def drainPackets (s : FilterState) (clientId : Nat) : List Packet :=
  (s.planDrain clientId).map fun e => ⟨e.1, .data, e.2⟩

/-- The destinations that get an EOF, each with the logical output whose total it carries. -/
def eofTargets : List (String × String) :=
  match cfg.configuration with
  | .q1 => [(cfg.gatewayQueue, cfg.gatewayQueue)]
  | .q5 => [(cfg.filterQ5UsdQueue, cfg.filterQ5UsdQueue)]
  | .usd =>
    (if cfg.usdEnableQ1 then [(cfg.filterQ1Queue, cfg.filterQ1Queue)] else []) ++
    (if cfg.usdEnableQ2 then [(sumQ2Output, sumQ2Output)] else []) ++
    (if cfg.usdEnableDate then [(cfg.filterDateQueue, cfg.filterDateQueue)] else [])
  | .date =>
    (if cfg.dateEnableQ3 then
      [(cfg.sumQ3Queue, cfg.sumQ3Queue), (cfg.q3CandidatesQueue, cfg.q3CandidatesQueue)] else []) ++
    (if cfg.dateEnableQ4 then
      cfg.q4FilterOutputNames.map fun dest => (dest, cfg.q4LogicalOutput) else [])

/-- The packets of `_eof_outputs`. -/
def eofPackets (countsByOutput : Dict String Nat) : Except String (List Packet) :=
  cfg.eofTargets.mapM fun target => do
    let payload ← ControlMessage.serialize
      { senderId := cfg.id, expectedTotal := countsByOutput.getD target.2 0 }
    return ⟨target.1, .eof, payload⟩

/-! ## Business functions -/

section business
variable (sumSeq : String → Nat) (clientId : Nat)

/-- `_data_process_payload`. -/
def dataProcessPayload (payload : Bytes) : BusinessFn FilterState FilterChange := fun s =>
  if s.isClosed clientId then .ok (FilterState.dataChange clientId 0 ∅ ∅, [])
  else do
    match ← TransactionSerializer.deserializeBatch payload with
    | [] => return (FilterState.dataChange clientId 0 ∅ ∅, [])
    | transactions =>
      let (appendsByDest, forwardedByOutput) ← cfg.routeBatch (∅, ∅) transactions
      let outputs ← cfg.logicalOutputs clientId sumSeq <|
        (s.planData cfg.state clientId appendsByDest).flatMap fun e => e.2.map (⟨e.1, .data, ·⟩)
      return (FilterState.dataChange clientId transactions.length appendsByDest forwardedByOutput,
        outputs)

/-- The drained batches, then one EOF for each downstream output. -/
def drainAndEof (s : FilterState) (countsByOutput : Dict String Nat) :
    Except String (List LogicalOutput) := do
  let eofs ← cfg.eofPackets countsByOutput
  cfg.logicalOutputs clientId sumSeq (drainPackets s clientId ++ eofs)

/-- `bfn` of `_handle_upstream_eof`. -/
def upstreamEofFn (expectedTotal : Nat) : BusinessFn FilterState FilterChange := fun s =>
  let eofOp := FilterOp.coordinatorUpstreamEof clientId expectedTotal (s.processedCount clientId)
    (s.processedCount clientId)
  if 1 < cfg.filterAmount then do
    let msg ← ControlPacket.toBytes
      { msgType := .eofReceived, clientId, ctrl := { senderId := cfg.id, expectedTotal } }
    return (.single eofOp, (List.range cfg.filterAmount).map fun i =>
      { destination := cfg.coordinator.controlQueueFor i, body := msg })
  else do
    let outputs ← cfg.drainAndEof sumSeq clientId s (s.forwardedByOutput clientId)
    return (.compound [eofOp, .close clientId], outputs)

/-- `bfn` of `_handle_flush_order`. -/
def flushOrderFn (leaderId : Nat) : BusinessFn FilterState FilterChange := fun s => do
  let drain ← cfg.logicalOutputs clientId sumSeq (drainPackets s clientId)
  let ackPayload ← cfg.flushAckJson.dumps (cfg.id, s.forwardedByOutput clientId)
  let flushAck ← createPacket MessageType.flushAck.toNat clientId ackPayload
  return (.compound [.coordinatorCleanup clientId false, .close clientId],
    drain ++ [{ destination := cfg.coordinator.responseQueueFor leaderId, body := flushAck }])

/-- `bfn` of `_handle_flush_ack`. -/
def flushAckFn (senderId : Nat) (counts : Dict String Nat) : BusinessFn FilterState FilterChange :=
  fun s =>
    if s.flushedAckCount clientId + 1 < cfg.filterAmount - 1 then
      .ok (.single (.flushAck clientId senderId counts), [])
    else do
      let total := addCounts (addCounts (s.allForwardedByOutput clientId) counts)
        (s.forwardedByOutput clientId)
      let outputs ← cfg.drainAndEof sumSeq clientId s total
      return (.compound [.flushAck clientId senderId counts, .coordinatorCleanup clientId true,
        .close clientId], outputs)

/-- What `bfn` of `_handle_eof_received` returns, given the answer of the coordinator. -/
def eofReceivedResult (ctrl : ControlMessage) (count forwarded : Nat)
    (action : Option CoordinatorAction) : Except String (FilterChange × List LogicalOutput) := do
  let change := FilterChange.single (.coordinatorMsg .eofReceived clientId ctrl count forwarded)
  match action with
  | some (.sendAnswer queueName message) =>
    return (change, [{ destination := queueName, body := ← message.toBytes }])
  | _ => return (change, [])

end business

/-- `_abort_fn`. -/
def abortFn (clientId : Nat) : BusinessFn FilterState FilterChange := fun _ => do
  let packet ← createPacket MessageType.abort.toNat clientId []
  return (.compound [.coordinatorCleanup clientId false, .close clientId],
    cfg.outputEdges.entries.flatMap fun e => (List.range e.2.shardCount).map fun shard =>
      { destination := e.1, body := packet, shard := some shard })

/-! ## Sections under the lock -/

/-- A message on one of the queues of a replica. -/
inductive Delivery where
  | input (body : Bytes)
  | control (body : Bytes)
  | response (body : Bytes)
  deriving DecidableEq

/-- What a message handler does under the lock: coordinator calls outside the log, then a call of
the durable handler; and the packets it sends directly after the lock is released. -/
structure Section where
  mutate : EofCoordinator → EofCoordinator := fun s => s
  call : Option (Call FilterState FilterChange) := none
  sends : List (String × Bytes) := []

/-- The packets of an action that bypasses the outbox. -/
def sendsOf : Option CoordinatorAction → List (String × Bytes)
  | some (.sendAnswer queueName message) =>
    match message.toBytes with
    | .ok bytes => [(queueName, bytes)]
    | .error _ => []
  | some (.broadcast queueNames message _) =>
    match message.toBytes with
    | .ok bytes => queueNames.map (·, bytes)
    | .error _ => []
  | _ => []

section sections
variable (h : Handler FilterState) (sumSeq : String → Nat)

/-- A closed client that the input did not close: nothing to do. -/
def ignored (key : InputKey) : Bool :=
  h.workerState.isClosed key.clientId && h.inbox.classify key != .applied

/-- `_handle_upstream_eof`. -/
def handleUpstreamEof (body : Bytes) : Section :=
  match unpackAddressedPacket body with
  | .error _ => {}
  | .ok m =>
    match ControlMessage.deserialize m.payload with
    | .error _ => {}
    | .ok ctrl =>
      if ignored h ⟨m.clientId, .data, m.senderId, m.seq⟩ then {}
      else { call := some (.handle ⟨m.clientId, .data, m.senderId, m.seq⟩
        (cfg.upstreamEofFn sumSeq m.clientId ctrl.expectedTotal)) }

/-- `WorkerRunner.process`. -/
def process (body : Bytes) : Section :=
  match unpackAddressedPacket body with
  | .error _ => {}
  | .ok m =>
    if m.msgType = MessageType.abort.toNat then
      { call := some (.handle ⟨m.clientId, .abort, m.senderId, m.seq⟩ (cfg.abortFn m.clientId)) }
    else { call := some (.handle ⟨m.clientId, .data, m.senderId, m.seq⟩
      (cfg.dataProcessPayload sumSeq m.clientId m.payload)) }

/-- `_on_input_message`. -/
def onInputMessage (body : Bytes) : Section :=
  match body.head?.map UInt8.toNat with
  | some 0 => cfg.process sumSeq body
  | some 1 => cfg.handleUpstreamEof h sumSeq body
  | some 8 => cfg.process sumSeq body
  | _ => {}

/-- `_handle_eof_received`: `bfn` runs, and calls the coordinator, only for a new message. -/
def handleEofReceived (clientId : Nat) (ctrl : ControlMessage) : Section :=
  let key : InputKey := ⟨clientId, .ctrlEofReceived, ctrl.senderId, clientId⟩
  let count := h.workerState.processedCount clientId
  let forwarded := ((h.workerState.forwardedByOutput clientId).entries.map Prod.snd).sum
  let step (s : EofCoordinator) :=
    s.processControlMessage cfg.coordinator .eofReceived clientId ctrl
    count forwarded
  { mutate := fun s => if h.inbox.classify key = .new then (step s).1 else s
    call := some (.handle key fun _ =>
      eofReceivedResult clientId ctrl count forwarded (step h.workerState.coordinator).2) }

/-- `_handle_flush_order`. -/
def handleFlushOrder (clientId : Nat) (ctrl : ControlMessage) : Section :=
  if ignored h ⟨clientId, .ctrlFlushOrder, ctrl.senderId, clientId⟩ then {}
  else if (h.workerState.coordinator.leaderExpected.get? clientId).isSome then {}
  else { call := some (.handle ⟨clientId, .ctrlFlushOrder, ctrl.senderId, clientId⟩
    (cfg.flushOrderFn sumSeq clientId ctrl.senderId)) }

/-- The direct answer to `PROCESSED_REQUEST`. -/
def handleProcessedRequest (clientId : Nat) (ctrl : ControlMessage) : Section :=
  { sends := sendsOf (h.workerState.coordinator.processControlMessage cfg.coordinator
      .processedRequest clientId ctrl (h.workerState.processedCount clientId)
      ((h.workerState.forwardedByOutput clientId).entries.map Prod.snd).sum).2 }

/-- `_handle_control`. -/
def handleControl (body : Bytes) : Section :=
  match unpackPacket body with
  | .error _ => {}
  | .ok (msgType, clientId, payload) =>
    match ControlMessage.deserialize payload with
    | .error _ => {}
    | .ok ctrl =>
      match MessageType.ofNat? msgType with
      | some .flushOrder => cfg.handleFlushOrder h sumSeq clientId ctrl
      | some .eofReceived => cfg.handleEofReceived h clientId ctrl
      | some .processedRequest => cfg.handleProcessedRequest h clientId ctrl
      | _ => {}

/-- `_handle_flush_ack`. -/
def handleFlushAck (clientId : Nat) (payload : Bytes) : Section :=
  match cfg.flushAckJson.loads payload with
  | .error _ => {}
  | .ok (senderId, counts) =>
    if ignored h ⟨clientId, .ctrlFlushAck, senderId, clientId⟩ then {}
    else if h.inbox.classify ⟨clientId, .ctrlFlushAck, senderId, clientId⟩ ≠ .applied ∧
        (h.workerState.coordinator.leaderExpected.get? clientId).isNone then {}
    else { call := some (.handle ⟨clientId, .ctrlFlushAck, senderId, clientId⟩
      (cfg.flushAckFn sumSeq clientId senderId counts)) }

/-- `_handle_response`. Whatever is not an ack goes to the coordinator directly. -/
def handleResponse (body : Bytes) : Section :=
  match unpackPacket body with
  | .error _ => {}
  | .ok (msgType, clientId, payload) =>
    match MessageType.ofNat? msgType with
    | none => {}
    | some .flushAck => cfg.handleFlushAck h sumSeq clientId payload
    | some msgType =>
      match ControlMessage.deserialize payload with
      | .error _ => {}
      | .ok ctrl =>
        { mutate := fun s =>
            (s.processControlMessage cfg.coordinator msgType clientId ctrl 0 0).1
          sends := match (h.workerState.coordinator.processControlMessage cfg.coordinator msgType
              clientId ctrl 0 0).2 with
            | some (.broadcast queueNames message sleep) =>
              sendsOf (some (.broadcast queueNames message sleep))
            | _ => [] }

def onDelivery : Delivery → Section
  | .input body => cfg.onInputMessage h sumSeq body
  | .control body => cfg.handleControl h sumSeq body
  | .response body => cfg.handleResponse h sumSeq body

end sections

end FilterConfig

/-! ## Runs of one replica -/

/-- A replica: its durable node, and the batches it routed so far, each with its client. -/
structure FilterWorker where
  node : Node FilterState FilterState FilterChange
  routed : List (Nat × List Transaction) := []

/-- A locked section: a delivered message, with the counters of the legacy edges, or the commit of
an input. -/
inductive FilterAct where
  | deliver (delivery : FilterConfig.Delivery) (sumSeq : String → Nat)
  | commitDone (key : InputKey)

namespace FilterWorker

variable (cfg : FilterConfig)

def init : FilterWorker where
  node := Node.init cfg.handler

/-- The worker state in memory. -/
def state (w : FilterWorker) : FilterState := w.node.handler.workerState

def sectionOf (w : FilterWorker) : FilterAct → FilterConfig.Section
  | .deliver delivery sumSeq => cfg.onDelivery w.node.handler sumSeq delivery
  | .commitDone key => { call := some (.commitDone key) }

/-- The node on which the call of a section is made: the coordinator was called directly before. -/
def prepared (w : FilterWorker) (act : FilterAct) : Node FilterState FilterState FilterChange :=
  w.node.mutate fun s => { s with coordinator := (w.sectionOf cfg act).mutate s.coordinator }

/-- The batch that a section hands to the routing loop: that of a DATA packet of an open client. -/
def batchOf (s : FilterState) : FilterAct → List (Nat × List Transaction)
  | .deliver (.input body) _ =>
    match unpackAddressedPacket body with
    | .error _ => []
    | .ok m =>
      if m.msgType = MessageType.data.toNat ∧ s.isClosed m.clientId = false then
        match TransactionSerializer.deserializeBatch m.payload with
        | .ok transactions => [(m.clientId, transactions)]
        | .error _ => []
      else []
  | _ => []

/-- The node after a section with an optional call. -/
def runSection (n : Node FilterState FilterState FilterChange)
    (call : Option (Call FilterState FilterChange)) :
    Outcome → Except String (Node FilterState FilterState FilterChange)
  | .returns => .ok (match call with
    | some c => n.call cfg.handler (.ok ⟨⟩) c
    | none => n)
  | .appendFails => .ok (match call with
    | some c => n.call cfg.handler (.error "write failed") c
    | none => n)
  | .crashes steps =>
    match call with
    | some c => n.crashDuring cfg.handler c steps
    | none => n.crashDuring cfg.handler .snapshotNow 0

/-- One section. A batch counts as routed once its input is recorded. -/
def exec (w : FilterWorker) (act : FilterAct) (outcome : Outcome) : Option FilterWorker :=
  match runSection cfg (w.prepared cfg act) (w.sectionOf cfg act).call outcome with
  | .error _ => none
  | .ok node => some {
      node
      routed :=
        if w.node.history.length < node.history.length then
          w.routed ++ batchOf w.state act
        else w.routed }

end FilterWorker

end MoneyLaundering
