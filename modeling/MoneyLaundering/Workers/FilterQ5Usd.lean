import MoneyLaundering.Eof.WorkerChange
import MoneyLaundering.Transaction

/-!
# The filter of cheap wires

`FilterQ5UsdState` and the message handlers of `FilterQ5UsdWorker` (`workers/filter_q5_usd/`): of
the transactions of a client, those in the date range that are worth less than one dollar go to the
aggregator of the client, one packet each.

Amounts are the bits of doubles. The rates come from the rates service, and products of doubles are
a parameter.
-/

namespace MoneyLaundering

open Bytes InternalProtocol

/-- `CURRENCY_NAME_TO_ISO`. -/
def currencyNameToIso : List (String × String) :=
  [("US Dollar", "USD"), ("Euro", "EUR"), ("UK Pound", "GBP"), ("Yen", "JPY"),
   ("Swiss Franc", "CHF"), ("Canadian Dollar", "CAD"), ("Australian Dollar", "AUD"),
   ("Mexican Peso", "MXN"), ("Brazil Real", "BRL"), ("Yuan", "CNY"), ("Rupee", "INR"),
   ("Ruble", "RUB"), ("Saudi Riyal", "SAR"), ("Shekel", "ILS"), ("Swedish Krona", "SEK"),
   ("New Zealand Dollar", "NZD"), ("Singapore Dollar", "SGD"), ("Hong Kong Dollar", "HKD"),
   ("Norwegian Krone", "NOK"), ("South Korean Won", "KRW"), ("Turkish Lira", "TRY"),
   ("South African Rand", "ZAR"), ("Thai Baht", "THB"), ("Polish Zloty", "PLN"),
   ("Czech Koruna", "CZK"), ("Philippine Peso", "PHP"), ("Indonesian Rupiah", "IDR"),
   ("Malaysian Ringgit", "MYR"), ("Hungarian Forint", "HUF"), ("Icelandic Krona", "ISK"),
   ("Croatian Kuna", "HRK"), ("Romanian Leu", "RON"), ("Danish Krone", "DKK"),
   ("Bulgarian Lev", "BGN"), ("Bitcoin", "BTC")]

/-- What a `DATA` change carries. -/
structure Q5DataChange where
  processedCount : Nat
  forwardedCount : Nat
  seqAdvance : Nat := 0
  deriving DecidableEq

/-- A change of `FilterQ5UsdState`. -/
abbrev FilterQ5UsdChange := WorkerChange Q5DataChange

/-- The environment of a worker, with the loaded rates. -/
structure FilterQ5UsdConfig where
  id : Nat
  filterQ5UsdAmount : Nat
  filterQ5UsdPrefix : String
  aggregationAmount : Nat
  aggregationPrefix : String
  startDate : String := "2022-09-01"
  endDate : String := "2022-09-05"
  snapshotInterval : Nat
  sha256 : Bytes → Bytes
  /-- `rates_manager.get_rate` on a date and a currency; `none` when it raises `ValueError`. -/
  getRate : String → String → Option UInt64
  /-- The product of two doubles. -/
  mul : UInt64 → UInt64 → UInt64
  changeJson : StateChangeCodec FilterQ5UsdChange

/-- `FilterQ5UsdState`. -/
structure FilterQ5UsdState where
  coordinator : EofCoordinator := {}
  processedByClient : Dict Nat Nat := ∅
  forwardedByClient : Dict Nat Nat := ∅
  aggSeqByClient : Dict Nat Nat := ∅
  closedByClient : Finset Nat := ∅

namespace FilterQ5UsdConfig

variable (cfg : FilterQ5UsdConfig)

def coordinator : CoordinatorConfig where
  instanceId := cfg.id
  totalInstances := cfg.filterQ5UsdAmount
  controlQueuePrefix := s!"{cfg.filterQ5UsdPrefix}_control"
  responseQueuePrefix := s!"{cfg.filterQ5UsdPrefix}_response"

end FilterQ5UsdConfig

namespace FilterQ5UsdState

section reading
variable (s : FilterQ5UsdState) (clientId : Nat)

def isClosed : Bool := decide (clientId ∈ s.closedByClient)
def processedCount : Nat := s.processedByClient.getD clientId 0
def forwardedCount : Nat := s.forwardedByClient.getD clientId 0

/-- `agg_seq`. -/
def aggSeq : Nat := s.aggSeqByClient.getD clientId 0

end reading

/-- `_apply_data`. -/
def applyData (s : FilterQ5UsdState) (clientId : Nat) (change : Q5DataChange) : FilterQ5UsdState :=
  if clientId ∈ s.closedByClient then s
  else { s with
    processedByClient := s.processedByClient.set clientId
      (s.processedCount clientId + change.processedCount)
    forwardedByClient :=
      if change.forwardedCount = 0 then s.forwardedByClient
      else s.forwardedByClient.set clientId (s.forwardedCount clientId + change.forwardedCount)
    aggSeqByClient :=
      if change.seqAdvance = 0 then s.aggSeqByClient
      else s.aggSeqByClient.set clientId ((s.aggSeq clientId + change.seqAdvance) % 2 ^ 32) }

/-- `_apply_close`. -/
def applyClose (s : FilterQ5UsdState) (clientId : Nat) : FilterQ5UsdState :=
  { s with
    closedByClient := insert clientId s.closedByClient
    processedByClient := s.processedByClient.erase clientId
    forwardedByClient := s.forwardedByClient.erase clientId
    aggSeqByClient := s.aggSeqByClient.erase clientId }

def applyOp (cfg : FilterQ5UsdConfig) (s : FilterQ5UsdState) (op : WorkerOp Q5DataChange) :
    FilterQ5UsdState :=
  match op with
  | .data clientId change => s.applyData clientId change
  | .close clientId => s.applyClose clientId
  | op => { s with coordinator := op.applyCoordinator cfg.coordinator s.coordinator }

/-- `apply_change`. -/
def applyChange (cfg : FilterQ5UsdConfig) (s : FilterQ5UsdState) (change : FilterQ5UsdChange) :
    FilterQ5UsdState :=
  change.ops.foldl (applyOp cfg) s

end FilterQ5UsdState

/-! ## The transactions that are forwarded -/

namespace FilterQ5UsdConfig

variable (cfg : FilterQ5UsdConfig)

/-- `date[:10].replace("/", "-")`. -/
def normalizedDate (date : String) : String :=
  String.ofList ((date.toList.take 10).map fun ch => if ch = '/' then '-' else ch)

/-- `_in_date_range`: text is compared by code points. -/
def inDateRange (date : String) : Bool :=
  decide (cfg.startDate ≤ normalizedDate date) && decide (normalizedDate date ≤ cfg.endDate)

/-- `_convert_to_usd`, `none` when it raises `ValueError`. -/
def convertToUsd (amount : UInt64) (currency date : String) : Option UInt64 :=
  if currency = "US Dollar" then some amount
  else
    match currencyNameToIso.lookup currency with
    | none => none
    | some iso => (cfg.getRate date iso).map (cfg.mul amount)

/-- `amount_usd >= 1.0`: the doubles from `1.0` to infinity. -/
def geOne (amount : UInt64) : Bool :=
  decide (0x3ff0000000000000 ≤ amount.toNat) && decide (amount.toNat ≤ 0x7ff0000000000000)

/-- The tests of the loop over a batch. -/
def forwards (tx : Transaction) : Bool :=
  cfg.inDateRange tx.date &&
    match cfg.convertToUsd tx.amount tx.currency (normalizedDate tx.date) with
    | none => false
    | some amountUsd => !geOne amountUsd

/-- The aggregator of a client. -/
def shardOf (clientId : Nat) : Nat := clientId % cfg.aggregationAmount

/-- The outputs of a batch: the forwarded transactions, numbered from the client's seq on. -/
def dataOutputs (clientId seq : Nat) (transactions : List Transaction) :
    Except String (List LogicalOutput) :=
  (transactions.filter cfg.forwards).zipIdx.mapM fun (tx, i) => do
    let payload ← TransactionSerializer.serialize tx
    let body ← createAddressedPacket MessageType.data.toNat clientId cfg.id (seq + i) payload
    return { destination := s!"{cfg.aggregationPrefix}_{cfg.shardOf clientId}", body }

/-- One packet for every aggregator shard, numbered from the client's seq on. -/
def shardOutputs (msgType : MessageType) (clientId seq : Nat) (payload : Bytes) :
    Except String (List LogicalOutput) :=
  (List.range cfg.aggregationAmount).mapM fun i => do
    let body ← createAddressedPacket msgType.toNat clientId cfg.id (seq + i) payload
    return { destination := s!"{cfg.aggregationPrefix}_{i}", body }

/-- `_build_eof_outputs`. -/
def buildEofOutputs (s : FilterQ5UsdState) (clientId totalForwarded : Nat) :
    Except String (List LogicalOutput) := do
  let payload ← ControlMessage.serialize { senderId := cfg.id, expectedTotal := totalForwarded }
  cfg.shardOutputs .eof clientId (s.aggSeq clientId) payload

/-- `_downstream_abort_outputs`. -/
def downstreamAbortOutputs (s : FilterQ5UsdState) (clientId : Nat) :
    Except String (List LogicalOutput) :=
  cfg.shardOutputs .abort clientId (s.aggSeq clientId) []

/-! ## Business functions -/

/-- `bfn` of a `DATA` message. -/
def dataFn (s : FilterQ5UsdState) (clientId : Nat) (payload : Bytes) :
    Except String (FilterQ5UsdChange × List LogicalOutput) := do
  let transactions ← TransactionSerializer.deserializeBatch payload
  if cfg.aggregationAmount = 0 ∧ (transactions.filter cfg.forwards) ≠ [] then
    .error "integer modulo by zero"
  else
    let outputs ← cfg.dataOutputs clientId (s.aggSeq clientId) transactions
    return (.single (.data clientId {
      processedCount := transactions.length
      forwardedCount := (transactions.filter cfg.forwards).length
      seqAdvance := (transactions.filter cfg.forwards).length }), outputs)

/-- The `DATA` change that steps over the seqs of the `EOF`s. -/
def eofSeqs (clientId : Nat) : WorkerOp Q5DataChange :=
  .data clientId { processedCount := 0, forwardedCount := 0, seqAdvance := cfg.aggregationAmount }

/-- `bfn` of the upstream `EOF`, given the answer of the coordinator. -/
def upstreamEofFn (s : FilterQ5UsdState) (clientId expectedTotal : Nat)
    (action : Option CoordinatorAction) :
    Except String (FilterQ5UsdChange × List LogicalOutput) := do
  let eofOp := WorkerOp.coordinatorUpstreamEof clientId expectedTotal (s.processedCount clientId)
    (s.forwardedCount clientId)
  match action with
  | some (.broadcast queueNames message sleep) =>
    return (.single eofOp, ← actionOutputs (.broadcast queueNames message sleep))
  | some (.flush ..) =>
    let outputs ← cfg.buildEofOutputs s clientId (s.forwardedCount clientId)
    return (.compound [eofOp, cfg.eofSeqs clientId, .close clientId], outputs)
  | _ => return (.single eofOp, [])

/-- `bfn` of `FLUSH_ORDER`, given the answer of the coordinator. -/
def flushOrderFn (s : FilterQ5UsdState) (clientId leaderId : Nat)
    (action : Option CoordinatorAction) :
    Except String (FilterQ5UsdChange × List LogicalOutput) := do
  match action with
  | none => return (.single (.data clientId { processedCount := 0, forwardedCount := 0 }), [])
  | some _ =>
    let outputs ← cfg.buildEofOutputs s clientId (s.forwardedCount clientId)
    let flushAck ← (EofCoordinator.buildFlushAck cfg.coordinator clientId
      (s.forwardedCount clientId)).toBytes
    return (.compound [.coordinatorCleanup clientId, cfg.eofSeqs clientId, .close clientId],
      outputs ++ [{ destination := cfg.coordinator.responseQueueFor leaderId, body := flushAck }])

/-- `bfn` of `FLUSH_ACK`. -/
def flushAckFn (s : FilterQ5UsdState) (clientId : Nat) (ctrl : ControlMessage) :
    Except String (FilterQ5UsdChange × List LogicalOutput) := do
  let acks := s.coordinator.flushAcks.getD clientId ∅
  let newAckCount := acks.card + if ctrl.senderId ∈ acks then 0 else 1
  let newTotalFwd := s.coordinator.forwardedFromAcks.getD clientId 0 + ctrl.processedCount +
    s.forwardedCount clientId
  let ackOp := WorkerOp.coordinatorMsg .flushAck clientId ctrl 0 0
  if newAckCount < cfg.filterQ5UsdAmount - 1 then return (.single ackOp, [])
  else
    let outputs ← cfg.buildEofOutputs s clientId newTotalFwd
    return (.compound [ackOp, cfg.eofSeqs clientId, .close clientId], outputs)

/-! ## The worker -/

section handlers
variable (s : FilterQ5UsdState)

/-- The second part of a `DATA` message, after the rates are loaded. -/
def resumeData (m : Addressed) : Reaction FilterQ5UsdState FilterQ5UsdChange :=
  .handle ⟨m.clientId, .data, m.senderId, m.seq⟩ s (cfg.dataFn s m.clientId m.payload)

/-- `_handle_upstream_eof`. The input is named by the sender in the control message. -/
def handleUpstreamEof (m : Addressed) : Reaction FilterQ5UsdState FilterQ5UsdChange :=
  match ControlMessage.deserialize m.payload with
  | .error _ => .refuse
  | .ok ctrl =>
    let key : InputKey := ⟨m.clientId, .ctrlUpstreamEof, ctrl.senderId, m.clientId⟩
    if s.isClosed m.clientId then .skip key
    else
      let (coordinator, action) := s.coordinator.onUpstreamEof cfg.coordinator m.clientId
        ctrl.expectedTotal (s.processedCount m.clientId) (s.forwardedCount m.clientId)
      .handle key { s with coordinator } (cfg.upstreamEofFn s m.clientId ctrl.expectedTotal action)

/-- `_handle_abort`. -/
def handleAbort (m : Addressed) : Reaction FilterQ5UsdState FilterQ5UsdChange :=
  if s.isClosed m.clientId then .skip ⟨m.clientId, .abort, m.senderId, m.seq⟩
  else
    .handle ⟨m.clientId, .abort, m.senderId, m.seq⟩ s do
      return (.abort m.clientId, ← cfg.downstreamAbortOutputs s m.clientId)

/-- `_process_data_message`. -/
def processDataMessage (body : Bytes) : Reaction FilterQ5UsdState FilterQ5UsdChange :=
  match unpackAddressedPacket body with
  | .error _ => .refuse
  | .ok m =>
    match MessageType.ofNat? m.msgType with
    | some .data =>
      if s.isClosed m.clientId then .skip ⟨m.clientId, .data, m.senderId, m.seq⟩
      else cfg.resumeData s m
    | some .eof => cfg.handleUpstreamEof s m
    | some .abort => cfg.handleAbort s m
    | _ => .refuse

/-- `EOF_RECEIVED`. -/
def handleEofReceived (clientId : Nat) (ctrl : ControlMessage) :
    Reaction FilterQ5UsdState FilterQ5UsdChange :=
  let count := s.processedCount clientId
  let fwd := s.forwardedCount clientId
  let (coordinator, action) :=
    s.coordinator.processControlMessage cfg.coordinator .eofReceived clientId ctrl count fwd
  .handle ⟨clientId, .ctrlEofReceived, ctrl.senderId, clientId⟩ { s with coordinator } do
    let change := WorkerChange.single (.coordinatorMsg .eofReceived clientId ctrl count fwd)
    match action with
    | some (.sendAnswer queueName message) =>
      return (change, ← actionOutputs (.sendAnswer queueName message))
    | _ => return (change, [])

/-- `FLUSH_ORDER`. The coordinator only looks. -/
def handleFlushOrder (clientId : Nat) (ctrl : ControlMessage) :
    Reaction FilterQ5UsdState FilterQ5UsdChange :=
  .handle ⟨clientId, .ctrlFlushOrder, ctrl.senderId, clientId⟩ s
    (cfg.flushOrderFn s clientId ctrl.senderId
      (s.coordinator.processControlMessage cfg.coordinator .flushOrder clientId ctrl 0 0).2)

/-- `_handle_control`. Every message of a closed client is acked, whether it is an input or not. -/
def handleControl (body : Bytes) : Reaction FilterQ5UsdState FilterQ5UsdChange :=
  match EofCoordinator.parseMessage body with
  | .error _ => .refuse
  | .ok (none, _, _) => .refuse
  | .ok (some msgType, clientId, ctrl) =>
    match msgType with
    | .eofReceived =>
      if s.isClosed clientId then .skip ⟨clientId, .ctrlEofReceived, ctrl.senderId, clientId⟩
      else cfg.handleEofReceived s clientId ctrl
    | .flushOrder =>
      if s.isClosed clientId then .skip ⟨clientId, .ctrlFlushOrder, ctrl.senderId, clientId⟩
      else cfg.handleFlushOrder s clientId ctrl
    | .processedRequest =>
      if s.isClosed clientId then .direct s []
      else .ofAction s
        (s.coordinator.processControlMessage cfg.coordinator .processedRequest clientId
        ctrl (s.processedCount clientId) (s.forwardedCount clientId)).2
    | _ => .direct s []

/-- `_handle_response`. -/
def handleResponse (body : Bytes) : Reaction FilterQ5UsdState FilterQ5UsdChange :=
  match EofCoordinator.parseMessage body with
  | .error _ => .refuse
  | .ok (none, _, _) => .refuse
  | .ok (some msgType, clientId, ctrl) =>
    match msgType with
    | .processedAnswer =>
      let (coordinator, action) :=
        s.coordinator.processControlMessage cfg.coordinator .processedAnswer clientId ctrl 0 0
      .ofAction { s with coordinator } action
    | .flushAck =>
      if s.isClosed clientId then .skip ⟨clientId, .ctrlFlushAck, ctrl.senderId, clientId⟩
      else .handle ⟨clientId, .ctrlFlushAck, ctrl.senderId, clientId⟩ s
        (cfg.flushAckFn s clientId ctrl)
    | _ => .direct s []

end handlers

/-- A message of a queue, or the second part of a `DATA` message: the lock is released while the
rates are loaded, and the client may be closed meanwhile. -/
inductive Delivery where
  | queue (d : WorkerDelivery)
  | resumed (body : Bytes)
  deriving DecidableEq

/-- `MsgKind` in the message ids: a control message is named by its type. -/
def tags : MsgIdTags where
  tag
    | .data => [['d']]
    | .abort => ["abort".toList]
    | .ctrlUpstreamEof => [['u', 'e']]
    | .ctrlEofReceived => ["ctrl".toList, Text.ofNat MessageType.eofReceived.toNat]
    | .ctrlFlushOrder => ["ctrl".toList, Text.ofNat MessageType.flushOrder.toNat]
    | .ctrlFlushAck => [['f', 'a']]
    | kind => [Text.ofNat kind.toNat]
  noColon := by intro kind; cases kind <;> decide
  prefixFree := by intro a b; cases a <;> cases b <;> decide

/-- The worker and its durable handler. -/
def consumer : ConsumerConfig FilterQ5UsdState FilterQ5UsdChange Delivery where
  nodeId := workerNodeId "filter_q5_usd" cfg.id
  nodeId_noColon := workerNodeId_noColon (by decide) _
  sha256 := cfg.sha256
  fresh := {}
  applyChange := FilterQ5UsdState.applyChange cfg
  json := cfg.changeJson
  snapshotEvery := cfg.snapshotInterval
  tags := tags
  react s
    | .queue (.input body) => cfg.processDataMessage s body
    | .queue (.control body) => cfg.handleControl s body
    | .queue (.response body) => cfg.handleResponse s body
    | .resumed body =>
      match unpackAddressedPacket body with
      | .error _ => .refuse
      | .ok m => if m.msgType = MessageType.data.toNat then cfg.resumeData s m else .refuse

end FilterQ5UsdConfig

end MoneyLaundering
