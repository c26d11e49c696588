import MoneyLaundering.BatchBuffer
import MoneyLaundering.Eof.Coordinator
import MoneyLaundering.FaultTolerance.History
import MoneyLaundering.Lib.Base64

/-!
# The durable state of a filter

`FilterState` (`workers/filter/filter_state.py`): the counters of every client, the buffer of
outgoing batches and the EOF coordinator, changed only through `apply_change`.

The worker also calls the coordinator outside the log: the answers of a counting round and the note
that an EOF was announced live in memory only until the next snapshot. `FilterState.durable` forgets
that part, and `FilterState.view` says that changes respect what remains.
-/

namespace MoneyLaundering

/-- What a `FilterState` is constructed with. -/
structure FilterStateConfig where
  coordinator : CoordinatorConfig
  limits : BatchLimits

/-- One change of `FilterState`, apart from a bundle of them. -/
inductive FilterOp where
  | data (clientId processedCount : Nat) (appendsByDest : Dict String (List (List Char)))
      (forwardedByOutput : Dict String Nat)
  | flushAck (clientId senderId : Nat) (forwardedByOutput : Dict String Nat)
  | close (clientId : Nat)
  | coordinatorUpstreamEof (clientId expectedTotal count forwarded : Nat)
  | coordinatorMsg (msgType : MessageType) (clientId : Nat) (ctrl : ControlMessage)
      (count forwarded : Nat)
  | coordinatorCleanup (clientId : Nat) (isLeader : Bool)
  deriving DecidableEq

/-- A change of `FilterState`. The worker bundles single changes only. -/
inductive FilterChange where
  | single (op : FilterOp)
  | compound (ops : List FilterOp)
  deriving DecidableEq

def FilterChange.ops : FilterChange → List FilterOp
  | single op => [op]
  | compound ops => ops

/-- `FilterState`. -/
structure FilterState where
  coordinator : EofCoordinator := {}
  processedByClient : Dict Nat Nat := ∅
  forwardedByClient : Dict Nat Nat := ∅
  forwardedByOutputByClient : Dict Nat (Dict String Nat) := ∅
  closedByClient : Finset Nat := ∅
  allForwardedByOutputByClient : Dict Nat (Dict String Nat) := ∅
  flushedAcksByClient : Dict Nat (Finset Nat) := ∅
  buffer : BatchBuffer (String × Nat) := {}

/-- `for output, count in counts.items(): acc[output] = acc.get(output, 0) + count`. -/
def addCounts (acc counts : Dict String Nat) : Dict String Nat :=
  counts.entries.foldl (fun acc e => acc.set e.1 (acc.getD e.1 0 + e.2)) acc

theorem getD_addCounts (acc counts : Dict String Nat) (output : String) :
    (addCounts acc counts).getD output 0 = acc.getD output 0 + counts.getD output 0 := by
  obtain ⟨entries, hn⟩ := counts
  unfold addCounts
  change _ = acc.getD output 0 + (Dict.find output entries).getD 0
  simp only
  induction entries generalizing acc with
  | nil => simp [Dict.find]
  | cons e entries ih =>
    obtain ⟨k, n⟩ := e
    simp only [List.map_cons, List.nodup_cons] at hn
    rw [List.foldl_cons, ih _ hn.2, Dict.getD_set, Dict.find]
    by_cases hk : k = output
    · subst hk
      simp [Dict.find_eq_none_iff.mpr hn.1]
    · simp [hk]

namespace FilterState

/-! ## Changes -/

/-- `data_change`: payloads travel as base64 text. -/
def dataChange (clientId processedCount : Nat) (appendsByDest : Dict String (List Bytes))
    (forwardedByOutput : Dict String Nat) : FilterChange :=
  .single (.data clientId processedCount (appendsByDest.mapVals (·.map Base64.encode))
    forwardedByOutput)

/-- `base64.b64decode` on what `data_change` wrote. -/
def decodePayload (text : List Char) : Bytes := (Base64.decode text).getD []

theorem map_decodePayload_encode (payloads : List Bytes) :
    (payloads.map Base64.encode).map decodePayload = payloads := by
  simp [decodePayload, Function.comp_def, Base64.decode_encode]

section reading
variable (s : FilterState) (clientId : Nat)

def processedCount : Nat := s.processedByClient.getD clientId 0
def forwardedByOutput : Dict String Nat := s.forwardedByOutputByClient.getD clientId ∅
def allForwardedByOutput : Dict String Nat := s.allForwardedByOutputByClient.getD clientId ∅
def flushedAcks : Finset Nat := s.flushedAcksByClient.getD clientId ∅
def flushedAckCount : Nat := (s.flushedAcks clientId).card
def isClosed : Bool := decide (clientId ∈ s.closedByClient)

end reading

variable (cfg : FilterStateConfig)

def planData (s : FilterState) (clientId : Nat) (appendsByDest : Dict String (List Bytes)) :
    List (String × List Bytes) :=
  appendsByDest.entries.map fun e => (e.1, s.buffer.planAppend cfg.limits (e.1, clientId) e.2)

/-- `plan_drain`. One key of the buffer has the client and a given output, so the pairs are a
dictionary already. -/
def planDrain (s : FilterState) (clientId : Nat) : List (String × Bytes) :=
  (s.buffer.planDrain fun k => k.2 == clientId).map fun e => (e.1.1, e.2)

/-- `_apply_data`. -/
def applyData (s : FilterState) (clientId processedCount : Nat)
    (appendsByDest : Dict String (List (List Char))) (forwardedByOutput : Dict String Nat) :
    FilterState :=
  if clientId ∈ s.closedByClient then s
  else { s with
    processedByClient :=
      s.processedByClient.set clientId (s.processedCount clientId + processedCount)
    buffer := appendsByDest.entries.foldl (fun b e =>
      b.applyAppend cfg.limits (e.1, clientId) (e.2.map decodePayload)) s.buffer
    forwardedByOutputByClient := s.forwardedByOutputByClient.set clientId
      (addCounts (s.forwardedByOutput clientId) forwardedByOutput)
    forwardedByClient := forwardedByOutput.entries.foldl (fun d e =>
      d.set clientId (d.getD clientId 0 + e.2)) s.forwardedByClient }

section dataFrame
variable (s : FilterState) (clientId processedCount : Nat)
  (appendsByDest : Dict String (List (List Char))) (forwardedByOutput : Dict String Nat)

@[simp] theorem applyData_coordinator :
    (s.applyData cfg clientId processedCount appendsByDest forwardedByOutput).coordinator =
      s.coordinator := by
  unfold applyData; split <;> rfl

@[simp] theorem applyData_flushedAcksByClient :
    (s.applyData cfg clientId processedCount appendsByDest forwardedByOutput).flushedAcksByClient =
      s.flushedAcksByClient := by
  unfold applyData; split <;> rfl

@[simp] theorem applyData_allForwardedByOutputByClient :
    (s.applyData cfg clientId processedCount appendsByDest
      forwardedByOutput).allForwardedByOutputByClient = s.allForwardedByOutputByClient := by
  unfold applyData; split <;> rfl

end dataFrame

/-- `_apply_flush_ack`. -/
def applyFlushAck (s : FilterState) (clientId senderId : Nat)
    (forwardedByOutput : Dict String Nat) :
    FilterState :=
  if senderId ∈ s.flushedAcks clientId then
    { s with flushedAcksByClient := s.flushedAcksByClient.set clientId (s.flushedAcks clientId) }
  else { s with
    flushedAcksByClient :=
      s.flushedAcksByClient.set clientId (insert senderId (s.flushedAcks clientId))
    allForwardedByOutputByClient := s.allForwardedByOutputByClient.set clientId
      (addCounts (s.allForwardedByOutput clientId) forwardedByOutput) }

section frame
variable (s : FilterState) (clientId senderId : Nat) (counts : Dict String Nat)

@[simp] theorem applyFlushAck_buffer :
    (s.applyFlushAck clientId senderId counts).buffer = s.buffer := by
  unfold applyFlushAck; split <;> rfl

@[simp] theorem applyFlushAck_closedByClient :
    (s.applyFlushAck clientId senderId counts).closedByClient = s.closedByClient := by
  unfold applyFlushAck; split <;> rfl

@[simp] theorem applyFlushAck_forwardedByOutputByClient :
    (s.applyFlushAck clientId senderId counts).forwardedByOutputByClient =
      s.forwardedByOutputByClient := by
  unfold applyFlushAck; split <;> rfl

@[simp] theorem applyFlushAck_coordinator :
    (s.applyFlushAck clientId senderId counts).coordinator = s.coordinator := by
  unfold applyFlushAck; split <;> rfl

theorem flushedAcks_applyFlushAck (clientId' : Nat) :
    (s.applyFlushAck clientId senderId counts).flushedAcks clientId' =
      if clientId = clientId' then insert senderId (s.flushedAcks clientId)
      else s.flushedAcks clientId' := by
  unfold applyFlushAck
  split
  · next h => rw [Finset.insert_eq_of_mem h]; exact Dict.getD_set _ _ _ _ _
  · exact Dict.getD_set _ _ _ _ _

theorem allForwardedByOutput_applyFlushAck (clientId' : Nat) :
    (s.applyFlushAck clientId senderId counts).allForwardedByOutput clientId' =
      if clientId = clientId' ∧ senderId ∉ s.flushedAcks clientId then
        addCounts (s.allForwardedByOutput clientId) counts
      else s.allForwardedByOutput clientId' := by
  unfold applyFlushAck
  by_cases h : senderId ∈ s.flushedAcks clientId
  · simp [h, allForwardedByOutput]
  · simp only [h, if_false, not_false_eq_true, and_true]
    exact Dict.getD_set _ _ _ _ _

end frame

/-- `_apply_close`. -/
def applyClose (s : FilterState) (clientId : Nat) : FilterState where
  coordinator := s.coordinator
  processedByClient := s.processedByClient.erase clientId
  forwardedByClient := s.forwardedByClient.erase clientId
  forwardedByOutputByClient := s.forwardedByOutputByClient.erase clientId
  allForwardedByOutputByClient := s.allForwardedByOutputByClient.erase clientId
  flushedAcksByClient := s.flushedAcksByClient.erase clientId
  buffer := s.buffer.discard fun k => k.2 == clientId
  closedByClient := insert clientId s.closedByClient

def applyOp (s : FilterState) : FilterOp → FilterState
  | .data clientId processedCount appendsByDest forwardedByOutput =>
    s.applyData cfg clientId processedCount appendsByDest forwardedByOutput
  | .flushAck clientId senderId forwardedByOutput =>
    s.applyFlushAck clientId senderId forwardedByOutput
  | .close clientId => s.applyClose clientId
  | .coordinatorUpstreamEof clientId expectedTotal count forwarded =>
    { s with coordinator :=
        (s.coordinator.onUpstreamEof cfg.coordinator clientId expectedTotal count forwarded).1 }
  | .coordinatorMsg msgType clientId ctrl count forwarded =>
    { s with coordinator := (s.coordinator.processControlMessage cfg.coordinator
      msgType clientId ctrl
        count forwarded).1 }
  | .coordinatorCleanup clientId isLeader =>
    { s with coordinator :=
        if isLeader then s.coordinator.cleanupLeaderState cfg.coordinator clientId
        else s.coordinator.cleanupClient clientId }

/-- `apply_change`. -/
def applyChange (s : FilterState) (change : FilterChange) : FilterState :=
  change.ops.foldl (applyOp cfg) s

/-- Only `close` closes a client. -/
theorem mem_closedByClient_applyOp (s : FilterState) (op : FilterOp) (clientId : Nat) :
    clientId ∈ (s.applyOp cfg op).closedByClient ↔
      clientId ∈ s.closedByClient ∨ op = .close clientId := by
  cases op with
  | data => simp only [applyOp, applyData]; split <;> simp
  | flushAck => simp [applyOp]
  | close clientId' => simp [applyOp, applyClose, or_comm, eq_comm]
  | coordinatorUpstreamEof | coordinatorMsg | coordinatorCleanup => simp [applyOp]

theorem mem_closedByClient_applyChange (s : FilterState) (change : FilterChange) (clientId : Nat) :
    clientId ∈ (s.applyChange cfg change).closedByClient ↔
      clientId ∈ s.closedByClient ∨ .close clientId ∈ change.ops := by
  unfold applyChange
  induction change.ops generalizing s with
  | nil => simp
  | cons op ops ih =>
    rw [List.foldl_cons, ih, mem_closedByClient_applyOp, List.mem_cons, or_assoc,
      eq_comm (a := op)]

/-- The worker state for the handler. A snapshot copies every field. -/
def worker : WorkerState FilterState FilterState FilterChange where
  fresh := {}
  snapshot := id
  restore := id
  applyChange := applyChange cfg
  restore_snapshot _ := rfl

end FilterState

/-! ## What survives a crash -/

/-- The maps of the coordinator that only logged changes touch. -/
def EofCoordinator.durable (s : EofCoordinator) : EofCoordinator :=
  { s with pendingEof := ∅, leaderResponders := ∅, leaderProcessed := ∅ }

namespace EofCoordinator

variable (cfg : CoordinatorConfig) (s : EofCoordinator) (clientId : Nat)

theorem durable_onUpstreamEof (expected count forwarded : Nat) :
    (onUpstreamEof cfg s.durable clientId expected count forwarded).1.durable =
      (onUpstreamEof cfg s clientId expected count forwarded).1.durable := by
  unfold onUpstreamEof
  split
  · rfl
  · split
    · rfl
    · have hs : s.durable.seenEof = s.seenEof := rfl
      rw [hs]
      by_cases h : clientId ∈ s.seenEof
      · rw [if_pos h, if_pos h]; rfl
      · rw [if_neg h, if_neg h]; rfl

/-- Counting the answers of a round touches nothing durable. -/
theorem durable_onProcessedAnswer (ctrl : ControlMessage) :
    (onProcessedAnswer cfg s clientId ctrl).1.durable = s.durable := by
  unfold onProcessedAnswer
  simp only
  split
  · rfl
  · split
    · rfl
    · split
      · rfl
      · split <;> rfl

theorem durable_onEofReceived (ctrl : ControlMessage) (count forwarded : Nat) :
    (onEofReceived cfg s clientId ctrl count forwarded).1.durable = s.durable := by
  unfold onEofReceived
  split <;> rfl

@[simp] theorem durable_durable : s.durable.durable = s.durable := rfl

theorem durable_onFlushAck (ctrl : ControlMessage) :
    (onFlushAck cfg s.durable clientId ctrl).1.durable =
      (onFlushAck cfg s clientId ctrl).1.durable := by
  have hl : isLeaderHere cfg s.durable clientId = isLeaderHere cfg s clientId := rfl
  have ha : s.durable.flushAcks = s.flushAcks := rfl
  unfold onFlushAck
  rw [hl, ha]
  by_cases h : isLeaderHere cfg s clientId = true
  · rw [if_pos h, if_pos h]
    by_cases hc : (insert ctrl.senderId (s.flushAcks.getD clientId ∅)).card < cfg.totalInstances - 1
    · simp only [hc, if_true]; rfl
    · simp only [hc, if_false]; rfl
  · rw [if_neg h, if_neg h]; rfl

theorem durable_processControlMessage (msgType : MessageType) (ctrl : ControlMessage)
    (count forwarded : Nat) :
    (processControlMessage cfg s.durable msgType clientId ctrl count forwarded).1.durable =
      (processControlMessage cfg s msgType clientId ctrl count forwarded).1.durable := by
  cases msgType with
  | eofReceived => simp only [processControlMessage, durable_onEofReceived, durable_durable]
  | processedRequest => simp only [processControlMessage, onProcessedRequest_fst, durable_durable]
  | processedAnswer => simp only [processControlMessage, durable_onProcessedAnswer, durable_durable]
  | flushOrder => simp only [processControlMessage, onFlushOrder_fst, durable_durable]
  | flushAck => exact durable_onFlushAck cfg s clientId ctrl
  | data | eof | aggregatedCount | abort => rfl

/-- Nothing a control message other than an ack does is durable. -/
theorem durable_processControlMessage_of_ne (msgType : MessageType) (ctrl : ControlMessage)
    (count forwarded : Nat) (h : msgType ≠ .flushAck) :
    (processControlMessage cfg s msgType clientId ctrl count forwarded).1.durable = s.durable := by
  cases msgType with
  | eofReceived => simp only [processControlMessage, durable_onEofReceived]
  | processedRequest => simp only [processControlMessage, onProcessedRequest_fst]
  | processedAnswer => simp only [processControlMessage, durable_onProcessedAnswer]
  | flushOrder => simp only [processControlMessage, onFlushOrder_fst]
  | flushAck => exact absurd rfl h
  | data | eof | aggregatedCount | abort => rfl

end EofCoordinator

namespace FilterState

def durable (s : FilterState) : FilterState := { s with coordinator := s.coordinator.durable }

theorem isClosed_congr {s s' : FilterState} (h : s'.durable = s.durable) (clientId : Nat) :
    s'.isClosed clientId = s.isClosed clientId := by
  change s'.durable.isClosed clientId = s.durable.isClosed clientId
  rw [h]

variable (cfg : FilterStateConfig)

theorem durable_applyOp (s : FilterState) (op : FilterOp) :
    (s.durable.applyOp cfg op).durable = (s.applyOp cfg op).durable := by
  cases op with
  | data clientId processedCount appendsByDest forwardedByOutput =>
    by_cases h : clientId ∈ s.closedByClient
    · have hd : clientId ∈ s.durable.closedByClient := h
      simp only [applyOp, applyData, if_pos h, if_pos hd]; rfl
    · have hd : clientId ∉ s.durable.closedByClient := h
      simp only [applyOp, applyData, if_neg h, if_neg hd]; rfl
  | flushAck clientId senderId forwardedByOutput =>
    by_cases h : senderId ∈ s.flushedAcks clientId
    · have hd : senderId ∈ s.durable.flushedAcks clientId := h
      simp only [applyOp, applyFlushAck, if_pos h, if_pos hd]; rfl
    · have hd : senderId ∉ s.durable.flushedAcks clientId := h
      simp only [applyOp, applyFlushAck, if_neg h, if_neg hd]; rfl
  | close clientId => rfl
  | coordinatorUpstreamEof clientId expectedTotal count forwarded =>
    simp only [applyOp, durable, EofCoordinator.durable_onUpstreamEof]
  | coordinatorMsg msgType clientId ctrl count forwarded =>
    simp only [applyOp, durable, EofCoordinator.durable_processControlMessage]
  | coordinatorCleanup clientId isLeader =>
    cases isLeader <;> rfl

theorem durable_applyChange (s : FilterState) (change : FilterChange) :
    (s.durable.applyChange cfg change).durable = (s.applyChange cfg change).durable := by
  unfold applyChange
  induction change.ops generalizing s with
  | nil => rfl
  | cons op ops ih =>
    rw [List.foldl_cons, List.foldl_cons, ← ih (s.applyOp cfg op), ← durable_applyOp, ih]

/-- The state up to what the coordinator keeps in memory only. -/
def view : View (worker cfg) FilterState where
  view := durable
  apply s change := (s.applyChange cfg change).durable
  view_applyChange s change := (durable_applyChange cfg s change).symm

end FilterState

end MoneyLaundering
