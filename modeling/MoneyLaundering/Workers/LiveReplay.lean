import MoneyLaundering.Eof.CoordinatorDicts
import MoneyLaundering.Filter.State
import MoneyLaundering.Q2.BankNameJoiner
import MoneyLaundering.ScatterGather.Q4FilterWorker
import MoneyLaundering.Workers.Aggregator
import MoneyLaundering.Workers.Sum

/-!
# Replay and live

The five states that log their changes as dictionaries, `FilterState`, `SumState`,
`AggregatorState`, `Q4FilterState` and `BankNameJoinerState`: what their constructors build, and
`apply_change` on it, with the exceptions that a payload nobody can read raises. The records that
the other modules use for the changes are applied in the same way (`live_toDict`). A change that
comes back from the log does to a restored state what it did to the live one (`replay_equals_live`).
-/

namespace MoneyLaundering

open Bytes Json

/-! ## The parts of a snapshot -/

/-- `EofCoordinator.snapshot()`. -/
structure CoordinatorSnapshot where
  pendingEof : Dict Nat (Nat × Nat)
  seenEof : Finset Nat
  leaderExpected : Dict Nat Nat
  leaderProcessed : Dict Nat Nat
  leaderResponders : Dict Nat (Finset Nat)
  flushAcks : Dict Nat (Finset Nat)
  forwardedFromAcks : Dict Nat Nat

namespace EofCoordinator

def snapshot (s : EofCoordinator) : CoordinatorSnapshot where
  pendingEof := s.pendingEof
  seenEof := s.seenEof
  leaderExpected := s.leaderExpected
  leaderProcessed := s.leaderProcessed
  leaderResponders := s.leaderResponders
  flushAcks := s.flushAcks
  forwardedFromAcks := s.forwardedFromAcks

def restore (snap : CoordinatorSnapshot) : EofCoordinator where
  pendingEof := snap.pendingEof
  seenEof := snap.seenEof
  leaderExpected := snap.leaderExpected
  leaderProcessed := snap.leaderProcessed
  leaderResponders := snap.leaderResponders
  flushAcks := snap.flushAcks
  forwardedFromAcks := snap.forwardedFromAcks

end EofCoordinator

/-- `BatchBuffer.snapshot()`. -/
structure BufferSnapshot (κ : Type) where
  buffers : Dict κ (List Bytes)
  bytesByKey : Dict κ Nat

namespace BatchBuffer

variable {κ : Type}

def snapshot (b : BatchBuffer κ) : BufferSnapshot κ where
  buffers := b.buffers
  bytesByKey := b.bytesByKey

def restore (snap : BufferSnapshot κ) : BatchBuffer κ where
  buffers := snap.buffers
  bytesByKey := snap.bytesByKey

end BatchBuffer

/-! ## Shared by the workers that log a payload -/

/-- What `data_change`, `close_change`, the constructors for the coordinator, `abort_change` and
`compound_change` build. -/
inductive WorkerBuilt (payloadKey : String) : Value → Prop where
  | data (clientId : Nat) (payload : Bytes) :
      WorkerBuilt payloadKey (payloadChange payloadKey clientId payload)
  | close (clientId : Nat) : WorkerBuilt payloadKey (closeChange clientId)
  | coordinatorUpstreamEof (clientId expectedTotal count forwarded : Nat) :
    WorkerBuilt payloadKey (coordinatorUpstreamEofChange clientId expectedTotal count forwarded)
  | coordinatorMsg (msgType : MessageType) (clientId : Nat) (ctrl : ControlMessage)
      (count forwarded : Nat) :
    WorkerBuilt payloadKey (coordinatorMsgChange msgType clientId ctrl count forwarded)
  | coordinatorCleanup (clientId : Nat) : WorkerBuilt payloadKey (coordinatorCleanupChange clientId)
  | compound (changes : List Value) (h : ∀ change ∈ changes, WorkerBuilt payloadKey change) :
    WorkerBuilt payloadKey (compoundChange changes)

/-- `abort_change`. -/
def abortChange (clientId : Nat) : Value :=
  compoundChange [coordinatorCleanupChange clientId, closeChange clientId]

theorem workerBuilt_abortChange (payloadKey : String) (clientId : Nat) :
    WorkerBuilt payloadKey (abortChange clientId) := by
  refine .compound _ fun change hm => ?_
  simp only [List.mem_cons, List.not_mem_nil, or_false] at hm
  rcases hm with rfl | rfl
  · exact .coordinatorCleanup clientId
  · exact .close clientId

theorem WorkerBuilt.native {payloadKey : String} (hk : payloadKey ∉ ["type", "client_id"])
    {change : Value}
    (h : WorkerBuilt payloadKey change) : ∃ es, change = .dict es ∧ Native change := by
  induction h with
  | data clientId payload => exact ⟨_, rfl, native_payloadChange clientId hk payload⟩
  | close clientId => exact ⟨_, rfl, native_closeChange clientId⟩
  | coordinatorUpstreamEof clientId expectedTotal count forwarded =>
    exact ⟨_, rfl, native_coordinatorUpstreamEofChange clientId expectedTotal count forwarded⟩
  | coordinatorMsg msgType clientId ctrl count forwarded =>
    exact ⟨_, rfl, native_coordinatorMsgChange clientId count forwarded msgType ctrl⟩
  | coordinatorCleanup clientId => exact ⟨_, rfl, native_coordinatorCleanupChange clientId⟩
  | compound changes _ ih =>
    refine ⟨_, rfl, native_compoundChange fun change hm => ?_⟩
    obtain ⟨_, _, hn⟩ := ih change hm
    exact hn

/-- A worker state that logs its `DATA` payloads, by the parts in which such states differ. -/
structure PayloadState (σ ς : Type) where
  snapshot : σ → ς
  restore : ς → σ
  restore_snapshot : ∀ s, restore (snapshot s) = s
  payloadKey : String
  config : CoordinatorConfig
  coordinator : σ → EofCoordinator
  withCoordinator : σ → EofCoordinator → σ
  applyData : Nat → Fields → ApplyM σ Unit
  applyClose : Nat → σ → σ
  payloadKey_fresh : payloadKey ∉ ["type", "client_id"]
  coordinator_with : ∀ s c, coordinator (withCoordinator s c) = c
  with_with : ∀ s c c', withCoordinator (withCoordinator s c) c' = withCoordinator s c'

namespace PayloadState

variable {σ ς : Type} (w : PayloadState σ ς)

/-- `apply_change` on a change that is not compound. -/
def applySingle (es : Fields) : ApplyM σ Unit := do
  let kind ← es.text "type"
  let clientId ← es.nat "client_id"
  if kind = "data" then w.applyData clientId es
  else if kind = "close" then modify (w.applyClose clientId)
  else do
    let call ← coordinatorCallOrCleanup w.config kind clientId es
    modify fun s => w.withCoordinator s (call (w.coordinator s))

/-- The state and its changes. -/
def worker : CoordinatedState σ ς where
  snapshot := w.snapshot
  restore := w.restore
  applyChange := applyNested w.applySingle
  Built := WorkerBuilt w.payloadKey
  config := w.config
  coordinator := w.coordinator
  withCoordinator := w.withCoordinator

theorem lawful : w.worker.Lawful where
  restore_snapshot := w.restore_snapshot
  native _ h := h.native w.payloadKey_fresh
  compound := ⟨_, rfl⟩
  upstreamEof _ _ _ _ _ := rfl
  eofReceived _ _ _ _ _ := rfl
  called_called s call h := by
    simp only [CoordinatedState.called, worker, w.coordinator_with, w.with_with, h]

/-- The dictionary of a `DATA` change with a text. -/
def dataFields (clientId : Nat) (text : List Char) : List (String × Value) :=
  [("type", .str "data"), ("client_id", .int clientId), (w.payloadKey, .str (String.ofList text))]

/-- The dictionary that a record stands for. -/
def toDict : WorkerOp (List Char) → Value
  | .data clientId text => obj (w.dataFields clientId text)
  | .close clientId => closeChange clientId
  | .coordinatorUpstreamEof clientId expectedTotal count forwarded =>
    coordinatorUpstreamEofChange clientId expectedTotal count forwarded
  | .coordinatorMsg msgType clientId ctrl count forwarded =>
    coordinatorMsgChange msgType clientId ctrl count forwarded
  | .coordinatorCleanup clientId => coordinatorCleanupChange clientId

def changeToDict : WorkerChange (List Char) → Value
  | .single op => w.toDict op
  | .compound ops => compoundChange (ops.map w.toDict)

/-- What another model of the state does with the records, where the texts can be read. -/
structure Models (apply : σ → WorkerOp (List Char) → σ) (Reads : List Char → Prop) : Prop where
  data : ∀ s clientId text, Reads text →
    (w.applyData clientId ((w.dataFields clientId text).map fun e => (.str e.1, e.2))).exec s =
      (.ok (), apply s (.data clientId text))
  close : ∀ s clientId, apply s (.close clientId) = w.applyClose clientId s
  upstreamEof : ∀ s clientId expectedTotal count forwarded,
    apply s (.coordinatorUpstreamEof clientId expectedTotal count forwarded) =
      w.withCoordinator s
        ((w.coordinator s).onUpstreamEof w.config clientId expectedTotal count forwarded).1
  msg : ∀ s msgType clientId ctrl count forwarded,
    apply s (.coordinatorMsg msgType clientId ctrl count forwarded) =
      w.withCoordinator s
        ((w.coordinator s).processControlMessage w.config msgType clientId ctrl count forwarded).1
  cleanup : ∀ s clientId,
    apply s (.coordinatorCleanup clientId) = w.withCoordinator s
      ((w.coordinator s).cleanupClient clientId)

/-- The text of a record can be read. -/
def OpReads (Reads : List Char → Prop) : WorkerOp (List Char) → Prop
  | .data _ text => Reads text
  | _ => True

variable {w}

/-- A record does what its dictionary does. -/
theorem Models.live_op {apply : σ → WorkerOp (List Char) → σ} {Reads : List Char → Prop}
    (h : w.Models apply Reads) (s : σ) {op : WorkerOp (List Char)} (hr : OpReads Reads op) :
    (applyNested w.applySingle (w.toDict op)).exec s = (.ok (), apply s op) := by
  cases op with
  | data clientId text => exact h.data s clientId text hr
  | close clientId =>
    rw [h.close]
    rfl
  | coordinatorUpstreamEof clientId expectedTotal count forwarded =>
    rw [h.upstreamEof]
    rfl
  | coordinatorMsg msgType clientId ctrl count forwarded =>
    rw [h.msg]
    cases msgType <;> rfl
  | coordinatorCleanup clientId =>
    rw [h.cleanup]
    rfl

theorem Models.live_toDict {apply : σ → WorkerOp (List Char) → σ} {Reads : List Char → Prop}
    (h : w.Models apply Reads) (s : σ) {change : WorkerChange (List Char)}
    (hr : ∀ op ∈ change.ops, OpReads Reads op) :
    w.worker.live s (w.changeToDict change) = (.ok (), change.ops.foldl apply s) := by
  cases change with
  | single op => exact h.live_op s (hr op List.mem_cons_self)
  | compound ops => exact exec_compoundChange_map (fun s op hm => h.live_op s (hr op hm)) s

end PayloadState

theorem b64decode_ofList {text : List Char} {payload : Bytes}
    (h : Base64.decode text = some payload) :
    b64decode (String.ofList text) = .ok payload := by
  rw [b64decode, String.toList_ofList, h]

/-- `SumProcessor` or `AggregatorProcessor`, on the accumulated value of a client. A step may
raise. -/
structure RaisingProcessor (π ι : Type) where
  create : π
  step : ι → ApplyM π Unit

/-- A step that does not raise. -/
def ApplyM.total {π ι : Type} (step : π → ι → π) (x : ι) : ApplyM π Unit := modify fun p => step p x

/-! ## The filter -/

/-- `FilterState.snapshot()`. -/
structure FilterSnapshot where
  processedByClient : Dict Nat Nat
  forwardedByClient : Dict Nat Nat
  forwardedByOutputByClient : Dict Nat (Dict String Nat)
  closedByClient : Finset Nat
  allForwardedByOutputByClient : Dict Nat (Dict String Nat)
  flushedAcksByClient : Dict Nat (Finset Nat)
  buffer : BufferSnapshot (String × Nat)
  eofCoordinator : CoordinatorSnapshot

namespace FilterState

def snapshot (s : FilterState) : FilterSnapshot where
  processedByClient := s.processedByClient
  forwardedByClient := s.forwardedByClient
  forwardedByOutputByClient := s.forwardedByOutputByClient
  closedByClient := s.closedByClient
  allForwardedByOutputByClient := s.allForwardedByOutputByClient
  flushedAcksByClient := s.flushedAcksByClient
  buffer := s.buffer.snapshot
  eofCoordinator := s.coordinator.snapshot

def restore (data : FilterSnapshot) : FilterState where
  processedByClient := data.processedByClient
  forwardedByClient := data.forwardedByClient
  forwardedByOutputByClient := data.forwardedByOutputByClient
  closedByClient := data.closedByClient
  allForwardedByOutputByClient := data.allForwardedByOutputByClient
  flushedAcksByClient := data.flushedAcksByClient
  buffer := .restore data.buffer
  coordinator := .restore data.eofCoordinator

end FilterState

namespace FilterChanges

/-- `data_change`: payloads are base64. -/
def dataChange (clientId processedCount : Nat) (appendsByDest : Dict String (List Bytes))
    (forwardedByOutput : Dict String Nat) : Value :=
  obj [("type", .str "data"), ("client_id", .int clientId),
    ("processed_count", .int processedCount),
    ("appends_by_dest", obj (appendsByDest.entries.map fun e =>
      (e.1, .list (e.2.map fun payload => .str (b64encode payload))))),
    ("forwarded_by_output", countsValue forwardedByOutput)]

/-- `flush_ack_change`. -/
def flushAckChange (clientId senderId : Nat) (forwardedByOutput : Dict String Nat) : Value :=
  obj [("type", .str "flush_ack"), ("client_id", .int clientId), ("sender_id", .int senderId),
    ("forwarded_by_output", countsValue forwardedByOutput)]

/-- `coordinator_cleanup_change`. -/
def coordinatorCleanupChange (clientId : Nat) (isLeader : Bool) : Value :=
  obj [("type", .str "coordinator_cleanup"), ("client_id", .int clientId),
    ("is_leader", .bool isLeader)]

/-- `abort_change`. -/
def abortChange (clientId : Nat) : Value :=
  compoundChange [coordinatorCleanupChange clientId false, closeChange clientId]

/-- What the constructors of `FilterState` build. -/
inductive Built : Value → Prop where
  | data (clientId processedCount : Nat) (appendsByDest : Dict String (List Bytes))
      (forwardedByOutput : Dict String Nat) :
    Built (dataChange clientId processedCount appendsByDest forwardedByOutput)
  | flushAck (clientId senderId : Nat) (forwardedByOutput : Dict String Nat) :
    Built (flushAckChange clientId senderId forwardedByOutput)
  | close (clientId : Nat) : Built (closeChange clientId)
  | coordinatorUpstreamEof (clientId expectedTotal count forwarded : Nat) :
    Built (coordinatorUpstreamEofChange clientId expectedTotal count forwarded)
  | coordinatorMsg (msgType : MessageType) (clientId : Nat) (ctrl : ControlMessage)
      (count forwarded : Nat) :
    Built (coordinatorMsgChange msgType clientId ctrl count forwarded)
  | coordinatorCleanup (clientId : Nat) (isLeader : Bool) :
      Built (coordinatorCleanupChange clientId isLeader)
  | compound (changes : List Value) (h : ∀ change ∈ changes, Built change) :
      Built (compoundChange changes)

theorem built_abortChange (clientId : Nat) : Built (abortChange clientId) := by
  refine .compound _ fun change hm => ?_
  simp only [List.mem_cons, List.not_mem_nil, or_false] at hm
  rcases hm with rfl | rfl
  · exact .coordinatorCleanup clientId false
  · exact .close clientId

theorem native_dataChange (clientId processedCount : Nat) (appendsByDest : Dict String (List Bytes))
    (forwardedByOutput : Dict String Nat) :
    Native (dataChange clientId processedCount appendsByDest forwardedByOutput) := by
  have hcounts := native_countsValue forwardedByOutput
  have happends : Native (obj (appendsByDest.entries.map fun e =>
      (e.1, .list (e.2.map fun payload => .str (b64encode payload))))) := by
    refine native_obj ?_ fun e he => ?_
    · simpa [Function.comp_def] using appendsByDest.nodup
    · obtain ⟨e', -, rfl⟩ := List.mem_map.mp he
      refine nativeItems_iff.mpr fun v hv => ?_
      obtain ⟨payload, -, rfl⟩ := List.mem_map.mp hv
      trivial
  refine native_obj (by simp) fun e he => ?_
  simp only [List.mem_cons, List.not_mem_nil, or_false] at he
  rcases he with rfl | rfl | rfl | rfl | rfl
  · trivial
  · trivial
  · trivial
  · exact happends
  · exact hcounts

theorem Built.native {change : Value} (h : Built change) :
    ∃ es, change = .dict es ∧ Native change := by
  induction h with
  | data clientId processedCount appendsByDest forwardedByOutput =>
    exact ⟨_, rfl, native_dataChange clientId processedCount appendsByDest forwardedByOutput⟩
  | flushAck clientId senderId forwardedByOutput =>
    refine ⟨_, rfl, native_obj (by simp) fun e he => ?_⟩
    simp only [List.mem_cons, List.not_mem_nil, or_false] at he
    rcases he with rfl | rfl | rfl | rfl
    · trivial
    · trivial
    · trivial
    · exact native_countsValue forwardedByOutput
  | close clientId => exact ⟨_, rfl, native_closeChange clientId⟩
  | coordinatorUpstreamEof clientId expectedTotal count forwarded =>
    exact ⟨_, rfl, native_coordinatorUpstreamEofChange clientId expectedTotal count forwarded⟩
  | coordinatorMsg msgType clientId ctrl count forwarded =>
    exact ⟨_, rfl, native_coordinatorMsgChange clientId count forwarded msgType ctrl⟩
  | coordinatorCleanup clientId isLeader =>
    exact ⟨_, rfl, by simp [coordinatorCleanupChange, obj, Native, NativeFields]⟩
  | compound changes _ ih =>
    refine ⟨_, rfl, native_compoundChange fun change hm => ?_⟩
    obtain ⟨_, _, hn⟩ := ih change hm
    exact hn

variable (cfg : FilterStateConfig)

/-- `_apply_data`. The texts are those of `data_change`. -/
def applyData (clientId : Nat) (es : Fields) : ApplyM FilterState Unit := do
  let s ← get
  if clientId ∈ s.closedByClient then return
  let processedCount ← es.nat "processed_count"
  let appendsByDest ← es.entriesWith "appends_by_dest" readTexts
  let forwardedByOutput ← es.entriesWith "forwarded_by_output" readCount
  modify fun s =>
    s.applyData cfg clientId processedCount (appendsByDest.mapVals (·.map String.toList))
    forwardedByOutput

/-- `apply_change` on a change that is not compound. -/
def applySingle (es : Fields) : ApplyM FilterState Unit := do
  let kind ← es.text "type"
  let clientId ← es.nat "client_id"
  if kind = "data" then applyData cfg clientId es
  else if kind = "flush_ack" then do
    let senderId ← es.nat "sender_id"
    let forwardedByOutput ← es.entriesWith "forwarded_by_output" readCount
    modify fun s => s.applyFlushAck clientId senderId forwardedByOutput
  else if kind = "close" then modify fun s => s.applyClose clientId
  else if kind = "coordinator_cleanup" then do
    let isLeader ← es.bool "is_leader"
    modify fun s => { s with coordinator :=
      if isLeader then s.coordinator.cleanupLeaderState cfg.coordinator clientId
      else s.coordinator.cleanupClient clientId }
  else do
    let call ← coordinatorCall cfg.coordinator kind clientId es
    modify fun s => { s with coordinator := call s.coordinator }

/-- `FilterState`. -/
def worker : CoordinatedState FilterState FilterSnapshot where
  snapshot := FilterState.snapshot
  restore := FilterState.restore
  applyChange := applyNested (applySingle cfg)
  Built := Built
  config := cfg.coordinator
  coordinator := FilterState.coordinator
  withCoordinator s coordinator := { s with coordinator }

theorem lawful : (worker cfg).Lawful where
  restore_snapshot _ := rfl
  native _ h := Built.native h
  compound := ⟨_, rfl⟩
  upstreamEof s clientId expectedTotal count forwarded := by
    rfl
  eofReceived s clientId ctrl count forwarded := by
    rfl
  called_called s call h := by
    simp only [CoordinatedState.called, worker, h]

/-! ### The records of the changes -/

/-- The dictionary of a `DATA` change with texts. -/
def dataFields (clientId processedCount : Nat) (appendsByDest : Dict String (List (List Char)))
    (forwardedByOutput : Dict String Nat) : List (String × Value) :=
  [("type", .str "data"), ("client_id", .int clientId), ("processed_count", .int processedCount),
    ("appends_by_dest", obj (appendsByDest.entries.map fun e =>
      (e.1, .list (e.2.map fun text => .str (String.ofList text))))),
    ("forwarded_by_output", countsValue forwardedByOutput)]

/-- The dictionary that a record stands for. -/
def toDict : FilterOp → Value
  | .data clientId processedCount appendsByDest forwardedByOutput =>
    obj (dataFields clientId processedCount appendsByDest forwardedByOutput)
  | .flushAck clientId senderId forwardedByOutput =>
    flushAckChange clientId senderId forwardedByOutput
  | .close clientId => closeChange clientId
  | .coordinatorUpstreamEof clientId expectedTotal count forwarded =>
    coordinatorUpstreamEofChange clientId expectedTotal count forwarded
  | .coordinatorMsg msgType clientId ctrl count forwarded =>
    coordinatorMsgChange msgType clientId ctrl count forwarded
  | .coordinatorCleanup clientId isLeader => coordinatorCleanupChange clientId isLeader

def changeToDict : FilterChange → Value
  | .single op => toDict op
  | .compound ops => compoundChange (ops.map toDict)

/-- The record of a `DATA` change is what `data_change` builds. -/
theorem changeToDict_dataChange (clientId processedCount : Nat)
    (appendsByDest : Dict String (List Bytes)) (forwardedByOutput : Dict String Nat) :
    changeToDict (FilterState.dataChange clientId processedCount appendsByDest forwardedByOutput) =
      dataChange clientId processedCount appendsByDest forwardedByOutput := by
  simp [changeToDict, toDict, dataFields, FilterState.dataChange, dataChange,
    Dict.mapVals, b64encode, Function.comp_def]

theorem exec_applyData {es : Fields} {processedCount : Nat}
    {appendsByDest : Dict String (List String)}
    {forwardedByOutput : Dict String Nat} (hn : es.nat "processed_count" = .ok processedCount)
    (ha : es.entriesWith "appends_by_dest" readTexts = .ok appendsByDest)
    (hf : es.entriesWith "forwarded_by_output" readCount = .ok forwardedByOutput) (clientId : Nat)
    (s : FilterState) :
    (applyData cfg clientId es).exec s = (.ok (), s.applyData cfg clientId processedCount
      (appendsByDest.mapVals (·.map String.toList)) forwardedByOutput) := by
  rw [applyData, exec_get_bind]
  by_cases hc : clientId ∈ s.closedByClient
  · rw [if_pos hc, FilterState.applyData, if_pos hc]
    rfl
  · rw [if_neg hc, exec_lift_bind hn, exec_lift_bind ha, exec_lift_bind hf]
    rfl

theorem readTexts_list (texts : List String) :
    readTexts (.list (texts.map Value.str)) = .ok texts := by
  rw [readTexts]
  induction texts with
  | nil => rfl
  | cons text texts ih =>
    rw [List.map_cons, List.mapM_cons, ih]
    rfl

theorem exec_applyData_dataFields (s : FilterState) (clientId processedCount : Nat)
    (appendsByDest : Dict String (List (List Char))) (forwardedByOutput : Dict String Nat) :
    (applyData cfg clientId
      ((dataFields clientId processedCount appendsByDest forwardedByOutput).map fun e =>
      (.str e.1, e.2))).exec s =
        (.ok (), s.applyData cfg clientId processedCount appendsByDest forwardedByOutput) := by
  -- the texts as strings, and back
  have happends : (appendsByDest.mapVals (·.map String.ofList)).entries.map (fun e =>
      (e.1, Value.list (e.2.map Value.str))) =
        appendsByDest.entries.map fun e =>
          (e.1, .list (e.2.map fun text => .str (String.ofList text))) := by
    simp [Dict.mapVals, Function.comp_def]
  have hback : (appendsByDest.mapVals (·.map String.ofList)).mapVals (·.map String.toList) =
      appendsByDest := by
    simp [Dict.mapVals, Function.comp_def]
  refine Eq.trans (exec_applyData cfg rfl ?_ ?_ clientId s) (by rw [hback])
  · refine entriesWith_obj ?_ readTexts_list
    rw [happends]
    rfl
  · exact @entriesWith_obj _ _ _ forwardedByOutput (fun n => .int n) readCount rfl fun _ => rfl

/-- A record does what its dictionary does. -/
theorem live_op (s : FilterState) (op : FilterOp) :
    (applyNested (applySingle cfg) (toDict op)).exec s = (.ok (), s.applyOp cfg op) := by
  cases op with
  | data clientId processedCount appendsByDest forwardedByOutput =>
    exact exec_applyData_dataFields cfg s clientId processedCount appendsByDest forwardedByOutput
  | flushAck clientId senderId forwardedByOutput =>
    exact exec_lift_bind
      (@entriesWith_obj _ _ _ forwardedByOutput (fun n => .int n) readCount rfl fun _ => rfl) _ s
  | close clientId => rfl
  | coordinatorUpstreamEof clientId expectedTotal count forwarded => rfl
  | coordinatorMsg msgType clientId ctrl count forwarded => cases msgType <;> rfl
  | coordinatorCleanup clientId isLeader => rfl

theorem live_toDict (s : FilterState) (change : FilterChange) :
    (worker cfg).live s (changeToDict change) = (.ok (), s.applyChange cfg change) := by
  cases change with
  | single op => exact live_op cfg s op
  | compound ops => exact exec_compoundChange_map (fun s op _ => live_op cfg s op) s

end FilterChanges

/-! ## The sum -/

/-- `SumState.snapshot()`. -/
structure SumSnapshot (π : Type) where
  processedByClient : Dict Nat Nat
  processorsByClient : Dict Nat π
  closedByClient : Finset Nat
  eofCoordinator : CoordinatorSnapshot

namespace SumState

variable {π : Type}

def snapshot (s : SumState π) : SumSnapshot π where
  processedByClient := s.processedByClient
  processorsByClient := s.processorsByClient
  closedByClient := s.closedByClient
  eofCoordinator := s.coordinator.snapshot

def restore (data : SumSnapshot π) : SumState π where
  processedByClient := data.processedByClient
  processorsByClient := data.processorsByClient
  closedByClient := data.closedByClient
  coordinator := .restore data.eofCoordinator

end SumState

namespace SumChanges

variable {π : Type}

section state
variable (config : CoordinatorConfig) (processor : RaisingProcessor π Transaction)

/-- `_apply_data`. -/
def applyData (clientId : Nat) (es : Fields) : ApplyM (SumState π) Unit := do
  let s ← get
  if clientId ∈ s.closedByClient then return
  let payload ← b64decode (← es.text "payload_b64")
  let transactions ← TransactionSerializer.deserializeBatch payload
  ApplyM.onPart (fun s => s.processorsByClient.getD clientId processor.create)
    (fun s part => { s with processorsByClient := s.processorsByClient.set clientId part })
    (forM transactions processor.step)
  modify fun s => { s with processedByClient :=
    s.processedByClient.set clientId (s.processedCount clientId + transactions.length) }

/-- `SumState`. -/
def state : PayloadState (SumState π) (SumSnapshot π) where
  snapshot := SumState.snapshot
  restore := SumState.restore
  restore_snapshot _ := rfl
  payloadKey := "payload_b64"
  config
  coordinator := SumState.coordinator
  withCoordinator s coordinator := { s with coordinator }
  applyData := applyData processor
  applyClose clientId s := s.applyClose clientId
  payloadKey_fresh := by decide
  coordinator_with _ _ := rfl
  with_with _ _ _ := rfl

end state

/-- The processor of a sum worker does not raise. -/
def processorOf (cfg : SumConfig π) : RaisingProcessor π Transaction where
  create := cfg.processor.create
  step := ApplyM.total cfg.processor.process

/-- The text of a batch of transactions. -/
def Reads (text : List Char) : Prop :=
  ∃ payload transactions, Base64.decode text = some payload ∧
    TransactionSerializer.deserializeBatch payload = .ok transactions

theorem models (cfg : SumConfig π) :
    (state cfg.coordinator (processorOf cfg)).Models (SumState.applyOp cfg) Reads where
  data s clientId text hr := by
    obtain ⟨payload, transactions, hpayload, htransactions⟩ := hr
    have hfield : Fields.text
        (((state cfg.coordinator (processorOf cfg)).dataFields clientId text).map fun e =>
        (.str e.1, e.2)) "payload_b64" = .ok (String.ofList text) := rfl
    have hof : SumState.transactionsOf text = transactions := by
      rw [SumState.transactionsOf, hpayload, Option.getD_some, htransactions]
    have hloop : ∀ p : π, ApplyM.exec (forM transactions (processorOf cfg).step) p =
        (.ok (), transactions.foldl cfg.processor.process p) := exec_forM fun _ _ _ => rfl
    change (applyData _ clientId _).exec s = (.ok (), s.applyData cfg clientId text)
    rw [applyData, exec_get_bind, SumState.applyData]
    by_cases hc : clientId ∈ s.closedByClient
    · rw [if_pos hc, if_pos hc]
      rfl
    · rw [if_neg hc, if_neg hc, exec_lift_bind hfield, exec_lift_bind (b64decode_ofList hpayload),
        exec_lift_bind htransactions, exec_onPart_bind (hloop _), hof]
      rfl
  close _ _ := rfl
  upstreamEof _ _ _ _ _ := rfl
  msg _ _ _ _ _ _ := rfl
  cleanup _ _ := rfl

end SumChanges

/-! ## The aggregator -/

/-- `AggregatorState.snapshot()`. -/
structure AggregatorSnapshot (π : Type) where
  dataCountByClient : Dict Nat Nat
  processorsByClient : Dict Nat π
  closedByClient : Finset Nat
  eofCoordinator : CoordinatorSnapshot

namespace AggregatorState

variable {π : Type}

def snapshot (s : AggregatorState π) : AggregatorSnapshot π where
  dataCountByClient := s.dataCountByClient
  processorsByClient := s.processorsByClient
  closedByClient := s.closedByClient
  eofCoordinator := s.coordinator.snapshot

def restore (data : AggregatorSnapshot π) : AggregatorState π where
  dataCountByClient := data.dataCountByClient
  processorsByClient := data.processorsByClient
  closedByClient := data.closedByClient
  coordinator := .restore data.eofCoordinator

end AggregatorState

namespace AggregatorChanges

variable {π : Type}

section state
variable (config : CoordinatorConfig) (processor : RaisingProcessor π Bytes)

/-- `_apply_data`. -/
def applyData (clientId : Nat) (es : Fields) : ApplyM (AggregatorState π) Unit := do
  let s ← get
  if clientId ∈ s.closedByClient then return
  let payload ← b64decode (← es.text "payload")
  ApplyM.onPart (fun s => s.processorsByClient.getD clientId processor.create)
    (fun s part => { s with processorsByClient := s.processorsByClient.set clientId part })
    (processor.step payload)
  modify fun s =>
    { s with dataCountByClient := s.dataCountByClient.set clientId (s.dataCount clientId + 1) }

/-- `AggregatorState`. -/
def state : PayloadState (AggregatorState π) (AggregatorSnapshot π) where
  snapshot := AggregatorState.snapshot
  restore := AggregatorState.restore
  restore_snapshot _ := rfl
  payloadKey := "payload"
  config
  coordinator := AggregatorState.coordinator
  withCoordinator s coordinator := { s with coordinator }
  applyData := applyData processor
  applyClose clientId s := s.applyClose clientId
  payloadKey_fresh := by decide
  coordinator_with _ _ := rfl
  with_with _ _ _ := rfl

end state

/-- The processor of an aggregator does not raise. -/
def processorOf (cfg : AggregatorConfig π) : RaisingProcessor π Bytes where
  create := cfg.processor.create
  step := ApplyM.total cfg.processor.accept

theorem models (cfg : AggregatorConfig π) :
    (state cfg.coordinator (processorOf cfg)).Models (AggregatorState.applyOp cfg)
      fun text => ∃ payload, Base64.decode text = some payload where
  data s clientId text hr := by
    obtain ⟨payload, hpayload⟩ := hr
    have hfield : Fields.text
        (((state cfg.coordinator (processorOf cfg)).dataFields clientId text).map fun e =>
        (.str e.1, e.2)) "payload" = .ok (String.ofList text) := rfl
    have hstep : ∀ p : π, ((processorOf cfg).step payload).exec p =
        (.ok (), cfg.processor.accept p payload) :=
      fun _ => rfl
    change (applyData _ clientId _).exec s = (.ok (), s.applyData cfg clientId text)
    rw [applyData, exec_get_bind, AggregatorState.applyData]
    by_cases hc : clientId ∈ s.closedByClient
    · rw [if_pos hc, if_pos hc]
      rfl
    · rw [if_neg hc, if_neg hc, exec_lift_bind hfield, exec_lift_bind (b64decode_ofList hpayload),
        exec_onPart_bind (hstep _), hpayload]
      rfl
  close _ _ := rfl
  upstreamEof _ _ _ _ _ := rfl
  msg _ _ _ _ _ _ := rfl
  cleanup _ _ := rfl

end AggregatorChanges

/-! ## The filter of Q4 -/

/-- `Q4FilterState.snapshot()`. -/
structure Q4FilterSnapshot where
  statesByClient : Dict Nat (Dict Q4AccountId SourceState)
  forwardedByPartitionByClient : Dict Nat (Dict Nat Nat)
  processedByClient : Dict Nat Nat
  eofCoordinator : CoordinatorSnapshot
  closedByClient : Finset Nat

namespace Q4FilterState

/-- The records of a client are kept in three maps. -/
def snapshot (s : Q4FilterState) : Q4FilterSnapshot where
  statesByClient := s.byClient.mapVals (·.sources)
  forwardedByPartitionByClient := s.byClient.mapVals (·.forwardedByPartition)
  processedByClient := s.byClient.mapVals (·.processed)
  eofCoordinator := s.coordinator.snapshot
  closedByClient := s.closedByClient

/-- The records of a client in a snapshot. -/
def restoreClient (data : Q4FilterSnapshot) (clientId : Nat)
    (sources : Dict Q4AccountId SourceState) : Q4FilterClient where
  sources
  forwardedByPartition := data.forwardedByPartitionByClient.getD clientId ∅
  processed := data.processedByClient.getD clientId 0

def restore (data : Q4FilterSnapshot) : Q4FilterState where
  byClient := .ofList (data.statesByClient.entries.map fun e => (e.1, restoreClient data e.1 e.2))
  coordinator := .restore data.eofCoordinator
  closedByClient := data.closedByClient

theorem restore_snapshot (s : Q4FilterState) : restore s.snapshot = s := by
  have hclients : (s.snapshot.statesByClient.entries.map fun e =>
      (e.1, restoreClient s.snapshot e.1 e.2)) = s.byClient.entries := by
    change ((s.byClient.entries.map fun e => (e.1, e.2.sources)).map fun e =>
      (e.1, restoreClient s.snapshot e.1 e.2)) = _
    rw [List.map_map]
    refine (List.map_congr_left fun e he => ?_).trans (List.map_id _)
    have hget : s.byClient.get? e.1 = some e.2 := Dict.mem_entries_iff.mp he
    simp [restoreClient, snapshot, Dict.getD, Dict.get?_mapVals, hget]
  rw [restore, hclients, Dict.ofList_entries]
  rfl

end Q4FilterState

namespace Q4FilterChanges

section state
variable (config : CoordinatorConfig) (deployment : Q4Config)

/-- A transaction of `_apply_data`. -/
def applyTransaction (tx : Transaction) : ApplyM Q4FilterClient Unit := do
  let edge ← edgeFromTx deployment.unicode tx
  modify fun c => Q4Filter.applyEdge deployment c edge

/-- `_apply_data`. The client's records are created before its first transaction is looked at. -/
def applyData (clientId : Nat) (es : Fields) : ApplyM Q4FilterState Unit := do
  let s ← get
  if clientId ∈ s.closedByClient then return
  let payload ← b64decode (← es.text "payload_b64")
  let transactions ← TransactionSerializer.deserializeBatch payload
  ApplyM.onPart (fun s => s.client clientId) (fun s c =>
    { s with byClient := s.byClient.set clientId c }) do
    forM transactions (applyTransaction deployment)
    modify fun c => { c with processed := c.processed + transactions.length }

/-- `Q4FilterState`. -/
def state : PayloadState Q4FilterState Q4FilterSnapshot where
  snapshot := Q4FilterState.snapshot
  restore := Q4FilterState.restore
  restore_snapshot := Q4FilterState.restore_snapshot
  payloadKey := "payload_b64"
  config
  coordinator := Q4FilterState.coordinator
  withCoordinator s coordinator := { s with coordinator }
  applyData := applyData deployment
  applyClose clientId s := s.applyClose clientId
  payloadKey_fresh := by decide
  coordinator_with _ _ := rfl
  with_with _ _ _ := rfl

end state

/-- Transactions whose banks can be read go through the gates one after another. -/
theorem exec_applyTransactions {deployment : Q4Config} {transactions : List Transaction}
    {edges : List Q4TransactionEdge}
    (h : transactions.mapM (edgeFromTx deployment.unicode) = .ok edges) (c : Q4FilterClient) :
    ApplyM.exec (forM transactions (applyTransaction deployment)) c =
      (.ok (), edges.foldl (Q4Filter.applyEdge deployment) c) := by
  induction transactions generalizing edges c with
  | nil =>
    cases Except.ok.inj h
    rfl
  | cons tx transactions ih =>
    rw [List.mapM_cons] at h
    obtain ⟨edge, hedge, h⟩ := Except.ok_of_bind h
    obtain ⟨edges, hedges, h⟩ := Except.ok_of_bind h
    cases Except.ok.inj h
    have hrun : (applyTransaction deployment tx).run.run c =
        (.ok (), Q4Filter.applyEdge deployment c edge) := by
      change (applyTransaction deployment tx).exec c = _
      rw [applyTransaction, exec_lift_bind hedge]
      rfl
    rw [List.forM_cons, exec_bind, hrun]
    exact ih hedges _

theorem processed_foldl_applyEdge (deployment : Q4Config) (edges : List Q4TransactionEdge)
    (c : Q4FilterClient) :
    (edges.foldl (Q4Filter.applyEdge deployment) c).processed = c.processed := by
  induction edges generalizing c with
  | nil => rfl
  | cons edge edges ih =>
    rw [List.foldl_cons, ih]
    rfl

theorem models (cfg : Q4FilterConfig) :
    (state cfg.coordinator cfg.deployment).Models (Q4FilterState.applyOp cfg)
      fun text => ∃ payload edges, Base64.decode text = some payload ∧
      cfg.edgesOf payload = .ok edges where
  data s clientId text hr := by
    obtain ⟨payload, edges, hpayload, hedges⟩ := hr
    obtain ⟨transactions, htransactions, hmap⟩ := Except.ok_of_bind hedges
    have hfield :
        Fields.text (((state cfg.coordinator cfg.deployment).dataFields clientId text).map fun e =>
        (.str e.1, e.2)) "payload_b64" = .ok (String.ofList text) := rfl
    have hlength := (Except.forall₂_of_mapM hmap).length_eq
    have hloop : ∀ c : Q4FilterClient, ApplyM.exec (do
        forM transactions (applyTransaction cfg.deployment)
        modify fun c => { c with processed := c.processed + transactions.length }) c =
          (.ok (), Q4Filter.applyData cfg.deployment c edges) := by
      intro c
      have hrun : (forM transactions (applyTransaction cfg.deployment)).run.run c =
        (.ok (), edges.foldl (Q4Filter.applyEdge cfg.deployment) c) := exec_applyTransactions hmap c
      rw [exec_bind, hrun, Q4Filter.applyData, ← processed_foldl_applyEdge cfg.deployment edges c,
        ← hlength]
      rfl
    change (applyData _ clientId _).exec s = (.ok (), s.applyData cfg clientId text)
    rw [applyData, exec_get_bind, Q4FilterState.applyData]
    by_cases hc : clientId ∈ s.closedByClient
    · rw [if_pos hc, if_pos hc]
      rfl
    · rw [if_neg hc, if_neg hc, exec_lift_bind hfield, exec_lift_bind (b64decode_ofList hpayload),
        exec_lift_bind htransactions, hpayload, Option.getD_some, hedges]
      exact exec_onPart (hloop _)
  close _ _ := rfl
  upstreamEof _ _ _ _ _ := rfl
  msg _ _ _ _ _ _ := rfl
  cleanup _ _ := rfl

end Q4FilterChanges

/-! ## The joiner of bank names -/

/-- `BankNameJoinerState.snapshot()`. -/
structure BankNameJoinerSnapshot where
  states : Dict Nat JoinerClient
  closedByClient : Finset Nat

namespace BankNameJoinerState

def snapshot (s : BankNameJoinerState) : BankNameJoinerSnapshot where
  states := s.states
  closedByClient := s.closedByClient

def restore (data : BankNameJoinerSnapshot) : BankNameJoinerState where
  states := data.states
  closedByClient := data.closedByClient

end BankNameJoinerState

namespace JoinerChanges

/-- `q2_data_change`: the payload is base64. -/
def q2DataChange (clientId : Nat) (payload : Bytes) : Value :=
  obj [("type", .str "q2_data"), ("client_id", .int clientId),
    ("payload_b64", .str (b64encode payload))]

/-- `q2_eof_change`. -/
def q2EofChange (clientId expectedTotal : Nat) : Value :=
  obj [("type", .str "q2_eof"), ("client_id", .int clientId),
    ("expected_total", .int expectedTotal)]

def accountsDataFields (clientId : Nat) (mappings : List (String × String)) :
    List (String × Value) :=
  [("type", .str "accounts_data"), ("client_id", .int clientId),
    ("mappings", .list (mappings.map fun mapping => .list [.str mapping.1, .str mapping.2]))]

/-- `accounts_data_change`: a pair becomes a list. -/
def accountsDataChange (clientId : Nat) (mappings : List (String × String)) : Value :=
  obj (accountsDataFields clientId mappings)

/-- `accounts_eof_change`. -/
def accountsEofChange (clientId expectedTotal : Nat) : Value :=
  obj [("type", .str "accounts_eof"), ("client_id", .int clientId),
    ("expected_total", .int expectedTotal)]

/-- What the constructors of `BankNameJoinerState` build. `abort_change` is `close_change`. -/
inductive Built : Value → Prop where
  | q2Data (clientId : Nat) (payload : Bytes) : Built (q2DataChange clientId payload)
  | q2Eof (clientId expectedTotal : Nat) : Built (q2EofChange clientId expectedTotal)
  | accountsData (clientId : Nat) (mappings : List (String × String)) :
      Built (accountsDataChange clientId mappings)
  | accountsEof (clientId expectedTotal : Nat) : Built (accountsEofChange clientId expectedTotal)
  | close (clientId : Nat) : Built (closeChange clientId)

theorem Built.native {change : Value} (h : Built change) :
    ∃ es, change = .dict es ∧ Native change := by
  cases h with
  | q2Data clientId payload => exact ⟨_, rfl, by simp [q2DataChange, obj, Native, NativeFields]⟩
  | q2Eof clientId expectedTotal => exact ⟨_, rfl, by simp [q2EofChange, obj, Native, NativeFields]⟩
  | accountsData clientId mappings =>
    refine ⟨_, rfl, native_obj (by simp [accountsDataFields]) fun e he => ?_⟩
    simp only [accountsDataFields, List.mem_cons, List.not_mem_nil, or_false] at he
    rcases he with rfl | rfl | rfl
    · trivial
    · trivial
    · refine nativeItems_iff.mpr fun v hv => ?_
      obtain ⟨mapping, -, rfl⟩ := List.mem_map.mp hv
      simp [Native, NativeItems]
  | accountsEof clientId expectedTotal =>
    exact ⟨_, rfl, by simp [accountsEofChange, obj, Native, NativeFields]⟩
  | close clientId => exact ⟨_, rfl, native_closeChange clientId⟩

/-- `bank_id, bank_name` of an entry of the mappings. -/
def readMapping : Value → Except String (String × String)
  | .list [.str bankId, .str bankName] => .ok (bankId, bankName)
  | _ => .error "TypeError"

def readMappings (es : Fields) : Except String (List (String × String)) := do
  (← es.items "mappings").mapM readMapping

variable (cfg : BankNameJoinerConfig)

/-- `_apply_q2_data`. -/
def applyQ2Data (clientId : Nat) (es : Fields) : ApplyM BankNameJoinerState Unit := do
  let s ← get
  if clientId ∈ s.closedByClient then return
  let p ← BankNameJoiner.q2Partial cfg (← es.text "payload_b64").toList
  modify fun s => BankNameJoiner.updateOpen s clientId fun state =>
    BankNameJoiner.addQ2Result state p

/-- `_apply_accounts_data`. -/
def applyAccountsData (clientId : Nat) (es : Fields) : ApplyM BankNameJoinerState Unit := do
  let s ← get
  if clientId ∈ s.closedByClient then return
  let mappings ← readMappings es
  modify fun s => BankNameJoiner.updateOpen s clientId fun state =>
    BankNameJoiner.addAccounts state mappings

/-- `_apply_q2_eof` and `_apply_accounts_eof`. -/
def applyEof (clientId : Nat) (setTotal : Nat → JoinerClient → JoinerClient) (es : Fields) :
    ApplyM BankNameJoinerState Unit := do
  let s ← get
  if clientId ∈ s.closedByClient then return
  let expectedTotal ← es.nat "expected_total"
  modify fun s => BankNameJoiner.updateOpen s clientId (setTotal expectedTotal)

/-- `apply_change`. -/
def applyChange (change : Value) : ApplyM BankNameJoinerState Unit :=
  match change with
  | .dict es => do
    let kind ← Fields.text es "type"
    let clientId ← Fields.nat es "client_id"
    if kind = "q2_data" then applyQ2Data cfg clientId es
    else if kind = "q2_eof" then
      applyEof clientId (fun total state => { state with q2ExpectedTotal := some total }) es
    else if kind = "accounts_data" then applyAccountsData clientId es
    else if kind = "accounts_eof" then
      applyEof clientId (fun total state => { state with accountsExpectedTotal := some total }) es
    else if kind = "close" then
      modify fun s =>
        { states := s.states.erase clientId
          closedByClient := insert clientId s.closedByClient }
    else throw s!"unknown change type: {kind}"
  | _ => throw "TypeError"

/-- `BankNameJoinerState`. -/
def worker : DictState BankNameJoinerState BankNameJoinerSnapshot where
  snapshot := BankNameJoinerState.snapshot
  restore := BankNameJoinerState.restore
  applyChange := applyChange cfg
  Built := Built

theorem lawful : (worker cfg).Lawful where
  restore_snapshot _ := rfl
  native _ h := h.native

/-- The dictionary that a record stands for. -/
def toDict : JoinerChange → Value
  | .q2Data clientId text =>
    obj [("type", .str "q2_data"), ("client_id", .int clientId),
      ("payload_b64", .str (String.ofList text))]
  | .q2Eof clientId expectedTotal => q2EofChange clientId expectedTotal
  | .accountsData clientId mappings => accountsDataChange clientId mappings
  | .accountsEof clientId expectedTotal => accountsEofChange clientId expectedTotal
  | .close clientId => closeChange clientId

theorem readMappings_accountsDataChange (clientId : Nat) (mappings : List (String × String)) :
    readMappings (.map (fun e => (.str e.1, e.2)) (accountsDataFields clientId mappings)) =
      .ok mappings := by
  change (mappings.map fun mapping => Value.list [.str mapping.1, .str mapping.2]).mapM
    readMapping = _
  induction mappings with
  | nil => rfl
  | cons mapping mappings ih =>
    rw [List.map_cons, List.mapM_cons, ih]
    rfl

/-- A closed client is left alone. -/
theorem updateOpen_of_closed {s : BankNameJoinerState} {clientId : Nat}
    (h : clientId ∈ s.closedByClient)
    (f : JoinerClient → JoinerClient) : BankNameJoiner.updateOpen s clientId f = s := if_pos h

theorem exec_applyEof (s : BankNameJoinerState) (clientId : Nat)
    {setTotal : Nat → JoinerClient → JoinerClient}
    {es : Fields} {total : Nat} (h : es.nat "expected_total" = .ok total) :
    (applyEof clientId setTotal es).exec s =
      (.ok (), BankNameJoiner.updateOpen s clientId (setTotal total)) := by
  rw [applyEof, exec_get_bind]
  by_cases hc : clientId ∈ s.closedByClient
  · rw [if_pos hc, updateOpen_of_closed hc]
    rfl
  · rw [if_neg hc, exec_lift_bind h]
    rfl

theorem exec_applyAccountsData (s : BankNameJoinerState) (clientId : Nat) {es : Fields}
    {mappings : List (String × String)} (h : readMappings es = .ok mappings) :
    (applyAccountsData clientId es).exec s =
      (.ok (), BankNameJoiner.updateOpen s clientId fun state =>
        BankNameJoiner.addAccounts state mappings) := by
  rw [applyAccountsData, exec_get_bind]
  by_cases hc : clientId ∈ s.closedByClient
  · rw [if_pos hc, updateOpen_of_closed hc]
    rfl
  · rw [if_neg hc, exec_lift_bind h]
    rfl

theorem exec_applyQ2Data (s : BankNameJoinerState) (clientId : Nat) {es : Fields} {text : String}
    {p : Q2BankMaxPartial} (ht : es.text "payload_b64" = .ok text)
    (hp : BankNameJoiner.q2Partial cfg text.toList = .ok p) :
    (applyQ2Data cfg clientId es).exec s =
      (.ok (), BankNameJoiner.updateOpen s clientId fun state =>
        BankNameJoiner.addQ2Result state p) := by
  rw [applyQ2Data, exec_get_bind]
  by_cases hc : clientId ∈ s.closedByClient
  · rw [if_pos hc, updateOpen_of_closed hc]
    rfl
  · rw [if_neg hc, exec_lift_bind ht, exec_lift_bind hp]
    rfl

/-- The payload of a closed client is not looked at. -/
theorem exec_applyQ2Data_of_closed {s : BankNameJoinerState} {clientId : Nat} (es : Fields)
    (hc : clientId ∈ s.closedByClient) : (applyQ2Data cfg clientId es).exec s = (.ok (), s) := by
  rw [applyQ2Data, exec_get_bind, if_pos hc]
  rfl

/-- A record that is applied without raising does what its dictionary does. -/
theorem live_toDict {s s' : BankNameJoinerState} {change : JoinerChange}
    (h : BankNameJoiner.applyChange cfg s change = .ok s') :
    (worker cfg).live s (toDict change) = (.ok (), s') := by
  cases change with
  | q2Data clientId text =>
    rw [BankNameJoiner.applyChange] at h
    by_cases hc : clientId ∈ s.closedByClient
    · rw [if_pos hc] at h
      cases h
      exact exec_applyQ2Data_of_closed cfg _ hc
    · rw [if_neg hc] at h
      obtain ⟨p, hp, h⟩ := Except.ok_of_bind h
      cases Except.ok.inj h
      exact exec_applyQ2Data cfg s clientId rfl (by rwa [String.toList_ofList])
  | q2Eof clientId expectedTotal =>
    cases h
    exact exec_applyEof s clientId rfl
  | accountsData clientId mappings =>
    cases h
    exact exec_applyAccountsData s clientId (readMappings_accountsDataChange clientId mappings)
  | accountsEof clientId expectedTotal =>
    cases h
    exact exec_applyEof s clientId rfl
  | close clientId =>
    cases h
    rfl

end JoinerChanges

/-! ## Every worker -/

/-- Replay equals live: for every worker, whatever its state, its coordinator and its processor, a
change that comes back from the log does to a restored state what it did to the live one, and where
the live coordinator had been called before, the second call changes nothing. -/
theorem replay_equals_live :
    (∀ cfg, (FilterChanges.worker cfg).ReplayEqualsLive) ∧
    (∀ (π : Type) config (processor : RaisingProcessor π Transaction),
      (SumChanges.state config processor).worker.ReplayEqualsLive) ∧
    (∀ (π : Type) config (processor : RaisingProcessor π Bytes),
      (AggregatorChanges.state config processor).worker.ReplayEqualsLive) ∧
    (∀ config deployment, (Q4FilterChanges.state config deployment).worker.ReplayEqualsLive) ∧
    ∀ cfg s change, JoinerChanges.Built change →
    (JoinerChanges.worker cfg).ReplaysAs change s s := by
  refine ⟨fun cfg => (FilterChanges.lawful cfg).replayEqualsLive, ?_, ?_, ?_, ?_⟩
  · exact fun π config processor => (SumChanges.state config processor).lawful.replayEqualsLive
  · exact fun π config processor =>
      (AggregatorChanges.state config processor).lawful.replayEqualsLive
  · exact fun config deployment => (Q4FilterChanges.state config deployment).lawful.replayEqualsLive
  · exact fun cfg s change hc => (JoinerChanges.lawful cfg).replaysAs hc rfl

end MoneyLaundering
