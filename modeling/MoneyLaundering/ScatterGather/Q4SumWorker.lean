import MoneyLaundering.Eof.WorkerChange
import MoneyLaundering.FaultTolerance.OutputIds
import MoneyLaundering.FaultTolerance.Runner
import MoneyLaundering.ScatterGather.FanInState
import MoneyLaundering.ScatterGather.Q4Sum
import MoneyLaundering.ScatterGather.RecordFormats

/-!
# The durable worker of `q4_sum`

`Q4SumWorker` (`q4_sum/sums.py`) over its logged state. `DATA` and `ABORT` go through the runner;
the handler of an upstream `EOF` predicts whether it is the last one and bundles the `eof` change
with the `close` then.

A run shows what is handed to the publishers, by a handler or by the recovery after a crash, and
which `EOF`s a handler took.
-/

namespace MoneyLaundering

open Bytes InternalProtocol

/-- `Q4SumState`. -/
abbrev Q4SumState := FanInState Q4SumClient

/-- The environment of a q4_sum worker. -/
structure Q4SumConfig where
  deployment : Q4Config
  id : Nat
  snapshotInterval : Nat
  sha256 : Bytes → Bytes
  changeJson : StateChangeCodec FanInChange

/-- `Q4_JOINER_EDGE`. -/
def q4JoinerEdge : String := "q4_joiner"

namespace Q4SumConfig

variable (cfg : Q4SumConfig)

/-- The stage with the format of its input. -/
def stage : WireStage Q4CountedEdge Q4SumClient (Output Q4BlockJoinEdge) where
  toStage := Q4Sum.stage cfg.deployment cfg.id
  readBatch := Q4CountedEdge.deserializeBatch

/-- `_packet`, for a partition of the q4_joiner stage. -/
def joinerOutput (msgType : MessageType) (clientId partition : Nat) (payload : Bytes) :
    Except String LogicalOutput := do
  let body ← createPacket msgType.toNat clientId payload
  return { destination := q4JoinerEdge, body, shard := some partition }

/-- The packet of an output of the stage. -/
def outputPacket (clientId : Nat) (output : Output Q4BlockJoinEdge) : Except String LogicalOutput :=
  match output.body with
  | .data batch => do
    joinerOutput .data clientId output.shard (← Q4BlockJoinEdge.serializeBatch batch)
  | .eof control => do
    joinerOutput .eof clientId output.shard (← control.serialize)

/-- `_build_flush_outputs`, of a client's record. -/
def buildFlushOutputs (client : Q4SumClient) (clientId : Nat) :
    Except String (List LogicalOutput) :=
  (Q4Sum.buildFlushOutputs cfg.deployment cfg.id client).mapM (outputPacket clientId)

/-- `_data_process_payload`. -/
def dataProcessPayload (clientId : Nat) (payload : Bytes) : BusinessFn Q4SumState FanInChange :=
  fun _ =>
  .ok (FanInState.dataChange clientId payload, [])

/-- `_abort_fn`. -/
def abortFn (clientId : Nat) : BusinessFn Q4SumState FanInChange := fun _ => do
  let outputs ← (List.range cfg.deployment.joinerAmount).mapM fun partition =>
    joinerOutput .abort clientId partition []
  return (.single (.close clientId), outputs)

/-- `bfn` of `_handle_eof`. -/
def eofBusiness (clientId upstreamId : Nat)
    (completes : Bool) : BusinessFn Q4SumState FanInChange := fun s => do
  if completes then
    let outputs ← cfg.buildFlushOutputs (s.client cfg.stage clientId) clientId
    return (.compound [.eof clientId upstreamId, .close clientId], outputs)
  return (.single (.eof clientId upstreamId), [])

/-- The runner of the worker, with its durable handler. -/
def runner : RunnerConfig Q4SumState Q4SumState FanInChange where
  nodeId := workerNodeId "q4_sum" cfg.id
  nodeId_noColon := workerNodeId_noColon (by decide) _
  edges := Dict.ofList [(q4JoinerEdge, ⟨cfg.id, cfg.deployment.joinerAmount⟩)]
  sha256 := cfg.sha256
  worker := ⟨FanInState.init cfg.stage, fun s => s, fun s =>
    s, FanInState.applyChange cfg.stage, fun _ => rfl⟩
  json := cfg.changeJson
  snapshotEvery := cfg.snapshotInterval
  processPayload := dataProcessPayload
  abortFn := some cfg.abortFn
  publishers := [q4JoinerEdge]

abbrev handler : HandlerConfig Q4SumState Q4SumState FanInChange := cfg.runner.handler

/-! ## The message handlers -/

/-- What a message handler does while it holds the lock. -/
inductive Reaction where
  /-- It raises: a nack. -/
  | refuse
  /-- It acks the message. -/
  | skip
  /-- It calls `handle`. -/
  | handle (key : InputKey) (businessFn : BusinessFn Q4SumState FanInChange)

/-- The input that an addressed packet is. -/
def inputOf (m : Addressed) : InputKey := ⟨m.clientId, .data, m.senderId, m.seq⟩

/-- An upstream `EOF` and the worker that it names. -/
def readEof (raw : Bytes) : Except String (Addressed × Nat) := do
  let m ← unpackAddressedPacket raw
  let ctrl ← ControlMessage.deserialize m.payload
  return (m, ctrl.senderId)

/-- `_handle_eof`, up to `handle`. -/
def handleEof (h : Handler Q4SumState) (raw : Bytes) : Reaction :=
  match readEof raw with
  | .error _ => .refuse
  | .ok (m, upstreamId) =>
    if h.workerState.isClosed m.clientId ∧ h.inbox.classify (inputOf m) ≠ .applied then .skip
    else .handle (inputOf m)
      (cfg.eofBusiness m.clientId upstreamId
        (h.workerState.eofCounter.wouldFlush m.clientId upstreamId))

/-- `WorkerRunner.process`, up to `handle`. -/
def process (raw : Bytes) : Reaction :=
  match Runner.callFor cfg.runner raw with
  | none => .refuse
  | some (key, businessFn) => .handle key businessFn

/-- `_on_message`. -/
def onMessage (h : Handler Q4SumState) (raw : Bytes) : Reaction :=
  match raw with
  | [] => .refuse
  | msgType :: _ =>
    match MessageType.ofNat? msgType.toNat with
    | some .data | some .abort => cfg.process raw
    | some .eof => cfg.handleEof h raw
    | _ => .refuse

end Q4SumConfig

/-! ## Runs -/

namespace Q4SumWorker

open Q4SumConfig

/-- A worker with its disk. `issued` is what it handed to the publishers, each output with its
client and the message id it is stored under; `taken` are the `EOF`s that a handler did not refuse,
by client and upstream worker. -/
structure State where
  node : Node Q4SumState Q4SumState FanInChange
  issued : List (Nat × String × OutboxEntry) := []
  taken : List (Nat × Nat) := []

/-- What can happen: a message is delivered, for the first time or again, `commit_done` follows the
publication of the outputs of an input, or the process dies. Every step may end in a failed append
or in a crash and the recovery from it. -/
inductive Label where
  | deliver (raw : Bytes) (outcome : Outcome)
  | commit (key : InputKey) (outcome : Outcome)
  | crash

variable (cfg : Q4SumConfig)

def init : State where
  node := Node.init cfg.handler

/-- What an instruction hands to the publishers. -/
def issuedBy : WorkerLoopInstruction → List (Nat × String × OutboxEntry)
  | .ack => []
  | .publishThenCommit outputs msgId key => outputs.map fun entry => (key.clientId, msgId, entry)

/-- The client and the worker that an `EOF` names. -/
def eofOf (raw : Bytes) : List (Nat × Nat) :=
  match raw with
  | [] => []
  | msgType :: _ =>
    if msgType.toNat = MessageType.eof.toNat then
      match readEof raw with
      | .ok (m, upstreamId) => [(m.clientId, upstreamId)]
      | .error _ => []
    else []

/-- The process died and recovered this node: it publishes what the outbox holds. -/
def restarted (s : State) (node : Node Q4SumState Q4SumState FanInChange) : State :=
  { s with
    node
    issued := s.issued ++ Runner.labelledPending node.handler.outbox }

/-- A call of the durable handler, with its end; `taken` are the `EOF`s that it takes when it
returns. -/
def call (s : State) (c : Call Q4SumState FanInChange) (outcome : Outcome)
    (taken : List (Nat × Nat)) :
    Option State :=
  match s.node.exec cfg.handler (outcome.event c) with
  | .error _ => none
  | .ok node =>
    match outcome with
    | .crashes _ => some (restarted s node)
    | outcome =>
      match s.node.effect cfg.handler outcome.write c with
      | .error _ => some { s with node }
      | .ok effect => some {
          node
          issued := s.issued ++ issuedBy effect.instruction
          taken := s.taken ++ taken }

/-- One step, `none` when it is not enabled. -/
def exec (s : State) : Label → Option State
  | .deliver raw outcome =>
    match cfg.onMessage s.node.handler raw with
    | .refuse => some s
    | .skip => some { s with taken := s.taken ++ eofOf raw }
    | .handle key businessFn => call cfg s (.handle key businessFn) outcome (eofOf raw)
  | .commit key outcome =>
    if appliedRecords s.node.history key = [] then none
    else call cfg s (.commitDone key) outcome []
  | .crash => call cfg s .snapshotNow (.crashes 0) []

end Q4SumWorker

end MoneyLaundering
