import MoneyLaundering.Eof.Coordinator
import MoneyLaundering.FaultTolerance.Consumer

/-!
# What workers with a coordinator share

The sum, the aggregator and filter_q5_usd log the same changes around an `EofCoordinator`, apart
from what a `DATA` message brings, and read the same three queues.
-/

namespace MoneyLaundering

open InternalProtocol

/-- One change of a worker state, apart from a bundle of them; `δ` is what a `DATA` change
carries. -/
inductive WorkerOp (δ : Type) where
  | data (clientId : Nat) (content : δ)
  | close (clientId : Nat)
  | coordinatorUpstreamEof (clientId expectedTotal count forwarded : Nat)
  | coordinatorMsg (msgType : MessageType) (clientId : Nat) (ctrl : ControlMessage)
      (count forwarded : Nat)
  | coordinatorCleanup (clientId : Nat)
  deriving DecidableEq

/-- A change of a worker state. The workers bundle single changes only. -/
inductive WorkerChange (δ : Type) where
  | single (op : WorkerOp δ)
  | compound (changes : List (WorkerOp δ))
  deriving DecidableEq

namespace WorkerChange

variable {δ : Type}

def ops : WorkerChange δ → List (WorkerOp δ)
  | single op => [op]
  | compound changes => changes

/-- `abort_change`. -/
def abort (clientId : Nat) : WorkerChange δ :=
  .compound [.coordinatorCleanup clientId, .close clientId]

end WorkerChange

/-- What `apply_change` does to the coordinator. -/
def WorkerOp.applyCoordinator {δ : Type} (cfg : CoordinatorConfig) (s : EofCoordinator) :
    WorkerOp δ → EofCoordinator
  | .data .. | .close .. => s
  | .coordinatorUpstreamEof clientId expectedTotal count forwarded =>
    (s.onUpstreamEof cfg clientId expectedTotal count forwarded).1
  | .coordinatorMsg msgType clientId ctrl count forwarded =>
    (s.processControlMessage cfg msgType clientId ctrl count forwarded).1
  | .coordinatorCleanup clientId => s.cleanupClient clientId

/-- A message on one of the three queues of a replica. -/
inductive WorkerDelivery where
  | input (body : Bytes)
  | control (body : Bytes)
  | response (body : Bytes)
  deriving DecidableEq

/-- `parse_message`: message type, client and control message. A number that is no `MessageType` is
no type that a worker expects. -/
def EofCoordinator.parseMessage (body : Bytes) :
    Except String (Option MessageType × Nat × ControlMessage) := do
  let (msgType, clientId, payload) ← unpackPacket body
  let ctrl ← ControlMessage.deserialize payload
  return (MessageType.ofNat? msgType, clientId, ctrl)

/-- The packet behind a control message of a known type. -/
theorem EofCoordinator.unpacked_of_parseMessage {body : Bytes} {msgType : MessageType}
    {clientId : Nat}
    {ctrl : ControlMessage} (h : parseMessage body = .ok (some msgType, clientId, ctrl)) :
    ∃ payload, unpackPacket body = .ok (msgType.toNat, clientId, payload) ∧
      ControlMessage.deserialize payload = .ok ctrl := by
  unfold parseMessage at h
  obtain ⟨⟨t, c, payload⟩, hu, h⟩ := Except.ok_of_bind h
  obtain ⟨ctrl', hd, h⟩ := Except.ok_of_bind h
  obtain ⟨ht, hc⟩ := Prod.mk.inj (Except.ok.inj h)
  cases hc
  rw [← MessageType.toNat_of_ofNat? ht] at hu
  exact ⟨payload, hu, hd⟩

/-- The first byte of a control message is its type. -/
theorem EofCoordinator.first_of_parseMessage {body : Bytes} {msgType : MessageType} {clientId : Nat}
    {ctrl : ControlMessage}
    (h : parseMessage body = .ok (some msgType, clientId, ctrl)) :
    Bytes.beDecode (body.take 1) = msgType.toNat := by
  obtain ⟨⟨t, c, payload⟩, hu, h⟩ := Except.ok_of_bind h
  obtain ⟨ctrl', -, h⟩ := Except.ok_of_bind h
  simp only [pure, Except.pure, Except.ok.injEq, Prod.mk.injEq] at h
  rw [← msgType_of_unpackPacket hu]
  exact (MessageType.toNat_of_ofNat? h.1).symm

/-- A control message is read as it was made. -/
theorem EofCoordinator.parseMessage_toBytes {p : ControlPacket} {body : Bytes}
    (h : p.toBytes = .ok body) :
    parseMessage body = .ok (some p.msgType, p.clientId, p.ctrl) := by
  obtain ⟨payload, hs, h⟩ := Except.ok_of_bind h
  rw [EofCoordinator.parseMessage, unpackPacket_createPacket h, Except.ok_bind]
  dsimp only
  rw [ControlMessage.deserialize_serialize hs, Except.ok_bind, MessageType.ofNat?_toNat]
  rfl

/-- `build_flush_ack`. -/
def EofCoordinator.buildFlushAck (cfg : CoordinatorConfig) (clientId forwarded : Nat) :
    ControlPacket where
  msgType := .flushAck
  clientId := clientId
  ctrl := { senderId := cfg.instanceId, expectedTotal := 0, processedCount := forwarded }

/-- The outputs of an action that goes through the outbox. -/
def actionOutputs : CoordinatorAction → Except String (List LogicalOutput)
  | .sendAnswer queueName message => do
    let body ← message.toBytes
    return [{ destination := queueName, body }]
  | .broadcast queueNames message _ => do
    let body ← message.toBytes
    return queueNames.map fun queueName => { destination := queueName, body }
  | .flush .. => .ok []

/-- A coordinator call outside the log, with the packets it sends. -/
def Reaction.ofAction {σ Δ : Type} (touched : σ) : Option CoordinatorAction → Reaction σ Δ
  | none => .direct touched []
  | some action =>
    match actionOutputs action with
    | .error _ => .refuse
    | .ok outputs => .direct touched (outputs.map fun output => (output.destination, output.body))

/-- The message ids of the sum and the aggregator. The kinds that they do not handle are
numbered. -/
def coordinatedTags : MsgIdTags where
  tag
    | .data => [['d']]
    | .abort => ["abort".toList]
    | .ctrlEofReceived => [['e', 'r']]
    | .ctrlFlushOrder => [['f', 'o']]
    | .ctrlFlushAck => [['f', 'a']]
    | kind => [Text.ofNat kind.toNat]
  noColon := by intro kind; cases kind <;> decide
  prefixFree := by intro a b; cases a <;> cases b <;> decide

/-- `f"{name}_{ID}"`, the node id of a worker. -/
def workerNodeId (name : String) (id : Nat) : String :=
  String.ofList (name.toList ++ '_' :: Text.ofNat id)

theorem workerNodeId_noColon {name : String} (h : ':' ∉ name.toList) (id : Nat) :
    ':' ∉ (workerNodeId name id).toList := by
  have hn : ':' ∉ Text.ofNat id := Text.not_mem_ofNat (by decide) _
  rw [workerNodeId, String.toList_ofList]
  simp only [List.mem_append, List.mem_cons, not_or]
  exact ⟨h, by decide, hn⟩

end MoneyLaundering
