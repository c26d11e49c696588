import MoneyLaundering.Lib.Dict
import MoneyLaundering.Lib.Transition
import MoneyLaundering.MessageProtocol

/-!
# The result consumers of the gateway

`Gateway._run_result_consumer` and the session bookkeeping of `_serve_client`
(`gateway/gateway.py`). Each configured query has a consumer thread. A callback takes its decisions
under `_client_queues_lock` and puts its lines after it released the lock, so the puts of five
callbacks interleave freely.
-/

namespace MoneyLaundering

open InternalProtocol

/-- The five result queues. -/
inductive Query where
  | q1 | q2 | q3 | q4 | q5
  deriving DecidableEq, Repr

namespace Query

def all : List Query := [q1, q2, q3, q4, q5]

/-- The `prefix` that `run` gives to the consumer of a query. -/
def prefixOf : Query → String
  | q1 => ""
  | q2 => "Q2|"
  | q3 => "Q3|"
  | q4 => "Q4|"
  | q5 => "Q5|"

/-- Whether `run` starts the consumer with `addressed=True`. -/
def addressed : Query → Bool
  | q1 | q3 => false
  | q2 | q4 | q5 => true

@[simp] theorem mem_all (q : Query) : q ∈ all := by cases q <;> decide

theorem nodup_all : all.Nodup := by decide

theorem prefixOf_injective : Function.Injective prefixOf := by
  intro a b h
  cases a <;> cases b <;> first | rfl | exact absurd h (by decide)

end Query

/-- The environment of the gateway: the queue names and the `payload_to_csv_lines` of each query. A
generator that raises has yielded its first lines; the flag tells whether it came to its end. -/
structure GatewayConfig where
  queueName : Query → Option String
  payloadToCsvLines : Query → Bytes → List String × Bool

namespace GatewayConfig

/-- `bool(queue_name)`. -/
def configured (cfg : GatewayConfig) (q : Query) : Bool :=
  match cfg.queueName q with
  | none => false
  | some name => decide (name ≠ "")

/-- `_num_result_queues`. -/
def numResultQueues (cfg : GatewayConfig) : Nat := (Query.all.filter cfg.configured).length

end GatewayConfig

/-- `_q5_csv_lines`: the count, as `AggregationSerializer` packs it. -/
def q5CsvLines (payload : Bytes) : List String × Bool :=
  if payload.length = 8 then ([toString (Bytes.beDecode payload)], true) else ([], false)

/-- What a client queue holds: a CSV line or the `None` that ends the results. -/
inductive QueueItem where
  | line (text : String)
  | endOfResults
  deriving DecidableEq

/-- A key of `_addressed_result_seen`. -/
structure ResultKey where
  queryPrefix : String
  clientId : Nat
  senderId : Nat
  seq : Nat
  deriving DecidableEq

/-- A result message as `unpack_addressed_packet` or `unpack_packet` gives it. -/
structure UnpackedResult where
  msgType : Nat
  clientId : Nat
  address : Option (Nat × Nat)
  payload : Bytes

def unpackResult (q : Query) (message : Bytes) : Except String UnpackedResult :=
  if q.addressed then do
    let m ← unpackAddressedPacket message
    return ⟨m.msgType, m.clientId, some (m.senderId, m.seq), m.payload⟩
  else do
    let (msgType, clientId, payload) ← unpackPacket message
    return ⟨msgType, clientId, none, payload⟩

/-- A callback that has released the lock: the queue object it got, the puts it has left, and
whether it ends with an ack. -/
structure ResultTask where
  queue : Nat
  puts : List QueueItem
  acks : Bool

/-- The state the consumer threads and the client threads share. A queue object is named by its
place in `queues`, which holds everything put into it so far. -/
structure Gateway where
  clientQueues : Dict Nat Nat := ∅
  queues : List (List QueueItem) := []
  pendingEofsByClient : Dict Nat Int := ∅
  addressedResultSeen : List ResultKey := []
  tasks : Query → Option ResultTask := fun _ => none
  settled : List (Query × Bool) := []

namespace Gateway

variable (cfg : GatewayConfig)

/-! ## Sessions -/

/-- `_serve_client` after the handshake: a new queue and the number of EOFs to come. -/
def openSession (g : Gateway) (c : Nat) : Gateway :=
  { g with
    clientQueues := g.clientQueues.set c g.queues.length
    queues := g.queues ++ [[]]
    pendingEofsByClient := g.pendingEofsByClient.set c cfg.numResultQueues }

/-- The `finally` of `_serve_client`. -/
def closeSession (g : Gateway) (c : Nat) : Gateway :=
  { g with
    clientQueues := g.clientQueues.erase c
    pendingEofsByClient := g.pendingEofsByClient.erase c
    addressedResultSeen := g.addressedResultSeen.filter fun k => decide (k.clientId ≠ c) }

/-! ## A callback -/

def settle (g : Gateway) (q : Query) (acks : Bool) : Gateway :=
  { g with settled := g.settled ++ [(q, acks)] }

/-- `dedup_key`, for the consumers of addressed packets. -/
def dedupKey (q : Query) (m : UnpackedResult) : Option ResultKey :=
  m.address.map fun a => ⟨q.prefixOf, m.clientId, a.1, a.2⟩

/-- `remaining`: what is left of the client's EOFs once this one is counted. -/
def remaining (g : Gateway) (m : UnpackedResult) : Int :=
  g.pendingEofsByClient.getD m.clientId 1 - 1

/-- The puts of a callback, given `remaining`, and whether it reaches its `ack()`. -/
def resultPuts (q : Query) (m : UnpackedResult) (remaining : Int) : List QueueItem × Bool :=
  if m.msgType = MessageType.data.toNat then
    ((cfg.payloadToCsvLines q m.payload).1.map fun l => .line (q.prefixOf ++ l ++ "\n"),
      (cfg.payloadToCsvLines q m.payload).2)
  else if m.msgType = MessageType.eof.toNat then
    (if remaining ≤ 0 then [.endOfResults] else [], true)
  else ([], true)

/-- The end of the locked section for a message that is not a duplicate: the key is remembered, an
EOF is counted, and the callback goes on with the queue object it found. -/
def accept (g : Gateway) (q : Query) (m : UnpackedResult) (queue : Nat) : Gateway :=
  let remaining := g.remaining m
  let (puts, acks) := resultPuts cfg q m remaining
  { g with
    addressedResultSeen := (dedupKey q m).toList ++ g.addressedResultSeen
    pendingEofsByClient :=
      if m.msgType = MessageType.eof.toNat then g.pendingEofsByClient.set m.clientId remaining
      else g.pendingEofsByClient
    tasks := fun q' => if q' = q then some ⟨queue, puts, acks⟩ else g.tasks q' }

/-- `callback` up to the release of the lock. -/
def receive (g : Gateway) (q : Query) (message : Bytes) : Gateway :=
  match unpackResult q message with
  | .error _ => g.settle q false
  | .ok m =>
    match g.clientQueues.get? m.clientId with
    | none => g.settle q true
    | some queue =>
      if ∃ k ∈ (dedupKey q m), k ∈ g.addressedResultSeen then g.settle q true
      else g.accept cfg q m queue

/-- The next put of the callback of `q`, or its `ack()` or `nack()`. -/
def advance (g : Gateway) (q : Query) : Option Gateway :=
  match g.tasks q with
  | none => none
  | some ⟨queue, item :: puts, acks⟩ => some { g with
      queues := g.queues.modify queue (· ++ [item])
      tasks := fun q' => if q' = q then some ⟨queue, puts, acks⟩ else g.tasks q' }
  | some ⟨_, [], acks⟩ => some { g.settle q acks with
      tasks := fun q' => if q' = q then none else g.tasks q' }

/-! ## Runs -/

/-- A step of the gateway: a client connects or leaves, a consumer gets a message, or a callback
goes on after the lock. -/
inductive Label where
  | openSession (c : Nat)
  | closeSession (c : Nat)
  | deliver (q : Query) (message : Bytes)
  | advance (q : Query)

/-- A consumer takes its next message when its callback has returned. -/
def exec (g : Gateway) : Label → Option Gateway
  | .openSession c => some (g.openSession cfg c)
  | .closeSession c => some (g.closeSession c)
  | .deliver q message =>
    if cfg.configured q ∧ (g.tasks q).isNone then some (g.receive cfg q message) else none
  | .advance q => g.advance q

end Gateway

end MoneyLaundering
