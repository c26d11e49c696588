import MoneyLaundering.Eof.Rounds
import MoneyLaundering.Workers.FilterQ5Usd

/-!
# A cluster of cheap-wire filters

The replicas of `filter_q5_usd` on their queues, without crashes. A queue keeps what was published
on it, so that a message may be delivered at any time, any number of times, or never; publications
and appends may fail.

A replica that is not the leader of a client announces the end of the client to every aggregator
shard when it gets `FLUSH_ORDER`, and only then acks to the leader. So the leader ends the client
after the other replicas have announced its end, each with its own total.
-/

namespace MoneyLaundering

open Bytes InternalProtocol Consumer Runner Transition

/-- The configuration of one replica. -/
def FilterQ5UsdConfig.withId (cfg : FilterQ5UsdConfig) (id : Nat) : FilterQ5UsdConfig :=
  { cfg with id }

/-- A deployment. The replicas differ in their id only, and the upstream EOF of a client is routed
to one of them. -/
structure Q5ClusterConfig where
  worker : FilterQ5UsdConfig
  leaderOf : Nat → Nat
  leaderOf_lt : ∀ clientId, leaderOf clientId < worker.filterQ5UsdAmount

/-- The configuration of replica `i`. -/
def Q5ClusterConfig.at (cfg : Q5ClusterConfig) (i : Nat) : FilterQ5UsdConfig := cfg.worker.withId i

/-- The queue of an aggregator shard. -/
def FilterQ5UsdConfig.aggregator (cfg : FilterQ5UsdConfig) (shard : Nat) : String :=
  s!"{cfg.aggregationPrefix}_{shard}"

/-- The trace shows what the replicas recorded, published from their outboxes and acked, in
order. -/
structure Q5Cluster where
  replicas : Nat → State FilterQ5UsdState FilterQ5UsdChange
  queues : List (String × Bytes) := []
  trace : List (Nat × Obs FilterQ5UsdChange) := []

/-- A step of one of the replicas. -/
structure Q5Act where
  replica : Nat
  label : Label FilterQ5UsdConfig.Delivery

namespace Q5Cluster

variable (cfg : Q5ClusterConfig)

def init : Q5Cluster where
  replicas i := Consumer.init (cfg.at i).consumer

/-- What a step puts on a queue. -/
def sent (s : State FilterQ5UsdState FilterQ5UsdChange) :
    Label FilterQ5UsdConfig.Delivery → List (String × Bytes)
  | .publish i true =>
    match s.tasks[i]? with
    | some (.publishing _ (entry :: _)) => [(entry.destination, entry.body)]
    | some (.sending (message :: _)) => [message]
    | _ => []
  | _ => []

def exec (sys : Q5Cluster) (l : Q5Act) : Option Q5Cluster :=
  match Consumer.exec (cfg.at l.replica).consumer (sys.replicas l.replica) l.label with
  | none => none
  | some s => some {
      replicas := Function.update sys.replicas l.replica s
      queues := sys.queues ++ sent (sys.replicas l.replica) l.label
      trace := sys.trace ++
        (s.trace.drop (sys.replicas l.replica).trace.length).map (l.replica, ·) }

local instance : LawfulBEq (String × Bytes) := inferInstanceAs (LawfulBEq (String × List UInt8))

/-- What a replica may be handed. On the data queue: no ABORT, and an EOF only at the leader of its
client. The second part of a `DATA` message may come at any time. -/
def deliverable (sys : Q5Cluster) (replica : Nat) : FilterQ5UsdConfig.Delivery → Bool
  | .queue (.input body) =>
    match unpackAddressedPacket body with
    | .ok m =>
      m.msgType != MessageType.abort.toNat &&
        (m.msgType != MessageType.eof.toNat || replica == cfg.leaderOf m.clientId)
    | .error _ => true
  | .resumed _ => true
  | .queue (.control body) =>
    decide (((cfg.at replica).coordinator.controlQueueFor replica, body) ∈ sys.queues)
  | .queue (.response body) =>
    decide (((cfg.at replica).coordinator.responseQueueFor replica, body) ∈ sys.queues)

def permits (sys : Q5Cluster) (replica : Nat) : Label FilterQ5UsdConfig.Delivery → Bool
  | .deliver message _ => sys.deliverable cfg replica message
  | _ => true

def allowed (sys : Q5Cluster) (l : Q5Act) : Prop :=
  l.replica < cfg.worker.filterQ5UsdAmount ∧ sys.permits cfg l.replica l.label = true

instance (sys : Q5Cluster) (l : Q5Act) : Decidable (allowed cfg sys l) :=
  inferInstanceAs (Decidable (_ ∧ _))

/-- The runs without crashes and aborts. -/
def Run (sys : Q5Cluster) : Prop := Reachable (exec cfg) (allowed cfg) (init cfg) sys

/-! ## What the aggregators get -/

/-- The packet of a type that an output brings to an aggregator for a client. -/
def packetTo (msgType : MessageType) (clientId shard : Nat) (entry : OutboxEntry) :
    Option Addressed :=
  if entry.destination = cfg.worker.aggregator shard then
    match unpackAddressedPacket entry.body with
    | .ok m => if m.msgType = msgType.toNat ∧ m.clientId = clientId then some m else none
    | .error _ => none
  else none

/-- What a shard has got so far. -/
def received (msgType : MessageType) (clientId shard : Nat)
    (trace : List (Nat × Obs FilterQ5UsdChange)) : List Addressed :=
  trace.filterMap fun
    | (_, .published _ _ entry) => packetTo cfg msgType clientId shard entry
    | _ => none

/-- A replica has recorded the end of a client. -/
def Flushed (clientId replica : Nat) (trace : List (Nat × Obs FilterQ5UsdChange)) : Prop :=
  ∃ m key change outputs, (replica, .recorded (.inputApplied m key change outputs)) ∈ trace ∧
    .close clientId ∈ change.ops

/-- The `DATA` packets of a client that all shards have got. -/
def forwardedByAll (clientId : Nat) (trace : List (Nat × Obs FilterQ5UsdChange)) : Nat :=
  ((List.range cfg.worker.aggregationAmount).map fun shard =>
    (received cfg .data clientId shard trace).length).sum

/-- A shard has got one EOF of a client, sent after all replicas flushed the client, and its total
is the number of `DATA` packets that all replicas forwarded. -/
def SingleEof (sys : Q5Cluster) (clientId shard : Nat) : Prop :=
  ∃ before o after m ctrl,
    sys.trace = before ++ o :: after ∧
    received cfg .eof clientId shard before = [] ∧
    received cfg .eof clientId shard [o] = [m] ∧
    received cfg .eof clientId shard after = [] ∧
    (∀ i < cfg.worker.filterQ5UsdAmount, Flushed clientId i before) ∧
    ControlMessage.deserialize m.payload = .ok ctrl ∧
    ctrl.expectedTotal = forwardedByAll cfg clientId sys.trace

end Q5Cluster

/-! ## What a replica does with a message -/

namespace FilterQ5UsdState

variable {cfg : FilterQ5UsdConfig} {s : FilterQ5UsdState}

/-- The replica leads a client. -/
def Leads (s : FilterQ5UsdState) (clientId : Nat) : Prop :=
  s.coordinator.leaderExpected.get? clientId ≠ none

/-- `t` leads no further client than `s`, apart from `c`, and keeps what `s` leads or has closed. -/
structure Follows (s t : FilterQ5UsdState) (announced : Nat → Prop) : Prop where
  leads : ∀ c, t.Leads c → s.Leads c ∨ announced c
  keeps : ∀ c, s.Leads c ∨ c ∈ s.closedByClient → t.Leads c ∨ c ∈ t.closedByClient

theorem Follows.of_eq {t : FilterQ5UsdState} {announced : Nat → Prop}
    (hl : t.coordinator.leaderExpected = s.coordinator.leaderExpected)
    (hc : s.closedByClient ⊆ t.closedByClient) : Follows s t announced where
  leads c h := .inl (by rwa [Leads, ← hl])
  keeps c h := h.imp (fun h => by rwa [Leads, hl]) fun h => hc h

theorem Follows.trans {t u : FilterQ5UsdState} {announced : Nat → Prop} (h : Follows s t announced)
    (h' : Follows t u announced) : Follows s u announced where
  leads c hc := (h'.leads c hc).elim (h.leads c) .inr
  keeps c hc := h'.keeps c (h.keeps c hc)

/-- A client may be forgotten when it is closed. -/
theorem Follows.of_erase {t : FilterQ5UsdState} {announced : Nat → Prop} {c : Nat}
    (hl : t.coordinator.leaderExpected = s.coordinator.leaderExpected.erase c)
    (hc : insert c s.closedByClient ⊆ t.closedByClient) : Follows s t announced where
  leads c' h := by
    rw [Leads, hl, Dict.get?_erase] at h
    split at h
    · exact absurd rfl h
    · exact .inl h
  keeps c' h := by
    by_cases he : c' = c
    · exact .inr (hc (he.symm ▸ Finset.mem_insert_self _ _))
    · refine h.imp (fun h => ?_) fun h => hc (Finset.mem_insert_of_mem h)
      rwa [Leads, hl, Dict.get?_erase, if_neg he]

@[simp] theorem applyData_coordinator (s : FilterQ5UsdState) (clientId : Nat)
    (change : Q5DataChange) :
    (s.applyData clientId change).coordinator = s.coordinator := by
  unfold applyData
  split <;> rfl

@[simp] theorem applyData_closedByClient (s : FilterQ5UsdState) (clientId : Nat)
    (change : Q5DataChange) : (s.applyData clientId change).closedByClient = s.closedByClient := by
  unfold applyData
  split <;> rfl

theorem follows_applyData {announced : Nat → Prop} (s : FilterQ5UsdState) (clientId : Nat)
    (change : Q5DataChange) : Follows s (s.applyData clientId change) announced :=
  .of_eq (by rw [applyData_coordinator]) (by rw [applyData_closedByClient])

theorem follows_applyClose {announced : Nat → Prop} (s : FilterQ5UsdState) (clientId : Nat) :
    Follows s (s.applyClose clientId) announced :=
  .of_eq rfl (Finset.subset_insert _ _)

/-- An upstream EOF makes the replica the leader of its client. -/
theorem follows_onUpstreamEof (s : FilterQ5UsdState) (clientId expected count forwarded : Nat) :
    Follows s { s with
      coordinator := (s.coordinator.onUpstreamEof cfg.coordinator clientId expected
        count forwarded).1 }
      (· = clientId) := by
  unfold EofCoordinator.onUpstreamEof
  split
  · exact .of_eq rfl subset_rfl
  · change Follows s { s with coordinator := { s.coordinator with
      leaderExpected := s.coordinator.leaderExpected.set clientId expected } } _
    refine ⟨fun c h => ?_, fun c h => h.imp (fun h => ?_) id⟩
    · simp only [Leads, Dict.get?_set] at h ⊢
      split at h
      · next he => exact .inr he.symm
      · exact .inl h
    · simp only [Leads, Dict.get?_set] at h ⊢
      split
      · simp
      · exact h

end FilterQ5UsdState

namespace FilterQ5UsdConfig

variable {cfg : FilterQ5UsdConfig} {s : FilterQ5UsdState}

/-- An EOF of a client on the way to an aggregator shard. -/
def Ends (cfg : FilterQ5UsdConfig) (clientId shard : Nat) (x : String × Bytes) : Prop :=
  x.1 = cfg.aggregator shard ∧ ∃ m, unpackAddressedPacket x.2 = .ok m ∧
    m.msgType = MessageType.eof.toNat ∧ m.clientId = clientId

/-- The outputs of an input: no `FLUSH_ORDER`, and a `FLUSH_ACK` only behind an EOF to every
shard. -/
structure Ordered (cfg : FilterQ5UsdConfig) (outputs : List (String × Bytes)) : Prop where
  order : ∀ x ∈ outputs, beDecode (x.2.take 1) ≠ MessageType.flushOrder.toNat
  ack : ∀ pre x post, outputs = pre ++ x :: post →
    ∀ clientId ctrl, EofCoordinator.parseMessage x.2 = .ok (some .flushAck, clientId, ctrl) →
    ∀ shard < cfg.aggregationAmount, ∃ y ∈ pre, cfg.Ends clientId shard y

/-- Outputs of other types are in order. -/
theorem Ordered.of_types {outputs : List (String × Bytes)}
    (h : ∀ x ∈ outputs, beDecode (x.2.take 1) ≠ MessageType.flushOrder.toNat ∧
      beDecode (x.2.take 1) ≠ MessageType.flushAck.toNat) : cfg.Ordered outputs where
  order x hx := (h x hx).1
  ack pre x post he clientId ctrl hp :=
    absurd (EofCoordinator.first_of_parseMessage hp) (h x (by rw [he]; simp)).2

/-- A `FLUSH_ACK` behind the EOFs. -/
theorem Ordered.concat {outputs : List (String × Bytes)} {x : String × Bytes} {clientId : Nat}
    {ctrl : ControlMessage}
    (h : ∀ x ∈ outputs, beDecode (x.2.take 1) ≠ MessageType.flushOrder.toNat ∧
      beDecode (x.2.take 1) ≠ MessageType.flushAck.toNat)
    (hx : EofCoordinator.parseMessage x.2 = .ok (some .flushAck, clientId, ctrl))
    (hends : ∀ shard < cfg.aggregationAmount, ∃ y ∈ outputs, cfg.Ends clientId shard y) :
    cfg.Ordered (outputs ++ [x]) where
  order y hy := by
    rcases List.mem_append.mp hy with hy | hy
    · exact (h y hy).1
    · obtain rfl := List.mem_singleton.mp hy
      rw [EofCoordinator.first_of_parseMessage hx]
      decide
  ack pre y post he clientId' ctrl' hp := by
    rcases List.eq_nil_or_concat post with rfl | ⟨post', z, rfl⟩
    · -- the ack itself
      obtain ⟨rfl, hxy⟩ := List.append_inj' he rfl
      cases hxy
      cases hx.symm.trans hp
      exact hends
    · rw [List.concat_eq_append, ← List.cons_append, ← List.append_assoc] at he
      obtain ⟨rfl, -⟩ := List.append_inj' he rfl
      exact absurd (EofCoordinator.first_of_parseMessage hp) (h y (by simp)).2

/-- Where an output goes, and what it carries. -/
def parcel (output : LogicalOutput) : String × Bytes := (output.destination, output.body)

theorem first_of_mapM {α : Type} {msgType : MessageType} {f : α → Except String LogicalOutput}
    (hf : ∀ a output, f a = .ok output → beDecode (output.body.take 1) = msgType.toNat) {l : List α}
    {outputs : List LogicalOutput} (h : l.mapM f = .ok outputs) :
    ∀ x ∈ outputs.map parcel, beDecode (x.2.take 1) = msgType.toNat := by
  intro x hx
  obtain ⟨output, ho, rfl⟩ := List.mem_map.mp hx
  obtain ⟨a, -, ha⟩ := (Except.forall₂_of_mapM h).exists_left ho
  exact hf a output ha

theorem first_of_dataOutputs {clientId seq : Nat} {transactions : List Transaction}
    {outputs : List LogicalOutput} (h : cfg.dataOutputs clientId seq transactions = .ok outputs) :
    ∀ x ∈ outputs.map parcel, beDecode (x.2.take 1) = MessageType.data.toNat := by
  refine first_of_mapM (fun a output ha => ?_) h
  obtain ⟨payload, -, ha⟩ := Except.ok_of_bind ha
  obtain ⟨body, hb, ha⟩ := Except.ok_of_bind ha
  cases ha
  exact msgType_of_createAddressedPacket hb

theorem first_of_shardOutputs {msgType : MessageType} {clientId seq : Nat} {payload : Bytes}
    {outputs : List LogicalOutput}
    (h : cfg.shardOutputs msgType clientId seq payload = .ok outputs) :
    ∀ x ∈ outputs.map parcel, beDecode (x.2.take 1) = msgType.toNat := by
  refine first_of_mapM (fun a output ha => ?_) h
  obtain ⟨body, hb, ha⟩ := Except.ok_of_bind ha
  cases ha
  exact msgType_of_createAddressedPacket hb

/-- The EOFs of a client go to every shard. -/
theorem buildEofOutputs_spec {clientId total : Nat} {outputs : List LogicalOutput}
    (h : cfg.buildEofOutputs s clientId total = .ok outputs) :
    (∀ x ∈ outputs.map parcel, beDecode (x.2.take 1) = MessageType.eof.toNat) ∧
      ∀ shard < cfg.aggregationAmount, ∃ x ∈ outputs.map parcel, cfg.Ends clientId shard x := by
  obtain ⟨payload, -, h⟩ := Except.ok_of_bind h
  refine ⟨first_of_shardOutputs h, fun shard hs => ?_⟩
  obtain ⟨output, ho, he⟩ := (Except.forall₂_of_mapM h).exists_right (List.mem_range.mpr hs)
  obtain ⟨body, hb, he⟩ := Except.ok_of_bind he
  cases he
  exact ⟨_, List.mem_map_of_mem ho, rfl, _, unpackAddressedPacket_create hb, rfl, rfl⟩

/-- The packets of an action are copies of its message. -/
theorem first_of_actionOutputs {action : CoordinatorAction} {outputs : List LogicalOutput}
    (h : actionOutputs action = .ok outputs) : ∀ x ∈ outputs.map parcel,
      ∃ message ∈ EofCoordinator.messagesOf (some action), message.toBytes = .ok x.2 := by
  intro x hx
  obtain ⟨output, ho, rfl⟩ := List.mem_map.mp hx
  cases action with
  | sendAnswer queueName message =>
    obtain ⟨body, hb, h⟩ := Except.ok_of_bind h
    cases h
    obtain rfl := List.mem_singleton.mp ho
    exact ⟨message, List.mem_singleton.mpr rfl, hb⟩
  | broadcast queueNames message sleep =>
    obtain ⟨body, hb, h⟩ := Except.ok_of_bind h
    cases h
    obtain ⟨queueName, -, rfl⟩ := List.mem_map.mp ho
    exact ⟨message, List.mem_singleton.mpr rfl, hb⟩
  | flush => cases h; cases ho

/-- The client of an upstream EOF. -/
def IsEof (message : Delivery) (clientId : Nat) : Prop :=
  ∃ body m, message = .queue (.input body) ∧ unpackAddressedPacket body = .ok m ∧
    m.msgType = MessageType.eof.toNat ∧ m.clientId = clientId

/-- A message that closes a client. -/
def Closes (cfg : FilterQ5UsdConfig) (s : FilterQ5UsdState) (message : Delivery)
    (clientId : Nat) : Prop :=
  (∃ body ctrl, message = .queue (.response body) ∧
    EofCoordinator.parseMessage body = .ok (some .flushAck, clientId, ctrl)) ∨
  (∃ body ctrl, message = .queue (.control body) ∧
    EofCoordinator.parseMessage body = .ok (some .flushOrder, clientId, ctrl) ∧
    ¬ s.Leads clientId ∧ clientId ∉ s.closedByClient) ∨
  cfg.filterQ5UsdAmount ≤ 1 ∨
  ∃ body m, message = .queue (.input body) ∧ unpackAddressedPacket body = .ok m ∧
    m.msgType = MessageType.abort.toNat

/-- What an input that is handled does, when `business_fn` returns. -/
structure Handled (cfg : FilterQ5UsdConfig) (s touched : FilterQ5UsdState) (message : Delivery)
    (change : FilterQ5UsdChange) (logical : List LogicalOutput) : Prop where
  follows : s.Follows (touched.applyChange cfg change) (IsEof message)
  closes : ∀ c, .close c ∈ change.ops → cfg.Closes s message c
  ordered : cfg.Ordered (logical.map parcel)

theorem Ordered.of_type {outputs : List (String × Bytes)} {msgType : MessageType}
    (h : ∀ x ∈ outputs, beDecode (x.2.take 1) = msgType.toNat)
    (ho : msgType ≠ .flushOrder) (ha : msgType ≠ .flushAck) : cfg.Ordered outputs :=
  .of_types fun x hx => by
    rw [h x hx]
    exact ⟨fun he => ho (MessageType.toNat_injective he), fun he =>
      ha (MessageType.toNat_injective he)⟩

theorem handled_data {message : Delivery} {clientId : Nat} {payload : Bytes}
    {change : FilterQ5UsdChange} {logical : List LogicalOutput}
    (h : cfg.dataFn s clientId payload = .ok (change, logical)) :
    Handled cfg s s message change logical := by
  obtain ⟨transactions, -, h⟩ := Except.ok_of_bind h
  split at h
  · cases h
  · obtain ⟨outputs, ho, h⟩ := Except.ok_of_bind h
    cases h
    exact {
      follows := s.follows_applyData ..
      closes := by simp [WorkerChange.ops]
      ordered := .of_type (first_of_dataOutputs ho) (by decide) (by decide) }

/-- The upstream EOF of a client. -/
theorem handled_upstreamEof {body : Bytes} {m : Addressed} (hm : unpackAddressedPacket body = .ok m)
    (ht : m.msgType = MessageType.eof.toNat) {expected : Nat}
    {change : FilterQ5UsdChange} {logical : List LogicalOutput}
    (h : cfg.upstreamEofFn s m.clientId expected (s.coordinator.onUpstreamEof cfg.coordinator
      m.clientId expected (s.processedCount m.clientId) (s.forwardedCount m.clientId)).2 =
        .ok (change, logical)) :
    Handled cfg s { s with coordinator := (s.coordinator.onUpstreamEof cfg.coordinator m.clientId
      expected (s.processedCount m.clientId) (s.forwardedCount m.clientId)).1 }
      (.queue (.input body)) change logical := by
  have hann : ∀ {t : FilterQ5UsdState}, t.Follows { t with
      coordinator := (t.coordinator.onUpstreamEof cfg.coordinator m.clientId expected
        (s.processedCount m.clientId) (s.forwardedCount m.clientId)).1 }
      (IsEof (.queue (.input body))) := fun {t} =>
    ⟨fun c hc => ((t.follows_onUpstreamEof ..).leads c hc).imp_right fun hc =>
      ⟨body, m, rfl, hm, ht, hc.symm⟩, (t.follows_onUpstreamEof ..).keeps⟩
  by_cases hone : cfg.filterQ5UsdAmount ≤ 1
  · have hact : (s.coordinator.onUpstreamEof cfg.coordinator m.clientId expected
        (s.processedCount m.clientId) (s.forwardedCount m.clientId)).2 =
        some (.flush true (s.forwardedCount m.clientId) "") := by
      simp [EofCoordinator.onUpstreamEof, coordinator, hone]
    rw [hact] at h
    obtain ⟨outputs, ho, h⟩ := Except.ok_of_bind h
    cases h
    exact {
      follows := hann.trans (hann.trans ((FilterQ5UsdState.follows_applyData ..).trans
        (FilterQ5UsdState.follows_applyClose ..)))
      closes := fun _ _ => .inr (.inr (.inl hone))
      ordered := .of_type (buildEofOutputs_spec ho).1 (by decide) (by decide) }
  · have hact : (s.coordinator.onUpstreamEof cfg.coordinator m.clientId expected
        (s.processedCount m.clientId) (s.forwardedCount m.clientId)).2 =
        some (.broadcast (EofCoordinator.allControlQueues cfg.coordinator)
          { msgType := .eofReceived, clientId := m.clientId
            ctrl := { senderId := cfg.id, expectedTotal := expected } } 0) := by
      simp [EofCoordinator.onUpstreamEof, coordinator, hone]
    rw [hact] at h
    obtain ⟨outputs, ho, h⟩ := Except.ok_of_bind h
    cases h
    have htype : ∀ x ∈ logical.map parcel, beDecode (x.2.take 1) =
        MessageType.eofReceived.toNat := by
      intro x hx
      obtain ⟨message, hmem, hb⟩ := first_of_actionOutputs ho x hx
      obtain rfl := List.mem_singleton.mp hmem
      exact EofCoordinator.first_of_parseMessage (EofCoordinator.parseMessage_toBytes hb)
    exact ⟨hann.trans hann, by simp [WorkerChange.ops], .of_type htype (by decide) (by decide)⟩

/-- `EOF_RECEIVED`. -/
theorem handled_eofReceived {message : Delivery} {clientId : Nat} {ctrl : ControlMessage}
    {key : InputKey} {touched : FilterQ5UsdState}
    {result : Except String (FilterQ5UsdChange × List LogicalOutput)}
    (hr : cfg.handleEofReceived s clientId ctrl = .handle key touched result) :
    s.Follows touched (IsEof message) ∧ ∀ change logical, result = .ok (change, logical) →
      Handled cfg s touched message change logical := by
  simp only [handleEofReceived, Reaction.handle.injEq] at hr
  obtain ⟨-, rfl, rfl⟩ := hr
  have hfollows : ∀ (t : FilterQ5UsdState) count forwarded, t.Follows { t with
      coordinator := (t.coordinator.processControlMessage cfg.coordinator .eofReceived clientId ctrl
        count forwarded).1 } (IsEof message) := fun t count forwarded =>
    .of_eq (EofCoordinator.leaderExpected_processControlMessage (by decide) ..) subset_rfl
  refine ⟨hfollows s _ _, fun change logical h => ?_⟩
  split at h
  · next queueName packet hact =>
    obtain ⟨outputs, ho, h⟩ := Except.ok_of_bind h
    cases h
    have htype : ∀ x ∈ logical.map parcel,
        beDecode (x.2.take 1) = MessageType.processedAnswer.toNat := by
      intro x hx
      obtain ⟨message, hmem, hb⟩ := first_of_actionOutputs ho x hx
      obtain rfl := List.mem_singleton.mp hmem
      rw [EofCoordinator.first_of_parseMessage (EofCoordinator.parseMessage_toBytes hb),
        EofCoordinator.msgType_of_sendAnswer cfg.coordinator hact]
    exact {
      follows := (hfollows s _ _).trans (hfollows _ _ _)
      closes := by simp [WorkerChange.ops]
      ordered := .of_type htype (by decide) (by decide) }
  · cases h
    exact {
      follows := (hfollows s _ _).trans (hfollows _ _ _)
      closes := by simp [WorkerChange.ops]
      ordered := .of_types (by simp) }

/-- `FLUSH_ORDER`. A replica that does not lead the client closes it, and acks behind the EOFs. -/
theorem handled_flushOrder {body : Bytes} {clientId : Nat} {ctrl : ControlMessage}
    (hp : EofCoordinator.parseMessage body = .ok (some .flushOrder, clientId, ctrl))
    (hopen : clientId ∉ s.closedByClient) {change : FilterQ5UsdChange}
    {logical : List LogicalOutput}
    (h : cfg.flushOrderFn s clientId ctrl.senderId (s.coordinator.processControlMessage
      cfg.coordinator .flushOrder clientId ctrl 0 0).2 = .ok (change, logical)) :
    Handled cfg s s (.queue (.control body)) change logical := by
  by_cases hl : s.Leads clientId
  · have hact :
        (s.coordinator.processControlMessage cfg.coordinator .flushOrder clientId ctrl 0 0).2 =
        none := by
      have hsome := Option.isSome_iff_ne_none.mpr hl
      simp [EofCoordinator.processControlMessage, EofCoordinator.onFlushOrder,
        EofCoordinator.isLeaderHere, coordinator, Dict.contains, hsome]
    rw [hact] at h
    cases h
    exact {
      follows := s.follows_applyData ..
      closes := by simp [WorkerChange.ops]
      ordered := .of_types (by simp) }
  · have hact : ∃ action, (s.coordinator.processControlMessage cfg.coordinator .flushOrder clientId
        ctrl 0 0).2 = some action := by
      have hnone : s.coordinator.leaderExpected.get? clientId = none := not_not.mp hl
      simp [EofCoordinator.processControlMessage, EofCoordinator.onFlushOrder,
        EofCoordinator.isLeaderHere, coordinator, Dict.contains, hnone]
    obtain ⟨action, hact⟩ := hact
    rw [hact] at h
    obtain ⟨outputs, ho, h⟩ := Except.ok_of_bind h
    obtain ⟨flushAck, ha, h⟩ := Except.ok_of_bind h
    cases h
    obtain ⟨htype, hends⟩ := buildEofOutputs_spec ho
    refine ⟨?_, fun c hc => .inr (.inl ?_), ?_⟩
    · have hcleanup : s.Follows { s with coordinator := s.coordinator.cleanupClient clientId }
          (IsEof (.queue (.control body))) := .of_eq rfl subset_rfl
      exact hcleanup.trans ((FilterQ5UsdState.follows_applyData ..).trans
        (FilterQ5UsdState.follows_applyClose ..))
    · obtain rfl : c = clientId := by simpa [WorkerChange.ops, eofSeqs] using hc
      exact ⟨body, ctrl, rfl, hp, hl, hopen⟩
    · rw [List.map_append]
      refine .concat (fun x hx => ?_) (EofCoordinator.parseMessage_toBytes ha) hends
      rw [htype x hx]
      decide

/-- `FLUSH_ACK`. The last one closes the client. -/
theorem handled_flushAck {body : Bytes} {clientId : Nat} {ctrl : ControlMessage}
    (hp : EofCoordinator.parseMessage body = .ok (some .flushAck, clientId, ctrl))
    {change : FilterQ5UsdChange} {logical : List LogicalOutput}
    (h : cfg.flushAckFn s clientId ctrl = .ok (change, logical)) :
    Handled cfg s s (.queue (.response body)) change logical := by
  have hcard : (insert ctrl.senderId (s.coordinator.flushAcks.getD clientId ∅)).card =
      (s.coordinator.flushAcks.getD clientId ∅).card +
        if ctrl.senderId ∈ s.coordinator.flushAcks.getD clientId ∅ then 0 else 1 := by
    split
    · next hm => rw [Finset.insert_eq_of_mem hm, Nat.add_zero]
    · next hm => rw [Finset.card_insert_of_notMem hm]
  have hack := EofCoordinator.get?_leaderExpected_onFlushAck cfg.coordinator s.coordinator clientId
    ctrl
  simp only [flushAckFn] at h
  rw [← hcard] at h
  split at h
  · next hlt =>
    cases h
    refine ⟨.of_eq ?_ subset_rfl, by simp [WorkerChange.ops], .of_types (by simp)⟩
    exact hack.resolve_right fun hge => absurd hge.1 (by simp only [coordinator]; omega)
  · obtain ⟨outputs, ho, h⟩ := Except.ok_of_bind h
    cases h
    refine ⟨?_, fun c hc => .inl ?_, .of_type (buildEofOutputs_spec ho).1 (by decide) (by decide)⟩
    · rcases hack with hsame | ⟨-, herase⟩
      · have hop : s.Follows { s with coordinator :=
            (s.coordinator.onFlushAck cfg.coordinator clientId ctrl).1 }
            (IsEof (.queue (.response body))) := .of_eq hsame subset_rfl
        exact hop.trans ((FilterQ5UsdState.follows_applyData ..).trans
          (FilterQ5UsdState.follows_applyClose ..))
      · -- the client is forgotten and closed in one change
        refine .of_erase (c := clientId) ?_ ?_
        · rw [← herase]
          simp [FilterQ5UsdState.applyChange, WorkerChange.ops, FilterQ5UsdState.applyOp, eofSeqs,
            FilterQ5UsdState.applyClose, WorkerOp.applyCoordinator,
            EofCoordinator.processControlMessage]
        · simp [FilterQ5UsdState.applyChange, WorkerChange.ops, FilterQ5UsdState.applyOp, eofSeqs,
            FilterQ5UsdState.applyClose]
    · obtain rfl : c = clientId := by simpa [WorkerChange.ops, eofSeqs] using hc
      exact ⟨body, ctrl, rfl, hp⟩

/-- What is handled. -/
theorem react_handle {message : Delivery} {key : InputKey} {touched : FilterQ5UsdState}
    {result : Except String (FilterQ5UsdChange × List LogicalOutput)}
    (hr : cfg.consumer.react s message = .handle key touched result) :
    s.Follows touched (IsEof message) ∧ ∀ change logical, result = .ok (change, logical) →
      Handled cfg s touched message change logical := by
  have hsame : s.Follows s (IsEof message) := .of_eq rfl subset_rfl
  have hdata : ∀ m, cfg.resumeData s m = .handle key touched result →
      s.Follows touched (IsEof message) ∧ ∀ change logical, result = .ok (change, logical) →
        Handled cfg s touched message change logical := by
    intro m hr
    cases hr
    exact ⟨hsame, fun change logical => handled_data⟩
  rcases message with (body | body | body) | body
  · -- the data queue
    change cfg.processDataMessage s body = _ at hr
    unfold processDataMessage at hr
    split at hr
    · cases hr
    · next m hm =>
      split at hr
      · split at hr
        · cases hr
        · exact hdata m hr
      · next ht =>
        unfold handleUpstreamEof at hr
        split at hr
        · cases hr
        · next ctrl hctrl =>
          simp only at hr
          split at hr
          · cases hr
          · cases hr
            have ht' := (MessageType.toNat_of_ofNat? ht).symm
            exact ⟨⟨fun c hc => ((s.follows_onUpstreamEof ..).leads c hc).imp_right fun hc =>
              ⟨body, m, rfl, hm, ht', hc.symm⟩, (s.follows_onUpstreamEof ..).keeps⟩,
              fun change logical h => handled_upstreamEof hm ht' h⟩
      · next ht =>
        unfold handleAbort at hr
        split at hr
        · cases hr
        · cases hr
          refine ⟨hsame, fun change logical h => ?_⟩
          obtain ⟨outputs, ho, h⟩ := Except.ok_of_bind h
          cases h
          exact {
            follows := .of_eq rfl (Finset.subset_insert _ _)
            closes := fun _ _ => .inr (.inr (.inr ⟨body, m, rfl, hm,
              (MessageType.toNat_of_ofNat? ht).symm⟩))
            ordered := .of_type (first_of_shardOutputs ho) (by decide) (by decide) }
      · cases hr
  · -- the control queue
    change cfg.handleControl s body = _ at hr
    unfold handleControl at hr
    split at hr
    · cases hr
    · cases hr
    · next msgType clientId ctrl hp =>
      split at hr
      · split at hr
        · cases hr
        · exact handled_eofReceived hr
      · split at hr
        · cases hr
        · next hopen =>
          cases hr
          exact ⟨hsame, fun change logical h => handled_flushOrder hp
            (fun hm => hopen (decide_eq_true hm)) h⟩
      · split at hr
        · cases hr
        · unfold Reaction.ofAction at hr
          split at hr
          · cases hr
          · split at hr <;> cases hr
      · cases hr
  · -- the response queue
    change cfg.handleResponse s body = _ at hr
    unfold handleResponse at hr
    split at hr
    · cases hr
    · cases hr
    · next msgType clientId ctrl hp =>
      split at hr
      · simp only [Reaction.ofAction] at hr
        split at hr
        · cases hr
        · split at hr <;> cases hr
      · split at hr
        · cases hr
        · cases hr
          exact ⟨hsame, fun change logical => handled_flushAck hp⟩
      · cases hr
  · -- the second part of a `DATA` message
    simp only [consumer] at hr
    split at hr
    · cases hr
    · split at hr
      · exact hdata _ hr
      · cases hr

/-- The packets of a coordinator call. Only the leader of a client orders to flush it. -/
theorem packets_of_processControlMessage {msgType : MessageType} {clientId count forwarded : Nat}
    {ctrl : ControlMessage} {packet : ControlPacket}
    (h : packet ∈ EofCoordinator.messagesOf (s.coordinator.processControlMessage cfg.coordinator
      msgType clientId ctrl count forwarded).2) :
    packet.msgType ≠ .flushAck ∧ (packet.msgType = .flushOrder → s.Leads packet.clientId) := by
  cases hact : (s.coordinator.processControlMessage cfg.coordinator msgType clientId ctrl count
    forwarded).2 with
  | none => rw [hact] at h; cases h
  | some action =>
    rw [hact] at h
    cases action with
    | sendAnswer queueName message =>
      obtain rfl := List.mem_singleton.mp h
      rw [EofCoordinator.msgType_of_sendAnswer cfg.coordinator hact]
      exact ⟨by decide, nofun⟩
    | broadcast queueNames message sleep =>
      obtain rfl := List.mem_singleton.mp h
      refine ⟨?_, fun ht => ?_⟩
      · rcases EofCoordinator.msgType_of_broadcast cfg.coordinator hact with ht | ht <;>
          (rw [ht]; decide)
      · obtain ⟨-, hc, -, expected, he, -⟩ := EofCoordinator.processControlMessage_flushOrder
          cfg.coordinator (p := ⟨msgType, clientId, ctrl⟩) hact ht
        rw [FilterQ5UsdState.Leads, hc, he]
        simp
    | flush => cases h

theorem direct_of_ofAction {t touched : FilterQ5UsdState} {action : Option CoordinatorAction}
    {sends : List (String × Bytes)}
    (h : (Reaction.ofAction t action : Reaction FilterQ5UsdState FilterQ5UsdChange) =
      .direct touched sends) :
    touched = t ∧ ∀ x ∈ sends, ∃ packet ∈ EofCoordinator.messagesOf action,
      packet.toBytes = .ok x.2 := by
  unfold Reaction.ofAction at h
  split at h
  · cases h
    exact ⟨rfl, by simp⟩
  · split at h
    · cases h
    · next outputs ho =>
      cases h
      exact ⟨rfl, first_of_actionOutputs ho⟩

/-- What is answered outside the log. -/
theorem react_direct {message : Delivery} {touched : FilterQ5UsdState}
    {sends : List (String × Bytes)} (hr : cfg.consumer.react s message = .direct touched sends) :
    s.Follows touched (IsEof message) ∧ ∀ x ∈ sends,
      beDecode (x.2.take 1) ≠ MessageType.flushAck.toNat ∧
      ∀ clientId ctrl, EofCoordinator.parseMessage x.2 = .ok (some .flushOrder, clientId, ctrl) →
        s.Leads clientId := by
  have hnone : ∀ {touched sends}, (.direct s [] : Reaction FilterQ5UsdState FilterQ5UsdChange) =
      .direct touched sends → s.Follows touched (IsEof message) ∧ ∀ x ∈ sends,
      beDecode (x.2.take 1) ≠ MessageType.flushAck.toNat ∧
      ∀ clientId ctrl, EofCoordinator.parseMessage x.2 = .ok (some .flushOrder, clientId, ctrl) →
        s.Leads clientId := by
    intro touched sends h
    cases h
    exact ⟨.of_eq rfl subset_rfl, by simp⟩
  have hcall : ∀ {msgType clientId ctrl count forwarded t touched sends},
      (Reaction.ofAction t
        (s.coordinator.processControlMessage cfg.coordinator msgType clientId ctrl
        count forwarded).2 : Reaction FilterQ5UsdState FilterQ5UsdChange) = .direct touched sends →
      touched = t ∧ ∀ x ∈ sends, beDecode (x.2.take 1) ≠ MessageType.flushAck.toNat ∧
      ∀ clientId ctrl, EofCoordinator.parseMessage x.2 = .ok (some .flushOrder, clientId, ctrl) →
        s.Leads clientId := by
    intro msgType clientId ctrl count forwarded t touched sends h
    obtain ⟨ht, hsends⟩ := direct_of_ofAction h
    refine ⟨ht, fun x hx => ?_⟩
    obtain ⟨packet, hp, hb⟩ := hsends x hx
    have hparse := EofCoordinator.parseMessage_toBytes hb
    obtain ⟨hne, hlead⟩ := packets_of_processControlMessage hp
    refine ⟨fun he => hne (MessageType.toNat_injective ?_), fun c ctrl' hp' => ?_⟩
    · rw [← EofCoordinator.first_of_parseMessage hparse, he]
    · have heq := hparse.symm.trans hp'
      simp only [Except.ok.injEq, Prod.mk.injEq, Option.some.injEq] at heq
      exact heq.2.1 ▸ hlead heq.1
  rcases message with (body | body | body) | body
  · change cfg.processDataMessage s body = _ at hr
    unfold processDataMessage at hr
    split at hr
    · cases hr
    · split at hr
      · split at hr <;> cases hr
      · unfold handleUpstreamEof at hr
        split at hr
        · cases hr
        · simp only at hr
          split at hr <;> cases hr
      · unfold handleAbort at hr
        split at hr <;> cases hr
      · cases hr
  · change cfg.handleControl s body = _ at hr
    unfold handleControl at hr
    split at hr
    · cases hr
    · cases hr
    · split at hr
      · split at hr
        · cases hr
        · simp [handleEofReceived] at hr
      · split at hr <;> cases hr
      · split at hr
        · exact hnone hr
        · obtain ⟨rfl, hs⟩ := hcall hr
          exact ⟨.of_eq rfl subset_rfl, hs⟩
      · exact hnone hr
  · change cfg.handleResponse s body = _ at hr
    unfold handleResponse at hr
    split at hr
    · cases hr
    · cases hr
    · split at hr
      · simp only at hr
        obtain ⟨rfl, hs⟩ := hcall hr
        exact ⟨.of_eq (EofCoordinator.leaderExpected_processControlMessage (by decide) ..)
          subset_rfl, hs⟩
      · split at hr <;> cases hr
      · exact hnone hr
  · simp only [consumer] at hr
    split at hr
    · cases hr
    · split at hr <;> cases hr

end FilterQ5UsdConfig

/-! ## The invariant -/

namespace Q5Cluster

variable (cfg : Q5ClusterConfig)

/-- The state of a replica. -/
abbrev state (sys : Q5Cluster) (i : Nat) : FilterQ5UsdState :=
  (sys.replicas i).node.handler.workerState

/-- Every shard has got an EOF of a client. -/
def Announced (clientId : Nat) (trace : List (Nat × Obs FilterQ5UsdChange)) : Prop :=
  ∀ shard < cfg.worker.aggregationAmount, received cfg .eof clientId shard trace ≠ []

/-- A packet that is on a queue, or about to be sent outside the log. -/
def OnTheWay (sys : Q5Cluster) (x : String × Bytes) : Prop :=
  x ∈ sys.queues ∨ ∃ i sends, .sending sends ∈ (sys.replicas i).tasks ∧ x ∈ sends

structure Inv (sys : Q5Cluster) : Prop where
  sound : ∀ i, Sound (cfg.at i).consumer (sys.replicas i)
  shown : ∀ i, ∀ o ∈ (sys.replicas i).trace, (i, o) ∈ sys.trace
  ordered : ∀ i m key change outputs,
    .recorded (.inputApplied m key change outputs) ∈ (sys.replicas i).trace →
    cfg.worker.Ordered (outputs.map fun entry => (entry.destination, entry.body))
  leads : ∀ i c, (sys.state i).Leads c → i = cfg.leaderOf c
  sends : ∀ i sends, .sending sends ∈ (sys.replicas i).tasks → ∀ x ∈ sends,
    beDecode (x.2.take 1) ≠ MessageType.flushAck.toNat
  orders : ∀ x, sys.OnTheWay x → ∀ c ctrl,
    EofCoordinator.parseMessage x.2 = .ok (some .flushOrder, c, ctrl) →
    (sys.state (cfg.leaderOf c)).Leads c ∨ c ∈ (sys.state (cfg.leaderOf c)).closedByClient
  acks : ∀ x ∈ sys.queues, ∀ c ctrl,
    EofCoordinator.parseMessage x.2 = .ok (some .flushAck, c, ctrl) → Announced cfg c sys.trace
  flushed : ∀ before, before <+: sys.trace → ∀ c, Flushed c (cfg.leaderOf c) before →
    Announced cfg c before

variable {cfg} {sys sys' : Q5Cluster} {l : Q5Act}

theorem inv_init : Inv cfg (init cfg) where
  sound i := sound_init
  shown i o ho := by cases ho
  ordered i m key change outputs hm := by cases hm
  leads i c hl := absurd rfl hl
  sends i sends hs := by cases hs
  orders x hx := by
    rcases hx with hx | ⟨i, sends, hs, -⟩
    · cases hx
    · cases hs
  acks x hx := by cases hx
  flushed before hb c hf := by
    obtain ⟨m, key, change, outputs, hm, -⟩ := hf
    rw [List.prefix_nil.mp hb] at hm
    cases hm

theorem Announced.append {c : Nat} {trace : List (Nat × Obs FilterQ5UsdChange)}
    (h : Announced cfg c trace) (more : List (Nat × Obs FilterQ5UsdChange)) :
    Announced cfg c (trace ++ more) := fun shard hs hn => by
  rw [received, List.filterMap_append, List.append_eq_nil_iff] at hn
  exact h shard hs hn.1

theorem received_of_ends {c shard i clientId : Nat} {m : String} {entry : OutboxEntry}
    {trace : List (Nat × Obs FilterQ5UsdChange)} (h : (i, .published clientId m entry) ∈ trace)
    (he : cfg.worker.Ends c shard (entry.destination, entry.body)) :
    received cfg .eof c shard trace ≠ [] := by
  obtain ⟨hd, packet, hu, ht, hc⟩ := he
  refine List.ne_nil_of_mem (List.mem_filterMap.mpr ⟨_, h, ?_⟩) (a := packet)
  simp only [packetTo]
  rw [if_pos hd, hu]
  exact if_pos ⟨ht, hc⟩

/-- Where a packet comes from that a step puts on a queue. -/
theorem mem_sent {s : State FilterQ5UsdState FilterQ5UsdChange}
    {label : Label FilterQ5UsdConfig.Delivery} {x : String × Bytes} (h : x ∈ sent s label) :
    (∃ key entry remaining, .publishing key (entry :: remaining) ∈ s.tasks ∧
      x = (entry.destination, entry.body)) ∨
    ∃ sends, .sending sends ∈ s.tasks ∧ x ∈ sends := by
  unfold sent at h
  split at h
  · split at h
    · next key entry remaining ht =>
      exact .inl ⟨key, entry, remaining, List.mem_of_getElem? ht, List.mem_singleton.mp h⟩
    · next message remaining ht =>
      obtain rfl := List.mem_singleton.mp h
      exact .inr ⟨_, List.mem_of_getElem? ht, List.mem_cons_self⟩
    · cases h
  · cases h

/-- What a step does to the worker state of its replica. -/
theorem follows_of_step {i : Nat} {s s' : State FilterQ5UsdState FilterQ5UsdChange}
    {label : Label FilterQ5UsdConfig.Delivery} (h : Step (cfg.at i).consumer s s' label) :
    s.node.handler.workerState.Follows s'.node.handler.workerState
      fun c => ∃ message write, label = .deliver message write ∧
        FilterQ5UsdConfig.IsEof message c := by
  have hweaken : ∀ {message : FilterQ5UsdConfig.Delivery} {write : Except String PUnit}
      {t : FilterQ5UsdState},
      s.node.handler.workerState.Follows t (FilterQ5UsdConfig.IsEof message) →
      s.node.handler.workerState.Follows t fun c => ∃ message' write',
        Label.deliver message write = .deliver message' write' ∧
          FilterQ5UsdConfig.IsEof message' c := fun ht =>
    ⟨fun c hc => (ht.leads c hc).imp_right fun he => ⟨_, _, rfl, he⟩, ht.keeps⟩
  cases h with
  | quiet h => exact .of_eq (by rw [h.workerState]) (by rw [h.workerState])
  | direct hr hs =>
    rw [hs]
    exact hweaken (FilterQ5UsdConfig.react_direct hr).1
  | raised hr hs =>
    rw [hs]
    exact hweaken (FilterQ5UsdConfig.react_handle hr).1
  | applied hr hstamp hw ht htasks =>
    rw [hw]
    exact hweaken ((FilterQ5UsdConfig.react_handle hr).2 _ _ rfl).follows

theorem exec_eq_some (he : exec cfg sys l = some sys') :
    ∃ s, Consumer.exec (cfg.at l.replica).consumer (sys.replicas l.replica) l.label = some s ∧
      sys'.replicas = Function.update sys.replicas l.replica s ∧
      sys'.queues = sys.queues ++ sent (sys.replicas l.replica) l.label ∧
      ∃ more, s.trace = (sys.replicas l.replica).trace ++ more ∧
        sys'.trace = sys.trace ++ more.map (l.replica, ·) := by
  unfold exec at he
  split at he
  · cases he
  · next s hs =>
    cases he
    obtain ⟨more, hm⟩ := (step_of_exec hs).grows
    exact ⟨s, hs, rfl, rfl, more, hm.symm, by rw [← hm, List.drop_left]⟩

/-- The leader of an EOF that may be delivered. -/
theorem replica_of_isEof (ha : allowed cfg sys l) {c : Nat} {message : FilterQ5UsdConfig.Delivery}
    {write : Except String PUnit} (hl : l.label = .deliver message write)
    (he : FilterQ5UsdConfig.IsEof message c) : l.replica = cfg.leaderOf c := by
  obtain ⟨body, m, rfl, hm, ht, rfl⟩ := he
  have hp := ha.2
  simp only [hl, permits, deliverable, hm, ht] at hp
  have hboth : ¬ MessageType.eof.toNat = MessageType.abort.toNat ∧
      l.replica = cfg.leaderOf m.clientId := by simpa using hp
  exact hboth.2

/-- What the outputs of an input look like that are in the hands of a thread. -/
theorem Inv.publishing (h : Inv cfg sys) {i : Nat} {key : InputKey} {entry : OutboxEntry}
    {remaining : List OutboxEntry}
    (ht : .publishing key (entry :: remaining) ∈ (sys.replicas i).tasks) :
    beDecode (entry.body.take 1) ≠ MessageType.flushOrder.toNat ∧
    ∀ c ctrl, EofCoordinator.parseMessage entry.body = .ok (some .flushAck, c, ctrl) →
      Announced cfg c sys.trace := by
  obtain ⟨before, since, change, done, htrace, hdone⟩ := (h.sound i).publishing _ _ ht
  have hord := h.ordered i _ key change (done ++ entry :: remaining)
    (htrace ▸ List.mem_append_right _ List.mem_cons_self)
  rw [List.map_append, List.map_cons] at hord
  refine ⟨hord.order (entry.destination, entry.body) (by simp), fun c ctrl hp shard hs => ?_⟩
  obtain ⟨y, hy, hends⟩ := hord.ack _ _ _ rfl c ctrl hp shard hs
  obtain ⟨entry', he, rfl⟩ := List.mem_map.mp hy
  have hpub := h.shown i _ (htrace ▸ List.mem_append_right _
    (List.mem_cons_of_mem _ (hdone entry' he)))
  exact received_of_ends hpub hends

/-- The leader of a client records its end after every shard has got an EOF of it. -/
theorem Inv.announced_of_closes (h : Inv cfg sys) (hn : 2 ≤ cfg.worker.filterQ5UsdAmount)
    (ha : allowed cfg sys l) {message : FilterQ5UsdConfig.Delivery} {write : Except String PUnit}
    (hl : l.label = .deliver message write) {c : Nat} (hlead : l.replica = cfg.leaderOf c)
    (hc : (cfg.at l.replica).Closes (sys.state l.replica) message c) :
    Announced cfg c sys.trace := by
  have hp := ha.2
  rcases hc with ⟨body, ctrl, rfl, hparse⟩ | ⟨body, ctrl, rfl, hparse, hnot, hopen⟩ | hone |
    ⟨body, m, rfl, hm, ht⟩
  · simp only [hl, permits, deliverable, decide_eq_true_eq] at hp
    exact h.acks _ hp c ctrl hparse
  · -- only the leader orders to flush, and it does not flush on its own order
    simp only [hl, permits, deliverable, decide_eq_true_eq] at hp
    rcases h.orders _ (.inl hp) c ctrl hparse with hleads | hclosed
    · exact absurd (hlead ▸ hleads) hnot
    · exact absurd (hlead ▸ hclosed) hopen
  · have : cfg.worker.filterQ5UsdAmount ≤ 1 := hone
    omega
  · simp [hl, permits, deliverable, hm, ht] at hp

/-- An input that a step applies: its outputs are in order, and if it closes a client at the leader,
every shard has got an EOF of the client. -/
theorem Inv.applied (h : Inv cfg sys) (hn : 2 ≤ cfg.worker.filterQ5UsdAmount)
    (ha : allowed cfg sys l) {s : State FilterQ5UsdState FilterQ5UsdChange}
    (hstep : Step (cfg.at l.replica).consumer (sys.replicas l.replica) s l.label)
    {m : String} {key : InputKey} {change : FilterQ5UsdChange} {outputs : List OutboxEntry}
    (hm : .recorded (.inputApplied m key change outputs) ∈ s.trace)
    (hnew : .recorded (.inputApplied m key change outputs) ∉ (sys.replicas l.replica).trace) :
    cfg.worker.Ordered (outputs.map fun entry => (entry.destination, entry.body)) ∧
    ∀ c, .close c ∈ change.ops → l.replica = cfg.leaderOf c → Announced cfg c sys.trace := by
  generalize hl : l.label = label at hstep
  cases hstep with
  | quiet hq => exact absurd (hq.applied _ _ _ _ hm) hnew
  | direct hr hs | raised hr hs =>
    rw [hs] at hm
    exact absurd hm hnew
  | applied hr hstamp hw ht htasks =>
    rw [ht] at hm
    have hlast := List.mem_singleton.mp ((List.mem_append.mp hm).resolve_left hnew)
    simp only [Obs.recorded.injEq, WalRecord.inputApplied.injEq] at hlast
    obtain ⟨-, rfl, rfl, rfl⟩ := hlast
    have hhandled := (FilterQ5UsdConfig.react_handle hr).2 _ _ rfl
    refine ⟨?_, fun c hc hlead => h.announced_of_closes hn ha hl hlead (hhandled.closes c hc)⟩
    -- no edge is addressed
    rw [SenderSequencer.map_of_stamp_plain rfl hstamp]
    exact ⟨hhandled.ordered.order, hhandled.ordered.ack⟩

/-- What a step leaves in the hands of the threads of its replica that goes out outside the log. -/
theorem Inv.sending (h : Inv cfg sys) {s : State FilterQ5UsdState FilterQ5UsdChange}
    (hstep : Step (cfg.at l.replica).consumer (sys.replicas l.replica) s l.label)
    {sends : List (String × Bytes)} (hs : .sending sends ∈ s.tasks) {x : String × Bytes}
    (hx : x ∈ sends) :
    beDecode (x.2.take 1) ≠ MessageType.flushAck.toNat ∧
    ∀ c ctrl, EofCoordinator.parseMessage x.2 = .ok (some .flushOrder, c, ctrl) →
      (sys.state (cfg.leaderOf c)).Leads c ∨ c ∈ (sys.state (cfg.leaderOf c)).closedByClient := by
  have hold : ∀ sends', .sending sends' ∈ (sys.replicas l.replica).tasks → x ∈ sends' →
      beDecode (x.2.take 1) ≠ MessageType.flushAck.toNat ∧
      ∀ c ctrl, EofCoordinator.parseMessage x.2 = .ok (some .flushOrder, c, ctrl) →
        (sys.state (cfg.leaderOf c)).Leads c ∨ c ∈ (sys.state (cfg.leaderOf c)).closedByClient :=
    fun sends' hs' hx' => ⟨h.sends _ _ hs' x hx', h.orders x (.inr ⟨_, _, hs', hx'⟩)⟩
  generalize l.label = label at hstep
  cases hstep with
  | quiet hq =>
    obtain ⟨sends', hs', hsuf⟩ := hq.sending _ hs
    exact hold sends' hs' (hsuf.mem hx)
  | direct hr he =>
    rw [he] at hs
    rcases List.mem_append.mp hs with hs | hs
    · exact hold sends hs hx
    · cases List.mem_singleton.mp hs
      obtain ⟨hne, hleads⟩ := (FilterQ5UsdConfig.react_direct hr).2 x hx
      refine ⟨hne, fun c ctrl hp => .inl ?_⟩
      have hl := hleads c ctrl hp
      exact h.leads _ c hl ▸ hl
  | raised hr he =>
    rw [he] at hs
    exact hold sends hs hx
  | applied hr hstamp hw ht htasks =>
    rw [htasks] at hs
    refine hold sends ((List.mem_append.mp hs).resolve_right ?_) hx
    simp

theorem Inv.exec (h : Inv cfg sys) (hn : 2 ≤ cfg.worker.filterQ5UsdAmount)
    (ha : allowed cfg sys l) (he : exec cfg sys l = some sys') : Inv cfg sys' := by
  obtain ⟨s, hs, hrep, hqueues, more, hmore, htrace⟩ := exec_eq_some he
  have hstep := step_of_exec hs
  have hfollows := follows_of_step hstep
  have hsame : ∀ i, i ≠ l.replica → sys'.replicas i = sys.replicas i := fun i hi => by
    rw [hrep, Function.update_of_ne hi]
  have hself : sys'.replicas l.replica = s := by rw [hrep, Function.update_self]
  -- a client that its leader leads or has closed stays so
  have hkeeps : ∀ c, (sys.state (cfg.leaderOf c)).Leads c ∨
      c ∈ (sys.state (cfg.leaderOf c)).closedByClient →
      (sys'.state (cfg.leaderOf c)).Leads c ∨ c ∈ (sys'.state (cfg.leaderOf c)).closedByClient := by
    intro c hc
    by_cases hi : cfg.leaderOf c = l.replica
    · rw [state, hi, hself]
      exact hfollows.keeps c (hi ▸ hc)
    · rwa [state, hsame _ hi]
  refine ⟨fun i => ?_, fun i o ho => ?_, fun i m key change outputs hm => ?_, fun i c hl => ?_,
    fun i sends hm x hx => ?_, fun x hx c ctrl hp => hkeeps c ?_, fun x hx c ctrl hp => ?_,
    fun before hb c hf => ?_⟩
  · by_cases hi : i = l.replica
    · subst hi
      exact hself ▸ (h.sound _).exec hs
    · exact hsame i hi ▸ h.sound i
  · rw [htrace]
    by_cases hi : i = l.replica
    · subst hi
      rw [hself, hmore] at ho
      rcases List.mem_append.mp ho with ho | ho
      · exact List.mem_append_left _ (h.shown _ o ho)
      · exact List.mem_append_right _ (List.mem_map_of_mem ho)
    · exact List.mem_append_left _ (h.shown i o (hsame i hi ▸ ho))
  · by_cases hi : i = l.replica
    · subst hi
      rw [hself] at hm
      by_cases hold : .recorded (.inputApplied m key change outputs) ∈
        (sys.replicas l.replica).trace
      · exact h.ordered _ m key change outputs hold
      · exact (h.applied hn ha hstep hm hold).1
    · exact h.ordered i m key change outputs (hsame i hi ▸ hm)
  · by_cases hi : i = l.replica
    · subst hi
      rw [state, hself] at hl
      rcases hfollows.leads c hl with hl | ⟨message, write, hlabel, heof⟩
      · exact h.leads _ c hl
      · exact replica_of_isEof ha hlabel heof
    · exact h.leads i c (by rwa [state, hsame i hi] at hl)
  · by_cases hi : i = l.replica
    · subst hi
      exact (h.sending hstep (hself ▸ hm) hx).1
    · exact h.sends i sends (hsame i hi ▸ hm) x hx
  · -- `FLUSH_ORDER` goes out outside the log
    rcases hx with hx | ⟨i, sends, hm, hx⟩
    · rw [hqueues] at hx
      rcases List.mem_append.mp hx with hx | hx
      · exact h.orders x (.inl hx) c ctrl hp
      · rcases mem_sent hx with ⟨key, entry, remaining, ht, rfl⟩ | ⟨sends, hm, hx⟩
        · exact absurd (EofCoordinator.first_of_parseMessage hp) (h.publishing ht).1
        · exact h.orders x (.inr ⟨_, sends, hm, hx⟩) c ctrl hp
    · by_cases hi : i = l.replica
      · subst hi
        exact (h.sending hstep (hself ▸ hm) hx).2 c ctrl hp
      · exact h.orders x (.inr ⟨i, sends, hsame i hi ▸ hm, hx⟩) c ctrl hp
  · -- `FLUSH_ACK` goes out behind the EOFs
    rw [htrace]
    refine Announced.append ?_ _
    rw [hqueues] at hx
    rcases List.mem_append.mp hx with hx | hx
    · exact h.acks x hx c ctrl hp
    · rcases mem_sent hx with ⟨key, entry, remaining, ht, rfl⟩ | ⟨sends, hm, hx⟩
      · exact (h.publishing ht).2 c ctrl hp
      · exact absurd (EofCoordinator.first_of_parseMessage hp) (h.sends _ _ hm x hx)
  · rw [htrace] at hb
    rcases List.prefix_or_prefix_of_prefix hb (List.prefix_append _ _) with hb' | ⟨part, rfl⟩
    · exact h.flushed before hb' c hf
    · refine Announced.append ?_ _
      obtain ⟨m, key, change, outputs, hm, hc⟩ := hf
      by_cases hold : (cfg.leaderOf c, .recorded (.inputApplied m key change outputs)) ∈ sys.trace
      · exact h.flushed _ List.prefix_rfl c ⟨m, key, change, outputs, hold, hc⟩
      · -- the record is the one of this step
        have hm' := hb.subset hm
        obtain ⟨o, ho, heq⟩ := List.mem_map.mp ((List.mem_append.mp hm').resolve_left hold)
        simp only [Prod.mk.injEq] at heq
        obtain ⟨hlead, rfl⟩ := heq
        refine (h.applied hn ha hstep (hmore ▸ List.mem_append_right _ ho) fun hin =>
          hold ?_).2 c hc
          hlead
        exact hlead ▸ h.shown _ _ hin

theorem Run.inv (h : Run cfg sys) (hn : 2 ≤ cfg.worker.filterQ5UsdAmount) : Inv cfg sys :=
  h.invariant inv_init fun _ _ _ hi ha he => hi.exec hn ha he

/-- **No single EOF.** With two replicas or more, whatever the distribution of the transactions and
the interleaving, no shard gets one EOF of a client that is sent after all replicas flushed it: the
leader flushes last, and every shard has got the EOFs of the other replicas before. -/
theorem not_singleEof (cfg : Q5ClusterConfig) (hn : 2 ≤ cfg.worker.filterQ5UsdAmount)
    (sys : Q5Cluster)
    (hrun : Run cfg sys) (c shard : Nat) (hs : shard < cfg.worker.aggregationAmount) :
    ¬ SingleEof cfg sys c shard := by
  rintro ⟨before, o, after, m, ctrl, htrace, hnone, -, -, hflushed, -⟩
  refine (hrun.inv hn).flushed before ?_ c (hflushed _ (cfg.leaderOf_lt c)) shard hs hnone
  rw [htrace]
  exact List.prefix_append _ _

/-! ### Two replicas -/

/-- Two replicas and one aggregator, client `7` led by replica `0`, and the JSON texts of the
changes in the run below. -/
def pairConfig : Q5ClusterConfig where
  worker := {
    id := 0
    filterQ5UsdAmount := 2
    filterQ5UsdPrefix := "filter_q5_usd"
    aggregationAmount := 1
    aggregationPrefix := "aggregation_q5"
    snapshotInterval := 1000
    sha256 := fun _ => []
    getRate := fun _ _ => none
    mul := fun amount _ => amount
    changeJson := .ofTable [
      (.single (.data 7 ⟨1, 1, 1⟩), encodeText ("\x7b\"type\": \"data\", \"client_id\": 7, " ++
        "\"processed_count\": 1, \"forwarded_count\": 1, \"seq_advance\": 1\x7d")),
      (.single (.coordinatorUpstreamEof 7 2 1 1), encodeText ("\x7b\"type\": " ++
        "\"coordinator_upstream_eof\", \"client_id\": 7, \"expected_total\": 2, \"count\": 1, " ++
        "\"forwarded\": 1\x7d")),
      (.single (.coordinatorMsg .eofReceived 7 ⟨0, 2, 0⟩ 1 1), encodeText ("\x7b\"type\": " ++
        "\"coordinator_msg\", \"msg_type\": 7, \"client_id\": 7, \"sender_id\": 0, " ++
        "\"expected_total\": 2, \"processed_count\": 0, \"count\": 1, \"forwarded\": 1\x7d")),
      (.single (.data 7 ⟨0, 0, 0⟩), encodeText ("\x7b\"type\": \"data\", \"client_id\": 7, " ++
        "\"processed_count\": 0, \"forwarded_count\": 0, \"seq_advance\": 0\x7d")),
      (.compound [.coordinatorCleanup 7, .data 7 ⟨0, 0, 1⟩, .close 7],
        encodeText ("\x7b\"type\": " ++
        "\"compound\", \"changes\": [" ++
        "\x7b\"type\": \"coordinator_cleanup\", \"client_id\": 7\x7d, " ++
        "\x7b\"type\": \"data\", \"client_id\": 7, \"processed_count\": 0, " ++
        "\"forwarded_count\": 0, \"seq_advance\": 1\x7d, " ++
        "\x7b\"type\": \"close\", \"client_id\": 7\x7d]\x7d")),
      (.compound [.coordinatorMsg .flushAck 7 ⟨1, 0, 1⟩ 0 0, .data 7 ⟨0, 0, 1⟩, .close 7],
        encodeText ("\x7b\"type\": \"compound\", \"changes\": [" ++
        "\x7b\"type\": \"coordinator_msg\", \"msg_type\": 5, \"client_id\": 7, " ++
        "\"sender_id\": 1, " ++
        "\"expected_total\": 0, \"processed_count\": 1, \"count\": 0, \"forwarded\": 0\x7d, " ++
        "\x7b\"type\": \"data\", \"client_id\": 7, \"processed_count\": 0, " ++
        "\"forwarded_count\": 0, \"seq_advance\": 1\x7d, " ++
        "\x7b\"type\": \"close\", \"client_id\": 7\x7d]\x7d"))] }
  leaderOf _ := 0
  leaderOf_lt _ := by decide

/-- A wire of half a dollar. -/
def cheapWire : Transaction where
  date := "2022/09/01 00:17"
  fromBank := "070"
  fromAccount := "100428660"
  toBank := "1124"
  toAccount := "800825340"
  amount := 0x3fe0000000000000
  currency := "US Dollar"
  format := "Wire"
  rowNumber := 1

/-- A batch of client `7` with the wire. -/
def cheapBatch (senderId : Nat) : Bytes :=
  ((do
    let payload ← TransactionSerializer.serialize cheapWire
    createAddressedPacket MessageType.data.toNat 7 senderId 0 payload).toOption).getD []

/-- The upstream EOF of client `7`. -/
def pairEof : Bytes :=
  ((do
    let payload ← ControlMessage.serialize { senderId := 3, expectedTotal := 2 }
    createAddressedPacket MessageType.eof.toNat 7 3 1 payload).toOption).getD []

def controlBody (msgType : MessageType) (senderId expectedTotal processedCount : Nat) : Bytes :=
  (ControlPacket.toBytes ⟨msgType, 7, ⟨senderId, expectedTotal, processedCount⟩⟩).toOption.getD []

/-- A message that is handled, with its outputs, to its end. -/
def through (replica : Nat) (message : FilterQ5UsdConfig.Delivery) (outputs : Nat) : List Q5Act :=
  ⟨replica, .deliver message (.ok ⟨⟩)⟩ :: List.replicate outputs ⟨replica, .publish 0 true⟩ ++
    [⟨replica, .commit 0 (.ok ⟨⟩)⟩, ⟨replica, .ack 0⟩]

/-- A message that is answered outside the log. -/
def aside (replica : Nat) (message : FilterQ5UsdConfig.Delivery) (sends : Nat) : List Q5Act :=
  ⟨replica, .deliver message (.ok ⟨⟩)⟩ :: List.replicate sends ⟨replica, .publish 0 true⟩ ++
    [⟨replica, .ack 0⟩]

/-- One wire at each replica, and the end of the client. -/
def pairRun : List Q5Act :=
  through 0 (.queue (.input (cheapBatch 3))) 1 ++
  through 1 (.queue (.input (cheapBatch 4))) 1 ++
  through 0 (.queue (.input pairEof)) 2 ++
  through 0 (.queue (.control (controlBody .eofReceived 0 2 0))) 1 ++
  through 1 (.queue (.control (controlBody .eofReceived 0 2 0))) 1 ++
  aside 0 (.queue (.response (controlBody .processedAnswer 0 1 1))) 0 ++
  aside 0 (.queue (.response (controlBody .processedAnswer 1 1 1))) 2 ++
  through 1 (.queue (.control (controlBody .flushOrder 0 0 0))) 2 ++
  through 0 (.queue (.control (controlBody .flushOrder 0 0 0))) 0 ++
  through 0 (.queue (.response (controlBody .flushAck 1 0 1))) 1

/-- The totals of the EOFs that the aggregator has got for client `7`. -/
def eofTotals (sys : Q5Cluster) : List (Option Nat) :=
  (received pairConfig .eof 7 0 sys.trace).map fun m =>
    (ControlMessage.deserialize m.payload).toOption.map ControlMessage.expectedTotal

set_option maxRecDepth 20000 in
/-- The run above: nothing fails, both replicas close the client, and the aggregator gets two EOFs,
the first with the total of one replica. -/
theorem exists_pairRun : ∃ sys, Run pairConfig sys ∧
    (∀ i < 2, (sys.state i).isClosed 7 = true ∧ (sys.replicas i).tasks = []) ∧
    eofTotals sys = [some 1, some 2] ∧ forwardedByAll pairConfig 7 sys.trace = 2 := by
  have hrun : (runAllowed (exec pairConfig) (allowed pairConfig) (init pairConfig) pairRun).map
      (fun sys => (((List.range 2).all fun i =>
        (sys.state i).isClosed 7 && decide ((sys.replicas i).tasks = [])), eofTotals sys,
        forwardedByAll pairConfig 7 sys.trace)) = some (true, [some 1, some 2], 2) := by
    decide +kernel
  obtain ⟨sys, hsys, ht⟩ := Option.map_eq_some_iff.mp hrun
  simp only [Prod.mk.injEq, List.all_eq_true, List.mem_range, Bool.and_eq_true,
    decide_eq_true_eq] at ht
  exact ⟨sys, reachable_of_runAllowed .init hsys, ht⟩

theorem two_eofs_when_nothing_fails : ∃ sys, Run pairConfig sys ∧
    (∀ i < 2, (sys.state i).isClosed 7 = true ∧ (sys.replicas i).tasks = []) ∧
    eofTotals sys = [some 1, some 2] ∧ forwardedByAll pairConfig 7 sys.trace = 2 ∧
    ¬ ∀ shard < 1, SingleEof pairConfig sys 7 shard := by
  obtain ⟨sys, hrun, hclosed, htotals, hforwarded⟩ := exists_pairRun
  refine ⟨sys, hrun, hclosed, htotals, hforwarded, fun hsingle => ?_⟩
  obtain ⟨before, o, after, m, ctrl, htrace, h₁, h₂, h₃, -⟩ := hsingle 0 (by decide)
  -- one EOF in the trace, but two totals
  have hone : received pairConfig .eof 7 0 sys.trace = [m] := by
    rw [htrace, ← List.singleton_append, received, List.filterMap_append, List.filterMap_append]
    exact congrArg₂ (· ++ ·) h₁ (congrArg₂ (· ++ ·) h₂ h₃)
  have hlength := congrArg List.length htotals
  rw [eofTotals, hone] at hlength
  cases hlength

theorem not_singleEof_pair : ∃ sys, Run pairConfig sys ∧ eofTotals sys = [some 1, some 2] ∧
    ¬ SingleEof pairConfig sys 7 0 := by
  obtain ⟨sys, hrun, -, htotals, -⟩ := exists_pairRun
  exact ⟨sys, hrun, htotals, not_singleEof pairConfig (by decide) sys hrun 7 0 (by decide)⟩

end Q5Cluster

end MoneyLaundering
