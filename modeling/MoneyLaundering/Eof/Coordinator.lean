import Mathlib.Algebra.BigOperators.Group.Finset.Basic
import Mathlib.Algebra.Order.BigOperators.Group.Finset
import MoneyLaundering.Lib.Dict
import MoneyLaundering.Lib.Transition
import MoneyLaundering.MessageProtocol

/-!
# The EOF coordinator

`EofCoordinator` (`common/eof_coordinator.py`): the replicas of a worker agree that all messages of
a client were processed before any of them flushes. The first part is the coordinator of one
replica, in both modes. The second part runs any number of them over a network that may delay,
repeat, reorder and lose every message, and shows that `FLUSH_ORDER` is never premature.
-/

namespace MoneyLaundering

open Bytes

/-- `mode`. -/
inductive CoordinatorMode where
  | broadcast | flushOrder
  deriving DecidableEq, Repr

/-- What a coordinator is constructed with. -/
structure CoordinatorConfig where
  instanceId : Nat
  totalInstances : Nat
  controlQueuePrefix : String
  responseQueuePrefix : String
  mode : CoordinatorMode := .broadcast
  leaderId : Nat := 0
  deriving DecidableEq

namespace CoordinatorConfig

def isLeader (cfg : CoordinatorConfig) : Bool := cfg.instanceId == cfg.leaderId

def controlQueueFor (cfg : CoordinatorConfig) (instanceId : Nat) : String :=
  s!"{cfg.controlQueuePrefix}_{instanceId}"

def responseQueueFor (cfg : CoordinatorConfig) (instanceId : Nat) : String :=
  s!"{cfg.responseQueuePrefix}_{instanceId}"

end CoordinatorConfig

/-- A packet of `_make_packet`, before serialization. -/
structure ControlPacket where
  msgType : MessageType
  clientId : Nat
  ctrl : ControlMessage
  deriving DecidableEq

/-- The bytes of `_make_packet`. -/
def ControlPacket.toBytes (p : ControlPacket) : Except String Bytes := do
  let payload ← p.ctrl.serialize
  InternalProtocol.createPacket p.msgType.toNat p.clientId payload

/-- `CoordinatorAction`. The delay before a broadcast is in milliseconds. -/
inductive CoordinatorAction where
  | sendAnswer (queueName : String) (message : ControlPacket)
  | broadcast (queueNames : List String) (message : ControlPacket) (sleepBefore : Nat)
  | flush (isLeader : Bool) (totalForwarded : Nat) (ackQueue : String)
  deriving DecidableEq

/-- The state of an `EofCoordinator`. -/
structure EofCoordinator where
  pendingEof : Dict Nat (Nat × Nat) := ∅
  seenEof : Finset Nat := ∅
  leaderExpected : Dict Nat Nat := ∅
  leaderProcessed : Dict Nat Nat := ∅
  leaderResponders : Dict Nat (Finset Nat) := ∅
  flushAcks : Dict Nat (Finset Nat) := ∅
  forwardedFromAcks : Dict Nat Nat := ∅
  deriving DecidableEq

namespace EofCoordinator

variable (cfg : CoordinatorConfig)

/-! ## One replica -/

/-- `build_answer`. -/
def buildAnswer (clientId processed forwarded : Nat) : ControlPacket where
  msgType := .processedAnswer
  clientId := clientId
  ctrl := { senderId := cfg.instanceId, expectedTotal := forwarded, processedCount := processed }

/-- The control queues of all replicas. -/
def allControlQueues : List String := (List.range cfg.totalInstances).map cfg.controlQueueFor

def clearPendingEof (s : EofCoordinator) (clientId : Nat) : EofCoordinator :=
  { s with pendingEof := s.pendingEof.erase clientId }

def cleanupClient (s : EofCoordinator) (clientId : Nat) : EofCoordinator :=
  { s with
    pendingEof := s.pendingEof.erase clientId
    seenEof := s.seenEof.erase clientId }

/-- The end of a client on its leader, once all acks are in. -/
def cleanupLeaderState (s : EofCoordinator) (clientId : Nat) : EofCoordinator :=
  { s with
    flushAcks := s.flushAcks.erase clientId
    forwardedFromAcks := s.forwardedFromAcks.erase clientId
    leaderExpected := s.leaderExpected.erase clientId
    pendingEof :=
      if cfg.mode = .broadcast then s.pendingEof.erase clientId else s.pendingEof
    seenEof := if cfg.mode = .broadcast then s.seenEof else s.seenEof.erase clientId }

def onUpstreamEof (s : EofCoordinator)
    (clientId expectedTotal currentCount currentForwarded : Nat) :
    EofCoordinator × Option CoordinatorAction :=
  if cfg.totalInstances ≤ 1 then (s, some (.flush true currentForwarded ""))
  else
    match cfg.mode with
    | .broadcast =>
      ({ s with leaderExpected := s.leaderExpected.set clientId expectedTotal },
        some (.broadcast (allControlQueues cfg)
          { msgType := .eofReceived, clientId
            ctrl := { senderId := cfg.instanceId, expectedTotal } } 0))
    | .flushOrder =>
      if clientId ∈ s.seenEof then (s, none)
      else
        ({ s with
           seenEof := insert clientId s.seenEof
           leaderExpected :=
             if cfg.isLeader then s.leaderExpected.set clientId expectedTotal
             else s.leaderExpected },
          some (.sendAnswer (cfg.responseQueueFor cfg.leaderId)
            (buildAnswer cfg clientId currentCount currentForwarded)))

/-- `_on_eof_received`. -/
def onEofReceived (s : EofCoordinator) (clientId : Nat) (ctrl : ControlMessage)
    (currentCount currentForwarded : Nat) : EofCoordinator × Option CoordinatorAction :=
  if s.pendingEof.contains clientId then (s, none)
  else
    ({ s with pendingEof := s.pendingEof.set clientId (ctrl.expectedTotal, ctrl.senderId) },
      some (.sendAnswer (cfg.responseQueueFor ctrl.senderId)
        (buildAnswer cfg clientId currentCount currentForwarded)))

/-- `_on_processed_request`. -/
def onProcessedRequest (s : EofCoordinator) (clientId : Nat) (currentCount currentForwarded : Nat) :
    EofCoordinator × Option CoordinatorAction :=
  match cfg.mode with
  | .broadcast =>
    match s.pendingEof.get? clientId with
    | none => (s, none)
    | some (_, leaderId) =>
      (s, some (.sendAnswer (cfg.responseQueueFor leaderId)
        (buildAnswer cfg clientId currentCount currentForwarded)))
  | .flushOrder =>
    (s, some (.sendAnswer (cfg.responseQueueFor cfg.leaderId)
      (buildAnswer cfg clientId currentCount currentForwarded)))

/-- `_on_processed_answer`. -/
def onProcessedAnswer (s : EofCoordinator) (clientId : Nat) (ctrl : ControlMessage) :
    EofCoordinator × Option CoordinatorAction :=
  let responders := s.leaderResponders.getD clientId ∅
  if ctrl.senderId ∈ responders then (s, none)
  else
    let responders := insert ctrl.senderId responders
    let running := s.leaderProcessed.getD clientId 0 + ctrl.processedCount
    let s := { s with
      leaderResponders := s.leaderResponders.set clientId responders
      leaderProcessed := s.leaderProcessed.set clientId running }
    match s.leaderExpected.get? clientId with
    | none => (s, none)
    | some expected =>
      if responders.card < cfg.totalInstances then (s, none)
      else if expected ≤ running then
        ({ s with
           leaderResponders := s.leaderResponders.erase clientId
           leaderProcessed := s.leaderProcessed.erase clientId },
          some (.broadcast (allControlQueues cfg)
            { msgType := .flushOrder, clientId
              ctrl := { senderId := cfg.instanceId, expectedTotal := 0 } } 0))
      else
        ({ s with
           leaderResponders := s.leaderResponders.set clientId ∅
           leaderProcessed := s.leaderProcessed.set clientId 0 },
          some (.broadcast (allControlQueues cfg)
            { msgType := .processedRequest, clientId
              ctrl := { senderId := cfg.instanceId, expectedTotal := expected } } 500))

/-- Whether this replica leads the client. -/
def isLeaderHere (s : EofCoordinator) (clientId : Nat) : Bool :=
  match cfg.mode with
  | .broadcast => s.leaderExpected.contains clientId
  | .flushOrder => cfg.isLeader

/-- `_on_flush_order`. -/
def onFlushOrder (s : EofCoordinator) (clientId : Nat) (ctrl : ControlMessage) :
    EofCoordinator × Option CoordinatorAction :=
  if isLeaderHere cfg s clientId then (s, none)
  else (s, some (.flush false 0 (cfg.responseQueueFor ctrl.senderId)))

/-- `_on_flush_ack`. -/
def onFlushAck (s : EofCoordinator) (clientId : Nat) (ctrl : ControlMessage) :
    EofCoordinator × Option CoordinatorAction :=
  if isLeaderHere cfg s clientId then
    let acks := insert ctrl.senderId (s.flushAcks.getD clientId ∅)
    let forwarded := s.forwardedFromAcks.getD clientId 0 + ctrl.processedCount
    if acks.card < cfg.totalInstances - 1 then
      ({ s with
         flushAcks := s.flushAcks.set clientId acks
         forwardedFromAcks := s.forwardedFromAcks.set clientId forwarded }, none)
    else (cleanupLeaderState cfg s clientId, some (.flush true forwarded ""))
  else (s, none)

def processControlMessage (s : EofCoordinator) (msgType : MessageType) (clientId : Nat)
    (ctrl : ControlMessage) (currentCount currentForwarded : Nat) :
    EofCoordinator × Option CoordinatorAction :=
  match msgType with
  | .eofReceived => onEofReceived cfg s clientId ctrl currentCount currentForwarded
  | .processedRequest => onProcessedRequest cfg s clientId currentCount currentForwarded
  | .processedAnswer => onProcessedAnswer cfg s clientId ctrl
  | .flushOrder => onFlushOrder cfg s clientId ctrl
  | .flushAck => onFlushAck cfg s clientId ctrl
  | _ => (s, none)

/-- Which actions `process_control_message` can answer with, as far as the flush decision and the
answers of a replica are concerned. -/
theorem processControlMessage_flushOrder {s : EofCoordinator} {p : ControlPacket}
    {count forwarded : Nat} {queues : List String} {message : ControlPacket} {sleep : Nat}
    (h : (processControlMessage cfg s p.msgType p.clientId p.ctrl count forwarded).2 =
      some (.broadcast queues message sleep)) (hm : message.msgType = .flushOrder) :
    p.msgType = .processedAnswer ∧ message.clientId = p.clientId ∧
    p.ctrl.senderId ∉ s.leaderResponders.getD p.clientId ∅ ∧
    ∃ expected, s.leaderExpected.get? p.clientId = some expected ∧
      cfg.totalInstances ≤ (insert p.ctrl.senderId (s.leaderResponders.getD p.clientId ∅)).card ∧
      expected ≤ s.leaderProcessed.getD p.clientId 0 + p.ctrl.processedCount := by
  unfold processControlMessage at h
  split at h
  · unfold onEofReceived at h
    split at h <;> simp at h
  · unfold onProcessedRequest at h
    split at h
    · split at h <;> simp at h
    · simp at h
  · next ht =>
    unfold onProcessedAnswer at h
    simp only at h
    split at h
    · cases h
    · next hnew =>
      split at h
      · cases h
      · next expected hexp =>
        split at h
        · cases h
        · next hcard =>
          split at h
          · next hle =>
            simp only [Option.some.injEq, CoordinatorAction.broadcast.injEq] at h
            obtain ⟨-, rfl, -⟩ := h
            exact ⟨ht, rfl, hnew, expected, hexp, by omega, hle⟩
          · simp only [Option.some.injEq, CoordinatorAction.broadcast.injEq] at h
            obtain ⟨-, rfl, -⟩ := h
            cases hm
  · unfold onFlushOrder at h
    split at h <;> simp at h
  · unfold onFlushAck at h
    split at h
    · simp only at h
      split at h <;> simp at h
    · cases h
  · cases h

/-- Asking and looking at an order change nothing. -/
theorem onProcessedRequest_fst (cfg : CoordinatorConfig) (s : EofCoordinator) (clientId : Nat)
    (count forwarded : Nat) : (s.onProcessedRequest cfg clientId count forwarded).1 = s := by
  unfold onProcessedRequest
  split
  · split <;> rfl
  · rfl

theorem onFlushOrder_fst (cfg : CoordinatorConfig) (s : EofCoordinator) (clientId : Nat)
    (ctrl : ControlMessage) : (s.onFlushOrder cfg clientId ctrl).1 = s := by
  unfold onFlushOrder
  split <;> rfl

/-- The only packet sent on an announced EOF is the answer of the replica. -/
theorem msgType_of_onEofReceived {s : EofCoordinator} {clientId count forwarded : Nat}
    {ctrl : ControlMessage} {queueName : String} {message : ControlPacket}
    (h : (onEofReceived cfg s clientId ctrl count forwarded).2 =
      some (.sendAnswer queueName message)) : message.msgType = .processedAnswer := by
  unfold onEofReceived at h
  split at h
  · cases h
  · cases h; rfl

/-- Whatever goes to one queue is the answer of the replica. -/
theorem msgType_of_sendAnswer {s : EofCoordinator} {msgType : MessageType}
    {clientId count forwarded : Nat}
    {ctrl : ControlMessage} {queueName : String} {message : ControlPacket}
    (h : (processControlMessage cfg s msgType clientId ctrl count forwarded).2 =
      some (.sendAnswer queueName message)) : message.msgType = .processedAnswer := by
  unfold processControlMessage at h
  split at h
  · exact msgType_of_onEofReceived cfg h
  · unfold onProcessedRequest at h
    split at h
    · split at h
      · cases h
      · cases h; rfl
    · cases h; rfl
  · unfold onProcessedAnswer at h
    simp only at h
    split at h
    · cases h
    · split at h
      · cases h
      · split at h
        · cases h
        · split at h <;> cases h
  · unfold onFlushOrder at h
    split at h <;> cases h
  · unfold onFlushAck at h
    split at h
    · simp only at h
      split at h <;> cases h
    · cases h
  · cases h

/-- A broadcast that answers a control message ends a counting round. -/
theorem msgType_of_broadcast {s : EofCoordinator} {msgType : MessageType}
    {clientId count forwarded : Nat}
    {ctrl : ControlMessage} {queues : List String} {message : ControlPacket} {sleep : Nat}
    (h : (processControlMessage cfg s msgType clientId ctrl count forwarded).2 =
      some (.broadcast queues message sleep)) :
    message.msgType = .flushOrder ∨ message.msgType = .processedRequest := by
  unfold processControlMessage at h
  split at h
  · unfold onEofReceived at h
    split at h <;> simp at h
  · unfold onProcessedRequest at h
    split at h
    · split at h <;> simp at h
    · simp at h
  · unfold onProcessedAnswer at h
    simp only at h
    split at h
    · cases h
    · split at h
      · cases h
      · split at h
        · cases h
        · split at h
          · cases h; exact .inl rfl
          · cases h; exact .inr rfl
  · unfold onFlushOrder at h
    split at h <;> simp at h
  · unfold onFlushAck at h
    split at h
    · simp only at h
      split at h <;> simp at h
    · cases h
  · cases h

/-- The messages an action puts on the network. -/
def messagesOf : Option CoordinatorAction → List ControlPacket
  | some (.sendAnswer _ message) => [message]
  | some (.broadcast _ message _) => [message]
  | _ => []

/-- The replica answers with its own id and the count it was given. -/
theorem answer_of_processControlMessage {s : EofCoordinator} {p m : ControlPacket}
    {count forwarded : Nat}
    (h : m ∈ messagesOf (processControlMessage cfg s p.msgType p.clientId p.ctrl count forwarded).2)
    (hm : m.msgType = .processedAnswer) :
    m.clientId = p.clientId ∧ m.ctrl.senderId = cfg.instanceId ∧ m.ctrl.processedCount = count := by
  unfold processControlMessage at h
  split at h
  · unfold onEofReceived at h
    split at h
    · cases h
    · obtain rfl := List.mem_singleton.mp h
      exact ⟨rfl, rfl, rfl⟩
  · unfold onProcessedRequest at h
    split at h
    · split at h
      · cases h
      · obtain rfl := List.mem_singleton.mp h
        exact ⟨rfl, rfl, rfl⟩
    · obtain rfl := List.mem_singleton.mp h
      exact ⟨rfl, rfl, rfl⟩
  · unfold onProcessedAnswer at h
    simp only at h
    split at h
    · cases h
    · split at h
      · cases h
      · split at h
        · cases h
        · split at h <;>
            (obtain rfl := List.mem_singleton.mp h
             cases hm)
  · unfold onFlushOrder at h
    split at h <;> cases h
  · unfold onFlushAck at h
    split at h
    · simp only at h
      split at h <;> cases h
    · cases h
  · cases h

theorem answer_of_onUpstreamEof {s : EofCoordinator} {m : ControlPacket}
    {clientId expected count forwarded : Nat}
    (h : m ∈ messagesOf (onUpstreamEof cfg s clientId expected count forwarded).2)
    (hm : m.msgType = .processedAnswer) :
    m.clientId = clientId ∧ m.ctrl.senderId = cfg.instanceId ∧ m.ctrl.processedCount = count := by
  unfold onUpstreamEof at h
  split at h
  · cases h
  · split at h
    · obtain rfl := List.mem_singleton.mp h
      cases hm
    · split at h
      · cases h
      · obtain rfl := List.mem_singleton.mp h
        exact ⟨rfl, rfl, rfl⟩

end EofCoordinator

/-! ## All replicas -/

namespace EofCluster

open EofCoordinator

/-- The coordinators of all replicas, the number of messages of each client that each replica really
processed, and every packet ever sent. -/
structure State where
  coordinators : Nat → EofCoordinator := fun _ => {}
  processed : Nat → Nat → Nat := fun _ _ => 0
  sent : List ControlPacket := []

/-- What can happen. A sent packet may be delivered any number of times, to any replica, at any time
or never. -/
inductive Label where
  | process (replica clientId amount : Nat)
  | upstreamEof (replica clientId expectedTotal count forwarded : Nat)
  | deliver (replica : Nat) (packet : ControlPacket) (count forwarded : Nat)
  | sendFlushAck (replica clientId forwarded : Nat)
  | clearPendingEof (replica clientId : Nat)
  | cleanupClient (replica clientId : Nat)
  | cleanupLeaderState (replica clientId : Nat)

/-- The configuration of one replica. -/
def replicaConfig (cfg : CoordinatorConfig) (replica : Nat) : CoordinatorConfig :=
  { cfg with instanceId := replica }

/-- A replica has called its coordinator. -/
def afterCall (s : State) (replica : Nat) (r : EofCoordinator × Option CoordinatorAction) : State :=
  { s with
    coordinators := Function.update s.coordinators replica r.1
    sent := s.sent ++ messagesOf r.2 }

/-- The count that a replica reports is one it had at some moment before. -/
def exec (cfg : CoordinatorConfig) (s : State) : Label → Option State
  | .process replica clientId amount =>
    some { s with
      processed := Function.update s.processed replica
        (Function.update (s.processed replica) clientId (s.processed replica clientId + amount)) }
  | .upstreamEof replica clientId expectedTotal count forwarded =>
    if replica < cfg.totalInstances ∧ count ≤ s.processed replica clientId then
      some (afterCall s replica (onUpstreamEof (replicaConfig cfg replica) (s.coordinators replica)
        clientId expectedTotal count forwarded))
    else none
  | .deliver replica packet count forwarded =>
    if replica < cfg.totalInstances ∧ packet ∈ s.sent ∧
        count ≤ s.processed replica packet.clientId then
      some (afterCall s replica (processControlMessage (replicaConfig cfg replica)
        (s.coordinators replica) packet.msgType packet.clientId packet.ctrl count forwarded))
    else none
  | .sendFlushAck replica clientId forwarded =>
    some { s with sent := s.sent ++
      [{ msgType := .flushAck, clientId
         ctrl := { senderId := replica, expectedTotal := 0, processedCount := forwarded } }] }
  | .clearPendingEof replica clientId =>
    some (afterCall s replica ((s.coordinators replica).clearPendingEof clientId, none))
  | .cleanupClient replica clientId =>
    some (afterCall s replica ((s.coordinators replica).cleanupClient clientId, none))
  | .cleanupLeaderState replica clientId =>
    some (afterCall s replica
      (cleanupLeaderState (replicaConfig cfg replica) (s.coordinators replica) clientId, none))

/-- The running sums of a coordinator are covered by what its responders really processed. -/
def Accounted (replicas : Nat) (processed : Nat → Nat → Nat) (s : EofCoordinator) : Prop :=
  ∀ c, s.leaderResponders.getD c ∅ ⊆ Finset.range replicas ∧
    s.leaderProcessed.getD c 0 ≤ ∑ j ∈ s.leaderResponders.getD c ∅, processed j c

section accounted
variable {cfg : CoordinatorConfig} {replicas : Nat} {processed processed' : Nat → Nat → Nat}
  {s t : EofCoordinator}

theorem accounted_default : Accounted replicas processed {} := by
  intro c; simp

theorem Accounted.mono (h : Accounted replicas processed s)
    (hle : ∀ j c, processed j c ≤ processed' j c) : Accounted replicas processed' s := fun c =>
  ⟨(h c).1, (h c).2.trans (Finset.sum_le_sum fun j _ => hle j c)⟩

/-- Only the responders and the running sums matter. -/
theorem Accounted.congr (h : Accounted replicas processed s)
    (hr : t.leaderResponders = s.leaderResponders) (hp : t.leaderProcessed = s.leaderProcessed) :
    Accounted replicas processed t := fun c => by rw [hr, hp]; exact h c

/-- Setting one client to values that are covered. -/
theorem Accounted.set (h : Accounted replicas processed s) {c : Nat} {responders : Finset Nat}
    {running : Nat} (hsub : responders ⊆ Finset.range replicas)
    (hle : running ≤ ∑ j ∈ responders, processed j c)
    (hr : t.leaderResponders = s.leaderResponders.set c responders)
    (hp : t.leaderProcessed = s.leaderProcessed.set c running) :
    Accounted replicas processed t := by
  intro c'
  rw [hr, hp, Dict.getD_set, Dict.getD_set]
  by_cases hc : c = c'
  · subst hc; simpa using ⟨hsub, hle⟩
  · simpa [hc] using h c'

theorem Accounted.erase (h : Accounted replicas processed s) (c : Nat)
    (hr : ∀ c', t.leaderResponders.getD c' ∅ =
      if c' = c then ∅ else s.leaderResponders.getD c' ∅)
    (hp : ∀ c', t.leaderProcessed.getD c' 0 = if c' = c then 0 else s.leaderProcessed.getD c' 0) :
    Accounted replicas processed t := by
  intro c'
  rw [hr, hp]
  by_cases hc : c' = c
  · simp [hc]
  · simpa [hc] using h c'

theorem Accounted.onUpstreamEof (h : Accounted replicas processed s)
    (clientId expected count forwarded : Nat) :
    Accounted replicas processed (onUpstreamEof cfg s clientId expected count forwarded).1 := by
  unfold EofCoordinator.onUpstreamEof
  split
  · exact h
  · split
    · exact h.congr rfl rfl
    · split
      · exact h
      · exact h.congr rfl rfl

/-- An answer adds its sender and a count that its sender had reached. -/
theorem Accounted.onProcessedAnswer (h : Accounted replicas processed s) {clientId : Nat}
    {ctrl : ControlMessage} (hlt : ctrl.senderId < replicas)
    (hle : ctrl.processedCount ≤ processed ctrl.senderId clientId) :
    Accounted replicas processed (onProcessedAnswer cfg s clientId ctrl).1 := by
  unfold EofCoordinator.onProcessedAnswer
  simp only
  split
  · exact h
  · next hnew =>
    obtain ⟨hsub, hsum⟩ := h clientId
    have hsub' : insert ctrl.senderId (s.leaderResponders.getD clientId ∅) ⊆
        Finset.range replicas := Finset.insert_subset (Finset.mem_range.mpr hlt) hsub
    have hsum' : s.leaderProcessed.getD clientId 0 + ctrl.processedCount ≤
        ∑ j ∈ insert ctrl.senderId (s.leaderResponders.getD clientId ∅), processed j clientId := by
      rw [Finset.sum_insert hnew]; omega
    split
    · exact h.set hsub' hsum' rfl rfl
    · split
      · exact h.set hsub' hsum' rfl rfl
      · split
        · refine h.erase clientId (fun c' => ?_) fun c' => ?_ <;>
            simp only [Dict.getD_erase, Dict.getD_set, @eq_comm _ clientId] <;> split <;> rfl
        · refine h.erase clientId (fun c' => ?_) fun c' => ?_ <;>
            simp only [Dict.getD_set, @eq_comm _ clientId] <;> split <;> rfl

theorem Accounted.processControlMessage (h : Accounted replicas processed s) {p : ControlPacket}
    {count forwarded : Nat} (hp : p.msgType = .processedAnswer → p.ctrl.senderId < replicas ∧
      p.ctrl.processedCount ≤ processed p.ctrl.senderId p.clientId) :
    Accounted replicas processed
      (processControlMessage cfg s p.msgType p.clientId p.ctrl count forwarded).1 := by
  unfold EofCoordinator.processControlMessage
  split
  · unfold onEofReceived
    split <;> exact h.congr rfl rfl
  · unfold onProcessedRequest
    split
    · split <;> exact h
    · exact h
  · next ht => exact h.onProcessedAnswer (hp ht).1 (hp ht).2
  · unfold onFlushOrder
    split <;> exact h
  · unfold onFlushAck
    split
    · simp only
      split <;> exact h.congr rfl rfl
    · exact h
  · exact h

end accounted

/-- Every answer on the network is covered, and so are all running sums. -/
structure Inv (cfg : CoordinatorConfig) (s : State) : Prop where
  answers : ∀ m ∈ s.sent, m.msgType = .processedAnswer → m.ctrl.senderId < cfg.totalInstances ∧
    m.ctrl.processedCount ≤ s.processed m.ctrl.senderId m.clientId
  accounted : ∀ r, Accounted cfg.totalInstances s.processed (s.coordinators r)

variable {cfg : CoordinatorConfig} {s s' : State}

theorem inv_init : Inv cfg {} := ⟨by simp, fun _ => accounted_default⟩

/-- A call of a replica keeps the invariant when its answer is covered. -/
theorem Inv.afterCall (h : Inv cfg s) {replica : Nat}
    {r : EofCoordinator × Option CoordinatorAction}
    (ha : Accounted cfg.totalInstances s.processed r.1)
    (hm : ∀ m ∈ messagesOf r.2, m.msgType = .processedAnswer →
      m.ctrl.senderId < cfg.totalInstances ∧
      m.ctrl.processedCount ≤ s.processed m.ctrl.senderId m.clientId) :
    Inv cfg (afterCall s replica r) where
  answers m hmem ht := by
    rcases List.mem_append.mp hmem with hmem | hmem
    · exact h.answers m hmem ht
    · exact hm m hmem ht
  accounted r' := by
    simp only [EofCluster.afterCall, Function.update_apply]
    split
    · exact ha
    · exact h.accounted r'

theorem Inv.exec {l : Label} (h : Inv cfg s) (he : exec cfg s l = some s') : Inv cfg s' := by
  cases l with
  | process replica clientId amount =>
    cases he
    have hle : ∀ j c, s.processed j c ≤ Function.update s.processed replica
        (Function.update (s.processed replica) clientId
          (s.processed replica clientId + amount)) j c := by
      intro j c
      simp only [Function.update_apply]
      split
      · next hj =>
        subst hj
        simp only [Function.update_apply]
        split
        · next hc => subst hc; omega
        · exact le_rfl
      · exact le_rfl
    exact ⟨fun m hm ht => ⟨(h.answers m hm ht).1, (h.answers m hm ht).2.trans (hle _ _)⟩,
      fun r => (h.accounted r).mono hle⟩
  | upstreamEof replica clientId expectedTotal count forwarded =>
    simp only [EofCluster.exec] at he
    split at he
    · next hok =>
      cases he
      refine h.afterCall ((h.accounted replica).onUpstreamEof _ _ _ _) fun m hm ht => ?_
      obtain ⟨hc, hs, hn⟩ := answer_of_onUpstreamEof _ hm ht
      rw [hc, hs, hn]
      exact hok
    · cases he
  | deliver replica packet count forwarded =>
    simp only [EofCluster.exec] at he
    split at he
    · next hok =>
      cases he
      refine h.afterCall ((h.accounted replica).processControlMessage
        (h.answers packet hok.2.1)) fun m hm ht => ?_
      obtain ⟨hc, hs, hn⟩ := answer_of_processControlMessage _ hm ht
      rw [hc, hs, hn]
      exact ⟨hok.1, hok.2.2⟩
    · cases he
  | sendFlushAck replica clientId forwarded =>
    cases he
    refine ⟨fun m hm ht => ?_, h.accounted⟩
    rcases List.mem_append.mp hm with hm | hm
    · exact h.answers m hm ht
    · obtain rfl := List.mem_singleton.mp hm
      cases ht
  | clearPendingEof replica clientId =>
    cases he
    exact h.afterCall ((h.accounted replica).congr rfl rfl) (by simp [messagesOf])
  | cleanupClient replica clientId =>
    cases he
    exact h.afterCall ((h.accounted replica).congr rfl rfl) (by simp [messagesOf])
  | cleanupLeaderState replica clientId =>
    cases he
    exact h.afterCall ((h.accounted replica).congr rfl rfl) (by simp [messagesOf])

/-- **No premature flush.** Whatever was delayed, repeated, reordered or lost before: when a replica
that is handed a sent packet answers with a `FLUSH_ORDER` broadcast, it is for the client of the
packet, and all replicas together really processed at least the expected total that the replica has
stored. -/
theorem flushOrder_not_premature (cfg : CoordinatorConfig)
    (h : Transition.Reachable (exec cfg) (fun _ _ => True) {} s) {replica : Nat}
    {packet : ControlPacket} (hsent : packet ∈ s.sent) {count forwarded : Nat}
    {queues : List String} {message : ControlPacket} {sleep : Nat}
    (hact : (processControlMessage (replicaConfig cfg replica) (s.coordinators replica)
      packet.msgType packet.clientId packet.ctrl count forwarded).2 =
        some (.broadcast queues message sleep))
    (hm : message.msgType = .flushOrder) :
    message.clientId = packet.clientId ∧ ∃ expected,
      (s.coordinators replica).leaderExpected.get? packet.clientId = some expected ∧
      expected ≤ ∑ j ∈ Finset.range cfg.totalInstances, s.processed j packet.clientId := by
  have hi : Inv cfg s := h.invariant inv_init fun s l s' hi _ he => hi.exec he
  obtain ⟨ht, hc, hnew, expected, hexp, hcard, hle⟩ := processControlMessage_flushOrder _ hact hm
  obtain ⟨hlt, hcount⟩ := hi.answers packet hsent ht
  obtain ⟨hsub, hsum⟩ := hi.accounted replica packet.clientId
  refine ⟨hc, expected, hexp, ?_⟩
  -- all ids are in range and there are as many as replicas, so everyone has answered
  have hall : insert packet.ctrl.senderId
      ((s.coordinators replica).leaderResponders.getD packet.clientId ∅) =
        Finset.range cfg.totalInstances :=
    Finset.eq_of_subset_of_card_le
      (Finset.insert_subset (Finset.mem_range.mpr hlt) hsub)
      (by rw [Finset.card_range]; exact hcard)
  rw [← hall, Finset.sum_insert hnew]
  omega

/-- Two replicas in broadcast mode. -/
def pairConfig : CoordinatorConfig where
  instanceId := 0
  totalInstances := 2
  controlQueuePrefix := "control"
  responseQueuePrefix := "response"

/-- The run up to the last answer. -/
def pairRun : List Label :=
  [.process 0 7 2, .process 1 7 1, .upstreamEof 0 7 3 2 2,
   .deliver 0 ⟨.eofReceived, 7, ⟨0, 3, 0⟩⟩ 2 2, .deliver 1 ⟨.eofReceived, 7, ⟨0, 3, 0⟩⟩ 1 1,
   .deliver 0 ⟨.processedAnswer, 7, ⟨0, 2, 2⟩⟩ 0 0]

/-- Two replicas that processed two and one of the three messages of client `7`: replica `0` got the
EOF, and the second answer makes it order the flush. -/
theorem flushOrder_not_premature_two_replicas :
    ∃ s, Transition.Reachable (exec pairConfig) (fun _ _ => True) {} s ∧
      (processControlMessage (replicaConfig pairConfig 0) (s.coordinators 0) .processedAnswer 7
        ⟨1, 1, 1⟩ 0 0).2 =
          some (.broadcast ["control_0", "control_1"] ⟨.flushOrder, 7, ⟨0, 0, 0⟩⟩ 0) ∧
      ∃ expected, (s.coordinators 0).leaderExpected.get? 7 = some expected ∧
        expected ≤ ∑ j ∈ Finset.range 2, s.processed j 7 := by
  have hrun : (Transition.runAllowed (exec pairConfig) (fun _ _ => True) {} pairRun).map (fun s =>
      (decide (⟨.processedAnswer, 7, ⟨1, 1, 1⟩⟩ ∈ s.sent),
        (processControlMessage (replicaConfig pairConfig 0) (s.coordinators 0) .processedAnswer 7
          ⟨1, 1, 1⟩ 0 0).2)) =
      some (true, some (.broadcast ["control_0", "control_1"] ⟨.flushOrder, 7, ⟨0, 0, 0⟩⟩ 0)) := by
    decide +kernel
  obtain ⟨s, hs, he⟩ := Option.map_eq_some_iff.mp hrun
  simp only [Prod.mk.injEq, decide_eq_true_eq] at he
  have hreach := Transition.reachable_of_runAllowed .init hs
  exact ⟨s, hreach, he.2, (flushOrder_not_premature pairConfig hreach he.1 he.2 rfl).2⟩

end EofCluster

end MoneyLaundering
