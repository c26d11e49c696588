import MoneyLaundering.Eof.Coordinator
import MoneyLaundering.Lib.Text

/-!
# Counting rounds

The leader collects one `PROCESSED_ANSWER` of every replica and ends the round with a broadcast: the
order to flush when enough was counted, the request of another count otherwise.
-/

namespace MoneyLaundering

open InternalProtocol

namespace EofCoordinator

variable (cfg : CoordinatorConfig)

/-- The packet that ends a round: the order to flush, or the request of another count. -/
def roundEnd (clientId expected : Nat) (enough : Bool) : ControlPacket where
  msgType := if enough then .flushOrder else .processedRequest
  clientId := clientId
  ctrl := { senderId := cfg.instanceId, expectedTotal := if enough then 0 else expected }

/-- The broadcast that ends a round. -/
def roundBroadcast (clientId expected : Nat) (enough : Bool) : CoordinatorAction :=
  .broadcast (allControlQueues cfg) (roundEnd cfg clientId expected enough)
    (if enough then 0 else 500)

variable {cfg} {s : EofCoordinator} {clientId : Nat} {ctrl : ControlMessage}

/-- When an answer ends a round, and with what. -/
theorem onProcessedAnswer_action (s : EofCoordinator) (clientId : Nat) (ctrl : ControlMessage)
    {action : CoordinatorAction} (h : (s.onProcessedAnswer cfg clientId ctrl).2 = some action) :
    ctrl.senderId ∉ s.leaderResponders.getD clientId ∅ ∧
    ∃ expected, s.leaderExpected.get? clientId = some expected ∧
      cfg.totalInstances ≤ (insert ctrl.senderId (s.leaderResponders.getD clientId ∅)).card ∧
      action = roundBroadcast cfg clientId expected
        (decide (expected ≤ s.leaderProcessed.getD clientId 0 + ctrl.processedCount)) ∧
      (s.onProcessedAnswer cfg clientId ctrl).1.leaderExpected = s.leaderExpected ∧
      (s.onProcessedAnswer cfg clientId ctrl).1.leaderResponders.getD clientId ∅ = ∅ ∧
      (s.onProcessedAnswer cfg clientId ctrl).1.leaderProcessed.getD clientId 0 = 0 := by
  unfold onProcessedAnswer at h ⊢
  dsimp only at h ⊢
  split at h
  · cases h
  · next hnew =>
    rw [if_neg hnew]
    split at h
    · cases h
    · next expected hexp =>
      split at h
      · cases h
      · next hcard =>
        refine ⟨hnew, expected, hexp, Nat.not_lt.mp hcard, ?_⟩
        rw [if_neg hcard]
        split at h
        · next hle =>
          cases h
          rw [if_pos hle, decide_eq_true hle]
          refine ⟨rfl, rfl, ?_, ?_⟩
          · simp [Dict.getD_erase]
          · simp [Dict.getD_erase]
        · next hlt =>
          cases h
          rw [if_neg hlt, decide_eq_false hlt]
          refine ⟨rfl, rfl, ?_, ?_⟩
          · simp [Dict.getD_set]
          · simp [Dict.getD_set]

/-- The two packets that can end a round are told apart by their type. -/
theorem enough_of_toBytes {bytes : Bytes} {expected expected' : Nat} {enough enough' : Bool}
    (h : (roundEnd cfg clientId expected enough).toBytes = .ok bytes)
    (h' : (roundEnd cfg clientId expected' enough').toBytes = .ok bytes) : enough = enough' := by
  obtain ⟨payload, -, h⟩ := Except.ok_of_bind h
  obtain ⟨payload', -, h'⟩ := Except.ok_of_bind h'
  have ht := (msgType_of_createPacket h).symm.trans (msgType_of_createPacket h')
  cases enough <;> cases enough' <;> first | rfl | cases ht

/-- What an answer makes the leader send is nothing or the end of a round. -/
theorem onProcessedAnswer_cases (cfg : CoordinatorConfig) (s : EofCoordinator) (clientId : Nat)
    (ctrl : ControlMessage) :
    (s.onProcessedAnswer cfg clientId ctrl).2 = none ∨ ∃ expected enough,
      (s.onProcessedAnswer cfg clientId ctrl).2 =
        some (roundBroadcast cfg clientId expected enough) := by
  cases h : (s.onProcessedAnswer cfg clientId ctrl).2 with
  | none => exact .inl rfl
  | some action =>
    obtain ⟨-, expected, -, -, rfl, -⟩ := onProcessedAnswer_action s clientId ctrl h
    exact .inr ⟨expected, _, rfl⟩

/-! ## What is expected of a client -/

theorem leaderExpected_processControlMessage {msgType : MessageType} (ht : msgType ≠ .flushAck)
    (ccfg : CoordinatorConfig) (co : EofCoordinator) (clientId : Nat) (ctrl : ControlMessage)
    (count forwarded : Nat) :
    (co.processControlMessage ccfg msgType clientId ctrl count forwarded).1.leaderExpected =
      co.leaderExpected := by
  unfold processControlMessage
  split
  · unfold onEofReceived
    split <;> rfl
  · unfold onProcessedRequest
    split
    · split <;> rfl
    · rfl
  · unfold onProcessedAnswer
    simp only
    split
    · rfl
    · split
      · rfl
      · split
        · rfl
        · split <;> rfl
  · unfold onFlushOrder
    split <;> rfl
  · exact absurd rfl ht
  · rfl

/-- An ack forgets its client only when it is the last one. -/
theorem get?_leaderExpected_onFlushAck (ccfg : CoordinatorConfig) (co : EofCoordinator)
    (clientId : Nat) (ctrl : ControlMessage) :
    (co.onFlushAck ccfg clientId ctrl).1.leaderExpected = co.leaderExpected ∨
    ccfg.totalInstances - 1 ≤ (insert ctrl.senderId (co.flushAcks.getD clientId ∅)).card ∧
      (co.onFlushAck ccfg clientId ctrl).1.leaderExpected = co.leaderExpected.erase clientId := by
  unfold onFlushAck
  split
  · simp only
    split
    · exact .inl rfl
    · next h => exact .inr ⟨by omega, rfl⟩
  · exact .inl rfl

end EofCoordinator

/-- The packets of a broadcast. -/
def broadcastSends (cfg : CoordinatorConfig) (bytes : Bytes) : List (String × Bytes) :=
  (EofCoordinator.allControlQueues cfg).map fun queueName => (queueName, bytes)

/-! ## Queues -/

namespace CoordinatorConfig

variable (cfg : CoordinatorConfig) {i j : Nat}

theorem controlQueueFor_injective (h : cfg.controlQueueFor i = cfg.controlQueueFor j) : i = j := by
  have h := congrArg String.toList h
  simp [controlQueueFor] at h
  exact Text.ofNat_injective h

theorem responseQueueFor_injective (h : cfg.responseQueueFor i = cfg.responseQueueFor j) :
    i = j := by
  have h := congrArg String.toList h
  simp [responseQueueFor] at h
  exact Text.ofNat_injective h

/-- The two kinds of queues of a worker have different names. -/
theorem controlQueueFor_ne_responseQueueFor {name : String}
    (hc : cfg.controlQueuePrefix = name ++ "_control")
    (hr : cfg.responseQueuePrefix = name ++ "_response") (i j : Nat) :
    cfg.controlQueueFor i ≠ cfg.responseQueueFor j := by
  intro h
  have h := congrArg String.toList h
  have hs : ∀ s : String, toString s = s := fun _ => rfl
  simp only [controlQueueFor, responseQueueFor, hc, hr, hs, String.toList_append, List.append_assoc,
    List.append_cancel_left_eq] at h
  cases h

end CoordinatorConfig

section queues
variable {gone : Option (String × Bytes)} {queues : List (String × Bytes)} {x : String × Bytes}

/-- A message stays on its queue unless it is the one that is taken. -/
theorem mem_queues_erase (hx : x ∈ queues) (hne : some x ≠ gone) :
    x ∈ (match gone with
      | some y => queues.erase y
      | none => queues) := by
  cases gone with
  | none => exact hx
  | some y => exact (List.mem_erase_of_ne fun h => hne (congrArg some h)).mpr hx

theorem mem_of_mem_queues_erase (hx : x ∈ (match gone with
    | some y => queues.erase y
    | none => queues)) : x ∈ queues := by
  cases gone with
  | none => exact hx
  | some y => exact List.mem_of_mem_erase hx

end queues

end MoneyLaundering
