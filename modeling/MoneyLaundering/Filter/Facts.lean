import MoneyLaundering.Eof.Rounds
import MoneyLaundering.Eof.WorkerChange
import MoneyLaundering.Filter.Acks

/-!
# What a filter holds about a client

Apart from its data, a replica holds a few facts about a client: whether it is closed or led here,
which leader waits for its counts, and, at the leader, the answers and acks collected. A change
touches the facts of its own client only, and the lemmas here say how.
-/

namespace MoneyLaundering

open Bytes InternalProtocol EofCoordinator SenderSequencer

namespace EofCoordinator

/-- Two coordinators hold the same about a client. -/
structure SameFor (c : Nat) (co co' : EofCoordinator) : Prop where
  leads : co'.leaderExpected.get? c = co.leaderExpected.get? c
  pending : co'.pendingEof.get? c = co.pendingEof.get? c
  responders : co'.leaderResponders.getD c ∅ = co.leaderResponders.getD c ∅

variable {ccfg : CoordinatorConfig} {co : EofCoordinator} {c c' : Nat}

theorem SameFor.refl (c : Nat) (co : EofCoordinator) : SameFor c co co := ⟨rfl, rfl, rfl⟩

/-! ### Requests -/

theorem onProcessedRequest_none {count forwarded : Nat} (hmode : ccfg.mode = .broadcast)
    (h : co.pendingEof.get? c = none) :
    co.onProcessedRequest ccfg c count forwarded = (co, none) := by
  unfold onProcessedRequest
  rw [hmode]
  dsimp only
  rw [h]

theorem onProcessedRequest_some {count forwarded : Nat} {pending : Nat × Nat}
    (hmode : ccfg.mode = .broadcast) (h : co.pendingEof.get? c = some pending) :
    co.onProcessedRequest ccfg c count forwarded =
      (co, some (.sendAnswer (ccfg.responseQueueFor pending.2)
        (buildAnswer ccfg c count forwarded))) := by
  unfold onProcessedRequest
  rw [hmode]
  dsimp only
  rw [h]

/-! ### Calls about another client -/

theorem sameFor_onUpstreamEof (h : c' ≠ c) (expected count forwarded : Nat) :
    SameFor c co (co.onUpstreamEof ccfg c' expected count forwarded).1 := by
  unfold onUpstreamEof
  split
  · exact .refl c co
  · split
    · exact ⟨Dict.get?_set_of_ne _ _ h, rfl, rfl⟩
    · split
      · exact .refl c co
      · refine ⟨?_, rfl, rfl⟩
        dsimp only
        split
        · exact Dict.get?_set_of_ne _ _ h
        · rfl

theorem sameFor_onEofReceived (h : c' ≠ c) (ctrl : ControlMessage) (count forwarded : Nat) :
    SameFor c co (co.onEofReceived ccfg c' ctrl count forwarded).1 := by
  unfold onEofReceived
  split
  · exact .refl c co
  · exact ⟨rfl, Dict.get?_set_of_ne _ _ h, rfl⟩

theorem sameFor_onProcessedAnswer (h : c' ≠ c) (ctrl : ControlMessage) :
    SameFor c co (co.onProcessedAnswer ccfg c' ctrl).1 := by
  unfold onProcessedAnswer
  dsimp only
  split
  · exact .refl c co
  · split
    · exact ⟨rfl, rfl, by simp [Dict.getD_set, h]⟩
    · split
      · exact ⟨rfl, rfl, by simp [Dict.getD_set, h]⟩
      · split
        · exact ⟨rfl, rfl, by simp [Dict.getD_set, Dict.getD_erase, h, h.symm]⟩
        · exact ⟨rfl, rfl, by simp [Dict.getD_set, h]⟩

theorem sameFor_cleanupClient (h : c' ≠ c) : SameFor c co (co.cleanupClient c') :=
  ⟨rfl, Dict.get?_erase_of_ne _ h.symm, rfl⟩

theorem sameFor_cleanupLeaderState (h : c' ≠ c) : SameFor c co (co.cleanupLeaderState ccfg c') := by
  refine ⟨Dict.get?_erase_of_ne _ h.symm, ?_, rfl⟩
  unfold cleanupLeaderState
  dsimp only
  split
  · exact Dict.get?_erase_of_ne _ h.symm
  · rfl

theorem sameFor_onFlushAck (h : c' ≠ c) (ctrl : ControlMessage) :
    SameFor c co (co.onFlushAck ccfg c' ctrl).1 := by
  unfold onFlushAck
  split
  · dsimp only
    split
    · exact ⟨rfl, rfl, rfl⟩
    · exact sameFor_cleanupLeaderState h
  · exact .refl c co

theorem sameFor_processControlMessage (h : c' ≠ c) (msgType : MessageType) (ctrl : ControlMessage)
    (count forwarded : Nat) :
    SameFor c co (co.processControlMessage ccfg msgType c' ctrl count forwarded).1 := by
  unfold processControlMessage
  split
  · exact sameFor_onEofReceived h ctrl count forwarded
  · rw [onProcessedRequest_fst]
    exact .refl c co
  · exact sameFor_onProcessedAnswer h ctrl
  · rw [onFlushOrder_fst]
    exact .refl c co
  · exact sameFor_onFlushAck h ctrl
  · exact .refl c co

end EofCoordinator

/-- What a filter holds about a client, apart from its data. -/
@[ext]
structure FilterFacts where
  closed : Bool
  leads : Bool
  pending : Option Nat
  responders : Finset Nat
  acks : Finset Nat
  deriving DecidableEq

def FilterState.facts (s : FilterState) (c : Nat) : FilterFacts where
  closed := s.isClosed c
  leads := (s.coordinator.leaderExpected.get? c).isSome
  pending := (s.coordinator.pendingEof.get? c).map Prod.snd
  responders := s.coordinator.leaderResponders.getD c ∅
  acks := s.flushedAcks c

/-! ## The changes, client by client -/

/-- The client that a change is about. -/
def FilterOp.clientId : FilterOp → Nat
  | .data clientId .. | .flushAck clientId .. | .close clientId
  | .coordinatorUpstreamEof clientId .. | .coordinatorMsg _ clientId ..
  | .coordinatorCleanup clientId _ => clientId

namespace FilterState

variable {cfg : FilterStateConfig} {s : FilterState} {c c' : Nat} {ctrl : ControlMessage}

theorem facts_of_sameFor {co : EofCoordinator} (h : SameFor c s.coordinator co) :
    { s with coordinator := co }.facts c = s.facts c := by
  unfold facts
  dsimp only
  rw [h.leads, h.pending, h.responders]
  rfl

@[simp] theorem facts_applyData (count : Nat) (appends : Dict String (List (List Char)))
    (forwarded : Dict String Nat) : (s.applyData cfg c' count appends forwarded).facts c =
      s.facts c := by
  unfold applyData
  split <;> rfl

theorem facts_applyFlushAck (senderId : Nat) (counts : Dict String Nat) :
    (s.applyFlushAck c' senderId counts).facts c =
      { s.facts c with
        acks := if c' = c then insert senderId (s.facts c').acks else (s.facts c).acks } := by
  have hacks := s.flushedAcks_applyFlushAck c' senderId counts c
  unfold facts isClosed
  rw [hacks, applyFlushAck_coordinator, applyFlushAck_closedByClient]

theorem facts_applyClose : (s.applyClose c').facts c =
    if c' = c then { s.facts c with closed := true, acks := ∅ } else s.facts c := by
  by_cases h : c' = c
  · subst h
    rw [if_pos rfl]
    ext <;> simp [facts, applyClose, isClosed, flushedAcks, Dict.getD_erase]
  · rw [if_neg h]
    ext <;> simp [facts, applyClose, isClosed, flushedAcks, Dict.getD_erase, Ne.symm h]

/-- A change of another client. -/
theorem facts_applyOp_of_ne {op : FilterOp} (h : op.clientId ≠ c) :
    (s.applyOp cfg op).facts c = s.facts c := by
  cases op with
  | data => exact facts_applyData ..
  | flushAck c' senderId counts =>
    have hne : c' ≠ c := h
    rw [applyOp, facts_applyFlushAck, if_neg hne]
  | close c' => exact facts_applyClose.trans (if_neg h)
  | coordinatorUpstreamEof => exact facts_of_sameFor (sameFor_onUpstreamEof h _ _ _)
  | coordinatorMsg => exact facts_of_sameFor (sameFor_processControlMessage h _ _ _ _)
  | coordinatorCleanup c' isLeader =>
    refine facts_of_sameFor ?_
    cases isLeader
    · exact sameFor_cleanupClient h
    · exact sameFor_cleanupLeaderState h

theorem facts_applyChange_of_ne {change : FilterChange} (h : ∀ op ∈ change.ops, op.clientId ≠ c) :
    (s.applyChange cfg change).facts c = s.facts c := by
  unfold applyChange
  generalize change.ops = ops at h
  induction ops generalizing s with
  | nil => rfl
  | cons op ops ih =>
    rw [List.foldl_cons, ih fun op' hm => h op' (List.mem_cons_of_mem _ hm),
      facts_applyOp_of_ne (h op List.mem_cons_self)]

/-! ### The changes of the client itself -/

/-- A batch of data. -/
theorem facts_dataChange (count : Nat) (appends : Dict String (List Bytes))
    (forwarded : Dict String Nat) :
    (s.applyChange cfg (dataChange c' count appends forwarded)).facts c = s.facts c :=
  facts_applyData ..

variable (cfg) in
/-- The upstream EOF at one of several replicas. -/
theorem facts_announced (hmode : cfg.coordinator.mode = .broadcast)
    (hN : 1 < cfg.coordinator.totalInstances) (expected count forwarded : Nat) :
    (s.applyChange cfg (.single (.coordinatorUpstreamEof c expected count forwarded))).facts c =
      { s.facts c with leads := true } := by
  have heq : s.coordinator.onUpstreamEof cfg.coordinator c expected count forwarded =
      ({ s.coordinator with leaderExpected := s.coordinator.leaderExpected.set c expected },
        some (.broadcast (allControlQueues cfg.coordinator)
          { msgType := .eofReceived, clientId := c
            ctrl :=
              { senderId := cfg.coordinator.instanceId, expectedTotal := expected } } 0)) := by
    unfold onUpstreamEof
    rw [if_neg (Nat.not_le.mpr hN), hmode]
  change ({ s with coordinator :=
    (s.coordinator.onUpstreamEof cfg.coordinator c expected count forwarded).1 }).facts c = _
  rw [heq]
  ext <;> simp [facts, isClosed, flushedAcks]

/-- The upstream EOF at the only replica. -/
theorem facts_drainedAlone (hN : cfg.coordinator.totalInstances ≤ 1)
    (expected count forwarded : Nat) :
    (s.applyChange cfg (.compound [.coordinatorUpstreamEof c expected count forwarded,
      .close c])).facts c = { s.facts c with closed := true, acks := ∅ } := by
  change (applyClose { s with coordinator :=
    (s.coordinator.onUpstreamEof cfg.coordinator c expected count forwarded).1 } c).facts c = _
  unfold onUpstreamEof
  rw [if_pos hN, facts_applyClose, if_pos rfl]

/-- An ack that leaves replicas missing. -/
theorem facts_acked (senderId : Nat) (counts : Dict String Nat) :
    (s.applyChange cfg (.single (.flushAck c senderId counts))).facts c =
      { s.facts c with acks := insert senderId (s.facts c).acks } := by
  refine (facts_applyFlushAck senderId counts).trans ?_
  rw [if_pos rfl]

variable (cfg ctrl) in
/-- The announcement of an EOF that the replica knows. -/
theorem onEofReceived_again (h : (s.facts c).pending ≠ none) (count forwarded : Nat) :
    s.coordinator.onEofReceived cfg.coordinator c ctrl count forwarded = (s.coordinator, none) := by
  have hpend : s.coordinator.pendingEof.contains c = true := by
    rw [Dict.contains, Option.isSome_iff_ne_none]
    intro hnone
    rw [facts, hnone] at h
    exact h rfl
  unfold onEofReceived
  rw [if_pos hpend]

variable (cfg ctrl) in
/-- The announcement of an EOF that is new to the replica. -/
theorem facts_onEofReceived (h : (s.facts c).pending = none) (count forwarded : Nat) :
    s.coordinator.onEofReceived cfg.coordinator c ctrl count forwarded =
      ({ s.coordinator with
         pendingEof := s.coordinator.pendingEof.set c (ctrl.expectedTotal, ctrl.senderId) },
        some (.sendAnswer (cfg.coordinator.responseQueueFor ctrl.senderId)
          (buildAnswer cfg.coordinator c count forwarded))) ∧
    { s with coordinator :=
        (s.coordinator.onEofReceived cfg.coordinator c ctrl count forwarded).1 }.facts c =
      { s.facts c with pending := some ctrl.senderId } := by
  have hpend : ¬ s.coordinator.pendingEof.contains c = true := by
    rw [Dict.contains, Option.isSome_iff_ne_none, not_not]
    exact Option.map_eq_none_iff.mp h
  unfold onEofReceived
  rw [if_neg hpend]
  refine ⟨rfl, ?_⟩
  ext <;> simp [facts, isClosed, flushedAcks]

/-- The flush of a client on an order. -/
theorem facts_flushed :
    (s.applyChange cfg (.compound [.coordinatorCleanup c false, .close c])).facts c =
      { s.facts c with closed := true, pending := none, acks := ∅ } := by
  change (applyClose { s with coordinator := s.coordinator.cleanupClient c } c).facts c = _
  rw [facts_applyClose, if_pos rfl]
  ext <;> simp [facts, cleanupClient]

/-- The last ack of a client. -/
theorem facts_finished (hmode : cfg.coordinator.mode = .broadcast) (senderId : Nat)
    (counts : Dict String Nat) : (s.applyChange cfg (.compound [.flushAck c senderId counts,
      .coordinatorCleanup c true, .close c])).facts c =
      { s.facts c with closed := true, leads := false, pending := none, acks := ∅ } := by
  change (applyClose { s.applyFlushAck c senderId counts with
    coordinator :=
      (s.applyFlushAck c senderId counts).coordinator.cleanupLeaderState cfg.coordinator c }
    c).facts c = _
  rw [facts_applyClose, if_pos rfl]
  ext <;> simp [facts, cleanupLeaderState, hmode]

variable (cfg) in
/-- The answer of a replica that has answered. -/
theorem onProcessedAnswer_again (h : ctrl.senderId ∈ (s.facts c).responders) :
    s.coordinator.onProcessedAnswer cfg.coordinator c ctrl = (s.coordinator, none) := by
  unfold onProcessedAnswer
  exact if_pos h

variable (cfg) in
/-- An answer that leaves replicas missing, or of a client that is not led here. -/
theorem facts_collect (hnew : ctrl.senderId ∉ (s.facts c).responders)
    (hmore : (s.facts c).leads = false ∨
      (insert ctrl.senderId (s.facts c).responders).card < cfg.coordinator.totalInstances) :
    (s.coordinator.onProcessedAnswer cfg.coordinator c ctrl).2 = none ∧
    { s with coordinator :=
        (s.coordinator.onProcessedAnswer cfg.coordinator c ctrl).1 }.facts c =
      { s.facts c with responders := insert ctrl.senderId (s.facts c).responders } := by
  have heq : s.coordinator.onProcessedAnswer cfg.coordinator c ctrl =
      ({ s.coordinator with
         leaderResponders := s.coordinator.leaderResponders.set c
           (insert ctrl.senderId (s.coordinator.leaderResponders.getD c ∅))
         leaderProcessed := s.coordinator.leaderProcessed.set c
           (s.coordinator.leaderProcessed.getD c 0 + ctrl.processedCount) }, none) := by
    unfold onProcessedAnswer
    dsimp only [facts] at hnew hmore ⊢
    rw [if_neg hnew]
    split
    · rfl
    · next expected hexp =>
      rw [hexp] at hmore
      exact if_pos (hmore.resolve_left (by simp))
  rw [heq]
  refine ⟨rfl, ?_⟩
  ext <;> simp [facts, isClosed, flushedAcks, Dict.getD_set]

variable (cfg) in
/-- The answer that ends a round. -/
theorem facts_endRound (hnew : ctrl.senderId ∉ (s.facts c).responders)
    (hleads : (s.facts c).leads = true)
    (hall : cfg.coordinator.totalInstances ≤
      (insert ctrl.senderId (s.facts c).responders).card) :
    (∃ expected enough, (s.coordinator.onProcessedAnswer cfg.coordinator c ctrl).2 =
      some (roundBroadcast cfg.coordinator c expected enough)) ∧
    { s with coordinator :=
        (s.coordinator.onProcessedAnswer cfg.coordinator c ctrl).1 }.facts c =
      { s.facts c with responders := ∅ } := by
  obtain ⟨expected, hexp⟩ := Option.isSome_iff_exists.mp hleads
  have hall' : ¬ (insert ctrl.senderId (s.coordinator.leaderResponders.getD c ∅)).card <
      cfg.coordinator.totalInstances := Nat.not_lt.mpr hall
  unfold onProcessedAnswer
  dsimp only [facts] at hnew ⊢
  rw [if_neg hnew, hexp]
  dsimp only
  rw [if_neg hall']
  split
  · refine ⟨⟨expected, true, rfl⟩, ?_⟩
    ext <;> simp [hexp, isClosed, flushedAcks, Dict.getD_erase]
  · refine ⟨⟨expected, false, rfl⟩, ?_⟩
    ext <;> simp [hexp, isClosed, flushedAcks, Dict.getD_set]

end FilterState

end MoneyLaundering
