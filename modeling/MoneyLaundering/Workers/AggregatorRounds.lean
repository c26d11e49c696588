import MoneyLaundering.Eof.Rounds
import MoneyLaundering.Workers.Aggregator

/-!
# What an aggregator replica does with a message

Apart from its data, a replica holds a few facts about each client: whether it is closed, whether
its EOF was seen, and, at the leader, the answers and acks collected. Every message whose handler
returns is a turn of these facts (`Turn`), and no turn answers a `PROCESSED_REQUEST`.
-/

namespace MoneyLaundering

open Bytes InternalProtocol EofCoordinator Consumer Runner

/-- What a replica holds about a client, apart from its data. -/
structure ClientView where
  closed : Bool
  seen : Bool
  expected : Option Nat
  responders : Finset Nat
  counted : Nat
  acks : Finset Nat

abbrev ClientViews := Nat → ClientView

/-- What a replica holds about the clients. -/
def AggregatorState.view {π : Type} (s : AggregatorState π) : ClientViews := fun c => {
  closed := decide (c ∈ s.closedByClient)
  seen := decide (c ∈ s.coordinator.seenEof)
  expected := s.coordinator.leaderExpected.get? c
  responders := s.coordinator.leaderResponders.getD c ∅
  counted := s.coordinator.leaderProcessed.getD c 0
  acks := s.coordinator.flushAcks.getD c ∅ }

/-- What a thread has yet to publish. -/
def Consumer.Task.parcels : Consumer.Task → List (String × Bytes)
  | .publishing _ remaining => remaining.map fun entry => (entry.destination, entry.body)
  | .acking _ => []
  | .sending remaining => remaining

/-- The packet is a result on its way downstream. -/
def IsResult (x : String × Bytes) : Prop :=
  beDecode (x.2.take 1) = MessageType.data.toNat ∨ beDecode (x.2.take 1) = MessageType.eof.toNat

namespace AggregatorConfig

variable {π : Type} (cfg : AggregatorConfig π)

/-- The queue on which the leader collects answers and acks. -/
def leaderQueue : String := cfg.coordinator.responseQueueFor aggregatorLeaderId

/-- A message of the rounds that has nothing left to do. -/
def Absorbed (v : ClientViews) : WorkerDelivery → Prop
  | .input _ => True
  | .control body => ∀ c ctrl, parseMessage body = .ok (some .flushOrder, c, ctrl) →
      cfg.id = aggregatorLeaderId ∨ (v c).closed = true
  | .response body =>
    (∀ c ctrl, parseMessage body = .ok (some .processedAnswer, c, ctrl) →
      ctrl.senderId ∈ (v c).responders) ∧
    ∀ c ctrl, parseMessage body = .ok (some .flushAck, c, ctrl) →
      (v c).closed = true ∨ ctrl.senderId ∈ (v c).acks

/-- What a message does to the facts, and what it makes the replica send. -/
inductive Turn (v : ClientViews) : WorkerDelivery → ClientViews → List (String × Bytes) → Prop
  | idle {message : WorkerDelivery} (h : cfg.Absorbed v message) : Turn v message v []
  | report {body bytes : Bytes} {c expected count : Nat} (hopen : (v c).closed = false)
      (hseen : (v c).seen = false)
      (hb : (buildAnswer cfg.coordinator c count 0).toBytes = .ok bytes) :
      Turn v (.input body)
        (Function.update v c { v c with
          seen := true
          expected := if cfg.id = aggregatorLeaderId then some expected else (v c).expected })
        [(cfg.leaderQueue, bytes)]
  | collect {body : Bytes} {c : Nat} {ctrl : ControlMessage}
      (hp : parseMessage body = .ok (some .processedAnswer, c, ctrl))
      (hnew : ctrl.senderId ∉ (v c).responders)
      (hmore : (v c).expected = none ∨
        (insert ctrl.senderId (v c).responders).card < cfg.aggregationAmount) :
      Turn v (.response body)
        (Function.update v c { v c with
          responders := insert ctrl.senderId (v c).responders
          counted := (v c).counted + ctrl.processedCount }) []
  | endRound {body bytes : Bytes} {c expected : Nat} {ctrl : ControlMessage}
      (hp : parseMessage body = .ok (some .processedAnswer, c, ctrl))
      (hnew : ctrl.senderId ∉ (v c).responders) (hexp : (v c).expected = some expected)
      (hall : cfg.aggregationAmount ≤ (insert ctrl.senderId (v c).responders).card)
      (hb : (roundEnd cfg.coordinator c expected
        (decide (expected ≤ (v c).counted + ctrl.processedCount))).toBytes = .ok bytes) :
      Turn v (.response body) (Function.update v c { v c with responders := ∅, counted := 0 })
        (broadcastSends cfg.coordinator bytes)
  | flush {body ack : Bytes} {c : Nat} {ctrl : ControlMessage} {results : List (String × Bytes)}
      (hp : parseMessage body = .ok (some .flushOrder, c, ctrl)) (hid : cfg.id ≠ aggregatorLeaderId)
      (hopen : (v c).closed = false) (hr : ∀ x ∈ results, IsResult x)
      (hb : (buildFlushAck cfg.coordinator c 0).toBytes = .ok ack) :
      Turn v (.control body) (Function.update v c { v c with closed := true, seen := false })
        (results ++ [(cfg.leaderQueue, ack)])
  | ackMissing {body : Bytes} {c : Nat} {ctrl : ControlMessage}
      (hp : parseMessage body = .ok (some .flushAck, c, ctrl)) (hopen : (v c).closed = false)
      (hlt : (insert ctrl.senderId (v c).acks).card < cfg.aggregationAmount - 1) :
      Turn v (.response body)
        (Function.update v c { v c with acks := insert ctrl.senderId (v c).acks }) []
  | ackLast {body : Bytes} {c : Nat} {ctrl : ControlMessage} {results : List (String × Bytes)}
      (hp : parseMessage body = .ok (some .flushAck, c, ctrl)) (hopen : (v c).closed = false)
      (hr : ∀ x ∈ results, IsResult x) :
      Turn v (.response body)
        (Function.update v c
          { v c with closed := true, seen := false, expected := none, acks := ∅ })
        results

end AggregatorConfig

/-! ## The changes, client by client -/

namespace AggregatorState

variable {π : Type} {cfg : AggregatorConfig π} {s : AggregatorState π} {c : Nat}
    {ctrl : ControlMessage}

@[simp] theorem view_applyData (payload : List Char) :
    (s.applyData cfg c payload).view = s.view := by
  unfold applyData
  split <;> rfl

/-- Two states agree on every client when they agree on one and on the others. -/
theorem view_eq_update {v : ClientView} {t : AggregatorState π} (hc : t.view c = v)
    (hne : ∀ c' ≠ c, t.view c' = s.view c') : t.view = Function.update s.view c v := by
  funext c'
  by_cases h : c' = c
  · rw [h, hc, Function.update_self]
  · rw [hne c' h, Function.update_of_ne h]

theorem view_applyClose :
    (s.applyClose c).view = Function.update s.view c { s.view c with closed := true } := by
  refine view_eq_update ?_ fun c' h => ?_
  · dsimp only [view, applyClose]
    simp
  · dsimp only [view, applyClose]
    simp [h]

theorem view_cleanupClient :
    { s with coordinator := s.coordinator.cleanupClient c }.view =
      Function.update s.view c { s.view c with seen := false } := by
  refine view_eq_update ?_ fun c' h => ?_
  · simp [view, cleanupClient]
  · simp [view, cleanupClient, h]

/-- A second EOF of a client. -/
theorem onUpstreamEof_again (hN : 2 ≤ cfg.aggregationAmount) (hs : c ∈ s.coordinator.seenEof)
    (expected count : Nat) :
    s.coordinator.onUpstreamEof cfg.coordinator c expected count 0 = (s.coordinator, none) := by
  have hmany : ¬ cfg.coordinator.totalInstances ≤ 1 := by
    change ¬ cfg.aggregationAmount ≤ 1
    omega
  unfold onUpstreamEof
  rw [if_neg hmany]
  exact if_pos hs

/-- The first EOF of a client. -/
theorem onUpstreamEof_first (hN : 2 ≤ cfg.aggregationAmount) (hs : c ∉ s.coordinator.seenEof)
    (expected count : Nat) :
    s.coordinator.onUpstreamEof cfg.coordinator c expected count 0 =
      ({ s.coordinator with
         seenEof := insert c s.coordinator.seenEof
         leaderExpected :=
           if cfg.coordinator.isLeader then s.coordinator.leaderExpected.set c expected
           else s.coordinator.leaderExpected },
        some (.sendAnswer cfg.leaderQueue (buildAnswer cfg.coordinator c count 0))) := by
  have hmany : ¬ cfg.coordinator.totalInstances ≤ 1 := by
    change ¬ cfg.aggregationAmount ≤ 1
    omega
  unfold onUpstreamEof
  rw [if_neg hmany]
  exact if_neg hs

theorem isLeader_iff : cfg.coordinator.isLeader = true ↔ cfg.id = aggregatorLeaderId := beq_iff_eq

theorem view_onUpstreamEof (hN : 2 ≤ cfg.aggregationAmount) (hs : c ∉ s.coordinator.seenEof)
    (expected count : Nat) :
    { s with
      coordinator := (s.coordinator.onUpstreamEof cfg.coordinator c expected count 0).1 }.view =
      Function.update s.view c { s.view c with
        seen := true
        expected := if cfg.id = aggregatorLeaderId then some expected
          else (s.view c).expected } := by
  rw [onUpstreamEof_first hN hs]
  by_cases hid : cfg.id = aggregatorLeaderId
  · rw [isLeader_iff.mpr hid, if_pos rfl, if_pos hid]
    refine view_eq_update ?_ fun c' h => ?_
    · simp [view]
    · simp [view, Dict.get?_set, h, h.symm]
  · rw [if_neg hid, Bool.eq_false_iff.mpr (mt isLeader_iff.mp hid)]
    refine view_eq_update ?_ fun c' h => ?_
    · simp [view]
    · simp [view, h]

/-- The answer of a replica that has answered. -/
theorem onProcessedAnswer_again (hs : ctrl.senderId ∈ (s.view c).responders) :
    s.coordinator.onProcessedAnswer cfg.coordinator c ctrl = (s.coordinator, none) := by
  unfold onProcessedAnswer
  exact if_pos hs

/-- An answer that leaves replicas, or the total, missing. -/
theorem view_collect (hs : ctrl.senderId ∉ (s.view c).responders)
    (hmore : (s.view c).expected = none ∨
      (insert ctrl.senderId (s.view c).responders).card < cfg.aggregationAmount) :
    (s.coordinator.onProcessedAnswer cfg.coordinator c ctrl).2 = none ∧
    { s with coordinator := (s.coordinator.onProcessedAnswer cfg.coordinator c ctrl).1 }.view =
      Function.update s.view c { s.view c with
        responders := insert ctrl.senderId (s.view c).responders
        counted := (s.view c).counted + ctrl.processedCount } := by
  have heq : s.coordinator.onProcessedAnswer cfg.coordinator c ctrl =
      ({ s.coordinator with
         leaderResponders := s.coordinator.leaderResponders.set c
           (insert ctrl.senderId (s.coordinator.leaderResponders.getD c ∅))
         leaderProcessed := s.coordinator.leaderProcessed.set c
           (s.coordinator.leaderProcessed.getD c 0 + ctrl.processedCount) }, none) := by
    unfold onProcessedAnswer
    dsimp only [view] at hs ⊢
    rw [if_neg hs]
    split
    · rfl
    · next expected hexp =>
      refine if_pos (hmore.resolve_left ?_)
      rw [view, hexp]
      rintro ⟨⟩
  rw [heq]
  refine ⟨rfl, view_eq_update ?_ fun c' h => ?_⟩
  · simp [view, Dict.getD_set]
  · simp [view, Dict.getD_set, h.symm]

/-- The answer that ends a round. -/
theorem view_endRound {expected : Nat} (hs : ctrl.senderId ∉ (s.view c).responders)
    (hexp : (s.view c).expected = some expected)
    (hall : cfg.aggregationAmount ≤ (insert ctrl.senderId (s.view c).responders).card) :
    (s.coordinator.onProcessedAnswer cfg.coordinator c ctrl).2 =
      some (roundBroadcast cfg.coordinator c expected
        (decide (expected ≤ (s.view c).counted + ctrl.processedCount))) ∧
    { s with coordinator := (s.coordinator.onProcessedAnswer cfg.coordinator c ctrl).1 }.view =
      Function.update s.view c { s.view c with responders := ∅, counted := 0 } := by
  have hexp' : s.coordinator.leaderExpected.get? c = some expected := hexp
  have hs' : ctrl.senderId ∉ s.coordinator.leaderResponders.getD c ∅ := hs
  have hall' : ¬ (insert ctrl.senderId (s.coordinator.leaderResponders.getD c ∅)).card <
      cfg.coordinator.totalInstances := Nat.not_lt.mpr hall
  unfold onProcessedAnswer
  dsimp only
  rw [if_neg hs', hexp']
  dsimp only
  rw [if_neg hall']
  split
  · next hle =>
    rw [decide_eq_true (p := expected ≤ (s.view c).counted + ctrl.processedCount) hle]
    refine ⟨rfl, view_eq_update ?_ fun c' h => ?_⟩
    · simp [view, Dict.getD_erase]
    · simp [view, Dict.getD_set, Dict.getD_erase, h, h.symm]
  · next hlt =>
    rw [decide_eq_false (p := expected ≤ (s.view c).counted + ctrl.processedCount) hlt]
    refine ⟨rfl, view_eq_update ?_ fun c' h => ?_⟩
    · simp [view, Dict.getD_set]
    · simp [view, Dict.getD_set, h.symm]

variable (s c ctrl) in
/-- An ack at the leader. -/
theorem view_onFlushAck (hid : cfg.id = aggregatorLeaderId) :
    { s with coordinator := (s.coordinator.onFlushAck cfg.coordinator c ctrl).1 }.view =
      Function.update s.view c
        (if (insert ctrl.senderId (s.view c).acks).card < cfg.aggregationAmount - 1 then
          { s.view c with acks := insert ctrl.senderId (s.view c).acks }
        else { s.view c with seen := false, expected := none, acks := ∅ }) := by
  have hlead : isLeaderHere cfg.coordinator s.coordinator c = true := isLeader_iff.mpr hid
  unfold onFlushAck
  rw [if_pos hlead]
  dsimp only
  split
  · next hlt =>
    have hlt' : (insert ctrl.senderId (s.view c).acks).card < cfg.aggregationAmount - 1 := hlt
    rw [if_pos hlt']
    refine view_eq_update ?_ fun c' h => ?_
    · simp [view, Dict.getD_set]
    · simp [view, Dict.getD_set, h.symm]
  · next hlt =>
    have hlt' : ¬ (insert ctrl.senderId (s.view c).acks).card < cfg.aggregationAmount - 1 := hlt
    rw [if_neg hlt']
    refine view_eq_update ?_ fun c' h => ?_
    · simp [view, cleanupLeaderState, AggregatorConfig.coordinator, Dict.getD_erase]
    · simp [view, cleanupLeaderState, AggregatorConfig.coordinator, Dict.getD_erase,
        Dict.get?_erase, h]

end AggregatorState

/-! ## The reactions -/

namespace AggregatorConfig

variable {π : Type} (cfg : AggregatorConfig π)

/-- What a record of the log says about the facts. -/
structure Fits (v : ClientViews) (record : WalRecord AggregatorChange) : Prop where
  order : record.key.kind = .ctrlFlushOrder → (v record.key.clientId).closed = true
  ack : record.key.kind = .ctrlFlushAck → (v record.key.clientId).closed = true ∨
    record.key.senderId ∈ (v record.key.clientId).acks
  eof : ∀ m key c expected count forwarded outputs, record = .inputApplied m key
    (.single (.coordinatorUpstreamEof c expected count forwarded)) outputs →
    (v c).seen = true ∨ (v c).closed = true

/-- No ABORT, and answers and acks at the leader only. -/
def Expected : WorkerDelivery → Prop
  | .input body => ∀ m, unpackAddressedPacket body = .ok m → m.msgType ≠ MessageType.abort.toNat
  | .control _ => True
  | .response _ => cfg.id = aggregatorLeaderId

/-- What a reaction is to a message. -/
inductive Reacts (s : AggregatorState π) (message : WorkerDelivery) :
    Reaction (AggregatorState π) AggregatorChange → Prop
  | refuse : Reacts s message .refuse
  | skip {key : InputKey} (h : cfg.Absorbed s.view message) : Reacts s message (.skip key)
  | direct {touched : AggregatorState π} {sends : List (String × Bytes)}
      (h : cfg.Turn s.view message touched.view sends) : Reacts s message (.direct touched sends)
  | handle {key : InputKey} {touched : AggregatorState π}
      {result : Except String (AggregatorChange × List LogicalOutput)}
      (hagain : ∀ record, Fits s.view record → record.key.clientId = key.clientId →
        record.key.channel = key.channel → cfg.Absorbed s.view message)
      (happlied : ∀ change logical, result = .ok (change, logical) →
        cfg.Turn s.view message (touched.applyChange cfg change).view
          (logical.map fun output => (output.destination, output.body)) ∧
        ∀ m outputs, Fits
          (touched.applyChange cfg change).view (.inputApplied m key change outputs)) :
      Reacts s message (.handle key touched result)

variable {cfg} {s : AggregatorState π} {body : Bytes} {c : Nat} {ctrl : ControlMessage}

theorem isResult_of_buildResultOutputs {results : List Bytes} {outputs : List LogicalOutput}
    (h : cfg.buildResultOutputs c results = .ok outputs) :
    ∀ x ∈ outputs.map (fun output => (output.destination, output.body)), IsResult x := by
  obtain ⟨datas, hd, h⟩ := Except.ok_of_bind h
  obtain ⟨payload, -, h⟩ := Except.ok_of_bind h
  obtain ⟨eof, he, h⟩ := Except.ok_of_bind h
  cases h
  intro x hx
  obtain ⟨output, ho, rfl⟩ := List.mem_map.mp hx
  obtain ⟨packet, hp, rfl⟩ := List.mem_map.mp ho
  rcases List.mem_append.mp hp with hp | hp
  · obtain ⟨a, -, ha⟩ := (Except.forall₂_of_mapM hd).exists_left hp
    exact .inl (msgType_of_createAddressedPacket ha)
  · cases List.mem_singleton.mp hp
    exact .inr (msgType_of_createAddressedPacket he)

theorem reacts_data {m : Addressed} : cfg.Reacts s (.input body) (handleData s m) := by
  refine .handle (fun _ _ _ _ => trivial) fun change logical h => ?_
  cases h
  have hview : (s.applyChange cfg
      (AggregatorState.dataChange m.clientId m.payload)).view = s.view :=
    AggregatorState.view_applyData _
  rw [hview]
  exact ⟨.idle trivial, fun _ _ => ⟨nofun, nofun, nofun⟩⟩

theorem reacts_upstreamEof (hN : 2 ≤ cfg.aggregationAmount) {m : Addressed} :
    cfg.Reacts s (.input body) (cfg.handleUpstreamEof s m) := by
  unfold handleUpstreamEof
  split
  · exact .refuse
  · next ctrl hd =>
    split
    · exact .skip trivial
    · next hopen =>
      dsimp only
      by_cases hs : m.clientId ∈ s.coordinator.seenEof
      · rw [AggregatorState.onUpstreamEof_again hN hs]
        refine .handle (fun _ _ _ _ => trivial) fun change logical h => ?_
        cases h
        have hsame : s.applyChange
            cfg (.single (.coordinatorUpstreamEof m.clientId ctrl.expectedTotal
            (s.dataCount m.clientId) 0)) = s := by
          change { s with coordinator := (s.coordinator.onUpstreamEof cfg.coordinator m.clientId
            ctrl.expectedTotal (s.dataCount m.clientId) 0).1 } = s
          rw [AggregatorState.onUpstreamEof_again hN hs]
        rw [hsame]
        refine ⟨.idle trivial, fun _ _ => ⟨nofun, nofun, fun _ _ _ _ _ _ _ he => ?_⟩⟩
        cases he
        exact .inl (decide_eq_true hs)
      · have haction := congrArg Prod.snd
          (AggregatorState.onUpstreamEof_first hN hs ctrl.expectedTotal (s.dataCount m.clientId))
        have hview := AggregatorState.view_onUpstreamEof hN hs ctrl.expectedTotal
          (s.dataCount m.clientId)
        generalize hr : s.coordinator.onUpstreamEof cfg.coordinator m.clientId ctrl.expectedTotal
          (s.dataCount m.clientId) 0 = r at haction hview ⊢
        obtain ⟨coordinator, action⟩ := r
        cases haction
        refine .handle (fun _ _ _ _ => trivial) fun change logical h => ?_
        obtain ⟨outputs, ho, h⟩ := Except.ok_of_bind h
        obtain ⟨bytes, hb, ho⟩ := Except.ok_of_bind ho
        cases ho
        cases h
        -- the call of `apply_change` finds the EOF seen
        have hseen : m.clientId ∈ coordinator.seenEof := by
          have hfirst := congrArg Prod.fst
            (AggregatorState.onUpstreamEof_first hN hs ctrl.expectedTotal (s.dataCount m.clientId))
          rw [hr] at hfirst
          rw [show coordinator = _ from hfirst]
          exact Finset.mem_insert_self _ _
        have hsame : AggregatorState.applyChange cfg { s with coordinator } (.single
            (.coordinatorUpstreamEof m.clientId ctrl.expectedTotal (s.dataCount m.clientId) 0)) =
            { s with coordinator } := by
          change { s with coordinator := (coordinator.onUpstreamEof cfg.coordinator m.clientId
            ctrl.expectedTotal (s.dataCount m.clientId) 0).1 } = _
          rw [AggregatorState.onUpstreamEof_again (s := { s with coordinator }) hN hseen]
        rw [hsame, hview]
        refine ⟨.report ?_ ?_ hb, fun _ _ => ⟨nofun, nofun, fun _ _ _ _ _ _ _ he => ?_⟩⟩
        · exact Bool.eq_false_iff.mpr hopen
        · exact decide_eq_false hs
        · cases he
          rw [Function.update_self]
          exact .inl rfl

theorem reacts_input (hN : 2 ≤ cfg.aggregationAmount) (hm : cfg.Expected (.input body)) :
    cfg.Reacts s (.input body) (cfg.processDataMessage s body) := by
  unfold processDataMessage
  split
  · exact .refuse
  · next m hu =>
    split
    · exact reacts_data
    · exact reacts_upstreamEof hN
    · next ht => exact absurd (MessageType.toNat_of_ofNat? ht).symm (hm m hu)
    · exact .refuse

/-- Only `FLUSH_ORDER` does anything on the control queue. -/
theorem reacts_control : cfg.Reacts s (.control body) (cfg.handleControl s body) := by
  unfold handleControl
  split
  · exact .refuse
  · next msgType c ctrl hp =>
    split
    · next ht =>
      refine .direct (.idle fun c' ctrl' hp' => absurd ?_ ht)
      cases hp.symm.trans hp'
      rfl
    · next ht =>
      have ht := not_not.mp ht
      subst ht
      split
      · next hid => exact .skip fun _ _ _ => .inl hid
      · next hid =>
        split
        · next hclosed =>
          refine .skip fun c' ctrl' hp' => ?_
          cases hp.symm.trans hp'
          exact .inr hclosed
        · next hopen =>
          refine .handle (fun record hr hc hch c' ctrl' hp' => ?_) fun change logical h => ?_
          · cases hp.symm.trans hp'
            have hclosed := hr.order (InputKey.kind_of_channel hch)
            rw [hc] at hclosed
            exact .inr hclosed
          · obtain ⟨results, -, h⟩ := Except.ok_of_bind h
            obtain ⟨outputs, ho, h⟩ := Except.ok_of_bind h
            obtain ⟨flushAck, ha, h⟩ := Except.ok_of_bind h
            cases h
            have hview : (s.applyChange cfg (.compound [.coordinatorCleanup c, .close c])).view =
                Function.update s.view c { s.view c with closed := true, seen := false } := by
              change (AggregatorState.applyClose
                { s with coordinator := s.coordinator.cleanupClient c } c).view = _
              rw [AggregatorState.view_applyClose, AggregatorState.view_cleanupClient,
                Function.update_self, Function.update_idem]
            rw [hview, List.map_append]
            refine ⟨.flush hp hid (Bool.eq_false_iff.mpr hopen) (isResult_of_buildResultOutputs ho)
              ha, fun _ _ => ⟨fun _ => ?_, nofun, nofun⟩⟩
            exact congrArg ClientView.closed (Function.update_self c _ s.view)

/-- The answer of a replica. -/
theorem reacts_processedAnswer (hp : parseMessage body = .ok (some .processedAnswer, c, ctrl)) :
    cfg.Reacts s (.response body) (cfg.handleProcessedAnswer s c ctrl) := by
  change cfg.Reacts s _ (.ofAction
    { s with coordinator := (s.coordinator.onProcessedAnswer cfg.coordinator c ctrl).1 }
    (s.coordinator.onProcessedAnswer cfg.coordinator c ctrl).2)
  by_cases hs : ctrl.senderId ∈ (s.view c).responders
  · rw [AggregatorState.onProcessedAnswer_again hs]
    refine .direct (.idle ⟨fun c' ctrl' hp' => ?_, fun c' ctrl' hp' => ?_⟩)
    · cases hp.symm.trans hp'
      exact hs
    · cases hp.symm.trans hp'
  · by_cases hmore : (s.view c).expected = none ∨
        (insert ctrl.senderId (s.view c).responders).card < cfg.aggregationAmount
    · obtain ⟨haction, hview⟩ := AggregatorState.view_collect hs hmore
      rw [haction]
      refine .direct ?_
      rw [hview]
      exact .collect hp hs hmore
    · have hall := Nat.not_lt.mp (not_or.mp hmore).2
      obtain ⟨expected, hexp⟩ := Option.ne_none_iff_exists'.mp (not_or.mp hmore).1
      obtain ⟨haction, hview⟩ := AggregatorState.view_endRound hs hexp hall
      rw [haction]
      unfold Reaction.ofAction roundBroadcast actionOutputs
      dsimp only
      cases hb : (roundEnd cfg.coordinator c expected
          (decide (expected ≤ (s.view c).counted + ctrl.processedCount))).toBytes with
      | error e => exact .refuse
      | ok bytes =>
        refine .direct ?_
        rw [hview, List.map_map]
        exact .endRound hp hs hexp hall hb

/-- The ack of a replica, at the leader. -/
theorem reacts_flushAck (hid : cfg.id = aggregatorLeaderId)
    (hp : parseMessage body = .ok (some .flushAck, c, ctrl)) :
    cfg.Reacts s (.response body) (cfg.handleFlushAck s c ctrl) := by
  have hnone : ∀ c' ctrl', parseMessage body ≠ .ok (some .processedAnswer, c', ctrl') := by
    intro c' ctrl' hp'
    cases hp.symm.trans hp'
  unfold handleFlushAck
  split
  · next hclosed =>
    refine .skip ⟨fun c' ctrl' hp' => absurd hp' (hnone c' ctrl'), fun c' ctrl' hp' => ?_⟩
    cases hp.symm.trans hp'
    exact .inl hclosed
  · next hopen =>
    have hopen : (s.view c).closed = false := Bool.eq_false_iff.mpr hopen
    dsimp only
    -- the handler counts the acks as the coordinator does
    have hcard : (s.coordinator.flushAcks.getD c ∅).card +
        (if ctrl.senderId ∈ s.coordinator.flushAcks.getD c ∅ then 0 else 1) =
        (insert ctrl.senderId (s.view c).acks).card := by
      split
      · next hmem => rw [Nat.add_zero]; exact congrArg _ (Finset.insert_eq_of_mem hmem).symm
      · next hmem => exact (Finset.card_insert_of_notMem hmem).symm
    rw [hcard]
    have hview := s.view_onFlushAck c ctrl hid
    refine .handle (fun record hr hc hch => ⟨fun c' ctrl' hp' => absurd hp' (hnone c' ctrl'),
      fun c' ctrl' hp' => ?_⟩) fun change logical h => ?_
    · cases hp.symm.trans hp'
      have hack := hr.ack (InputKey.kind_of_channel hch)
      rw [hc, show record.key.senderId = ctrl.senderId from congrArg Prod.snd hch] at hack
      exact hack
    · split at h
      · next hlt =>
        cases h
        have happly : (s.applyChange cfg (.single (.coordinatorMsg .flushAck c ctrl 0 0))).view =
            Function.update
              s.view c { s.view c with acks := insert ctrl.senderId (s.view c).acks } := by
          refine hview.trans ?_
          rw [if_pos hlt]
        rw [happly]
        refine ⟨.ackMissing hp hopen hlt, fun _ _ => ⟨by intros; contradiction, fun _ => .inr ?_,
          by rintro _ _ _ _ _ _ _ ⟨⟩⟩⟩
        have hacks := congrArg ClientView.acks
          (Function.update_self
            c { s.view c with acks := insert ctrl.senderId (s.view c).acks } s.view)
        exact (congrArg (ctrl.senderId ∈ ·) hacks).mpr (Finset.mem_insert_self _ _)
      · next hge =>
        obtain ⟨results, -, h⟩ := Except.ok_of_bind h
        obtain ⟨outputs, ho, h⟩ := Except.ok_of_bind h
        cases h
        have happly : (s.applyChange cfg
            (.compound [.coordinatorMsg .flushAck c ctrl 0 0, .close c])).view =
            Function.update s.view c
              { s.view c with closed := true, seen := false, expected := none, acks := ∅ } := by
          change (AggregatorState.applyClose { s with
            coordinator := (s.coordinator.onFlushAck cfg.coordinator c ctrl).1 } c).view = _
          rw [AggregatorState.view_applyClose, hview, if_neg hge, Function.update_self,
            Function.update_idem]
        rw [happly]
        refine ⟨.ackLast hp hopen (isResult_of_buildResultOutputs ho),
          fun _ _ => ⟨by intros; contradiction, fun _ => .inl ?_, by rintro _ _ _ _ _ _ _ ⟨⟩⟩⟩
        exact congrArg ClientView.closed (Function.update_self c _ s.view)

theorem reacts_response (hm : cfg.Expected (.response body)) :
    cfg.Reacts s (.response body) (cfg.handleResponse s body) := by
  unfold handleResponse
  split
  · exact .refuse
  · next msgType c ctrl hp =>
    split
    · exact reacts_processedAnswer hp
    · exact reacts_flushAck hm hp
    · next hanswer hack =>
      refine .direct (.idle ⟨fun c' ctrl' hp' => ?_, fun c' ctrl' hp' => ?_⟩)
      · cases hp.symm.trans hp'
        exact absurd rfl hanswer
      · cases hp.symm.trans hp'
        exact absurd rfl hack

/-- The reaction of a replica to a message. -/
theorem reacts
    (hN : 2 ≤ cfg.aggregationAmount) {message : WorkerDelivery} (hm : cfg.Expected message) :
    cfg.Reacts s message (cfg.consumer.react s message) := by
  cases message with
  | input body => exact reacts_input hN hm
  | control body => exact reacts_control
  | response body => exact reacts_response hm

end AggregatorConfig

/-! ## One replica -/

/-- A fact that is known of a client stays known, in some form. -/
structure ClientView.Keeps (x y : ClientView) : Prop where
  closed : x.closed = true → y.closed = true
  acks : ∀ i ∈ x.acks, i ∈ y.acks ∨ y.closed = true
  seen : x.seen = true → y.seen = true ∨ y.closed = true

namespace AggregatorConfig

variable {π : Type} {cfg : AggregatorConfig π} {v v' : ClientViews} {message : WorkerDelivery}
  {outs : List (String × Bytes)}

/-- A turn changes the facts of one client only. -/
theorem Turn.keeps (h : cfg.Turn v message v' outs) (c : Nat) : (v c).Keeps (v' c) := by
  have hrefl : (v c).Keeps (v c) := ⟨fun h => h, fun _ => .inl, .inl⟩
  have hupdate : ∀ {c' : Nat} {y : ClientView}, (v c').Keeps y → (v c).Keeps
      (Function.update v c' y c) := by
    intro c' y hy
    by_cases hc : c = c'
    · subst hc
      rwa [Function.update_self]
    · rwa [Function.update_of_ne hc]
  cases h with
  | idle => exact hrefl
  | report => exact hupdate ⟨fun h => h, fun _ => .inl, fun _ => .inl rfl⟩
  | collect => exact hupdate ⟨fun h => h, fun _ => .inl, .inl⟩
  | endRound => exact hupdate ⟨fun h => h, fun _ => .inl, .inl⟩
  | flush => exact hupdate ⟨fun _ => rfl, fun _ => .inl, fun _ => .inr rfl⟩
  | ackMissing => exact hupdate ⟨fun h => h, fun _ hi => .inl (Finset.mem_insert_of_mem hi), .inl⟩
  | ackLast => exact hupdate ⟨fun _ => rfl, fun _ _ => .inr rfl, fun _ => .inr rfl⟩

theorem Fits.turn {record : WalRecord AggregatorChange} (h : Fits v record)
    (ht : cfg.Turn v message v' outs) : Fits v' record where
  order hk := (ht.keeps _).closed (h.order hk)
  ack hk := (h.ack hk).elim (fun hc => .inl ((ht.keeps _).closed hc))
    fun hi => ((ht.keeps _).acks _ hi).symm
  eof m key c expected count forwarded outputs he :=
    (h.eof m key c expected count forwarded outputs he).elim (ht.keeps c).seen
      fun hc => .inr ((ht.keeps c).closed hc)

variable (cfg) in
/-- What holds of a replica in every run. -/
structure ReplicaInv (s : State (AggregatorState π) AggregatorChange) : Prop where
  sound : Sound cfg.consumer s
  fits : ∀ record ∈ s.node.history, Fits s.node.handler.workerState.view record

/-- What a delivery leaves in the hands of the threads and in the trace. -/
structure Leaves (s s' : State (AggregatorState π) AggregatorChange)
    (outs : List (String × Bytes)) :
    Prop where
  tasks : ∃ more, s'.tasks = s.tasks ++ more ∧ (∀ x ∈ outs, ∃ task ∈ more, x ∈ task.parcels) ∧
    ∀ sends, .sending sends ∈ more → ∀ x ∈ sends, x ∈ outs
  trace : ∀ m key change outputs, .recorded (.inputApplied m key change outputs) ∈ s'.trace →
    .recorded (.inputApplied m key change outputs) ∈ s.trace ∨
      ∀ entry ∈ outputs, (entry.destination, entry.body) ∈ outs

variable {s s' : State (AggregatorState π) AggregatorChange}

/-- A delivery whose handler returns is a turn. -/
theorem ReplicaInv.deliver (h : ReplicaInv cfg s) (hN : 2 ≤ cfg.aggregationAmount)
    (hm : cfg.Expected message) (hr : Returns cfg.consumer s message) :
    ∃ outs, cfg.Turn s.node.handler.workerState.view message
        (Consumer.deliver cfg.consumer s message (.ok ⟨⟩)).node.handler.workerState.view outs ∧
      ReplicaInv cfg (Consumer.deliver cfg.consumer s message (.ok ⟨⟩)) ∧
      Leaves s (Consumer.deliver cfg.consumer s message (.ok ⟨⟩)) outs := by
  have hsound := h.sound.deliver message (.ok ⟨⟩)
  have hreacts := reacts (s := s.node.handler.workerState) hN hm
  have hd := delivered hr
  generalize Consumer.deliver cfg.consumer s message (.ok ⟨⟩) = s' at hsound hd
  cases hd with
  | skipped hreact hs =>
    rw [hreact] at hreacts
    cases hreacts with
    | skip habs =>
      subst hs
      refine ⟨[], .idle habs, ⟨hsound, h.fits⟩, ⟨[], (List.append_nil _).symm, nofun, nofun⟩, ?_⟩
      intro m key change outputs ho
      exact .inl ((List.mem_append.mp ho).resolve_right (by simp))
  | @direct touched sends hreact hs =>
    rw [hreact] at hreacts
    cases hreacts with
    | direct hturn =>
      subst hs
      refine ⟨sends, hturn, ⟨hsound, fun record hrec => (h.fits record hrec).turn hturn⟩,
        ⟨[.sending sends], rfl, fun x hx => ⟨_, List.mem_singleton_self _, hx⟩,
          ?_⟩, fun _ _ _ _ => .inl⟩
      intro sends' hs' x hx
      cases List.mem_singleton.mp hs'
      exact hx
  | @duplicate key touched result task hreact hk ht hs =>
    rw [hreact] at hreacts
    cases hreacts with
    | handle hagain happlied =>
      subst hs
      rw [h.sound.node.inbox] at hk
      obtain ⟨record, hrec, hc, hch⟩ := h.sound.node.admissible.recorded_of_classify hk
      refine ⟨[], .idle (hagain record (h.fits record hrec) hc hch), ⟨hsound, h.fits⟩,
        ⟨[task], rfl, nofun, fun sends hs => ?_⟩, fun _ _ _ _ => .inl⟩
      exact absurd (List.mem_singleton.mp hs).symm (ht sends)
  | @applied key touched change logical outputs hreact hstamp hw hh ht htasks =>
    rw [hreact] at hreacts
    cases hreacts with
    | handle hagain happlied =>
      obtain ⟨hturn, hfits⟩ := happlied change logical rfl
      have hparcels := SenderSequencer.map_of_stamp_plain rfl hstamp
      rw [← hparcels, ← show s'.node.handler.workerState = touched.applyChange cfg
        change from hw] at hturn
      refine ⟨_, hturn, ⟨hsound, fun record hrec => ?_⟩,
        ⟨[.publishing key outputs], htasks, fun x hx => ⟨_, List.mem_singleton_self _, hx⟩, ?_⟩, ?_⟩
      · rw [hh] at hrec
        rcases List.mem_append.mp hrec with hrec | hrec
        · exact (h.fits record hrec).turn hturn
        · cases List.mem_singleton.mp hrec
          have hfit := hfits (cfg.consumer.handler.msgId key) outputs
          rwa [← show s'.node.handler.workerState = touched.applyChange cfg change from hw] at hfit
      · intro sends hs
        cases List.mem_singleton.mp hs
      · intro m key' change' outputs' ho
        rw [ht] at ho
        rcases List.mem_append.mp ho with ho | ho
        · exact .inl ho
        · cases List.mem_singleton.mp ho
          exact .inr fun entry he => List.mem_map.mpr ⟨entry, he, rfl⟩

/-- A publication, a commit or an ack. -/
theorem ReplicaInv.other {l : Label WorkerDelivery} (h : ReplicaInv cfg s)
    (he : Consumer.exec cfg.consumer s l = some s')
    (hl : ∀ message write, l ≠ .deliver message write) :
    Quiet s s' ∧ ReplicaInv cfg s' := by
  have hquiet : Quiet s s' := by
    cases step_of_exec he with
    | quiet hq => exact hq
    | direct | raised | applied => exact absurd rfl (hl _ _)
  refine ⟨hquiet, h.sound.exec he, fun record hrec => ?_⟩
  rw [hquiet.workerState]
  cases l with
  | deliver message write => exact absurd rfl (hl message write)
  | publish i confirmed =>
    simp only [Consumer.exec] at he
    split at he
    · split at he <;> cases he <;> exact h.fits record hrec
    · split at he <;> cases he <;> exact h.fits record hrec
    · cases he
  | ack i =>
    simp only [Consumer.exec] at he
    split at he
    · cases he
      exact h.fits record hrec
    · cases he
      exact h.fits record hrec
    · cases he
  | commit i write =>
    simp only [Consumer.exec] at he
    split at he
    · next key htask =>
      split at he
      · cases he
        exact h.fits record hrec
      · cases he
        obtain ⟨-, ⟨hh, -⟩ | ⟨-, record', ha, hh⟩⟩ := h.sound.node.call write (.commitDone key)
        · exact h.fits record (hh ▸ hrec)
        · cases ha
          rw [call, hh] at hrec
          rcases List.mem_append.mp hrec with hrec | hrec
          · exact h.fits record hrec
          · -- the end of an input whose record fits
            cases List.mem_singleton.mp hrec
            obtain ⟨before, since, change, done, htrace, -⟩ :=
              h.sound.publishing key [] (List.mem_of_getElem? htask)
            have hmem : .inputApplied (cfg.consumer.handler.msgId key) key change (done ++ []) ∈
                s.node.history := by
              rw [← h.sound.records, htrace]
              simp [recordsIn]
            have hfit := h.fits _ hmem
            exact ⟨hfit.order, hfit.ack, by rintro _ _ _ _ _ _ _ ⟨⟩⟩
    · cases he

/-- What the trace of a replica shows as an output, or a thread has yet to send. -/
def KnownAt (s : State (AggregatorState π) AggregatorChange) (x : String × Bytes) : Prop :=
  (∃ m key change outputs, .recorded (.inputApplied m key change outputs) ∈ s.trace ∧
    ∃ entry ∈ outputs, x = (entry.destination, entry.body)) ∨
  ∃ sends, .sending sends ∈ s.tasks ∧ x ∈ sends

/-- What a thread has yet to publish is known. -/
theorem ReplicaInv.known (h : ReplicaInv cfg s) {task : Consumer.Task} (ht : task ∈ s.tasks)
    {x : String × Bytes} (hx : x ∈ task.parcels) : KnownAt s x := by
  cases task with
  | publishing key remaining =>
    obtain ⟨entry, he, rfl⟩ := List.mem_map.mp hx
    obtain ⟨before, since, change, done, htrace, -⟩ := h.sound.publishing key remaining ht
    exact .inl ⟨_, key, change, done ++ remaining,
      htrace ▸ List.mem_append_right _ List.mem_cons_self, entry, List.mem_append_right _ he, rfl⟩
  | acking key => cases hx
  | sending sends => exact .inr ⟨sends, ht, hx⟩

theorem KnownAt.of_quiet {x : String × Bytes} (hq : Quiet s s') (h : KnownAt s' x) :
    KnownAt s x := by
  rcases h with ⟨m, key, change, outputs, hm, he⟩ | ⟨sends, hs, hx⟩
  · exact .inl ⟨m, key, change, outputs, hq.applied m key change outputs hm, he⟩
  · obtain ⟨sends', hs', hsuf⟩ := hq.sending sends hs
    exact .inr ⟨sends', hs', hsuf.mem hx⟩

theorem KnownAt.of_leaves {x : String × Bytes} (hl : Leaves s s' outs) (h : KnownAt s' x) :
    KnownAt s x ∨ x ∈ outs := by
  rcases h with ⟨m, key, change, outputs, hm, entry, he, rfl⟩ | ⟨sends, hs, hx⟩
  · rcases hl.trace m key change outputs hm with hm | hout
    · exact .inl (.inl ⟨m, key, change, outputs, hm, entry, he, rfl⟩)
    · exact .inr (hout entry he)
  · obtain ⟨more, htasks, -, hmore⟩ := hl.tasks
    rw [htasks] at hs
    rcases List.mem_append.mp hs with hs | hs
    · exact .inl (.inr ⟨sends, hs, hx⟩)
    · exact .inr (hmore sends hs x hx)

end AggregatorConfig

end MoneyLaundering
