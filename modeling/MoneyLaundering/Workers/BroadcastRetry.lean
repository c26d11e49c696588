import MoneyLaundering.Eof.Rounds
import MoneyLaundering.Filter.Worker
import MoneyLaundering.Workers.FileIngestor
import MoneyLaundering.Workers.Sum

/-!
# A broadcast that fails

The leader ends a counting round with a broadcast, `FLUSH_ORDER` or `PROCESSED_REQUEST`. The
response handlers of the sum, the filter and the file ingestor call the coordinator first and send
afterwards; when a send raises, they nack the `PROCESSED_ANSWER` with requeue. By then the
coordinator has forgotten the round, so the redelivered answer is the first of a new one.
-/

namespace MoneyLaundering

open InternalProtocol

namespace EofCoordinator

variable {cfg : CoordinatorConfig} {s : EofCoordinator} {clientId : Nat} {ctrl : ControlMessage}

/-- Whether the answer that ended a round ends the next one in the same way, all by itself. -/
def RetryReproduces (cfg : CoordinatorConfig) (s : EofCoordinator) (clientId : Nat)
    (ctrl : ControlMessage) : Prop :=
  cfg.totalInstances ≤ 1 ∧ ∀ expected, s.leaderExpected.get? clientId = some expected →
    expected ≤ s.leaderProcessed.getD clientId 0 + ctrl.processedCount →
    expected ≤ ctrl.processedCount

/-- What the answer that ended a round does when it comes again. -/
theorem onProcessedAnswer_again {action : CoordinatorAction}
    (h : (s.onProcessedAnswer cfg clientId ctrl).2 = some action) :
    ∃ expected, s.leaderExpected.get? clientId = some expected ∧
      ((s.onProcessedAnswer cfg clientId ctrl).1.onProcessedAnswer cfg clientId ctrl).2 =
        if 1 < cfg.totalInstances then none
        else some
          (roundBroadcast cfg clientId expected (decide (expected ≤ ctrl.processedCount))) := by
  obtain ⟨-, expected, hexp, -, -, hexp', hresp, hproc⟩ :=
    onProcessedAnswer_action s clientId ctrl h
  refine ⟨expected, hexp, ?_⟩
  generalize (s.onProcessedAnswer cfg clientId ctrl).1 = s₁ at hexp' hresp hproc ⊢
  unfold onProcessedAnswer
  dsimp only
  rw [hresp, hproc, hexp', hexp, if_neg (Finset.notMem_empty _), Nat.zero_add]
  dsimp only
  rw [insert_empty_eq, Finset.card_singleton]
  split
  · rfl
  · split
    · next hle => rw [decide_eq_true hle]; rfl
    · next hle => rw [decide_eq_false hle]; rfl


/-- The answer that comes again reproduces the broadcast exactly under the condition. -/
theorem onProcessedAnswer_again_iff {action : CoordinatorAction}
    (h : (s.onProcessedAnswer cfg clientId ctrl).2 = some action) :
    ((s.onProcessedAnswer cfg clientId ctrl).1.onProcessedAnswer cfg clientId ctrl).2 =
      some action ↔
      RetryReproduces cfg s clientId ctrl := by
  obtain ⟨-, expected, hexp, -, rfl, -⟩ := onProcessedAnswer_action s clientId ctrl h
  obtain ⟨expected', hexp', hagain⟩ := onProcessedAnswer_again h
  cases hexp.symm.trans hexp'
  rw [hagain]
  split
  · next hmany => exact iff_of_false (by rintro ⟨⟩) fun hr => absurd hr.1 (Nat.not_le.mpr hmany)
  · next hone =>
    have hle := Nat.not_lt.mp hone
    rw [Option.some_inj]
    constructor
    · intro he
      refine ⟨hle, fun expected' hexp' htotal => ?_⟩
      cases hexp.symm.trans hexp'
      by_contra hno
      rw [decide_eq_true htotal, decide_eq_false hno] at he
      cases he
    · intro hr
      have hcount := hr.2 expected hexp
      by_cases htotal : expected ≤ s.leaderProcessed.getD clientId 0 + ctrl.processedCount
      · rw [decide_eq_true htotal, decide_eq_true (hcount htotal)]
      · rw [decide_eq_false htotal, decide_eq_false]
        omega

end EofCoordinator

/-! ## The response handlers -/

/-- How a response handler ends: the worker it leaves, the packets that went out, and whether the
message was acked. -/
structure Attempt (W : Type) where
  worker : W
  sent : List (String × Bytes)
  acked : Bool

/-- A response handler calls the coordinator under the lock and sends outside it. A send that raises
after some queues stops it, and the message is nacked. -/
def attempt {W : Type} (respond : W → Bytes → W × List (String × Bytes)) (w : W) (body : Bytes) :
    Option Nat → Attempt W
  | none => ⟨(respond w body).1, (respond w body).2, true⟩
  | some k => ⟨(respond w body).1, (respond w body).2.take k, false⟩

/-- `_handle_response` of the sum, for what is not handled by the log. -/
def SumConfig.respond {π : Type} (cfg : SumConfig π) (w : SumWorker π) (body : Bytes) :
    SumWorker π × List (String × Bytes) :=
  match cfg.consumer.react w (.response body) with
  | .direct touched sends => (touched, sends)
  | _ => (w, [])

/-- `_handle_response` of the filter, for what is not handled by the log. -/
def FilterConfig.respond (cfg : FilterConfig) (w : FilterWorker) (body : Bytes) :
    FilterWorker × List (String × Bytes) :=
  ({ w with node := w.prepared cfg (.deliver (.response body) fun _ => 0) },
    (w.sectionOf cfg (.deliver (.response body) fun _ => 0)).sends)

/-- `_handle_response` of the file ingestor, for what is not handled by the log. Only a broadcast is
sent. -/
def FileIngestorConfig.respond (cfg : FileIngestorConfig) (inbox : Inbox) (s : FileIngestorState)
    (body : Bytes) : FileIngestorState × List (String × Bytes) :=
  match EofCoordinator.parseMessage body with
  | .ok (some msgType, clientId, ctrl) =>
    match cfg.handleResponse s inbox ⟨msgType, clientId, ctrl⟩ with
    | .direct coordinator (some (.broadcast queueNames message sleep)) =>
      ({ s with coordinator }, FilterConfig.sendsOf (some (.broadcast queueNames message sleep)))
    | .direct coordinator _ => ({ s with coordinator }, [])
    | _ => (s, [])
  | _ => (s, [])

/-- The message is a `PROCESSED_ANSWER` that ends a round of the client with a broadcast of
`bytes`. -/
structure EndsRound (cfg : CoordinatorConfig) (s : EofCoordinator) (body : Bytes) (clientId : Nat)
    (ctrl : ControlMessage) (bytes : Bytes) : Prop where
  parsed : EofCoordinator.parseMessage body = .ok (some .processedAnswer, clientId, ctrl)
  broadcast : ∃ queueNames message sleep,
    (s.processControlMessage cfg .processedAnswer clientId ctrl 0 0).2 =
      some (.broadcast queueNames message sleep) ∧ message.toBytes = .ok bytes

namespace EndsRound

open EofCoordinator

variable {cfg : CoordinatorConfig} {s : EofCoordinator} {body bytes : Bytes} {clientId : Nat}
  {ctrl : ControlMessage}

/-- The broadcast, in full. -/
theorem action_eq (h : EndsRound cfg s body clientId ctrl bytes) :
    ∃ expected enough, (roundEnd cfg clientId expected enough).toBytes = .ok bytes ∧
      s.leaderExpected.get? clientId = some expected ∧
      (s.onProcessedAnswer cfg clientId ctrl).2 =
        some (roundBroadcast cfg clientId expected enough) := by
  obtain ⟨queueNames, message, sleep, ha, hb⟩ := h.broadcast
  obtain ⟨-, expected, hexp, -, he, -⟩ := onProcessedAnswer_action s clientId ctrl ha
  refine ⟨expected, _, ?_, hexp, ha.trans (congrArg some he)⟩
  cases he
  exact hb

theorem sendsOf_roundBroadcast {expected : Nat} {enough : Bool} {bytes : Bytes}
    (hb : (roundEnd cfg clientId expected enough).toBytes = .ok bytes) :
    FilterConfig.sendsOf (some (roundBroadcast cfg clientId expected enough)) =
      broadcastSends cfg bytes := by
  unfold roundBroadcast FilterConfig.sendsOf
  dsimp only
  rw [hb]
  rfl

/-- The packets of the redelivered answer are those of the first one exactly when the action is. -/
theorem sends_again_iff (h : EndsRound cfg s body clientId ctrl bytes)
    (hpos : 0 < cfg.totalInstances) :
    FilterConfig.sendsOf
        ((s.onProcessedAnswer cfg clientId ctrl).1.onProcessedAnswer cfg clientId ctrl).2 =
      broadcastSends cfg bytes ↔ RetryReproduces cfg s clientId ctrl := by
  obtain ⟨expected, enough, hb, hexp, ha⟩ := h.action_eq
  rw [← onProcessedAnswer_again_iff ha]
  constructor
  · intro hs
    obtain ⟨expected', hexp', hagain⟩ := onProcessedAnswer_again ha
    cases hexp.symm.trans hexp'
    rw [hagain] at hs ⊢
    have hne : broadcastSends cfg bytes ≠ [] := by
      unfold broadcastSends allControlQueues
      simp only [ne_eq, List.map_eq_nil_iff, List.range_eq_nil]
      omega
    split at hs
    · exact absurd hs.symm hne
    · next hone =>
      rw [if_neg hone]
      -- equal packets to a queue have equal types
      cases hb' :
        (roundEnd cfg clientId expected (decide (expected ≤ ctrl.processedCount))).toBytes with
      | error e =>
        unfold roundBroadcast FilterConfig.sendsOf at hs
        dsimp only at hs
        rw [hb'] at hs
        exact absurd hs.symm hne
      | ok bytes' =>
        rw [sendsOf_roundBroadcast hb'] at hs
        obtain ⟨send, hmem⟩ := List.exists_mem_of_ne_nil _ hne
        have hmem' := hs ▸ hmem
        obtain ⟨queueName, -, rfl⟩ := List.mem_map.mp hmem
        obtain ⟨queueName', -, he⟩ := List.mem_map.mp hmem'
        cases (Prod.mk.inj he).2
        rw [enough_of_toBytes hb' hb]
  · intro hs
    rw [hs]
    exact sendsOf_roundBroadcast hb

theorem react_sum {π : Type} {cfg : SumConfig π} {w : SumWorker π}
    (hp : parseMessage body = .ok (some .processedAnswer, clientId, ctrl)) :
    cfg.consumer.react w (.response body) = .ofAction
      { w with state := { w.state with
          coordinator := (w.state.coordinator.onProcessedAnswer cfg.coordinator clientId ctrl).1 } }
      (w.state.coordinator.onProcessedAnswer cfg.coordinator clientId ctrl).2 := by
  change cfg.handleResponse w body = _
  unfold SumConfig.handleResponse
  rw [hp]
  rfl

theorem sends_sum {π : Type} {cfg : SumConfig π} {w : SumWorker π}
    (hp : parseMessage body = .ok (some .processedAnswer, clientId, ctrl)) :
    (cfg.respond w body).2 =
      FilterConfig.sendsOf
        (w.state.coordinator.onProcessedAnswer cfg.coordinator clientId ctrl).2 := by
  unfold SumConfig.respond
  rw [react_sum hp]
  rcases onProcessedAnswer_cases cfg.coordinator w.state.coordinator clientId ctrl with ha |
    ⟨e, b, ha⟩
  · rw [ha]
    rfl
  · rw [ha]
    dsimp only [Reaction.ofAction, roundBroadcast, actionOutputs, FilterConfig.sendsOf]
    cases hb : (roundEnd cfg.coordinator clientId e b).toBytes with
    | error err => rfl
    | ok bytes' => simp

theorem coordinator_sum {π : Type} {cfg : SumConfig π} {w : SumWorker π}
    (h : EndsRound cfg.coordinator w.state.coordinator body clientId ctrl bytes) :
    (cfg.respond w body).1.state.coordinator =
      (w.state.coordinator.onProcessedAnswer cfg.coordinator clientId ctrl).1 := by
  obtain ⟨expected, enough, hb, -, ha⟩ := h.action_eq
  unfold SumConfig.respond
  rw [react_sum h.parsed, ha]
  dsimp only [Reaction.ofAction, roundBroadcast, actionOutputs]
  rw [hb]
  rfl

theorem respond_filter {cfg : FilterConfig} {w : FilterWorker}
    (h : ∃ payload, unpackPacket body = .ok (MessageType.processedAnswer.toNat, clientId, payload) ∧
      ControlMessage.deserialize payload = .ok ctrl) :
    (cfg.respond w body).2 =
        FilterConfig.sendsOf
          (w.state.coordinator.onProcessedAnswer cfg.coordinator clientId ctrl).2 ∧
      (cfg.respond w body).1.state.coordinator =
        (w.state.coordinator.onProcessedAnswer cfg.coordinator clientId ctrl).1 := by
  obtain ⟨payload, hu, hd⟩ := h
  have hsection : w.sectionOf cfg (.deliver (.response body) fun _ => 0) =
      { mutate := fun s => (s.onProcessedAnswer cfg.coordinator clientId ctrl).1
        sends := FilterConfig.sendsOf
          (w.state.coordinator.onProcessedAnswer cfg.coordinator clientId ctrl).2 } := by
    change cfg.handleResponse w.node.handler (fun _ => 0) body = _
    unfold FilterConfig.handleResponse
    rw [hu]
    dsimp only
    rw [MessageType.ofNat?_toNat]
    dsimp only
    rw [hd]
    refine congrArg (FilterConfig.Section.mk _ none) ?_
    dsimp only [processControlMessage]
    change _ = FilterConfig.sendsOf
      (w.node.handler.workerState.coordinator.onProcessedAnswer cfg.coordinator clientId ctrl).2
    rcases onProcessedAnswer_cases cfg.coordinator
      w.node.handler.workerState.coordinator clientId ctrl
      with ha | ⟨e, b, ha⟩
    · rw [ha]
      rfl
    · rw [ha]
      rfl
  unfold FilterConfig.respond FilterWorker.prepared
  rw [hsection]
  exact ⟨rfl, rfl⟩

theorem respond_fileIngestor {cfg : FileIngestorConfig} (inbox : Inbox) {w : FileIngestorState}
    (hp : parseMessage body = .ok (some .processedAnswer, clientId, ctrl)) :
    (cfg.respond inbox w body).2 =
        FilterConfig.sendsOf (w.coordinator.onProcessedAnswer cfg.coordinator clientId ctrl).2 ∧
      (cfg.respond inbox w body).1.coordinator =
        (w.coordinator.onProcessedAnswer cfg.coordinator clientId ctrl).1 := by
  have hreact : cfg.handleResponse w inbox ⟨.processedAnswer, clientId, ctrl⟩ =
      .direct (w.coordinator.onProcessedAnswer cfg.coordinator clientId ctrl).1
        (w.coordinator.onProcessedAnswer cfg.coordinator clientId ctrl).2 := rfl
  unfold FileIngestorConfig.respond
  rw [hp]
  dsimp only
  rw [hreact]
  rcases onProcessedAnswer_cases cfg.coordinator w.coordinator clientId ctrl with ha | ⟨e, b, ha⟩
  · rw [ha]
    exact ⟨rfl, rfl⟩
  · rw [ha]
    exact ⟨rfl, rfl⟩

end EndsRound

/-- After the send of a broadcast raised behind `k` queues, the redelivered message publishes it to
every control queue. -/
def Retried {W : Type} (cfg : CoordinatorConfig) (respond : W → Bytes → W × List (String × Bytes))
    (w : W) (body bytes : Bytes) (k : Nat) : Prop :=
  (attempt respond (attempt respond w body (some k)).worker body none).sent =
  broadcastSends cfg bytes

/-- **A failed broadcast and its retry**, in the response handlers of the sum, the filter and the
file ingestor. Whatever number of queues was reached before the send raised, the redelivered
`PROCESSED_ANSWER` publishes the broadcast exactly when the leader has no other replica to count and
the answer alone decides the round as the whole round did. -/
theorem broadcast_retried_iff (π : Type) (body : Bytes) (clientId : Nat) (ctrl : ControlMessage)
    (bytes : Bytes) (k : Nat) :
    (∀ (cfg : SumConfig π) (w : SumWorker π),
      EndsRound cfg.coordinator w.state.coordinator body clientId ctrl bytes → k < cfg.sumAmount →
      (Retried cfg.coordinator cfg.respond w body bytes k ↔
        EofCoordinator.RetryReproduces cfg.coordinator w.state.coordinator clientId ctrl)) ∧
    (∀ (cfg : FilterConfig) (w : FilterWorker),
      EndsRound cfg.coordinator w.state.coordinator body clientId ctrl bytes →
      k < cfg.filterAmount →
      (Retried cfg.coordinator cfg.respond w body bytes k ↔
        EofCoordinator.RetryReproduces cfg.coordinator w.state.coordinator clientId ctrl)) ∧
    (∀ (cfg : FileIngestorConfig) (inbox : Inbox) (w : FileIngestorState),
      EndsRound cfg.coordinator w.coordinator body clientId ctrl bytes → k < cfg.totalInstances →
      (Retried cfg.coordinator (cfg.respond inbox) w body bytes k ↔
        EofCoordinator.RetryReproduces cfg.coordinator w.coordinator clientId ctrl)) := by
  refine ⟨fun cfg w h hk => ?_, fun cfg w h hk => ?_, fun cfg inbox w h hk => ?_⟩
  · have hpos : 0 < cfg.coordinator.totalInstances := Nat.zero_lt_of_lt hk
    rw [← h.sends_again_iff hpos, ← EndsRound.coordinator_sum h]
    dsimp only [Retried, attempt]
    rw [EndsRound.sends_sum h.parsed]
  · have hpos : 0 < cfg.coordinator.totalInstances := Nat.zero_lt_of_lt hk
    rw [← h.sends_again_iff hpos,
      ← (EndsRound.respond_filter (EofCoordinator.unpacked_of_parseMessage h.parsed)).2]
    dsimp only [Retried, attempt]
    rw [(EndsRound.respond_filter (EofCoordinator.unpacked_of_parseMessage h.parsed)).1]
  · have hpos : 0 < cfg.coordinator.totalInstances := Nat.zero_lt_of_lt hk
    rw [← h.sends_again_iff hpos, ← (EndsRound.respond_fileIngestor inbox h.parsed).2]
    dsimp only [Retried, attempt]
    rw [(EndsRound.respond_fileIngestor inbox h.parsed).1]

/-! A leader of two replicas: replica 1 has counted 4 of the 10 messages of client 7, and the own
answer brings the other 6. -/

def leaderOfTwo : SumConfig Unit where
  id := 0
  sumAmount := 2
  sumPrefix := "sum_q2"
  aggregationAmount := 1
  aggregationPrefix := "aggregator_q2"
  snapshotInterval := 1000
  sha256 _ := []
  processor := ⟨(), fun _ _ => (), fun _ => .ok []⟩
  changeJson := .ofTable []

def waitingForSix : SumWorker Unit where
  state := { coordinator := {
    leaderExpected := Dict.set ∅ 7 10
    leaderProcessed := Dict.set ∅ 7 4
    leaderResponders := Dict.set ∅ 7 {1} } }

def answerOfSix : ControlPacket := ⟨.processedAnswer, 7, ⟨0, 6, 6⟩⟩

def answerBody : Bytes := answerOfSix.toBytes.toOption.getD []

def flushOrderBody (cfg : CoordinatorConfig) : Bytes :=
  (EofCoordinator.roundEnd cfg 7 10 true).toBytes.toOption.getD []

theorem endsRound_waitingForSix : EndsRound leaderOfTwo.coordinator waitingForSix.state.coordinator
    answerBody 7 ⟨0, 6, 6⟩ (flushOrderBody leaderOfTwo.coordinator) where
  parsed := by decide +kernel
  broadcast := ⟨EofCoordinator.allControlQueues leaderOfTwo.coordinator,
    EofCoordinator.roundEnd leaderOfTwo.coordinator 7 10 true,
      0, by decide +kernel, by decide +kernel⟩

/-- A single replica ends the round by its own answer, and does so again. -/
theorem flush_order_retried_by_single_replica :
    Retried { leaderOfTwo with sumAmount := 1 }.coordinator
      { leaderOfTwo with sumAmount := 1 }.respond
      { waitingForSix with state := { coordinator := { leaderExpected := Dict.set ∅ 7 6 } } }
        answerBody
      (flushOrderBody leaderOfTwo.coordinator) 0 := by
  refine ((broadcast_retried_iff Unit answerBody 7 ⟨0, 6, 6⟩
    (flushOrderBody leaderOfTwo.coordinator) 0).1
    { leaderOfTwo with sumAmount := 1 } _ ⟨by decide +kernel, ?_⟩ (by decide)).mpr ⟨by decide, ?_⟩
  · exact ⟨EofCoordinator.allControlQueues { leaderOfTwo with sumAmount := 1 }.coordinator,
      EofCoordinator.roundEnd leaderOfTwo.coordinator 7 10 true,
        0, by decide +kernel, by decide +kernel⟩
  · intro expected hexp _
    cases hexp
    decide

/-- The order to flush reached one queue of two and is not sent again. -/
theorem flush_order_not_retried :
    ¬ ∀ (cfg : SumConfig Unit) (w : SumWorker Unit) (body : Bytes) (clientId : Nat)
      (ctrl : ControlMessage) (bytes : Bytes) (k : Nat),
      EndsRound cfg.coordinator w.state.coordinator body clientId ctrl bytes → k < cfg.sumAmount →
      Retried cfg.coordinator cfg.respond w body bytes k := by
  intro h
  have hr :=
    h leaderOfTwo waitingForSix answerBody 7 ⟨0, 6, 6⟩ _ 1 endsRound_waitingForSix (by decide)
  exact absurd hr (by unfold Retried; decide +kernel)

end MoneyLaundering
