import MoneyLaundering.ScatterGather.Q4FilterWorker

/-!
# A second counting round in `q4_filter`

A `PROCESSED_ANSWER` is an input of the leader, and its key names client and sender only. The inbox
lets each replica answer once for a client: after a round that fell short, the answers to the
`PROCESSED_REQUEST` are duplicates, the coordinator does not hear of them, and the client is never
flushed.
-/

namespace MoneyLaundering

open EofCoordinator Q4FilterConfig

/-! ## The responders of a round -/

namespace EofCoordinator

variable {cfg : CoordinatorConfig} {s : EofCoordinator} {clientId : Nat} {ctrl : ControlMessage}

/-- An answer adds its sender to a round, or ends the round. -/
theorem responders_onProcessedAnswer {c r : Nat}
    (h : r ∈ (s.onProcessedAnswer cfg clientId ctrl).1.leaderResponders.getD c ∅) :
    r ∈ s.leaderResponders.getD c ∅ ∨ c = clientId ∧ r = ctrl.senderId := by
  have hset : r ∈ (s.leaderResponders.set clientId
      (insert ctrl.senderId (s.leaderResponders.getD clientId ∅))).getD c ∅ →
      r ∈ s.leaderResponders.getD c ∅ ∨ c = clientId ∧ r = ctrl.senderId := by
    intro hr
    rw [Dict.getD_set] at hr
    split at hr
    · next hc =>
      subst hc
      rcases Finset.mem_insert.mp hr with hr | hr
      · exact .inr ⟨rfl, hr⟩
      · exact .inl hr
    · exact .inl hr
  unfold onProcessedAnswer at h
  dsimp only at h
  split at h
  · exact .inl h
  · split at h
    · exact hset h
    · split at h
      · exact hset h
      · split at h
        · rw [Dict.getD_erase] at h
          split at h
          · cases h
          · exact hset h
        · rw [Dict.getD_set] at h
          split at h
          · cases h
          · exact hset h

end EofCoordinator

/-- The change counts no answer. -/
def WorkerOp.CountsNoAnswer {δ : Type} : WorkerOp δ → Prop
  | .coordinatorMsg msgType .. => msgType ≠ .processedAnswer
  | _ => True

theorem WorkerOp.CountsNoAnswer.responders {δ : Type} {cfg : CoordinatorConfig} {s : EofCoordinator}
    {op : WorkerOp δ} (h : op.CountsNoAnswer) :
    (op.applyCoordinator cfg s).leaderResponders = s.leaderResponders := by
  cases op with
  | data | close | coordinatorCleanup => rfl
  | coordinatorUpstreamEof =>
    dsimp only [applyCoordinator]
    unfold onUpstreamEof
    split
    · rfl
    · split
      · rfl
      · split <;> rfl
  | coordinatorMsg msgType c ctrl count forwarded =>
    dsimp only [applyCoordinator]
    unfold processControlMessage
    split
    · unfold onEofReceived
      split <;> rfl
    · unfold onProcessedRequest
      split
      · split <;> rfl
      · rfl
    · exact absurd rfl h
    · unfold onFlushOrder
      split <;> rfl
    · unfold onFlushAck
      split
      · dsimp only
        split <;> rfl
      · rfl
    · rfl

theorem Q4FilterState.responders_applyChange {cfg : Q4FilterConfig} {s : Q4FilterState}
    {change : Q4FilterChange} (h : ∀ op ∈ change.ops, op.CountsNoAnswer) :
    (s.applyChange cfg change).coordinator.leaderResponders = s.coordinator.leaderResponders := by
  unfold applyChange
  generalize change.ops = ops at h
  induction ops generalizing s with
  | nil => rfl
  | cons op ops ih =>
    rw [List.foldl_cons, ih fun op' hop => h op' (List.mem_cons_of_mem _ hop)]
    have hop := h op List.mem_cons_self
    cases op with
    | data clientId payload =>
      dsimp only [applyOp, applyData]
      split
      · rfl
      · split <;> rfl
    | close => rfl
    | coordinatorUpstreamEof => exact hop.responders
    | coordinatorMsg => exact hop.responders
    | coordinatorCleanup => rfl

namespace Q4FilterWorker

variable {cfg : Q4FilterConfig} {n : State} {clientId : Nat}

/-! ## Which calls count an answer -/

/-- What is known of a call: it counts no answer, or it is that of an answer of a replica. -/
def CallOk (cfg : Q4FilterConfig) : Call Q4FilterState Q4FilterChange → Prop
  | .handle key businessFn =>
    (key.kind ≠ .ctrlProcessedAnswer ∧ ∀ s result, businessFn s = .ok result →
      ∀ op ∈ result.1.ops, op.CountsNoAnswer) ∨
    ∃ clientId ctrl, ctrl.senderId < cfg.deployment.filterAmount ∧
      key = answerKey clientId ctrl.senderId ∧
      businessFn = cfg.processedAnswerBusiness clientId ctrl
  | _ => True

/-- The answers come from the replicas. -/
def FromReplicas (cfg : Q4FilterConfig) (_ : State) : Label → Prop
  | .deliver (.response body) _ =>
    match parseMessage body with
    | .ok (some .processedAnswer, _, ctrl) => ctrl.senderId < cfg.deployment.filterAmount
    | _ => True
  | _ => True

theorem fromReplicas_response (cfg : Q4FilterConfig) (n : State) (body : Bytes)
    (outcome : Outcome) :
    (∀ x ∈ (parseMessage body).toOption, x.1 = some .processedAnswer →
      x.2.2.senderId < cfg.deployment.filterAmount) ↔
        FromReplicas cfg n (.deliver (.response body) outcome) := by
  unfold FromReplicas
  dsimp only
  cases parseMessage body with
  | error e => simp [Except.toOption]
  | ok parsed =>
    obtain ⟨msgType, c, ctrl⟩ := parsed
    simp only [Except.toOption, Option.mem_some_iff, forall_eq']
    split
    · next he =>
      cases he
      simp
    · next hne => exact iff_true_intro fun ht => (hne c ctrl (by rw [ht])).elim

instance (cfg : Q4FilterConfig) (n : State) : (l : Label) → Decidable (FromReplicas cfg n l)
  | .deliver (.response body) outcome =>
    decidable_of_iff _ (fromReplicas_response cfg n body outcome)
  | .deliver (.input _) _ => inferInstanceAs (Decidable True)
  | .deliver (.control _) _ => inferInstanceAs (Decidable True)
  | .commit _ _ => inferInstanceAs (Decidable True)

theorem handle_of_openOrApplied {h : Handler Q4FilterState} {key key' : InputKey}
    {businessFn businessFn' : BusinessFn Q4FilterState Q4FilterChange}
    (hr : openOrApplied h key (.handle key businessFn) = .handle key' businessFn') :
    key = key' ∧ businessFn = businessFn' := by
  unfold openOrApplied at hr
  split at hr
  · cases hr
  · cases hr
    exact ⟨rfl, rfl⟩

theorem callOk_processDataMessage {h : Handler Q4FilterState} {body : Bytes} {key : InputKey}
    {businessFn : BusinessFn Q4FilterState Q4FilterChange}
    (hr : cfg.processDataMessage h body = .handle key businessFn) :
    CallOk cfg (.handle key businessFn) := by
  unfold processDataMessage at hr
  split at hr
  · cases hr
  · split at hr
    · cases hr
      refine .inl ⟨nofun, fun s result hres op hop => ?_⟩
      obtain ⟨outputs, -, hres⟩ := Except.ok_of_bind hres
      cases hres
      cases List.mem_singleton.mp hop
      trivial
    · unfold handleUpstreamEof at hr
      split at hr
      · cases hr
      · obtain ⟨rfl, rfl⟩ := handle_of_openOrApplied hr
        refine .inl ⟨nofun, fun s result hres op hop => ?_⟩
        dsimp only [upstreamEofBusiness] at hres
        split at hres
        · obtain ⟨outputs, -, hres⟩ := Except.ok_of_bind hres
          cases hres
          cases List.mem_singleton.mp hop
          trivial
        · obtain ⟨outputs, -, hres⟩ := Except.ok_of_bind hres
          cases hres
          rcases List.mem_cons.mp hop with rfl | hop
          · trivial
          · cases List.mem_singleton.mp hop
            trivial
        · cases hres
          cases List.mem_singleton.mp hop
          trivial
    · unfold handleAbort at hr
      split at hr
      · cases hr
      · cases hr
        refine .inl ⟨nofun, fun s result hres op hop => ?_⟩
        obtain ⟨outputs, -, hres⟩ := Except.ok_of_bind hres
        cases hres
        rcases List.mem_cons.mp hop with rfl | hop
        · trivial
        · cases List.mem_singleton.mp hop
          trivial
    · cases hr

theorem callOk_handleControl {h : Handler Q4FilterState} {body : Bytes} {key : InputKey}
    {businessFn : BusinessFn Q4FilterState Q4FilterChange}
    (hr : cfg.handleControl h body = .handle key businessFn) :
    CallOk cfg (.handle key businessFn) := by
  unfold handleControl at hr
  split at hr
  · cases hr
  · split at hr
    · unfold handleFlushOrder at hr
      split at hr
      · cases hr
      · obtain ⟨rfl, rfl⟩ := handle_of_openOrApplied hr
        refine .inl ⟨nofun, fun s result hres op hop => ?_⟩
        obtain ⟨eofs, -, hres⟩ := Except.ok_of_bind hres
        obtain ⟨body, -, hres⟩ := Except.ok_of_bind hres
        cases hres
        rcases List.mem_cons.mp hop with rfl | hop
        · trivial
        · cases List.mem_singleton.mp hop
          trivial
    · unfold handleProcessedRequest at hr
      split at hr
      · split at hr <;> cases hr
      · cases hr
    · cases hr

theorem callOk_handleResponse {h : Handler Q4FilterState} {body : Bytes} {key : InputKey}
    {businessFn : BusinessFn Q4FilterState Q4FilterChange}
    (hfrom : ∀ clientId ctrl, parseMessage body = .ok (some .processedAnswer, clientId, ctrl) →
      ctrl.senderId < cfg.deployment.filterAmount)
    (hr : cfg.handleResponse h body = .handle key businessFn) :
    CallOk cfg (.handle key businessFn) := by
  unfold handleResponse at hr
  split at hr
  · cases hr
  · next msgType clientId ctrl hparse =>
    split at hr
    · cases hr
      exact .inr ⟨clientId, ctrl, hfrom clientId ctrl hparse, rfl, rfl⟩
    · obtain ⟨rfl, rfl⟩ := handle_of_openOrApplied hr
      refine .inl ⟨nofun, fun s result hres op hop => ?_⟩
      dsimp only [flushAckBusiness] at hres
      generalize (s.coordinator.flushAcks.getD clientId ∅).card + _ = newAckCount at hres
      split at hres
      · obtain ⟨outputs, -, hres⟩ := Except.ok_of_bind hres
        cases hres
        rcases List.mem_cons.mp hop with rfl | hop
        · exact nofun
        · cases List.mem_singleton.mp hop
          trivial
      · cases hres
        cases List.mem_singleton.mp hop
        exact nofun
    · cases hr

theorem callOk_callFor {message : WorkerDelivery} {outcome : Outcome}
    {c : Call Q4FilterState Q4FilterChange}
    (hfrom : FromReplicas cfg n (.deliver message outcome)) (hc : callFor cfg n message = some c) :
    CallOk cfg c := by
  unfold callFor at hc
  split at hc
  · next key businessFn hr =>
    cases hc
    cases message with
    | input body => exact callOk_processDataMessage hr
    | control body => exact callOk_handleControl hr
    | response body =>
      refine callOk_handleResponse (fun clientId ctrl hparse => ?_) hr
      dsimp only [FromReplicas] at hfrom
      rw [hparse] at hfrom
      exact hfrom
  · cases hc

/-! ## The invariant -/

/-- The leader has recorded an answer of the replica for the client. -/
def Answered (history : List (WalRecord Q4FilterChange)) (clientId senderId : Nat) : Prop :=
  ∃ m change outputs, .inputApplied m (answerKey clientId senderId) change outputs ∈ history

theorem Answered.append {history : List (WalRecord Q4FilterChange)} {senderId : Nat}
    (h : Answered history clientId senderId) (more : List (WalRecord Q4FilterChange)) :
    Answered (history ++ more) clientId senderId := by
  obtain ⟨m, change, outputs, h⟩ := h
  exact ⟨m, change, outputs, List.mem_append_left _ h⟩

/-- The recorded answer ended a round. -/
def Ended (history : List (WalRecord Q4FilterChange)) (clientId senderId : Nat) : Prop :=
  ∃ m change outputs, .inputApplied m (answerKey clientId senderId) change outputs ∈
  history ∧ outputs ≠ []

/-- What the log says about the rounds: the responders of a round have answered, and a round that
ended has the answers of all replicas, the only ones there will be. -/
structure Rounds (cfg : Q4FilterConfig) (history : List (WalRecord Q4FilterChange))
    (responders : Dict Nat (Finset Nat)) : Prop where
  sender : ∀ c r, Answered history c r → r < cfg.deployment.filterAmount
  responders : ∀ c r, r ∈ responders.getD c ∅ → Answered history c r
  ended : ∀ c s, Ended history c s → ∀ r < cfg.deployment.filterAmount, Answered history c r
  once : ∀ c s s', Ended history c s → Ended history c s' → s = s'

structure RoundInv (cfg : Q4FilterConfig) (n : State) : Prop where
  node : n.Inv cfg.handler (.whole cfg.handler.worker)
  rounds : Rounds cfg n.history n.handler.workerState.coordinator.leaderResponders

/-- A record that is no answer changes nothing about the rounds. -/
theorem Rounds.append_other {history : List (WalRecord Q4FilterChange)}
    {responders : Dict Nat (Finset Nat)}
    (h : Rounds cfg history responders) {record : WalRecord Q4FilterChange}
    (hr : ∀ m c s change outputs, record ≠ .inputApplied m (answerKey c s) change outputs) :
    Rounds cfg (history ++ [record]) responders := by
  have hanswered : ∀ c s, Answered (history ++ [record]) c s → Answered history c s := by
    rintro c s ⟨m, change, outputs, hm⟩
    rcases List.mem_append.mp hm with hm | hm
    · exact ⟨m, change, outputs, hm⟩
    · exact absurd (List.mem_singleton.mp hm).symm (hr m c s change outputs)
  have hended : ∀ c s, Ended (history ++ [record]) c s → Ended history c s := by
    rintro c s ⟨m, change, outputs, hm, hne⟩
    rcases List.mem_append.mp hm with hm | hm
    · exact ⟨m, change, outputs, hm, hne⟩
    · exact absurd (List.mem_singleton.mp hm).symm (hr m c s change outputs)
  exact {
    sender := fun c r ha => h.sender c r (hanswered c r ha)
    responders := fun c r hm => (h.responders c r hm).append _
    ended := fun c s he r hlt => (h.ended c s (hended c s he) r hlt).append _
    once := fun c s s' he he' => h.once c s s' (hended c s he) (hended c s' he') }

/-- An answer that is recorded is the first of its replica, and it ends a round only as the last
one. -/
theorem Rounds.append_answer {history : List (WalRecord Q4FilterChange)} {s : EofCoordinator}
    (h : Rounds cfg history s.leaderResponders) {m : String} {ctrl : ControlMessage}
    {change : Q4FilterChange} {outputs : List OutboxEntry}
    (hlt : ctrl.senderId < cfg.deployment.filterAmount)
    (hfresh : ¬ Answered history clientId ctrl.senderId)
    (hout : outputs ≠ [] → ∃ action,
      (s.onProcessedAnswer cfg.coordinator clientId ctrl).2 = some action) :
    Rounds cfg (history ++ [.inputApplied m (answerKey clientId ctrl.senderId) change outputs])
      (s.onProcessedAnswer cfg.coordinator clientId ctrl).1.leaderResponders := by
  have hself :
      Answered (history ++ [.inputApplied m (answerKey clientId ctrl.senderId) change outputs])
      clientId ctrl.senderId := ⟨m, change, outputs, by simp⟩
  have hanswered :
      ∀ c r, Answered (history ++ [.inputApplied m (answerKey clientId ctrl.senderId) change
      outputs]) c r → Answered history c r ∨ c = clientId ∧ r = ctrl.senderId := by
    rintro c r ⟨m', change', outputs', hm⟩
    rcases List.mem_append.mp hm with hm | hm
    · exact .inl ⟨m', change', outputs', hm⟩
    · cases List.mem_singleton.mp hm
      exact .inr ⟨rfl, rfl⟩
  have hended : ∀ c r, Ended (history ++ [.inputApplied m (answerKey clientId ctrl.senderId) change
      outputs]) c r → Ended history c r ∨ (c = clientId ∧ r = ctrl.senderId) ∧ outputs ≠ [] := by
    rintro c r ⟨m', change', outputs', hm, hne⟩
    rcases List.mem_append.mp hm with hm | hm
    · exact .inl ⟨m', change', outputs', hm, hne⟩
    · cases List.mem_singleton.mp hm
      exact .inr ⟨⟨rfl, rfl⟩, hne⟩
  -- a round that ended before left no replica to answer
  have hopen : ∀ r, ¬ Ended history clientId r := fun r he =>
    hfresh (h.ended clientId r he ctrl.senderId hlt)
  refine ⟨fun c r ha => ?_, fun c r hm => ?_, fun c r he r' hlt' => ?_, fun c r r' he he' => ?_⟩
  · rcases hanswered c r ha with ha | ⟨rfl, rfl⟩
    · exact h.sender c r ha
    · exact hlt
  · rcases responders_onProcessedAnswer hm with hm | ⟨rfl, rfl⟩
    · exact (h.responders c r hm).append _
    · exact hself
  · rcases hended c r he with he | ⟨⟨rfl, rfl⟩, hne⟩
    · exact (h.ended c r he r' hlt').append _
    · obtain ⟨action, haction⟩ := hout hne
      obtain ⟨-, -, -, hcard, -⟩ := onProcessedAnswer_action s c ctrl haction
      -- all responders are replicas, so as many as there are replicas are all of them
      have hsub : insert ctrl.senderId (s.leaderResponders.getD c ∅) ⊆
          Finset.range cfg.deployment.filterAmount := by
        intro x hx
        rw [Finset.mem_range]
        rcases Finset.mem_insert.mp hx with rfl | hx
        · exact hlt
        · exact h.sender c x (h.responders c x hx)
      have hall := Finset.eq_of_subset_of_card_le hsub (by rw [Finset.card_range]; exact hcard)
      have hr' : r' ∈ insert ctrl.senderId (s.leaderResponders.getD c ∅) := by
        rw [hall]
        exact Finset.mem_range.mpr hlt'
      rcases Finset.mem_insert.mp hr' with rfl | hr'
      · exact hself
      · exact (h.responders c r' hr').append _
  · rcases hended c r he with hold | ⟨⟨rfl, rfl⟩, -⟩
    · rcases hended c r' he' with hold' | ⟨⟨rfl, rfl⟩, -⟩
      · exact h.once c r r' hold hold'
      · exact absurd hold (hopen r)
    · rcases hended c r' he' with hold' | ⟨⟨-, rfl⟩, -⟩
      · exact absurd hold' (hopen r')
      · rfl

/-- An answer that is new to the inbox is not recorded. -/
theorem RoundInv.not_answered (h : RoundInv cfg n) {senderId : Nat}
    (hnew : n.handler.inbox.classify (answerKey clientId senderId) = .new) :
    ¬ Answered n.history clientId senderId := by
  rintro ⟨m, change, outputs, hm⟩
  have habs : (specState cfg.handler (.whole cfg.handler.worker) n.history).inbox.classify
      (answerKey clientId senderId) ≠ .new := h.node.admissible.absorbed hm
  exact habs (h.node.inbox ▸ hnew)

/-- A call keeps the invariant, and the log grows. -/
theorem RoundInv.call (h : RoundInv cfg n) {c : Call Q4FilterState Q4FilterChange}
    (hc : CallOk cfg c)
    (outcome : Outcome) : ∃ n', n.exec cfg.handler (outcome.event c) = .ok n' ∧ RoundInv cfg n' ∧
      n.history <+: n'.history := by
  obtain ⟨n', hn, hi, hh⟩ := h.node.outcome c outcome
  refine ⟨n', hn, ⟨hi, ?_⟩, ?_⟩
  · rcases hh with hh | ⟨record, ha, hh⟩
    · have hs : n'.handler.workerState = n.handler.workerState := by
        have h₁ := hi.workerState
        have h₂ := h.node.workerState
        rw [hh, ← h₂] at h₁
        exact h₁
      rw [hh, hs]
      exact h.rounds
    · have hstate := congrArg HandlerState.workerState (h.node.applyOnce_of_append hi hh)
      rw [hh, hstate]
      cases c with
      | handle key businessFn =>
        obtain ⟨hnew, change, logical, outputs, hresult, hstamp, rfl⟩ := ha
        change Rounds cfg _ (Q4FilterState.applyChange cfg _ change).coordinator.leaderResponders
        rcases hc with ⟨hkind, hops⟩ | ⟨clientId, ctrl, hlt, rfl, rfl⟩
        · rw [Q4FilterState.responders_applyChange (hops _ _ hresult)]
          refine h.rounds.append_other fun m c s change' outputs' he => ?_
          cases he
          exact hkind rfl
        · dsimp only [processedAnswerBusiness] at hresult
          have hlength := (SenderSequencer.forall₂_of_stamp hstamp).length_eq
          split at hresult
          · next queueNames message sleep haction =>
            obtain ⟨outputs', -, hresult⟩ := Except.ok_of_bind hresult
            cases hresult
            exact h.rounds.append_answer hlt (h.not_answered hnew) fun _ => ⟨_, haction⟩
          · cases hresult
            refine h.rounds.append_answer hlt (h.not_answered hnew) fun hne => ?_
            exact absurd (List.length_eq_zero_iff.mp hlength.symm) hne
      | commitDone key =>
        cases ha
        exact h.rounds.append_other nofun
      | snapshotNow => cases ha
  · rcases hh with hh | ⟨record, -, hh⟩
    · rw [hh]
    · rw [hh]
      exact List.prefix_append _ _

theorem RoundInv.runCall (h : RoundInv cfg n) {call : Option (Call Q4FilterState Q4FilterChange)}
    (hc : ∀ c, call = some c → CallOk cfg c) {outcome : Outcome} {n' : State}
    (he : Q4FilterWorker.runCall cfg n call outcome = some n') : RoundInv cfg n' := by
  unfold Q4FilterWorker.runCall at he
  split at he
  · next c =>
    obtain ⟨n₁, hn, hi, -⟩ := h.call (hc c rfl) outcome
    rw [hn] at he
    cases he
    exact hi
  · split at he
    · obtain ⟨n₁, hn, hi, -⟩ := h.call (c := .snapshotNow) trivial (.crashes 0)
      rw [show n.exec cfg.handler (.crashDuring .snapshotNow 0) = .ok n₁ from hn] at he
      cases he
      exact hi
    · cases he
      exact h

theorem RoundInv.exec (h : RoundInv cfg n) {l : Label} {n' : State} (hp : FromReplicas cfg n l)
    (he : Q4FilterWorker.exec cfg n l = some n') : RoundInv cfg n' := by
  cases l with
  | deliver message outcome => exact h.runCall (fun c hc => callOk_callFor hp hc) he
  | commit key outcome =>
    dsimp only [Q4FilterWorker.exec] at he
    split at he
    · cases he
    · refine h.runCall (fun c hc => ?_) he
      cases hc
      trivial

theorem roundInv_init : RoundInv cfg (init cfg) where
  node := Node.inv_init
  rounds := {
    sender := by rintro c r ⟨m, change, outputs, hm⟩; cases hm
    responders := by intro c r hm; cases hm
    ended := by rintro c s ⟨m, change, outputs, hm, -⟩; cases hm
    once := by rintro c s s' ⟨m, change, outputs, hm, -⟩; cases hm }

theorem roundInv_of_reachable
    (h : Transition.Reachable (exec cfg) (FromReplicas cfg) (init cfg) n) :
    RoundInv cfg n :=
  h.invariant roundInv_init fun _ _ _ hi hp he => hi.exec hp he

/-! ## The second round -/

/-- A round for the client fell short: the answer that ended it is recorded with the broadcast of
`PROCESSED_REQUEST`. -/
def RoundFellShort (cfg : Q4FilterConfig) (n : State) (clientId expected : Nat) : Prop :=
  ∃ m senderId change outputs bytes,
    .inputApplied m (answerKey clientId senderId) change outputs ∈ n.history ∧
    (roundEnd cfg.coordinator clientId expected false).toBytes = .ok bytes ∧
    outputs.map (fun entry => (entry.destination, entry.body)) =
    broadcastSends cfg.coordinator bytes

/-- One answer of every replica for the client, with enough counted by all of them. -/
structure FreshRound (cfg : Q4FilterConfig) (clientId expected : Nat) (bodies : List Bytes)
    (answers : List ControlMessage) : Prop where
  parsed :
    List.Forall₂ (fun body ctrl => parseMessage body = .ok (some .processedAnswer, clientId, ctrl))
    bodies answers
  senders : (answers.map ControlMessage.senderId).Perm (List.range cfg.deployment.filterAmount)
  enough : expected ≤ (answers.map ControlMessage.processedCount).sum

/-- A `FLUSH_ORDER` of the client is among the packets. -/
def OrdersFlush (clientId : Nat) (sent : List (String × Bytes)) : Prop :=
  ∃ queueName body ctrl, (queueName, body) ∈ sent ∧
    parseMessage body = .ok (some .flushOrder, clientId, ctrl)

/-- What a round that fell short leaves in the log. -/
theorem RoundFellShort.of_prefix {n' : State} {expected : Nat}
    (h : RoundFellShort cfg n clientId expected)
    (hp : n.history <+: n'.history) : RoundFellShort cfg n' clientId expected := by
  obtain ⟨m, senderId, change, outputs, bytes, hm, hrest⟩ := h
  exact ⟨m, senderId, change, outputs, bytes, hp.subset hm, hrest⟩

/-- There is a control queue to send a broadcast to. -/
theorem outputs_ne_nil_of_broadcast {outputs : List OutboxEntry} {bytes : Bytes}
    (h : outputs.map (fun entry => (entry.destination, entry.body)) =
      broadcastSends cfg.coordinator bytes) : outputs ≠ [] := by
  rintro rfl
  have hlength := congrArg List.length h
  simp only [broadcastSends, allControlQueues, List.map_nil, List.length_nil, List.length_map,
    List.length_range] at hlength
  exact absurd hlength.symm (Nat.ne_of_gt cfg.deployment.filterAmount_pos)

/-- Every replica has answered when a round fell short. -/
theorem RoundInv.answered (h : RoundInv cfg n) {expected senderId : Nat}
    (hs : RoundFellShort cfg n clientId expected) (hlt : senderId < cfg.deployment.filterAmount) :
    Answered n.history clientId senderId := by
  obtain ⟨m, s₀, change, outputs, bytes, hm, -, ho⟩ := hs
  exact h.rounds.ended clientId s₀ ⟨m, change, outputs, hm,
    outputs_ne_nil_of_broadcast ho⟩ senderId hlt

/-- A `PROCESSED_REQUEST` is no order to flush. -/
theorem not_flushOrder_of_roundEnd {expected : Nat} {bytes : Bytes}
    {ctrl : ControlMessage} {c : Nat}
    (h : (roundEnd cfg.coordinator clientId expected false).toBytes = .ok bytes) :
    parseMessage bytes ≠ .ok (some .flushOrder, c, ctrl) := by
  intro hparse
  obtain ⟨payload, -, hpacket⟩ := Except.ok_of_bind h
  obtain ⟨payload', hu, -⟩ := unpacked_of_parseMessage hparse
  have hpack := InternalProtocol.unpackPacket_createPacket hpacket
  rw [hu] at hpack
  cases hpack

/-- The outputs that the leader still holds for an answer, after a round fell short. -/
theorem RoundInv.not_ordersFlush (h : RoundInv cfg n) {expected senderId : Nat}
    (hs : RoundFellShort cfg n clientId expected)
    (happ : n.handler.inbox.classify (answerKey clientId senderId) = .applied) :
    ¬ OrdersFlush clientId ((n.handler.outbox.entriesForInput clientId
      (cfg.handler.msgId (answerKey clientId senderId))).map fun entry =>
        (entry.destination, entry.body)) := by
  rintro ⟨queueName, body, ctrl, hmem, hparse⟩
  obtain ⟨m, s₀, change₀, outputs₀, bytes, hm₀, hbytes, ho⟩ := hs
  have hflight : (specState cfg.handler (.whole cfg.handler.worker) n.history).inbox.InFlight
      (answerKey clientId senderId) := by
    rw [← h.node.inbox]
    exact (Inbox.classify_eq_applied_iff _ _).mp happ
  obtain ⟨change, outputs, hm, hl⟩ := h.node.admissible.inFlight hflight
  have hentries : n.handler.outbox.entriesForInput clientId
      (cfg.handler.msgId (answerKey clientId senderId)) = outputs := by
    rw [Outbox.entriesForInput_eq, h.node.outbox]
    exact congrArg (Option.getD · []) hl
  rw [hentries] at hmem
  have hne : outputs ≠ [] := by
    rintro rfl
    cases hmem
  -- it ended the round, so it is the answer that fell short
  cases h.rounds.once clientId senderId s₀ ⟨_, change, outputs, hm, hne⟩
    ⟨m, change₀, outputs₀, hm₀, outputs_ne_nil_of_broadcast ho⟩
  obtain ⟨-, rfl⟩ := h.node.admissible.applied_unique hm hm₀
  rw [ho] at hmem
  obtain ⟨queue, -, he⟩ := List.mem_map.mp hmem
  cases he
  exact not_flushOrder_of_roundEnd hbytes hparse

/-- An answer after a round that fell short: the coordinator does not hear of it. -/
theorem RoundInv.process (h : RoundInv cfg n) {expected : Nat} {body : Bytes}
    {ctrl : ControlMessage} (hs : RoundFellShort cfg n clientId expected)
    (hparse : parseMessage body = .ok (some .processedAnswer, clientId, ctrl))
    (hlt : ctrl.senderId < cfg.deployment.filterAmount) :
    RoundInv cfg (process cfg n (.response body)).1 ∧
      n.history <+: (process cfg n (.response body)).1.history ∧
      ¬ OrdersFlush clientId (process cfg n (.response body)).2 := by
  have hnone : ¬ OrdersFlush clientId [] := by
    rintro ⟨queueName, packet, ctrl', hmem, -⟩
    cases hmem
  have hreact : cfg.react n.handler (.response body) =
      .handle (answerKey clientId ctrl.senderId) (cfg.processedAnswerBusiness clientId ctrl) := by
    change cfg.handleResponse n.handler body = _
    unfold handleResponse
    rw [hparse]
    rfl
  unfold Q4FilterWorker.process
  rw [hreact]
  dsimp only
  cases heff : n.effect cfg.handler (.ok ⟨⟩)
      (.handle (answerKey clientId ctrl.senderId) (cfg.processedAnswerBusiness clientId ctrl)) with
  | error e => exact ⟨h, List.prefix_rfl, hnone⟩
  | ok effect =>
    dsimp only
    have hok : CallOk cfg
        (.handle (answerKey clientId ctrl.senderId) (cfg.processedAnswerBusiness clientId ctrl)) :=
      Or.inr ⟨clientId, ctrl, hlt, rfl, rfl⟩
    obtain ⟨n₁, hn₁, hi₁, hp₁⟩ := h.call hok .returns
    cases hn₁
    rcases Node.handle_cases heff with ⟨-, hinstr, -⟩ | ⟨change, outputs, -, hh⟩ | ⟨happ, hinstr, -⟩
    · rw [hinstr]
      exact ⟨hi₁, hp₁, hnone⟩
    · -- the replica has answered before
      obtain ⟨m, change', outputs', hm⟩ := h.answered hs hlt
      obtain ⟨-, hcases⟩ := h.node.call (.ok ⟨⟩)
        (.handle (answerKey clientId ctrl.senderId) (cfg.processedAnswerBusiness clientId ctrl))
      rcases hcases with ⟨heq, -⟩ | ⟨-, record, ⟨hnew, -⟩, -⟩
      · rw [hh] at heq
        simp at heq
      · exact absurd ⟨m, change', outputs', hm⟩ (h.not_answered hnew)
    · rw [hinstr]
      obtain ⟨n₂, hn₂, hi₂, hp₂⟩ :=
        hi₁.call (c := .commitDone (answerKey clientId ctrl.senderId)) trivial
        .returns
      cases hn₂
      exact ⟨hi₂, hp₁.trans hp₂, h.not_ordersFlush hs happ⟩

theorem RoundInv.processAll {expected : Nat} {bodies : List Bytes} {answers : List ControlMessage}
    (h : RoundInv cfg n) (hs : RoundFellShort cfg n clientId expected)
    (hparsed : List.Forall₂ (fun body ctrl =>
      parseMessage body = .ok (some .processedAnswer, clientId, ctrl)) bodies answers)
    (hlt : ∀ ctrl ∈ answers, ctrl.senderId < cfg.deployment.filterAmount) :
    ¬ OrdersFlush clientId (processAll cfg n (bodies.map .response)).2 := by
  induction hparsed generalizing n with
  | nil =>
    rintro ⟨queueName, packet, ctrl, hmem, -⟩
    cases hmem
  | @cons body ctrl bodies answers hparse _ ih =>
    obtain ⟨hi, hp, hno⟩ := h.process hs hparse (hlt ctrl List.mem_cons_self)
    have hrest := ih hi (hs.of_prefix hp) fun ctrl' hm => hlt ctrl' (List.mem_cons_of_mem _ hm)
    rintro ⟨queueName, packet, ctrl', hmem, hflush⟩
    rcases List.mem_append.mp hmem with hmem | hmem
    · exact hno ⟨queueName, packet, ctrl', hmem, hflush⟩
    · exact hrest ⟨queueName, packet, ctrl', hmem, hflush⟩

/-- **No second round ends.** In every reachable state of a leader, of any number of replicas, in
which a round for a client fell short, one fresh answer of every replica, with enough counted, makes
the leader send no `FLUSH_ORDER`. -/
theorem retry_round_never_flushes (cfg : Q4FilterConfig) (n : State)
    (h : Transition.Reachable (exec cfg) (FromReplicas cfg) (init cfg) n) (clientId expected : Nat)
    (hs : RoundFellShort cfg n clientId expected) (bodies : List Bytes)
    (answers : List ControlMessage) (hfresh : FreshRound cfg clientId expected bodies answers) :
    ¬ OrdersFlush clientId (processAll cfg n (bodies.map .response)).2 := by
  refine (roundInv_of_reachable h).processAll hs hfresh.parsed fun ctrl hm => ?_
  have hmem := hfresh.senders.mem_iff.mp (List.mem_map_of_mem hm)
  exact List.mem_range.mp hmem

/-! Two replicas count 3 and 4 of the 10 transactions of client 7, and 6 and 4 when they are asked
again. -/

/-- A deployment of two q4_filter workers and one worker of every other stage. -/
def twoFilters : Q4Config :=
  { Q4Config.smallest with filterAmount := 2, filterAmount_pos := Nat.two_pos }

def leaderOfTwo : Q4FilterConfig where
  deployment := twoFilters
  id := 0
  q4FilterPrefix := "q4_filter"
  snapshotInterval := 1000
  sha256 _ := []
  changeJson := .ofTable [
    (.single (.coordinatorUpstreamEof 7 10 0 0), [1]),
    (.single (.coordinatorMsg .processedAnswer 7 ⟨0, 0, 3⟩ 0 0), [2]),
    (.single (.coordinatorMsg .processedAnswer 7 ⟨1, 0, 4⟩ 0 0), [3])]

def answerBody (ctrl : ControlMessage) : Bytes :=
  (ControlPacket.toBytes ⟨.processedAnswer, 7, ctrl⟩).toOption.getD []

def eofBody : Bytes :=
  (InternalProtocol.createAddressedPacket MessageType.eof.toNat 7 0 0
    ((ControlMessage.serialize ⟨0, 10, 0⟩).toOption.getD [])).toOption.getD []

/-- The EOF and the answers of the first round. -/
def firstRound : List Label :=
  [.deliver (.input eofBody) .returns, .deliver (.response (answerBody ⟨0, 0, 3⟩)) .returns,
    .deliver (.response (answerBody ⟨1, 0, 4⟩)) .returns]

def secondAnswers : List ControlMessage := [⟨0, 0, 6⟩, ⟨1, 0, 4⟩]

/-- Whether the last record is an answer with the broadcast of `PROCESSED_REQUEST`. -/
def lastFellShort (cfg : Q4FilterConfig) (n : State) (clientId expected : Nat) : Bool :=
  match n.history.getLast?, (roundEnd cfg.coordinator clientId expected false).toBytes with
  | some (.inputApplied _ key _ outputs), .ok bytes =>
    decide (key = answerKey clientId key.senderId) &&
      decide (outputs.map (fun entry => (entry.destination, entry.body)) =
        broadcastSends cfg.coordinator bytes)
  | _, _ => false

theorem roundFellShort_of_last {expected : Nat} (h : lastFellShort cfg n clientId expected = true) :
    RoundFellShort cfg n clientId expected := by
  unfold lastFellShort at h
  split at h
  · next m key change outputs bytes hlast hbytes =>
    simp only [Bool.and_eq_true, decide_eq_true_eq] at h
    rw [h.1] at hlast
    exact ⟨m, key.senderId, change, outputs, bytes, List.mem_of_getLast? hlast, hbytes, h.2⟩
  · cases h

theorem exists_short_round : ∃ n, Transition.Reachable (exec leaderOfTwo) (FromReplicas leaderOfTwo)
    (init leaderOfTwo) n ∧ RoundFellShort leaderOfTwo n 7 10 := by
  have hrun :
      ((Transition.runAllowed (exec leaderOfTwo) (FromReplicas leaderOfTwo) (init leaderOfTwo)
      firstRound).any fun n => lastFellShort leaderOfTwo n 7 10) = true := by decide +kernel
  obtain ⟨n, hn, hs⟩ := (Option.any_eq_true _ _).mp hrun
  exact ⟨n, Transition.reachable_of_runAllowed .init hn, roundFellShort_of_last hs⟩

/-- The type of a control message. -/
def typeOf (body : Bytes) : Option MessageType :=
  match parseMessage body with
  | .ok (msgType, _, _) => msgType
  | .error _ => none

theorem freshRound_secondAnswers :
    FreshRound leaderOfTwo 7 10 (secondAnswers.map answerBody) secondAnswers where
  parsed := .cons (by decide +kernel) (.cons (by decide +kernel) .nil)
  senders := by decide
  enough := by decide

/-- After the short round of the two replicas the leader stays silent. -/
theorem second_answers_order_nothing :
    ∃ n, RoundFellShort leaderOfTwo n 7 10 ∧ ¬ OrdersFlush 7
      (processAll leaderOfTwo n ((secondAnswers.map answerBody).map .response)).2 := by
  obtain ⟨n, hn, hs⟩ := exists_short_round
  exact ⟨n, hs, retry_round_never_flushes leaderOfTwo n hn 7 10 hs _ _ freshRound_secondAnswers⟩

/-- The second round is counted in full, and no order to flush follows. -/
theorem second_round_lost :
    ¬ ∀ (cfg : Q4FilterConfig) (n : State) (clientId expected : Nat) (bodies : List Bytes)
      (answers : List ControlMessage), 2 ≤ cfg.deployment.filterAmount → cfg.id = q4FilterLeaderId →
      Transition.Reachable (exec cfg) (FromReplicas cfg) (init cfg) n →
      RoundFellShort cfg n clientId expected → FreshRound cfg clientId expected bodies answers →
      OrdersFlush clientId (processAll cfg n (bodies.map .response)).2 := by
  intro h
  have hrun :
      ((Transition.runAllowed (exec leaderOfTwo) (FromReplicas leaderOfTwo) (init leaderOfTwo)
      firstRound).any fun n => lastFellShort leaderOfTwo n 7 10 && (processAll leaderOfTwo n
        ((secondAnswers.map answerBody).map .response)).2.all fun sent =>
          decide (typeOf sent.2 ≠ some .flushOrder)) = true := by decide +kernel
  obtain ⟨n, hn, hs⟩ := (Option.any_eq_true _ _).mp hrun
  obtain ⟨hshort, hno⟩ := Bool.and_eq_true_iff.mp hs
  obtain ⟨queueName, body, ctrl, hmem, hparse⟩ := h leaderOfTwo n 7 10 _ _ (by decide) rfl
    (Transition.reachable_of_runAllowed .init hn)
    (roundFellShort_of_last hshort) freshRound_secondAnswers
  have htype := of_decide_eq_true (List.all_eq_true.mp hno _ hmem)
  rw [typeOf, hparse] at htype
  exact htype rfl

end Q4FilterWorker

end MoneyLaundering
