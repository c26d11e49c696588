import MoneyLaundering.FaultTolerance.Unlogged
import MoneyLaundering.Lib.Transition
import MoneyLaundering.Workers.FileIngestor

/-!
# Answers of a file ingestor to a re-count

A leader that counts too little broadcasts `PROCESSED_REQUEST`, and every replica answers with its
count to the replica that announced the EOF. A replica knows that one from its pending entry
(`_pending_eof`), which `EOF_RECEIVED` makes outside the log: it survives a crash in a snapshot
only, and a failed answer erases it.

The runs below follow the control thread of a replica through the message that it holds, with the
other threads, failures and crashes around it.
-/

namespace MoneyLaundering

open Transition

namespace EofCoordinator

/-- What the changes of the log determine: all but the pending EOFs and the counting round. -/
def logged (s : EofCoordinator) : EofCoordinator :=
  { s with pendingEof := ∅, leaderProcessed := ∅, leaderResponders := ∅ }

@[simp] theorem isLeaderHere_logged (cfg : CoordinatorConfig) (s : EofCoordinator)
    (clientId : Nat) :
    s.logged.isLeaderHere cfg clientId = s.isLeaderHere cfg clientId := rfl

theorem logged_onEofReceived (cfg : CoordinatorConfig) (s : EofCoordinator) (clientId : Nat)
    (ctrl : ControlMessage) (count forwarded : Nat) :
    (s.onEofReceived cfg clientId ctrl count forwarded).1.logged = s.logged := by
  unfold onEofReceived
  split <;> rfl

theorem onProcessedAnswer_fst (cfg : CoordinatorConfig) (s : EofCoordinator) (clientId : Nat)
    (ctrl : ControlMessage) :
    (s.onProcessedAnswer cfg clientId ctrl).1.logged = s.logged ∧
      (s.onProcessedAnswer cfg clientId ctrl).1.pendingEof = s.pendingEof := by
  unfold onProcessedAnswer
  dsimp only
  split
  · exact ⟨rfl, rfl⟩
  · split
    · exact ⟨rfl, rfl⟩
    · split
      · exact ⟨rfl, rfl⟩
      · split <;> exact ⟨rfl, rfl⟩

theorem logged_onFlushAck (cfg : CoordinatorConfig) (s : EofCoordinator) (clientId : Nat)
    (ctrl : ControlMessage) :
    (s.logged.onFlushAck cfg clientId ctrl).1.logged =
      (s.onFlushAck cfg clientId ctrl).1.logged := by
  unfold onFlushAck
  rw [isLeaderHere_logged]
  split
  · dsimp only [logged]
    by_cases hlt : (insert ctrl.senderId (s.flushAcks.getD clientId ∅)).card <
      cfg.totalInstances - 1
    · rw [if_pos hlt, if_pos hlt]
    · rw [if_neg hlt, if_neg hlt]
      rfl
  · rfl

theorem logged_onUpstreamEof (cfg : CoordinatorConfig) (s : EofCoordinator)
    (clientId expectedTotal count forwarded : Nat) :
    (s.logged.onUpstreamEof cfg clientId expectedTotal count forwarded).1.logged =
        (s.onUpstreamEof cfg clientId expectedTotal count forwarded).1.logged ∧
      (s.onUpstreamEof cfg clientId expectedTotal count forwarded).1.pendingEof = s.pendingEof := by
  unfold onUpstreamEof
  split
  · exact ⟨rfl, rfl⟩
  · split
    · exact ⟨rfl, rfl⟩
    · by_cases hseen : clientId ∈ s.seenEof
      · rw [if_pos hseen, if_pos (show clientId ∈ s.logged.seenEof from hseen)]
        exact ⟨rfl, rfl⟩
      · rw [if_neg hseen, if_neg (show clientId ∉ s.logged.seenEof from hseen)]
        exact ⟨rfl, rfl⟩

/-- The log determines the logged part, whichever message a change is about. -/
theorem logged_processControlMessage (cfg : CoordinatorConfig) (s : EofCoordinator)
    (msgType : MessageType) (clientId : Nat) (ctrl : ControlMessage) (count forwarded : Nat) :
    (s.logged.processControlMessage cfg msgType clientId ctrl count forwarded).1.logged =
      (s.processControlMessage cfg msgType clientId ctrl count forwarded).1.logged := by
  cases msgType with
  | eofReceived =>
    dsimp only [processControlMessage]
    rw [logged_onEofReceived, logged_onEofReceived]
    rfl
  | processedRequest =>
    dsimp only [processControlMessage]
    rw [onProcessedRequest_fst, onProcessedRequest_fst]
    rfl
  | processedAnswer =>
    dsimp only [processControlMessage]
    rw [(onProcessedAnswer_fst ..).1, (onProcessedAnswer_fst ..).1]
    rfl
  | flushOrder =>
    dsimp only [processControlMessage]
    rw [onFlushOrder_fst, onFlushOrder_fst]
    rfl
  | flushAck => exact logged_onFlushAck ..
  | data | eof | aggregatedCount | abort => rfl

theorem logged_applyCoordinator (cfg : CoordinatorConfig) (s : EofCoordinator) (op : WorkerOp Nat) :
    (op.applyCoordinator cfg s.logged).logged = (op.applyCoordinator cfg s).logged := by
  cases op with
  | data | close => rfl
  | coordinatorUpstreamEof => exact (logged_onUpstreamEof ..).1
  | coordinatorMsg => exact logged_processControlMessage ..
  | coordinatorCleanup => rfl

end EofCoordinator

namespace FileIngestorState

variable (cfg : FileIngestorConfig)

/-- The part of the state that the log determines. -/
def logged (s : FileIngestorState) : FileIngestorState :=
  { s with coordinator := s.coordinator.logged }

theorem logged_applyOp (s : FileIngestorState) (op : WorkerOp Nat) :
    (s.logged.applyOp cfg op).logged = (s.applyOp cfg op).logged := by
  cases op with
  | data clientId n =>
    dsimp only [applyOp, applyData]
    split
    · next h => rw [if_pos (show clientId ∈ s.closedByClient from h)]; rfl
    · next h => rw [if_neg (show clientId ∉ s.closedByClient from h)]; rfl
  | close => rfl
  | coordinatorUpstreamEof | coordinatorMsg | coordinatorCleanup =>
    dsimp only [applyOp, logged]
    rw [EofCoordinator.logged_applyCoordinator]

theorem logged_applyChange (s : FileIngestorState) (change : FileIngestorChange) :
    (s.logged.applyChange cfg change).logged = (s.applyChange cfg change).logged := by
  cases change with
  | abort clientId => rfl
  | worker change =>
    dsimp only [applyChange]
    generalize change.ops = ops
    induction ops using List.reverseRecOn with
    | nil => rfl
    | append_singleton ops op ih =>
      rw [List.foldl_append, List.foldl_append, List.foldl_cons, List.foldl_cons, List.foldl_nil,
        List.foldl_nil, ← logged_applyOp, ih, logged_applyOp]

end FileIngestorState

/-- The durable handler of an ingestor, looked at through the logged part. -/
def FileIngestorConfig.view (cfg : FileIngestorConfig) :
    View cfg.handler.worker FileIngestorState where
  view := FileIngestorState.logged
  apply s change := (s.applyChange cfg change).logged
  view_applyChange s change := (FileIngestorState.logged_applyChange cfg s change).symm

/-! ## What the changes of the log do to the pending EOFs -/

namespace FileIngestorState

/-- No client is opened again, and a pending EOF disappears with its client only. -/
structure Evolves (w w' : FileIngestorState) : Prop where
  closed : ∀ c ∈ w.closedByClient, c ∈ w'.closedByClient
  kept : ∀ c x, w.coordinator.pendingEof.get? c = some x →
    c ∈ w'.closedByClient ∨ w'.coordinator.pendingEof.get? c = some x
  fresh : ∀ c x, w'.coordinator.pendingEof.get? c = some x →
    w.coordinator.pendingEof.get? c = some x

theorem Evolves.refl (w : FileIngestorState) : Evolves w w :=
  ⟨fun _ h => h, fun _ _ h => .inr h, fun _ _ h => h⟩

theorem Evolves.trans {w₁ w₂ w₃ : FileIngestorState} (h₁ : Evolves w₁ w₂) (h₂ : Evolves w₂ w₃) :
    Evolves w₁ w₃ where
  closed c hc := h₂.closed c (h₁.closed c hc)
  kept c x hx := (h₁.kept c x hx).elim (fun hc => .inl (h₂.closed c hc)) (h₂.kept c x)
  fresh c x hx := h₁.fresh c x (h₂.fresh c x hx)

/-- A change that leaves the pending EOFs alone. -/
theorem Evolves.of_pendingEof {w w' : FileIngestorState}
    (hp : w'.coordinator.pendingEof = w.coordinator.pendingEof)
    (hc : ∀ c ∈ w.closedByClient, c ∈ w'.closedByClient) : Evolves w w' :=
  ⟨hc, fun _ _ hx => .inr (hp ▸ hx), fun _ _ hx => hp ▸ hx⟩

/-- A change that forgets the pending EOF of a client and closes it. -/
theorem Evolves.of_erase {w w' : FileIngestorState} {clientId : Nat}
    (hp : w'.coordinator.pendingEof = w.coordinator.pendingEof.erase clientId)
    (hc : w'.closedByClient = insert clientId w.closedByClient) : Evolves w w' := by
  refine ⟨fun c h => hc ▸ Finset.mem_insert_of_mem h, fun c x hx => ?_, fun c x hx => ?_⟩
  · rw [hp, hc, Dict.get?_erase]
    split
    · next e => exact .inl (e ▸ Finset.mem_insert_self _ _)
    · exact .inr hx
  · rw [hp, Dict.get?_erase] at hx
    split at hx
    · cases hx
    · exact hx

variable {cfg : FileIngestorConfig} {w : FileIngestorState} {clientId : Nat}

theorem evolves_data (w : FileIngestorState) (clientId n : Nat) :
    Evolves w (w.applyChange cfg (.worker (.single (.data clientId n)))) := by
  dsimp only [applyChange, WorkerChange.ops, List.foldl, applyOp, applyData]
  split
  · exact .refl w
  · exact .of_pendingEof rfl fun c h => h

theorem evolves_close (w : FileIngestorState) (clientId : Nat) :
    Evolves w (w.applyClose clientId) :=
  .of_pendingEof rfl fun _ h => Finset.mem_insert_of_mem h

theorem evolves_upstreamEof (w : FileIngestorState) (clientId expectedTotal count forwarded : Nat) :
    Evolves w (w.applyOp cfg (.coordinatorUpstreamEof clientId expectedTotal count forwarded)) :=
  .of_pendingEof (EofCoordinator.logged_onUpstreamEof ..).2 fun _ h => h

theorem evolves_flushOrder (w : FileIngestorState) (clientId : Nat) :
    Evolves w
      (w.applyChange cfg (.worker (.compound [.coordinatorCleanup clientId, .close clientId]))) :=
  .of_erase rfl rfl

theorem evolves_abort (w : FileIngestorState) (clientId : Nat) :
    Evolves w (w.applyChange cfg (.abort clientId)) := by
  have hp : (w.coordinator.pendingEof.erase clientId).erase clientId =
      w.coordinator.pendingEof.erase clientId :=
    Dict.erase_of_get?_none (by rw [Dict.get?_erase, if_pos rfl])
  exact .of_erase hp rfl

/-- `FLUSH_ACK` at the coordinator: the pending EOF of the client goes when the acks are
complete. -/
theorem pendingEof_onFlushAck (cfg : FileIngestorConfig) (s : EofCoordinator) (clientId : Nat)
    (ctrl : ControlMessage) :
    (s.onFlushAck cfg.coordinator clientId ctrl).1.pendingEof = s.pendingEof ∨
      cfg.totalInstances - 1 ≤ (insert ctrl.senderId (s.flushAcks.getD clientId ∅)).card ∧
        (s.onFlushAck cfg.coordinator clientId ctrl).1.pendingEof =
          s.pendingEof.erase clientId := by
  unfold EofCoordinator.onFlushAck
  split
  · dsimp only
    split
    · exact .inl rfl
    · next h => exact .inr ⟨Nat.not_lt.mp h, rfl⟩
  · exact .inl rfl

theorem card_insert_eq (acks : Finset Nat) (senderId : Nat) :
    (insert senderId acks).card = acks.card + if decide (senderId ∈ acks) then 0 else 1 := by
  by_cases h : senderId ∈ acks
  · rw [Finset.card_insert_of_mem h, if_pos (decide_eq_true h), Nat.add_zero]
  · rw [Finset.card_insert_of_notMem h, if_neg (by simpa using h)]

/-- The change of a `FLUSH_ACK` closes the client whenever the coordinator is done with it. -/
theorem evolves_flushAck {s : FileIngestorState} {ctrl : ControlMessage}
    {change : FileIngestorChange}
    {outputs : List LogicalOutput}
    (hb : cfg.flushAckBusiness clientId ctrl s = .ok (change, outputs))
    (hw : w.logged = s.logged) : Evolves w (w.applyChange cfg change) := by
  have hacks : w.logged.coordinator.flushAcks = s.logged.coordinator.flushAcks := by rw [hw]
  change w.coordinator.flushAcks = s.coordinator.flushAcks at hacks
  have hp := pendingEof_onFlushAck cfg w.coordinator clientId ctrl
  rw [hacks, card_insert_eq] at hp
  unfold FileIngestorConfig.flushAckBusiness at hb
  by_cases hle : cfg.totalInstances - 1 ≤ (s.coordinator.flushAcks.getD clientId ∅).card +
      if decide (ctrl.senderId ∈ s.coordinator.flushAcks.getD clientId ∅) then 0 else 1
  · rw [if_pos hle] at hb
    obtain ⟨outputs', -, hb⟩ := Except.ok_of_bind hb
    cases hb
    rcases hp with hp | ⟨-, hp⟩
    · exact .of_pendingEof hp fun c h => Finset.mem_insert_of_mem h
    · exact .of_erase hp rfl
  · rw [if_neg hle] at hb
    cases hb
    rcases hp with hp | ⟨hle', -⟩
    · exact .of_pendingEof hp fun c h => h
    · exact absurd hle' hle

end FileIngestorState

namespace FileIngestorConfig

open FileIngestorState

variable {cfg : FileIngestorConfig} {s w : FileIngestorState} {inbox : Inbox} {key : InputKey}
  {fn : BusinessFn FileIngestorState FileIngestorChange} {change : FileIngestorChange}
  {outputs : List LogicalOutput}

theorem handle_of_openOrApplied {key' : InputKey} {reaction : IngestorReaction}
    (h : openOrApplied s inbox key' reaction = .handle key fn) : reaction = .handle key fn := by
  unfold openOrApplied at h
  split at h
  · cases h
  · exact h

theorem evolves_upstreamEofBusiness {clientId expectedTotal : Nat}
    (hb : cfg.upstreamEofBusiness clientId expectedTotal s = .ok (change, outputs)) :
    Evolves w (w.applyChange cfg change) := by
  unfold upstreamEofBusiness at hb
  split at hb
  · obtain ⟨payload, -, hb⟩ := Except.ok_of_bind hb
    obtain ⟨body, -, hb⟩ := Except.ok_of_bind hb
    cases hb
    exact evolves_upstreamEof ..
  · obtain ⟨outputs', -, hb⟩ := Except.ok_of_bind hb
    cases hb
    exact (evolves_upstreamEof ..).trans (evolves_close ..)

theorem evolves_onInputMessage {body : Bytes} (h : cfg.onInputMessage s inbox body = .handle key fn)
    (hb : fn s = .ok (change, outputs)) : Evolves w (w.applyChange cfg change) := by
  unfold onInputMessage at h
  split at h
  · cases h
  · split at h
    · cases h
    · split at h
      · cases h
        unfold dataProcessPayload at hb
        split at hb
        · cases hb
          exact evolves_data ..
        · obtain ⟨batch, -, hb⟩ := Except.ok_of_bind hb
          obtain ⟨transactions, -, hb⟩ := Except.ok_of_bind hb
          obtain ⟨outputs', -, hb⟩ := Except.ok_of_bind hb
          cases hb
          exact evolves_data ..
      · unfold handleUpstreamEof at h
        split at h
        · cases h
        · cases handle_of_openOrApplied h
          exact evolves_upstreamEofBusiness hb
      · cases handle_of_openOrApplied h
        obtain ⟨outputs', -, hb⟩ := Except.ok_of_bind hb
        cases hb
        exact evolves_abort ..
      · cases h

theorem evolves_handleControl {p : ControlPacket} (h : cfg.handleControl s inbox p = .handle key fn)
    (hb : fn s = .ok (change, outputs)) : Evolves w (w.applyChange cfg change) := by
  unfold handleControl at h
  split at h
  · have h := handle_of_openOrApplied h
    split at h
    · cases h
    · cases h
      obtain ⟨body, -, hb⟩ := Except.ok_of_bind hb
      cases hb
      exact evolves_flushOrder ..
  · cases h

/-- `FLUSH_ORDER` never goes to the coordinator outside the log. -/
theorem handleFlushOrder_ne_direct {clientId : Nat} {ctrl : ControlMessage}
    {coordinator : EofCoordinator} {action : Option CoordinatorAction} :
    cfg.handleFlushOrder s inbox clientId ctrl ≠ .direct coordinator action := by
  unfold handleFlushOrder openOrApplied
  dsimp only
  split
  · rintro ⟨⟩
  · split <;> rintro ⟨⟩

theorem handleFlushAck_ne_direct {clientId : Nat} {ctrl : ControlMessage}
    {coordinator : EofCoordinator} {action : Option CoordinatorAction} :
    cfg.handleFlushAck s inbox clientId ctrl ≠ .direct coordinator action := by
  unfold handleFlushAck openOrApplied
  dsimp only
  split
  · rintro ⟨⟩
  · split <;> rintro ⟨⟩

theorem evolves_handleResponse {p : ControlPacket}
    (h : cfg.handleResponse s inbox p = .handle key fn)
    (hb : fn s = .ok (change, outputs)) (hw : w.logged = s.logged) :
    Evolves w (w.applyChange cfg change) := by
  unfold handleResponse at h
  split at h
  · have h := handle_of_openOrApplied h
    split at h
    · cases h
    · cases h
      exact evolves_flushAck hb hw
  · cases h

end FileIngestorConfig

/-! ## Runs of a replica -/

namespace FileIngestor

/-- Where the control thread stands with a message that it passed to the coordinator. After a failed
answer it clears the pending EOF and nacks. -/
inductive Phase where
  | answering (queueName : String) (message : ControlPacket)
  | acking (sent : Option (String × ControlPacket))
  | clearing
  deriving DecidableEq

/-- A message in the hands of the control thread, with the count that is owed for it: the count of
the client when the message was taken, if the client's `EOF_RECEIVED` was acked and the client is
open. -/
structure Processing where
  packet : ControlPacket
  owed : Option Nat
  phase : Phase
  deriving DecidableEq

/-- An acked message, with what was owed and what was sent for it. -/
structure Acked where
  packet : ControlPacket
  owed : Option Nat
  sent : Option (String × ControlPacket)
  deriving DecidableEq

/-- A running replica. -/
structure State where
  node : Node FileIngestorState FileIngestorState FileIngestorChange
  control : Option Processing := none
  acked : List Acked := []

namespace State

/-- The clients whose `EOF_RECEIVED` was acked. -/
def announced (s : State) : List Nat :=
  (s.acked.filter fun a => decide (a.packet.msgType = .eofReceived)).map (·.packet.clientId)

/-- The state of the worker in memory. -/
def worker (s : State) : FileIngestorState := s.node.handler.workerState

/-- What an answer now has to carry. -/
def owed (s : State) (c : Nat) : Option Nat :=
  if c ∈ s.announced ∧ c ∉ s.worker.closedByClient then some (s.worker.processedCount c) else none

/-- The pending EOF of a client in the snapshot that a recovery loads. -/
def snapshotPending (s : State) (c : Nat) : Option (Nat × Nat) :=
  s.node.disk.load.bind fun snapshot => snapshot.workerState.coordinator.pendingEof.get? c

end State

/-- What can happen. The three queues deliver any body; `outcome` tells how a call of the durable
handler ends. `send`, `ack` and `clear` are the steps of the control thread after the lock. -/
inductive Label where
  | input (body : Bytes) (outcome : Outcome)
  | control (body : Bytes) (outcome : Outcome)
  | response (body : Bytes) (outcome : Outcome)
  | commit (key : InputKey) (outcome : Outcome)
  | send (confirmed : Bool)
  | ack (confirmed : Bool)
  | clear
  | crash
  deriving DecidableEq

variable (cfg : FileIngestorConfig)

def init : State where
  node := Node.init cfg.handler

/-- A call of the durable handler. A crash ends the control thread too. -/
def call (s : State) (c : Call FileIngestorState FileIngestorChange) (outcome : Outcome) :
    Option State :=
  match s.node.exec cfg.handler (outcome.event c) with
  | .error _ => none
  | .ok node => some { s with node, control := if outcome.isCrash then none else s.control }

/-- The coordinator is replaced outside the log. -/
def touch (s : State) (coordinator : EofCoordinator) : State :=
  { s with node := s.node.mutate fun w => { w with coordinator } }

/-- What `_handle_control` does with an action. An action that is no answer is logged and acked. -/
def phaseFor : Option CoordinatorAction → Phase
  | some (.sendAnswer queueName message) => .answering queueName message
  | _ => .acking none

/-- One step, `none` when it is not enabled. -/
def exec (s : State) : Label → Option State
  | .input body outcome =>
    match cfg.onInputMessage s.worker s.node.handler.inbox body with
    | .handle key businessFn => call cfg s (.handle key businessFn) outcome
    | _ => some s
  | .control body outcome =>
    if s.control.isSome then none
    else
      match EofCoordinator.parseMessage body with
      | .ok (some msgType, clientId, ctrl) =>
        let p : ControlPacket := ⟨msgType, clientId, ctrl⟩
        match cfg.handleControl s.worker s.node.handler.inbox p with
        | .handle key businessFn => call cfg s (.handle key businessFn) outcome
        | .direct coordinator action =>
          some { touch s coordinator with control := some ⟨p, s.owed clientId, phaseFor action⟩ }
        | _ => some s
      | _ => some s
  | .response body outcome =>
    match EofCoordinator.parseMessage body with
    | .ok (some msgType, clientId, ctrl) =>
      match cfg.handleResponse s.worker s.node.handler.inbox ⟨msgType, clientId, ctrl⟩ with
      | .handle key businessFn => call cfg s (.handle key businessFn) outcome
      | .direct coordinator _ => some (touch s coordinator)
      | _ => some s
    | _ => some s
  | .commit key outcome =>
    if s.node.handler.inbox.classify key = .new then none else call cfg s (.commitDone key) outcome
  | .send confirmed =>
    match s.control with
    | some ⟨p, owed, .answering queueName message⟩ =>
      some { s with control := some ⟨p, owed,
        if confirmed then .acking (some (queueName, message)) else .clearing⟩ }
    | _ => none
  | .ack confirmed =>
    match s.control with
    | some ⟨p, owed, .acking sent⟩ =>
      if confirmed then some { s with control := none, acked := s.acked ++ [⟨p, owed, sent⟩] }
      -- the ack after an answer is in the same `try` as the answer
      else some { s with control := if sent.isSome then some ⟨p, owed, .clearing⟩ else none }
    | _ => none
  | .clear =>
    match s.control with
    | some ⟨p, _, .clearing⟩ =>
      some { touch s (s.worker.coordinator.clearPendingEof p.clientId) with control := none }
    | _ => none
  | .crash => call cfg s .snapshotNow (.crashes 0)

/-! ## Answers that are owed -/

/-- What the coordinators send: `EOF_RECEIVED` of a client comes from its leader, orders and
requests go to the control queues, counts and acks to the response queues. -/
def traffic (leader : Nat → Nat) : Label → Bool
  | .control body _ =>
    match EofCoordinator.parseMessage body with
    | .ok (some .eofReceived, clientId, ctrl) => decide (ctrl.senderId = leader clientId)
    | .ok (some .processedRequest, _) | .ok (some .flushOrder, _) | .error _ => true
    | .ok _ => false
  | .response body _ =>
    match EofCoordinator.parseMessage body with
    | .ok (some .processedAnswer, _) | .ok (some .flushAck, _) | .error _ => true
    | .ok _ => false
  | _ => true

def Label.isCrash : Label → Bool
  | .input _ outcome | .control _ outcome | .response _ outcome
  | .commit _ outcome => outcome.isCrash
  | .crash => true
  | _ => false

/-- The pending EOFs of announced clients are not lost: no answer to a `PROCESSED_REQUEST` fails,
and a crash finds the entry of every announced client that stays open in the snapshot it recovers
from. -/
def keepsPending (s : State) : Label → Bool
  | .send false | .ack false =>
    s.control.all fun processing => decide (processing.packet.msgType ≠ .processedRequest)
  | l => !l.isCrash || (exec cfg s l).all fun s' => s.announced.all fun c =>
      decide (c ∈ s'.worker.closedByClient) || (s'.snapshotPending c).isSome

/-- The answer for a client with a count. -/
def answer (leader : Nat → Nat) (c count : Nat) : String × ControlPacket :=
  (cfg.coordinator.responseQueueFor (leader c),
    EofCoordinator.buildAnswer cfg.coordinator c count count)

/-- Re-counts are answered: every `PROCESSED_REQUEST` that was acked for an announced, open client
was answered to the leader with the count of that moment, and every one that comes now will be. -/
structure AnswersRecounts (leader : Nat → Nat) (s : State) : Prop where
  acked : ∀ a ∈ s.acked, a.packet.msgType = .processedRequest → ∀ count, a.owed = some count →
    a.sent = some (answer cfg leader a.packet.clientId count)
  next : s.control = none → ∀ c ∈ s.announced, c ∉ s.worker.closedByClient →
    ∀ body ctrl outcome, EofCoordinator.parseMessage body = .ok (some .processedRequest, c, ctrl) →
      ∃ s₁ s₂ s₃, exec cfg s (.control body outcome) = some s₁ ∧
      exec cfg s₁ (.send true) = some s₂ ∧
        exec cfg s₂ (.ack true) = some s₃ ∧
        s₃.acked = s.acked ++ [⟨⟨.processedRequest, c, ctrl⟩, some (s.worker.processedCount c),
          some (answer cfg leader c (s.worker.processedCount c))⟩]

/-! ## The invariant -/

/-- Pending EOFs name the leader of their client. -/
def Leaders (leader : Nat → Nat) (w : FileIngestorState) : Prop :=
  ∀ c x, w.coordinator.pendingEof.get? c = some x → x.2 = leader c

/-- The client is closed or has a pending EOF. -/
def Remembered (w : FileIngestorState) (c : Nat) : Prop :=
  c ∈ w.closedByClient ∨ (w.coordinator.pendingEof.get? c).isSome

/-- The control thread owes nothing that it is not about to send. An `EOF_RECEIVED` that is being
answered made the pending EOF itself, for a client that was not announced before. -/
structure ProcessingOk (leader : Nat → Nat) (s : State) (processing : Processing) : Prop where
  kind : processing.packet.msgType = .eofReceived ∨ processing.packet.msgType = .processedRequest
  request : processing.packet.msgType = .processedRequest → processing.phase ≠ .clearing ∧
    ∀ count, processing.owed = some count →
      processing.phase = .answering (answer cfg leader processing.packet.clientId count).1
          (answer cfg leader processing.packet.clientId count).2 ∨
        processing.phase = .acking (some (answer cfg leader processing.packet.clientId count))
  first : processing.packet.msgType = .eofReceived → processing.phase = .acking none ∨
    processing.packet.clientId ∉ s.announced ∨ processing.packet.clientId ∈ s.worker.closedByClient
  remembered : processing.packet.msgType = .eofReceived → processing.phase = .clearing ∨
    Remembered s.worker processing.packet.clientId

structure RunInv (leader : Nat → Nat) (s : State) : Prop where
  node : s.node.Inv cfg.handler cfg.view
  changes : ChangesRelated cfg.handler cfg.view FileIngestorState.Evolves s.node.history
  disk : s.node.disk.SnapshotsOf (Leaders leader)
  leaders : Leaders leader s.worker
  remembered : ∀ c ∈ s.announced, Remembered s.worker c
  control : ∀ processing, s.control = some processing → ProcessingOk cfg leader s processing
  acked : ∀ a ∈ s.acked, a.packet.msgType = .processedRequest → ∀ count, a.owed = some count →
    a.sent = some (answer cfg leader a.packet.clientId count)

variable {cfg} {leader : Nat → Nat} {s s' : State}

open FileIngestorState

theorem Leaders.evolve {w w' : FileIngestorState} (h : Leaders leader w) (he : Evolves w w') :
    Leaders leader w' := fun c x hx => h c x (he.fresh c x hx)

theorem Remembered.evolve {w w' : FileIngestorState} {c : Nat} (h : Remembered w c)
    (he : Evolves w w') : Remembered w' c := by
  rcases h with h | h
  · exact .inl (he.closed c h)
  · obtain ⟨x, hx⟩ := Option.isSome_iff_exists.mp h
    exact (he.kept c x hx).imp id fun hx' => Option.isSome_iff_exists.mpr ⟨x, hx'⟩

/-- Another thread moves on. -/
theorem ProcessingOk.evolve {processing : Processing} (h : ProcessingOk cfg leader s processing)
    (he : Evolves s.worker s'.worker) (ha : s'.acked = s.acked) :
    ProcessingOk cfg leader s' processing where
  kind := h.kind
  request := h.request
  first hp := by
    have hann : s'.announced = s.announced := by rw [State.announced, ha, State.announced]
    rw [hann]
    exact (h.first hp).imp_right (Or.imp_right (he.closed _))
  remembered hp := (h.remembered hp).imp_right fun hr => hr.evolve he

theorem inv_init : RunInv cfg leader (init cfg) where
  node := Node.inv_init
  changes := changesRelated_nil
  disk snapshot hs := by rcases hs with hs | hs | hs <;> cases hs
  leaders c x hx := by cases hx
  remembered c hc := by cases hc
  control _ hp := by cases hp
  acked a ha := by cases ha

theorem callRelated_of_evolves {key : InputKey}
    {fn : BusinessFn FileIngestorState FileIngestorChange}
    (h : ∀ change outputs, fn s.worker = .ok (change, outputs) →
      ∀ w, w.logged = s.worker.logged → Evolves w (w.applyChange cfg change)) :
    Node.CallRelated cfg.handler cfg.view Evolves s.node (.handle key fn) := by
  rintro m key' change outputs ⟨-, change', logical, outputs', hb, -, hr⟩ w hw
  cases hr
  exact h change logical hb w hw

/-- A call of the durable handler, with any end that does not lose a pending EOF. -/
theorem RunInv.call (h : RunInv cfg leader s) {c : Call FileIngestorState FileIngestorChange}
    {outcome : Outcome} (hc : Node.CallRelated cfg.handler cfg.view Evolves s.node c)
    (he : FileIngestor.call cfg s c outcome = some s')
    (hk : outcome.isCrash = true → ∀ c ∈ s.announced,
      c ∈ s'.worker.closedByClient ∨ (s'.snapshotPending c).isSome) : RunInv cfg leader s' := by
  unfold FileIngestor.call at he
  split at he
  · cases he
  · next node hn =>
    cases he
    have ha := h.node.after Evolves.refl Evolves.trans h.changes h.disk
      (fun w hw => h.leaders.evolve hw) hc hn
    cases hcr : outcome.isCrash with
    | false =>
      have hev : Evolves s.worker node.handler.workerState := ha.stays hcr
      refine ⟨ha.inv, ha.changes, ha.disk, h.leaders.evolve hev,
        fun c hcl => (h.remembered c hcl).evolve hev, fun processing hp => ?_, h.acked⟩
      exact (h.control processing (by simpa [hcr] using hp)).evolve hev rfl
    | true =>
      -- the state comes from the loaded snapshot
      obtain ⟨hs, hload, hev⟩ := ha.recovers hcr
      have hsnap := workerState_of_loadState hload
      have hleaders : Leaders leader hs.workerState := by
        rcases hsnap with ⟨-, hw⟩ | ⟨snapshot, hl, hw⟩
        · rw [hw]
          intro c x hx
          cases hx
        · rw [hw]
          exact ha.disk.load hl
      refine ⟨ha.inv, ha.changes, ha.disk, hleaders.evolve hev, fun c hcl => ?_,
        fun processing hp => ?_, h.acked⟩
      · rcases hk hcr c hcl with hclosed | hpend
        · exact .inl hclosed
        · obtain ⟨x, hx⟩ := Option.isSome_iff_exists.mp hpend
          obtain ⟨snapshot, hl, hx⟩ := Option.bind_eq_some_iff.mp hx
          have hr : Remembered hs.workerState c := by
            rcases hsnap with ⟨hl', -⟩ | ⟨snapshot', hl', hw⟩
            · cases hl.symm.trans hl'
            · cases hl.symm.trans hl'
              rw [hw]
              exact .inr (Option.isSome_iff_exists.mpr ⟨x, hx⟩)
          exact hr.evolve hev
      · simp at hp

/-- The coordinator is replaced outside the log, and the control thread moves on. -/
theorem RunInv.direct (h : RunInv cfg leader s) {coordinator : EofCoordinator}
    {control : Option Processing} (hl : coordinator.logged = s.worker.coordinator.logged)
    (hleaders : Leaders leader { s.worker with coordinator })
    (hrem : ∀ c ∈ s.announced, Remembered { s.worker with coordinator } c)
    (hcontrol : ∀ processing, control = some processing →
      ProcessingOk cfg leader { touch s coordinator with control } processing) :
    RunInv cfg leader { touch s coordinator with control } := by
  have hnode : (s.node.mutate fun w => { w with coordinator }).Inv cfg.handler cfg.view := by
    refine h.node.mutate_of_view ?_
    change FileIngestorState.logged { s.worker with coordinator } = s.worker.logged
    unfold FileIngestorState.logged
    rw [hl]
  exact ⟨hnode, h.changes, h.disk, hleaders, hrem, hcontrol, h.acked⟩

/-- `PROCESSED_ANSWER` at the leader leaves the pending EOFs as they are. -/
theorem RunInv.processedAnswer (h : RunInv cfg leader s) (clientId : Nat) (ctrl : ControlMessage) :
    RunInv cfg leader
      (touch s (s.worker.coordinator.onProcessedAnswer cfg.coordinator clientId ctrl).1) := by
  obtain ⟨hl, hp⟩ := s.worker.coordinator.onProcessedAnswer_fst cfg.coordinator clientId ctrl
  have hev : Evolves s.worker { s.worker with
      coordinator := (s.worker.coordinator.onProcessedAnswer cfg.coordinator clientId ctrl).1 } :=
    .of_pendingEof hp fun _ hc => hc
  change RunInv cfg leader { touch s _ with control := s.control }
  exact h.direct hl (h.leaders.evolve hev) (fun c hc => (h.remembered c hc).evolve hev)
    fun processing hpr => (h.control processing hpr).evolve hev rfl

/-- `PROCESSED_REQUEST`: what is owed is what will be sent. -/
theorem RunInv.processedRequest (h : RunInv cfg leader s) (p : ControlPacket)
    (hp : p.msgType = .processedRequest) :
    ProcessingOk cfg leader s ⟨p, s.owed p.clientId,
      phaseFor (s.worker.coordinator.onProcessedRequest
      cfg.coordinator p.clientId (s.worker.processedCount p.clientId)
      (s.worker.processedCount p.clientId)).2⟩ where
  kind := .inr hp
  first h := by rw [hp] at h; cases h
  remembered h := by rw [hp] at h; cases h
  request _ := by
    have hmode : cfg.coordinator.mode = .broadcast := rfl
    unfold EofCoordinator.onProcessedRequest
    rw [hmode]
    dsimp only
    cases hpend : s.worker.coordinator.pendingEof.get? p.clientId with
    | none =>
      refine ⟨nofun, fun count howed => ?_⟩
      -- an announced, open client has a pending EOF
      unfold State.owed at howed
      split at howed
      · next hc =>
        rcases h.remembered _ hc.1 with hr | hr
        · exact absurd hr hc.2
        · rw [hpend] at hr
          cases hr
      · cases howed
    | some x =>
      obtain ⟨expected, l⟩ := x
      refine ⟨nofun, fun count howed => .inl ?_⟩
      unfold State.owed at howed
      split at howed
      · cases howed
        have hleader : l = leader p.clientId := h.leaders _ _ hpend
        rw [hleader]
        rfl
      · cases howed

theorem RunInv.request (h : RunInv cfg leader s) (p : ControlPacket)
    (hp : p.msgType = .processedRequest) :
    RunInv cfg leader { touch s (s.worker.coordinator.onProcessedRequest cfg.coordinator p.clientId
        (s.worker.processedCount p.clientId) (s.worker.processedCount p.clientId)).1 with
      control := some ⟨p, s.owed p.clientId, phaseFor (s.worker.coordinator.onProcessedRequest
        cfg.coordinator p.clientId (s.worker.processedCount p.clientId)
        (s.worker.processedCount p.clientId)).2⟩ } := by
  rw [EofCoordinator.onProcessedRequest_fst]
  refine h.direct rfl h.leaders h.remembered ?_
  rintro processing ⟨⟩
  exact (h.processedRequest p hp).evolve (.refl _) rfl

/-- `EOF_RECEIVED`: a second one is acked as it is, the first one makes the pending EOF. -/
theorem RunInv.eofReceived (h : RunInv cfg leader s) (p : ControlPacket)
    (hp : p.msgType = .eofReceived) (hleader : p.ctrl.senderId = leader p.clientId)
    (owed : Option Nat) (count : Nat) :
    RunInv cfg leader
      { touch s (s.worker.coordinator.onEofReceived cfg.coordinator p.clientId p.ctrl
        count count).1 with
      control :=
  some ⟨p, owed, phaseFor (s.worker.coordinator.onEofReceived cfg.coordinator p.clientId
        p.ctrl count count).2⟩ } := by
  refine h.direct (EofCoordinator.logged_onEofReceived ..) ?_ ?_ ?_
  · intro c x hx
    dsimp only [EofCoordinator.onEofReceived] at hx
    split at hx
    · exact h.leaders c x hx
    · dsimp only at hx
      rw [Dict.get?_set] at hx
      split at hx
      · next e =>
        cases hx
        exact e ▸ hleader
      · exact h.leaders c x hx
  · intro c hc
    refine (h.remembered c hc).imp_right fun hr => ?_
    dsimp only [EofCoordinator.onEofReceived]
    split
    · exact hr
    · dsimp only
      rw [Dict.get?_set]
      split
      · rfl
      · exact hr
  · rintro processing ⟨⟩
    have hne : p.msgType ≠ .processedRequest := by rw [hp]; rintro ⟨⟩
    refine ⟨.inl hp, fun hr => absurd hr hne, fun _ => ?_, fun _ => .inr (.inr ?_)⟩
    · dsimp only [EofCoordinator.onEofReceived]
      split
      · exact .inl rfl
      · next hnone =>
        right
        by_cases hann : p.clientId ∈ s.announced
        · rcases h.remembered _ hann with hr | hr
          · exact .inr hr
          · exact absurd hr hnone
        · exact .inl hann
    · dsimp only [touch, State.worker, Node.mutate, EofCoordinator.onEofReceived]
      split
      · next hsome => exact hsome
      · dsimp only
        rw [Dict.get?_set, if_pos rfl]
        rfl

/-- After a failed answer the pending EOF goes, and its message comes again. -/
theorem RunInv.clear (h : RunInv cfg leader s) {processing : Processing}
    (hc : s.control = some processing) (hphase : processing.phase = .clearing) :
    RunInv cfg leader
      { touch s (s.worker.coordinator.clearPendingEof processing.packet.clientId) with
      control := none } := by
  have hok := h.control processing hc
  have hev : ∀ c x, (s.worker.coordinator.pendingEof.erase processing.packet.clientId).get? c =
      some x →
      s.worker.coordinator.pendingEof.get? c = some x := by
    intro c x hx
    rw [Dict.get?_erase] at hx
    split at hx
    · cases hx
    · exact hx
  have heof : processing.packet.msgType = .eofReceived :=
    hok.kind.resolve_right fun hr => (hok.request hr).1 hphase
  refine h.direct rfl (fun c x hx => h.leaders c x (hev c x hx)) (fun c hann => ?_)
    (by intros; contradiction)
  rcases h.remembered c hann with hr | hr
  · exact .inl hr
  · by_cases hcc : c = processing.packet.clientId
    · rcases hok.first heof with hn | hn | hn
      · rw [hphase] at hn
        cases hn
      · exact absurd (hcc ▸ hann) hn
      · exact .inl (hcc ▸ hn)
    · refine .inr ?_
      dsimp only [EofCoordinator.clearPendingEof]
      rw [Dict.get?_erase_of_ne _ hcc]
      exact hr

theorem RunInv.control_step (h : RunInv cfg leader s) {body : Bytes} {outcome : Outcome}
    (ht : traffic leader (.control body outcome) = true)
    (hk : outcome.isCrash = true → ∀ c ∈ s.announced,
      c ∈ s'.worker.closedByClient ∨ (s'.snapshotPending c).isSome)
    (he : exec cfg s (.control body outcome) = some s') : RunInv cfg leader s' := by
  dsimp only [exec] at he
  split at he
  · cases he
  · split at he
    · next msgType clientId ctrl hparse =>
      cases msgType with
      | flushOrder =>
        split at he
        · next key fn hreact =>
          exact h.call (callRelated_of_evolves fun change outputs hb w _ =>
            FileIngestorConfig.evolves_handleControl hreact hb) he hk
        · next hreact => exact absurd hreact FileIngestorConfig.handleFlushOrder_ne_direct
        · cases he
          exact h
      | eofReceived =>
        cases he
        have hleader : ctrl.senderId = leader clientId := by simpa [traffic, hparse] using ht
        exact h.eofReceived ⟨.eofReceived, clientId, ctrl⟩ rfl hleader _ _
      | processedRequest =>
        cases he
        exact h.request ⟨.processedRequest, clientId, ctrl⟩ rfl
      | data | eof | processedAnswer | flushAck | aggregatedCount | abort =>
        simp [traffic, hparse] at ht
    · cases he
      exact h

theorem RunInv.response_step (h : RunInv cfg leader s) {body : Bytes} {outcome : Outcome}
    (ht : traffic leader (.response body outcome) = true)
    (hk : outcome.isCrash = true → ∀ c ∈ s.announced,
      c ∈ s'.worker.closedByClient ∨ (s'.snapshotPending c).isSome)
    (he : exec cfg s (.response body outcome) = some s') : RunInv cfg leader s' := by
  dsimp only [exec] at he
  split at he
  · next msgType clientId ctrl hparse =>
    cases msgType with
    | flushAck =>
      split at he
      · next key fn hreact =>
        exact h.call (callRelated_of_evolves fun change outputs hb w hw =>
          FileIngestorConfig.evolves_handleResponse hreact hb hw) he hk
      · next hreact => exact absurd hreact FileIngestorConfig.handleFlushAck_ne_direct
      · cases he
        exact h
    | processedAnswer =>
      cases he
      exact h.processedAnswer clientId ctrl
    | data | eof | processedRequest | flushOrder | aggregatedCount | eofReceived | abort =>
      simp [traffic, hparse] at ht
  · cases he
    exact h

theorem announced_append (s : State) (a : Acked) (control : Option Processing) :
    ({ s with control, acked := s.acked ++ [a] } : State).announced =
      s.announced ++ if a.packet.msgType = .eofReceived then [a.packet.clientId] else [] := by
  unfold State.announced
  dsimp only
  rw [List.filter_append, List.map_append]
  congr 1
  by_cases h : a.packet.msgType = .eofReceived
  · simp [h]
  · simp [h]

theorem RunInv.send_step (h : RunInv cfg leader s) {confirmed : Bool}
    (hk : keepsPending cfg s (.send confirmed) = true)
    (he : exec cfg s (.send confirmed) = some s') : RunInv cfg leader s' := by
  dsimp only [exec] at he
  split at he
  · next p owed queueName message hc =>
    have hok := h.control _ hc
    cases he
    refine ⟨h.node, h.changes, h.disk, h.leaders, h.remembered, ?_, h.acked⟩
    rintro processing ⟨⟩
    cases confirmed with
    | true =>
      refine ⟨hok.kind, fun hr => ⟨nofun, fun count howed => .inr ?_⟩, fun hp =>
        .inr ?_, fun hp => ?_⟩
      · rcases (hok.request hr).2 count howed with hphase | hphase
        · obtain ⟨hq, hm⟩ := Phase.answering.inj hphase
          rw [hq, hm]
          rfl
        · cases hphase
      · exact (hok.first hp).resolve_left nofun
      · exact .inr ((hok.remembered hp).resolve_left nofun)
    | false =>
      have hne : p.msgType ≠ .processedRequest := by
        unfold keepsPending at hk
        rw [hc] at hk
        exact of_decide_eq_true hk
      exact ⟨hok.kind, fun hr => absurd hr hne,
        fun hp => .inr ((hok.first hp).resolve_left nofun), fun _ => .inl rfl⟩
  · cases he

theorem RunInv.ack_step (h : RunInv cfg leader s) {confirmed : Bool}
    (hk : keepsPending cfg s (.ack confirmed) = true)
    (he : exec cfg s (.ack confirmed) = some s') : RunInv cfg leader s' := by
  dsimp only [exec] at he
  split at he
  · next p owed sent hc =>
    have hok := h.control _ hc
    cases confirmed with
    | true =>
      cases he
      refine ⟨h.node, h.changes, h.disk, h.leaders, fun c hann => ?_, nofun, fun a ha => ?_⟩
      · rw [announced_append] at hann
        rcases List.mem_append.mp hann with hann | hann
        · exact h.remembered c hann
        · split at hann
          · next hp =>
            cases List.mem_singleton.mp hann
            exact (hok.remembered hp).resolve_left nofun
          · cases hann
      · rcases List.mem_append.mp ha with ha | ha
        · exact h.acked a ha
        · cases List.mem_singleton.mp ha
          intro hp count howed
          rcases (hok.request hp).2 count howed with hphase | hphase
          · cases hphase
          · exact Phase.acking.inj hphase
    | false =>
      have hne : p.msgType ≠ .processedRequest := by
        unfold keepsPending at hk
        rw [hc] at hk
        exact of_decide_eq_true hk
      cases he
      refine ⟨h.node, h.changes, h.disk, h.leaders, h.remembered, ?_, h.acked⟩
      intro processing hp
      split at hp
      · next hsome =>
        cases hp
        refine ⟨hok.kind, fun hr => absurd hr hne, fun hp => ?_, fun _ => .inl rfl⟩
        refine .inr ((hok.first hp).resolve_left ?_)
        rintro ⟨⟩
        cases hsome
      · cases hp
  · cases he

/-- One step that the traffic and the condition allow. -/
theorem RunInv.exec (h : RunInv cfg leader s) {l : Label} (ht : traffic leader l = true)
    (hk : keepsPending cfg s l = true) (he : FileIngestor.exec cfg s l = some s') :
    RunInv cfg leader s' := by
  have hcrash : l.isCrash = true → (∀ confirmed, l ≠ .send confirmed) →
      (∀ confirmed, l ≠ .ack confirmed) → ∀ c ∈ s.announced,
      c ∈ s'.worker.closedByClient ∨ (s'.snapshotPending c).isSome := by
    intro hcr hs ha c hc
    unfold keepsPending at hk
    split at hk
    · exact absurd rfl (hs false)
    · exact absurd rfl (ha false)
    · rw [hcr, he] at hk
      have := List.all_eq_true.mp hk c hc
      simpa using this
  cases l with
  | input body outcome =>
    dsimp only [FileIngestor.exec] at he
    split at he
    · next key fn hreact =>
      exact h.call (callRelated_of_evolves fun change outputs hb w _ =>
        FileIngestorConfig.evolves_onInputMessage hreact hb) he fun hcr => hcrash hcr nofun nofun
    · cases he
      exact h
  | control body outcome => exact h.control_step ht (fun hcr => hcrash hcr nofun nofun) he
  | response body outcome => exact h.response_step ht (fun hcr => hcrash hcr nofun nofun) he
  | commit key outcome =>
    dsimp only [FileIngestor.exec] at he
    split at he
    · cases he
    · exact h.call (Node.callRelated_commitDone key) he fun hcr => hcrash hcr nofun nofun
  | send confirmed => exact h.send_step hk he
  | ack confirmed => exact h.ack_step hk he
  | clear =>
    dsimp only [FileIngestor.exec] at he
    split at he
    · next p owed hc =>
      cases he
      exact h.clear hc rfl
    · cases he
  | crash => exact h.call Node.callRelated_snapshotNow he fun hcr => hcrash hcr nofun nofun

theorem phaseFor_ne_acking {action : Option CoordinatorAction} {sent : String × ControlPacket} :
    phaseFor action ≠ .acking (some sent) := by
  unfold phaseFor
  split <;> exact nofun

/-- The next request is answered before it is acked. -/
theorem RunInv.answersRecounts (h : RunInv cfg leader s) : AnswersRecounts cfg leader s where
  acked := h.acked
  next hidle c hann hopen body ctrl outcome hparse := by
    have howed : s.owed c = some (s.worker.processedCount c) := if_pos ⟨hann, hopen⟩
    have hphase := ((h.processedRequest ⟨.processedRequest, c, ctrl⟩ rfl).request rfl).2 _ howed
    have hphase := hphase.resolve_right phaseFor_ne_acking
    have hstep : FileIngestor.exec cfg s (.control body outcome) =
        some { touch s (s.worker.coordinator.onProcessedRequest cfg.coordinator c
            (s.worker.processedCount c) (s.worker.processedCount c)).1 with
          control := some ⟨⟨.processedRequest, c, ctrl⟩, s.owed c,
            phaseFor (s.worker.coordinator.onProcessedRequest cfg.coordinator c
              (s.worker.processedCount c) (s.worker.processedCount c)).2⟩ } := by
      dsimp only [FileIngestor.exec]
      rw [hidle, hparse]
      rfl
    dsimp only at hphase
    rw [hphase, howed] at hstep
    exact ⟨_, _, _, hstep, rfl, rfl, rfl⟩

/-- **Re-counts are answered** in every run of a replica in which no pending EOF of an announced
client is lost. -/
theorem recounts_answered
    (h : Reachable (FileIngestor.exec cfg) (fun s l => traffic leader l = true ∧
      keepsPending cfg s l = true)
      (init cfg) s) : AnswersRecounts cfg leader s :=
  (h.invariant inv_init fun _ _ _ hi ha he => hi.exec ha.1 ha.2 he).answersRecounts

/-! Replica 0 of two; replica 1 leads client 7, and client 9 leaves. -/

def replicaZero : FileIngestorConfig where
  id := 0
  totalInstances := 2
  outputs := [⟨"filter", 1⟩]
  controlQueuePrefix := "ingestor_control"
  responseQueuePrefix := "ingestor_response"
  snapshotInterval := 1
  parseLine _ _ _ := .error "invalid transaction row"
  changeJson := .ofTable [(.abort 9, [9])]
  sha256 _ := []

def controlBody (msgType : MessageType) : Bytes :=
  (ControlPacket.toBytes ⟨msgType, 7, ⟨1, 10, 0⟩⟩).toOption.getD []

def abortBody : Bytes :=
  (InternalProtocol.createAddressedPacket MessageType.abort.toNat 9 3 0 []).toOption.getD []

/-- The announcement of client 7 is answered and acked. -/
def announcement : List Label :=
  [.control (controlBody .eofReceived) .returns, .send true, .ack true]

/-- A snapshot with the pending EOF of client 7, and a crash. -/
def snapshotAndCrash : List Label :=
  [.input abortBody .returns, .commit ⟨9, .abort, 3, 0⟩ .returns, .crash]

theorem recounts_answered_after_crash :
    ∃ s, Reachable (FileIngestor.exec replicaZero)
        (fun s l => traffic (fun _ => 1) l = true ∧ keepsPending replicaZero s l = true)
        (init replicaZero) s ∧
      7 ∈ s.announced ∧ 7 ∉ s.worker.closedByClient ∧ 9 ∈ s.worker.closedByClient ∧
      AnswersRecounts replicaZero (fun _ => 1) s := by
  have hrun : (runAllowed (FileIngestor.exec replicaZero)
      (fun s l => traffic (fun _ => 1) l = true ∧ keepsPending replicaZero s l = true)
      (init replicaZero) (announcement ++ snapshotAndCrash)).any
      (fun s => decide (7 ∈ s.announced ∧ 7 ∉ s.worker.closedByClient ∧
        9 ∈ s.worker.closedByClient)) = true := by decide +kernel
  obtain ⟨s, hs, hdec⟩ := (Option.any_eq_true _ _).mp hrun
  obtain ⟨h₁, h₂, h₃⟩ := of_decide_eq_true hdec
  have hreach := reachable_of_runAllowed .init hs
  exact ⟨s, hreach, h₁, h₂, h₃, recounts_answered hreach⟩

/-- The answer to a request fails, and the request comes again. -/
def failedAnswer : List Label :=
  [.control (controlBody .processedRequest) .returns, .send false, .clear,
    .control (controlBody .processedRequest) .returns, .ack true]

/-- The failed answer erased the pending EOF, so the redelivered request is acked without an
answer. -/
theorem recount_lost_after_failed_answer :
    ¬ ∀ (cfg : FileIngestorConfig) (leader : Nat → Nat) (s : State), 2 ≤ cfg.totalInstances →
      Reachable (FileIngestor.exec cfg) (fun _ l => traffic leader l = true) (init cfg) s →
      AnswersRecounts cfg leader s := by
  intro h
  have hrun : (runAllowed (FileIngestor.exec replicaZero) (fun _ l => traffic (fun _ => 1) l = true)
      (init replicaZero) (announcement ++ failedAnswer)).any
      (fun s => decide (⟨⟨.processedRequest, 7, ⟨1, 10, 0⟩⟩, some 0, none⟩ ∈ s.acked)) = true := by
    decide +kernel
  obtain ⟨s, hs, hdec⟩ := (Option.any_eq_true _ _).mp hrun
  have hanswers := h replicaZero (fun _ => 1) s (by decide) (reachable_of_runAllowed .init hs)
  cases hanswers.acked _ (of_decide_eq_true hdec) rfl 0 rfl

end FileIngestor

end MoneyLaundering
