import MoneyLaundering.FaultTolerance.Tracking
import MoneyLaundering.Workers.Recounts

/-!
# What a file ingestor logs

Every record of the log comes from one of five handlers (`FileIngestorConfig.Logs`), all but `DATA`
on a client that was open. Outside the log the coordinator changes in what the log says nothing
about (`EofCoordinator.logged`), so in every run, with any crashes and redeliveries, the history
says which state a handler met.
-/

namespace MoneyLaundering

open Bytes InternalProtocol Transition

/-- `process_control_message` on anything but a `FLUSH_ACK` leaves the logged part alone. -/
theorem EofCoordinator.logged_of_ne_flushAck (cfg : CoordinatorConfig) (s : EofCoordinator)
    {msgType : MessageType} (clientId : Nat) (ctrl : ControlMessage) (count forwarded : Nat)
    (h : msgType ≠ .flushAck) :
    (s.processControlMessage cfg msgType clientId ctrl count forwarded).1.logged = s.logged := by
  cases msgType with
  | flushAck => exact absurd rfl h
  | eofReceived => exact logged_onEofReceived ..
  | processedRequest => exact congrArg logged (onProcessedRequest_fst ..)
  | processedAnswer => exact (onProcessedAnswer_fst ..).1
  | flushOrder => exact congrArg logged (onFlushOrder_fst ..)
  | data | eof | aggregatedCount | abort => rfl

/-- What two states with one logged part share. -/
structure FileIngestorState.SameLogged (w w' : FileIngestorState) : Prop where
  closed : w.closedByClient = w'.closedByClient
  processed : w.processedByClient = w'.processedByClient
  leads : w.coordinator.leaderExpected = w'.coordinator.leaderExpected
  acks : w.coordinator.flushAcks = w'.coordinator.flushAcks
  forwarded : w.coordinator.forwardedFromAcks = w'.coordinator.forwardedFromAcks

theorem FileIngestorState.sameLogged {w w' : FileIngestorState} (h : w.logged = w'.logged) :
    SameLogged w w' := by
  have hfields := FileIngestorState.mk.inj h
  have hcoordinator := EofCoordinator.mk.inj hfields.1
  exact ⟨hfields.2.2.1, hfields.2.1, hcoordinator.2.2.1, hcoordinator.2.2.2.2.2.1,
    hcoordinator.2.2.2.2.2.2⟩

namespace FileIngestorState

theorem leaderExpected_onFlushAck (cfg : FileIngestorConfig) (c : Nat) (s : EofCoordinator)
    (ctrl : ControlMessage) :
    (s.onFlushAck cfg.coordinator c ctrl).1.leaderExpected = s.leaderExpected ∨
      cfg.totalInstances - 1 ≤ (insert ctrl.senderId (s.flushAcks.getD c ∅)).card ∧
        (s.onFlushAck cfg.coordinator c ctrl).1.leaderExpected = s.leaderExpected.erase c := by
  unfold EofCoordinator.onFlushAck
  split
  · dsimp only
    split
    · exact .inl rfl
    · next h => exact .inr ⟨Nat.not_lt.mp h, rfl⟩
  · exact .inl rfl

end FileIngestorState

namespace FileIngestorConfig

variable (cfg : FileIngestorConfig)

/-- The change and the outputs that a new input makes a worker log. -/
inductive Logs (w : FileIngestorState) : InputKey → FileIngestorChange → List LogicalOutput → Prop
  | data {c sender seq n : Nat} {outputs : List LogicalOutput} :
    Logs w ⟨c, .data, sender, seq⟩ (.worker (.single (.data c n))) outputs
  | upstreamEof {c sender seq expectedTotal : Nat} {change : FileIngestorChange}
      {outputs : List LogicalOutput} (hopen : c ∉ w.closedByClient)
      (h : cfg.upstreamEofBusiness c expectedTotal w = .ok (change, outputs)) :
    Logs w ⟨c, .ctrlUpstreamEof, sender, seq⟩ change outputs
  | abort {c sender seq : Nat} {outputs : List LogicalOutput} (hopen : c ∉ w.closedByClient)
      (h : cfg.downstreamAbortOutputs c = .ok outputs) :
    Logs w ⟨c, .abort, sender, seq⟩ (.abort c) outputs
  | flushOrder {c leaderId : Nat} {change : FileIngestorChange} {outputs : List LogicalOutput}
      (hopen : c ∉ w.closedByClient) (hl : w.coordinator.leaderExpected.get? c = none)
      (h : cfg.flushOrderBusiness c leaderId w = .ok (change, outputs)) :
    Logs w ⟨c, .ctrlFlushOrder, leaderId, c⟩ change outputs
  | flushAck {c : Nat} {ctrl : ControlMessage} {change : FileIngestorChange}
      {outputs : List LogicalOutput} (hopen : c ∉ w.closedByClient)
      (hl : (w.coordinator.leaderExpected.get? c).isSome)
      (h : cfg.flushAckBusiness c ctrl w = .ok (change, outputs)) :
    Logs w ⟨c, .ctrlFlushAck, ctrl.senderId, c⟩ change outputs

variable {cfg} {w : FileIngestorState} {inbox : Inbox} {key : InputKey}
  {fn : BusinessFn FileIngestorState FileIngestorChange} {change : FileIngestorChange}
  {outputs : List LogicalOutput}

/-- `business_fn` of a `FLUSH_ACK` predicts whether it is the last one. -/
theorem flushAckBusiness_cases {c : Nat} {ctrl : ControlMessage}
    (h : cfg.flushAckBusiness c ctrl w = .ok (change, outputs)) :
    (cfg.totalInstances - 1 ≤ (insert ctrl.senderId (w.coordinator.flushAcks.getD c ∅)).card ∧
      change = .worker (.compound [.coordinatorMsg .flushAck c ctrl 0 0, .close c]) ∧
      cfg.downstreamEofOutputs c (w.coordinator.forwardedFromAcks.getD c 0 +
        (if ctrl.senderId ∈ w.coordinator.flushAcks.getD c ∅ then 0 else ctrl.processedCount) +
        w.processedCount c) = .ok outputs) ∨
    ((insert ctrl.senderId (w.coordinator.flushAcks.getD c ∅)).card < cfg.totalInstances - 1 ∧
      change = .worker (.single (.coordinatorMsg .flushAck c ctrl 0 0)) ∧ outputs = []) := by
  unfold flushAckBusiness at h
  rw [FileIngestorState.card_insert_eq]
  simp only [decide_eq_true_eq] at h ⊢
  by_cases hle : cfg.totalInstances - 1 ≤ (w.coordinator.flushAcks.getD c ∅).card +
      if ctrl.senderId ∈ w.coordinator.flushAcks.getD c ∅ then 0 else 1
  · rw [if_pos hle] at h
    obtain ⟨outputs', ho, h⟩ := Except.ok_of_bind h
    cases h
    exact .inl ⟨hle, rfl, ho⟩
  · rw [if_neg hle] at h
    cases h
    exact .inr ⟨Nat.not_le.mp hle, rfl, rfl⟩

/-- An input that is new is handled on an open client. -/
theorem open_of_openOrApplied {key' : InputKey} {reaction : IngestorReaction}
    (h : openOrApplied w inbox key' reaction = .handle key fn) (hnew : inbox.classify key' = .new) :
    key'.clientId ∉ w.closedByClient := by
  intro hc
  unfold openOrApplied at h
  rw [if_pos ⟨decide_eq_true hc, by rw [hnew]; exact nofun⟩] at h
  cases h

theorem logs_of_onInputMessage {body : Bytes} (h : cfg.onInputMessage w inbox body = .handle key fn)
    (hnew : inbox.classify key = .new) (hb : fn w = .ok (change, outputs)) :
    cfg.Logs w key change outputs := by
  unfold onInputMessage at h
  split at h
  · cases h
  · split at h
    · cases h
    · split at h
      · cases h
        unfold dataProcessPayload at hb
        split at hb
        · cases hb
          exact .data
        · obtain ⟨batch, -, hb⟩ := Except.ok_of_bind hb
          obtain ⟨transactions, -, hb⟩ := Except.ok_of_bind hb
          obtain ⟨outputs', -, hb⟩ := Except.ok_of_bind hb
          cases hb
          exact .data
      · unfold handleUpstreamEof at h
        split at h
        · cases h
        · have heq := handle_of_openOrApplied h
          cases heq
          exact .upstreamEof (open_of_openOrApplied h hnew) hb
      · have heq := handle_of_openOrApplied h
        cases heq
        obtain ⟨outputs', ho, hb⟩ := Except.ok_of_bind hb
        cases hb
        exact .abort (open_of_openOrApplied h hnew) ho
      · cases h

theorem logs_of_handleControl {p : ControlPacket} (h : cfg.handleControl w inbox p = .handle key fn)
    (hnew : inbox.classify key = .new) (hb : fn w = .ok (change, outputs)) :
    cfg.Logs w key change outputs := by
  unfold handleControl at h
  split at h
  · have heq := handle_of_openOrApplied h
    split at heq
    · cases heq
    · next hl =>
      cases heq
      exact .flushOrder (open_of_openOrApplied h hnew) (Option.not_isSome_iff_eq_none.mp hl) hb
  · cases h

theorem logs_of_handleResponse {p : ControlPacket}
    (h : cfg.handleResponse w inbox p = .handle key fn)
    (hnew : inbox.classify key = .new) (hb : fn w = .ok (change, outputs)) :
    cfg.Logs w key change outputs := by
  unfold handleResponse at h
  split at h
  · have heq := handle_of_openOrApplied h
    split at heq
    · cases heq
    · next hl =>
      cases heq
      refine .flushAck (open_of_openOrApplied h hnew) ?_ hb
      refine Option.isSome_iff_ne_none.mpr fun hn => hl ⟨?_, hn⟩
      rw [hnew]
      rintro ⟨⟩
  · cases h

end FileIngestorConfig

namespace FileIngestor

/-- `FLUSH_ACK` goes to response queues only. -/
def queued : Label → Bool
  | .control body _ =>
    match EofCoordinator.parseMessage body with
    | .ok (some .flushAck, _) => false
    | _ => true
  | _ => true

variable (cfg : FileIngestorConfig)

/-- The logged part of the worker state after a history. -/
def loggedAfter (history : List (WalRecord FileIngestorChange)) : FileIngestorState :=
  (specState cfg.handler cfg.view history).workerState

theorem logged_loggedAfter (history : List (WalRecord FileIngestorChange)) :
    (loggedAfter cfg history).logged = loggedAfter cfg history := by
  unfold loggedAfter
  induction history using List.reverseRecOn with
  | nil => rfl
  | append_singleton history record ih =>
    rw [specState_snoc]
    cases record with
    | inputApplied m key change outputs => rfl
    | inputDone m key => exact ih

theorem loggedAfter_applied (history : List (WalRecord FileIngestorChange)) (m : String)
    (key : InputKey) (change : FileIngestorChange) (outputs : List OutboxEntry) :
    loggedAfter cfg (history ++ [.inputApplied m key change outputs]) =
      ((loggedAfter cfg history).applyChange cfg change).logged := by
  rw [loggedAfter, specState_snoc]
  rfl

theorem loggedAfter_done (history : List (WalRecord FileIngestorChange)) (m : String)
    (key : InputKey) :
    loggedAfter cfg (history ++ [.inputDone m key]) = loggedAfter cfg history := by
  rw [loggedAfter, specState_snoc]
  rfl

/-- Where a record comes from: an applied input was new, and a handler logged it on a state whose
logged part the history describes; the end of an input comes after its start. -/
def Produced (front : List (WalRecord FileIngestorChange)) : WalRecord FileIngestorChange → Prop
  | .inputApplied _ key change outputs => ∃ w logical, w.logged = loggedAfter cfg front ∧
      (specState cfg.handler cfg.view front).inbox.classify key = .new ∧
      cfg.Logs w key change logical ∧
      (specState cfg.handler cfg.view front).sequencer.stamp
        cfg.handler.toSequencerConfig key.clientId
        (cfg.handler.msgId key) logical = .ok outputs
  | .inputDone _ key => (specState cfg.handler cfg.view front).inbox.classify key ≠ .new

/-- Memory, disk and log agree, and every record comes from a handler. -/
structure LogInv (s : State) : Prop where
  node : s.node.Inv cfg.handler cfg.view
  records : EachRecord (Produced cfg) s.node.history

variable {cfg} {s s' : State}

theorem LogInv.worker (h : LogInv cfg s) : s.worker.logged = loggedAfter cfg s.node.history :=
  h.node.workerState

theorem LogInv.call (h : LogInv cfg s) {c : Call FileIngestorState FileIngestorChange}
    {outcome : Outcome}
    (hc : ∀ record, Appends cfg.handler s.node.handler c record →
      Produced cfg s.node.history record)
    (he : FileIngestor.call cfg s c outcome = some s') : LogInv cfg s' := by
  unfold FileIngestor.call at he
  obtain ⟨node, hn, hi, hh⟩ := h.node.outcome c outcome
  rw [hn] at he
  cases he
  refine ⟨hi, ?_⟩
  rcases hh with hh | ⟨record, ha, hh⟩
  · exact hh ▸ h.records
  · rw [hh]
    exact h.records.snoc (hc record ha)

theorem LogInv.handle (h : LogInv cfg s) {key : InputKey} {outcome : Outcome}
    {fn : BusinessFn FileIngestorState FileIngestorChange}
    (hl : ∀ change outputs, s.node.handler.inbox.classify key = .new →
      fn s.worker = .ok (change, outputs) → cfg.Logs s.worker key change outputs)
    (he : FileIngestor.call cfg s (.handle key fn) outcome = some s') : LogInv cfg s' := by
  refine h.call ?_ he
  rintro record ⟨hnew, change, logical, outputs, hb, hstamp, rfl⟩
  refine ⟨s.worker, logical, h.worker, ?_, hl change logical hnew hb, ?_⟩
  · rw [← h.node.inbox]
    exact hnew
  · rw [← h.node.sequencer]
    exact hstamp

theorem LogInv.commit (h : LogInv cfg s) {key : InputKey} {outcome : Outcome}
    (hk : s.node.handler.inbox.classify key ≠ .new)
    (he : FileIngestor.call cfg s (.commitDone key) outcome = some s') : LogInv cfg s' := by
  refine h.call ?_ he
  rintro record rfl
  rw [h.node.inbox] at hk
  exact hk

theorem LogInv.touch (h : LogInv cfg s) {coordinator : EofCoordinator} {control : Option Processing}
    (hl : coordinator.logged = s.worker.coordinator.logged) :
    LogInv cfg { touch s coordinator with control } := by
  refine ⟨Node.Inv.mutate_of_view (f := fun w => { w with coordinator }) h.node ?_, h.records⟩
  change FileIngestorState.logged { s.worker with coordinator } = s.worker.logged
  unfold FileIngestorState.logged
  rw [hl]

theorem LogInv.exec (h : LogInv cfg s) {l : Label} (hq : queued l = true)
    (he : FileIngestor.exec cfg s l = some s') : LogInv cfg s' := by
  cases l with
  | input body outcome =>
    dsimp only [FileIngestor.exec] at he
    split at he
    · next key fn hreact =>
      exact h.handle (fun _ _ hnew hb =>
        FileIngestorConfig.logs_of_onInputMessage hreact hnew hb) he
    · cases he
      exact h
  | control body outcome =>
    dsimp only [FileIngestor.exec] at he
    split at he
    · cases he
    · split at he
      · next msgType clientId ctrl hparse =>
        have hne : msgType ≠ .flushAck := by
          rintro rfl
          simp [queued, hparse] at hq
        split at he
        · next key fn hreact =>
          exact h.handle (fun _ _ hnew hb =>
            FileIngestorConfig.logs_of_handleControl hreact hnew hb) he
        · next coordinator action hreact =>
          cases he
          refine h.touch ?_
          unfold FileIngestorConfig.handleControl at hreact
          split at hreact
          · exact absurd hreact FileIngestorConfig.handleFlushOrder_ne_direct
          · cases hreact
            exact EofCoordinator.logged_of_ne_flushAck _ _ _ _ _ _ hne
        · cases he
          exact h
      · cases he
        exact h
  | response body outcome =>
    dsimp only [FileIngestor.exec] at he
    split at he
    · next msgType clientId ctrl hparse =>
      split at he
      · next key fn hreact =>
        exact h.handle (fun _ _ hnew hb =>
          FileIngestorConfig.logs_of_handleResponse hreact hnew hb) he
      · next coordinator action hreact =>
        cases he
        refine h.touch ?_
        unfold FileIngestorConfig.handleResponse at hreact
        split at hreact
        · exact absurd hreact FileIngestorConfig.handleFlushAck_ne_direct
        · next hne =>
          cases hreact
          exact EofCoordinator.logged_of_ne_flushAck _ _ _ _ _ _ hne
      · cases he
        exact h
    · cases he
      exact h
  | commit key outcome =>
    dsimp only [FileIngestor.exec] at he
    split at he
    · cases he
    · next hk => exact h.commit hk he
  | send confirmed =>
    dsimp only [FileIngestor.exec] at he
    split at he
    · cases he
      exact ⟨h.node, h.records⟩
    · cases he
  | ack confirmed =>
    dsimp only [FileIngestor.exec] at he
    split at he
    · split at he <;> cases he <;> exact ⟨h.node, h.records⟩
    · cases he
  | clear =>
    dsimp only [FileIngestor.exec] at he
    split at he
    · cases he
      exact h.touch rfl
    · cases he
  | crash => exact h.call (c := .snapshotNow) (fun _ ha => False.elim ha) he

theorem logInv_of_reachable
    (h : Reachable (FileIngestor.exec cfg) (fun _ l => queued l = true) (init cfg) s) :
    LogInv cfg s :=
  h.invariant ⟨Node.inv_init, eachRecord_nil⟩ fun _ _ _ hi hq he => hi.exec hq he

/-! ## Invariants that look at the logged part only -/

section invariant
variable {I : LogInvariant cfg.handler}

/-- Along a log of the handlers, an invariant that looks at the logged part only holds of every
state with the logged part that the history describes. -/
theorem holds_along (hlook : ∀ {history} {w w' : FileIngestorState}, w.logged = w'.logged →
      I.Holds history w → I.Holds history w')
    {history : List (WalRecord FileIngestorChange)} (ha : Admissible cfg.handler cfg.view history)
    (hr : EachRecord (Produced cfg) history)
    (hvalid : ∀ front record, front ++ [record] <+: history → EachRecord I.Valid front →
      (∀ w, w.logged = loggedAfter cfg front → I.Holds front w) → Produced cfg front record →
      I.Valid front record) :
    EachRecord I.Valid history ∧ ∀ w, w.logged = loggedAfter cfg history → I.Holds history w := by
  induction history using List.reverseRecOn with
  | nil => exact ⟨eachRecord_nil, fun w hw => hlook (w := {}) hw.symm I.fresh⟩
  | append_singleton history record ih =>
    obtain ⟨heach, hholds⟩ := ih ha.of_append (hr.of_prefix (List.prefix_append _ _))
      fun front record hp => hvalid front record (hp.trans (List.prefix_append _ _))
    have heach' := heach.snoc (hvalid history record List.prefix_rfl heach hholds
      (hr history record List.prefix_rfl))
    refine ⟨heach', fun w hw => ?_⟩
    have hbefore := hholds _ (logged_loggedAfter cfg history)
    cases record with
    | inputApplied m key change outputs =>
      rw [loggedAfter_applied] at hw
      exact hlook hw.symm (I.applied ha.blind heach' hbefore)
    | inputDone m key =>
      rw [loggedAfter_done] at hw
      exact hlook ((logged_loggedAfter cfg history).trans hw.symm) (I.done ha.blind heach' hbefore)

/-- So it holds in every run. -/
theorem LogInv.follows (h : LogInv cfg s) (hlook : ∀ {history} {w w' : FileIngestorState},
      w.logged = w'.logged → I.Holds history w → I.Holds history w')
    (hvalid : ∀ front record, front ++ [record] <+: s.node.history → EachRecord I.Valid front →
      (∀ w, w.logged = loggedAfter cfg front → I.Holds front w) → Produced cfg front record →
      I.Valid front record) : s.node.Follows I := by
  have hblind : ∀ {history : List (WalRecord FileIngestorChange)}
      {state : HandlerState FileIngestorState}, state.map cfg.view.view =
        specState cfg.handler cfg.view history → state.map (View.blind cfg.handler.worker).view =
        specState cfg.handler (.blind cfg.handler.worker) history := by
    intro history state hs
    rw [← specState_blind cfg.view, ← hs]
    rfl
  have htaken : ∀ front, front <+: s.node.history → EachRecord I.Valid front ∧
      ∀ w, w.logged = loggedAfter cfg front → I.Holds front w := by
    rintro front ⟨back, hfront⟩
    have hadm : Admissible cfg.handler cfg.view (front ++ back) := hfront ▸ h.node.admissible
    exact holds_along hlook hadm.of_append (h.records.of_prefix ⟨back, hfront⟩)
      fun front' record hp => hvalid front' record (hp.trans ⟨back, hfront⟩)
  refine ⟨h.node.admissible.blind, (htaken _ List.prefix_rfl).1, ⟨hblind h.node.state,
    (htaken _ List.prefix_rfl).2 _ h.worker⟩, ?_⟩
  obtain ⟨front, both, rest, state, hhist, hload, hs, hwal⟩ := h.node.disk.split
  exact ⟨front, both, rest, state, hhist, hload, ⟨hblind hs,
    (htaken _ (hhist ▸ List.prefix_append _ _)).2 _ (congrArg HandlerState.workerState hs)⟩, hwal⟩

end invariant

end FileIngestor

end MoneyLaundering
