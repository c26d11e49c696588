import MoneyLaundering.Workers.IngestorLog

/-!
# Redelivered inputs of a file ingestor

A process that stops between `commit_done` and the ack gets the message again, and `handle` answers
a finished input with `ACK` and no context. The handlers of upstream EOFs, `FLUSH_ORDER` and
`FLUSH_ACK` pass the context to `commit_done` without looking at the action, unlike `_handle_abort`,
so the missing context raises and the message is requeued. Only a closed client is acked before
that.
-/

namespace MoneyLaundering

open Bytes InternalProtocol Transition

/-- What the broker is told about a message. -/
inductive Verdict where
  | ack
  | nack
  deriving DecidableEq

namespace FileIngestorConfig

variable (cfg : FileIngestorConfig)

/-- The handler of the queue that a message comes from, up to the call of `handle`. -/
def react (w : FileIngestorState) (inbox : Inbox) : WorkerDelivery → IngestorReaction
  | .input body => cfg.onInputMessage w inbox body
  | .control body =>
    match EofCoordinator.parseMessage body with
    | .ok (some msgType, clientId, ctrl) => cfg.handleControl w inbox ⟨msgType, clientId, ctrl⟩
    | .ok (none, _) => .skip
    | .error _ => .refuse
  | .response body =>
    match EofCoordinator.parseMessage body with
    | .ok (some msgType, clientId, ctrl) => cfg.handleResponse w inbox ⟨msgType, clientId, ctrl⟩
    | .ok (none, _) => .skip
    | .error _ => .refuse

/-- The input that an upstream EOF, a `FLUSH_ORDER` or a `FLUSH_ACK` is. -/
def flushInput : WorkerDelivery → Option InputKey
  | .input body =>
    match body.head?.bind fun msgType => MessageType.ofNat? msgType.toNat,
      unpackAddressedPacket body with
    | some .eof, .ok m =>
      if (ControlMessage.deserialize m.payload).toOption.isSome then
        some ⟨m.clientId, .ctrlUpstreamEof, m.senderId, m.seq⟩
      else none
    | _, _ => none
  | .control body =>
    match EofCoordinator.parseMessage body with
    | .ok (some .flushOrder, clientId, ctrl) =>
      some ⟨clientId, .ctrlFlushOrder, ctrl.senderId, clientId⟩
    | _ => none
  | .response body =>
    match EofCoordinator.parseMessage body with
    | .ok (some .flushAck, clientId, ctrl) =>
      some ⟨clientId, .ctrlFlushAck, ctrl.senderId, clientId⟩
    | _ => none

/-- The three handlers to their end: `handle`, `_publish_outputs`, `commit_done(*instruction.ctx)`,
`ack`. `write` and `writeDone` are the answers of the disk, `published` that of the broker. -/
def settle (n : Node FileIngestorState FileIngestorState FileIngestorChange)
    (write writeDone : Except String PUnit) (published : Bool) :
    IngestorReaction → Node FileIngestorState FileIngestorState FileIngestorChange × Verdict
  | .refuse => (n, .nack)
  | .skip => (n, .ack)
  | .direct .. => (n, .ack)
  | .handle key businessFn =>
    match n.effect cfg.handler write (.handle key businessFn) with
    | .error _ => (n, .nack)
    | .ok effect =>
      let n := n.call cfg.handler write (.handle key businessFn)
      match effect.instruction with
      -- the context of this instruction is `None`, and `*None` raises
      | .ack => (n, .nack)
      | .publishThenCommit .. =>
        if published then
          match n.effect cfg.handler writeDone (.commitDone key) with
          | .error _ => (n, .nack)
          | .ok _ => (n.call cfg.handler writeDone (.commitDone key), .ack)
        else (n, .nack)

variable {cfg} {w : FileIngestorState} {inbox : Inbox} {key : InputKey} {d : WorkerDelivery}

/-- The early acks of an open client: the leader passes an order by, and a replica that does not
lead an ack. -/
def PassedBy (w : FileIngestorState) (inbox : Inbox) (key : InputKey) : Prop :=
  match key.kind with
  | .ctrlFlushOrder => (w.coordinator.leaderExpected.get? key.clientId).isSome
  | .ctrlFlushAck =>
    inbox.classify key ≠ .applied ∧ w.coordinator.leaderExpected.get? key.clientId = none
  | _ => False

/-- The three handlers are one up to `handle`. -/
theorem react_of_flushInput (hd : flushInput d = some key) :
    ∃ reaction, cfg.react w inbox d = openOrApplied w inbox key reaction ∧
      (PassedBy w inbox key ∧ reaction = .skip ∨
        ¬ PassedBy w inbox key ∧ ∃ fn, reaction = .handle key fn) := by
  cases d with
  | input body =>
    dsimp only [flushInput] at hd
    split at hd
    · next m hhead hm =>
      split at hd
      · next hctrl =>
        cases hd
        obtain ⟨ctrl, hctrl⟩ := Option.isSome_iff_exists.mp hctrl
        have hctrl : ControlMessage.deserialize m.payload = .ok ctrl := by
          cases he : ControlMessage.deserialize m.payload with
          | error e => rw [he] at hctrl; cases hctrl
          | ok ctrl' => rw [he] at hctrl; cases hctrl; rfl
        cases body with
        | nil => cases hhead
        | cons msgType rest =>
          have hhead : MessageType.ofNat? msgType.toNat = some .eof := hhead
          refine ⟨_, ?_, .inr ⟨fun h => h, cfg.upstreamEofBusiness m.clientId ctrl.expectedTotal,
            rfl⟩⟩
          simp only [react, onInputMessage, hm, hhead, handleUpstreamEof, hctrl]
      · cases hd
    · cases hd
  | control body =>
    dsimp only [flushInput] at hd
    split at hd
    · next clientId ctrl hp =>
      cases hd
      refine ⟨_, by simp only [react, hp]; rfl, ?_⟩
      split
      · next hl => exact .inl ⟨hl, rfl⟩
      · next hl => exact .inr ⟨hl, cfg.flushOrderBusiness clientId ctrl.senderId, rfl⟩
    · cases hd
  | response body =>
    dsimp only [flushInput] at hd
    split at hd
    · next clientId ctrl hp =>
      cases hd
      refine ⟨_, by simp only [react, hp]; rfl, ?_⟩
      split
      · next hl => exact .inl ⟨hl, rfl⟩
      · next hl => exact .inr ⟨hl, cfg.flushAckBusiness clientId ctrl, rfl⟩
    · cases hd

variable {n : Node FileIngestorState FileIngestorState FileIngestorChange}

/-- `handle` answers a finished input without a context. -/
theorem settle_of_done {fn : BusinessFn FileIngestorState FileIngestorChange}
    (hdone : n.handler.inbox.classify key = .done) (write writeDone : Except String PUnit)
    (published : Bool) : (cfg.settle n write writeDone published (.handle key fn)).2 = .nack := by
  simp [settle, Node.effect, Handler.handle, hdone]

/-- A finished input is acked and changes nothing exactly if a handler acks it before `handle`. -/
theorem settle_done_iff (hd : flushInput d = some key)
    (hdone : n.handler.inbox.classify key = .done)
    (write writeDone : Except String PUnit) (published : Bool) :
    cfg.settle n write writeDone published
        (cfg.react n.handler.workerState n.handler.inbox d) = (n, .ack) ↔
      key.clientId ∈ n.handler.workerState.closedByClient ∨
        PassedBy n.handler.workerState n.handler.inbox key := by
  obtain ⟨reaction, hr, hreaction⟩ : ∃ reaction,
    cfg.react n.handler.workerState n.handler.inbox d = _ ∧ _ :=
    react_of_flushInput hd
  rw [hr]
  have hne : n.handler.inbox.classify key ≠ .applied := by rw [hdone]; exact nofun
  by_cases hc : key.clientId ∈ n.handler.workerState.closedByClient
  · rw [openOrApplied, if_pos ⟨decide_eq_true hc, hne⟩]
    exact iff_of_true rfl (.inl hc)
  · rw [openOrApplied, if_neg fun h => hc (of_decide_eq_true h.1)]
    rcases hreaction with ⟨hp, rfl⟩ | ⟨hp, fn, rfl⟩
    · exact iff_of_true rfl (.inr hp)
    · refine iff_of_false (fun he => ?_) (not_or.mpr ⟨hc, hp⟩)
      have hnack : (cfg.settle n write writeDone published (.handle key fn)).2 = .nack :=
        settle_of_done hdone write writeDone published
      rw [he] at hnack
      cases hnack

end FileIngestorConfig

/-! ## What a finished input leaves behind -/

namespace FileIngestorState

/-- No client is opened again, and a leader leads a client until it closes it. -/
structure Keeps (w w' : FileIngestorState) : Prop where
  closed : ∀ c ∈ w.closedByClient, c ∈ w'.closedByClient
  leads : ∀ c, (w.coordinator.leaderExpected.get? c).isSome →
    c ∈ w'.closedByClient ∨ (w'.coordinator.leaderExpected.get? c).isSome

variable {cfg : FileIngestorConfig} {w w' : FileIngestorState} {c : Nat}

/-- A change that at most sets the leader of clients. -/
theorem Keeps.of_leads (hc : ∀ c ∈ w.closedByClient, c ∈ w'.closedByClient)
    (hl : ∀ c, (w.coordinator.leaderExpected.get? c).isSome →
      (w'.coordinator.leaderExpected.get? c).isSome) : Keeps w w' :=
  ⟨hc, fun c h => .inr (hl c h)⟩

/-- A change that forgets the leader of the client that it closes. -/
theorem Keeps.of_erase (hc : w'.closedByClient = insert c w.closedByClient)
    (hl : w'.coordinator.leaderExpected = w.coordinator.leaderExpected.erase c) : Keeps w w' := by
  refine ⟨fun c' h => hc ▸ Finset.mem_insert_of_mem h, fun c' h => ?_⟩
  rw [hc, hl, Dict.get?_erase]
  split
  · next e => exact .inl (e ▸ Finset.mem_insert_self _ _)
  · exact .inr h

theorem leads_onUpstreamEof (s : EofCoordinator) (expectedTotal count forwarded : Nat) (c' : Nat)
    (h : (s.leaderExpected.get? c').isSome) :
    ((s.onUpstreamEof cfg.coordinator c expectedTotal count forwarded).1.leaderExpected.get?
      c').isSome := by
  unfold EofCoordinator.onUpstreamEof
  split
  · exact h
  · dsimp only [FileIngestorConfig.coordinator]
    rw [Dict.get?_set]
    split
    · rfl
    · exact h

/-- What is logged keeps both, on every state that looks like the one it was logged on. -/
theorem keeps_of_logs {w₀ : FileIngestorState} {key : InputKey} {change : FileIngestorChange}
    {outputs : List LogicalOutput} (h : cfg.Logs w₀ key change outputs)
    (hw : w.logged = w₀.logged) :
    Keeps w (w.applyChange cfg change) := by
  cases h with
  | @data c sender seq n =>
    dsimp only [applyChange, WorkerChange.ops, List.foldl, applyOp, applyData]
    split
    · exact .of_leads (fun _ h => h) fun _ h => h
    · exact .of_leads (fun _ h => h) fun _ h => h
  | upstreamEof hopen hb =>
    unfold FileIngestorConfig.upstreamEofBusiness at hb
    split at hb
    · obtain ⟨payload, -, hb⟩ := Except.ok_of_bind hb
      obtain ⟨body, -, hb⟩ := Except.ok_of_bind hb
      cases hb
      exact .of_leads (fun _ h => h) (leads_onUpstreamEof _ _ _ _)
    · obtain ⟨outputs', -, hb⟩ := Except.ok_of_bind hb
      cases hb
      exact .of_leads (fun _ h => Finset.mem_insert_of_mem h) (leads_onUpstreamEof _ _ _ _)
  | abort hopen hb => exact .of_erase rfl rfl
  | flushOrder hopen hl hb =>
    obtain ⟨body, -, hb⟩ := Except.ok_of_bind hb
    cases hb
    exact .of_leads (fun _ h => Finset.mem_insert_of_mem h) fun _ h => h
  | @flushAck c ctrl _ _ hopen hl hb =>
    have hleader := leaderExpected_onFlushAck cfg c w.coordinator ctrl
    rw [(sameLogged hw).acks] at hleader
    rcases FileIngestorConfig.flushAckBusiness_cases hb with ⟨-, rfl, -⟩ | ⟨hlt, rfl, -⟩
    · rcases hleader with hleader | ⟨-, hleader⟩
      · exact .of_leads (fun _ h => Finset.mem_insert_of_mem h) fun c' h => hleader ▸ h
      · exact .of_erase rfl hleader
    · rcases hleader with hleader | ⟨hle, -⟩
      · exact .of_leads (fun _ h => h) fun c' h => hleader ▸ h
      · omega

end FileIngestorState

namespace FileIngestor

open FileIngestorState

/-- A client whose order was followed is closed, and one whose ack was counted is closed or led
here. -/
structure Settled (w : FileIngestorState) (key : InputKey) : Prop where
  order : key.kind = .ctrlFlushOrder → key.clientId ∈ w.closedByClient
  ack : key.kind = .ctrlFlushAck →
    key.clientId ∈ w.closedByClient ∨ (w.coordinator.leaderExpected.get? key.clientId).isSome

variable {cfg : FileIngestorConfig} {w w' : FileIngestorState} {key : InputKey}

theorem Settled.keeps (h : Settled w key) (hk : Keeps w w') : Settled w' key where
  order hkind := hk.closed _ (h.order hkind)
  ack hkind := (h.ack hkind).elim (fun hc => .inl (hk.closed _ hc)) (hk.leads _)

theorem Settled.congr (h : Settled w key) (hw : w.logged = w'.logged) : Settled w' key := by
  obtain ⟨hc, -, hl, -, -⟩ := sameLogged hw
  exact ⟨fun hk => hc ▸ h.order hk, fun hk => hc ▸ hl ▸ h.ack hk⟩

/-- The input of a logged change is settled by it. -/
theorem settled_of_logs {w₀ : FileIngestorState} {change : FileIngestorChange}
    {outputs : List LogicalOutput} (h : cfg.Logs w₀ key change outputs)
    (hw : w.logged = w₀.logged) :
    Settled (w.applyChange cfg change) key := by
  have hkeeps := keeps_of_logs h hw
  cases h with
  | data => exact ⟨nofun, nofun⟩
  | upstreamEof => exact ⟨nofun, nofun⟩
  | abort => exact ⟨nofun, nofun⟩
  | @flushOrder c leaderId change outputs hopen hl hb =>
    refine ⟨fun _ => ?_, nofun⟩
    obtain ⟨body, -, hb⟩ := Except.ok_of_bind hb
    cases hb
    exact Finset.mem_insert_self _ _
  | flushAck hopen hl hb =>
    refine ⟨nofun, fun _ => hkeeps.leads _ ?_⟩
    rw [(sameLogged hw).leads]
    exact hl

/-- Everything that a history records is settled in the state it describes. -/
theorem settled_of_recorded {history : List (WalRecord FileIngestorChange)}
    (ha : Admissible cfg.handler cfg.view history) (hr : EachRecord (Produced cfg) history)
    {record : WalRecord FileIngestorChange} (hm : record ∈ history) :
    Settled (loggedAfter cfg history) record.key := by
  induction history using List.reverseRecOn generalizing record with
  | nil => cases hm
  | append_singleton history last ih =>
    have hprev : ∀ record ∈ history, Settled (loggedAfter cfg history) record.key :=
      fun record hm =>
      ih ha.of_append (hr.of_prefix (List.prefix_append _ _)) hm
    have hlast := hr history last List.prefix_rfl
    unfold loggedAfter at hprev ⊢
    rw [specState_snoc]
    cases last with
    | inputApplied m key change outputs =>
      obtain ⟨w, logical, hw, -, hl, -⟩ := hlast
      have hsame : (loggedAfter cfg history).logged = w.logged :=
        (logged_loggedAfter cfg history).trans hw.symm
      rcases List.mem_append.mp hm with hm | hm
      · exact ((hprev record hm).keeps (keeps_of_logs hl hsame)).congr rfl
      · cases List.mem_singleton.mp hm
        exact (settled_of_logs hl hsame).congr rfl
    | inputDone m key =>
      rcases List.mem_append.mp hm with hm | hm
      · exact hprev record hm
      · cases List.mem_singleton.mp hm
        obtain ⟨record, hm, hc, hch⟩ := ha.of_append.recorded_of_classify hlast
        have hkind : record.key.kind = key.kind := InputKey.kind_of_channel hch
        have hset := hprev record hm
        rw [show (WalRecord.inputDone m key : WalRecord FileIngestorChange).key = key from rfl]
        exact ⟨fun hk => hc ▸ hset.order (hkind.trans hk), fun hk => hc ▸ hset.ack (hkind.trans hk)⟩

/-- A finished input is settled. -/
theorem LogInv.settled {s : State} (h : LogInv cfg s)
    (hdone : s.node.handler.inbox.classify key = .done) :
    Settled s.worker key := by
  rw [h.node.inbox] at hdone
  obtain ⟨record, hm, hc, hch⟩ :=
    h.node.admissible.recorded_of_classify (by rw [hdone]; exact nofun)
  have hkind : record.key.kind = key.kind := InputKey.kind_of_channel hch
  have hset := settled_of_recorded h.node.admissible h.records hm
  rw [← h.worker] at hset
  have hset : Settled s.worker record.key := hset.congr rfl
  exact ⟨fun hk => hc ▸ hset.order (hkind.trans hk), fun hk => hc ▸ hset.ack (hkind.trans hk)⟩

/-- **A finished input is acked on redelivery exactly if its client is closed.** In every state of
every run of a file ingestor, with crashes, failures and redeliveries, an upstream EOF, a
`FLUSH_ORDER` or a `FLUSH_ACK` whose input is finished is acked without a change if the client is
closed, as it is after every followed `FLUSH_ORDER`, and is requeued if the client is open. -/
theorem done_input_acked_iff {s : State} {d : WorkerDelivery}
    (h : Reachable (FileIngestor.exec cfg) (fun _ l => queued l = true) (init cfg) s)
    (hd : FileIngestorConfig.flushInput d = some key)
    (hdone : s.node.handler.inbox.classify key = .done) (write writeDone : Except String PUnit)
    (published : Bool) :
    cfg.settle s.node write writeDone published (cfg.react s.worker s.node.handler.inbox d) =
      (s.node, .ack) ↔ key.clientId ∈ s.worker.closedByClient := by
  have hset := (logInv_of_reachable h).settled hdone
  refine (FileIngestorConfig.settle_done_iff hd hdone write writeDone published).trans
    (or_iff_left_of_imp fun hp => ?_)
  unfold FileIngestorConfig.PassedBy at hp
  split at hp
  · next hk => exact hset.order hk
  · next hk =>
    refine (hset.ack hk).resolve_right fun hl => ?_
    change (s.node.handler.workerState.coordinator.leaderExpected.get? key.clientId).isSome at hl
    rw [hp.2] at hl
    cases hl
  · exact hp.elim

/-! Replica 0 of two gets the upstream EOF of client 7 and stops before the ack. -/

def stoppedLeader : FileIngestorConfig where
  id := 0
  totalInstances := 2
  outputs := [⟨"filter", 1⟩]
  controlQueuePrefix := "ingestor_control"
  responseQueuePrefix := "ingestor_response"
  parseLine _ _ _ := .error "invalid transaction row"
  changeJson :=
    .ofTable [(.worker (.single (.coordinatorUpstreamEof 7 4 0 0)), [7]), (.abort 7, [9])]
  sha256 _ := []

def inputBody (msgType : MessageType) (seq : Nat) (payload : Bytes) : Bytes :=
  (createAddressedPacket msgType.toNat 7 3 seq payload).toOption.getD []

def upstreamEofBody : Bytes :=
  inputBody .eof 1
    ((ControlMessage.serialize { senderId := 3, expectedTotal := 4 }).toOption.getD [])

def upstreamEofKey : InputKey := ⟨7, .ctrlUpstreamEof, 3, 1⟩

/-- The input is finished, and the process stops. -/
def stopBeforeAck : List Label :=
  [.input upstreamEofBody .returns, .commit upstreamEofKey .returns, .crash]

/-- Before the message comes again, the client leaves. -/
def stopAndAbort : List Label :=
  stopBeforeAck ++ [.input (inputBody .abort 2 []) .returns, .commit ⟨7, .abort, 3, 2⟩ .returns]

theorem done_input_acked_after_abort :
    ∃ s, Reachable (FileIngestor.exec stoppedLeader) (fun _ l => queued l = true)
    (init stoppedLeader) s ∧
      7 ∈ s.worker.closedByClient ∧ s.node.handler.inbox.classify upstreamEofKey = .done ∧
      stoppedLeader.settle s.node (.ok ⟨⟩) (.ok ⟨⟩) true
        (stoppedLeader.react s.worker s.node.handler.inbox (.input upstreamEofBody)) =
          (s.node, .ack) := by
  have hrun : (runAllowed (FileIngestor.exec stoppedLeader) (fun _ l => queued l = true)
      (init stoppedLeader) stopAndAbort).any
      (fun s => decide (7 ∈ s.worker.closedByClient ∧
        s.node.handler.inbox.classify upstreamEofKey = .done)) = true := by decide +kernel
  obtain ⟨s, hs, hdec⟩ := (Option.any_eq_true _ _).mp hrun
  obtain ⟨hclosed, hdone⟩ := of_decide_eq_true hdec
  have hreach := reachable_of_runAllowed .init hs
  exact ⟨s, hreach, hclosed, hdone,
    (done_input_acked_iff hreach (by decide +kernel) hdone _ _ _).mpr hclosed⟩

/-- The redelivered EOF of an open client is requeued, and will be again. -/
theorem done_upstream_eof_requeued :
    ¬ ∀ (cfg : FileIngestorConfig) (s : State) (d : WorkerDelivery) (key : InputKey)
      (write writeDone : Except String PUnit) (published : Bool),
      Reachable (FileIngestor.exec cfg) (fun _ l => queued l = true) (init cfg) s →
      FileIngestorConfig.flushInput d = some key → s.node.handler.inbox.classify key = .done →
      cfg.settle s.node write writeDone published (cfg.react s.worker s.node.handler.inbox d) =
        (s.node, .ack) := by
  intro h
  have hrun : (runAllowed (FileIngestor.exec stoppedLeader) (fun _ l => queued l = true)
      (init stoppedLeader) stopBeforeAck).any
      (fun s => decide (s.node.handler.inbox.classify upstreamEofKey = .done ∧
        (stoppedLeader.settle s.node (.ok ⟨⟩) (.ok ⟨⟩) true
          (stoppedLeader.react s.worker s.node.handler.inbox (.input upstreamEofBody))).2 =
            .nack)) =
      true := by decide +kernel
  obtain ⟨s, hs, hdec⟩ := (Option.any_eq_true _ _).mp hrun
  obtain ⟨hdone, hnack⟩ := of_decide_eq_true hdec
  have hack := h stoppedLeader s (.input upstreamEofBody) upstreamEofKey (.ok ⟨⟩) (.ok ⟨⟩) true
    (reachable_of_runAllowed .init hs) (by decide +kernel) hdone
  rw [hack] at hnack
  cases hnack

end FileIngestor

end MoneyLaundering
