import MoneyLaundering.Workers.FilterQ5Usd
import MoneyLaundering.Workers.SumNumbers

/-!
# The packets of filter_q5_usd

filter_q5_usd sends packets with every batch that forwards something, and EOFs when it closes a
client. Its counter is part of the logged state and advances with the record, so the packets of a
client count up from `0` over the whole log, as long as the client is closed after all its `DATA`:
closing forgets the counter. The counter has 32 bits, and after `2 ^ 32` packets of a client the
numbers come again.
-/

namespace MoneyLaundering

open Bytes InternalProtocol Transition

namespace FilterQ5UsdConfig

open Publisher

variable {cfg : FilterQ5UsdConfig} {s t : FilterQ5UsdState} {key : InputKey}
    {change : FilterQ5UsdChange}
  {logical : List LogicalOutput} {c : Nat} {history : List (WalRecord FilterQ5UsdChange)}

/-! ## Changes -/

/-- How far a single change advances the counter of a client. -/
def advanceOp (c : Nat) : WorkerOp Q5DataChange → Nat
  | .data c' change => if c' = c then change.seqAdvance else 0
  | _ => 0

/-- How far a change advances the counter of a client. -/
def advance (c : Nat) (change : FilterQ5UsdChange) : Nat := (change.ops.map (advanceOp c)).sum

theorem applyOp_closed (s : FilterQ5UsdState) (op : WorkerOp Q5DataChange) :
    (s.applyOp cfg op).closedByClient = WorkerChange.closedBy s.closedByClient op := by
  cases op with
  | data c change =>
    dsimp only [FilterQ5UsdState.applyOp, FilterQ5UsdState.applyData, WorkerChange.closedBy]
    split <;> rfl
  | close | coordinatorUpstreamEof | coordinatorMsg | coordinatorCleanup => rfl

theorem applyOp_aggSeq (s : FilterQ5UsdState) (op : WorkerOp Q5DataChange)
    (hs : s.aggSeq c < 2 ^ 32) (hc : c ∉ (s.applyOp cfg op).closedByClient) :
    (s.applyOp cfg op).aggSeq c = (s.aggSeq c + advanceOp c op) % 2 ^ 32 := by
  rw [applyOp_closed] at hc
  cases op with
  | data c' change =>
    dsimp only [FilterQ5UsdState.applyOp, FilterQ5UsdState.applyData, advanceOp,
      WorkerChange.closedBy] at hc ⊢
    by_cases e : c' = c
    · subst e
      rw [if_neg hc, if_pos rfl]
      dsimp only [FilterQ5UsdState.aggSeq] at hs ⊢
      split
      · next h0 => rw [h0, Nat.add_zero, Nat.mod_eq_of_lt hs]
      · rw [Dict.getD_set, if_pos rfl]
    · rw [if_neg e, Nat.add_zero, Nat.mod_eq_of_lt hs]
      split
      · rfl
      · dsimp only [FilterQ5UsdState.aggSeq]
        split
        · rfl
        · rw [Dict.getD_set, if_neg e]
  | close c' =>
    have hne : c' ≠ c := by
      rintro rfl
      exact hc (Finset.mem_insert_self ..)
    dsimp only [FilterQ5UsdState.applyOp, FilterQ5UsdState.applyClose,
      FilterQ5UsdState.aggSeq, advanceOp]
      at hs ⊢
    rw [Dict.getD_erase, if_neg hne.symm, Nat.add_zero, Nat.mod_eq_of_lt hs]
  | coordinatorUpstreamEof | coordinatorMsg | coordinatorCleanup => exact (Nat.mod_eq_of_lt hs).symm

theorem foldl_applyOp_closed (s : FilterQ5UsdState) (ops : List (WorkerOp Q5DataChange)) :
    (ops.foldl (FilterQ5UsdState.applyOp cfg) s).closedByClient =
      ops.foldl WorkerChange.closedBy s.closedByClient := by
  induction ops generalizing s with
  | nil => rfl
  | cons op ops ih => rw [List.foldl_cons, List.foldl_cons, ih, applyOp_closed]

theorem applyChange_closed (s : FilterQ5UsdState) (change : FilterQ5UsdChange) :
    (s.applyChange cfg change).closedByClient = change.closedAfter s.closedByClient :=
  foldl_applyOp_closed s change.ops

/-- The counter of a client that a change leaves open. -/
theorem applyChange_aggSeq (s : FilterQ5UsdState) (change : FilterQ5UsdChange)
    (hs : s.aggSeq c < 2 ^ 32) (hc : c ∉ change.closedAfter s.closedByClient) :
    (s.applyChange cfg change).aggSeq c = (s.aggSeq c + advance c change) % 2 ^ 32 := by
  unfold FilterQ5UsdState.applyChange advance
  unfold WorkerChange.closedAfter at hc
  generalize change.ops = ops at hc ⊢
  induction ops generalizing s with
  | nil => simpa using (Nat.mod_eq_of_lt hs).symm
  | cons op ops ih =>
    rw [List.foldl_cons] at hc ⊢
    have hclosed : (s.applyOp cfg op).closedByClient = _ := applyOp_closed s op
    rw [← hclosed] at hc
    -- a client that is open after all of them is open after the first
    have hopen : c ∉ (s.applyOp cfg op).closedByClient := fun h =>
      hc (WorkerChange.subset_closedAfter (.compound ops) _ h)
    have hfirst := applyOp_aggSeq s op hs hopen
    rw [ih _ (by rw [hfirst]; exact Nat.mod_lt _ (by decide)) hc, hfirst,
      Nat.mod_add_mod, List.map_cons, List.sum_cons, Nat.add_assoc]

/-! ## Outputs -/

/-- Packets of the client, one for each number. -/
theorem stream_of_forall₂ {msgType : MessageType} (ht : msgType = .data ∨ msgType = .eof)
    (senderId k : Nat) {seq n : Nat}
    (h : List.Forall₂ (fun i (output : LogicalOutput) => ∃ payload,
      createAddressedPacket msgType.toNat c senderId (seq + i) payload = .ok output.body)
      (List.range' k n) logical) :
    Stream c (seq + k) (outputPackets logical) ∧
    (streamOf c (outputPackets logical)).length = n := by
  induction n generalizing k logical with
  | zero =>
    cases h
    exact ⟨.of_control (by simp [outputPackets]), rfl⟩
  | succ n ih =>
    rw [List.range'_succ] at h
    cases h with
    | cons hfirst hrest =>
      obtain ⟨payload, hfirst⟩ := hfirst
      obtain ⟨hs, hlen⟩ := Stream.single hfirst ht
      obtain ⟨hs', hlen'⟩ := ih (k + 1) hrest
      rw [← List.singleton_append, outputPackets_append]
      refine ⟨hs.append (hlen.symm ▸ hs'), ?_⟩
      rw [streamOf_append, List.length_append, hlen']
      exact (congrArg (· + n) hlen).trans (Nat.add_comm 1 n)

theorem stream_dataOutputs {seq : Nat} {transactions : List Transaction}
    (h : cfg.dataOutputs c seq transactions = .ok logical) :
    Stream c seq (outputPackets logical) ∧
      (streamOf c (outputPackets logical)).length = (transactions.filter cfg.forwards).length := by
  refine stream_of_forall₂ (.inl rfl) cfg.id 0 ?_
  rw [← List.zipIdx_map_snd 0 (transactions.filter cfg.forwards), List.forall₂_map_left_iff]
  refine (Except.forall₂_of_mapM h).imp fun x output hx => ?_
  obtain ⟨payload, -, hx⟩ := Except.ok_of_bind hx
  obtain ⟨body, hb, hx⟩ := Except.ok_of_bind hx
  cases hx
  exact ⟨payload, hb⟩

theorem stream_shardOutputs {msgType : MessageType}
    (ht : msgType = .data ∨ msgType = .eof) {seq : Nat}
    {payload : Bytes} (h : cfg.shardOutputs msgType c seq payload = .ok logical) :
    Stream c seq (outputPackets logical) ∧
      (streamOf c (outputPackets logical)).length = cfg.aggregationAmount := by
  refine stream_of_forall₂ ht cfg.id 0 ?_
  rw [← List.range_eq_range']
  refine (Except.forall₂_of_mapM h).imp fun i output hi => ?_
  obtain ⟨body, hb, hi⟩ := Except.ok_of_bind hi
  cases hi
  exact ⟨payload, hb⟩

theorem control_downstreamAbortOutputs (h : cfg.downstreamAbortOutputs s c = .ok logical) :
    ∀ p ∈ outputPackets logical, streamPacket? p.2 = none := by
  intro p hp
  obtain ⟨output, ho, rfl⟩ := List.mem_map.mp hp
  obtain ⟨i, -, hi⟩ := (Except.forall₂_of_mapM h).exists_left ho
  obtain ⟨body, hb, hi⟩ := Except.ok_of_bind hi
  cases hi
  rw [streamPacket?_create hb]
  rfl

/-! ## The handlers -/

/-- The packets of a change continue the count of their client, which is open, and the counter of a
client that stays open advances by them. -/
def Emits (s : FilterQ5UsdState) (change : FilterQ5UsdChange) (packets : List (String × Bytes)) :
    Prop :=
  ∀ c, (streamOf c packets = [] ∨
      c ∉ s.closedByClient ∧ CountsFrom (2 ^ 32) (s.aggSeq c) (streamSeqs c packets)) ∧
    (c ∉ change.closedAfter s.closedByClient → advance c change = (streamOf c packets).length)

theorem emits_control (h : ∀ p ∈ outputPackets logical, streamPacket? p.2 = none)
    (ha : ∀ c, advance c change = 0) : Emits s change (outputPackets logical) := fun c =>
  ⟨.inl (streamOf_control h), fun _ => by rw [ha, streamOf_control h]; rfl⟩

theorem emits_stream (hopen : c ∉ s.closedByClient)
    (h : Stream c (s.aggSeq c) (outputPackets logical))
    (ha : ∀ c', c' ∉ change.closedAfter s.closedByClient →
      advance c' change = if c = c' then (streamOf c (outputPackets logical)).length else 0) :
    Emits s change (outputPackets logical) := by
  intro c'
  by_cases e : c' = c
  · subst e
    exact ⟨.inr ⟨hopen, h.counts⟩, fun hc => by rw [ha _ hc, if_pos rfl]⟩
  · refine ⟨.inl (h.only c' e), fun hc => ?_⟩
    rw [ha _ hc, if_neg (Ne.symm e), h.only c' e]
    rfl

/-- A state of which a handler touched the coordinator only. -/
structure Same (s t : FilterQ5UsdState) : Prop where
  closed : t.closedByClient = s.closedByClient
  aggSeq : t.aggSeqByClient = s.aggSeqByClient

/-- What a reaction may do: it touches the coordinator, and the packets it logs continue the
counts. -/
def SendsStream (s : FilterQ5UsdState) : Reaction FilterQ5UsdState FilterQ5UsdChange → Prop
  | .refuse | .skip _ => True
  | .direct touched sends => Same s touched ∧ ∀ p ∈ sends, streamPacket? p.2 = none
  | .handle _ touched result => Same s touched ∧
      ∀ change logical, result = .ok (change, logical) → Emits s change (outputPackets logical)

theorem sendsStream_ofAction {action : Option CoordinatorAction} (hs : Same s t)
    (ht : ∀ message ∈ EofCoordinator.messagesOf action,
      message.msgType ≠ .data ∧ message.msgType ≠ .eof) : SendsStream s (.ofAction t action) := by
  cases hr : (Reaction.ofAction t action : Reaction FilterQ5UsdState FilterQ5UsdChange) with
  | refuse | skip => trivial
  | direct touched sends =>
    obtain ⟨rfl, hsends⟩ := streamPacket?_ofAction ht hr
    exact ⟨hs, hsends⟩
  | handle key touched result =>
    unfold Reaction.ofAction at hr
    split at hr
    · cases hr
    · split at hr <;> cases hr

/-- A `DATA` message of an open client. -/
theorem emits_dataFn {payload : Bytes} (hopen : c ∉ s.closedByClient)
    (h : cfg.dataFn s c payload = .ok (change, logical)) :
    Emits s change (outputPackets logical) := by
  obtain ⟨transactions, -, h⟩ := Except.ok_of_bind h
  split at h
  · cases h
  · obtain ⟨outputs, ho, h⟩ := Except.ok_of_bind h
    cases h
    obtain ⟨hs, hlen⟩ := stream_dataOutputs ho
    refine emits_stream hopen hs fun c' _ => ?_
    rw [hlen]
    simp [advance, WorkerChange.ops, advanceOp]

/-- The EOFs of a client that is closed with them. -/
theorem emits_close (op : WorkerOp Q5DataChange) (acks : List LogicalOutput) {total : Nat}
    {eofs : List LogicalOutput} (hopen : c ∉ s.closedByClient) (hop : ∀ c', advanceOp c' op = 0)
    (h : cfg.buildEofOutputs s c total = .ok eofs)
    (hacks : ∀ p ∈ outputPackets acks, streamPacket? p.2 = none) :
    Emits s (.compound [op, cfg.eofSeqs c, .close c]) (outputPackets (eofs ++ acks)) := by
  obtain ⟨payload, -, h⟩ := Except.ok_of_bind h
  obtain ⟨hs, -⟩ := stream_shardOutputs (.inr rfl) h
  have hstream : Stream c (s.aggSeq c) (outputPackets (eofs ++ acks)) := by
    rw [outputPackets_append]
    exact hs.append (.of_control hacks)
  refine emits_stream hopen hstream fun c' hc => ?_
  have hne : c ≠ c' := by
    rintro rfl
    exact hc (Finset.mem_insert_self ..)
  simp only [advance, WorkerChange.ops, List.map_cons, List.map_nil, hop]
  simp [advanceOp, eofSeqs, hne]

theorem sendsStream_resumeData {m : Addressed} (hopen : m.clientId ∉ s.closedByClient) :
    SendsStream s (cfg.resumeData s m) :=
  ⟨⟨rfl, rfl⟩, fun _ _ hx => emits_dataFn hopen hx⟩

theorem sendsStream_processDataMessage (cfg : FilterQ5UsdConfig) (s : FilterQ5UsdState)
    (body : Bytes) :
    SendsStream s (cfg.processDataMessage s body) := by
  unfold processDataMessage
  split
  · trivial
  · next m hm =>
    split
    · split
      · trivial
      · next hopen => exact sendsStream_resumeData fun hc => hopen (decide_eq_true hc)
    · unfold handleUpstreamEof
      split
      · trivial
      · next ctrl hctrl =>
        dsimp only
        split
        · trivial
        · next hopen =>
          have hopen : m.clientId ∉ s.closedByClient := fun hc => hopen (decide_eq_true hc)
          refine ⟨⟨rfl, rfl⟩, fun change logical hx => ?_⟩
          unfold upstreamEofFn at hx
          split at hx
          · next queueNames message sleep hact =>
            obtain ⟨outputs, ho, hx⟩ := Except.ok_of_bind hx
            cases hx
            refine emits_control (streamPacket?_actionOutputs ho fun message hmem => ?_) fun c =>
              rfl
            exact EofCoordinator.ne_stream_of_onUpstreamEof (hact ▸ hmem)
          · obtain ⟨outputs, ho, hx⟩ := Except.ok_of_bind hx
            cases hx
            have hclose := emits_close (.coordinatorUpstreamEof m.clientId ctrl.expectedTotal
              (s.processedCount m.clientId) (s.forwardedCount m.clientId)) [] hopen (fun _ => rfl)
              ho (by simp [outputPackets])
            rwa [List.append_nil] at hclose
          · cases hx
            exact emits_control (by simp [outputPackets]) fun c => rfl
    · unfold handleAbort
      split
      · trivial
      · refine ⟨⟨rfl, rfl⟩, fun change logical hx => ?_⟩
        obtain ⟨outputs, ho, hx⟩ := Except.ok_of_bind hx
        cases hx
        exact emits_control (control_downstreamAbortOutputs ho) fun c => rfl
    · trivial

theorem sendsStream_handleControl (cfg : FilterQ5UsdConfig) (s : FilterQ5UsdState) (body : Bytes) :
    SendsStream s (cfg.handleControl s body) := by
  unfold handleControl
  split
  · trivial
  · trivial
  · next msgType clientId ctrl hp =>
    split
    · split
      · trivial
      · have hne := fun message =>
          @EofCoordinator.ne_stream_of_processControlMessage cfg.coordinator
          s.coordinator message clientId (s.processedCount clientId) (s.forwardedCount clientId)
          .eofReceived ctrl
        unfold handleEofReceived
        dsimp only
        refine ⟨⟨rfl, rfl⟩, fun change logical hx => ?_⟩
        split at hx
        · next queueName message hact =>
          obtain ⟨outputs, ho, hx⟩ := Except.ok_of_bind hx
          cases hx
          refine emits_control (streamPacket?_actionOutputs ho fun message hmem => ?_) fun c => rfl
          rw [← hact] at hmem
          exact hne message hmem
        · cases hx
          exact emits_control (by simp [outputPackets]) fun c => rfl
    · split
      · trivial
      · next hopen =>
        have hopen : clientId ∉ s.closedByClient := fun hc => hopen (decide_eq_true hc)
        refine ⟨⟨rfl, rfl⟩, fun change logical hx => ?_⟩
        unfold flushOrderFn at hx
        split at hx
        · cases hx
          refine emits_control (by simp [outputPackets]) fun c => ?_
          simp [advance, WorkerChange.ops, advanceOp]
        · obtain ⟨outputs, ho, hx⟩ := Except.ok_of_bind hx
          obtain ⟨flushAck, hack, hx⟩ := Except.ok_of_bind hx
          cases hx
          refine emits_close _ _ hopen (fun _ => rfl) ho fun p hp => ?_
          obtain rfl := List.mem_singleton.mp hp
          exact streamPacket?_toBytes hack (by rintro ⟨⟩) (by rintro ⟨⟩)
    · split
      · exact ⟨⟨rfl, rfl⟩, by simp⟩
      · exact sendsStream_ofAction ⟨rfl, rfl⟩
          fun message => EofCoordinator.ne_stream_of_processControlMessage
    · exact ⟨⟨rfl, rfl⟩, by simp⟩

theorem sendsStream_handleResponse (cfg : FilterQ5UsdConfig) (s : FilterQ5UsdState) (body : Bytes) :
    SendsStream s (cfg.handleResponse s body) := by
  unfold handleResponse
  split
  · trivial
  · trivial
  · next msgType clientId ctrl hp =>
    dsimp only
    split
    · exact sendsStream_ofAction ⟨rfl, rfl⟩
        fun message => EofCoordinator.ne_stream_of_processControlMessage
    · split
      · trivial
      · next hopen =>
        have hopen : clientId ∉ s.closedByClient := fun hc => hopen (decide_eq_true hc)
        refine ⟨⟨rfl, rfl⟩, fun change logical hx => ?_⟩
        unfold flushAckFn at hx
        dsimp only at hx
        generalize (s.coordinator.flushAcks.getD clientId ∅).card +
          (if ctrl.senderId ∈ s.coordinator.flushAcks.getD clientId ∅ then 0 else 1) = acks at hx
        split at hx
        · cases hx
          exact emits_control (by simp [outputPackets]) fun c => rfl
        · obtain ⟨outputs, ho, hx⟩ := Except.ok_of_bind hx
          cases hx
          have hclose := emits_close (.coordinatorMsg .flushAck clientId ctrl 0 0) [] hopen
            (fun _ => rfl) ho (by simp [outputPackets])
          rwa [List.append_nil] at hclose
    · exact ⟨⟨rfl, rfl⟩, by simp⟩

/-! ## Along the log -/

/-- The packets of a record continue the counts of the log, and a client that stays open advances by
them. -/
def NumberedRecord (front : List (WalRecord FilterQ5UsdChange)) : WalRecord FilterQ5UsdChange → Prop
  | .inputApplied _ _ change outputs =>
    (∀ c, CountsFrom (2 ^ 32) (streamOf c (loggedPackets front)).length
      (streamSeqs c (outputs.map packet))) ∧
    ∀ c ∉ change.closedAfter (closedIn front),
      advance c change = (streamOf c (outputs.map packet)).length
  | .inputDone _ _ => True

variable (cfg) in
/-- The counter of an open client counts the packets of the log. -/
def numbering : LogInvariant cfg.consumer.handler where
  Valid := NumberedRecord
  Holds history s := s.closedByClient = closedIn history ∧
    ∀ c ∉ closedIn history, s.aggSeq c = (streamOf c (loggedPackets history)).length % 2 ^ 32
  fresh := ⟨rfl, fun _ _ => rfl⟩
  applied {history m key change outputs s} _ he h := by
    obtain ⟨hclosed, hseq⟩ := h
    have hrecord : NumberedRecord history (.inputApplied m key change outputs) :=
      he history _ List.prefix_rfl
    change (s.applyChange cfg change).closedByClient = _ ∧
      ∀ c ∉ _, (s.applyChange cfg change).aggSeq c = _
    rw [closedIn_applied, applyChange_closed, hclosed]
    refine ⟨rfl, fun c hc => ?_⟩
    have hopen : c ∉ closedIn history := fun h => hc (change.subset_closedAfter _ h)
    rw [applyChange_aggSeq s change (by rw [hseq c hopen]; exact Nat.mod_lt _ (by decide))
      (by rw [hclosed]; exact hc), hseq c hopen, hrecord.2 c hc, Nat.mod_add_mod,
      loggedPackets_snoc, streamOf_append, List.length_append]
    rfl
  done {history m key s} _ _ h := by
    rw [closedIn_done, loggedPackets_snoc, WalRecord.packets, List.append_nil]
    exact h

/-- The packets of a client count up over the whole log. -/
theorem countsFrom_logged (h : EachRecord NumberedRecord history) (c : Nat) :
    CountsFrom (2 ^ 32) 0 (streamSeqs c (loggedPackets history)) := by
  induction history using List.reverseRecOn with
  | nil => trivial
  | append_singleton history record ih =>
    have hfront := ih (h.of_prefix (List.prefix_append _ _))
    have hrecord := h history record List.prefix_rfl
    rw [loggedPackets_snoc, streamSeqs_append, CountsFrom.append_iff,
      length_streamSeqs, Nat.zero_add]
    refine ⟨hfront, ?_⟩
    cases record with
    | inputApplied m key change outputs => exact hrecord.1 c
    | inputDone m key => trivial

/-! ## Runs -/

/-- A client is closed after all its `DATA`: no `DATA` that is new to the handler finds its client
closed when the rates are loaded. -/
def ClosedAfterData (p : Publisher.State FilterQ5UsdState FilterQ5UsdChange) : Label Delivery → Prop
  | .deliver (.resumed body) _ => ∀ m, unpackAddressedPacket body = .ok m →
      p.node.handler.inbox.classify ⟨m.clientId, .data, m.senderId, m.seq⟩ = .new →
      m.clientId ∉ p.node.handler.workerState.closedByClient
  | _ => True

instance (p : Publisher.State FilterQ5UsdState FilterQ5UsdChange) :
    (l : Label Delivery) → Decidable (ClosedAfterData p l)
  | .deliver (.resumed body) _ =>
    match h : unpackAddressedPacket body with
    | .ok m => decidable_of_iff
        (p.node.handler.inbox.classify ⟨m.clientId, .data, m.senderId, m.seq⟩ = .new →
          m.clientId ∉ p.node.handler.workerState.closedByClient) (by simp [ClosedAfterData, h])
    | .error _ => .isTrue (by simp [ClosedAfterData, h])
  | .deliver (.queue _) _ | .republish _ | .publish .. | .commit .. | .ack _
  | .crash => .isTrue trivial

variable {p p' : Publisher.State FilterQ5UsdState FilterQ5UsdChange} {l : Label Delivery}

variable (cfg) in
/-- What a delivery may do that is in order. -/
theorem sendsStream_react {message : Delivery} {outcome : Outcome}
    (hl : ClosedAfterData p (.deliver message outcome)) :
    SendsStream p.node.handler.workerState (cfg.consumer.react p.node.handler.workerState message) ∨
      ∃ key touched result, cfg.consumer.react p.node.handler.workerState message =
        .handle key touched result ∧ Same p.node.handler.workerState touched ∧
        p.node.handler.inbox.classify key ≠ .new := by
  cases message with
  | queue d =>
    cases d with
    | input body => exact .inl (sendsStream_processDataMessage cfg _ body)
    | control body => exact .inl (sendsStream_handleControl cfg _ body)
    | response body => exact .inl (sendsStream_handleResponse cfg _ body)
  | resumed body =>
    dsimp only [consumer]
    cases hm : unpackAddressedPacket body with
    | error e => exact .inl trivial
    | ok m =>
      dsimp only
      by_cases ht : m.msgType = MessageType.data.toNat
      · rw [if_pos ht]
        by_cases hnew : p.node.handler.inbox.classify ⟨m.clientId, .data, m.senderId, m.seq⟩ = .new
        · exact .inl (sendsStream_resumeData (hl m hm hnew))
        · refine .inr ⟨⟨m.clientId, .data, m.senderId, m.seq⟩, p.node.handler.workerState,
            cfg.dataFn p.node.handler.workerState m.clientId m.payload, rfl, ⟨rfl, rfl⟩, hnew⟩
      · rw [if_neg ht]
        exact .inl trivial

theorem numbering_exec (hi : p.node.Follows (numbering cfg)) (hl : ClosedAfterData p l)
    (he : exec cfg.consumer .raised p l = some p') : p'.node.Follows (numbering cfg) := by
  obtain ⟨hclosed, hseq⟩ := hi.holds
  have hsame : ∀ {t}, Same p.node.handler.workerState t →
      (numbering cfg).Holds p.node.history t := by
    intro t ht
    refine ⟨ht.closed.trans hclosed, fun c hc => (Eq.trans ?_ (hseq c hc))⟩
    rw [FilterQ5UsdState.aggSeq, ht.aggSeq]
    rfl
  refine Publisher.follows_exec hi ?_ ?_ (fun _ => trivial) he
  · rintro message outcome touched sends rfl hr
    rcases sendsStream_react cfg hl with hsends | ⟨key, t, result, hr', -⟩
    · rw [hr] at hsends
      exact hsame hsends.1
    · cases hr.symm.trans hr'
  · rintro message outcome key touched result rfl hr hnew
    rcases sendsStream_react cfg hl with hsends | ⟨key', t, result', hr', -, hold⟩
    · rw [hr] at hsends
      refine ⟨hsame hsends.1, fun change logical outputs hx hstamp => ?_⟩
      have hemits := hsends.2 change logical hx
      have hpackets : outputs.map packet = outputPackets logical := packets_of_stamp rfl hstamp
      change (∀ c, CountsFrom (2 ^ 32) (streamOf c (loggedPackets p.node.history)).length
          (streamSeqs c (outputs.map packet))) ∧
        ∀ c ∉ change.closedAfter (closedIn p.node.history),
          advance c change = (streamOf c (outputs.map packet)).length
      rw [hpackets, ← hclosed]
      refine ⟨fun c => ?_, fun c hc => (hemits c).2 hc⟩
      rcases (hemits c).1 with hnil | ⟨hopen, hcount⟩
      · rw [streamSeqs, hnil]
        trivial
      · refine hcount.congr ?_
        rw [hseq c (hclosed ▸ hopen), Nat.mod_mod]
    · cases hr.symm.trans hr'
      exact absurd hnew hold

theorem numbering_of_reachable (h : Reachable (exec cfg.consumer .raised) ClosedAfterData
    (init cfg.consumer) p) : p.node.Follows (numbering cfg) := by
  induction h with
  | init => exact Node.follows_init
  | step _ hl he ih => exact numbering_exec ih hl he

theorem accounted_of_reachable (h : Reachable (exec cfg.consumer .raised) ClosedAfterData
    (init cfg.consumer) p) :
    Accounted cfg.consumer (fun sent => streamPacket? sent.2 = none) p := by
  refine h.invariant accounted_init fun p l p' hi hl he => hi.exec ?_ he
  rintro message outcome touched sends rfl hr
  rcases sendsStream_react cfg hl with hsends | ⟨key, t, result, hr', -⟩
  · rw [hr] at hsends
    exact hsends.2
  · cases hr.symm.trans hr'

/-- In every run of filter_q5_usd that closes clients after their `DATA`, the numbers of a client
with at most `2 ^ 32` packets are not reused. -/
theorem noReuse_of_reachable (h : Reachable (exec cfg.consumer .raised) ClosedAfterData
    (init cfg.consumer) p) (hlen : (streamOf c (loggedPackets p.node.history)).length ≤ 2 ^ 32) :
    NoReuse c p.published :=
  noReuse_of_countsFrom (accounted_of_reachable h).published
    (countsFrom_logged (numbering_of_reachable h).records c) hlen

end FilterQ5UsdConfig

end MoneyLaundering
