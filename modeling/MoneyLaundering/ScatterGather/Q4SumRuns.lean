import MoneyLaundering.ScatterGather.Q4SumWorker

/-!
# The flush of `q4_sum`

Every run of a worker: the prediction of `would_flush`, the count of `on_eof`, the close of the
client and the inbox stay together. The recorded inputs of a client are silent until the `EOF` that
brings the last upstream worker; that one is bundled with the close and carries the outputs of the
flush, and whatever is recorded after it is silent and finds no record of the client.
-/

namespace MoneyLaundering

open Bytes InternalProtocol

namespace Q4SumWorker

open FanInState Q4SumConfig Runner SenderSequencer

variable (cfg : Q4SumConfig) (c : Nat)

/-! ## The recorded inputs of a client -/

/-- An input that the log applies: its change and its outputs. -/
structure Input where
  key : InputKey
  change : FanInChange
  outputs : List OutboxEntry

/-- The inputs of a client that a history applies, in order. -/
def inputsOf (history : List (WalRecord FanInChange)) : List Input :=
  history.filterMap fun
    | .inputApplied _ key change outputs =>
      if key.clientId = c then some ⟨key, change, outputs⟩ else none
    | .inputDone _ _ => none

/-- The upstream worker that a change counts. -/
def upstreamOf : FanInOp → Option Nat
  | .eof _ upstreamId => some upstreamId
  | _ => none

/-- The upstream workers whose `EOF`s are recorded. -/
def upstreams (inputs : List Input) : Finset Nat :=
  (inputs.flatMap fun i => i.change.ops.filterMap upstreamOf).toFinset

/-- What a change adds to the record of its client. -/
def gather (client : Q4SumClient) : FanInOp → Q4SumClient
  | .data _ payload =>
    match Q4CountedEdge.deserializeBatch ((Base64.decode payload).getD []) with
    | .error _ => client
    | .ok edges => Q4Sum.applyData client edges
  | _ => client

/-- The edges that some inputs have accumulated. -/
def gathered (inputs : List Input) : Q4SumClient :=
  (inputs.flatMap fun i => i.change.ops).foldl gather {}

/-- `DATA`, or an `EOF` alone, without outputs. -/
def Silent (i : Input) : Prop :=
  i.outputs = [] ∧
    ((∃ payload, i.change = .single (.data c payload)) ∨ ∃ upstreamId,
      i.change = .single (.eof c upstreamId))

/-- Upstream workers are missing: nothing was output. -/
structure Waiting (inputs : List Input) : Prop where
  silent : ∀ i ∈ inputs, Silent c i
  fewer : (upstreams inputs).card < cfg.deployment.filterAmount

/-- One input has flushed the client: the `EOF` that brought the last of the upstream workers. Its
change is bundled with the close, and its outputs are those of the edges accumulated before it. -/
structure Flushed (inputs : List Input) (before : List Input) (key : InputKey) (upstreamId : Nat)
    (outputs : List OutboxEntry) (after : List Input) : Prop where
  eq : inputs = before ++ ⟨key, .compound [.eof c upstreamId, .close c], outputs⟩ :: after
  waiting : Waiting cfg c before
  new : upstreamId ∉ upstreams before
  last : (upstreams before).card + 1 = cfg.deployment.filterAmount
  flushes : ∃ logical, cfg.buildFlushOutputs (gathered before) c = .ok logical ∧
    List.Forall₂ (StampedAs cfg.handler.toSequencerConfig c) logical outputs
  after : ∀ i ∈ after, i.outputs = [] ∧ ∃ payload, i.change = .single (.data c payload)

variable {cfg c} {inputs inputs' : List Input} {history : List (WalRecord FanInChange)}

theorem inputsOf_append (history more : List (WalRecord FanInChange)) :
    inputsOf c (history ++ more) = inputsOf c history ++ inputsOf c more := List.filterMap_append

theorem mem_inputsOf {i : Input} :
    i ∈ inputsOf c history ↔
      i.key.clientId = c ∧ ∃ m, .inputApplied m i.key i.change i.outputs ∈ history := by
  simp only [inputsOf, List.mem_filterMap]
  constructor
  · rintro ⟨record, hr, he⟩
    cases record with
    | inputApplied m key change outputs =>
      simp only [Option.ite_none_right_eq_some, Option.some.injEq] at he
      obtain ⟨hc, rfl⟩ := he
      exact ⟨hc, m, hr⟩
    | inputDone m key => cases he
  · rintro ⟨hc, m, hr⟩
    exact ⟨_, hr, if_pos hc⟩

theorem upstreams_append (inputs inputs' : List Input) :
    upstreams (inputs ++ inputs') = upstreams inputs ∪ upstreams inputs' := by
  simp [upstreams]

theorem upstreams_data {key : InputKey} {payload : List Char} {outputs : List OutboxEntry} :
    upstreams [⟨key, .single (.data c payload), outputs⟩] = ∅ := rfl

theorem upstreams_eof {key : InputKey} {upstreamId : Nat} {outputs : List OutboxEntry} :
    upstreams [⟨key, .single (.eof c upstreamId), outputs⟩] = {upstreamId} := rfl

theorem gathered_concat (inputs : List Input) (i : Input) :
    gathered (inputs ++ [i]) = i.change.ops.foldl gather (gathered inputs) := by
  simp [gathered]

/-- The upstream workers of a flushed client. -/
theorem Flushed.card_upstreams {before after : List Input} {key : InputKey} {upstreamId : Nat}
    {outputs : List OutboxEntry} (h : Flushed cfg c inputs before key upstreamId outputs after) :
    (upstreams inputs).card = cfg.deployment.filterAmount := by
  have hafter : upstreams after = ∅ := by
    rw [upstreams, List.toFinset_eq_empty_iff, List.flatMap_eq_nil_iff]
    intro i hi
    obtain ⟨-, payload, hp⟩ := h.after i hi
    rw [hp]
    rfl
  have hflush : upstreams [⟨key, .compound [.eof c upstreamId, .close c], outputs⟩] =
      {upstreamId} := rfl
  rw [h.eq, List.append_cons, upstreams_append, upstreams_append, hafter, hflush,
    Finset.union_empty,
    Finset.union_comm, ← Finset.insert_eq, Finset.card_insert_of_notMem h.new, h.last]

/-! ## The state of a client -/

variable (cfg c) in
/-- The recorded inputs of a client and the state of the worker. -/
inductive Progress (inputs : List Input) (w : Q4SumState) : Prop
  | waiting (h : Waiting cfg c inputs) (isOpen : c ∉ w.closedByClient)
      (counts : c ∉ w.eofCounter.closed)
      (seen : w.eofCounter.seen c = upstreams inputs)
      (client : w.client cfg.stage c = gathered inputs)
  | flushed (before : List Input) (key : InputKey) (upstreamId : Nat) (outputs : List OutboxEntry)
      (after : List Input) (h : Flushed cfg c inputs before key upstreamId outputs after)
      (closed : c ∈ w.closedByClient) (gone : w.byClient.get? c = none)

variable {w w' : Q4SumState}

theorem progress_nil : Progress cfg c [] (FanInState.init cfg.stage) :=
  .waiting ⟨nofun, cfg.deployment.filterAmount_pos⟩ (Finset.notMem_empty c) (Finset.notMem_empty c)
    rfl rfl

theorem Progress.congr (h : Progress cfg c inputs w) (hs : SameFor c w w') :
    Progress cfg c inputs w' := by
  cases h with
  | waiting h isOpen counts seen client =>
    exact .waiting h (fun hc => isOpen (hs.closed.mp hc)) (fun hc =>
      counts (hs.counterClosed.mp hc))
      (hs.seen.trans seen) (hs.client.trans client)
  | flushed before key upstreamId outputs after h closed gone =>
    exact .flushed before key upstreamId outputs after h (hs.closed.mpr closed)
      (hs.record.trans gone)

/-- A batch is accumulated while the client waits, and dropped afterwards. -/
theorem Progress.data (h : Progress cfg c inputs w) (key : InputKey) (payload : Bytes) :
    Progress cfg c (inputs ++ [⟨key, dataChange c payload, []⟩])
    (w.applyChange cfg.stage (dataChange c payload)) := by
  have hups : upstreams (inputs ++ [⟨key, dataChange c payload, []⟩]) = upstreams inputs := by
    rw [upstreams_append, dataChange, upstreams_data, Finset.union_empty]
  cases h with
  | waiting h isOpen counts seen client =>
    have hwait : Waiting cfg c (inputs ++ [⟨key, dataChange c payload, []⟩]) := by
      refine ⟨fun i hi => ?_, hups ▸ h.fewer⟩
      rcases List.mem_append.mp hi with hi | hi
      · exact h.silent i hi
      · cases List.mem_singleton.mp hi
        exact ⟨rfl, .inl ⟨_, rfl⟩⟩
    have hgather : gathered (inputs ++ [⟨key, dataChange c payload, []⟩]) =
        match Q4CountedEdge.deserializeBatch payload with
        | .error _ => gathered inputs
        | .ok edges => Q4Sum.applyData (gathered inputs) edges := by
      rw [gathered_concat]
      change gather _ (.data c (Base64.encode payload)) = _
      rw [gather, Base64.decode_encode]
      rfl
    rw [applyChange_dataChange, if_neg isOpen]
    cases hread : cfg.stage.readBatch payload with
    | error e =>
      refine .waiting hwait isOpen counts (seen.trans hups.symm) ?_
      change Q4CountedEdge.deserializeBatch payload = _ at hread
      rw [hgather, hread]
      exact client
    | ok edges =>
      refine .waiting hwait isOpen counts (seen.trans hups.symm) ?_
      change Q4CountedEdge.deserializeBatch payload = _ at hread
      rw [hgather, hread, FanInState.client, Dict.getD_set, if_pos rfl, client]
      rfl
  | flushed before key' upstreamId outputs after h closed gone =>
    rw [applyChange_dataChange, if_pos closed]
    refine .flushed before key' upstreamId outputs
      (after ++ [⟨key, dataChange c payload, []⟩]) ?_ closed gone
    refine { h with eq := by rw [h.eq]; simp, after := fun i hi => ?_ }
    rcases List.mem_append.mp hi with hi | hi
    · exact h.after i hi
    · cases List.mem_singleton.mp hi
      exact ⟨rfl, _, rfl⟩

/-- What is predicted for an `EOF` of a client that waits. -/
theorem wouldFlush_iff (counts : c ∉ w.eofCounter.closed)
    (seen : w.eofCounter.seen c = upstreams inputs)
    (expected : w.eofCounter.expected = cfg.deployment.filterAmount) (upstreamId : Nat) :
    w.eofCounter.wouldFlush c upstreamId = true ↔
      upstreamId ∉ upstreams inputs ∧ cfg.deployment.filterAmount ≤
        (upstreams inputs).card + 1 := by
  rw [UpstreamEofCounter.wouldFlush, if_neg counts, seen, expected]
  split
  · next h => simp [h]
  · next h => simp [h]

/-- An `EOF` of a client that waits is counted, and flushes it when it brings the last worker. -/
theorem Progress.eof (h : Progress cfg c inputs w) (isOpen : c ∉ w.closedByClient)
    (expected : w.eofCounter.expected = cfg.deployment.filterAmount) {key : InputKey}
    {upstreamId : Nat}
    {change : FanInChange} {logical : List LogicalOutput} {outputs : List OutboxEntry}
    (hresult : cfg.eofBusiness c upstreamId (w.eofCounter.wouldFlush c upstreamId) w =
      .ok (change, logical))
    (hstamp : List.Forall₂ (StampedAs cfg.handler.toSequencerConfig c) logical outputs) :
    Progress cfg c (inputs ++ [⟨key, change, outputs⟩]) (w.applyChange cfg.stage change) := by
  cases h with
  | flushed before key' upstreamId' outputs' after h closed gone => exact absurd closed isOpen
  | waiting h _ counts seen client =>
    unfold eofBusiness at hresult
    split at hresult
    · next hflush =>
      -- the last upstream worker
      obtain ⟨hnew, hle⟩ := (wouldFlush_iff counts seen expected upstreamId).mp hflush
      obtain ⟨logical', hbuild, hresult⟩ := Except.ok_of_bind hresult
      cases hresult
      rw [client] at hbuild
      refine .flushed inputs key upstreamId outputs [] ⟨rfl, h, hnew, ?_,
        ⟨_, hbuild, hstamp⟩, nofun⟩
        (Finset.mem_insert_self ..) ?_
      · have := h.fewer
        omega
      · change (w.byClient.erase c).get? c = none
        rw [Dict.get?_erase, if_pos rfl]
    · next hmore =>
      cases hresult
      cases hstamp
      have hups : upstreams (inputs ++ [⟨key, .single (.eof c upstreamId), []⟩]) =
          insert upstreamId (upstreams inputs) := by
        rw [upstreams_append, upstreams_eof, Finset.union_comm, ← Finset.insert_eq]
      refine .waiting ⟨fun i hi => ?_, ?_⟩ isOpen (by
        change c ∉ (w.eofCounter.onEof c upstreamId).1.closed
        simpa using counts) ?_ ?_
      · rcases List.mem_append.mp hi with hi | hi
        · exact h.silent i hi
        · cases List.mem_singleton.mp hi
          exact ⟨rfl, .inr ⟨_, rfl⟩⟩
      · rw [hups]
        by_cases hmem : upstreamId ∈ upstreams inputs
        · rw [Finset.insert_eq_of_mem hmem]
          exact h.fewer
        · rw [Finset.card_insert_of_notMem hmem]
          exact Nat.lt_of_not_le fun hle =>
            hmore ((wouldFlush_iff counts seen expected upstreamId).mpr ⟨hmem, hle⟩)
      · change (w.eofCounter.onEof c upstreamId).1.seen c = _
        rw [UpstreamEofCounter.seen_onEof counts, if_pos rfl, seen, hups]
      · rw [gathered_concat]
        exact client

/-- When the client is closed, all upstream workers are recorded. -/
theorem Progress.card_of_closed (h : Progress cfg c inputs w) (hc : c ∈ w.closedByClient) :
    (upstreams inputs).card = cfg.deployment.filterAmount := by
  cases h with
  | waiting _ isOpen => exact absurd hc isOpen
  | flushed _ _ _ _ _ h => exact h.card_upstreams

/-! ## The environment -/

variable (c) in
/-- What the `q4_filter` workers send a worker for a client: the coordinates are distinct, an `EOF`
names its sender, and it comes after the sender's `DATA`. -/
structure Upstream where
  sent : List Addressed
  client : ∀ m ∈ sent, m.clientId = c
  kind : ∀ m ∈ sent, m.msgType = MessageType.data.toNat ∨ m.msgType = MessageType.eof.toNat
  keys : ∀ m ∈ sent, ∀ m' ∈ sent, inputOf m = inputOf m' → m = m'
  names : ∀ m ∈ sent, m.msgType = MessageType.eof.toNat →
    ∃ ctrl, ControlMessage.deserialize m.payload = .ok ctrl ∧ ctrl.senderId = m.senderId
  ends : ∀ m ∈ sent, ∀ m' ∈ sent, m.msgType = MessageType.eof.toNat →
    m'.msgType = MessageType.data.toNat → m'.senderId = m.senderId → m'.seq < m.seq

/-- A packet is one that the `q4_filter` workers send: for the client one of those in `sent`, and a
batch that can be read for any client. -/
def Sends (up : Upstream c) (raw : Bytes) : Prop :=
  ∀ m ∈ (unpackAddressedPacket raw).toOption, (m.clientId = c → m ∈ up.sent) ∧
    (m.msgType = MessageType.data.toNat → (Q4CountedEdge.deserializeBatch m.payload).isOk = true)

instance (up : Upstream c) (raw : Bytes) : Decidable (Sends up raw) :=
  inferInstanceAs (Decidable (∀ m ∈ _, _))

/-- The messages that are delivered are those that are sent, any number of times and in any
order. -/
def Delivers (up : Upstream c) (_ : State) : Label → Prop
  | .deliver raw _ => Sends up raw
  | .commit .. | .crash => True

instance (up : Upstream c) (s : State) : (l : Label) → Decidable (Delivers up s l)
  | .deliver raw _ => inferInstanceAs (Decidable (Sends up raw))
  | .commit .. | .crash => .isTrue trivial

/-- The first byte of a packet is its type. -/
theorem msgType_of_unpack {b : UInt8} {rest : Bytes} {m : Addressed}
    (h : unpackAddressedPacket (b :: rest) = .ok m) : m.msgType = b.toNat := by
  obtain ⟨-, h⟩ := Except.ok_of_raiseIf h
  cases h
  simp [beDecode]

/-- Only an `EOF` of a closed client is acked without being handled. -/
theorem closed_of_skip {h : Handler Q4SumState} {raw : Bytes} {m : Addressed} {upstreamId : Nat}
    (he : cfg.onMessage h raw = .skip) (hr : readEof raw = .ok (m, upstreamId)) :
    m.clientId ∈ h.workerState.closedByClient := by
  have hprocess : cfg.process raw ≠ .skip := by
    unfold process
    split <;> nofun
  unfold onMessage at he
  split at he
  · cases he
  · split at he
    · exact absurd he hprocess
    · exact absurd he hprocess
    · rw [handleEof, hr] at he
      dsimp only at he
      split_ifs at he with hclosed
      exact of_decide_eq_true hclosed.1
    · cases he

/-- What a message leads to `handle` with. -/
inductive Calls (h : Handler Q4SumState) (raw : Bytes) (m : Addressed) :
    InputKey → BusinessFn Q4SumState FanInChange → Prop
  | data (ht : m.msgType = MessageType.data.toNat) :
    Calls h raw m (inputOf m) (dataProcessPayload m.clientId m.payload)
  | abort (ht : m.msgType = MessageType.abort.toNat) :
    Calls h raw m ⟨m.clientId, .abort, m.senderId, m.seq⟩ (cfg.abortFn m.clientId)
  | eof (ht : m.msgType = MessageType.eof.toNat) (upstreamId : Nat)
      (hr : readEof raw = .ok (m, upstreamId))
    (hopen : m.clientId ∈ h.workerState.closedByClient → h.inbox.classify (inputOf m) = .applied) :
    Calls h raw m (inputOf m)
      (cfg.eofBusiness m.clientId upstreamId
        (h.workerState.eofCounter.wouldFlush m.clientId upstreamId))

theorem calls_of_onMessage {h : Handler Q4SumState} {raw : Bytes} {key : InputKey}
    {businessFn : BusinessFn Q4SumState FanInChange}
    (he : cfg.onMessage h raw = .handle key businessFn) :
    ∃ m, unpackAddressedPacket raw = .ok m ∧ @Calls cfg h raw m key businessFn := by
  unfold onMessage at he
  split at he
  · cases he
  · next b rest =>
    split at he
    · next ht =>
      unfold process callFor at he
      cases hu : unpackAddressedPacket (b :: rest) with
      | error e =>
        rw [hu] at he
        cases he
      | ok m =>
        have htype := (msgType_of_unpack hu).trans (MessageType.toNat_of_ofNat? ht).symm
        rw [hu] at he
        dsimp only at he
        rw [if_neg (by rw [htype]; decide)] at he
        cases he
        exact ⟨m, rfl, .data htype⟩
    · next ht =>
      unfold process callFor at he
      cases hu : unpackAddressedPacket (b :: rest) with
      | error e =>
        rw [hu] at he
        cases he
      | ok m =>
        have htype := (msgType_of_unpack hu).trans (MessageType.toNat_of_ofNat? ht).symm
        rw [hu] at he
        dsimp only at he
        rw [if_pos htype] at he
        cases he
        exact ⟨m, rfl, .abort htype⟩
    · next ht =>
      unfold handleEof at he
      split at he
      · cases he
      · next m upstreamId hr =>
        have hu : unpackAddressedPacket (b :: rest) = .ok m := by
          obtain ⟨m', hu, hr⟩ := Except.ok_of_bind hr
          obtain ⟨ctrl, -, hr⟩ := Except.ok_of_bind hr
          cases hr
          exact hu
        split_ifs at he with hskip
        cases he
        refine ⟨m, hu, .eof ((msgType_of_unpack hu).trans (MessageType.toNat_of_ofNat? ht).symm)
          upstreamId hr ?_⟩
        intro hclosed
        by_contra happlied
        exact hskip ⟨decide_eq_true hclosed, happlied⟩
    · cases he

theorem mem_eofOf {raw : Bytes} {x : Nat × Nat} (hx : x ∈ eofOf raw) :
    ∃ m, readEof raw = .ok (m, x.2) ∧ unpackAddressedPacket raw = .ok m ∧ m.clientId = x.1 ∧
      m.msgType = MessageType.eof.toNat := by
  unfold eofOf at hx
  split at hx
  · cases hx
  · next b rest =>
    split_ifs at hx with ht
    · split at hx
      · next m upstreamId hr =>
        cases List.mem_singleton.mp hx
        have hu : unpackAddressedPacket (b :: rest) = .ok m := by
          obtain ⟨m', hu, hr⟩ := Except.ok_of_bind hr
          obtain ⟨ctrl, -, hr⟩ := Except.ok_of_bind hr
          cases hr
          exact hu
        exact ⟨m, hr, hu, rfl, (msgType_of_unpack hu).trans ht⟩
      · cases hx
    · cases hx

/-! ## The invariant of the node -/

variable (cfg) in
/-- What memory and log say about the client, and which messages of its upstream they come from. -/
structure NodeInv (up : Upstream c) (n : Node Q4SumState Q4SumState FanInChange) : Prop where
  node : n.Inv cfg.handler (.whole cfg.handler.worker)
  expected : n.handler.workerState.eofCounter.expected = cfg.deployment.filterAmount
  progress : Progress cfg c (inputsOf c n.history) n.handler.workerState
  sources : ∀ i ∈ inputsOf c n.history, ∃ m ∈ up.sent, inputOf m = i.key ∧
    (m.msgType = MessageType.eof.toNat → m.senderId ∈ upstreams (inputsOf c n.history))
  done : ∀ m key, .inputDone m key ∈ n.history → appliedRecords n.history key ≠ []

variable {up : Upstream c} {n n' : Node Q4SumState Q4SumState FanInChange} {key : InputKey}

theorem nodeInv_init : NodeInv cfg up (Node.init cfg.handler) where
  node := Node.inv_init
  expected := rfl
  progress := progress_nil
  sources := by simp [Node.init, inputsOf]
  done := by simp [Node.init]

/-- A call that records nothing. -/
theorem NodeInv.of_history_eq (h : NodeInv cfg up n)
    (hi : n'.Inv cfg.handler (.whole cfg.handler.worker))
    (hh : n'.history = n.history) : NodeInv cfg up n' := by
  have hs : n'.handler.workerState = n.handler.workerState := by
    have h₁ := hi.workerState
    have h₂ := h.node.workerState
    rw [hh, ← h₂] at h₁
    exact h₁
  refine ⟨hi, ?_, ?_, ?_, ?_⟩
  · rw [hs]
    exact h.expected
  · rw [hh, hs]
    exact h.progress
  · rw [hh]
    exact h.sources
  · rw [hh]
    exact h.done

/-- The end of an input is recorded. -/
theorem NodeInv.append_done (h : NodeInv cfg up n)
    (hi : n'.Inv cfg.handler (.whole cfg.handler.worker)) (hk : appliedRecords n.history key ≠ [])
    (hh : n'.history = n.history ++ [.inputDone (cfg.handler.msgId key) key]) :
    NodeInv cfg up n' := by
  have hstate := congrArg HandlerState.workerState (h.node.applyOnce_of_append hi hh)
  have hinputs : inputsOf c n'.history = inputsOf c n.history := by
    rw [hh, inputsOf_append]
    exact List.append_nil _
  change n'.handler.workerState = n.handler.workerState at hstate
  refine ⟨hi, ?_, ?_, ?_, fun m key' hm => ?_⟩
  · rw [hstate]
    exact h.expected
  · rw [hinputs, hstate]
    exact h.progress
  · rw [hinputs]
    exact h.sources
  · rw [hh] at hm ⊢
    rw [appliedRecords_append]
    refine List.append_ne_nil_of_left_ne_nil ?_ _
    rcases List.mem_append.mp hm with hm | hm
    · exact h.done m key' hm
    · cases List.mem_singleton.mp hm
      exact hk

/-- The change of an input is about its client. -/
theorem Calls.clientId {h : Handler Q4SumState} {raw : Bytes} {m : Addressed}
    {businessFn : BusinessFn Q4SumState FanInChange} (hc : @Calls cfg h raw m key businessFn) :
    key.clientId = m.clientId ∧ ∀ s change logical, businessFn s = .ok (change, logical) →
      ∀ op ∈ change.ops, op.clientId = m.clientId := by
  cases hc with
  | data ht =>
    refine ⟨rfl, fun s change logical hr op hop => ?_⟩
    cases hr
    cases List.mem_singleton.mp hop
    rfl
  | abort ht =>
    refine ⟨rfl, fun s change logical hr op hop => ?_⟩
    obtain ⟨outputs, -, hr⟩ := Except.ok_of_bind hr
    cases hr
    cases List.mem_singleton.mp hop
    rfl
  | eof ht upstreamId hread hopen =>
    refine ⟨rfl, fun s change logical hr op hop => ?_⟩
    unfold eofBusiness at hr
    split at hr
    · obtain ⟨outputs, -, hr⟩ := Except.ok_of_bind hr
      cases hr
      rcases List.mem_cons.mp hop with rfl | hop
      · rfl
      · cases List.mem_singleton.mp hop
        rfl
    · cases hr
      cases List.mem_singleton.mp hop
      rfl

/-- The `EOF` of a message names its sender. -/
theorem Upstream.sender_of_readEof (up : Upstream c) {raw : Bytes} {m : Addressed}
    {upstreamId : Nat}
    (hm : m ∈ up.sent) (ht : m.msgType = MessageType.eof.toNat)
    (hr : readEof raw = .ok (m, upstreamId)) :
    upstreamId = m.senderId := by
  obtain ⟨ctrl, hctrl, hname⟩ := up.names m hm ht
  obtain ⟨m', -, hr⟩ := Except.ok_of_bind hr
  obtain ⟨ctrl', hctrl', hr⟩ := Except.ok_of_bind hr
  cases hr
  rw [hctrl] at hctrl'
  cases hctrl'
  exact hname

/-- A message is recorded. -/
theorem NodeInv.append_applied (h : NodeInv cfg up n)
    (hi : n'.Inv cfg.handler (.whole cfg.handler.worker))
    {raw : Bytes} {m : Addressed} {businessFn : BusinessFn Q4SumState FanInChange}
    (hs : Sends up raw)
    (hu : unpackAddressedPacket raw = .ok m) (hcalls : @Calls cfg n.handler raw m key businessFn)
    {record : WalRecord FanInChange}
    (ha : Appends cfg.handler n.handler (.handle key businessFn) record)
    (hh : n'.history = n.history ++ [record]) : NodeInv cfg up n' := by
  have hstate := congrArg HandlerState.workerState (h.node.applyOnce_of_append hi hh)
  obtain ⟨hnew, change, logical, outputs, hresult, hstamp, rfl⟩ := ha
  change n'.handler.workerState = n.handler.workerState.applyChange cfg.stage change at hstate
  obtain ⟨hkey, hops⟩ := hcalls.clientId
  have hdone : ∀ m' key', .inputDone m' key' ∈ n'.history →
      appliedRecords n'.history key' ≠ [] := by
    intro m' key' hm
    rw [hh] at hm ⊢
    rw [appliedRecords_append]
    refine List.append_ne_nil_of_left_ne_nil (h.done m' key' ?_) _
    exact (List.mem_append.mp hm).resolve_right (by simp)
  have hexpected : n'.handler.workerState.eofCounter.expected = cfg.deployment.filterAmount := by
    rw [hstate, expected_applyChange]
    exact h.expected
  by_cases hc : m.clientId = c
  · -- a message of the client
    have hm : m ∈ up.sent := (hs m (by rw [hu]; rfl)).1 hc
    have hinputs : inputsOf c n'.history = inputsOf c n.history ++ [⟨key, change, outputs⟩] := by
      rw [hh, inputsOf_append]
      congr 1
      simp [inputsOf, hkey, hc]
    have hstamped := forall₂_of_stamp hstamp
    rw [hkey, hc] at hstamped
    have hinput : inputOf m = key ∧
        (m.msgType = MessageType.eof.toNat → m.senderId ∈ upstreams [⟨key, change, outputs⟩]) ∧
        Progress cfg c (inputsOf c n'.history) n'.handler.workerState := by
      rw [hinputs, hstate]
      cases hcalls with
      | data ht =>
        cases hresult
        cases hstamped
        refine ⟨rfl, fun he => absurd (ht.symm.trans he) (by decide), ?_⟩
        rw [hc]
        exact h.progress.data _ _
      | abort ht =>
        rcases up.kind m hm with hk | hk
        · exact absurd (ht.symm.trans hk) (by decide)
        · exact absurd (ht.symm.trans hk) (by decide)
      | eof ht upstreamId hr hopen =>
        rw [hc] at hresult hopen
        have hisOpen : c ∉ n.handler.workerState.closedByClient := by
          intro hclosed
          rw [hopen hclosed] at hnew
          cases hnew
        refine ⟨rfl, fun _ => ?_, h.progress.eof hisOpen h.expected hresult hstamped⟩
        rw [← up.sender_of_readEof hm ht hr]
        unfold eofBusiness at hresult
        split at hresult
        · obtain ⟨_, -, hresult⟩ := Except.ok_of_bind hresult
          cases hresult
          exact Finset.mem_singleton_self upstreamId
        · cases hresult
          exact Finset.mem_singleton_self upstreamId
    obtain ⟨hkm, hup, hprogress⟩ := hinput
    refine ⟨hi, hexpected, hprogress, fun i hmem => ?_, hdone⟩
    rw [hinputs, upstreams_append]
    rw [hinputs] at hmem
    rcases List.mem_append.mp hmem with hmem | hmem
    · obtain ⟨m', hm', hk', he⟩ := h.sources i hmem
      exact ⟨m', hm', hk', fun ht => Finset.mem_union_left _ (he ht)⟩
    · cases List.mem_singleton.mp hmem
      exact ⟨m, hm, hkm, fun ht => Finset.mem_union_right _ (hup ht)⟩
  · -- a message of another client
    have hinputs : inputsOf c n'.history = inputsOf c n.history := by
      rw [hh, inputsOf_append]
      refine (congrArg _ ?_).trans (List.append_nil _)
      simp [inputsOf, hkey, hc]
    have hsame : SameFor c n.handler.workerState n'.handler.workerState :=
      hstate ▸ sameFor_applyChange _ fun op hop he => hc ((hops _ _ _ hresult op hop).symm.trans he)
    refine ⟨hi, hexpected, ?_, ?_, hdone⟩
    · rw [hinputs]
      exact h.progress.congr hsame
    · rw [hinputs]
      exact h.sources

/-! ## Inputs that are taken -/

theorem mem_appliedRecords_ne_nil {m : String} {change : FanInChange} {outputs : List OutboxEntry}
    (hm : .inputApplied m key change outputs ∈ history) : appliedRecords history key ≠ [] :=
  List.ne_nil_of_mem (mem_appliedRecords.mpr ⟨hm, m, change, outputs, rfl⟩)

/-- An `EOF` is counted when it is recorded, or anything after it on its channel is. -/
theorem NodeInv.counted (h : NodeInv cfg up n) {m : Addressed} (hm : m ∈ up.sent)
    (ht : m.msgType = MessageType.eof.toNat) {seq : Nat} (hle : m.seq ≤ seq)
    (hrec : appliedRecords n.history { inputOf m with seq } ≠ []) :
    m.senderId ∈ upstreams (inputsOf c n.history) := by
  obtain ⟨record, hrecord⟩ := List.exists_mem_of_ne_nil _ hrec
  obtain ⟨hmem, m', change, outputs, rfl⟩ := mem_appliedRecords.mp hrecord
  obtain ⟨m₁, hm₁, hkey, hcounted⟩ := h.sources ⟨{ inputOf m with seq }, change, outputs⟩
    (mem_inputsOf.mpr ⟨up.client m hm, m', hmem⟩)
  have hsender : m₁.senderId = m.senderId := congrArg InputKey.senderId hkey
  have hseq : m₁.seq = seq := congrArg InputKey.seq hkey
  rcases up.kind m₁ hm₁ with hk | hk
  · -- no batch comes after the `EOF` of its sender
    have hlt := up.ends m hm m₁ hm₁ ht hk hsender
    omega
  · rw [← hsender]
    exact hcounted hk

/-- An `EOF` that `handle` takes is counted. -/
theorem NodeInv.counted_of_effect {write : Except String PUnit} {m : Addressed}
    {businessFn : BusinessFn Q4SumState FanInChange}
    {effect : Handler.Effect Q4SumState Q4SumState FanInChange}
    (h : NodeInv cfg up n)
    (h' : NodeInv cfg up (n.call cfg.handler write (.handle (inputOf m) businessFn)))
    (hm : m ∈ up.sent) (ht : m.msgType = MessageType.eof.toNat)
    (he : n.effect cfg.handler write (.handle (inputOf m) businessFn) = .ok effect) :
    m.senderId ∈ upstreams
      (inputsOf c (n.call cfg.handler write (.handle (inputOf m) businessFn)).history) := by
  rcases Node.handle_cases he with ⟨hdone, -, hh⟩ | ⟨change, outputs, -, hh⟩ | ⟨happ, -, hh⟩
  · rw [h.node.inbox] at hdone
    obtain ⟨seq, hle, m', hd⟩ := exists_done_of_classify_done hdone
    rw [hh]
    exact h.counted hm ht hle (h.done m' _ hd)
  · refine h'.counted hm ht (le_refl m.seq) ?_
    rw [hh]
    exact mem_appliedRecords_ne_nil (List.mem_append_right _ List.mem_cons_self)
  · rw [h.node.inbox, Inbox.classify_eq_applied_iff] at happ
    obtain ⟨change, outputs, hrec, -⟩ := h.node.admissible.inFlight happ
    rw [hh]
    exact h.counted hm ht (le_refl m.seq) (mem_appliedRecords_ne_nil hrec)

/-! ## What is issued -/

/-- What an instruction hands out is recorded. -/
theorem belongs_of_effect (h : n.Inv cfg.handler (.whole cfg.handler.worker))
    {cl : Call Q4SumState FanInChange} {write : Except String PUnit}
    {effect : Handler.Effect Q4SumState Q4SumState FanInChange}
    (he : n.effect cfg.handler write cl = .ok effect)
    {x : Nat × String × OutboxEntry} (hx : x ∈ issuedBy effect.instruction) :
    Belongs (n.call cfg.handler write cl).history x.1 x.2.1 x.2.2 := by
  cases cl with
  | handle key businessFn =>
    rcases Node.handle_cases he with ⟨-, hi, -⟩ | ⟨change, outputs, hi, hh⟩ | ⟨happ, hi, hh⟩
    · rw [hi] at hx
      cases hx
    · rw [hi] at hx
      obtain ⟨entry, hentry, rfl⟩ := List.mem_map.mp hx
      rw [hh]
      exact ⟨key, change, outputs, rfl, rfl, List.mem_append_right _ List.mem_cons_self, hentry⟩
    · rw [hi] at hx
      obtain ⟨entry, hentry, rfl⟩ := List.mem_map.mp hx
      rw [h.inbox, Inbox.classify_eq_applied_iff] at happ
      obtain ⟨change, outputs, hrec, hl⟩ := h.admissible.inFlight happ
      rw [Outbox.entriesForInput_eq, h.outbox, hl] at hentry
      rw [hh]
      exact ⟨key, change, outputs, rfl, rfl, hrec, hentry⟩
  | commitDone key =>
    obtain ⟨bytes, -, he⟩ := Except.ok_of_bind he
    cases he
    dsimp only [Handler.maybeSnapshot] at hx
    split at hx <;> cases hx
  | snapshotNow =>
    cases he
    cases hx

/-- What a recovery hands out is recorded. -/
theorem belongs_of_pending (h : n.Inv cfg.handler (.whole cfg.handler.worker))
    {x : Nat × String × OutboxEntry}
    (hx : x ∈ labelledPending n.handler.outbox) : Belongs n.history x.1 x.2.1 x.2.2 := by
  simp only [labelledPending, List.mem_flatMap, List.mem_map, Prod.exists] at hx
  obtain ⟨clientId, inputs, hc, m, es, hm, e, he, rfl⟩ := hx
  have hl : n.handler.outbox.lookup clientId m = some es := by
    rw [Outbox.lookup, Dict.getD, Dict.mem_entries_iff.mp hc, Option.getD_some,
      Dict.mem_entries_iff.mp hm]
  rw [h.outbox] at hl
  obtain ⟨key, change, rfl, rfl, hrec⟩ := h.admissible.lookup hl
  exact ⟨key, change, es, rfl, rfl, hrec, he⟩

/-! ## The invariant of a run -/

variable (cfg) in
/-- The log, what was issued, and the `EOF`s that were taken. -/
structure RunInv (up : Upstream c) (s : State) : Prop where
  node : NodeInv cfg up s.node
  issued : ∀ x ∈ s.issued, Belongs s.node.history x.1 x.2.1 x.2.2
  taken : ∀ x ∈ s.taken, x.1 = c → x.2 ∈ upstreams (inputsOf c s.node.history) ∨
    cfg.deployment.filterAmount ≤ (upstreams (inputsOf c s.node.history)).card

variable {s s' : State}

theorem upstreams_mono (hp : n.history <+: n'.history) :
    upstreams (inputsOf c n.history) ⊆ upstreams (inputsOf c n'.history) := by
  obtain ⟨more, hmore⟩ := hp
  rw [← hmore, inputsOf_append, upstreams_append]
  exact Finset.subset_union_left

/-- A call of the durable handler. -/
theorem RunInv.call (h : RunInv cfg up s) {cl : Call Q4SumState FanInChange} {outcome : Outcome}
    {taken : List (Nat × Nat)}
    (happend : ∀ n' record, n'.Inv cfg.handler (.whole cfg.handler.worker) →
      Appends cfg.handler s.node.handler cl record → n'.history = s.node.history ++ [record] →
        NodeInv cfg up n')
    (htaken : ∀ write effect, s.node.effect cfg.handler write cl = .ok effect →
      NodeInv cfg up (s.node.call cfg.handler write cl) → ∀ x ∈ taken, x.1 = c →
      x.2 ∈ upstreams (inputsOf c (s.node.call cfg.handler write cl).history))
    (he : call cfg s cl outcome taken = some s') : RunInv cfg up s' := by
  obtain ⟨n', hn, hi, hh⟩ := h.node.node.outcome cl outcome
  have hnode : NodeInv cfg up n' := by
    rcases hh with hh | ⟨record, ha, hh⟩
    · exact h.node.of_history_eq hi hh
    · exact happend n' record hi ha hh
  have hgrows : s.node.history <+: n'.history := by
    rcases hh with hh | ⟨record, -, hh⟩
    · rw [hh]
    · exact hh ▸ List.prefix_append _ _
  have hissued : ∀ x ∈ s.issued, Belongs n'.history x.1 x.2.1 x.2.2 := by
    intro x hx
    obtain ⟨more, hmore⟩ := hgrows
    exact hmore ▸ (h.issued x hx).append more
  have hold : ∀ x ∈ s.taken, x.1 = c → x.2 ∈ upstreams (inputsOf c n'.history) ∨
      cfg.deployment.filterAmount ≤ (upstreams (inputsOf c n'.history)).card := by
    intro x hx hc
    have hsub := upstreams_mono (c := c) hgrows
    exact (h.taken x hx hc).imp (fun hm => hsub hm) fun hle => hle.trans (Finset.card_le_card hsub)
  unfold Q4SumWorker.call at he
  rw [hn] at he
  dsimp only at he
  split at he
  · -- a crash: what the outbox holds is published again
    cases he
    refine ⟨hnode, fun x hx => ?_, hold⟩
    rcases List.mem_append.mp hx with hx | hx
    · exact hissued x hx
    · exact belongs_of_pending hi hx
  · next hlive =>
    have hcall : n' = s.node.call cfg.handler outcome.write cl := by
      cases outcome with
      | returns | appendFails =>
        cases hn
        rfl
      | crashes steps => exact absurd rfl (hlive steps)
    split at he
    · cases he
      exact ⟨hnode, hissued, hold⟩
    · next effect heff =>
      cases he
      refine ⟨hnode, fun x hx => ?_, fun x hx hc => ?_⟩
      · rcases List.mem_append.mp hx with hx | hx
        · exact hissued x hx
        · have hb := belongs_of_effect h.node.node heff hx
          rw [← hcall] at hb
          exact hb
      · rcases List.mem_append.mp hx with hx | hx
        · exact hold x hx hc
        · have hcounted := htaken _ effect heff (hcall ▸ hnode) x hx hc
          rw [← hcall] at hcounted
          exact .inl hcounted

/-- Every step keeps the invariant. -/
theorem RunInv.exec (h : RunInv cfg up s) {l : Label} (hl : Delivers up s l)
    (he : Q4SumWorker.exec cfg s l = some s') : RunInv cfg up s' := by
  cases l with
  | deliver raw outcome =>
    have hs : Sends up raw := hl
    dsimp only [Q4SumWorker.exec] at he
    split at he
    · cases he
      exact h
    · next hskip =>
      cases he
      refine ⟨h.node, h.issued, fun x hx hc => ?_⟩
      rcases List.mem_append.mp hx with hx | hx
      · exact h.taken x hx hc
      · obtain ⟨m, hr, -, hmc, -⟩ := mem_eofOf hx
        have hclosed := closed_of_skip hskip hr
        rw [hmc, hc] at hclosed
        exact .inr (h.node.progress.card_of_closed hclosed).ge
    · next key businessFn hmsg =>
      obtain ⟨m, hu, hcalls⟩ := calls_of_onMessage hmsg
      refine h.call (fun n' record hi ha hh => h.node.append_applied hi hs hu hcalls ha hh) ?_ he
      intro write effect heff hnode x hx hc
      obtain ⟨m', hr, hu', hmc, ht⟩ := mem_eofOf hx
      cases hu.symm.trans hu'
      have hm : m ∈ up.sent := (hs m (by rw [hu]; rfl)).1 (hmc.trans hc)
      rw [up.sender_of_readEof hm ht hr]
      cases hcalls with
      | data ht' => exact absurd (ht'.symm.trans ht) (by decide)
      | abort ht' => exact absurd (ht'.symm.trans ht) (by decide)
      | eof ht' upstreamId hr' hopen => exact h.node.counted_of_effect hnode hm ht heff
  | commit key outcome =>
    dsimp only [Q4SumWorker.exec] at he
    split_ifs at he with hk
    refine h.call (fun n' record hi ha hh => ?_) (fun _ _ _ _ x hx => absurd hx List.not_mem_nil) he
    cases ha
    exact h.node.append_done hi hk hh
  | crash =>
    exact h.call (fun n' record hi ha hh => absurd ha id) (fun _ _ _ _ x hx =>
      absurd hx List.not_mem_nil) he

theorem runInv_init : RunInv cfg up (init cfg) where
  node := nodeInv_init
  issued := by simp [init]
  taken := by simp [init]

theorem runInv_of_reachable (h : Transition.Reachable (exec cfg) (Delivers up) (init cfg) s) :
    RunInv cfg up s :=
  h.invariant runInv_init fun _ _ _ hi hl he => hi.exec hl he

/-! ## The flush happens once -/

variable (cfg c) in
/-- The flush of a client is decided by the upstream workers whose `EOF`s were taken. -/
structure FlushedOnce (s : State) : Prop where
  /-- the prediction is what `on_eof` returns -/
  predicted : ∀ clientId upstreamId,
    s.node.handler.workerState.eofCounter.wouldFlush clientId upstreamId =
    (s.node.handler.workerState.eofCounter.onEof clientId upstreamId).2
  /-- nothing is output while workers are missing; afterwards one input has flushed the client, all
  that was issued is its outputs, and the client is closed and has no edges -/
  decided :
    (Waiting cfg c (inputsOf c s.node.history) ∧ c ∉ s.node.handler.workerState.closedByClient ∧
      ∀ x ∈ s.issued, x.1 ≠ c) ∨
    ∃ before key upstreamId outputs after,
      Flushed cfg c (inputsOf c s.node.history) before key upstreamId outputs after ∧
      c ∈ s.node.handler.workerState.closedByClient ∧
      s.node.handler.workerState.byClient.get? c = none ∧
      ∀ x ∈ s.issued, x.1 = c → x.2.1 = cfg.handler.msgId key ∧ x.2.2 ∈ outputs
  /-- with `EOF`s of all the workers taken, the client is flushed -/
  complete : cfg.deployment.filterAmount ≤ ((s.taken.filter (·.1 = c)).map Prod.snd).toFinset.card →
    c ∈ s.node.handler.workerState.closedByClient

/-- An output of a silent input does not exist. -/
theorem not_belongs_of_silent {clientId : Nat} {m : String} {entry : OutboxEntry}
    (hsilent : ∀ i ∈ inputsOf clientId history, i.outputs = []) :
    ¬ Belongs history clientId m entry := by
  rintro ⟨key, change, outputs, rfl, rfl, hm, he⟩
  have hnil := hsilent ⟨key, change, outputs⟩ (mem_inputsOf.mpr ⟨rfl, _, hm⟩)
  rw [show outputs = [] from hnil] at he
  cases he

/-- **Fan-in flush.** In every run of a worker, whatever the order and the redeliveries of the
messages, the failed appends and the crashes, one `EOF` flushes the client, the one that brings the
last of the upstream workers; no other input of the client outputs anything, and none after it
changes its edges. -/
theorem flush_exactly_once (cfg : Q4SumConfig) (c : Nat) (up : Upstream c) {s : State}
    (h : Transition.Reachable (exec cfg) (Delivers up) (init cfg) s) : FlushedOnce cfg c s := by
  have hinv := runInv_of_reachable h
  refine ⟨fun _ _ => UpstreamEofCounter.wouldFlush_eq, ?_, fun hall => ?_⟩
  · cases hinv.node.progress with
    | waiting hw isOpen counts seen client =>
      refine .inl ⟨hw, isOpen, fun x hx hc => ?_⟩
      have hb := hinv.issued x hx
      rw [hc] at hb
      exact not_belongs_of_silent (fun i hi => (hw.silent i hi).1) hb
    | flushed before key upstreamId outputs after hf closed gone =>
      refine .inr ⟨before, key, upstreamId, outputs, after, hf, closed, gone, fun x hx hc => ?_⟩
      obtain ⟨key', change, outputs', hkc, hmsg, hrec, hentry⟩ := hinv.issued x hx
      have hmem : ⟨key', change, outputs'⟩ ∈ inputsOf c s.node.history :=
        mem_inputsOf.mpr ⟨hkc.trans hc, _, hrec⟩
      rw [hf.eq, List.mem_append, List.mem_cons] at hmem
      rcases hmem with hm | hm | hm
      · rw [show outputs' = [] from (hf.waiting.silent _ hm).1] at hentry
        cases hentry
      · cases hm
        exact ⟨hmsg.symm, hentry⟩
      · rw [show outputs' = [] from (hf.after _ hm).1] at hentry
        cases hentry
  · cases hinv.node.progress with
    | flushed _ _ _ _ _ _ closed => exact closed
    | waiting hw isOpen counts seen client =>
      -- the workers whose `EOF`s were taken are among those that are counted
      exfalso
      have hsub : ((s.taken.filter (·.1 = c)).map Prod.snd).toFinset ⊆
          upstreams (inputsOf c s.node.history) := by
        intro u hu
        obtain ⟨x, hx, rfl⟩ := List.mem_map.mp (List.mem_toFinset.mp hu)
        obtain ⟨hx, hc⟩ := List.mem_filter.mp hx
        exact (hinv.taken x hx (of_decide_eq_true hc)).resolve_right (Nat.not_le.mpr hw.fewer)
      exact absurd hw.fewer (Nat.not_lt.mpr (hall.trans (Finset.card_le_card hsub)))

/-! ## Two upstream workers -/

/-- A worker behind two q4_filter workers, with one q4_joiner worker. -/
def sampleSum : Q4SumConfig where
  deployment := { Q4Config.smallest with filterAmount := 2, filterAmount_pos := Nat.two_pos }
  id := 0
  snapshotInterval := 2
  sha256 := id
  changeJson :=
    .ofTable [(dataChange 7 [], [1]), (.single (.eof 7 0), [2]), (.single (.eof 7 1), [3]),
    (.compound [.eof 7 1, .close 7], [4])]

/-- A packet of client `7` with an empty batch. -/
def batchPacket (seq : Nat) : Bytes := 0 :: (beEncode 16 7 ++ beEncode 4 0 ++ beEncode 4 seq)

/-- The `EOF` of a q4_filter worker for client `7`. -/
def eofPacket (sender seq : Nat) : Bytes :=
  1 :: (beEncode 16 7 ++ beEncode 4 sender ++ beEncode 4 seq ++
    (beEncode 4 sender ++ beEncode 4 0 ++ beEncode 4 0))

/-- Worker `0` sends an empty batch and its `EOF`, worker `1` its `EOF` alone. -/
def sampleUpstream : Upstream 7 where
  sent := ([batchPacket 0, eofPacket 0 1, eofPacket 1 0].map unpackAddressedPacket).filterMap
    Except.toOption
  client := by decide +kernel
  kind := by decide +kernel
  keys := by decide +kernel
  names := by
    have hnames :
        ∀ m ∈ ([batchPacket 0, eofPacket 0 1, eofPacket 1 0].map unpackAddressedPacket).filterMap
        Except.toOption, m.msgType = MessageType.eof.toNat →
        (ControlMessage.deserialize m.payload).toOption.any (·.senderId = m.senderId) = true := by
          decide +kernel
    intro m hm ht
    obtain ⟨ctrl, hctrl, hname⟩ := (Option.any_eq_true _ _).mp (hnames m hm ht)
    refine ⟨ctrl, ?_, of_decide_eq_true hname⟩
    cases hd : ControlMessage.deserialize m.payload with
    | error e => rw [hd] at hctrl; cases hctrl
    | ok ctrl' => rw [hd] at hctrl; cases hctrl; rfl
  ends := by decide +kernel

/-- The first `EOF` comes twice; the process dies when the second one is recorded and not yet
published, and gets it again. A redelivery and a batch come after the flush. -/
def crashedFlush : List Label :=
  [.deliver (eofPacket 0 1) .returns, .deliver (eofPacket 0 1) .returns,
    .commit ⟨7, .data, 0, 1⟩ .returns,
   .deliver (eofPacket 1 0) (.crashes 1), .deliver (eofPacket 1 0) .returns,
   .commit ⟨7, .data, 1, 0⟩ .returns,
   .deliver (eofPacket 0 1) .returns, .deliver (batchPacket 0) .returns]

theorem flush_exactly_once_crashed :
    ∃ s, Transition.Reachable (exec sampleSum) (Delivers sampleUpstream) (init sampleSum) s ∧
      s.issued.length = 2 ∧ 7 ∈ s.node.handler.workerState.closedByClient ∧
      FlushedOnce sampleSum 7 s := by
  have hrun : (Transition.runAllowed (exec sampleSum) (Delivers sampleUpstream)
      (init sampleSum) crashedFlush).any
      (fun s => decide (s.issued.length = 2 ∧
        2 ≤ ((s.taken.filter (·.1 = 7)).map Prod.snd).toFinset.card)) = true := by decide +kernel
  obtain ⟨s, hs, hdec⟩ := (Option.any_eq_true _ _).mp hrun
  obtain ⟨hissued, htaken⟩ := of_decide_eq_true hdec
  have honce :=
    flush_exactly_once sampleSum 7 sampleUpstream (Transition.reachable_of_runAllowed .init hs)
  exact ⟨s, Transition.reachable_of_runAllowed .init hs, hissued, honce.complete htaken, honce⟩

end Q4SumWorker

end MoneyLaundering
