import MoneyLaundering.FaultTolerance.Publications
import MoneyLaundering.Lib.Numbered
import MoneyLaundering.Workers.FlushTotals

/-!
# Numbers on the edges to the aggregators

The sum and filter_q5_usd number the packets to the aggregators by counters of their own, outside
the sequencer of the durable handler. What a process hands to the broker comes from its log, so it
is enough to follow the log: the packets that it holds for a client count up (`CountsFrom`), and as
long as the counter has not wrapped, no number stands for two of them.

The counter of the sum is not durable. A client has packets in one record only, the one that closes
it, so it does not matter where the count starts.
-/

namespace MoneyLaundering

open Bytes InternalProtocol Transition

/-- The `DATA` or `EOF` packet that a body is. -/
def streamPacket? (body : Bytes) : Option Addressed :=
  match unpackAddressedPacket body with
  | .ok m =>
    if m.msgType = MessageType.data.toNat ∨ m.msgType = MessageType.eof.toNat then some m else none
  | .error _ => none

/-- No two different `DATA` or `EOF` packets of a client went to one destination under one sender
and seq. -/
def NoReuse (clientId : Nat) (published : List (String × Bytes)) : Prop :=
  ∀ p ∈ published, ∀ q ∈ published, ∀ m m', streamPacket? p.2 = some m →
  streamPacket? q.2 = some m' →
    m.clientId = clientId → m'.clientId = clientId → p.1 = q.1 → m.senderId = m'.senderId →
    m.seq = m'.seq → p.2 = q.2

/-- The `DATA` and `EOF` packets of a client among some packets. -/
def streamOf (clientId : Nat) (packets : List (String × Bytes)) :
    List (Addressed × (String × Bytes)) :=
  packets.filterMap fun p => ((streamPacket? p.2).filter fun m => m.clientId = clientId).map (·, p)

/-- The seqs of the `DATA` and `EOF` packets of a client. -/
def streamSeqs (clientId : Nat) (packets : List (String × Bytes)) : List Nat :=
  (streamOf clientId packets).map fun x => x.1.seq

/-- The packets that a record logs. -/
def WalRecord.packets {Δ : Type} : WalRecord Δ → List (String × Bytes)
  | .inputApplied _ _ _ outputs => outputs.map Publisher.packet
  | .inputDone _ _ => []

/-- The packets that a history logs. -/
def loggedPackets {Δ : Type} (history : List (WalRecord Δ)) : List (String × Bytes) :=
  history.flatMap WalRecord.packets

/-- The packets of outputs that are not stamped yet. -/
def outputPackets (outputs : List LogicalOutput) : List (String × Bytes) :=
  outputs.map fun output => (output.destination, output.body)

theorem outputPackets_append (outputs outputs' : List LogicalOutput) :
    outputPackets (outputs ++ outputs') = outputPackets outputs ++ outputPackets outputs' :=
  List.map_append

section packets
variable {Δ : Type} {c c' : Nat} {p : String × Bytes} {m : Addressed}
    {packets packets' : List (String × Bytes)}
  {history : List (WalRecord Δ)} {record : WalRecord Δ}

theorem mem_streamOf {x : Addressed × (String × Bytes)} :
    x ∈ streamOf c packets ↔ x.2 ∈ packets ∧ streamPacket? x.2.2 = some x.1 ∧ x.1.clientId = c := by
  simp only [streamOf, List.mem_filterMap, Option.map_eq_some_iff, Option.filter_eq_some_iff,
    decide_eq_true_eq]
  constructor
  · rintro ⟨p, hp, m, ⟨hm, hc⟩, rfl⟩
    exact ⟨hp, hm, hc⟩
  · rintro ⟨hp, hm, hc⟩
    exact ⟨x.2, hp, x.1, ⟨hm, hc⟩, rfl⟩

theorem streamOf_append (c : Nat) (packets packets' : List (String × Bytes)) :
    streamOf c (packets ++ packets') = streamOf c packets ++ streamOf c packets' :=
  List.filterMap_append

theorem streamSeqs_append (c : Nat) (packets packets' : List (String × Bytes)) :
    streamSeqs c (packets ++ packets') = streamSeqs c packets ++ streamSeqs c packets' := by
  rw [streamSeqs, streamOf_append, List.map_append]
  rfl

@[simp] theorem length_streamSeqs (c : Nat) (packets : List (String × Bytes)) :
    (streamSeqs c packets).length = (streamOf c packets).length := List.length_map _

theorem length_streamOf_le (c : Nat) (packets : List (String × Bytes)) :
    (streamOf c packets).length ≤ packets.length := List.length_filterMap_le ..

theorem streamOf_eq_nil (h : ∀ p ∈ packets, ∀ m, streamPacket? p.2 = some m → m.clientId ≠ c) :
    streamOf c packets = [] :=
  List.eq_nil_iff_forall_not_mem.mpr fun x hx =>
    have ⟨hp, hm, hc⟩ := mem_streamOf.mp hx
    h x.2 hp x.1 hm hc

theorem loggedPackets_snoc (history : List (WalRecord Δ)) (record : WalRecord Δ) :
    loggedPackets (history ++ [record]) = loggedPackets history ++ record.packets := by
  simp [loggedPackets]

theorem mem_loggedPackets {entry : OutboxEntry} (h : Publisher.Logged history entry) :
    Publisher.packet entry ∈ loggedPackets history := by
  obtain ⟨m, key, change, outputs, hm, he⟩ := h
  exact List.mem_flatMap.mpr ⟨_, hm, List.mem_map_of_mem he⟩

/-- What is published comes from the log or is no packet of a stream, and the log numbers the
packets of the client without a repetition: then no number is reused. -/
theorem noReuse_of_countsFrom {published : List (String × Bytes)} {v : Nat}
    (hp : ∀ p ∈ published, (∃ entry, Publisher.Logged history entry ∧ p = Publisher.packet entry) ∨
      streamPacket? p.2 = none)
    (hcount : CountsFrom (2 ^ 32) v (streamSeqs c (loggedPackets history)))
    (hlen : (streamOf c (loggedPackets history)).length ≤ 2 ^ 32) : NoReuse c published := by
  have hnodup := hcount.nodup ((length_streamSeqs ..).trans_le hlen)
  have hlogged : ∀ p ∈ published, ∀ m, streamPacket? p.2 = some m → m.clientId = c →
      (m, p) ∈ streamOf c (loggedPackets history) := by
    intro p hmem m hm hc
    rcases hp p hmem with ⟨entry, he, rfl⟩ | hnone
    · exact mem_streamOf.mpr ⟨mem_loggedPackets he, hm, hc⟩
    · rw [hm] at hnone
      cases hnone
  intro p hpm q hqm m m' hm hm' hc hc' _ _ hseq
  have hsame :=
    List.inj_on_of_nodup_map hnodup (hlogged p hpm m hm hc) (hlogged q hqm m' hm' hc') hseq
  exact congrArg (fun x => x.2.2) hsame

/-- A control message is no packet of a stream. -/
theorem streamPacket?_toBytes {message : ControlPacket} {body : Bytes}
    (h : message.toBytes = .ok body)
    (hd : message.msgType ≠ .data) (he : message.msgType ≠ .eof) : streamPacket? body = none := by
  obtain ⟨payload, -, h⟩ := Except.ok_of_bind h
  have htype := msgType_of_createPacket h
  unfold streamPacket?
  split
  · next m hm =>
    rw [msgType_of_unpackAddressedPacket hm, htype, if_neg]
    rintro (hx | hx)
    · exact hd (MessageType.toNat_injective hx)
    · exact he (MessageType.toNat_injective hx)
  · rfl

theorem streamPacket?_create {msgType clientId senderId seq : Nat} {payload body : Bytes}
    (h : createAddressedPacket msgType clientId senderId seq payload = .ok body) :
    streamPacket? body =
      if msgType = MessageType.data.toNat ∨ msgType = MessageType.eof.toNat then
        some ⟨msgType, clientId, senderId, seq, payload⟩ else none := by
  unfold streamPacket?
  rw [unpackAddressedPacket_create h]

theorem seq_lt_of_createAddressedPacket {msgType clientId senderId seq : Nat} {payload body : Bytes}
    (h : createAddressedPacket msgType clientId senderId seq payload = .ok body) :
    seq < 2 ^ 32 := by
  obtain ⟨_, -, h⟩ := Except.ok_of_bind h
  obtain ⟨_, -, h⟩ := Except.ok_of_bind h
  obtain ⟨_, -, h⟩ := Except.ok_of_bind h
  obtain ⟨_, hseq, -⟩ := Except.ok_of_bind h
  exact (pack_eq_ok_iff.mp hseq).1

/-- The count of the packets of a record has two bytes in the log. -/
theorem Wal.length_packets_le {json : StateChangeCodec Δ} {bytes : Bytes}
    (h : Wal.encode json record = .ok bytes) : record.packets.length ≤ maxUint16 := by
  cases record with
  | inputDone m key => exact Nat.zero_le _
  | inputApplied m key change outputs =>
    obtain ⟨payload, hp, -⟩ := Except.ok_of_bind h
    obtain ⟨text, -, hp⟩ := Except.ok_of_bind hp
    obtain ⟨-, hp⟩ := Except.ok_of_raiseIf hp
    obtain ⟨-, hp⟩ := Except.ok_of_raiseIf hp
    obtain ⟨hlen, -⟩ := Except.ok_of_raiseIf hp
    rw [WalRecord.packets, List.length_map]
    exact Nat.not_lt.mp hlen

/-- Stamping keeps the packets. -/
theorem packets_of_stamp {cfg : SequencerConfig} {s : SenderSequencer} {clientId : Nat}
    {msgId : String}
    {logical : List LogicalOutput} {outputs : List OutboxEntry} (he : cfg.edges = ∅)
    (h : s.stamp cfg clientId msgId logical = .ok outputs) :
    outputs.map Publisher.packet = outputPackets logical :=
  SenderSequencer.map_of_stamp_plain he h

end packets

/-! ## Control messages -/

namespace EofCoordinator

variable {cfg : CoordinatorConfig} {s : EofCoordinator} {message : ControlPacket}
  {clientId count forwarded : Nat}

/-- What the coordinator sends is neither `DATA` nor `EOF`. -/
theorem ne_stream_of_processControlMessage {msgType : MessageType} {ctrl : ControlMessage}
    (h : message ∈
      messagesOf (s.processControlMessage cfg msgType clientId ctrl count forwarded).2) :
    message.msgType ≠ .data ∧ message.msgType ≠ .eof := by
  cases hact : (s.processControlMessage cfg msgType clientId ctrl count forwarded).2 with
  | none => rw [hact] at h; cases h
  | some action =>
    rw [hact] at h
    cases action with
    | sendAnswer queueName message' =>
      obtain rfl := List.mem_singleton.mp h
      rw [msgType_of_sendAnswer cfg hact]
      exact ⟨nofun, nofun⟩
    | broadcast queueNames message' sleep =>
      obtain rfl := List.mem_singleton.mp h
      rcases msgType_of_broadcast cfg hact with ht | ht <;> rw [ht] <;> exact ⟨nofun, nofun⟩
    | flush => cases h

theorem ne_stream_of_onUpstreamEof {expectedTotal : Nat}
    (h : message ∈ messagesOf (s.onUpstreamEof cfg clientId expectedTotal count forwarded).2) :
    message.msgType ≠ .data ∧ message.msgType ≠ .eof := by
  unfold onUpstreamEof at h
  split at h
  · cases h
  · split at h
    · obtain rfl := List.mem_singleton.mp h
      exact ⟨nofun, nofun⟩
    · split at h
      · cases h
      · obtain rfl := List.mem_singleton.mp h
        exact ⟨nofun, nofun⟩

end EofCoordinator

/-- The outputs of an action that sends neither `DATA` nor `EOF`. -/
theorem streamPacket?_actionOutputs {action : CoordinatorAction} {outputs : List LogicalOutput}
    (h : actionOutputs action = .ok outputs)
    (ht : ∀ message ∈ EofCoordinator.messagesOf (some action),
      message.msgType ≠ .data ∧ message.msgType ≠ .eof) :
    ∀ p ∈ outputPackets outputs, streamPacket? p.2 = none := by
  intro p hp
  obtain ⟨output, ho, rfl⟩ := List.mem_map.mp hp
  cases action with
  | sendAnswer queueName message =>
    obtain ⟨body, hb, h⟩ := Except.ok_of_bind h
    cases h
    obtain rfl := List.mem_singleton.mp ho
    obtain ⟨hd, he⟩ := ht message (List.mem_singleton.mpr rfl)
    exact streamPacket?_toBytes hb hd he
  | broadcast queueNames message sleep =>
    obtain ⟨body, hb, h⟩ := Except.ok_of_bind h
    cases h
    obtain ⟨queueName, -, rfl⟩ := List.mem_map.mp ho
    obtain ⟨hd, he⟩ := ht message (List.mem_singleton.mpr rfl)
    exact streamPacket?_toBytes hb hd he
  | flush =>
    cases h
    cases ho

/-- What a coordinator call outside the log sends. -/
theorem streamPacket?_ofAction {σ Δ : Type} {t touched : σ} {action : Option CoordinatorAction}
    {sends : List (String × Bytes)}
    (ht : ∀ message ∈ EofCoordinator.messagesOf action, message.msgType ≠ .data ∧
      message.msgType ≠ .eof)
    (h : (Reaction.ofAction t action : Reaction σ Δ) = .direct touched sends) :
    touched = t ∧ ∀ p ∈ sends, streamPacket? p.2 = none := by
  unfold Reaction.ofAction at h
  split at h
  · cases h
    exact ⟨rfl, by simp⟩
  · split at h
    · cases h
    · next action outputs ho =>
      cases h
      exact ⟨rfl, streamPacket?_actionOutputs ho ht⟩

/-! ## Clients that a log closes -/

namespace WorkerChange

variable {δ : Type}

theorem subset_closedAfter (change : WorkerChange δ) (closed : Finset Nat) :
    closed ⊆ change.closedAfter closed := by
  unfold closedAfter
  induction change.ops generalizing closed with
  | nil => exact Finset.Subset.refl _
  | cons op ops ih =>
    refine Finset.Subset.trans ?_ (ih (closedBy closed op))
    cases op with
    | close c => exact Finset.subset_insert ..
    | data | coordinatorUpstreamEof | coordinatorMsg
    | coordinatorCleanup => exact Finset.Subset.refl _

end WorkerChange

/-- The clients that a history closes. -/
def closedIn {δ : Type} (history : List (WalRecord (WorkerChange δ))) : Finset Nat :=
  (stateChanges history).foldl (fun closed change => change.closedAfter closed) ∅

section closed
variable {δ : Type} (history : List (WalRecord (WorkerChange δ)))

theorem closedIn_applied (m : String) (key : InputKey) (change : WorkerChange δ)
    (outputs : List OutboxEntry) :
    closedIn (history ++ [.inputApplied m key change outputs]) =
      change.closedAfter (closedIn history) := by
  simp [closedIn, stateChanges]

theorem closedIn_done (m : String) (key : InputKey) :
    closedIn (history ++ [.inputDone m key]) = closedIn history := by
  simp [closedIn, stateChanges]

end closed

/-! ## Packets that count up -/

/-- There are packets of one client only, and their seqs count up from `v`. -/
structure Stream (c v : Nat) (packets : List (String × Bytes)) : Prop where
  only : ∀ c' ≠ c, streamOf c' packets = []
  counts : CountsFrom (2 ^ 32) v (streamSeqs c packets)

section stream
variable {c v : Nat} {packets packets' : List (String × Bytes)}

theorem streamOf_control (h : ∀ p ∈ packets, streamPacket? p.2 = none) : streamOf c packets = [] :=
  streamOf_eq_nil fun p hp m hm => by rw [h p hp] at hm; cases hm

theorem Stream.append (h : Stream c v packets)
    (h' : Stream c (v + (streamOf c packets).length) packets') :
    Stream c v (packets ++ packets') where
  only c' hc := by rw [streamOf_append, h.only c' hc, h'.only c' hc]; rfl
  counts := by
    rw [streamSeqs_append, CountsFrom.append_iff, length_streamSeqs]
    exact ⟨h.counts, h'.counts⟩

theorem Stream.congr {v' : Nat} (h : Stream c v packets) (hv : v % 2 ^ 32 = v' % 2 ^ 32) :
    Stream c v' packets := ⟨h.only, h.counts.congr hv⟩

theorem Stream.of_control (h : ∀ p ∈ packets, streamPacket? p.2 = none) : Stream c v packets where
  only _ _ := streamOf_control h
  counts := by
    rw [streamSeqs, streamOf_control h]
    trivial

/-- A packet of the client. -/
theorem Stream.single {destination : String} {msgType : MessageType} {senderId : Nat}
    {payload body : Bytes} (h : createAddressedPacket msgType.toNat c senderId v payload = .ok body)
    (ht : msgType = .data ∨ msgType = .eof) : Stream c v [(destination, body)] ∧
      (streamOf c [(destination, body)]).length = 1 := by
  have hpacket : streamPacket? body = some ⟨msgType.toNat, c, senderId, v, payload⟩ := by
    rw [streamPacket?_create h, if_pos]
    rcases ht with rfl | rfl
    · exact .inl rfl
    · exact .inr rfl
  have hstream : ∀ c', streamOf c' [(destination, body)] =
      if c = c' then [(⟨msgType.toNat, c, senderId, v, payload⟩, (destination, body))] else [] := by
    intro c'
    by_cases e : c = c' <;> simp [streamOf, hpacket, Option.filter, e]
  refine ⟨⟨fun c' hc => ?_, ?_⟩, ?_⟩
  · rw [hstream, if_neg hc.symm]
  · rw [streamSeqs, hstream, if_pos rfl]
    exact ⟨(Nat.mod_eq_of_lt (seq_lt_of_createAddressedPacket h)).symm, trivial⟩
  · rw [hstream, if_pos rfl]
    rfl

end stream

end MoneyLaundering
