import MoneyLaundering.FaultTolerance.OutputIds
import MoneyLaundering.Filter.Worker
import MoneyLaundering.Lib.Transition

/-!
# What a filter records

The packets that recorded entries carry, and the inversion of one locked section: `Recorded` lists
everything a section can append to the log, with the state it saw and the packets it stamped.
-/

namespace MoneyLaundering

open Bytes InternalProtocol SenderSequencer

namespace FilterConfig

variable (cfg : FilterConfig)

/-! ## Reading entries -/

/-- The type and the payload of a stamped packet, in the format of its destination. -/
def readEntry (e : OutboxEntry) : Option (Nat × Bytes) :=
  if (cfg.outputEdges.get? e.destination).isSome ∨ e.destination ∈ cfg.addressedOutputs then
    match unpackAddressedPacket e.body with
    | .ok m => some (m.msgType, m.payload)
    | .error _ => none
  else
    match unpackPacket e.body with
    | .ok (msgType, _, payload) => some (msgType, payload)
    | .error _ => none

/-- The entries are those of the packets, in order. -/
def ReadsAs (entries : List OutboxEntry) (packets : List Packet) : Prop :=
  entries.map (fun e => (e.destination, cfg.readEntry e)) =
    packets.map fun p => (p.destination, some (p.msgType.toNat, p.payload))

variable {cfg}

/-- What is collected from entries is what is collected from their packets. -/
theorem ReadsAs.filterMap {β : Type} {entries : List OutboxEntry} {packets : List Packet}
    (h : cfg.ReadsAs entries packets) (f : String × Option (Nat × Bytes) → Option β) :
    entries.filterMap (fun e => f (e.destination, cfg.readEntry e)) =
      packets.filterMap fun p => f (p.destination, some (p.msgType.toNat, p.payload)) := by
  have := congrArg (List.filterMap f) h
  simpa only [List.filterMap_map, Function.comp_def] using this

/-- Stamping keeps the type and the payload of a packet. -/
theorem readEntry_of_outputPacket {p : Packet} {clientId sumSeq : Nat} {body : Bytes}
    {shard : Option Nat} {e : OutboxEntry}
    (h : cfg.outputPacket p.destination p.msgType clientId sumSeq p.payload = .ok body)
    (hs : StampedAs cfg.handler.toSequencerConfig clientId ⟨p.destination, body, shard⟩ e) :
    cfg.readEntry e = some (p.msgType.toNat, p.payload) := by
  have hd : e.destination = p.destination := hs.destination
  unfold outputPacket at h
  rw [readEntry, hd]
  cases hedge : cfg.outputEdges.get? p.destination with
  | some spec =>
    simp only [hedge, Option.isSome_some, if_true] at h
    obtain ⟨msgType, c, payload, seq, hu, hb, -⟩ := hs.addressed spec hedge
    rw [unpackPacket_createPacket h] at hu
    cases hu
    simp [unpackAddressedPacket_create hb]
  | none =>
    obtain ⟨hb, -⟩ := hs.plain hedge
    simp only at hb
    simp only [hedge, Option.isSome_none, if_false, Bool.false_eq_true] at h
    split at h
    · next ha => simp [ha, hb, unpackAddressedPacket_create h]
    · next ha => simp [ha, hb, unpackPacket_createPacket h]

/-- The type that is read is the first byte. -/
theorem first_of_readEntry {e : OutboxEntry} {msgType : Nat} {payload : Bytes}
    (h : cfg.readEntry e = some (msgType, payload)) : beDecode (e.body.take 1) = msgType := by
  unfold readEntry at h
  split at h
  · split at h
    · next m hm =>
      cases h
      exact (msgType_of_unpackAddressedPacket hm).symm
    · cases h
  · split at h
    · next hp =>
      cases h
      exact (msgType_of_unpackPacket hp).symm
    · cases h

/-- Whatever is made of a basic packet keeps its type. -/
theorem first_of_stampedAs {msgType clientId clientId' : Nat} {destination : String}
    {payload body : Bytes} {shard : Option Nat} {e : OutboxEntry}
    (h : createPacket msgType clientId payload = .ok body)
    (hs : StampedAs cfg.handler.toSequencerConfig clientId' ⟨destination, body, shard⟩ e) :
    beDecode (e.body.take 1) = msgType := by
  cases hedge : cfg.outputEdges.get? destination with
  | some spec =>
    obtain ⟨t, c, p, seq, hu, hb, -⟩ := hs.addressed spec hedge
    simp only at hu
    rw [unpackPacket_createPacket h] at hu
    cases hu
    exact msgType_of_createAddressedPacket hb
  | none =>
    obtain ⟨hb, -⟩ := hs.plain hedge
    simp only at hb
    rw [hb]
    exact msgType_of_createPacket h

theorem readsAs_of_logicalOutputs {clientId : Nat} {sumSeq : String → Nat} {packets : List Packet}
    {outputs : List LogicalOutput} {entries : List OutboxEntry}
    (h : cfg.logicalOutputs clientId sumSeq packets = .ok outputs)
    (hs : List.Forall₂ (StampedAs cfg.handler.toSequencerConfig clientId) outputs entries) :
    cfg.ReadsAs entries packets := by
  induction packets generalizing sumSeq outputs entries with
  | nil =>
    cases h
    cases hs
    rfl
  | cons p packets ih =>
    obtain ⟨body, hb, h⟩ := Except.ok_of_bind h
    obtain ⟨shard, hsh, h⟩ := Except.ok_of_bind h
    obtain ⟨rest, hrest, h⟩ := Except.ok_of_bind h
    cases h
    cases hs with
    | cons he hs =>
      have hread := readEntry_of_outputPacket hb he
      have := ih hrest hs
      simp only [ReadsAs, List.map_cons] at this ⊢
      rw [this, hread, he.destination]

/-- Entries whose packets are all of one type. -/
def OfType (msgType : MessageType) (entries : List OutboxEntry) : Prop :=
  ∀ e ∈ entries, beDecode (e.body.take 1) = msgType.toNat

theorem ofType_of_forall₂ {msgType : MessageType} {clientId clientId' : Nat} {payload body : Bytes}
    {outputs : List LogicalOutput} {entries : List OutboxEntry}
    (h : createPacket msgType.toNat clientId payload = .ok body) (ho : ∀ o ∈ outputs, o.body = body)
    (hs : List.Forall₂ (StampedAs cfg.handler.toSequencerConfig clientId') outputs entries) :
    OfType msgType entries := by
  induction hs with
  | nil => exact nofun
  | @cons o e outputs entries he hs ih =>
    intro e' hm
    rcases List.mem_cons.mp hm with rfl | hm
    · obtain ⟨destination, body', shard⟩ := o
      obtain rfl : body' = body := ho _ List.mem_cons_self
      exact first_of_stampedAs h he
    · exact ih (fun o hm => ho o (List.mem_cons_of_mem _ hm)) e' hm

theorem exists_createPacket {p : ControlPacket} {bytes : Bytes} (h : p.toBytes = .ok bytes) :
    ∃ payload, p.ctrl.serialize = .ok payload ∧
      createPacket p.msgType.toNat p.clientId payload = .ok bytes :=
  Except.ok_of_bind h

/-! ## What a section can record -/

/-- The packets that appending to the buffer flushes. -/
def flushedPackets (cfg : FilterConfig) (s : FilterState) (clientId : Nat)
    (appendsByDest : Dict String (List Bytes)) : List Packet :=
  (s.planData cfg.state clientId appendsByDest).flatMap fun e => e.2.map (⟨e.1, .data, ·⟩)

/-- The key of a packet of the data queue. -/
def dataKey (m : Addressed) : InputKey := ⟨m.clientId, .data, m.senderId, m.seq⟩

/-- Everything that a section can append, by the message it handles and the state it sees. -/
inductive Recorded (cfg : FilterConfig) (s : FilterState) :
    Delivery → InputKey → FilterChange → List OutboxEntry → Prop
  | skipped {body : Bytes} {m : Addressed} (hm : unpackAddressedPacket body = .ok m)
      (ht : m.msgType = MessageType.data.toNat)
      (hskip : s.isClosed m.clientId = true ∨
        TransactionSerializer.deserializeBatch m.payload = .ok []) :
      Recorded cfg s (.input body) (dataKey m) (FilterState.dataChange m.clientId 0 ∅ ∅) []
  | routed {body : Bytes} {m : Addressed} {txs : List Transaction}
      {appends : Dict String (List Bytes)} {forwarded : Dict String Nat}
      {entries : List OutboxEntry}
      (hm : unpackAddressedPacket body = .ok m) (ht : m.msgType = MessageType.data.toNat)
      (hopen : s.isClosed m.clientId = false)
      (htxs : TransactionSerializer.deserializeBatch m.payload = .ok txs)
      (hroute : cfg.routeBatch (∅, ∅) txs = .ok (appends, forwarded))
      (hread : cfg.ReadsAs entries (cfg.flushedPackets s m.clientId appends)) :
      Recorded cfg s (.input body) (dataKey m)
        (FilterState.dataChange m.clientId txs.length appends forwarded) entries
  | aborted {body : Bytes} {m : Addressed} {entries : List OutboxEntry}
      (hm : unpackAddressedPacket body = .ok m) (ht : m.msgType = MessageType.abort.toNat)
      (htype : OfType .abort entries) :
      Recorded cfg s (.input body) ⟨m.clientId, .abort, m.senderId, m.seq⟩
        (.compound [.coordinatorCleanup m.clientId false, .close m.clientId]) entries
  | announced {body : Bytes} {m : Addressed} {ctrl : ControlMessage} {entries : List OutboxEntry}
      (hm : unpackAddressedPacket body = .ok m) (ht : m.msgType = MessageType.eof.toNat)
      (hctrl : ControlMessage.deserialize m.payload = .ok ctrl)
      (hopen : s.isClosed m.clientId = false) (hmany : 1 < cfg.filterAmount)
      (htype : OfType .eofReceived entries) :
      Recorded cfg s (.input body) (dataKey m)
        (.single (.coordinatorUpstreamEof m.clientId ctrl.expectedTotal
          (s.processedCount m.clientId) (s.processedCount m.clientId))) entries
  | drainedAlone {body : Bytes} {m : Addressed} {ctrl : ControlMessage} {eofs : List Packet}
      {entries : List OutboxEntry} (hm : unpackAddressedPacket body = .ok m)
      (ht : m.msgType = MessageType.eof.toNat)
      (hctrl : ControlMessage.deserialize m.payload = .ok ctrl)
      (hopen : s.isClosed m.clientId = false) (hone : cfg.filterAmount ≤ 1)
      (heofs : cfg.eofPackets (s.forwardedByOutput m.clientId) = .ok eofs)
      (hread : cfg.ReadsAs entries (drainPackets s m.clientId ++ eofs)) :
      Recorded cfg s (.input body) (dataKey m)
        (.compound [.coordinatorUpstreamEof m.clientId ctrl.expectedTotal
          (s.processedCount m.clientId) (s.processedCount m.clientId), .close m.clientId]) entries
  | answered {body payload : Bytes} {clientId count forwarded : Nat} {ctrl : ControlMessage}
      {entries : List OutboxEntry}
      (hp : unpackPacket body = .ok (MessageType.eofReceived.toNat, clientId, payload))
      (hctrl : ControlMessage.deserialize payload = .ok ctrl)
      (htype : OfType .processedAnswer entries) :
      Recorded cfg s (.control body) ⟨clientId, .ctrlEofReceived, ctrl.senderId, clientId⟩
        (.single (.coordinatorMsg .eofReceived clientId ctrl count forwarded)) entries
  | drainedOrder {body payload ackPayload packet : Bytes} {clientId : Nat} {ctrl : ControlMessage}
      {drain : List OutboxEntry} {ack : OutboxEntry}
      (hp : unpackPacket body = .ok (MessageType.flushOrder.toNat, clientId, payload))
      (hctrl : ControlMessage.deserialize payload = .ok ctrl)
      (hopen : s.isClosed clientId = false)
      (hleader : s.coordinator.leaderExpected.get? clientId = none)
      (hread : cfg.ReadsAs drain (drainPackets s clientId))
      (hdumps : cfg.flushAckJson.dumps (cfg.id, s.forwardedByOutput clientId) = .ok ackPayload)
      (hpacket : createPacket MessageType.flushAck.toNat clientId ackPayload = .ok packet)
      (hack : StampedAs cfg.handler.toSequencerConfig clientId
        ⟨cfg.coordinator.responseQueueFor ctrl.senderId, packet, none⟩ ack) :
      Recorded cfg s (.control body) ⟨clientId, .ctrlFlushOrder, ctrl.senderId, clientId⟩
        (.compound [.coordinatorCleanup clientId false, .close clientId]) (drain ++ [ack])
  | acked {body payload : Bytes} {clientId senderId : Nat} {counts : Dict String Nat}
      (hp : unpackPacket body = .ok (MessageType.flushAck.toNat, clientId, payload))
      (hload : cfg.flushAckJson.loads payload = .ok (senderId, counts))
      (hopen : s.isClosed clientId = false)
      (hleader : s.coordinator.leaderExpected.get? clientId ≠ none)
      (hmore : s.flushedAckCount clientId + 1 < cfg.filterAmount - 1) :
      Recorded cfg s (.response body) ⟨clientId, .ctrlFlushAck, senderId, clientId⟩
        (.single (.flushAck clientId senderId counts)) []
  | drainedLast {body payload : Bytes} {clientId senderId : Nat} {counts : Dict String Nat}
      {eofs : List Packet} {entries : List OutboxEntry}
      (hp : unpackPacket body = .ok (MessageType.flushAck.toNat, clientId, payload))
      (hload : cfg.flushAckJson.loads payload = .ok (senderId, counts))
      (hopen : s.isClosed clientId = false)
      (hleader : s.coordinator.leaderExpected.get? clientId ≠ none)
      (hlast : cfg.filterAmount - 1 ≤ s.flushedAckCount clientId + 1)
      (heofs : cfg.eofPackets (addCounts (addCounts (s.allForwardedByOutput clientId) counts)
        (s.forwardedByOutput clientId)) = .ok eofs)
      (hread : cfg.ReadsAs entries (drainPackets s clientId ++ eofs)) :
      Recorded cfg s (.response body) ⟨clientId, .ctrlFlushAck, senderId, clientId⟩
        (.compound [.flushAck clientId senderId counts, .coordinatorCleanup clientId true,
          .close clientId]) entries

/-- The record of a call of `handle` on a new input. -/
theorem appends_handle {h : Handler FilterState} {key : InputKey}
    {businessFn : BusinessFn FilterState FilterChange} {record : WalRecord FilterChange}
    (ha : Appends cfg.handler h (.handle key businessFn) record) :
    h.inbox.classify key = .new ∧ ∃ change outputs entries,
      businessFn h.workerState = .ok (change, outputs) ∧
      List.Forall₂ (StampedAs cfg.handler.toSequencerConfig key.clientId) outputs entries ∧
      record = .inputApplied (cfg.handler.msgId key) key change entries := by
  obtain ⟨hnew, change, outputs, entries, hb, hs, rfl⟩ := ha
  exact ⟨hnew, change, outputs, entries, hb, forall₂_of_stamp hs, rfl⟩

/-- A section that goes on with a new input has an open client. -/
theorem isClosed_of_not_ignored {h : Handler FilterState} {key : InputKey}
    (hi : ¬ ignored h key = true) (hnew : h.inbox.classify key = .new) :
    h.workerState.isClosed key.clientId = false := by
  simpa [ignored, hnew] using hi

section inversion
variable {h : Handler FilterState} {sumSeq : String → Nat} {body : Bytes}
  {c : Call FilterState FilterChange} {record : WalRecord FilterChange}

/-- What the recorded input of a delivery looks like. -/
def RecordedAs (cfg : FilterConfig) (h : Handler FilterState) (d : Delivery)
    (record : WalRecord FilterChange) : Prop :=
  ∃ key change entries, record = .inputApplied (cfg.handler.msgId key) key change entries ∧
    h.inbox.classify key = .new ∧ Recorded cfg h.workerState d key change entries

theorem recorded_process (hc : (cfg.process sumSeq body).call = some c)
    (ha : Appends cfg.handler h c record) {first : Nat} (hf : first = 0 ∨ first = 8)
    (hfirst : beDecode (body.take 1) = first) : RecordedAs cfg h (.input body) record := by
  unfold process at hc
  split at hc
  · cases hc
  · next m hm =>
    split at hc
    · next ht =>
      cases hc
      obtain ⟨hnew, change, outputs, entries, hb, hs, rfl⟩ := appends_handle ha
      obtain ⟨packet, hp, hb⟩ := Except.ok_of_bind hb
      cases hb
      refine ⟨_, _, _, rfl, hnew, .aborted hm ht (ofType_of_forall₂ hp ?_ hs)⟩
      intro o ho
      simp only [List.mem_flatMap, List.mem_map] at ho
      obtain ⟨_, _, _, _, rfl⟩ := ho
      rfl
    · next ht =>
      cases hc
      have hdata : m.msgType = MessageType.data.toNat := by
        rw [msgType_of_unpackAddressedPacket hm, hfirst] at ht ⊢
        rcases hf with rfl | rfl
        · rfl
        · exact absurd rfl ht
      obtain ⟨hnew, change, outputs, entries, hb, hs, rfl⟩ := appends_handle ha
      unfold dataProcessPayload at hb
      split at hb
      · next hclosed =>
        cases hb
        cases hs
        exact ⟨_, _, _, rfl, hnew, .skipped hm hdata (.inl hclosed)⟩
      · next hopen =>
        obtain ⟨txs, htxs, hb⟩ := Except.ok_of_bind hb
        cases txs with
        | nil =>
          cases hb
          cases hs
          exact ⟨_, _, _, rfl, hnew, .skipped hm hdata (.inr htxs)⟩
        | cons tx txs =>
          obtain ⟨⟨appends, forwarded⟩, hroute, hb⟩ := Except.ok_of_bind hb
          obtain ⟨outs, houts, hb⟩ := Except.ok_of_bind hb
          cases hb
          exact ⟨_, _, _, rfl, hnew, .routed hm hdata (by simpa using hopen) htxs hroute
            (readsAs_of_logicalOutputs houts hs)⟩

theorem recorded_handleUpstreamEof (hc : (cfg.handleUpstreamEof h sumSeq body).call = some c)
    (ha : Appends cfg.handler h c record) (hfirst : beDecode (body.take 1) = 1) :
    RecordedAs cfg h (.input body) record := by
  unfold handleUpstreamEof at hc
  split at hc
  · cases hc
  · next m hm =>
    split at hc
    · cases hc
    · next ctrl hctrl =>
      split at hc
      · cases hc
      · next hi =>
        cases hc
        have ht : m.msgType = MessageType.eof.toNat :=
          (msgType_of_unpackAddressedPacket hm).trans hfirst
        obtain ⟨hnew, change, outputs, entries, hb, hs, rfl⟩ := appends_handle ha
        have hopen := isClosed_of_not_ignored hi hnew
        unfold upstreamEofFn at hb
        simp only at hb
        split at hb
        · next hmany =>
          obtain ⟨msg, hmsg, hb⟩ := Except.ok_of_bind hb
          cases hb
          obtain ⟨payload, -, hp⟩ := exists_createPacket hmsg
          refine ⟨_, _, _, rfl, hnew, .announced hm ht hctrl hopen hmany
            (ofType_of_forall₂ hp ?_ hs)⟩
          intro o ho
          obtain ⟨_, _, rfl⟩ := List.mem_map.mp ho
          rfl
        · next hone =>
          obtain ⟨outs, houts, hb⟩ := Except.ok_of_bind hb
          cases hb
          obtain ⟨eofs, heofs, houts⟩ := Except.ok_of_bind houts
          exact ⟨_, _, _, rfl, hnew, .drainedAlone hm ht hctrl hopen (by omega) heofs
            (readsAs_of_logicalOutputs houts hs)⟩

theorem forall₂_snoc {α β : Type} {R : α → β → Prop} {as : List α} {a : α} {bs : List β}
    (h : List.Forall₂ R (as ++ [a]) bs) :
    ∃ bs' b, List.Forall₂ R as bs' ∧ R a b ∧ bs = bs' ++ [b] := by
  induction as generalizing bs with
  | nil =>
    obtain ⟨b, _, hb, hnil, rfl⟩ := List.forall₂_cons_left_iff.mp h
    cases hnil
    exact ⟨[], b, .nil, hb, rfl⟩
  | cons a' as ih =>
    obtain ⟨b', _, hb', hrest, rfl⟩ := List.forall₂_cons_left_iff.mp h
    obtain ⟨bs', b, hbs, hb, rfl⟩ := ih hrest
    exact ⟨b' :: bs', b, .cons hb' hbs, hb, rfl⟩

theorem recorded_handleFlushOrder {clientId : Nat} {ctrl : ControlMessage} {payload : Bytes}
    (hp : unpackPacket body = .ok (MessageType.flushOrder.toNat, clientId, payload))
    (hctrl : ControlMessage.deserialize payload = .ok ctrl)
    (hc : (cfg.handleFlushOrder h sumSeq clientId ctrl).call = some c)
    (ha : Appends cfg.handler h c record) : RecordedAs cfg h (.control body) record := by
  unfold handleFlushOrder at hc
  split at hc
  · cases hc
  · next hi =>
    split at hc
    · cases hc
    · next hl =>
      cases hc
      obtain ⟨hnew, change, outputs, entries, hb, hs, rfl⟩ := appends_handle ha
      have hopen := isClosed_of_not_ignored hi hnew
      obtain ⟨drain, hdrain, hb⟩ := Except.ok_of_bind hb
      obtain ⟨ackPayload, hdumps, hb⟩ := Except.ok_of_bind hb
      obtain ⟨packet, hpacket, hb⟩ := Except.ok_of_bind hb
      cases hb
      obtain ⟨drain', ack, hd, hack, rfl⟩ := forall₂_snoc hs
      exact ⟨_, _, _, rfl, hnew, .drainedOrder hp hctrl hopen (by simpa using hl)
        (readsAs_of_logicalOutputs hdrain hd) hdumps hpacket hack⟩

theorem recorded_handleFlushAck {clientId : Nat} {payload : Bytes}
    (hp : unpackPacket body = .ok (MessageType.flushAck.toNat, clientId, payload))
    (hc : (cfg.handleFlushAck h sumSeq clientId payload).call = some c)
    (ha : Appends cfg.handler h c record) : RecordedAs cfg h (.response body) record := by
  unfold handleFlushAck at hc
  split at hc
  · cases hc
  · next senderId counts hload =>
    split at hc
    · cases hc
    · next hi =>
      split at hc
      · cases hc
      · next hl =>
        cases hc
        obtain ⟨hnew, change, outputs, entries, hb, hs, rfl⟩ := appends_handle ha
        have hopen := isClosed_of_not_ignored hi hnew
        have hleader : h.workerState.coordinator.leaderExpected.get? clientId ≠ none := by
          simpa [hnew] using hl
        unfold flushAckFn at hb
        split at hb
        · next hmore =>
          cases hb
          cases hs
          exact ⟨_, _, _, rfl, hnew, .acked hp hload hopen hleader hmore⟩
        · next hlast =>
          obtain ⟨outs, houts, hb⟩ := Except.ok_of_bind hb
          cases hb
          obtain ⟨eofs, heofs, houts⟩ := Except.ok_of_bind houts
          exact ⟨_, _, _, rfl, hnew, .drainedLast hp hload hopen hleader (by omega) heofs
            (readsAs_of_logicalOutputs houts hs)⟩

theorem recorded_handleEofReceived {n : Node FilterState FilterState FilterChange} {clientId : Nat}
    {ctrl : ControlMessage} {payload : Bytes} {f : FilterState → FilterState}
    (hp : unpackPacket body = .ok (MessageType.eofReceived.toNat, clientId, payload))
    (hctrl : ControlMessage.deserialize payload = .ok ctrl)
    (hc : (cfg.handleEofReceived n.handler clientId ctrl).call = some c)
    (ha : Appends cfg.handler (n.mutate f).handler c record) :
    RecordedAs cfg n.handler (.control body) record := by
  cases hc
  obtain ⟨hnew, change, outputs, entries, hb, hs, rfl⟩ := appends_handle ha
  unfold eofReceivedResult at hb
  simp only at hb
  split at hb
  · next queueName message hact =>
    obtain ⟨bytes, hbytes, hb⟩ := Except.ok_of_bind hb
    cases hb
    obtain ⟨payload', -, hpacket⟩ := exists_createPacket hbytes
    have ht : message.msgType = .processedAnswer :=
      EofCoordinator.msgType_of_onEofReceived cfg.coordinator hact
    rw [ht] at hpacket
    refine ⟨_, _, _, rfl, hnew, .answered hp hctrl (ofType_of_forall₂ hpacket ?_ hs)⟩
    intro o ho
    obtain rfl := List.mem_singleton.mp ho
    rfl
  · cases hb
    cases hs
    exact ⟨_, _, _, rfl, hnew, .answered hp hctrl nofun⟩

end inversion

end FilterConfig

/-! ## One section of a replica -/

namespace FilterConfig

variable (cfg : FilterConfig) (h : Handler FilterState) (sumSeq : String → Nat)

/-- Only the announcement of an EOF and the answers of a round touch the coordinator directly. -/
theorem mutate_process (body : Bytes) : (cfg.process sumSeq body).mutate = fun s => s := by
  unfold process
  split
  · rfl
  · split <;> rfl

theorem mutate_handleUpstreamEof (body : Bytes) :
    (cfg.handleUpstreamEof h sumSeq body).mutate = fun s => s := by
  unfold handleUpstreamEof
  split
  · rfl
  · split
    · rfl
    · split <;> rfl

theorem mutate_onInputMessage (body : Bytes) :
    (cfg.onInputMessage h sumSeq body).mutate = fun s => s := by
  unfold onInputMessage
  split
  · exact mutate_process cfg sumSeq body
  · exact mutate_handleUpstreamEof cfg h sumSeq body
  · exact mutate_process cfg sumSeq body
  · rfl

theorem mutate_handleFlushOrder (clientId : Nat) (ctrl : ControlMessage) :
    (cfg.handleFlushOrder h sumSeq clientId ctrl).mutate = fun s => s := by
  unfold handleFlushOrder
  split
  · rfl
  · split <;> rfl

theorem mutate_handleFlushAck (clientId : Nat) (payload : Bytes) :
    (cfg.handleFlushAck h sumSeq clientId payload).mutate = fun s => s := by
  unfold handleFlushAck
  split
  · rfl
  · split
    · rfl
    · split <;> rfl

theorem first_of_head? {body : Bytes} {first : Nat} (h : body.head?.map UInt8.toNat = some first) :
    beDecode (body.take 1) = first := by
  cases body with
  | nil => cases h
  | cons b bs =>
    simp only [List.head?_cons, Option.map_some, Option.some.injEq] at h
    simp [beDecode, h]

end FilterConfig

namespace FilterWorker

open FilterConfig

variable {cfg : FilterConfig} {w w' : FilterWorker} {act : FilterAct} {outcome : Outcome}

theorem prepared_of_mutate (h : (w.sectionOf cfg act).mutate = fun s => s) :
    w.prepared cfg act = w.node := by
  rw [prepared, h]
  rfl

/-- The record of a section: the end of an input, or what its delivery records. -/
theorem record_cases {c : Call FilterState FilterChange} {record : WalRecord FilterChange}
    (hc : (w.sectionOf cfg act).call = some c)
    (ha : Appends cfg.handler (w.prepared cfg act).handler c record) :
    (∃ key, act = .commitDone key ∧ record = .inputDone (cfg.handler.msgId key) key) ∨
    ∃ d sumSeq, act = .deliver d sumSeq ∧ cfg.RecordedAs w.node.handler d record := by
  cases act with
  | commitDone key =>
    cases hc
    exact .inl ⟨key, rfl, ha⟩
  | deliver d sumSeq =>
    refine .inr ⟨d, sumSeq, rfl, ?_⟩
    cases d with
    | input body =>
      have hm : (w.sectionOf cfg (.deliver (.input body) sumSeq)).mutate = fun s => s :=
        mutate_onInputMessage cfg _ sumSeq body
      rw [prepared_of_mutate hm] at ha
      simp only [sectionOf, onDelivery, onInputMessage] at hc
      split at hc
      · next hfirst => exact recorded_process hc ha (.inl rfl) (first_of_head? hfirst)
      · next hfirst => exact recorded_handleUpstreamEof hc ha (first_of_head? hfirst)
      · next hfirst => exact recorded_process hc ha (.inr rfl) (first_of_head? hfirst)
      · cases hc
    | control body =>
      have hsec : w.sectionOf cfg (.deliver (.control body) sumSeq) =
        cfg.handleControl w.node.handler sumSeq body := rfl
      unfold handleControl at hsec
      split at hsec
      · rw [hsec] at hc; cases hc
      · next msgType clientId payload hp =>
        split at hsec
        · rw [hsec] at hc; cases hc
        · next ctrl hctrl =>
          split at hsec
          · next ht =>
            have hm : (w.sectionOf cfg (.deliver (.control body) sumSeq)).mutate = fun s => s := by
              rw [hsec]; exact mutate_handleFlushOrder cfg _ sumSeq clientId ctrl
            rw [prepared_of_mutate hm] at ha
            rw [hsec] at hc
            exact recorded_handleFlushOrder (MessageType.toNat_of_ofNat? ht ▸ hp) hctrl hc ha
          · next ht =>
            rw [hsec] at hc
            exact recorded_handleEofReceived (MessageType.toNat_of_ofNat? ht ▸ hp) hctrl hc ha
          · rw [hsec] at hc; cases hc
          · rw [hsec] at hc; cases hc
    | response body =>
      have hsec : w.sectionOf cfg (.deliver (.response body) sumSeq) =
        cfg.handleResponse w.node.handler sumSeq body := rfl
      unfold handleResponse at hsec
      split at hsec
      · rw [hsec] at hc; cases hc
      · next msgType clientId payload hp =>
        split at hsec
        · rw [hsec] at hc; cases hc
        · next ht =>
          have hm : (w.sectionOf cfg (.deliver (.response body) sumSeq)).mutate = fun s => s := by
            rw [hsec]; exact mutate_handleFlushAck cfg _ sumSeq clientId payload
          rw [prepared_of_mutate hm] at ha
          rw [hsec] at hc
          exact recorded_handleFlushAck (MessageType.toNat_of_ofNat? ht ▸ hp) hc ha
        · split at hsec <;> (rw [hsec] at hc; cases hc)

/-- What a section does to the coordinator outside the log is not durable. -/
theorem durable_mutate (s : EofCoordinator) :
    ((w.sectionOf cfg act).mutate s).durable = s.durable := by
  cases act with
  | commitDone key => rfl
  | deliver d sumSeq =>
    cases d with
    | input body =>
      exact congrArg (fun f => (f s).durable) (mutate_onInputMessage cfg _ sumSeq body)
    | control body =>
      simp only [sectionOf, onDelivery, handleControl]
      split
      · rfl
      · next msgType clientId payload hp =>
        split
        · rfl
        · next ctrl hctrl =>
          split
          · rw [mutate_handleFlushOrder]
          · simp only [handleEofReceived]
            split
            · exact EofCoordinator.durable_processControlMessage_of_ne _ _ _ _ _ _ _ nofun
            · rfl
          · rfl
          · rfl
    | response body =>
      simp only [sectionOf, onDelivery, handleResponse]
      split
      · rfl
      · next msgType clientId payload hp =>
        split
        · rfl
        · rw [mutate_handleFlushAck]
        · next msgType hne ht =>
          split
          · rfl
          · exact EofCoordinator.durable_processControlMessage_of_ne _ _ _ _ _ _ _
              fun he => hne (by rw [he])

/-- Memory and disk agree with the history, up to the coordinator's volatile part. -/
def Durable (cfg : FilterConfig) (w : FilterWorker) : Prop :=
  w.node.Inv cfg.handler cfg.view

theorem durable_init : Durable cfg (init cfg) := Node.inv_init

theorem Durable.prepared (hi : w.Durable cfg) (act : FilterAct) :
    (w.prepared cfg act).Inv cfg.handler cfg.view := by
  refine Node.Inv.mutate hi fun s => ?_
  change FilterState.durable _ = FilterState.durable _
  simp only [FilterState.durable, durable_mutate]

/-- One section: it succeeds, keeps the invariant, and adds at most its record to the history. -/
theorem Durable.runSection (hi : w.Durable cfg) (act : FilterAct) (outcome : Outcome) :
    ∃ node, runSection cfg (w.prepared cfg act) (w.sectionOf cfg act).call outcome = .ok node ∧
      node.Inv cfg.handler cfg.view ∧
      (node.history = w.node.history ∨ ∃ c record, (w.sectionOf cfg act).call = some c ∧
        Appends cfg.handler (w.prepared cfg act).handler c record ∧
        node.history = w.node.history ++ [record]) := by
  have hp := hi.prepared act
  have hh : (w.prepared cfg act).history = w.node.history := rfl
  cases hc : (w.sectionOf cfg act).call with
  | none =>
    cases outcome with
    | returns => exact ⟨_, rfl, hp, .inl rfl⟩
    | appendFails => exact ⟨_, rfl, hp, .inl rfl⟩
    | crashes steps =>
      obtain ⟨n', hn, hi', hh', -⟩ := hp.crashDuring .snapshotNow 0
      exact ⟨n', hn, hi', .inl (by simpa [appendedRecords, hh] using hh')⟩
  | some c =>
    cases outcome with
    | returns =>
      obtain ⟨hi', hh'⟩ := hp.call (.ok ⟨⟩) c
      refine ⟨_, rfl, hi', hh'.imp And.left ?_⟩
      rintro ⟨_, r, ha, hr⟩
      exact ⟨c, r, rfl, ha, hr⟩
    | appendFails =>
      obtain ⟨hi', hh'⟩ := hp.call (.error "write failed") c
      refine ⟨_, rfl, hi', hh'.imp And.left ?_⟩
      rintro ⟨_, r, ha, hr⟩
      exact ⟨c, r, rfl, ha, hr⟩
    | crashes steps =>
      obtain ⟨n', hn, hi', -, hh'⟩ := hp.crashDuring c steps
      refine ⟨n', hn, hi', hh'.imp_right ?_⟩
      rintro ⟨r, ha, hr⟩
      exact ⟨c, r, rfl, ha, hr⟩

/-- Every section is enabled. -/
theorem Durable.exists_exec (hi : w.Durable cfg) (act : FilterAct) (outcome : Outcome) :
    ∃ w', w.exec cfg act outcome = some w' := by
  obtain ⟨node, hn, -⟩ := hi.runSection act outcome
  simp [exec, hn]

/-- The state in memory is, up to the volatile part, the one that the history describes. -/
theorem Durable.state_eq (hi : w.Durable cfg) : w.state.durable =
    (specState cfg.handler cfg.view w.node.history).workerState :=
  Node.Inv.workerState hi

/-- **Inversion of a section.** The invariant is kept, and nothing is recorded, or an input is
finished, or the delivered message is recorded in one of the ways of `Recorded` and its change is
applied. -/
theorem Durable.exec_cases (hi : w.Durable cfg) (he : w.exec cfg act outcome = some w') :
    w'.Durable cfg ∧
    ((w'.node.history = w.node.history ∨ ∃ key, act = .commitDone key ∧
        w'.node.history = w.node.history ++ [.inputDone (cfg.handler.msgId key) key]) ∧
      w'.routed = w.routed ∧ w'.state.durable = w.state.durable ∨
    ∃ d sumSeq key change entries, act = .deliver d sumSeq ∧
      w'.node.history = w.node.history ++
        [.inputApplied (cfg.handler.msgId key) key change entries] ∧
      w'.routed = w.routed ++ batchOf w.state act ∧
      w'.state.durable = (w.state.applyChange cfg.state change).durable ∧
      w.node.handler.inbox.classify key = .new ∧
      Recorded cfg w.state d key change entries) := by
  obtain ⟨node, hn, hi', hh⟩ := hi.runSection act outcome
  rw [exec, hn] at he
  cases he
  have hs := Node.Inv.workerState hi'
  refine ⟨hi', ?_⟩
  rcases hh with hh | ⟨c, record, hc, ha, hh⟩
  · refine .inl ⟨.inl hh, by simp [hh], hs.trans ?_⟩
    rw [hi.state_eq, hh]
  · have hlen : w.node.history.length < node.history.length := by simp [hh]
    simp only [hlen, if_true]
    rcases record_cases hc ha with ⟨key, rfl, rfl⟩ |
      ⟨d, sumSeq, rfl, key, change, entries, rfl, hnew, hr⟩
    · refine .inl ⟨.inr ⟨key, rfl, hh⟩, by simp [batchOf], hs.trans ?_⟩
      rw [hi.state_eq, hh, specState_snoc]
      rfl
    · refine .inr ⟨d, sumSeq, key, change, entries, rfl, hh, trivial, hs.trans ?_, hnew, hr⟩
      rw [← FilterState.durable_applyChange, hi.state_eq, hh, specState_snoc]
      rfl

/-- The entries that a section records are stamped for the client of its input. -/
theorem Durable.exec_stampedAs (hi : w.Durable cfg)
    (he : w.exec cfg act outcome = some w') {m : String}
    {key : InputKey} {change : FilterChange} {entries : List OutboxEntry}
    (hh : w'.node.history = w.node.history ++ [.inputApplied m key change entries])
    {e : OutboxEntry} (hm : e ∈ entries) :
    ∃ output, StampedAs cfg.handler.toSequencerConfig key.clientId output e := by
  obtain ⟨node, hn, -, hcases⟩ := hi.runSection act outcome
  rw [exec, hn] at he
  cases he
  change node.history = _ at hh
  rcases hcases with hsame | ⟨c, record, -, ha, happ⟩
  · rw [hsame] at hh
    simp at hh
  · obtain rfl : record = .inputApplied m key change entries := by
      simpa using (happ.symm.trans hh)
    cases c with
    | handle key' fn =>
      obtain ⟨-, change', logical, outputs, -, hstamp, heq⟩ := ha
      cases heq
      obtain ⟨logical, -, hl⟩ := (forall₂_of_stamp hstamp).exists_left hm
      exact ⟨logical, hl⟩
    | commitDone key' => cases ha
    | snapshotNow => cases ha

end FilterWorker

end MoneyLaundering
