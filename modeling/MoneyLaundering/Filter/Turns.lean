import MoneyLaundering.FaultTolerance.DecodedRecords
import MoneyLaundering.Filter.Facts

/-!
# What a filter does with a message of the rounds

Every section whose handler returns is a turn of what the replica holds about a client
(`FilterConfig.Turn`): the message has nothing left to do, or it moves the rounds of the client on
and makes the replica send the message that the next turn waits for.
-/

namespace MoneyLaundering

open Bytes InternalProtocol EofCoordinator SenderSequencer

/-- What an entry of the outbox puts on its queue. -/
def OutboxEntry.parcel (e : OutboxEntry) : String × Bytes := (e.destination, e.body)

namespace FilterConfig

variable (cfg : FilterConfig)

/-! ## Turns -/

/-- The body is a well-formed upstream EOF of the client. -/
def IsEof (c : Nat) (body : Bytes) : Prop :=
  ∃ m ctrl, unpackAddressedPacket body = .ok m ∧ m.msgType = MessageType.eof.toNat ∧
    m.clientId = c ∧ ControlMessage.deserialize m.payload = .ok ctrl

/-- The body is the ack of replica `j`. -/
def IsAck (c j : Nat) (body : Bytes) : Prop :=
  ∃ payload counts, unpackPacket body = .ok (MessageType.flushAck.toNat, c, payload) ∧
    cfg.flushAckJson.loads payload = .ok (j, counts)

/-- The packet tells nothing about the rounds of the client. -/
def Mute (c : Nat) (x : String × Bytes) : Prop :=
  ∀ msgType payload, unpackPacket x.2 = .ok (msgType, c, payload) →
    msgType = MessageType.data.toNat ∨ msgType = MessageType.eof.toNat ∨
      msgType = MessageType.abort.toNat

/-- A message that has nothing left to do for a client. -/
def Absorbed (c : Nat) (x : FilterFacts) : Delivery → Prop
  | .input body => IsEof c body → x.leads = true ∨ x.closed = true
  | .control body => ∀ msgType ctrl, parseMessage body = .ok (some msgType, c, ctrl) →
    (msgType = .eofReceived → x.pending ≠ none ∨ x.closed = true) ∧
    (msgType = .processedRequest → x.pending = none) ∧
    (msgType = .flushOrder → x.closed = true ∨ x.leads = true)
  | .response body =>
    (∀ ctrl, parseMessage body = .ok (some .processedAnswer, c, ctrl) →
      ctrl.senderId ∈ x.responders) ∧
    ∀ j, cfg.IsAck c j body → x.closed = true ∨ x.leads = false ∨ j ∈ x.acks

/-- What a message does to what a replica holds about a client, and what it makes it send. -/
inductive Turn (c : Nat) (x : FilterFacts) :
    Delivery → FilterFacts → List (String × Bytes) → Prop
  | idle {d : Delivery} {outs : List (String × Bytes)} (h : cfg.Absorbed c x d)
      (hmute : ∀ y ∈ outs, Mute c y) : Turn c x d x outs
  | announce {body bytes : Bytes} {expected : Nat} (hin : IsEof c body)
      (hN : 1 < cfg.filterAmount) (hopen : x.closed = false)
      (hb : ControlPacket.toBytes
        ⟨.eofReceived, c, { senderId := cfg.id, expectedTotal := expected }⟩ = .ok bytes) :
      Turn c x (.input body) { x with leads := true } (broadcastSends cfg.coordinator bytes)
  | alone {body : Bytes} {outs : List (String × Bytes)} (hin : IsEof c body)
      (hN : cfg.filterAmount ≤ 1) (hmute : ∀ y ∈ outs, Mute c y) :
      Turn c x (.input body) { x with closed := true, acks := ∅ } outs
  | answer {body bytes : Bytes} {ctrl : ControlMessage} {count forwarded : Nat}
      (hp : parseMessage body = .ok (some .eofReceived, c, ctrl)) (hnew : x.pending = none)
      (hb : (buildAnswer cfg.coordinator c count forwarded).toBytes = .ok bytes) :
      Turn c x (.control body) { x with pending := some ctrl.senderId }
        [(cfg.coordinator.responseQueueFor ctrl.senderId, bytes)]
  | recount {body bytes : Bytes} {ctrl : ControlMessage} {leader count forwarded : Nat}
      (hp : parseMessage body = .ok (some .processedRequest, c, ctrl))
      (hpend : x.pending = some leader)
      (hb : (buildAnswer cfg.coordinator c count forwarded).toBytes = .ok bytes) :
      Turn c x (.control body) x [(cfg.coordinator.responseQueueFor leader, bytes)]
  | flush {body ack : Bytes} {ctrl : ControlMessage} {outs : List (String × Bytes)}
      (hp : parseMessage body = .ok (some .flushOrder, c, ctrl)) (hopen : x.closed = false)
      (hleads : x.leads = false) (hmute : ∀ y ∈ outs, Mute c y) (hack : cfg.IsAck c cfg.id ack) :
      Turn c x (.control body) { x with closed := true, pending := none, acks := ∅ }
        (outs ++ [(cfg.coordinator.responseQueueFor ctrl.senderId, ack)])
  | collect {body : Bytes} {ctrl : ControlMessage}
      (hp : parseMessage body = .ok (some .processedAnswer, c, ctrl))
      (hnew : ctrl.senderId ∉ x.responders)
      (hmore : x.leads = false ∨ (insert ctrl.senderId x.responders).card < cfg.filterAmount) :
      Turn c x (.response body) { x with responders := insert ctrl.senderId x.responders } []
  | endRound {body bytes : Bytes} {ctrl : ControlMessage} {expected : Nat} {enough : Bool}
      (hp : parseMessage body = .ok (some .processedAnswer, c, ctrl))
      (hnew : ctrl.senderId ∉ x.responders) (hleads : x.leads = true)
      (hall : cfg.filterAmount ≤ (insert ctrl.senderId x.responders).card)
      (hb : (roundEnd cfg.coordinator c expected enough).toBytes = .ok bytes) :
      Turn c x (.response body) { x with responders := ∅ } (broadcastSends cfg.coordinator bytes)
  | ackMissing {body : Bytes} {j : Nat} (hp : cfg.IsAck c j body) (hopen : x.closed = false)
      (hleads : x.leads = true) (hlt : x.acks.card + 1 < cfg.filterAmount - 1) :
      Turn c x (.response body) { x with acks := insert j x.acks } []
  | ackLast {body : Bytes} {j : Nat} {outs : List (String × Bytes)} (hp : cfg.IsAck c j body)
      (hopen : x.closed = false) (hleads : x.leads = true) (hmute : ∀ y ∈ outs, Mute c y) :
      Turn c x (.response body)
        { x with closed := true, leads := false, pending := none, acks := ∅ } outs

/-- What a recorded input says about its client. -/
structure Fits (x : FilterFacts) (key : InputKey) : Prop where
  announced : key.kind = .ctrlEofReceived → x.pending ≠ none ∨ x.closed = true
  ordered : key.kind = .ctrlFlushOrder → x.closed = true
  acked : key.kind = .ctrlFlushAck → x.closed = true ∨ key.senderId ∈ x.acks

theorem Fits.of_input {x : FilterFacts} {key : InputKey}
    (hk : key.kind = .data ∨ key.kind = .abort) : Fits x key := by
  constructor <;> intro hk' <;> rw [hk'] at hk <;> simp at hk

theorem Fits.of_announced {x : FilterFacts} {key : InputKey} (hk : key.kind = .ctrlEofReceived)
    (h : x.pending ≠ none ∨ x.closed = true) : Fits x key where
  announced _ := h
  ordered hk' := by cases hk.symm.trans hk'
  acked hk' := by cases hk.symm.trans hk'

theorem Fits.of_ordered {x : FilterFacts} {key : InputKey} (hk : key.kind = .ctrlFlushOrder)
    (h : x.closed = true) : Fits x key where
  announced hk' := by cases hk.symm.trans hk'
  ordered _ := h
  acked hk' := by cases hk.symm.trans hk'

theorem Fits.of_acked {x : FilterFacts} {key : InputKey} (hk : key.kind = .ctrlFlushAck)
    (h : x.closed = true ∨ key.senderId ∈ x.acks) : Fits x key where
  announced hk' := by cases hk.symm.trans hk'
  ordered hk' := by cases hk.symm.trans hk'
  acked _ := h

/-- The control and response queues of the replicas are not among the outputs. -/
structure PlainQueues : Prop where
  control : ∀ j, cfg.outputEdges.get? (cfg.coordinator.controlQueueFor j) = none
  response : ∀ j, cfg.outputEdges.get? (cfg.coordinator.responseQueueFor j) = none

variable {cfg} {c : Nat} {x x' : FilterFacts} {d : Delivery} {outs : List (String × Bytes)}

/-! ### What stays -/

theorem Turn.closed (h : cfg.Turn c x d x' outs) (hc : x.closed = true) : x'.closed = true := by
  cases h with
  | alone | flush | ackLast => rfl
  | _ => exact hc

theorem Turn.begun (h : cfg.Turn c x d x' outs) (hb : x.leads = true ∨ x.closed = true) :
    x'.leads = true ∨ x'.closed = true := by
  cases h with
  | announce => exact .inl rfl
  | alone | flush | ackLast => exact .inr rfl
  | _ => exact hb

theorem Turn.answered (h : cfg.Turn c x d x' outs) (ha : x.pending ≠ none ∨ x.closed = true) :
    x'.pending ≠ none ∨ x'.closed = true := by
  cases h with
  | answer => exact .inl nofun
  | alone | flush | ackLast => exact .inr rfl
  | _ => exact ha

theorem Turn.acks (h : cfg.Turn c x d x' outs) {j : Nat} (ha : x.closed = true ∨ j ∈ x.acks) :
    x'.closed = true ∨ j ∈ x'.acks := by
  cases h with
  | alone | flush | ackLast => exact .inl rfl
  | ackMissing => exact ha.imp_right Finset.mem_insert_of_mem
  | _ => exact ha

theorem Fits.turn {key : InputKey} (h : Fits x key) (ht : cfg.Turn c x d x' outs) :
    Fits x' key where
  announced hk := ht.answered (h.announced hk)
  ordered hk := ht.closed (h.ordered hk)
  acked hk := ht.acks (h.acked hk)

/-! ### Messages and their handlers -/

theorem parseMessage_eq {body payload : Bytes} {msgType clientId : Nat} {ctrl : ControlMessage}
    (hp : unpackPacket body = .ok (msgType, clientId, payload))
    (hctrl : ControlMessage.deserialize payload = .ok ctrl) :
    parseMessage body = .ok (MessageType.ofNat? msgType, clientId, ctrl) := by
  rw [parseMessage, hp, Except.ok_bind]
  dsimp only
  rw [hctrl]
  rfl

variable (cfg) in
theorem closingInput_of_isEof {body : Bytes} (h : IsEof c body) :
    ∃ senderId seq, cfg.closingInput (.input body) = some ⟨c, .data, senderId, seq⟩ := by
  obtain ⟨m, ctrl, hm, ht, rfl, hctrl⟩ := h
  have hfirst : body.head?.map UInt8.toNat = some 1 := by
    rw [msgType_of_unpackAddressedPacket hm] at ht
    cases body with
    | nil => cases ht
    | cons b bs => simpa [beDecode, MessageType.toNat] using ht
  refine ⟨m.senderId, m.seq, ?_⟩
  simp only [closingInput, hfirst, hm, hctrl]

theorem closingInput_of_order {body : Bytes} {ctrl : ControlMessage}
    (h : parseMessage body = .ok (some .flushOrder, c, ctrl)) :
    cfg.closingInput (.control body) = some ⟨c, .ctrlFlushOrder, ctrl.senderId, c⟩ := by
  obtain ⟨payload, hp, hctrl⟩ := unpacked_of_parseMessage h
  simp only [closingInput, hp, hctrl, MessageType.ofNat?_toNat]

theorem closingInput_of_isAck {body : Bytes} {j : Nat} (h : cfg.IsAck c j body) :
    cfg.closingInput (.response body) = some ⟨c, .ctrlFlushAck, j, c⟩ := by
  obtain ⟨payload, counts, hp, hload⟩ := h
  simp only [closingInput, hp, hload, MessageType.ofNat?_toNat]

section handlers
variable {h : Handler FilterState} {sumSeq : String → Nat} {body : Bytes} {ctrl : ControlMessage}

theorem onDelivery_of_announcement (hp : parseMessage body = .ok (some .eofReceived, c, ctrl)) :
    cfg.onDelivery h sumSeq (.control body) = cfg.handleEofReceived h c ctrl := by
  obtain ⟨payload, hp, hctrl⟩ := unpacked_of_parseMessage hp
  simp only [onDelivery, handleControl, hp, hctrl, MessageType.ofNat?_toNat]

theorem onDelivery_of_request (hp : parseMessage body = .ok (some .processedRequest, c, ctrl)) :
    cfg.onDelivery h sumSeq (.control body) = cfg.handleProcessedRequest h c ctrl := by
  obtain ⟨payload, hp, hctrl⟩ := unpacked_of_parseMessage hp
  simp only [onDelivery, handleControl, hp, hctrl, MessageType.ofNat?_toNat]

theorem call_of_answer (hp : parseMessage body = .ok (some .processedAnswer, c, ctrl)) :
    (cfg.onDelivery h sumSeq (.response body)).call = none := by
  obtain ⟨payload, hp, hctrl⟩ := unpacked_of_parseMessage hp
  simp only [onDelivery, handleResponse, hp, hctrl, MessageType.ofNat?_toNat]

end handlers

/-! ### What is sent -/

theorem Mute.parse {y : String × Bytes} {msgType : MessageType} {ctrl : ControlMessage}
    (h : Mute c y) (hp : parseMessage y.2 = .ok (some msgType, c, ctrl)) :
    msgType = .data ∨ msgType = .eof ∨ msgType = .abort := by
  obtain ⟨payload, hu, -⟩ := unpacked_of_parseMessage hp
  simpa only [MessageType.toNat_injective.eq_iff] using h _ _ hu

theorem Mute.not_isAck {y : String × Bytes} (h : Mute c y) (j : Nat) : ¬ cfg.IsAck c j y.2 := by
  rintro ⟨payload, counts, hu, -⟩
  rcases h _ _ hu with ht | ht | ht <;> exact absurd ht (by decide)

theorem IsAck.parse {body : Bytes} {j c' : Nat} {msgType : MessageType} {ctrl : ControlMessage}
    (h : cfg.IsAck c j body) (hp : parseMessage body = .ok (some msgType, c', ctrl)) :
    msgType = .flushAck := by
  obtain ⟨payload, counts, hu, -⟩ := h
  obtain ⟨payload', hu', -⟩ := unpacked_of_parseMessage hp
  exact MessageType.toNat_injective (Prod.mk.inj (Except.ok.inj (hu'.symm.trans hu))).1

theorem IsAck.sender {body : Bytes} {j k : Nat} (h : cfg.IsAck c j body)
    (h' : cfg.IsAck c k body) : j = k := by
  obtain ⟨payload, counts, hu, hload⟩ := h
  obtain ⟨payload', counts', hu', hload'⟩ := h'
  cases hu.symm.trans hu'
  cases hload.symm.trans hload'
  rfl

variable (cfg c x x' d) in
/-- What a turn can send. -/
inductive Sent (y : String × Bytes) : Prop
  | mute (h : Mute c y)
  | announcement {ctrl : ControlMessage} {j : Nat}
      (hp : parseMessage y.2 = .ok (some .eofReceived, c, ctrl))
      (hq : y.1 = cfg.coordinator.controlQueueFor j) (hid : ctrl.senderId = cfg.id)
      (hleads : x'.leads = true) (hin : ∃ body, d = .input body ∧ IsEof c body)
  | answer {ctrl : ControlMessage} (hp : parseMessage y.2 = .ok (some .processedAnswer, c, ctrl))
      (hid : ctrl.senderId = cfg.id) (hpend : x'.pending ≠ none)
  | roundEnd {ctrl : ControlMessage} {msgType : MessageType}
      (hp : parseMessage y.2 = .ok (some msgType, c, ctrl))
      (ht : msgType = .flushOrder ∨ msgType = .processedRequest) (hid : ctrl.senderId = cfg.id)
      (hleads : x.leads = true ∧ x'.leads = true)
  | ack (h : cfg.IsAck c cfg.id y.2) (hclosed : x'.closed = true)

theorem Turn.sent (h : cfg.Turn c x d x' outs) {y : String × Bytes} (hy : y ∈ outs) :
    cfg.Sent c x x' d y := by
  cases h with
  | idle _ hmute | alone _ _ hmute | ackLast _ _ _ hmute => exact .mute (hmute y hy)
  | announce hin hN hopen hb =>
    obtain ⟨queueName, hq, rfl⟩ := List.mem_map.mp hy
    obtain ⟨j, -, rfl⟩ := List.mem_map.mp hq
    exact .announcement (parseMessage_toBytes hb) rfl rfl rfl ⟨_, rfl, hin⟩
  | answer hp hnew hb =>
    cases List.mem_singleton.mp hy
    exact .answer (parseMessage_toBytes hb) rfl nofun
  | recount hp hpend hb =>
    cases List.mem_singleton.mp hy
    exact .answer (parseMessage_toBytes hb) rfl (by rw [hpend]; exact nofun)
  | flush hp hopen hleads hmute hack =>
    rcases List.mem_append.mp hy with hy | hy
    · exact .mute (hmute y hy)
    · cases List.mem_singleton.mp hy
      exact .ack hack rfl
  | collect | ackMissing => cases hy
  | @endRound body bytes ctrl expected enough hp hnew hleads hall hb =>
    obtain ⟨queueName, -, rfl⟩ := List.mem_map.mp hy
    refine .roundEnd (parseMessage_toBytes hb) ?_ rfl ⟨hleads, hleads⟩
    cases enough
    · exact .inr rfl
    · exact .inl rfl

/-! ### Packets -/

theorem exists_bytes {p : ControlPacket} (h : p.toBytes.isOk = true) :
    ∃ bytes, p.toBytes = .ok bytes := by
  cases hb : p.toBytes with
  | error e =>
    rw [hb] at h
    cases h
  | ok bytes => exact ⟨bytes, rfl⟩

theorem mute_of_first {y : String × Bytes}
    (h : beDecode (y.2.take 1) = MessageType.data.toNat ∨
      beDecode (y.2.take 1) = MessageType.eof.toNat ∨
      beDecode (y.2.take 1) = MessageType.abort.toNat) : Mute c y := by
  intro msgType payload hp
  rwa [msgType_of_unpackPacket hp]

theorem mute_of_client {y : String × Bytes} {msgType clientId : Nat} {payload : Bytes}
    (h : unpackPacket y.2 = .ok (msgType, clientId, payload)) (hne : clientId ≠ c) : Mute c y := by
  intro msgType' payload' hp
  cases h.symm.trans hp
  exact absurd rfl hne

theorem unpackPacket_toBytes {p : ControlPacket} {bytes : Bytes} (h : p.toBytes = .ok bytes) :
    ∃ payload, unpackPacket bytes = .ok (p.msgType.toNat, p.clientId, payload) := by
  obtain ⟨payload, -, hcreate⟩ := exists_createPacket h
  exact ⟨payload, unpackPacket_createPacket hcreate⟩

theorem mute_broadcast {p : ControlPacket} {bytes : Bytes} (h : p.toBytes = .ok bytes)
    (hne : p.clientId ≠ c) (ccfg : CoordinatorConfig) :
    ∀ y ∈ broadcastSends ccfg bytes, Mute c y := by
  intro y hy
  obtain ⟨queueName, -, rfl⟩ := List.mem_map.mp hy
  obtain ⟨payload, hu⟩ := unpackPacket_toBytes h
  exact mute_of_client hu hne

theorem mute_of_readsAs {entries : List OutboxEntry} {packets : List Packet}
    (h : cfg.ReadsAs entries packets) (ht : ∀ p ∈ packets, p.msgType = .data ∨ p.msgType = .eof) :
    ∀ y ∈ entries.map OutboxEntry.parcel, Mute c y := by
  intro y hy
  obtain ⟨e, he, rfl⟩ := List.mem_map.mp hy
  obtain ⟨p, hp, hf⟩ := h.first he
  refine mute_of_first ((ht p hp).imp (fun ht => ?_) fun ht => .inl ?_)
  · rw [OutboxEntry.parcel, hf, ht]
  · rw [OutboxEntry.parcel, hf, ht]

theorem mute_of_abort {entries : List OutboxEntry} (h : OfType .abort entries) :
    ∀ y ∈ entries.map OutboxEntry.parcel, Mute c y := by
  intro y hy
  obtain ⟨e, he, rfl⟩ := List.mem_map.mp hy
  exact mute_of_first (.inr (.inr (h e he)))

/-- Outputs to queues that are no edges are published as they are. -/
theorem parcels_of_plain {clientId : Nat} {logical : List LogicalOutput}
    {entries : List OutboxEntry}
    (hs : List.Forall₂ (StampedAs cfg.handler.toSequencerConfig clientId) logical entries)
    (hplain : ∀ o ∈ logical, cfg.outputEdges.get? o.destination = none) :
    entries.map OutboxEntry.parcel = logical.map fun o => (o.destination, o.body) := by
  induction hs with
  | nil => rfl
  | @cons o e logical entries he _ ih =>
    rw [List.map_cons, List.map_cons, ih fun o hm => hplain o (List.mem_cons_of_mem _ hm),
      OutboxEntry.parcel, he.destination, (he.plain (hplain o List.mem_cons_self)).1]

/-! ### Sections that record nothing -/

/-- The packet of an action. -/
def packetOf : CoordinatorAction → Option ControlPacket
  | .sendAnswer _ message | .broadcast _ message _ => some message
  | .flush .. => none

variable (cfg) in
/-- The action that a handler carries out itself: the answer to a request, or the end of a round. -/
def directAction (h : Handler FilterState) : Delivery → Option CoordinatorAction
  | .input _ => none
  | .control body =>
    match parseMessage body with
    | .ok (some .processedRequest, clientId, ctrl) =>
      (h.workerState.coordinator.processControlMessage cfg.coordinator .processedRequest clientId
        ctrl (h.workerState.processedCount clientId)
        ((h.workerState.forwardedByOutput clientId).entries.map Prod.snd).sum).2
    | _ => none
  | .response body =>
    match parseMessage body with
    | .ok (some .flushAck, _, _) => none
    | .ok (some msgType, clientId, ctrl) =>
      (h.workerState.coordinator.processControlMessage cfg.coordinator msgType clientId ctrl 0 0).2
    | _ => none

variable (cfg) in
/-- The message can be read, or is dropped. A handler raises on any other, and the message goes back
to its queue; for an ack the consumer stops. -/
def readable : Delivery → Bool
  | .input body =>
    match body.head?.map UInt8.toNat with
    | some 0 | some 8 => (unpackAddressedPacket body).isOk
    | some 1 =>
      match unpackAddressedPacket body with
      | .error _ => false
      | .ok m => (ControlMessage.deserialize m.payload).isOk
    | _ => true
  | .control _ => true
  | .response body =>
    match unpackPacket body with
    | .error _ => true
    | .ok (msgType, _, payload) =>
      if msgType = MessageType.flushAck.toNat then (cfg.flushAckJson.loads payload).isOk
      else (ControlMessage.deserialize payload).isOk

variable (cfg) in
/-- The packets that a handler makes itself serialize. -/
def Serializes (h : Handler FilterState) (d : Delivery) : Prop :=
  ∀ action ∈ cfg.directAction h d, ∀ message ∈ packetOf action, message.toBytes.isOk = true

instance (h : Handler FilterState) (d : Delivery) : Decidable (cfg.Serializes h d) :=
  inferInstanceAs (Decidable (∀ action ∈ cfg.directAction h d, ∀ message ∈ packetOf action, _))

/-- The message is no abort of the client. -/
def Spares (c : Nat) (d : Delivery) : Prop :=
  ∀ key ∈ d.packetKey, key.clientId = c → key.kind ≠ .abort

instance (c : Nat) (d : Delivery) : Decidable (Spares c d) :=
  inferInstanceAs (Decidable (∀ key ∈ d.packetKey, _))

variable (cfg) in
/-- The inbox takes an upstream EOF of the client for new, unless the client is led or closed
here. -/
def Heard (c : Nat) (h : Handler FilterState) (d : Delivery) : Prop :=
  ∀ key ∈ cfg.closingInput d, key.kind = .data → key.clientId = c → h.inbox.classify key = .new ∨
    (h.workerState.facts c).leads = true ∨ (h.workerState.facts c).closed = true

instance (c : Nat) (h : Handler FilterState) (d : Delivery) : Decidable (cfg.Heard c h d) :=
  inferInstanceAs (Decidable (∀ key ∈ cfg.closingInput d, _))

section unrecorded
variable {h : Handler FilterState} {sumSeq : String → Nat} {s : FilterState}

/-- The data thread sends nothing itself. -/
theorem sends_input (body : Bytes) : (cfg.onDelivery h sumSeq (.input body)).sends = [] := by
  have hprocess : (cfg.process sumSeq body).sends = [] := by
    unfold process
    split
    · rfl
    · split <;> rfl
  simp only [onDelivery, onInputMessage]
  split
  · exact hprocess
  · unfold handleUpstreamEof
    split
    · rfl
    · split
      · rfl
      · split <;> rfl
  · exact hprocess
  · rfl

variable (cfg h sumSeq) in
theorem sends_handleFlushOrder (clientId : Nat) (ctrl : ControlMessage) :
    (cfg.handleFlushOrder h sumSeq clientId ctrl).sends = [] := by
  unfold handleFlushOrder
  split
  · rfl
  · split <;> rfl

variable (cfg h sumSeq) in
theorem sends_handleFlushAck (clientId : Nat) (payload : Bytes) :
    (cfg.handleFlushAck h sumSeq clientId payload).sends = [] := by
  unfold handleFlushAck
  split
  · rfl
  · split
    · rfl
    · split <;> rfl

/-- What the inbox does not take for new has nothing left to do. -/
theorem absorbed_of_not_new {key : InputKey} {fn : BusinessFn FilterState FilterChange}
    (hc : (cfg.onDelivery h sumSeq d).call = some (.handle key fn))
    (hfits : key.clientId = c → Fits (h.workerState.facts c) key) (hheard : cfg.Heard c h d)
    (hnew : h.inbox.classify key ≠ .new) : cfg.Absorbed c (h.workerState.facts c) d := by
  -- a closing input is the one of the call
  have hkey : ∀ {key'}, cfg.closingInput d = some key' → key' = key := by
    intro key' hk
    rcases @call_closingInput cfg h sumSeq _ _ hk with ⟨fn', hc'⟩ | ⟨hnone, -⟩
    · cases hc.symm.trans hc'
      rfl
    · cases hc.symm.trans hnone
  cases d with
  | input body =>
    intro hin
    obtain ⟨senderId, seq, hk⟩ := closingInput_of_isEof cfg hin
    obtain rfl := hkey hk
    exact (hheard _ hk rfl rfl).resolve_left hnew
  | control body =>
    refine fun msgType ctrl hp => ⟨?_, ?_, ?_⟩
    · rintro rfl
      rw [onDelivery_of_announcement hp] at hc
      cases hc
      exact (hfits rfl).announced rfl
    · rintro rfl
      rw [onDelivery_of_request hp] at hc
      cases hc
    · rintro rfl
      obtain rfl := hkey (closingInput_of_order hp)
      exact .inl ((hfits rfl).ordered rfl)
  | response body =>
    refine ⟨fun ctrl hp => ?_, fun j hp => ?_⟩
    · cases hc.symm.trans (call_of_answer hp)
    · obtain rfl := hkey (closingInput_of_isAck hp)
      exact ((hfits rfl).acked rfl).imp_right .inr

/-- The announcement of an EOF comes on a control queue. -/
def NoAnnouncement (c : Nat) : Delivery → Prop
  | .response body => ∀ ctrl, parseMessage body ≠ .ok (some .eofReceived, c, ctrl)
  | _ => True

/-- A message of which the replica takes no notice. -/
theorem turn_of_nothing (h : cfg.Absorbed c (s.facts c) d) : cfg.Turn c (s.facts c) d
    ({ s with coordinator := (fun co => co) s.coordinator }.facts c) [] :=
  .idle h nofun

/-- An upstream EOF that is not handed to `handle` is of a closed client. -/
theorem turn_of_no_call_input {body : Bytes}
    (hc : (cfg.onDelivery h sumSeq (.input body)).call = none) :
    cfg.Turn c (h.workerState.facts c) (.input body)
      ({ h.workerState with coordinator :=
          (cfg.onDelivery h sumSeq (.input body)).mutate h.workerState.coordinator }.facts c)
      (cfg.onDelivery h sumSeq (.input body)).sends := by
  have hmutate : (cfg.onDelivery h sumSeq (.input body)).mutate = fun co => co :=
    mutate_onInputMessage cfg h sumSeq body
  rw [hmutate, sends_input]
  refine turn_of_nothing fun hin => .inr ?_
  obtain ⟨senderId, seq, hk⟩ := closingInput_of_isEof cfg hin
  rcases @call_closingInput cfg h sumSeq _ _ hk with
    ⟨fn, hc'⟩ | ⟨-, hign | ⟨hkind, -⟩ | ⟨hkind, -⟩⟩
  · cases hc.symm.trans hc'
  · simp only [ignored, Bool.and_eq_true] at hign
    exact hign.1
  · cases hkind
  · cases hkind

/-- The answer to a request. -/
theorem turn_of_request {body : Bytes} {ctrl : ControlMessage} {c' : Nat}
    (hp : parseMessage body = .ok (some .processedRequest, c', ctrl))
    (hs : cfg.Serializes h (.control body)) :
    cfg.Turn c (h.workerState.facts c) (.control body) (h.workerState.facts c)
      (cfg.handleProcessedRequest h c' ctrl).sends := by
  have habs : (h.workerState.facts c').pending = none ∨ c' ≠ c →
      cfg.Absorbed c (h.workerState.facts c) (.control body) := by
    intro hcases msgType ctrl' hp'
    cases hp.symm.trans hp'
    refine ⟨?_, fun _ => hcases.resolve_right (not_not.mpr rfl), ?_⟩ <;> (intros; contradiction)
  simp only [Serializes, directAction, hp, processControlMessage] at hs
  simp only [handleProcessedRequest, processControlMessage]
  cases hpend : h.workerState.coordinator.pendingEof.get? c' with
  | none =>
    rw [onProcessedRequest_none rfl hpend]
    refine .idle (habs (.inl ?_)) (List.forall_mem_nil _)
    rw [FilterState.facts, hpend]
    rfl
  | some pending =>
    rw [onProcessedRequest_some rfl hpend] at hs ⊢
    obtain ⟨bytes, hb⟩ := exists_bytes (hs _ rfl _ rfl)
    simp only [sendsOf, hb]
    by_cases hc : c' = c
    · subst hc
      refine .recount hp ?_ hb
      rw [FilterState.facts, hpend]
      rfl
    · obtain ⟨payload, hu⟩ := unpackPacket_toBytes hb
      refine .idle (habs (.inr hc)) fun y hy => ?_
      cases List.mem_singleton.mp hy
      exact mute_of_client hu hc

theorem turn_of_no_call_control {body : Bytes}
    (hc : (cfg.onDelivery h sumSeq (.control body)).call = none)
    (hs : cfg.Serializes h (.control body)) :
    cfg.Turn c (h.workerState.facts c) (.control body)
      ({ h.workerState with coordinator :=
          (cfg.onDelivery h sumSeq (.control body)).mutate h.workerState.coordinator }.facts c)
      (cfg.onDelivery h sumSeq (.control body)).sends := by
  generalize hd : cfg.onDelivery h sumSeq (.control body) = sec at hc ⊢
  have hsec := hd
  simp only [onDelivery, handleControl] at hsec
  split at hsec
  · next e hp =>
    subst hsec
    refine turn_of_nothing fun msgType ctrl hparse => ?_
    obtain ⟨payload, hp', -⟩ := unpacked_of_parseMessage hparse
    cases hp.symm.trans hp'
  · next msgType clientId payload hp =>
    split at hsec
    · next e hctrl =>
      subst hsec
      refine turn_of_nothing fun msgType ctrl hparse => ?_
      obtain ⟨payload', hp', hctrl'⟩ := unpacked_of_parseMessage hparse
      cases hp.symm.trans hp'
      cases hctrl.symm.trans hctrl'
    · next ctrl hctrl =>
      have hparse := parseMessage_eq hp hctrl
      split at hsec
      · next ht =>
        -- a flush order of a closed or led client
        rw [ht] at hparse
        have hmutate := mutate_handleFlushOrder cfg h sumSeq clientId ctrl
        have hsends := sends_handleFlushOrder cfg h sumSeq clientId ctrl
        rw [hsec] at hmutate hsends
        rw [hmutate, hsends]
        refine turn_of_nothing fun msgType ctrl' hparse' => ?_
        cases hparse.symm.trans hparse'
        refine ⟨(by intros; contradiction), (by intros; contradiction), fun _ => ?_⟩
        rcases @call_closingInput cfg h sumSeq _ _ (closingInput_of_order hparse) with
          ⟨fn, hc'⟩ | ⟨-, hign | ⟨-, hl⟩ | ⟨hkind, -⟩⟩
        · rw [hd] at hc'
          cases hc.symm.trans hc'
        · simp only [ignored, Bool.and_eq_true] at hign
          exact .inl hign.1
        · exact .inr (Option.isSome_iff_ne_none.mpr hl)
        · cases hkind
      · subst hsec
        cases hc
      · next ht =>
        subst hsec
        exact turn_of_request (ht ▸ hparse) hs
      · next hflush hannounce hrequest =>
        subst hsec
        refine turn_of_nothing fun msgType ctrl' hparse' => ?_
        have ht := congrArg Prod.fst (Except.ok.inj (hparse.symm.trans hparse'))
        exact ⟨fun he => absurd (ht.trans (congrArg some he)) hannounce,
          fun he => absurd (ht.trans (congrArg some he)) hrequest,
          fun he => absurd (ht.trans (congrArg some he)) hflush⟩

/-- The answer of a replica. -/
theorem turn_of_answer {body : Bytes} {ctrl : ControlMessage} {c' : Nat}
    (hp : parseMessage body = .ok (some .processedAnswer, c', ctrl))
    (hs : ∀ action ∈ (h.workerState.coordinator.onProcessedAnswer cfg.coordinator c' ctrl).2,
      ∀ message ∈ packetOf action, message.toBytes.isOk = true) :
    cfg.Turn c (h.workerState.facts c) (.response body)
      ({ h.workerState with coordinator :=
        (h.workerState.coordinator.onProcessedAnswer cfg.coordinator c' ctrl).1 }.facts c)
      (match (h.workerState.coordinator.onProcessedAnswer cfg.coordinator c' ctrl).2 with
        | some (.broadcast queueNames message sleep) =>
          sendsOf (some (.broadcast queueNames message sleep))
        | _ => []) := by
  have habs : ctrl.senderId ∈ (h.workerState.facts c').responders ∨ c' ≠ c →
      cfg.Absorbed c (h.workerState.facts c) (.response body) := by
    refine fun hcases => ⟨fun ctrl' hp' => ?_, fun j hack => ?_⟩
    · cases hp.symm.trans hp'
      exact hcases.resolve_right (not_not.mpr rfl)
    · obtain ⟨payload, hu, -⟩ := unpacked_of_parseMessage hp
      obtain ⟨payload', counts, hu', -⟩ := hack
      cases hu.symm.trans hu'
  have hbroadcast : ∀ {expected enough},
      (h.workerState.coordinator.onProcessedAnswer cfg.coordinator c' ctrl).2 =
        some (roundBroadcast cfg.coordinator c' expected enough) →
      ∃ bytes, (roundEnd cfg.coordinator c' expected enough).toBytes = .ok bytes ∧
        sendsOf (some (roundBroadcast cfg.coordinator c' expected enough)) =
          broadcastSends cfg.coordinator bytes := by
    intro expected enough haction
    obtain ⟨bytes, hb⟩ := exists_bytes (hs _ haction _ rfl)
    exact ⟨bytes, hb, by simp only [sendsOf, roundBroadcast, hb, broadcastSends]⟩
  by_cases hc : c' = c
  · subst hc
    by_cases hold : ctrl.senderId ∈ (h.workerState.facts c').responders
    · have heq := FilterState.onProcessedAnswer_again cfg.state hold
      change h.workerState.coordinator.onProcessedAnswer cfg.coordinator c' ctrl = _ at heq
      rw [heq]
      exact .idle (habs (.inl hold)) (List.forall_mem_nil _)
    · by_cases hmore : (h.workerState.facts c').leads = false ∨
          (insert ctrl.senderId (h.workerState.facts c').responders).card < cfg.filterAmount
      · obtain ⟨haction, hfacts⟩ := FilterState.facts_collect cfg.state hold hmore
        change
          (h.workerState.coordinator.onProcessedAnswer cfg.coordinator c' ctrl).2 = _ at haction
        rw [haction]
        change cfg.Turn c' _ _
          ({ h.workerState with coordinator :=
            (h.workerState.coordinator.onProcessedAnswer cfg.state.coordinator c'
              ctrl).1 }.facts c') _
        rw [hfacts]
        exact .collect hp hold hmore
      · obtain ⟨hleads, hall⟩ := not_or.mp hmore
        have hleads : (h.workerState.facts c').leads = true := by simpa using hleads
        obtain ⟨⟨expected, enough, haction⟩, hfacts⟩ :=
          FilterState.facts_endRound cfg.state hold hleads (Nat.not_lt.mp hall)
        change (h.workerState.coordinator.onProcessedAnswer cfg.coordinator c' ctrl).2 =
          some (roundBroadcast cfg.coordinator c' expected enough) at haction
        obtain ⟨bytes, hb, hsends⟩ := hbroadcast haction
        rw [haction]
        change cfg.Turn c' _ _ ({ h.workerState with coordinator :=
          (h.workerState.coordinator.onProcessedAnswer cfg.state.coordinator c' ctrl).1 }.facts c')
          (sendsOf (some (roundBroadcast cfg.coordinator c' expected enough)))
        rw [hfacts, hsends]
        exact .endRound hp hold hleads (Nat.not_lt.mp hall) hb
  · rw [FilterState.facts_of_sameFor (sameFor_onProcessedAnswer hc ctrl)]
    rcases onProcessedAnswer_cases cfg.coordinator h.workerState.coordinator c' ctrl with
      haction | ⟨expected, enough, haction⟩
    · rw [haction]
      exact .idle (habs (.inr hc)) (List.forall_mem_nil _)
    · obtain ⟨bytes, hb, hsends⟩ := hbroadcast haction
      rw [haction]
      refine .idle (habs (.inr hc)) ?_
      change ∀ y ∈ sendsOf (some (roundBroadcast cfg.coordinator c' expected enough)), Mute c y
      rw [hsends]
      exact mute_broadcast hb hc _

/-- What the leader does with a response that is no ack. -/
theorem turn_of_response {body : Bytes} {msgType : MessageType} {ctrl : ControlMessage} {c' : Nat}
    (hp : parseMessage body = .ok (some msgType, c', ctrl)) (hack : msgType ≠ .flushAck)
    (hannounce : msgType = .eofReceived → c' ≠ c) (hs : cfg.Serializes h (.response body)) :
    cfg.Turn c (h.workerState.facts c) (.response body)
      ({ h.workerState with coordinator := (h.workerState.coordinator.processControlMessage
          cfg.coordinator msgType c' ctrl 0 0).1 }.facts c)
      (match (h.workerState.coordinator.processControlMessage cfg.coordinator msgType
          c' ctrl 0 0).2 with
        | some (.broadcast queueNames message sleep) =>
          sendsOf (some (.broadcast queueNames message sleep))
        | _ => []) := by
  have habs : msgType ≠ .processedAnswer →
      cfg.Absorbed c (h.workerState.facts c) (.response body) := by
    refine fun hne => ⟨fun ctrl' hp' => ?_, fun j hisAck => ?_⟩
    · cases hp.symm.trans hp'
      exact absurd rfl hne
    · obtain ⟨payload, hu, -⟩ := unpacked_of_parseMessage hp
      obtain ⟨payload', counts, hu', -⟩ := hisAck
      have ht := (Prod.mk.inj (Except.ok.inj (hu.symm.trans hu'))).1
      exact absurd (MessageType.toNat_injective ht) hack
  cases msgType with
  | eofReceived =>
    have hne := hannounce rfl
    simp only [processControlMessage]
    rw [FilterState.facts_of_sameFor (sameFor_onEofReceived hne ctrl 0 0)]
    refine .idle (habs (by decide)) fun y hy => ?_
    split at hy
    · next haction =>
      unfold onEofReceived at haction
      split at haction <;> cases haction
    · cases hy
  | flushAck => exact absurd rfl hack
  | processedAnswer =>
    simp only [Serializes, directAction, hp, processControlMessage] at hs
    exact turn_of_answer hp hs
  | processedRequest =>
    simp only [processControlMessage]
    rw [onProcessedRequest_fst]
    refine .idle (habs (by decide)) ?_
    cases hpend : h.workerState.coordinator.pendingEof.get? c' with
    | none =>
      rw [onProcessedRequest_none rfl hpend]
      intros; contradiction
    | some pending =>
      rw [onProcessedRequest_some rfl hpend]
      intros; contradiction
  | flushOrder =>
    simp only [processControlMessage]
    rw [onFlushOrder_fst]
    refine .idle (habs (by decide)) fun y hy => ?_
    unfold onFlushOrder at hy
    cases hleads : isLeaderHere cfg.coordinator h.workerState.coordinator c' with
    | false =>
      rw [hleads] at hy
      cases hy
    | true =>
      rw [hleads] at hy
      cases hy
  | data | eof | aggregatedCount | abort => exact .idle (habs (by decide)) (List.forall_mem_nil _)

theorem turn_of_no_call_response {body : Bytes}
    (hc : (cfg.onDelivery h sumSeq (.response body)).call = none)
    (hd : NoAnnouncement c (.response body)) (hs : cfg.Serializes h (.response body)) :
    cfg.Turn c (h.workerState.facts c) (.response body)
      ({ h.workerState with coordinator :=
          (cfg.onDelivery h sumSeq (.response body)).mutate h.workerState.coordinator }.facts c)
      (cfg.onDelivery h sumSeq (.response body)).sends := by
  -- a message that does not parse, or carries no message of the rounds
  have hnothing : (∀ ctrl, parseMessage body ≠ .ok (some .processedAnswer, c, ctrl)) →
      (∀ j, ¬ cfg.IsAck c j body) →
      cfg.Absorbed c (h.workerState.facts c) (.response body) := fun hanswer hack =>
    ⟨fun ctrl hp => absurd hp (hanswer ctrl), fun j hp => absurd hp (hack j)⟩
  generalize hsec' : cfg.onDelivery h sumSeq (.response body) = sec at hc ⊢
  have hsec := hsec'
  simp only [onDelivery, handleResponse] at hsec
  split at hsec
  · next e hp =>
    subst hsec
    refine turn_of_nothing (hnothing (fun ctrl hparse => ?_) fun j hack => ?_)
    · obtain ⟨payload, hp', -⟩ := unpacked_of_parseMessage hparse
      cases hp.symm.trans hp'
    · obtain ⟨payload, counts, hp', -⟩ := hack
      cases hp.symm.trans hp'
  · next msgType clientId payload hp =>
    have htype : ∀ {t : MessageType} {c' payload'},
        unpackPacket body = .ok (t.toNat, c', payload') → MessageType.ofNat? msgType = some t := by
      intro t c' payload' hp'
      cases hp.symm.trans hp'
      exact MessageType.ofNat?_toNat t
    split at hsec
    · next ht =>
      subst hsec
      refine turn_of_nothing (hnothing (fun ctrl hparse => ?_) fun j hack => ?_)
      · obtain ⟨payload', hp', -⟩ := unpacked_of_parseMessage hparse
        cases ht.symm.trans (htype hp')
      · obtain ⟨payload', counts, hp', -⟩ := hack
        cases ht.symm.trans (htype hp')
    · next ht =>
      have hmutate := mutate_handleFlushAck cfg h sumSeq clientId payload
      have hsends := sends_handleFlushAck cfg h sumSeq clientId payload
      rw [hsec] at hmutate hsends
      rw [hmutate, hsends]
      refine turn_of_nothing ⟨fun ctrl hparse => ?_, fun j hack => ?_⟩
      · obtain ⟨payload', hp', -⟩ := unpacked_of_parseMessage hparse
        cases ht.symm.trans (htype hp')
      · rcases @call_closingInput cfg h sumSeq _ _ (closingInput_of_isAck hack) with
          ⟨fn, hc'⟩ | ⟨-, hign | ⟨hkind, -⟩ | ⟨-, -, hl⟩⟩
        · rw [hsec'] at hc'
          cases hc.symm.trans hc'
        · simp only [ignored, Bool.and_eq_true] at hign
          exact .inl hign.1
        · cases hkind
        · exact .inr (.inl (Bool.eq_false_iff.mpr (mt Option.isSome_iff_ne_none.mp hl)))
    · next t hack ht =>
      split at hsec
      · next e hctrl =>
        subst hsec
        refine turn_of_nothing (hnothing (fun ctrl hparse => ?_) fun j hisAck => ?_)
        · obtain ⟨payload', hp', hctrl'⟩ := unpacked_of_parseMessage hparse
          cases hp.symm.trans hp'
          cases hctrl.symm.trans hctrl'
        · obtain ⟨payload', counts, hp', -⟩ := hisAck
          exact hack (Option.some.inj (ht.symm.trans (htype hp')))
      · next ctrl hctrl =>
        have hparse := parseMessage_eq hp hctrl
        rw [ht] at hparse
        subst hsec
        exact turn_of_response hparse hack (fun he hc => hd ctrl (hc ▸ he ▸ hparse)) hs

/-- A handler that does not call `handle`: the message is a duplicate, or goes to the coordinator
directly. -/
theorem turn_of_no_call (hc : (cfg.onDelivery h sumSeq d).call = none)
    (hd : NoAnnouncement c d) (hs : cfg.Serializes h d) :
    cfg.Turn c (h.workerState.facts c) d
      ({ h.workerState with coordinator :=
          (cfg.onDelivery h sumSeq d).mutate h.workerState.coordinator }.facts c)
      (cfg.onDelivery h sumSeq d).sends := by
  cases d with
  | input body => exact turn_of_no_call_input hc
  | control body => exact turn_of_no_call_control hc hs
  | response body => exact turn_of_no_call_response hc hd hs

end unrecorded

/-! ### Sections that record their input -/

section recorded
variable {h : Handler FilterState} {sumSeq : String → Nat} {body payload : Bytes} {s : FilterState}
  {entries : List OutboxEntry} {s' : FilterState}

/-- A packet of the data queue that is no EOF, or one of another client. -/
theorem absorbed_of_packet {m : Addressed} (hm : unpackAddressedPacket body = .ok m)
    (hne : m.msgType ≠ MessageType.eof.toNat ∨ m.clientId ≠ c) :
    cfg.Absorbed c x (.input body) := by
  rintro ⟨m', ctrl, hm', ht, hc, -⟩
  cases hm.symm.trans hm'
  rcases hne with hne | hne
  · exact absurd ht hne
  · exact absurd hc hne

/-- A control message of another client. -/
theorem absorbed_of_control {msgType : MessageType} {clientId : Nat} {ctrl : ControlMessage}
    (hp : unpackPacket body = .ok (msgType.toNat, clientId, payload))
    (hctrl : ControlMessage.deserialize payload = .ok ctrl) (hne : clientId ≠ c) :
    cfg.Absorbed c x (.control body) := by
  intro msgType' ctrl' hp'
  have hparse := parseMessage_eq hp hctrl
  rw [MessageType.ofNat?_toNat] at hparse
  cases hparse.symm.trans hp'
  exact absurd rfl hne

/-- An ack for another client. -/
theorem absorbed_of_ack {clientId : Nat}
    (hp : unpackPacket body = .ok (MessageType.flushAck.toNat, clientId, payload))
    (hne : clientId ≠ c) : cfg.Absorbed c x (.response body) := by
  refine ⟨fun ctrl hparse => ?_, fun j hack => ?_⟩
  · obtain ⟨payload', hp', -⟩ := unpacked_of_parseMessage hparse
    cases hp.symm.trans hp'
  · obtain ⟨payload', counts, hp', -⟩ := hack
    cases hp.symm.trans hp'
    exact absurd rfl hne

/-- The announcement of an upstream EOF. -/
theorem parcels_of_announcement {m : Addressed} {ctrl : ControlMessage} {key : InputKey}
    {fn : BusinessFn FilterState FilterChange} {change : FilterChange}
    {logical : List LogicalOutput} (hm : unpackAddressedPacket body = .ok m)
    (ht : m.msgType = MessageType.eof.toNat)
    (hctrl : ControlMessage.deserialize m.payload = .ok ctrl) (hmany : 1 < cfg.filterAmount)
    (hc : (cfg.onDelivery h sumSeq (.input body)).call = some (.handle key fn))
    (hb : fn s = .ok (change, logical))
    (hs : List.Forall₂ (StampedAs cfg.handler.toSequencerConfig key.clientId) logical entries)
    (hq : cfg.PlainQueues) : ∃ bytes,
      ControlPacket.toBytes ⟨.eofReceived, m.clientId,
        { senderId := cfg.id, expectedTotal := ctrl.expectedTotal }⟩ = .ok bytes ∧
      entries.map OutboxEntry.parcel = broadcastSends cfg.coordinator bytes := by
  have hfirst : body.head?.map UInt8.toNat = some 1 := by
    rw [msgType_of_unpackAddressedPacket hm] at ht
    cases body with
    | nil => cases ht
    | cons b bs => simpa [beDecode, MessageType.toNat] using ht
  simp only [onDelivery, onInputMessage, hfirst, handleUpstreamEof, hm, hctrl] at hc
  split at hc
  · cases hc
  · cases hc
    unfold upstreamEofFn at hb
    rw [if_pos hmany] at hb
    obtain ⟨bytes, hbytes, hb⟩ := Except.ok_of_bind hb
    cases hb
    refine ⟨bytes, hbytes, ?_⟩
    rw [parcels_of_plain hs]
    · simp only [broadcastSends, allControlQueues, List.map_map]
      rfl
    · intro o ho
      obtain ⟨j, -, rfl⟩ := List.mem_map.mp ho
      exact hq.control j

/-! ### What a record means to a client -/

theorem mutate_input (body : Bytes) :
    (cfg.onDelivery h sumSeq (.input body)).mutate = fun s => s :=
  mutate_onInputMessage cfg h sumSeq body

theorem mutate_of_order {ctrl : ControlMessage} {clientId : Nat}
    (hp : unpackPacket body = .ok (MessageType.flushOrder.toNat, clientId, payload))
    (hctrl : ControlMessage.deserialize payload = .ok ctrl) :
    (cfg.onDelivery h sumSeq (.control body)).mutate = fun s => s := by
  simp only [onDelivery, handleControl, hp, hctrl, MessageType.ofNat?_toNat]
  exact mutate_handleFlushOrder cfg h sumSeq clientId ctrl

theorem mutate_of_ack {clientId : Nat}
    (hp : unpackPacket body = .ok (MessageType.flushAck.toNat, clientId, payload)) :
    (cfg.onDelivery h sumSeq (.response body)).mutate = fun s => s := by
  simp only [onDelivery, handleResponse, hp, MessageType.ofNat?_toNat]
  exact mutate_handleFlushAck cfg h sumSeq clientId payload

/-- The flush of an order: the drained batches, then the ack. -/
theorem parcel_of_ack {ctrl : ControlMessage} {clientId : Nat} {packet : Bytes} {ack : OutboxEntry}
    (hack : StampedAs cfg.handler.toSequencerConfig clientId
      ⟨cfg.coordinator.responseQueueFor ctrl.senderId, packet, none⟩ ack) (hq : cfg.PlainQueues) :
    ack.parcel = (cfg.coordinator.responseQueueFor ctrl.senderId, packet) := by
  rw [OutboxEntry.parcel, hack.destination, (hack.plain (hq.response _)).1]

/-- A change is about the client of its input. -/
theorem Recorded.clientId_op {key : InputKey} {change : FilterChange}
    (hr : Recorded cfg s d key change entries) : ∀ op ∈ change.ops, op.clientId = key.clientId := by
  cases hr with
  | acked | announced | answered => exact fun op hm => (List.mem_singleton.mp hm) ▸ rfl
  | skipped | routed => exact fun op hm => (List.mem_singleton.mp hm) ▸ rfl
  | aborted | drainedAlone | drainedOrder | drainedLast =>
    simp [FilterChange.ops, FilterOp.clientId, dataKey]

/-- What is published for the announcement of an EOF: the answer, if the EOF is new. -/
theorem parcels_of_answer {clientId : Nat} {ctrl : ControlMessage} {key : InputKey}
    {fn : BusinessFn FilterState FilterChange} {change : FilterChange}
    {logical : List LogicalOutput}
    (hp : parseMessage body = .ok (some .eofReceived, clientId, ctrl))
    (hc : (cfg.onDelivery h sumSeq (.control body)).call = some (.handle key fn))
    (hb : fn s' = .ok (change, logical))
    (hs : List.Forall₂ (StampedAs cfg.handler.toSequencerConfig key.clientId) logical entries)
    (hq : cfg.PlainQueues) : ∃ count forwarded,
      change = .single (.coordinatorMsg .eofReceived clientId ctrl count forwarded) ∧
      ((h.workerState.facts clientId).pending = none ∧
          (∃ bytes, (buildAnswer cfg.coordinator clientId count forwarded).toBytes = .ok bytes ∧
            entries.map OutboxEntry.parcel =
              [(cfg.coordinator.responseQueueFor ctrl.senderId, bytes)]) ∨
        (h.workerState.facts clientId).pending ≠ none ∧ entries = []) := by
  rw [onDelivery_of_announcement hp] at hc
  cases hc
  simp only [processControlMessage] at hb
  generalize h.workerState.processedCount clientId = count at hb
  generalize (List.map Prod.snd (h.workerState.forwardedByOutput clientId).entries).sum =
    forwarded at hb
  refine ⟨count, forwarded, ?_⟩
  by_cases hpend : (h.workerState.facts clientId).pending = none
  · have haction := (FilterState.facts_onEofReceived cfg.state ctrl hpend count
      forwarded).1
    change h.workerState.coordinator.onEofReceived cfg.coordinator clientId ctrl count forwarded =
      (_, some (.sendAnswer (cfg.coordinator.responseQueueFor ctrl.senderId)
        (buildAnswer cfg.coordinator clientId count forwarded))) at haction
    rw [haction] at hb
    obtain ⟨bytes, hbytes, hb⟩ := Except.ok_of_bind hb
    cases hb
    refine ⟨rfl, .inl ⟨hpend, bytes, hbytes, ?_⟩⟩
    rw [parcels_of_plain hs fun o ho => ?_]
    · rfl
    · cases List.mem_singleton.mp ho
      exact hq.response _
  · have haction := FilterState.onEofReceived_again cfg.state ctrl hpend count forwarded
    change h.workerState.coordinator.onEofReceived cfg.coordinator clientId ctrl count forwarded =
      _ at haction
    rw [haction] at hb
    cases hb
    cases hs
    exact ⟨rfl, .inr ⟨hpend, rfl⟩⟩

/-- A record of another client. -/
theorem Recorded.elsewhere {key : InputKey} {change : FilterChange}
    {fn : BusinessFn FilterState FilterChange} {logical : List LogicalOutput}
    (hr : Recorded cfg s d key change entries) (hne : key.clientId ≠ c)
    (hc : (cfg.onDelivery h sumSeq d).call = some (.handle key fn))
    (hb : fn s' = .ok (change, logical))
    (hs : List.Forall₂ (StampedAs cfg.handler.toSequencerConfig key.clientId) logical entries)
    (hq : cfg.PlainQueues) :
    cfg.Absorbed c x d ∧ ∀ y ∈ entries.map OutboxEntry.parcel, Mute c y := by
  cases hr with
  | skipped hm ht hskip => exact ⟨absorbed_of_packet hm (.inr hne), nofun⟩
  | routed hm ht hopen htxs hroute hread =>
    exact ⟨absorbed_of_packet hm (.inr hne),
      mute_of_readsAs hread fun _ hp => .inl (msgType_of_mem_flushedPackets hp)⟩
  | aborted hm ht htype => exact ⟨absorbed_of_packet hm (.inr hne), mute_of_abort htype⟩
  | announced hm ht hctrl hopen hmany htype =>
    refine ⟨absorbed_of_packet hm (.inr hne), ?_⟩
    obtain ⟨bytes, hbytes, hout⟩ := parcels_of_announcement hm ht hctrl hmany hc hb hs hq
    rw [hout]
    exact mute_broadcast hbytes hne _
  | drainedAlone hm ht hctrl hopen hone heofs hread =>
    exact ⟨absorbed_of_packet hm (.inr hne),
      mute_of_readsAs hread fun _ hp => msgType_of_mem_drainAndEof heofs hp⟩
  | answered hp hctrl htype =>
    refine ⟨absorbed_of_control hp hctrl hne, ?_⟩
    have hparse := parseMessage_eq hp hctrl
    rw [MessageType.ofNat?_toNat] at hparse
    obtain ⟨count, forwarded, -, ⟨-, bytes, hbytes, hout⟩ | ⟨-, rfl⟩⟩ :=
      parcels_of_answer hparse hc hb hs hq
    · rw [hout]
      intro y hy
      cases List.mem_singleton.mp hy
      obtain ⟨payload, hu⟩ := unpackPacket_toBytes hbytes
      exact mute_of_client hu hne
    · exact nofun
  | drainedOrder hp hctrl hopen hleader hread hdumps hpacket hack =>
    refine ⟨absorbed_of_control hp hctrl hne, fun y hy => ?_⟩
    rw [List.map_append, List.mem_append] at hy
    rcases hy with hy | hy
    · exact mute_of_readsAs hread (fun _ hp => .inl (msgType_of_mem_drainPackets hp)) y hy
    · cases List.mem_singleton.mp hy
      rw [parcel_of_ack hack hq]
      exact mute_of_client (unpackPacket_createPacket hpacket) hne
  | acked hp hload hopen hleader hmore => exact ⟨absorbed_of_ack hp hne, nofun⟩
  | drainedLast hp hload hopen hleader hlast heofs hread =>
    exact ⟨absorbed_of_ack hp hne,
      mute_of_readsAs hread fun _ hp => msgType_of_mem_drainAndEof heofs hp⟩

/-- An abort comes on the data queue. -/
theorem Recorded.packetKey {key : InputKey} {change : FilterChange}
    (hr : Recorded cfg s d key change entries) (hkind : key.kind = .abort) :
    d.packetKey = some key := by
  cases hr with
  | aborted hm ht => simp only [Delivery.packetKey, hm, if_pos ht]
  | _ => cases hkind

/-- A record that closes a client that is not aborted holds its EOFs, unless it is made on an
order. -/
theorem Recorded.emits {key : InputKey} {change : FilterChange}
    (hr : Recorded cfg s d key change entries) (hc : .close c ∈ change.ops)
    (habort : key.clientId = c → key.kind ≠ .abort) :
    key.clientId = c ∧ ((cfg.eofTotals entries).map Prod.fst = cfg.eofTargets.map Prod.fst ∨
      s.isClosed c = false ∧ s.coordinator.leaderExpected.get? c = none ∧ ∃ body ctrl,
        d = .control body ∧ parseMessage body = .ok (some .flushOrder, c, ctrl)) := by
  have hk : key.clientId = c := (hr.clientId_op _ hc).symm
  refine ⟨hk, ?_⟩
  cases hr with
  | aborted => exact absurd rfl (habort hk)
  | drainedAlone hm ht hctrl hopen hone heofs hread =>
    left
    rw [eofTotals_drainAndEof heofs hread, List.map_map]
    rfl
  | drainedLast hp hload hopen hleader hlast heofs hread =>
    left
    rw [eofTotals_drainAndEof heofs hread, List.map_map]
    rfl
  | drainedOrder hp hctrl hopen hleader =>
    obtain rfl := hk
    have hparse := parseMessage_eq hp hctrl
    rw [MessageType.ofNat?_toNat] at hparse
    exact .inr ⟨hopen, hleader, _, _, rfl, hparse⟩
  | skipped | routed | announced | answered | acked => cases List.mem_singleton.mp hc

/-- The state on which the change of a delivery is made. -/
abbrev mutated (cfg : FilterConfig) (h : Handler FilterState) (sumSeq : String → Nat)
    (d : Delivery) : FilterState :=
  { h.workerState with
    coordinator := (cfg.onDelivery h sumSeq d).mutate h.workerState.coordinator }

/-- The announcement of an EOF. -/
theorem turn_of_announcement {ctrl : ControlMessage} {fn : BusinessFn FilterState FilterChange}
    {key : InputKey} {change : FilterChange} {logical : List LogicalOutput}
    (hp : parseMessage body = .ok (some .eofReceived, c, ctrl))
    (hc : (cfg.onDelivery h sumSeq (.control body)).call = some (.handle key fn))
    (hnew : h.inbox.classify key = .new) (hb : fn s' = .ok (change, logical))
    (hs : List.Forall₂ (StampedAs cfg.handler.toSequencerConfig key.clientId) logical entries)
    (hq : cfg.PlainQueues) :
    cfg.Turn c (h.workerState.facts c) (.control body)
      (((cfg.mutated h sumSeq (.control body)).applyChange cfg.state change).facts c)
      (entries.map OutboxEntry.parcel) ∧
    (((cfg.mutated h sumSeq (.control body)).applyChange cfg.state change).facts c).pending ≠
      none := by
  obtain ⟨count, forwarded, rfl, hout⟩ := parcels_of_answer hp hc hb hs hq
  have hstep : cfg.mutated h sumSeq (.control body) = { h.workerState with
      coordinator := (h.workerState.coordinator.onEofReceived cfg.state.coordinator c ctrl
        (h.workerState.processedCount c)
        ((h.workerState.forwardedByOutput c).entries.map Prod.snd).sum).1 } := by
    rw [onDelivery_of_announcement hp] at hc
    cases hc
    simp only [mutated, onDelivery_of_announcement hp, handleEofReceived, if_pos hnew,
      processControlMessage]
    rfl
  rw [hstep]
  generalize h.workerState.processedCount c = count'
  generalize (List.map Prod.snd (h.workerState.forwardedByOutput c).entries).sum = forwarded'
  -- the change repeats what the handler did before it
  have hagain : ∀ s : FilterState, (s.facts c).pending ≠ none →
      s.applyChange cfg.state (.single (.coordinatorMsg .eofReceived c ctrl count forwarded)) =
        s := by
    intro s hs
    have heq := FilterState.onEofReceived_again cfg.state ctrl hs count forwarded
    change { s with coordinator :=
      (s.coordinator.onEofReceived cfg.state.coordinator c ctrl count forwarded).1 } = s
    rw [heq]
  rcases hout with ⟨hpend, bytes, hbytes, hout⟩ | ⟨hpend, rfl⟩
  · have hfacts := (FilterState.facts_onEofReceived cfg.state ctrl hpend count'
      forwarded').2
    rw [hagain _ (by rw [hfacts]; exact Option.some_ne_none _), hfacts, hout]
    exact ⟨.answer hp hpend hbytes, Option.some_ne_none _⟩
  · have heq := FilterState.onEofReceived_again cfg.state ctrl hpend count' forwarded'
    rw [heq, hagain _ hpend]
    refine ⟨.idle (fun msgType ctrl' hp' => ?_) (List.forall_mem_nil _), hpend⟩
    cases hp.symm.trans hp'
    exact ⟨fun _ => .inl hpend, (by intros; contradiction), (by intros; contradiction)⟩

/-- Another client hears nothing of a call of `handle`. -/
theorem sameFor_mutate {key : InputKey} {change : FilterChange}
    (hr : Recorded cfg h.workerState d key change entries) (hne : key.clientId ≠ c) :
    SameFor c h.workerState.coordinator (cfg.mutated h sumSeq d).coordinator := by
  cases hr with
  | skipped | routed | aborted | announced | drainedAlone =>
    rw [mutated, mutate_input]
    exact .refl ..
  | answered hp hctrl htype =>
    have hparse := parseMessage_eq hp hctrl
    rw [MessageType.ofNat?_toNat] at hparse
    simp only [onDelivery_of_announcement hparse, handleEofReceived]
    split
    · exact sameFor_processControlMessage hne ..
    · exact .refl ..
  | drainedOrder hp hctrl =>
    rw [mutated, mutate_of_order hp hctrl]
    exact .refl ..
  | acked hp | drainedLast hp =>
    rw [mutated, mutate_of_ack hp]
    exact .refl ..

/-- **A section that records its input.** -/
theorem Recorded.turn {fn : BusinessFn FilterState FilterChange}
    {key : InputKey} {change : FilterChange} {logical : List LogicalOutput}
    (hr : Recorded cfg h.workerState d key change entries)
    (habort : key.clientId = c → key.kind ≠ .abort)
    (hc : (cfg.onDelivery h sumSeq d).call = some (.handle key fn))
    (hnew : h.inbox.classify key = .new) (hb : fn (cfg.mutated h sumSeq d) = .ok (change, logical))
    (hs : List.Forall₂ (StampedAs cfg.handler.toSequencerConfig key.clientId) logical entries)
    (hq : cfg.PlainQueues) :
    cfg.Turn c (h.workerState.facts c) d
      (((cfg.mutated h sumSeq d).applyChange cfg.state change).facts c)
      (entries.map OutboxEntry.parcel) ∧
    (key.clientId = c →
      Fits (((cfg.mutated h sumSeq d).applyChange cfg.state change).facts c) key) := by
  by_cases hk : key.clientId = c
  · have heof : ∀ {body : Bytes} {m : Addressed} {ctrl : ControlMessage},
        unpackAddressedPacket body = .ok m → m.msgType = MessageType.eof.toNat →
        ControlMessage.deserialize m.payload = .ok ctrl → IsEof m.clientId body :=
      fun hm ht hctrl => ⟨_, _, hm, ht, rfl, hctrl⟩
    cases hr with
    | @skipped body m hm ht hskip =>
      obtain rfl : m.clientId = c := hk
      rw [mutated, mutate_input, FilterState.facts_dataChange]
      refine ⟨.idle (absorbed_of_packet hm (.inl ?_)) (List.forall_mem_nil _),
        fun _ => .of_input (.inl rfl)⟩
      rw [ht]
      decide
    | @routed body m txs appends forwarded _ hm ht hopen htxs hroute hread =>
      obtain rfl : m.clientId = c := hk
      rw [mutated, mutate_input, FilterState.facts_dataChange]
      refine ⟨.idle (absorbed_of_packet hm (.inl ?_)) ?_, fun _ => .of_input (.inl rfl)⟩
      · rw [ht]
        decide
      · exact mute_of_readsAs hread fun _ hp => .inl (msgType_of_mem_flushedPackets hp)
    | aborted => exact absurd rfl (habort hk)
    | @announced body m ctrl _ hm ht hctrl hopen hmany htype =>
      obtain rfl : m.clientId = c := hk
      obtain ⟨bytes, hbytes, hout⟩ := parcels_of_announcement hm ht hctrl hmany hc hb hs hq
      rw [mutated, mutate_input, hout]
      rw [FilterState.facts_announced cfg.state rfl hmany]
      exact ⟨.announce (heof hm ht hctrl) hmany hopen hbytes, fun _ => .of_input (.inl rfl)⟩
    | @drainedAlone body m ctrl _ _ hm ht hctrl hopen hone heofs hread =>
      obtain rfl : m.clientId = c := hk
      rw [mutated, mutate_input, FilterState.facts_drainedAlone hone]
      exact ⟨.alone (heof hm ht hctrl) hone
        (mute_of_readsAs hread fun _ hp => msgType_of_mem_drainAndEof heofs hp),
        fun _ => .of_input (.inl rfl)⟩
    | answered hp hctrl htype =>
      obtain rfl := hk
      have hparse := parseMessage_eq hp hctrl
      rw [MessageType.ofNat?_toNat] at hparse
      obtain ⟨hturn, hpend⟩ := turn_of_announcement hparse hc hnew hb hs hq
      exact ⟨hturn, fun _ => .of_announced rfl (.inl hpend)⟩
    | drainedOrder hp hctrl hopen hleader hread hdumps hpacket hack =>
      obtain rfl := hk
      have hparse := parseMessage_eq hp hctrl
      rw [MessageType.ofNat?_toNat] at hparse
      rw [mutated, mutate_of_order hp hctrl, FilterState.facts_flushed, List.map_append,
        List.map_singleton, parcel_of_ack hack hq]
      refine ⟨.flush hparse hopen (Option.isSome_eq_false_iff.mpr (by simp [hleader]))
        (mute_of_readsAs hread fun _ hp => .inl (msgType_of_mem_drainPackets hp))
        ⟨_, _, unpackPacket_createPacket hpacket, cfg.flushAckJson.loads_dumps _ _ hdumps⟩,
        fun _ => .of_ordered rfl rfl⟩
    | acked hp hload hopen hleader hmore =>
      obtain rfl := hk
      rw [mutated, mutate_of_ack hp, FilterState.facts_acked]
      exact ⟨.ackMissing ⟨_, _, hp, hload⟩ hopen (Option.isSome_iff_ne_none.mpr hleader) hmore,
        fun _ => .of_acked rfl (.inr (Finset.mem_insert_self ..))⟩
    | drainedLast hp hload hopen hleader hlast heofs hread =>
      obtain rfl := hk
      rw [mutated, mutate_of_ack hp, FilterState.facts_finished rfl]
      exact ⟨.ackLast ⟨_, _, hp, hload⟩ hopen (Option.isSome_iff_ne_none.mpr hleader)
        (mute_of_readsAs hread fun _ hp => msgType_of_mem_drainAndEof heofs hp),
        fun _ => .of_acked rfl (.inl rfl)⟩
  · obtain ⟨habs, hmute⟩ := hr.elsewhere hk hc hb hs hq
    rw [FilterState.facts_applyChange_of_ne fun op hm => hr.clientId_op op hm ▸ hk,
      FilterState.facts_of_sameFor (sameFor_mutate hr hk)]
    exact ⟨.idle habs hmute, fun he => absurd he hk⟩

end recorded

end FilterConfig

/-! ## Deliveries -/

/-- What `handle` does to the state: the change of a new input is applied, and nothing else is. -/
theorem Node.handle_state_cases {σ ς Δ : Type} {cfg : HandlerConfig σ ς Δ} {n : Node σ ς Δ}
    {write : Except String PUnit} {key : InputKey} {fn : BusinessFn σ Δ}
    {effect : Handler.Effect σ ς Δ} (he : n.effect cfg write (.handle key fn) = .ok effect) :
    (n.handler.inbox.classify key = .new ∧ ∃ change logical entries,
      fn n.handler.workerState = .ok (change, logical) ∧
      n.handler.sequencer.stamp cfg.toSequencerConfig key.clientId (cfg.msgId key) logical =
        .ok entries ∧
      (∃ bytes, Wal.encode cfg.json (.inputApplied (cfg.msgId key) key change entries) =
        .ok bytes) ∧
      effect.instruction = .publishThenCommit entries (cfg.msgId key) key ∧
      (n.call cfg write (.handle key fn)).handler.workerState =
        cfg.worker.applyChange n.handler.workerState change ∧
      (n.call cfg write (.handle key fn)).history =
        n.history ++ [.inputApplied (cfg.msgId key) key change entries]) ∨
    n.handler.inbox.classify key ≠ .new ∧
      (n.call cfg write (.handle key fn)).handler.workerState = n.handler.workerState ∧
      (n.call cfg write (.handle key fn)).history = n.history ∧
      ∀ entries m key', effect.instruction = .publishThenCommit entries m key' →
        key' = key ∧ entries = n.handler.outbox.entriesForInput key.clientId (cfg.msgId key) := by
  rw [Node.call, he]
  simp only [Node.effect, Handler.handle] at he
  split at he
  · next hdone =>
    cases he
    exact .inr ⟨by rw [hdone]; decide, rfl, List.append_nil _, (by intros; contradiction)⟩
  · next hnew =>
    obtain ⟨⟨change, logical⟩, hb, he⟩ := Except.ok_of_bind he
    obtain ⟨entries, hstamp, he⟩ := Except.ok_of_bind he
    obtain ⟨bytes, hw, he⟩ := Except.ok_of_bind he
    cases he
    have hout : (n.handler.outbox.add key.clientId (cfg.msgId key) entries).entriesForInput
        key.clientId (cfg.msgId key) = entries := by
      rw [Outbox.entriesForInput_eq, Outbox.lookup_add, if_pos ⟨rfl, rfl⟩, Option.getD_some]
    exact .inl ⟨hnew, change, logical, entries, hb, hstamp, ⟨bytes, (walAppend_eq_ok hw).2⟩,
      by rw [hout], rfl, rfl⟩
  · next happ =>
    cases he
    refine .inr ⟨by rw [happ]; decide, rfl, List.append_nil _, fun _ _ _ h => ?_⟩
    cases h
    exact ⟨rfl, rfl⟩

namespace FilterWorker

open FilterConfig

variable (cfg : FilterConfig) (w : FilterWorker)

/-- An output of a recorded input. -/
def Stamped (x : String × Bytes) : Prop :=
  ∃ m key change entries, .inputApplied m key change entries ∈ w.node.history ∧
    x ∈ entries.map OutboxEntry.parcel

/-- What a delivery sends, and what it leaves to publish. -/
def released (d : Delivery) (sumSeq : String → Nat) : List (String × Bytes) :=
  (w.sectionOf cfg (.deliver d sumSeq)).sends ++
    match FilterTask.of (w.instruction cfg (.deliver d sumSeq) .returns) with
    | some task => task.remaining.map OutboxEntry.parcel
    | none => []

/-- The handler of a message does not raise. -/
def Returns (d : Delivery) (sumSeq : String → Nat) : Prop :=
  if (w.sectionOf cfg (.deliver d sumSeq)).call.isSome then
    (w.instruction cfg (.deliver d sumSeq) .returns).isSome = true
  else cfg.readable d = true ∧ cfg.Serializes w.node.handler d

instance (d : Delivery) (sumSeq : String → Nat) : Decidable (w.Returns cfg d sumSeq) :=
  inferInstanceAs
    (Decidable (if (w.sectionOf cfg (.deliver d sumSeq)).call.isSome then _ = true else _ ∧ _))

/-- What a delivery does, as far as a client is concerned. -/
inductive Delivered (c : Nat) (w' : FilterWorker) (d : Delivery) (sumSeq : String → Nat) :
    List (String × Bytes) → Prop
  | quiet {outs : List (String × Bytes)}
      (turn : cfg.Turn c (w.state.facts c) d (w'.state.facts c) outs)
      (closed : w'.state.isClosed c = w.state.isClosed c)
      (history : w'.node.history = w.node.history)
      (fresh : ∀ x ∈ outs, x ∈ (w.sectionOf cfg (.deliver d sumSeq)).sends)
      (released : ∀ x ∈ w.released cfg d sumSeq, x ∈ outs ∨ w.Stamped x) :
      Delivered c w' d sumSeq outs
  | recorded {key : InputKey} {change : FilterChange} {entries : List OutboxEntry}
      (turn : cfg.Turn c (w.state.facts c) d (w'.state.facts c) (entries.map OutboxEntry.parcel))
      (fits : key.clientId = c → Fits (w'.state.facts c) key)
      (closes : w'.state.isClosed c = true → w.state.isClosed c = true ∨ .close c ∈ change.ops)
      (elsewhere : key.clientId ≠ c → ∀ x ∈ entries.map OutboxEntry.parcel, Mute c x)
      (recorded : Recorded cfg w.state d key change entries)
      (history : w'.node.history =
        w.node.history ++ [.inputApplied (cfg.handler.msgId key) key change entries])
      (instruction : w.instruction cfg (.deliver d sumSeq) .returns =
        some (.publishThenCommit entries (cfg.handler.msgId key) key))
      (sends : (w.sectionOf cfg (.deliver d sumSeq)).sends = [])
      (ends : ∃ bytes, Wal.encode cfg.handler.json
        (.inputDone (cfg.handler.msgId key) key) = .ok bytes) :
      Delivered c w' d sumSeq (entries.map OutboxEntry.parcel)

variable {cfg} {w} {w' : FilterWorker} {d : Delivery} {sumSeq : String → Nat} {c : Nat}

/-- A record after a delivery was there before, or is the one of its input. -/
theorem Delivered.record_cases {outs : List (String × Bytes)}
    (h : w.Delivered cfg c w' d sumSeq outs) {m : String} {key : InputKey} {change : FilterChange}
    {entries : List OutboxEntry}
    (hm : .inputApplied m key change entries ∈ w'.node.history) :
    .inputApplied m key change entries ∈ w.node.history ∨
      outs = entries.map OutboxEntry.parcel ∧
      (key.clientId = c → Fits (w'.state.facts c) key) ∧
      w.instruction cfg (.deliver d sumSeq) .returns =
        some (.publishThenCommit entries (cfg.handler.msgId key) key) ∧
      ∃ bytes, Wal.encode cfg.handler.json
        (.inputDone (cfg.handler.msgId key) key) = .ok bytes := by
  cases h with
  | quiet _ _ history => exact .inl (history ▸ hm)
  | recorded _ fits _ _ _ history instruction _ ends =>
    rw [history] at hm
    rcases List.mem_append.mp hm with hm | hm
    · exact .inl hm
    · cases List.mem_singleton.mp hm
      exact .inr ⟨rfl, fits, instruction, ends⟩

/-- A section either hands its input to `handle`, or sends something itself. -/
theorem handle_of_call {h : Handler FilterState} {call : Call FilterState FilterChange}
    (hc : (cfg.onDelivery h sumSeq d).call = some call) :
    (cfg.onDelivery h sumSeq d).sends = [] ∧ ∃ key fn, call = .handle key fn := by
  have hprocess : ∀ {body}, (cfg.process sumSeq body).call = some call →
      ∃ key fn, call = .handle key fn := by
    intro body hc
    unfold process at hc
    split at hc
    · cases hc
    · split at hc <;> exact ⟨_, _, (Option.some.inj hc).symm⟩
  cases d with
  | input body =>
    refine ⟨sends_input body, ?_⟩
    simp only [onDelivery, onInputMessage] at hc
    split at hc
    · exact hprocess hc
    · unfold handleUpstreamEof at hc
      split at hc
      · cases hc
      · split at hc
        · cases hc
        · split at hc
          · cases hc
          · exact ⟨_, _, (Option.some.inj hc).symm⟩
    · exact hprocess hc
    · cases hc
  | control body =>
    simp only [onDelivery, handleControl] at hc ⊢
    split at hc
    · cases hc
    · split at hc
      · cases hc
      · split at hc
        · refine ⟨sends_handleFlushOrder .., ?_⟩
          unfold handleFlushOrder at hc
          split at hc
          · cases hc
          · split at hc
            · cases hc
            · exact ⟨_, _, (Option.some.inj hc).symm⟩
        · exact ⟨rfl, _, _, (Option.some.inj hc).symm⟩
        · cases hc
        · cases hc
  | response body =>
    simp only [onDelivery, handleResponse] at hc ⊢
    split at hc
    · cases hc
    · split at hc
      · cases hc
      · refine ⟨sends_handleFlushAck .., ?_⟩
        unfold handleFlushAck at hc
        split at hc
        · cases hc
        · split at hc
          · cases hc
          · split at hc
            · cases hc
            · exact ⟨_, _, (Option.some.inj hc).symm⟩
      · split at hc <;> cases hc

/-- The coordinator hears of a message that is handed to `handle` only if it is new. -/
theorem mutated_of_not_new {h : Handler FilterState} {key : InputKey}
    {fn : BusinessFn FilterState FilterChange}
    (hc : (cfg.onDelivery h sumSeq d).call = some (.handle key fn))
    (hold : h.inbox.classify key ≠ .new) : cfg.mutated h sumSeq d = h.workerState := by
  have hid : ∀ {sec : Section}, cfg.onDelivery h sumSeq d = sec → sec.mutate = (fun s => s) →
      cfg.mutated h sumSeq d = h.workerState := by
    rintro sec rfl hm
    rw [mutated, hm]
  cases d with
  | input body => exact hid rfl (mutate_input body)
  | control body =>
    generalize hsec : cfg.onDelivery h sumSeq (.control body) = sec at hc hid
    have hsec' := hsec
    simp only [onDelivery, handleControl] at hsec'
    split at hsec'
    · exact hid rfl (hsec' ▸ rfl)
    · split at hsec'
      · exact hid rfl (hsec' ▸ rfl)
      · split at hsec'
        · exact hid rfl (hsec' ▸ mutate_handleFlushOrder ..)
        · refine hid rfl ?_
          subst hsec'
          cases hc
          simp only [handleEofReceived, if_neg hold]
        · exact hid rfl (hsec' ▸ rfl)
        · exact hid rfl (hsec' ▸ rfl)
  | response body =>
    generalize hsec : cfg.onDelivery h sumSeq (.response body) = sec at hc hid
    have hsec' := hsec
    simp only [onDelivery, handleResponse] at hsec'
    split at hsec'
    · exact hid rfl (hsec' ▸ rfl)
    · split at hsec'
      · exact hid rfl (hsec' ▸ rfl)
      · exact hid rfl (hsec' ▸ mutate_handleFlushAck ..)
      · split at hsec'
        · exact hid rfl (hsec' ▸ rfl)
        · subst hsec'
          cases hc

/-- A handler that raises records nothing and leaves nothing to publish. What it told the
coordinator before stays. -/
theorem raised (hr : ¬ w.Returns cfg d sumSeq)
    (he : w.exec cfg (.deliver d sumSeq) .returns = some w') :
    w.instruction cfg (.deliver d sumSeq) .returns = none ∧
      w'.state = cfg.mutated w.node.handler sumSeq d ∧ w'.node.history = w.node.history := by
  have hins : w.instruction cfg (.deliver d sumSeq) .returns = none := by
    cases hc : (w.sectionOf cfg (.deliver d sumSeq)).call with
    | none => rw [FilterWorker.instruction, hc]
    | some call =>
      rw [Returns, if_pos (by rw [hc]; rfl)] at hr
      simpa using hr
  have hnode : w'.node = w.prepared cfg (.deliver d sumSeq) := by
    unfold exec FilterWorker.runSection at he
    unfold FilterWorker.instruction at hins
    cases hc : (w.sectionOf cfg (.deliver d sumSeq)).call with
    | none =>
      rw [hc] at he
      cases he
      rfl
    | some call =>
      rw [hc] at he hins
      cases heff : (w.prepared cfg (.deliver d sumSeq)).effect cfg.handler (.ok ⟨⟩) call with
      | ok effect =>
        simp only [Outcome.write, heff] at hins
        cases hins
      | error e =>
        cases he
        simp only [Node.call, heff]
  refine ⟨hins, ?_, ?_⟩
  · rw [state, hnode]
    rfl
  · rw [hnode]
    rfl

/-- A message that is not handed to `handle`. -/
theorem delivered_of_no_call (hc : (w.sectionOf cfg (.deliver d sumSeq)).call = none)
    (hs : cfg.Serializes w.node.handler d) (hd : NoAnnouncement c d)
    (he : w.exec cfg (.deliver d sumSeq) .returns = some w') :
    w.Delivered cfg c w' d sumSeq (w.sectionOf cfg (.deliver d sumSeq)).sends := by
  have hnode : w'.node = w.prepared cfg (.deliver d sumSeq) := by
    unfold exec FilterWorker.runSection at he
    rw [hc] at he
    cases he
    rfl
  have hstate : w'.state = cfg.mutated w.node.handler sumSeq d := by
    rw [state, hnode]
    rfl
  refine .quiet (hstate ▸ turn_of_no_call hc hd hs) ?_ ?_ (fun x hx => hx) fun x hx => ?_
  · rw [hstate]
    rfl
  · rw [hnode]
    rfl
  · rw [released, FilterWorker.instruction, hc] at hx
    exact .inl (by simpa [FilterTask.of] using hx)

/-- What is left to publish of an input that is not new was stamped with it. -/
theorem Durable.stamped_of_released {key : InputKey} {instruction : WorkerLoopInstruction}
    (hi : w.Durable cfg) (hsends : (w.sectionOf cfg (.deliver d sumSeq)).sends = [])
    (hins : w.instruction cfg (.deliver d sumSeq) .returns = some instruction)
    (hout : ∀ entries m key', instruction = .publishThenCommit entries m key' → key' = key ∧
      entries = w.node.handler.outbox.entriesForInput key.clientId (cfg.handler.msgId key))
    {x : String × Bytes} (hx : x ∈ w.released cfg d sumSeq) : w.Stamped x := by
  rw [released, hsends, List.nil_append, hins] at hx
  cases instruction with
  | ack => cases hx
  | publishThenCommit outputs m key' =>
    obtain ⟨rfl, rfl⟩ := hout _ _ _ rfl
    obtain hnil | ⟨m', change, hrec⟩ := hi.outputs key'
    · rw [hnil] at hx
      cases hx
    · exact ⟨m', key', change, _, hrec, hx⟩

/-- **Inversion of a delivery.** -/
theorem Durable.delivered (hi : w.Durable cfg) (hq : cfg.PlainQueues)
    (hret : w.Returns cfg d sumSeq) (hd : NoAnnouncement c d)
    (habort : Spares c d) (hheard : cfg.Heard c w.node.handler d)
    (hfits : ∀ key, key.clientId = c → w.node.handler.inbox.classify key ≠ .new →
      key.kind = .data ∨ key.kind = .abort ∨ key.seq = key.clientId → Fits (w.state.facts c) key)
    (he : w.exec cfg (.deliver d sumSeq) .returns = some w') :
    ∃ outs, w.Delivered cfg c w' d sumSeq outs := by
  cases hc : (w.sectionOf cfg (.deliver d sumSeq)).call with
  | none =>
    rw [Returns, if_neg (by rw [hc]; decide)] at hret
    exact ⟨_, delivered_of_no_call hc hret.2 hd he⟩
  | some call =>
    rw [Returns, if_pos (by rw [hc]; rfl)] at hret
    obtain ⟨instr, hinstr⟩ := Option.isSome_iff_exists.mp hret
    obtain ⟨hsends, key, fn, rfl⟩ := handle_of_call hc
    obtain ⟨call', effect, hc', heff, rfl, hnode⟩ := call_of_instruction rfl hinstr he
    cases hc.symm.trans hc'
    have hkeys := seq_of_call hc
    rcases Node.handle_state_cases heff with
      ⟨hnew, change, logical, entries, hb, hstamp, ⟨bytes, hbytes⟩, hins, hst, hh⟩ |
      ⟨hold, hst, hh, hout⟩
    · have happ : Appends cfg.handler (w.prepared cfg (.deliver d sumSeq)).handler (.handle key fn)
          (.inputApplied (cfg.handler.msgId key) key change entries) :=
        ⟨hnew, change, logical, entries, hb, hstamp, rfl⟩
      rcases record_cases hc happ with ⟨key', h', -⟩ |
        ⟨d', sumSeq', h', key', change', entries', hrec, -, hr⟩
      · cases h'
      · cases h'
        obtain ⟨-, rfl, rfl, rfl⟩ := WalRecord.inputApplied.inj hrec
        have hstate :
            w'.state = (cfg.mutated w.node.handler sumSeq d).applyChange cfg.state change := by
          rw [state, hnode, hst]
          rfl
        have hkind : key.clientId = c → key.kind ≠ .abort := fun hk ha =>
          habort key (packetKey_of_call hc (.inr ha)) hk ha
        obtain ⟨hturn, hfit⟩ := hr.turn hkind hc hnew hb (forall₂_of_stamp hstamp) hq
        refine ⟨_, .recorded (hstate ▸ hturn) (hstate ▸ hfit) (fun hc => ?_) (fun hne => ?_) hr
          (hnode ▸ hh) (hinstr.trans (congrArg some hins)) hsends (Wal.encode_inputDone hbytes)⟩
        · rw [hstate, FilterState.isClosed, decide_eq_true_eq,
            FilterState.mem_closedByClient_applyChange] at hc
          exact hc.imp_left decide_eq_true
        exact (hr.elsewhere (x := w.state.facts c) hne hc hb (forall₂_of_stamp hstamp) hq).2
    · have hstate : w'.state = w.state := by
        rw [state, hnode, hst]
        exact mutated_of_not_new hc hold
      have habs := absorbed_of_not_new hc (fun hk => hfits key hk hold hkeys) hheard hold
      refine ⟨[], .quiet ?_ (by rw [hstate]) (hnode ▸ hh) (List.forall_mem_nil _)
        fun x hx => .inr (hi.stamped_of_released hsends hinstr hout hx)⟩
      rw [hstate]
      exact .idle habs (List.forall_mem_nil _)

end FilterWorker

end MoneyLaundering
