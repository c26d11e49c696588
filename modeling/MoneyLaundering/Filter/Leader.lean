import MoneyLaundering.Filter.Conservation

/-!
# Leaders, acks and EOFs of one filter replica

What one recorded input does to the leadership of a client and to the acks its leader collects,
which records stamp EOFs and with which totals, and which packets a section puts on the control and
response queues.
-/

namespace MoneyLaundering

open Bytes InternalProtocol SenderSequencer

/-- The replica took the upstream EOF of the client and has not finished it. -/
def FilterState.Leads (s : FilterState) (clientId : Nat) : Prop :=
  s.coordinator.leaderExpected.get? clientId ≠ none

theorem FilterState.leads_congr {s s' : FilterState} (h : s'.durable = s.durable) (clientId : Nat) :
    s'.Leads clientId ↔ s.Leads clientId := by
  change s'.durable.Leads clientId ↔ s.durable.Leads clientId
  rw [h]

theorem FilterState.acks_congr {s s' : FilterState} (h : s'.durable = s.durable) (clientId : Nat) :
    s'.flushedAcks clientId = s.flushedAcks clientId ∧
      s'.allForwardedByOutput clientId = s.allForwardedByOutput clientId := by
  change s'.durable.flushedAcks clientId = s.durable.flushedAcks clientId ∧
    s'.durable.allForwardedByOutput clientId = s.durable.allForwardedByOutput clientId
  rw [h]
  exact ⟨rfl, rfl⟩

namespace FilterConfig

variable {cfg : FilterConfig} {s : FilterState} {d : Delivery} {key : InputKey}
  {change : FilterChange} {entries : List OutboxEntry}

/-! ## Leadership -/

theorem leaderExpected_onEofReceived (ccfg : CoordinatorConfig) (s : EofCoordinator)
    (clientId : Nat) (ctrl : ControlMessage) (count forwarded : Nat) :
    (s.onEofReceived ccfg clientId ctrl count forwarded).1.leaderExpected = s.leaderExpected := by
  unfold EofCoordinator.onEofReceived
  split <;> rfl

/-- The map of led clients after a recorded input: an EOF adds its client, the last ack removes its
client, nothing else touches it. -/
theorem Recorded.leaderExpected (hr : Recorded cfg s d key change entries) :
    (s.applyChange cfg.state change).coordinator.leaderExpected = s.coordinator.leaderExpected ∨
    (∃ body m expected, d = .input body ∧ unpackAddressedPacket body = .ok m ∧
      m.msgType = MessageType.eof.toNat ∧
      (s.applyChange cfg.state change).coordinator.leaderExpected =
        s.coordinator.leaderExpected.set m.clientId expected) ∨
    (.close key.clientId ∈ change.ops ∧
      (s.applyChange cfg.state change).coordinator.leaderExpected =
        s.coordinator.leaderExpected.erase key.clientId) := by
  cases hr with
  | skipped | routed =>
    exact .inl (by simp [FilterState.applyChange, FilterState.dataChange, FilterChange.ops,
      FilterState.applyOp])
  | aborted => exact .inl rfl
  | @announced body m ctrl entries hm ht hctrl hopen hmany htype =>
    refine .inr (.inl ⟨body, m, ctrl.expectedTotal, rfl, hm, ht, ?_⟩)
    have hnot : ¬ cfg.filterAmount ≤ 1 := by omega
    simp only [FilterState.applyChange, FilterChange.ops, List.foldl_cons, List.foldl_nil,
      FilterState.applyOp, EofCoordinator.onUpstreamEof, state, coordinator, hnot, if_false]
  | drainedAlone hm ht hctrl hopen hone heofs hread =>
    refine .inl ?_
    simp only [FilterState.applyChange, FilterChange.ops, List.foldl_cons, List.foldl_nil,
      FilterState.applyOp, FilterState.applyClose, EofCoordinator.onUpstreamEof, state, coordinator,
      hone, if_true]
  | answered => exact .inl (leaderExpected_onEofReceived _ _ _ _ _ _)
  | drainedOrder => exact .inl rfl
  | acked =>
    exact .inl (by simp [FilterState.applyChange, FilterChange.ops, FilterState.applyOp])
  | drainedLast =>
    refine .inr (.inr ⟨by simp [FilterChange.ops], ?_⟩)
    simp [FilterState.applyChange, FilterChange.ops, FilterState.applyOp, FilterState.applyClose,
      EofCoordinator.cleanupLeaderState]

theorem Recorded.leads (hr : Recorded cfg s d key change entries) {clientId : Nat}
    (h : (s.applyChange cfg.state change).Leads clientId) :
    s.Leads clientId ∨ ∃ body m, d = .input body ∧ unpackAddressedPacket body = .ok m ∧
      m.msgType = MessageType.eof.toNat ∧ m.clientId = clientId := by
  unfold FilterState.Leads at h ⊢
  rcases hr.leaderExpected with he | ⟨body, m, expected, hd, hm, ht, he⟩ | ⟨-, he⟩
  · exact .inl (he ▸ h)
  · rw [he, Dict.get?_set] at h
    by_cases hk : m.clientId = clientId
    · exact .inr ⟨body, m, hd, hm, ht, hk⟩
    · exact .inl (by simpa [hk] using h)
  · rw [he, Dict.get?_erase] at h
    split at h
    · exact absurd rfl h
    · exact .inl h

/-- A client that is led or closed stays so. -/
theorem Recorded.leads_or_closed (hr : Recorded cfg s d key change entries) {clientId : Nat}
    (h : s.Leads clientId ∨ s.isClosed clientId = true) :
    (s.applyChange cfg.state change).Leads clientId ∨
      (s.applyChange cfg.state change).isClosed clientId = true := by
  have hclosed := FilterState.mem_closedByClient_applyChange cfg.state s change clientId
  simp only [FilterState.isClosed, decide_eq_true_eq, hclosed] at h ⊢
  rcases h with h | h
  · unfold FilterState.Leads at h ⊢
    rcases hr.leaderExpected with he | ⟨body, m, expected, -, -, -, he⟩ | ⟨hc, he⟩
    · exact .inl (he ▸ h)
    · rw [he, Dict.get?_set]
      split
      · exact .inl (by rintro ⟨⟩)
      · exact .inl h
    · rw [he, Dict.get?_erase]
      split
      · next hk => exact .inr (.inr (hk ▸ hc))
      · exact .inl h
  · exact .inr (.inl h)

/-! ## Acks -/

theorem acks_applyClose {s s' : FilterState} {c clientId : Nat} (h : clientId ≠ c)
    (hacks : s'.flushedAcks clientId = s.flushedAcks clientId)
    (hall : s'.allForwardedByOutput clientId = s.allForwardedByOutput clientId) :
    (s'.applyClose c).flushedAcks clientId = s.flushedAcks clientId ∧
      (s'.applyClose c).allForwardedByOutput clientId = s.allForwardedByOutput clientId := by
  rw [← hacks, ← hall]
  simp [FilterState.applyClose, FilterState.flushedAcks, FilterState.allForwardedByOutput,
    Dict.getD_erase, h]

/-- What the acks of a client that stays open become: as they were, or with one more of them. -/
theorem Recorded.acks (hr : Recorded cfg s d key change entries) {clientId : Nat}
    (hopen : (s.applyChange cfg.state change).isClosed clientId = false) :
    (s.applyChange cfg.state change).flushedAcks clientId = s.flushedAcks clientId ∧
      (s.applyChange cfg.state change).allForwardedByOutput clientId =
        s.allForwardedByOutput clientId ∨
    ∃ body payload senderId counts, d = .response body ∧
      unpackPacket body = .ok (MessageType.flushAck.toNat, clientId, payload) ∧
      cfg.flushAckJson.loads payload = .ok (senderId, counts) ∧ s.Leads clientId ∧
      key = ⟨clientId, .ctrlFlushAck, senderId, clientId⟩ ∧
      (senderId ∉ s.flushedAcks clientId →
        (s.applyChange cfg.state change).flushedAcks clientId =
          insert senderId (s.flushedAcks clientId) ∧
        (s.applyChange cfg.state change).allForwardedByOutput clientId =
          addCounts (s.allForwardedByOutput clientId) counts) := by
  -- a record that closes another client leaves the acks of this one
  have hclose : ∀ c, FilterOp.close c ∈ change.ops → c ≠ clientId := by
    rintro c hc rfl
    have := (FilterState.mem_closedByClient_applyChange cfg.state s change c).mpr (.inr hc)
    simp [FilterState.isClosed, this] at hopen
  cases hr with
  | skipped | routed =>
    exact .inl ⟨by simp [FilterState.applyChange, FilterState.dataChange, FilterChange.ops,
      FilterState.applyOp, FilterState.flushedAcks], by simp [FilterState.applyChange,
      FilterState.dataChange, FilterChange.ops, FilterState.applyOp,
      FilterState.allForwardedByOutput]⟩
  | announced | answered => exact .inl ⟨rfl, rfl⟩
  | @aborted body m entries hm ht htype =>
    exact .inl (acks_applyClose (hclose m.clientId (by simp [FilterChange.ops])).symm rfl rfl)
  | @drainedAlone body m ctrl eofs entries hm ht hctrl hopen' hone heofs hread =>
    exact .inl (acks_applyClose (hclose m.clientId (by simp [FilterChange.ops])).symm rfl rfl)
  | @drainedOrder body payload ackPayload packet c ctrl drain ack hp =>
    exact .inl (acks_applyClose (hclose c (by simp [FilterChange.ops])).symm rfl rfl)
  | @acked body payload c senderId counts hp hload hopen' hleader hmore =>
    simp only [FilterState.applyChange, FilterChange.ops, List.foldl_cons, List.foldl_nil,
      FilterState.applyOp, FilterState.flushedAcks_applyFlushAck,
      FilterState.allForwardedByOutput_applyFlushAck]
    by_cases hc : c = clientId
    · subst hc
      refine .inr ⟨body, payload, senderId, counts, rfl, hp, hload, hleader, rfl, fun hn => ?_⟩
      simp [hn]
    · exact .inl (by simp [hc])
  | @drainedLast body payload c senderId counts _ _ hp hload hopen' hleader hlast heofs hread =>
    have hne := hclose c (by simp [FilterChange.ops])
    refine .inl (acks_applyClose hne.symm ?_ ?_)
    · change (s.applyFlushAck c senderId counts).flushedAcks clientId = _
      rw [FilterState.flushedAcks_applyFlushAck, if_neg hne]
    · change (s.applyFlushAck c senderId counts).allForwardedByOutput clientId = _
      rw [FilterState.allForwardedByOutput_applyFlushAck, if_neg fun h => hne h.1]

/-! ## Types of stamped packets -/

theorem ReadsAs.first {packets : List Packet} (h : cfg.ReadsAs entries packets) {e : OutboxEntry}
    (he : e ∈ entries) : ∃ p ∈ packets, beDecode (e.body.take 1) = p.msgType.toNat := by
  have hm := List.mem_map_of_mem (f := fun e => (e.destination, cfg.readEntry e)) he
  rw [h] at hm
  obtain ⟨p, hp, heq⟩ := List.mem_map.mp hm
  exact ⟨p, hp, first_of_readEntry (Prod.ext_iff.mp heq).2.symm⟩

theorem msgType_of_mem_flushedPackets {clientId : Nat} {appends : Dict String (List Bytes)}
    {p : Packet} (h : p ∈ cfg.flushedPackets s clientId appends) : p.msgType = .data := by
  obtain ⟨e, -, hp⟩ := List.mem_flatMap.mp h
  obtain ⟨payload, -, rfl⟩ := List.mem_map.mp hp
  rfl

theorem msgType_of_mem_drainPackets {clientId : Nat} {p : Packet}
    (h : p ∈ drainPackets s clientId) : p.msgType = .data := by
  obtain ⟨e, -, rfl⟩ := List.mem_map.mp h
  rfl

theorem msgType_of_mem_eofPackets {counts : Dict String Nat} {eofs : List Packet} {p : Packet}
    (h : cfg.eofPackets counts = .ok eofs) (hp : p ∈ eofs) : p.msgType = .eof := by
  have hspec := eofPackets_spec h
  generalize cfg.eofTargets = targets at hspec
  clear h
  induction hspec with
  | nil => cases hp
  | cons hq _ ih =>
    rcases List.mem_cons.mp hp with rfl | hp
    · exact hq.2.1
    · exact ih hp

theorem msgType_of_mem_drainAndEof {clientId : Nat} {counts : Dict String Nat} {eofs : List Packet}
    {p : Packet} (h : cfg.eofPackets counts = .ok eofs) (hp : p ∈ drainPackets s clientId ++ eofs) :
    p.msgType = .data ∨ p.msgType = .eof :=
  (List.mem_append.mp hp).imp msgType_of_mem_drainPackets (msgType_of_mem_eofPackets h)

/-- The entry carries an ack of the replica, made when it flushes the client on an order. -/
def AckOf (cfg : FilterConfig) (s : FilterState) (d : Delivery) (key : InputKey)
    (change : FilterChange) (e : OutboxEntry) : Prop :=
  ∃ body payload leader packet ackPayload, d = .control body ∧
    unpackPacket body = .ok (MessageType.flushOrder.toNat, key.clientId, payload) ∧
    s.isClosed key.clientId = false ∧ ¬ s.Leads key.clientId ∧ .close key.clientId ∈ change.ops ∧
    cfg.flushAckJson.dumps (cfg.id, s.forwardedByOutput key.clientId) = .ok ackPayload ∧
    createPacket MessageType.flushAck.toNat key.clientId ackPayload = .ok packet ∧
    StampedAs cfg.handler.toSequencerConfig key.clientId
      ⟨cfg.coordinator.responseQueueFor leader, packet, none⟩ e

/-- The types of recorded packets: no flush order, aborts only for an abort, and the acks of
`AckOf`. -/
theorem Recorded.msgType (hr : Recorded cfg s d key change entries) {e : OutboxEntry}
    (he : e ∈ entries) : ∃ t : MessageType, beDecode (e.body.take 1) = t.toNat ∧
      (t = .data ∨ t = .eof ∨ t = .eofReceived ∨ t = .processedAnswer ∨
        t = .abort ∧ key.kind = .abort ∨ t = .flushAck ∧ AckOf cfg s d key change e) := by
  -- packets read back are DATA or EOF
  have hread : ∀ {entries packets}, cfg.ReadsAs entries packets →
      (∀ p ∈ packets, p.msgType = .data ∨ p.msgType = .eof) → e ∈ entries →
      ∃ t : MessageType, beDecode (e.body.take 1) = t.toNat ∧ (t = .data ∨ t = .eof) := by
    intro entries packets h ht he
    obtain ⟨p, hp, hf⟩ := h.first he
    exact ⟨p.msgType, hf, ht p hp⟩
  have hweaken : (∃ t : MessageType, beDecode (e.body.take 1) = t.toNat ∧ (t = .data ∨ t = .eof)) →
      ∃ t : MessageType, beDecode (e.body.take 1) = t.toNat ∧
        (t = .data ∨ t = .eof ∨ t = .eofReceived ∨ t = .processedAnswer ∨
          t = .abort ∧ key.kind = .abort ∨ t = .flushAck ∧ AckOf cfg s d key change e) :=
    fun ⟨t, hf, ht⟩ => ⟨t, hf, ht.imp_right .inl⟩
  cases hr with
  | skipped | acked => cases he
  | routed hm ht hopen htxs hroute hr =>
    exact hweaken (hread hr (fun p hp => .inl (msgType_of_mem_flushedPackets hp)) he)
  | aborted hm ht htype => exact ⟨.abort, htype e he, by simp⟩
  | announced hm ht hctrl hopen hmany htype => exact ⟨.eofReceived, htype e he, by simp⟩
  | answered hp hctrl htype => exact ⟨.processedAnswer, htype e he, by simp⟩
  | drainedAlone hm ht hctrl hopen hone heofs hr =>
    exact hweaken (hread hr (fun p hp => msgType_of_mem_drainAndEof heofs hp) he)
  | drainedLast hp hload hopen hleader hlast heofs hr =>
    exact hweaken (hread hr (fun p hp => msgType_of_mem_drainAndEof heofs hp) he)
  | @drainedOrder body payload ackPayload packet c ctrl drain ack hp hctrl hopen hleader hr hdumps
      hpacket hack =>
    rcases List.mem_append.mp he with he | he
    · exact hweaken (hread hr (fun p hp => .inl (msgType_of_mem_drainPackets hp)) he)
    · obtain rfl := List.mem_singleton.mp he
      have hof : AckOf cfg s (.control body) ⟨c, .ctrlFlushOrder, ctrl.senderId, c⟩
          (.compound [.coordinatorCleanup c false, .close c]) e :=
        ⟨body, payload, ctrl.senderId, packet, ackPayload, rfl, hp, hopen, not_not.mpr hleader,
          by simp [FilterChange.ops], hdumps, hpacket, hack⟩
      exact ⟨.flushAck, first_of_stampedAs hpacket hack, by simp [hof]⟩

theorem Recorded.first_ne_flushOrder (hr : Recorded cfg s d key change entries) {e : OutboxEntry}
    (he : e ∈ entries) : beDecode (e.body.take 1) ≠ MessageType.flushOrder.toNat := by
  obtain ⟨t, hf, ht⟩ := hr.msgType he
  rw [hf]
  rcases ht with rfl | rfl | rfl | rfl | ⟨rfl, -⟩ | ⟨rfl, -⟩ <;> decide

theorem Recorded.ackOf (hr : Recorded cfg s d key change entries) {e : OutboxEntry}
    (he : e ∈ entries)
    (hack : beDecode (e.body.take 1) = MessageType.flushAck.toNat) :
    AckOf cfg s d key change e := by
  obtain ⟨t, hf, ht⟩ := hr.msgType he
  obtain rfl : t = .flushAck := MessageType.toNat_injective (hf.symm.trans hack)
  simpa using ht

theorem Recorded.first_ne_abort (hr : Recorded cfg s d key change entries)
    (hkind : key.kind ≠ .abort) {e : OutboxEntry} (he : e ∈ entries) :
    beDecode (e.body.take 1) ≠ MessageType.abort.toNat := by
  obtain ⟨t, hf, ht⟩ := hr.msgType he
  intro habort
  obtain rfl : t = .abort := MessageType.toNat_injective (hf.symm.trans habort)
  exact hkind (by simpa using ht)

/-! ## Records that stamp EOFs -/

/-- The EOF packets among recorded entries, each with its destination and the total it carries. -/
def eofTotals (cfg : FilterConfig) (entries : List OutboxEntry) : List (String × Option Nat) :=
  entries.filterMap fun e =>
    match cfg.readEntry e with
    | some (msgType, payload) =>
      if msgType = MessageType.eof.toNat then
        some (e.destination, (ControlMessage.deserialize payload).toOption.map (·.expectedTotal))
      else none
    | none => none

theorem eofTotals_eq_nil (h : ∀ e ∈ entries, beDecode (e.body.take 1) ≠ MessageType.eof.toNat) :
    cfg.eofTotals entries = [] := by
  refine List.filterMap_eq_nil_iff.mpr fun e he => ?_
  cases hr : cfg.readEntry e with
  | none => rfl
  | some r =>
    have : r.1 ≠ MessageType.eof.toNat := first_of_readEntry hr ▸ h e he
    simp [this]

theorem OfType.eofTotals {msgType : MessageType} (h : OfType msgType entries)
    (hne : msgType ≠ .eof) :
    cfg.eofTotals entries = [] :=
  eofTotals_eq_nil fun e he => by
    rw [h e he]
    exact fun heq => hne (MessageType.toNat_injective heq)

/-- The totals of packets that are read back. -/
theorem ReadsAs.eofTotals {packets : List Packet} (h : cfg.ReadsAs entries packets) :
    cfg.eofTotals entries = packets.filterMap fun p =>
      if p.msgType = .eof then
        some (p.destination,
          (ControlMessage.deserialize p.payload).toOption.map (·.expectedTotal))
      else none := by
  have ht : ∀ p : Packet, p.msgType.toNat = MessageType.eof.toNat ↔ p.msgType = .eof :=
    fun p => MessageType.toNat_injective.eq_iff
  have := h.filterMap fun r =>
    match r.2 with
    | some (msgType, payload) =>
      if msgType = MessageType.eof.toNat then
        some (r.1, (ControlMessage.deserialize payload).toOption.map (·.expectedTotal))
      else none
    | none => none
  simpa only [ht, FilterConfig.eofTotals] using this

/-- One EOF for each target, with the count of its logical output. -/
theorem eofTotals_drainAndEof {clientId : Nat} {counts : Dict String Nat} {eofs : List Packet}
    (h : cfg.eofPackets counts = .ok eofs)
    (hread : cfg.ReadsAs entries (drainPackets s clientId ++ eofs)) :
    cfg.eofTotals entries =
      cfg.eofTargets.map fun target => (target.1, some (counts.getD target.2 0)) := by
  rw [hread.eofTotals, List.filterMap_append]
  have hdrain : (drainPackets s clientId).filterMap (fun p =>
      if p.msgType = .eof then
        some (p.destination, (ControlMessage.deserialize p.payload).toOption.map (·.expectedTotal))
      else none) = [] := by
    refine List.filterMap_eq_nil_iff.mpr fun p hp => ?_
    rw [msgType_of_mem_drainPackets hp, if_neg (by decide)]
  rw [hdrain, List.nil_append]
  have hspec := eofPackets_spec h
  generalize cfg.eofTargets = targets at hspec
  clear h hread
  induction hspec with
  | nil => rfl
  | cons hp _ ih =>
    obtain ⟨hd, ht, hs⟩ := hp
    rw [List.filterMap_cons, if_pos ht, ih, ControlMessage.deserialize_serialize hs, hd]
    rfl

/-- The record stamps an EOF of the client. -/
def stampsEof (cfg : FilterConfig) (clientId : Nat) : WalRecord FilterChange → Bool
  | .inputApplied _ key _ entries =>
    decide (key.clientId = clientId) && !(cfg.eofTotals entries).isEmpty
  | .inputDone _ _ => false

theorem stampsEof_inputApplied {clientId : Nat} {m : String} :
    cfg.stampsEof clientId (.inputApplied m key change entries) = true ↔
      key.clientId = clientId ∧ cfg.eofTotals entries ≠ [] := by
  simp [stampsEof]

/-- The only records that stamp EOFs close their client: the upstream EOF at a replica that is
alone, and the last ack at a leader. -/
theorem Recorded.eofTotals (hr : Recorded cfg s d key change entries)
    (he : cfg.eofTotals entries ≠ []) :
    s.isClosed key.clientId = false ∧ .close key.clientId ∈ change.ops ∧
    ((∃ body m, d = .input body ∧ unpackAddressedPacket body = .ok m ∧
        m.msgType = MessageType.eof.toNat ∧ m.clientId = key.clientId ∧ cfg.filterAmount ≤ 1 ∧
        cfg.eofTotals entries = cfg.eofTargets.map fun target =>
          (target.1, some ((s.forwardedByOutput key.clientId).getD target.2 0))) ∨
      ∃ body payload senderId counts, d = .response body ∧
        unpackPacket body = .ok (MessageType.flushAck.toNat, key.clientId, payload) ∧
        cfg.flushAckJson.loads payload = .ok (senderId, counts) ∧ s.Leads key.clientId ∧
        cfg.filterAmount - 1 ≤ s.flushedAckCount key.clientId + 1 ∧
        key = ⟨key.clientId, .ctrlFlushAck, senderId, key.clientId⟩ ∧
        cfg.eofTotals entries = cfg.eofTargets.map fun target =>
          (target.1, some ((addCounts (addCounts (s.allForwardedByOutput key.clientId) counts)
            (s.forwardedByOutput key.clientId)).getD target.2 0))) := by
  have hnone : ∀ {entries packets}, cfg.ReadsAs entries packets →
      (∀ p ∈ packets, p.msgType = .data) → cfg.eofTotals entries = [] := by
    intro entries packets h ht
    refine eofTotals_eq_nil fun e he => ?_
    obtain ⟨p, hp, hf⟩ := h.first he
    rw [hf, ht p hp]
    decide
  cases hr with
  | skipped | acked => exact absurd rfl he
  | routed hm ht hopen htxs hroute hr =>
    exact absurd (hnone hr fun p hp => msgType_of_mem_flushedPackets hp) he
  | aborted hm ht htype => exact absurd (htype.eofTotals (by decide)) he
  | announced hm ht hctrl hopen hmany htype => exact absurd (htype.eofTotals (by decide)) he
  | answered hp hctrl htype => exact absurd (htype.eofTotals (by decide)) he
  | @drainedAlone body m ctrl eofs entries hm ht hctrl hopen hone heofs hr =>
    exact ⟨hopen, by simp [FilterChange.ops, dataKey], .inl ⟨body, m, rfl, hm, ht, rfl, hone,
      eofTotals_drainAndEof heofs hr⟩⟩
  | @drainedOrder body payload ackPayload packet c ctrl drain ack hp hctrl hopen hleader hr hdumps
      hpacket hack =>
    refine absurd ?_ he
    have hdrain := hnone hr fun p hp => msgType_of_mem_drainPackets hp
    have htype : OfType .flushAck [ack] := fun e he => by
      obtain rfl := List.mem_singleton.mp he
      exact first_of_stampedAs hpacket hack
    rw [FilterConfig.eofTotals, List.filterMap_append]
    exact List.append_eq_nil_iff.mpr ⟨hdrain, htype.eofTotals (by decide)⟩
  | @drainedLast body payload c senderId counts eofs entries hp hload hopen hleader
      hlast heofs hr =>
    exact ⟨hopen, by simp [FilterChange.ops], .inr ⟨body, payload, senderId, counts, rfl, hp, hload,
      hleader, hlast, rfl, eofTotals_drainAndEof heofs hr⟩⟩

end FilterConfig

/-! ## Packets sent directly -/

namespace FilterConfig

variable {cfg : FilterConfig}

/-- The packets of an action of the coordinator are no acks, and flush orders are of led clients. -/
theorem first_of_sendsOf {s : EofCoordinator} {msgType : MessageType}
    {clientId count forwarded : Nat} {ctrl : ControlMessage} {sent : String × Bytes}
    (h : sent ∈ sendsOf (s.processControlMessage cfg.coordinator msgType clientId ctrl count
      forwarded).2) :
    beDecode (sent.2.take 1) ≠ MessageType.flushAck.toNat ∧
      ∀ c payload, unpackPacket sent.2 = .ok (MessageType.flushOrder.toNat, c, payload) →
        s.leaderExpected.get? c ≠ none := by
  cases ha : (s.processControlMessage cfg.coordinator msgType clientId ctrl count forwarded).2 with
  | none => simp [ha, sendsOf] at h
  | some action =>
    -- every packet is made by `_make_packet`
    have hmade : ∃ message : ControlPacket, message.toBytes = .ok sent.2 ∧
        ((message.msgType = .processedAnswer) ∨
          ∃ queues sleep, action = .broadcast queues message sleep) := by
      cases action with
      | sendAnswer queueName message =>
        cases hb : message.toBytes with
        | error _ => simp [ha, sendsOf, hb] at h
        | ok bytes =>
          obtain rfl : sent = (queueName, bytes) := by simpa [ha, sendsOf, hb] using h
          exact ⟨message, hb, .inl (EofCoordinator.msgType_of_sendAnswer _ ha)⟩
      | broadcast queues message sleep =>
        cases hb : message.toBytes with
        | error _ => simp [ha, sendsOf, hb] at h
        | ok bytes =>
          simp only [ha, sendsOf, hb, List.mem_map] at h
          obtain ⟨q, -, rfl⟩ := h
          exact ⟨message, hb, .inr ⟨queues, sleep, rfl⟩⟩
      | flush => simp [ha, sendsOf] at h
    obtain ⟨message, hb, hkind⟩ := hmade
    obtain ⟨made, -, hcreate⟩ := exists_createPacket hb
    rw [msgType_of_createPacket hcreate]
    have hread : ∀ c payload, unpackPacket sent.2 = .ok (MessageType.flushOrder.toNat, c, payload) →
        message.msgType = .flushOrder ∧ message.clientId = c := by
      intro c payload hp
      rw [unpackPacket_createPacket hcreate] at hp
      simp only [Except.ok.injEq, Prod.mk.injEq] at hp
      exact ⟨MessageType.toNat_injective hp.1, hp.2.1⟩
    rcases hkind with ht | ⟨queues, sleep, rfl⟩
    · refine ⟨by rw [ht]; decide, fun c payload hp => ?_⟩
      exact absurd ((hread c payload hp).1.symm.trans ht) (by decide)
    · refine ⟨?_, fun c payload hp => ?_⟩
      · rcases EofCoordinator.msgType_of_broadcast _ ha with ht | ht <;> rw [ht] <;> decide
      · obtain ⟨ht, rfl⟩ := hread c payload hp
        obtain ⟨-, hc, -, expected, hexp, -⟩ := EofCoordinator.processControlMessage_flushOrder
          cfg.coordinator (s := s) (p := ⟨msgType, clientId, ctrl⟩) ha ht
        rw [hc, hexp]
        exact nofun

end FilterConfig

namespace FilterWorker

open FilterConfig

variable {cfg : FilterConfig} {w : FilterWorker} {act : FilterAct}

/-- The packets that a section sends directly, bypassing the outbox. -/
theorem first_of_sends {sent : String × Bytes} (h : sent ∈ (w.sectionOf cfg act).sends) :
    beDecode (sent.2.take 1) ≠ MessageType.flushAck.toNat ∧
      ∀ c payload, unpackPacket sent.2 = .ok (MessageType.flushOrder.toNat, c, payload) →
        w.state.Leads c := by
  cases act with
  | commitDone key => cases h
  | deliver d sumSeq =>
    cases d with
    | input body =>
      simp only [sectionOf, onDelivery, onInputMessage] at h
      split at h
      · simp only [process] at h
        split at h
        · cases h
        · split at h <;> cases h
      · simp only [handleUpstreamEof] at h
        split at h
        · cases h
        · split at h
          · cases h
          · split at h <;> cases h
      · simp only [process] at h
        split at h
        · cases h
        · split at h <;> cases h
      · cases h
    | control body =>
      simp only [sectionOf, onDelivery, handleControl] at h
      split at h
      · cases h
      · split at h
        · cases h
        · split at h
          · simp only [handleFlushOrder] at h
            split at h
            · cases h
            · split at h <;> cases h
          · cases h
          · exact first_of_sendsOf h
          · cases h
    | response body =>
      simp only [sectionOf, onDelivery, handleResponse] at h
      split at h
      · cases h
      · split at h
        · cases h
        · simp only [handleFlushAck] at h
          split at h
          · cases h
          · split at h
            · cases h
            · split at h <;> cases h
        · split at h
          · cases h
          · simp only at h
            split at h
            · next ha =>
              rw [← ha] at h
              exact first_of_sendsOf h
            · cases h

/-! ## One section, seen from outside -/

variable {outcome : Outcome} {w' : FilterWorker} {clientId : Nat}

theorem batchOf_of_closed (h : w.state.isClosed clientId = true) :
    transactionsOf (batchOf w.state act) clientId = [] := by
  unfold batchOf
  split
  · split
    · rfl
    · next m hm =>
      split
      · next hcond =>
        have hne : m.clientId ≠ clientId := by
          rintro rfl
          simp [h] at hcond
        split <;> simp [transactionsOf, hne]
      · rfl
  · rfl

/-- A closed client stays closed, and nothing more of it is routed. -/
theorem Durable.exec_closed (hi : w.Durable cfg) (he : w.exec cfg act outcome = some w')
    (h : w.state.isClosed clientId = true) : w'.state.isClosed clientId = true ∧
      transactionsOf w'.routed clientId = transactionsOf w.routed clientId := by
  rcases (hi.exec_cases he).2 with ⟨-, hr, hs⟩ |
    ⟨d, sumSeq, key, change, entries, rfl, -, hr, hs, -, -⟩
  · rw [FilterState.isClosed_congr hs, hr]
    exact ⟨h, rfl⟩
  · refine ⟨?_, ?_⟩
    · have hmem := FilterState.mem_closedByClient_applyChange cfg.state w.state change clientId
      simp only [FilterState.isClosed, decide_eq_true_eq] at h
      rw [FilterState.isClosed_congr hs, FilterState.isClosed, decide_eq_true_eq, hmem]
      exact .inl h
    · rw [hr, transactionsOf_append, batchOf_of_closed h, List.append_nil]

/-- Only an upstream EOF makes a replica lead a client. -/
theorem Durable.exec_leads (hi : w.Durable cfg) (he : w.exec cfg act outcome = some w')
    (h : w'.state.Leads clientId) : w.state.Leads clientId ∨
      ∃ body sumSeq m, act = .deliver (.input body) sumSeq ∧ unpackAddressedPacket body = .ok m ∧
        m.msgType = MessageType.eof.toNat ∧ m.clientId = clientId := by
  rcases (hi.exec_cases he).2 with ⟨-, -, hs⟩ |
    ⟨d, sumSeq, key, change, entries, rfl, -, -, hs, -, hrec⟩
  · exact .inl ((FilterState.leads_congr hs clientId).mp h)
  · rcases hrec.leads ((FilterState.leads_congr hs clientId).mp h) with hl |
      ⟨body, m, rfl, hm, ht, hc⟩
    · exact .inl hl
    · exact .inr ⟨body, sumSeq, m, rfl, hm, ht, hc⟩

theorem Durable.exec_leads_or_closed (hi : w.Durable cfg) (he : w.exec cfg act outcome = some w')
    (h : w.state.Leads clientId ∨ w.state.isClosed clientId = true) :
    w'.state.Leads clientId ∨ w'.state.isClosed clientId = true := by
  rcases (hi.exec_cases he).2 with ⟨-, -, hs⟩ |
    ⟨d, sumSeq, key, change, entries, rfl, -, -, hs, -, hrec⟩
  · rwa [FilterState.leads_congr hs, FilterState.isClosed_congr hs]
  · rw [FilterState.leads_congr hs, FilterState.isClosed_congr hs]
    exact hrec.leads_or_closed h

/-- An input that is new was not recorded before. -/
theorem Durable.not_recorded (hi : w.Durable cfg) {key : InputKey}
    (hnew : w.node.handler.inbox.classify key = .new) {m : String} {change : FilterChange}
    {entries : List OutboxEntry} : .inputApplied m key change entries ∉ w.node.history := by
  intro hm
  rw [Node.Inv.inbox hi] at hnew
  exact hi.admissible.absorbed hm hnew

/-- The packets recorded since an earlier state of a replica. -/
def recordedSince (w w' : FilterWorker) : List OutboxEntry :=
  (w'.node.history.drop w.node.history.length).flatMap fun record =>
    record.loggedOutputs.map Prod.snd

theorem recordedSince_eq_nil (h : w'.node.history = w.node.history ∨ ∃ m key,
    w'.node.history = w.node.history ++ [.inputDone m key]) : recordedSince w w' = [] := by
  rcases h with h | ⟨m, key, h⟩
  · simp [recordedSince, h]
  · simp [recordedSince, h, WalRecord.loggedOutputs]

theorem recordedSince_eq {m : String} {key : InputKey} {change : FilterChange}
    {entries : List OutboxEntry}
    (h : w'.node.history = w.node.history ++ [.inputApplied m key change entries]) :
    recordedSince w w' = entries := by
  simp [recordedSince, h, WalRecord.loggedOutputs]

/-- The packets that a section sends or records for sending. -/
def emitted (w : FilterWorker) (cfg : FilterConfig) (w' : FilterWorker) (act : FilterAct) :
    List Bytes :=
  (w.sectionOf cfg act).sends.map Prod.snd ++ (w.recordedSince w').map OutboxEntry.body

/-- **Provenance.** A replica sends flush orders of the clients it leads, and an ack, with its
counts, when it closes a client that it does not lead on a flush order. -/
theorem Durable.emitted (hi : w.Durable cfg) (he : w.exec cfg act outcome = some w')
    (hq : ∀ j, cfg.outputEdges.get? (cfg.coordinator.responseQueueFor j) = none)
    {body payload : Bytes} (hb : body ∈ w.emitted cfg w' act) :
    (unpackPacket body = .ok (MessageType.flushOrder.toNat, clientId, payload) →
      w.state.Leads clientId) ∧
    (unpackPacket body = .ok (MessageType.flushAck.toNat, clientId, payload) →
      w.state.isClosed clientId = false ∧ ¬ w.state.Leads clientId ∧
      w'.state.isClosed clientId = true ∧ w'.routed = w.routed ∧
      cfg.flushAckJson.loads payload = .ok (cfg.id, w.state.forwardedByOutput clientId) ∧
      ∃ order sumSeq orderPayload, act = .deliver (.control order) sumSeq ∧
        unpackPacket order = .ok (MessageType.flushOrder.toNat, clientId, orderPayload)) := by
  rcases List.mem_append.mp hb with hb | hb
  · obtain ⟨sent, hs, rfl⟩ := List.mem_map.mp hb
    obtain ⟨hack, horder⟩ := first_of_sends hs
    exact ⟨horder _ _, fun hp => absurd (msgType_of_unpackPacket hp).symm hack⟩
  · obtain ⟨e, hm, rfl⟩ := List.mem_map.mp hb
    rcases (hi.exec_cases he).2 with ⟨hh, -, -⟩ |
      ⟨d, sumSeq, key, change, entries, rfl, hh, hr, hs, -, hrec⟩
    · rw [recordedSince_eq_nil (hh.imp_right fun ⟨key, _, h⟩ => ⟨_, key, h⟩)] at hm
      cases hm
    · rw [recordedSince_eq hh] at hm
      refine ⟨fun hp => absurd (msgType_of_unpackPacket hp).symm (hrec.first_ne_flushOrder hm),
        fun hp => ?_⟩
      obtain ⟨order, orderPayload, leader, packet, ackPayload, rfl, ho, hopen, hleads, hclose,
        hdumps, hpacket, hstamp⟩ := hrec.ackOf hm (msgType_of_unpackPacket hp).symm
      rw [(hstamp.plain (hq leader)).1, unpackPacket_createPacket hpacket] at hp
      simp only [Except.ok.injEq, Prod.mk.injEq, true_and] at hp
      obtain ⟨rfl, rfl⟩ := hp
      refine ⟨hopen, hleads, ?_, by simpa [batchOf] using hr,
        cfg.flushAckJson.loads_dumps _ _ hdumps, order, sumSeq, orderPayload, rfl, ho⟩
      have hmem := FilterState.mem_closedByClient_applyChange cfg.state w.state change key.clientId
      rw [FilterState.isClosed_congr hs, FilterState.isClosed, decide_eq_true_eq, hmem]
      exact .inr hclose

end FilterWorker

end MoneyLaundering
