import MoneyLaundering.Filter.System

/-!
# The order of DATA and EOF out of a filter cluster

The counts of a replica advance under the lock, its outputs are published outside it. A replica that
handles a flush order, or the last ack, while its data thread still has outputs of the client to
publish lets the EOF overtake them (`FilterSystem.eof_overtakes_data`). When every replica waits for
its data thread there, the EOF comes last (`FilterSystem.eof_follows_data`).
-/

namespace MoneyLaundering

open Bytes InternalProtocol SenderSequencer FilterConfig Transition

namespace FilterConfig

variable {cfg : FilterConfig} {s : FilterState} {d : Delivery} {key : InputKey}
  {change : FilterChange} {entries : List OutboxEntry}

/-- The stamped packet is of the type. -/
def carries (cfg : FilterConfig) (msgType : MessageType) (e : OutboxEntry) : Bool :=
  match cfg.readEntry e with
  | some (t, _) => t == msgType.toNat
  | none => false

theorem first_of_carries {msgType : MessageType} {e : OutboxEntry}
    (h : cfg.carries msgType e = true) : beDecode (e.body.take 1) = msgType.toNat := by
  unfold carries at h
  split at h
  · next t payload hr => exact (first_of_readEntry hr).trans (by simpa using h)
  · cases h

/-- The DATA packets that a history records for a client. -/
def dataEntries (cfg : FilterConfig) (history : List (WalRecord FilterChange)) (clientId : Nat) :
    List OutboxEntry :=
  ((outputLog history).filter fun x =>
    decide (x.1 = clientId) && cfg.carries .data x.2).map Prod.snd

theorem mem_dataEntries {history : List (WalRecord FilterChange)} {clientId : Nat}
    {e : OutboxEntry} :
    e ∈ cfg.dataEntries history clientId ↔ ∃ m key change entries,
      .inputApplied m key change entries ∈ history ∧ key.clientId = clientId ∧ e ∈ entries ∧
        cfg.carries .data e = true := by
  simp only [dataEntries, outputLog, List.mem_map, List.mem_filter, List.mem_flatMap,
    Bool.and_eq_true, decide_eq_true_eq]
  constructor
  · rintro ⟨⟨c, e⟩, ⟨⟨record, hr, hx⟩, rfl, hd⟩, rfl⟩
    cases record with
    | inputDone m key => cases hx
    | inputApplied m key change entries =>
      obtain ⟨e, he, hx⟩ := List.mem_map.mp hx
      cases hx
      exact ⟨m, key, change, entries, hr, rfl, he, hd⟩
  · rintro ⟨m, key, change, entries, hr, rfl, he, hd⟩
    exact ⟨(key.clientId, e), ⟨⟨_, hr, List.mem_map_of_mem he⟩, rfl, hd⟩, rfl⟩

/-- The total that a stamped EOF carries. -/
def eofTotal (cfg : FilterConfig) (e : OutboxEntry) : Option Nat :=
  match cfg.readEntry e with
  | some (_, payload) => (ControlMessage.deserialize payload).toOption.map (·.expectedTotal)
  | none => none

theorem mem_eofTotals {e : OutboxEntry} (hm : e ∈ entries) (he : cfg.carries .eof e = true) :
    (e.destination, cfg.eofTotal e) ∈ cfg.eofTotals entries := by
  refine List.mem_filterMap.mpr ⟨e, hm, ?_⟩
  unfold carries at he
  split at he
  · next t payload hr =>
    obtain rfl : t = MessageType.eof.toNat := by simpa using he
    simp [eofTotal, hr]
  · cases he

/-! ## What a record looks like -/

/-- DATA packets come first. -/
def DataFirst (entries : List OutboxEntry) : Prop :=
  ∃ data rest, entries = data ++ rest ∧
    (∀ e ∈ data, beDecode (e.body.take 1) = MessageType.data.toNat) ∧
    ∀ e ∈ rest, beDecode (e.body.take 1) ≠ MessageType.data.toNat

theorem DataFirst.of_data (h : ∀ e ∈ entries, beDecode (e.body.take 1) = MessageType.data.toNat) :
    DataFirst entries := ⟨entries, [], by simp, h, nofun⟩

theorem OfType.dataFirst {msgType : MessageType} (h : OfType msgType entries)
    (hne : msgType ≠ .data) : DataFirst entries :=
  ⟨[], entries, rfl, nofun, fun e he heq =>
    hne (MessageType.toNat_injective ((h e he).symm.trans heq))⟩

/-- Whatever follows the data of a record is preceded by all of it. -/
theorem DataFirst.mem_before (h : DataFirst entries) {before after : List OutboxEntry}
    {e e' : OutboxEntry} (hs : entries = before ++ e :: after)
    (he : beDecode (e.body.take 1) ≠ MessageType.data.toNat) (hm : e' ∈ entries)
    (he' : beDecode (e'.body.take 1) = MessageType.data.toNat) : e' ∈ before := by
  obtain ⟨data, rest, rfl, hdata, hrest⟩ := h
  have hmem : e' ∈ data := (List.mem_append.mp hm).resolve_right fun h => hrest e' h he'
  rcases List.append_eq_append_iff.mp hs with ⟨more, rfl, -⟩ | ⟨more, hd, hc⟩
  · exact List.mem_append_left _ hmem
  · cases more with
    | nil =>
      rw [List.append_nil] at hd
      exact hd ▸ hmem
    | cons x more =>
      -- the packet would be among the data
      simp only [List.cons_append, List.cons.injEq] at hc
      exact absurd (hdata e (by simp [hd, hc.1])) he

theorem ReadsAs.dataFirst {packets packets' : List Packet}
    (h : cfg.ReadsAs entries (packets ++ packets')) (hdata : ∀ p ∈ packets, p.msgType = .data)
    (hrest : ∀ p ∈ packets', p.msgType ≠ .data) : DataFirst entries := by
  unfold ReadsAs at h
  rw [List.map_append] at h
  obtain ⟨data, rest, rfl, hd, hr⟩ := List.map_eq_append_iff.mp h
  refine ⟨data, rest, rfl, fun e he => ?_, fun e he => ?_⟩
  · obtain ⟨p, hp, hf⟩ := ReadsAs.first hd he
    rw [hf, hdata p hp]
  · obtain ⟨p, hp, hf⟩ := ReadsAs.first hr he
    exact fun heq => hrest p hp (MessageType.toNat_injective (hf.symm.trans heq))

theorem Recorded.dataFirst (hr : Recorded cfg s d key change entries) : DataFirst entries := by
  have hdrain : ∀ {clientId counts eofs}, cfg.eofPackets counts = .ok eofs →
      cfg.ReadsAs entries (drainPackets s clientId ++ eofs) → DataFirst entries := by
    intro clientId counts eofs heofs hr
    refine hr.dataFirst (fun p hp => msgType_of_mem_drainPackets hp) fun p hp => ?_
    rw [msgType_of_mem_eofPackets heofs hp]
    decide
  cases hr with
  | skipped | acked => exact .of_data nofun
  | routed hm ht hopen htxs hroute hr =>
    refine .of_data fun e he => ?_
    obtain ⟨p, hp, hf⟩ := hr.first he
    rw [hf, msgType_of_mem_flushedPackets hp]
  | aborted hm ht htype => exact htype.dataFirst (by decide)
  | announced hm ht hctrl hopen hmany htype => exact htype.dataFirst (by decide)
  | answered hp hctrl htype => exact htype.dataFirst (by decide)
  | drainedAlone hm ht hctrl hopen hone heofs hr => exact hdrain heofs hr
  | drainedLast hp hload hopen hleader hlast heofs hr => exact hdrain heofs hr
  | @drainedOrder body payload ackPayload packet c ctrl drain ack hp hctrl hopen hleader hr hdumps
      hpacket hack =>
    refine ⟨drain, [ack], rfl, fun e he => ?_, fun e he => ?_⟩
    · obtain ⟨p, hp, hf⟩ := hr.first he
      rw [hf, msgType_of_mem_drainPackets hp]
    · obtain rfl := List.mem_singleton.mp he
      rw [first_of_stampedAs hpacket hack]
      decide

/-- No DATA is recorded for a closed client. -/
theorem Recorded.open_of_data (hr : Recorded cfg s d key change entries) {e : OutboxEntry}
    (he : e ∈ entries) (hd : cfg.carries .data e = true) : s.isClosed key.clientId = false := by
  have hf := first_of_carries hd
  cases hr with
  | skipped | acked => cases he
  | routed hm ht hopen htxs hroute hr => exact hopen
  | aborted hm ht htype => exact absurd (hf.symm.trans (htype e he)) (by decide)
  | announced hm ht hctrl hopen hmany htype => exact hopen
  | answered hp hctrl htype => exact absurd (hf.symm.trans (htype e he)) (by decide)
  | drainedAlone hm ht hctrl hopen hone heofs hr => exact hopen
  | drainedLast hp hload hopen hleader hlast heofs hr => exact hopen
  | drainedOrder hp hctrl hopen hleader hr hdumps hpacket hack => exact hopen

/-- The client that handling a message would close: on a flush order at a replica that does not lead
the client, and on the last ack at its leader. -/
def closedBy (cfg : FilterConfig) (s : FilterState) : Delivery → Option Nat
  | .input _ => none
  | .control body =>
    match unpackPacket body with
    | .ok (msgType, clientId, _) =>
      if msgType = MessageType.flushOrder.toNat ∧ s.isClosed clientId = false ∧
          (s.coordinator.leaderExpected.get? clientId).isNone then some clientId
      else none
    | .error _ => none
  | .response body =>
    match unpackPacket body with
    | .ok (msgType, clientId, _) =>
      if msgType = MessageType.flushAck.toNat ∧ s.isClosed clientId = false ∧
          (s.coordinator.leaderExpected.get? clientId).isSome ∧
          cfg.filterAmount - 1 ≤ s.flushedAckCount clientId + 1 then some clientId
      else none
    | .error _ => none

/-- Without aborts, a replica that is not alone closes a client in these two ways only. -/
theorem Recorded.closedBy (hr : Recorded cfg s d key change entries) (hkind : key.kind ≠ .abort)
    (hN : 2 ≤ cfg.filterAmount) {clientId : Nat} (hc : .close clientId ∈ change.ops) :
    clientId = key.clientId ∧ s.isClosed clientId = false ∧
      cfg.closedBy s d = some clientId := by
  cases hr with
  | skipped | routed | announced | answered | acked =>
    simp [FilterChange.ops, FilterState.dataChange] at hc
  | aborted => exact absurd rfl hkind
  | drainedAlone hm ht hctrl hopen hone heofs hr => omega
  | drainedOrder hp hctrl hopen hleader hr hdumps hpacket hack =>
    obtain rfl : clientId = _ := by simpa [FilterChange.ops] using hc
    exact ⟨rfl, hopen, by simp [FilterConfig.closedBy, hp, hopen, hleader]⟩
  | drainedLast hp hload hopen hleader hlast heofs hr =>
    obtain rfl : clientId = _ := by simpa [FilterChange.ops] using hc
    refine ⟨rfl, hopen, ?_⟩
    simp [FilterConfig.closedBy, hp, hopen, hlast, Option.isSome_iff_ne_none, hleader]

end FilterConfig

namespace FilterSystem

variable (cfg : FilterClusterConfig)

/-! ## The condition and the property -/

/-- Replica `i` has published all its DATA of the client. -/
def Settled (sys : FilterSystem) (clientId i : Nat) : Prop :=
  ∀ e ∈ (cfg.at i).dataEntries (sys.cluster.replicas i).node.history clientId,
    ⟨i, clientId, e⟩ ∈ sys.published

/-- A replica closes a client only when it has published its DATA. -/
def Waits (sys : FilterSystem) : SystemAct → Prop
  | .deliver i d _ _ =>
    ∀ clientId ∈ (cfg.at i).closedBy (sys.cluster.replicas i).state d, sys.Settled cfg clientId i
  | _ => True

instance (sys : FilterSystem) (clientId i : Nat) : Decidable (sys.Settled cfg clientId i) :=
  inferInstanceAs (Decidable (∀ e ∈ _, _ ∈ _))

instance (sys : FilterSystem) : (act : SystemAct) → Decidable (Waits cfg sys act)
  | .deliver .. => inferInstanceAs (Decidable (∀ clientId ∈ _, _))
  | .publish .. | .commit .. | .republish .. | .crash .. => .isTrue trivial

/-- Every published EOF comes after all DATA of its client, of all replicas. -/
def EofFollowsData (sys : FilterSystem) : Prop :=
  ∀ before p after, sys.published = before ++ p :: after →
    (cfg.at p.replica).carries .eof p.entry = true → ∀ j < cfg.worker.filterAmount,
      ∀ e ∈ (cfg.at j).dataEntries (sys.cluster.replicas j).node.history p.clientId,
        ⟨j, p.clientId, e⟩ ∈ before

/-! ## The invariant -/

/-- What holds in runs in which the replicas wait, the threads apart. -/
structure Core (sys : FilterSystem) : Prop where
  cluster : sys.cluster.Inv cfg
  recorded : ∀ i m key change entries,
    .inputApplied m key change entries ∈ (sys.cluster.replicas i).node.history →
    key.kind ≠ .abort ∧ ∃ s d, Recorded (cfg.at i) s d key change entries
  addressed : ∀ i m key change entries,
    .inputApplied m key change entries ∈ (sys.cluster.replicas i).node.history → ∀ e ∈ entries,
    ∃ output, StampedAs (cfg.at i).handler.toSequencerConfig key.clientId output e
  closers : ∀ i clientId, ∀ record ∈ (sys.cluster.replicas i).node.history,
    ∀ record' ∈ (sys.cluster.replicas i).node.history,
    record.Closes clientId → record'.Closes clientId → record = record'
  settled : ∀ i m key change entries,
    .inputApplied m key change entries ∈ (sys.cluster.replicas i).node.history →
    sys.cluster.Closed key.clientId i → .close key.clientId ∉ change.ops →
    ∀ e ∈ entries, (cfg.at i).carries .data e = true → ⟨i, key.clientId, e⟩ ∈ sys.published
  bodies : ∀ i m key change entries,
    .inputApplied m key change entries ∈ (sys.cluster.replicas i).node.history →
    ∀ e ∈ entries, e.body ∈ sys.cluster.network
  sent : ∀ body ∈ sys.sent, body ∈ sys.cluster.network
  acks : ∀ body ∈ sys.sent, ∀ clientId payload i counts,
    unpackPacket body = .ok (MessageType.flushAck.toNat, clientId, payload) →
    cfg.worker.flushAckJson.loads payload = .ok (i, counts) → sys.Settled cfg clientId i
  collected : ∀ clientId, ¬ sys.cluster.Closed clientId (cfg.leaderOf clientId) →
    ∀ i ∈ (sys.cluster.replicas (cfg.leaderOf clientId)).state.flushedAcks clientId,
      sys.Settled cfg clientId i
  stamped : ∀ i m key change entries,
    .inputApplied m key change entries ∈ (sys.cluster.replicas i).node.history →
    (cfg.at i).eofTotals entries ≠ [] →
    ∀ j < cfg.worker.filterAmount, j ≠ i → sys.Settled cfg key.clientId j
  published : ∀ p ∈ sys.published, ∃ m key change entries,
    .inputApplied m key change entries ∈ (sys.cluster.replicas p.replica).node.history ∧
      key.clientId = p.clientId ∧ p.entry ∈ entries
  follows : EofFollowsData cfg sys

/-- The threads, too. -/
structure Inv (sys : FilterSystem) : Prop extends Core cfg sys where
  tasks : ∀ i thread task, sys.tasks i thread = some task →
    sys.Queued i (task.remaining.map (task.key.clientId, ·))
  pending : ∀ i, sys.Queued i ((sys.pending i).map fun x => (x.1, x.2.2))

variable {cfg} {sys sys' : FilterSystem}

theorem inv_init : Inv cfg (init cfg) where
  cluster := FilterCluster.inv_init
  recorded := nofun
  addressed := nofun
  closers := nofun
  settled := nofun
  bodies := nofun
  sent := nofun
  acks := nofun
  collected := nofun
  stamped := nofun
  published := nofun
  follows before _ _ h := by cases before <;> cases h
  tasks := nofun
  pending _ := .nil

/-! ## Publishing -/

section publishing

variable {i : Nat} {m : String} {key : InputKey} {change : FilterChange}
  {done rest : List OutboxEntry} {e : OutboxEntry}

/-- Once the packets before an ack or an EOF are published, so is all DATA of the replica. -/
theorem Core.settled_of_done (h : Core cfg sys)
    (hm : .inputApplied m key change (done ++ e :: rest) ∈ (sys.cluster.replicas i).node.history)
    (hclose : .close key.clientId ∈ change.ops)
    (he : beDecode (e.body.take 1) ≠ MessageType.data.toNat)
    (hdone : ∀ e' ∈ done, ⟨i, key.clientId, e'⟩ ∈ sys.published) :
    sys.Settled cfg key.clientId i := by
  have hclosed : sys.cluster.Closed key.clientId i :=
    ((h.cluster.replica i).closed key.clientId).mpr ⟨_, hm, hclose⟩
  intro e' hd
  obtain ⟨m', key', change', entries', hm', hc, he', hd'⟩ := mem_dataEntries.mp hd
  rw [← hc] at hclosed hclose ⊢
  by_cases hclose' : .close key'.clientId ∈ change'.ops
  · -- only one record closes the client
    cases h.closers i key'.clientId _ hm _ hm' hclose hclose'
    obtain ⟨-, s, d, hrec⟩ := h.recorded i _ _ _ _ hm
    exact hdone e' (hrec.dataFirst.mem_before rfl he he' (first_of_carries hd'))
  · exact h.settled i m' key' change' entries' hm' hclosed hclose' e' he' hd'

theorem Settled.mono {clientId : Nat} (h : sys.Settled cfg clientId i)
    (hc : sys'.cluster = sys.cluster) (hp : ∀ p ∈ sys.published, p ∈ sys'.published) :
    sys'.Settled cfg clientId i := by
  intro e he
  rw [hc] at he
  exact hp _ (h e he)

/-- The next packet of a replica is published. -/
theorem Core.publish (h : Core cfg sys)
    (hm : .inputApplied m key change (done ++ e :: rest) ∈ (sys.cluster.replicas i).node.history)
    (hdone : ∀ e' ∈ done, ⟨i, key.clientId, e'⟩ ∈ sys.published) :
    Core cfg (sys.confirm ⟨i, key.clientId, e⟩) := by
  have hmem : e ∈ done ++ e :: rest := by simp
  obtain ⟨hkind, s, d, hrec⟩ := h.recorded i _ _ _ _ hm
  have hmono : ∀ p ∈ sys.published, p ∈ (sys.confirm ⟨i, key.clientId, e⟩).published :=
    fun p hp => List.mem_append_left _ hp
  refine ⟨h.cluster, h.recorded, h.addressed, h.closers, ?_, h.bodies, ?_, ?_, ?_, ?_, ?_, ?_⟩
  · exact fun i m key change entries hm hc hn e he hd =>
      hmono _ (h.settled i m key change entries hm hc hn e he hd)
  · intro body hb
    rcases List.mem_append.mp hb with hb | hb
    · exact h.sent body hb
    · obtain rfl := List.mem_singleton.mp hb
      exact h.bodies i _ _ _ _ hm e hmem
  · intro body hb clientId payload j counts hp hload
    rcases List.mem_append.mp hb with hb | hb
    · exact (h.acks body hb clientId payload j counts hp hload).mono rfl hmono
    · obtain rfl := List.mem_singleton.mp hb
      have hfirst := (msgType_of_unpackPacket hp).symm
      obtain ⟨order, orderPayload, leader, packet, ackPayload, rfl, -, -, -, hclose,
        hdumps, hpacket, hstamp⟩ := hrec.ackOf hmem hfirst
      rw [(hstamp.plain (cfg.responseQueues i leader)).1, unpackPacket_createPacket hpacket] at hp
      simp only [Except.ok.injEq, Prod.mk.injEq, true_and] at hp
      obtain ⟨rfl, rfl⟩ := hp
      have hpair := Except.ok.inj
        ((cfg.worker.flushAckJson.loads_dumps _ _ hdumps).symm.trans hload)
      obtain rfl : i = j := congrArg Prod.fst hpair
      refine (h.settled_of_done hm hclose ?_ hdone).mono rfl hmono
      rw [hfirst]
      decide
  · exact fun c hc j hj => (h.collected c hc j hj).mono rfl hmono
  · exact fun i m key change entries hm heof j hj hne =>
      (h.stamped i m key change entries hm heof j hj hne).mono rfl hmono
  · intro p hp
    rcases List.mem_append.mp hp with hp | hp
    · exact h.published p hp
    · obtain rfl := List.mem_singleton.mp hp
      exact ⟨m, key, change, _, hm, rfl, hmem⟩
  · intro before p after hs heof j hj e' he'
    rcases List.eq_nil_or_concat after with rfl | ⟨after, last, rfl⟩
    · obtain ⟨rfl, hp⟩ := List.append_inj' (hs : sys.published ++ [_] = before ++ [p]) rfl
      obtain rfl := (List.cons.inj hp).1
      have htotals := List.ne_nil_of_mem (mem_eofTotals hmem heof)
      by_cases hji : j = i
      · subst hji
        refine h.settled_of_done hm (hrec.eofTotals htotals).2.1 ?_ hdone e' he'
        rw [first_of_carries heof]
        decide
      · exact h.stamped i m key change _ hm htotals j hj hji e' he'
    · have hs' : sys.published ++ [⟨i, key.clientId, e⟩] = (before ++ p :: after) ++ [last] := by
        rw [List.append_assoc]
        simpa [confirm] using hs
      obtain ⟨hs', -⟩ := List.append_inj' hs' rfl
      exact h.follows before p after hs' heof j hj e' he'

end publishing

/-! ## Sections -/

/-- A section of the cluster as a step of the system. -/
structure SectionStep (cfg : FilterClusterConfig) (sys sys' : FilterSystem) (l : ClusterAct) :
    Prop where
  exec : sys.cluster.exec cfg l = some sys'.cluster
  allowed : sys.cluster.allowed cfg l
  waits : ∀ d sumSeq, l.act = .deliver d sumSeq → ∀ clientId ∈ (cfg.at l.replica).closedBy
    (sys.cluster.replicas l.replica).state d, sys.Settled cfg clientId l.replica
  response : ∀ body sumSeq, l.act = .deliver (.response body) sumSeq → body ∈ sys.sent
  published : sys'.published = sys.published
  sent : ∀ body ∈ sys'.sent, body ∈ sys.sent ∨
    body ∈ ((sys.cluster.replicas l.replica).sectionOf (cfg.at l.replica) l.act).sends.map Prod.snd

section sections

variable {l : ClusterAct}

/-- What a replica has published of a client it closed stays all there is. -/
theorem Core.settled_section (h : Core cfg sys) (hs : SectionStep cfg sys sys' l) {clientId i : Nat}
    (hclosed : sys.cluster.Closed clientId i) (hset : sys.Settled cfg clientId i) :
    sys'.Settled cfg clientId i := by
  intro e he
  obtain ⟨m, key, change, entries, hm, rfl, hmem, hd⟩ := mem_dataEntries.mp he
  rw [hs.published]
  rcases h.cluster.exec_mem_history hs.exec hm with hm | ⟨rfl, d, happ⟩
  · exact hset e (mem_dataEntries.mpr ⟨m, key, change, entries, hm, rfl, hmem, hd⟩)
  · have hopen := happ.recorded.open_of_data hmem hd
    rw [FilterCluster.Closed, hopen] at hclosed
    cases hclosed

theorem Core.recorded_section (h : Core cfg sys) (hs : SectionStep cfg sys sys' l) {i : Nat}
    {m : String} {key : InputKey} {change : FilterChange} {entries : List OutboxEntry}
    (hm : .inputApplied m key change entries ∈ (sys'.cluster.replicas i).node.history) :
    key.kind ≠ .abort ∧ ∃ s d, Recorded (cfg.at i) s d key change entries := by
  rcases h.cluster.exec_mem_history hs.exec hm with hm | ⟨rfl, d, happ⟩
  · exact h.recorded i m key change entries hm
  · exact ⟨happ.kind_ne_abort hs.allowed.2.1, _, d, happ.recorded⟩

/-- A client that a step closes was open, and its DATA was published. -/
theorem SectionStep.closes (hs : SectionStep cfg sys sys' l) (hN : 2 ≤ cfg.worker.filterAmount)
    {clientId : Nat} {d : Delivery} {key : InputKey}
    {change : FilterChange} {entries : List OutboxEntry}
    (happ : FilterCluster.Applies (cfg.at l.replica) (sys.cluster.replicas l.replica)
      (sys'.cluster.replicas l.replica) l.act d key change entries)
    (hc : .close clientId ∈ change.ops) :
    ¬ sys.cluster.Closed clientId l.replica ∧ sys.Settled cfg clientId l.replica := by
  obtain ⟨-, hopen, hby⟩ := happ.recorded.closedBy (happ.kind_ne_abort hs.allowed.2.1) hN hc
  obtain ⟨sumSeq, hact⟩ := happ.delivered
  refine ⟨fun hclosed => ?_, hs.waits d sumSeq hact clientId hby⟩
  rw [FilterCluster.Closed, hopen] at hclosed
  cases hclosed

theorem Core.closers_section (h : Core cfg sys) (hN : 2 ≤ cfg.worker.filterAmount)
    (hs : SectionStep cfg sys sys' l) (i clientId : Nat) :
    ∀ record ∈ (sys'.cluster.replicas i).node.history,
    ∀ record' ∈ (sys'.cluster.replicas i).node.history,
    record.Closes clientId → record'.Closes clientId → record = record' := by
  intro record hm record' hm' hc hc'
  obtain ⟨m, key, change, entries, rfl⟩ : ∃ m key change entries,
      record = .inputApplied m key change entries := by
    cases record with
    | inputApplied m key change entries => exact ⟨m, key, change, entries, rfl⟩
    | inputDone => cases hc
  obtain ⟨m', key', change', entries', rfl⟩ : ∃ m key change entries,
      record' = .inputApplied m key change entries := by
    cases record' with
    | inputApplied m key change entries => exact ⟨m, key, change, entries, rfl⟩
    | inputDone => cases hc'
  -- a record of this step closes an open client, a record from before a closed one
  have hclash : ∀ {m key change entries d key' change' entries'},
      .inputApplied m key change entries ∈ (sys.cluster.replicas l.replica).node.history →
      FilterOp.close clientId ∈ change.ops →
      FilterCluster.Applies (cfg.at l.replica) (sys.cluster.replicas l.replica)
        (sys'.cluster.replicas l.replica) l.act d key' change' entries' →
      FilterOp.close clientId ∈ change'.ops → False := by
    intro m key change entries d key' change' entries' hold hc happ hc'
    exact (hs.closes hN happ hc').1
      (((h.cluster.replica _).closed clientId).mpr ⟨_, hold, hc⟩)
  rcases h.cluster.exec_mem_history hs.exec hm with hold | ⟨rfl, d, happ⟩
  · rcases h.cluster.exec_mem_history hs.exec hm' with hold' | ⟨rfl, d, happ⟩
    · exact h.closers i clientId _ hold _ hold' hc hc'
    · exact (hclash hold hc happ hc').elim
  · obtain ⟨m₀, hh⟩ := happ.history
    rcases h.cluster.exec_mem_history hs.exec hm' with hold' | ⟨-, d', happ'⟩
    · exact (hclash hold' hc' happ hc).elim
    · have hlast : ∀ r ∈ (sys'.cluster.replicas l.replica).node.history, r.Closes clientId →
          r = .inputApplied m₀ key change entries := by
        intro r hr hcr
        rw [hh] at hr
        rcases List.mem_append.mp hr with hr | hr
        · cases r with
          | inputApplied => exact (hclash hr hcr happ hc).elim
          | inputDone => cases hcr
        · exact List.mem_singleton.mp hr
      rw [hlast _ hm hc, hlast _ hm' hc']

theorem Core.settled_records_section (h : Core cfg sys) (hN : 2 ≤ cfg.worker.filterAmount)
    (hs : SectionStep cfg sys sys' l) {i : Nat} {m : String} {key : InputKey}
    {change : FilterChange} {entries : List OutboxEntry}
    (hm : .inputApplied m key change entries ∈ (sys'.cluster.replicas i).node.history)
    (hclosed : sys'.cluster.Closed key.clientId i) (hnot : .close key.clientId ∉ change.ops)
    {e : OutboxEntry} (he : e ∈ entries) (hd : (cfg.at i).carries .data e = true) :
    ⟨i, key.clientId, e⟩ ∈ sys'.published := by
  rw [hs.published]
  rcases h.cluster.exec_mem_history hs.exec hm with hm | ⟨rfl, d, happ⟩
  · by_cases hold : sys.cluster.Closed key.clientId i
    · exact h.settled i m key change entries hm hold hnot e he hd
    · obtain ⟨hother, hcases⟩ := h.cluster.exec_cases hs.exec
      have hi : i = l.replica := by
        by_contra hne
        exact hold (by rwa [FilterCluster.Closed, ← hother i hne])
      subst hi
      rcases hcases with hq | ⟨d, key', change', entries', happ⟩
      · exact (hold (by rwa [FilterCluster.Closed, ← FilterState.isClosed_congr hq.state])).elim
      · have hc := ((happ.closed_iff key.clientId).mp hclosed).resolve_left hold
        exact (hs.closes hN happ hc).2 e
          (mem_dataEntries.mpr ⟨m, key, change, entries, hm, rfl, he, hd⟩)
  · have hopen := happ.recorded.open_of_data he hd
    rcases (happ.closed_iff key.clientId).mp hclosed with hc | hc
    · rw [FilterCluster.Closed, hopen] at hc
      cases hc
    · exact (hnot hc).elim

theorem SectionStep.network (hs : SectionStep cfg sys sys' l) :
    sys'.cluster.network = sys.cluster.network ++ (sys.cluster.replicas l.replica).emitted
      (cfg.at l.replica) (sys'.cluster.replicas l.replica) l.act := by
  obtain ⟨w, -, hr, hn⟩ := FilterCluster.exec_eq_some hs.exec
  rw [hn, hr, Function.update_self]

theorem Core.bodies_section (h : Core cfg sys) (hs : SectionStep cfg sys sys' l)
    {i : Nat} {m : String} {key : InputKey} {change : FilterChange} {entries : List OutboxEntry}
    (hm : .inputApplied m key change entries ∈ (sys'.cluster.replicas i).node.history)
    {e : OutboxEntry} (he : e ∈ entries) : e.body ∈ sys'.cluster.network := by
  rw [hs.network]
  rcases h.cluster.exec_mem_history hs.exec hm with hm | ⟨rfl, d, happ⟩
  · exact List.mem_append_left _ (h.bodies i m key change entries hm e he)
  · obtain ⟨m', hh⟩ := happ.history
    refine List.mem_append_right _ (List.mem_append_right _ (List.mem_map_of_mem ?_))
    rwa [FilterWorker.recordedSince_eq hh]

theorem Core.sent_section (h : Core cfg sys) (hs : SectionStep cfg sys sys' l) {body : Bytes}
    (hb : body ∈ sys'.sent) : body ∈ sys'.cluster.network := by
  rw [hs.network]
  rcases hs.sent body hb with hb | hb
  · exact List.mem_append_left _ (h.sent body hb)
  · exact List.mem_append_right _ (List.mem_append_left _ hb)

theorem Core.acks_section (h : Core cfg sys) (hs : SectionStep cfg sys sys' l)
    {body payload : Bytes} {clientId i : Nat} {counts : Dict String Nat} (hb : body ∈ sys'.sent)
    (hp : unpackPacket body = .ok (MessageType.flushAck.toNat, clientId, payload))
    (hload : cfg.worker.flushAckJson.loads payload = .ok (i, counts)) :
    sys'.Settled cfg clientId i := by
  rcases hs.sent body hb with hb | hb
  · obtain ⟨i', counts', hload', hf, -⟩ := h.cluster.acks body (h.sent body hb) clientId payload hp
    obtain rfl : i' = i := congrArg Prod.fst (Except.ok.inj (hload'.symm.trans hload))
    exact h.settled_section hs hf.closed (h.acks body hb clientId payload i' counts hp hload)
  · obtain ⟨sent, hm, rfl⟩ := List.mem_map.mp hb
    exact absurd (msgType_of_unpackPacket hp).symm (FilterWorker.first_of_sends hm).1

/-- A collected ack was collected before, or is the delivered one. -/
theorem Core.flushedAcks_section (h : Core cfg sys) (hs : SectionStep cfg sys sys' l)
    {clientId i : Nat} (hopen : ¬ sys'.cluster.Closed clientId (cfg.leaderOf clientId))
    (hi : i ∈ (sys'.cluster.replicas (cfg.leaderOf clientId)).state.flushedAcks clientId) :
    i ∈ (sys.cluster.replicas (cfg.leaderOf clientId)).state.flushedAcks clientId ∨
    ∃ body sumSeq payload counts, l.act = .deliver (.response body) sumSeq ∧
      unpackPacket body = .ok (MessageType.flushAck.toNat, clientId, payload) ∧
      cfg.worker.flushAckJson.loads payload = .ok (i, counts) := by
  have hcol := h.cluster.collected clientId fun hc => hopen (h.cluster.exec_closed hs.exec hc).1
  obtain ⟨hother, hcases⟩ := h.cluster.exec_cases hs.exec
  by_cases hj : cfg.leaderOf clientId = l.replica
  · rw [← hj] at hcases
    rcases hcases with hq | ⟨d, key, change, entries, happ⟩
    · exact .inl ((FilterState.acks_congr hq.state clientId).1 ▸ hi)
    · have hacks := (FilterState.acks_congr happ.state clientId).1
      have hopen' := FilterState.isClosed_congr happ.state clientId
      rw [Bool.eq_false_iff.mpr hopen] at hopen'
      rw [hacks] at hi
      rcases happ.recorded.acks hopen'.symm with
        ⟨hacks', -⟩ | ⟨body, payload, j, counts, rfl, hp, hload, -, rfl, hins⟩
      · exact .inl (hacks' ▸ hi)
      · obtain ⟨sumSeq, hact⟩ := happ.delivered
        rw [(hins (h.cluster.ack_fresh hcol happ.new)).1] at hi
        rcases Finset.mem_insert.mp hi with rfl | hi
        · exact .inr ⟨body, sumSeq, payload, counts, hact, hp, hload⟩
        · exact .inl hi
  · exact .inl (hother _ hj ▸ hi)

theorem Core.collected_section (h : Core cfg sys) (hs : SectionStep cfg sys sys' l)
    {clientId i : Nat} (hopen : ¬ sys'.cluster.Closed clientId (cfg.leaderOf clientId))
    (hi : i ∈ (sys'.cluster.replicas (cfg.leaderOf clientId)).state.flushedAcks clientId) :
    sys'.Settled cfg clientId i := by
  have hopen' : ¬ sys.cluster.Closed clientId (cfg.leaderOf clientId) :=
    fun hc => hopen (h.cluster.exec_closed hs.exec hc).1
  rcases h.flushedAcks_section hs hopen hi with hi |
    ⟨body, sumSeq, payload, counts, hact, hp, hload⟩
  · exact h.settled_section hs ((h.cluster.collected clientId hopen').flushed i hi).closed
      (h.collected clientId hopen' i hi)
  · exact h.settled_section hs (h.cluster.ack_delivered hs.allowed hact hp hload).1.closed
      (h.acks body (hs.response body sumSeq hact) clientId payload i counts hp hload)

theorem Core.stamped_section (h : Core cfg sys) (hN : 2 ≤ cfg.worker.filterAmount)
    (hs : SectionStep cfg sys sys' l) {i : Nat} {m : String} {key : InputKey}
    {change : FilterChange} {entries : List OutboxEntry}
    (hm : .inputApplied m key change entries ∈ (sys'.cluster.replicas i).node.history)
    (heof : (cfg.at i).eofTotals entries ≠ []) {j : Nat} (hj : j < cfg.worker.filterAmount)
    (hne : j ≠ i) : sys'.Settled cfg key.clientId j := by
  rcases h.cluster.exec_mem_history hs.exec hm with hm | ⟨rfl, d, happ⟩
  · exact h.settled_section hs ((h.cluster.stamped i m key change entries hm heof).closed j hj)
      (h.stamped i m key change entries hm heof j hj hne)
  · obtain ⟨hopen, -, ⟨-, -, -, -, -, -, hone, -⟩ |
      ⟨body, payload, k, counts, rfl, hp, hload, hleads, hlast, hkey, -⟩⟩ :=
        happ.recorded.eofTotals heof
    · have hone : cfg.worker.filterAmount ≤ 1 := hone
      omega
    · obtain ⟨sumSeq, hact⟩ := happ.delivered
      have hleader := h.cluster.leads _ _ hleads
      have hopen' : ¬ sys.cluster.Closed key.clientId (cfg.leaderOf key.clientId) := fun hc => by
        rw [FilterCluster.Closed, ← hleader, hopen] at hc
        cases hc
      have hcol := h.cluster.collected key.clientId hopen'
      obtain ⟨hf, -⟩ := h.cluster.ack_delivered hs.allowed hact hp hload
      have hfresh := h.cluster.ack_fresh hcol (hleader ▸ hkey ▸ happ.new)
      have hall := hcol.insert_eq hf hfresh (hleader ▸ hs.allowed.1) (hleader ▸ hlast)
      have hmem : j ∈ insert k ((sys.cluster.replicas
          (cfg.leaderOf key.clientId)).state.flushedAcks key.clientId) := by
        rw [hall, ← hleader]
        exact Finset.mem_erase.mpr ⟨hne, Finset.mem_range.mpr hj⟩
      rcases Finset.mem_insert.mp hmem with rfl | hmem
      · exact h.settled_section hs hf.closed
          (h.acks body (hs.response body sumSeq hact) key.clientId payload j counts hp hload)
      · exact h.settled_section hs (hcol.flushed j hmem).closed
          (h.collected key.clientId hopen' j hmem)

/-- **Sections keep the core.** -/
theorem Core.section (h : Core cfg sys) (hN : 2 ≤ cfg.worker.filterAmount)
    (hs : SectionStep cfg sys sys' l) : Core cfg sys' where
  cluster := h.cluster.exec hs.allowed hs.exec
  recorded _ _ _ _ _ hm := h.recorded_section hs hm
  addressed i m key change entries hm := by
    rcases h.cluster.exec_mem_history hs.exec hm with hm | ⟨rfl, d, happ⟩
    · exact h.addressed i m key change entries hm
    · exact happ.stamped
  closers i clientId := h.closers_section hN hs i clientId
  settled _ _ _ _ _ hm hc hn _ he hd := h.settled_records_section hN hs hm hc hn he hd
  bodies _ _ _ _ _ hm _ he := h.bodies_section hs hm he
  sent _ hb := h.sent_section hs hb
  acks _ hb _ _ _ _ hp hload := h.acks_section hs hb hp hload
  collected _ hopen _ hi := h.collected_section hs hopen hi
  stamped _ _ _ _ _ hm heof _ hj hne := h.stamped_section hN hs hm heof hj hne
  published p hp := by
    rw [hs.published] at hp
    obtain ⟨m, key, change, entries, hm, hc, he⟩ := h.published p hp
    exact ⟨m, key, change, entries, h.cluster.exec_history_mono hs.exec hm, hc, he⟩
  follows before p after hpub heof j hj e he := by
    rw [hs.published] at hpub
    have hp : p ∈ sys.published := by simp [hpub]
    obtain ⟨m, key, change, entries, hm, hc, hmem⟩ := h.published p hp
    have hst := h.cluster.stamped _ m key change entries hm
      (List.ne_nil_of_mem (mem_eofTotals hmem heof))
    -- the client is closed everywhere, so no DATA was added
    obtain ⟨m', key', change', entries', hm', hc', he', hd⟩ := mem_dataEntries.mp he
    rcases h.cluster.exec_mem_history hs.exec hm' with hm' | ⟨rfl, d, happ⟩
    · exact h.follows before p after hpub heof j hj e
        (mem_dataEntries.mpr ⟨m', key', change', entries', hm', hc', he', hd⟩)
    · have hopen := happ.recorded.open_of_data he' hd
      have hclosed := hst.closed l.replica hj
      rw [FilterCluster.Closed, hc, ← hc', hopen] at hclosed
      cases hclosed

end sections

/-! ## One step of a thread -/

theorem Core.congr (h : Core cfg sys) (hc : sys'.cluster = sys.cluster)
    (hp : sys'.published = sys.published) (hs : sys'.sent = sys.sent) : Core cfg sys' := by
  obtain ⟨cluster, tasks, pending, published, sent⟩ := sys
  obtain ⟨cluster', tasks', pending', published', sent'⟩ := sys'
  obtain rfl : cluster' = cluster := hc
  obtain rfl : published' = published := hp
  obtain rfl : sent' = sent := hs
  exact ⟨h.cluster, h.recorded, h.addressed, h.closers, h.settled, h.bodies, h.sent,
    h.acks, h.collected, h.stamped, h.published, h.follows⟩

section threads

variable {i : Nat} {thread : FilterThread}

/-- A thread takes a task whose packets are queued, or has none. -/
theorem Inv.setTask (h : Inv cfg sys) {task : Option FilterTask}
    (hq : ∀ t, task = some t → sys.Queued i (t.remaining.map (t.key.clientId, ·))) :
    Inv cfg (sys.setTask i thread task) where
  toCore := h.toCore.congr rfl rfl rfl
  pending := h.pending
  tasks j thread' t ht := by
    simp only [FilterSystem.setTask] at ht
    by_cases hj : j = i
    · subst hj
      rw [Function.update_self] at ht
      by_cases hthread : thread' = thread
      · subst hthread
        rw [Function.update_self] at ht
        exact hq t ht
      · rw [Function.update_of_ne hthread] at ht
        exact h.tasks j thread' t ht
    · rw [Function.update_of_ne hj] at ht
      exact h.tasks j thread' t ht

theorem Core.queued_section (h : Core cfg sys) {l : ClusterAct} (hs : SectionStep cfg sys sys' l)
    {j : Nat} {queue : List (Nat × OutboxEntry)} (hq : sys.Queued j queue) : sys'.Queued j queue :=
  hq.mono (fun _ _ _ _ hm => h.cluster.exec_history_mono hs.exec hm)
    fun _ hp => hs.published.symm ▸ hp

/-- Everything in the outbox of a replica is queued in the order in which it is published again. -/
theorem queued_labelledPending (h : FilterWorker.Inv (cfg.at i) (sys.cluster.replicas i)) :
    sys.Queued i ((Runner.labelledPending (sys.cluster.replicas i).node.handler.outbox).map
      fun x => (x.1, x.2.2)) := by
  simp only [Runner.labelledPending, List.map_flatMap, List.map_map]
  refine Queued.flatMap fun inputs hin => Queued.flatMap fun es hes => ?_
  have hl : (sys.cluster.replicas i).node.handler.outbox.lookup inputs.1 es.1 = some es.2 := by
    rw [Outbox.lookup, Dict.getD, Dict.mem_entries_iff.mp hin, Option.getD_some,
      Dict.mem_entries_iff.mp hes]
  rw [Node.Inv.outbox h.durable] at hl
  obtain ⟨key, change, hc, -, hrec⟩ := h.durable.admissible.lookup hl
  rw [← hc]
  exact Queued.of_record hrec

theorem Inv.confirm (h : Inv cfg sys) {clientId : Nat} {e : OutboxEntry}
    {queue : List (Nat × OutboxEntry)} (hq : sys.Queued i ((clientId, e) :: queue)) :
    Inv cfg (sys.confirm ⟨i, clientId, e⟩) ∧ (sys.confirm ⟨i, clientId, e⟩).Queued i queue := by
  obtain ⟨m, key, change, done, rest, hm, rfl, hd⟩ := hq.head
  have hmono : ∀ p ∈ sys.published, p ∈ (sys.confirm ⟨i, key.clientId, e⟩).published :=
    fun p hp => List.mem_append_left _ hp
  refine ⟨⟨h.toCore.publish hm hd, fun j thread task ht => ?_, fun j => ?_⟩, hq.tail rfl rfl⟩
  · exact (h.tasks j thread task ht).mono (fun _ _ _ _ hm => hm) hmono
  · exact (h.pending j).mono (fun _ _ _ _ hm => hm) hmono

/-- The conditions under which a section of a replica is taken. -/
structure Taken (cfg : FilterClusterConfig) (sys : FilterSystem) (i : Nat) (act : FilterAct) :
    Prop where
  allowed : ∀ outcome, sys.cluster.allowed cfg ⟨i, act, outcome⟩
  waits : ∀ d sumSeq, act = .deliver d sumSeq →
    ∀ clientId ∈ (cfg.at i).closedBy (sys.cluster.replicas i).state d, sys.Settled cfg clientId i
  response : ∀ body sumSeq, act = .deliver (.response body) sumSeq → body ∈ sys.sent

theorem Inv.locked (h : Inv cfg sys) (hN : 2 ≤ cfg.worker.filterAmount) {act : FilterAct}
    {outcome : Outcome} (ht : Taken cfg sys i act) (he : sys.locked cfg i act outcome = some sys') :
    Inv cfg sys' ∧ (sys.cluster.replicas i).exec (cfg.at i) act outcome =
      some (sys'.cluster.replicas i) := by
  unfold FilterSystem.locked at he
  split at he
  · cases he
  · next cl hcl =>
    cases he
    have hs : SectionStep cfg sys { sys with
        cluster := cl
        sent := sys.sent ++ ((sys.cluster.replicas i).sectionOf (cfg.at i) act).sends.map Prod.snd }
        ⟨i, act, outcome⟩ :=
      ⟨hcl, ht.allowed outcome, ht.waits, ht.response, rfl, fun _ hb => List.mem_append.mp hb⟩
    obtain ⟨w, hw, hr, -⟩ := FilterCluster.exec_eq_some hcl
    refine ⟨⟨h.toCore.section hN hs, fun j thread task ht => ?_, fun j => ?_⟩, ?_⟩
    · exact h.queued_section hs (h.tasks j thread task ht)
    · exact h.queued_section hs (h.pending j)
    · rw [hw, hr, Function.update_self]

theorem Inv.crashed (h : Inv cfg sys) (hN : 2 ≤ cfg.worker.filterAmount) {act : FilterAct}
    {steps : Nat} (ht : Taken cfg sys i act) (he : sys.crashed cfg i act steps = some sys') :
    Inv cfg sys' := by
  unfold FilterSystem.crashed at he
  split at he
  · cases he
  · next cl hcl =>
    cases he
    have hs : SectionStep cfg sys { sys with
        cluster := cl
        tasks := Function.update sys.tasks i fun _ => none
        pending := Function.update sys.pending i
          (Runner.labelledPending (cl.replicas i).node.handler.outbox) }
        ⟨i, act, .crashes steps⟩ :=
      ⟨hcl, ht.allowed _, ht.waits, ht.response, rfl, fun _ hb => .inl hb⟩
    have hcore := h.toCore.section hN hs
    refine ⟨hcore, fun j thread task ht => ?_, fun j => ?_⟩
    · simp only at ht
      by_cases hj : j = i
      · subst hj
        rw [Function.update_self] at ht
        cases ht
      · rw [Function.update_of_ne hj] at ht
        exact h.queued_section hs (h.tasks j thread task ht)
    · simp only
      by_cases hj : j = i
      · subst hj
        rw [Function.update_self]
        exact queued_labelledPending (hcore.cluster.replica j)
      · rw [Function.update_of_ne hj]
        exact h.queued_section hs (h.pending j)

theorem Inv.runSection (h : Inv cfg sys) (hN : 2 ≤ cfg.worker.filterAmount) {act : FilterAct}
    {task : Option FilterTask} {outcome : Outcome} (ht : Taken cfg sys i act)
    (hq : (∀ steps, outcome ≠ .crashes steps) → ∀ sys₁ : FilterSystem, Inv cfg sys₁ →
      (sys.cluster.replicas i).exec (cfg.at i) act outcome = some (sys₁.cluster.replicas i) →
      ∀ t, task = some t → sys₁.Queued i (t.remaining.map (t.key.clientId, ·)))
    (he : sys.runSection cfg i thread act task outcome = some sys') : Inv cfg sys' := by
  cases outcome with
  | crashes steps => exact h.crashed hN ht he
  | returns =>
    simp only [FilterSystem.runSection] at he
    obtain ⟨sys₁, hl, rfl⟩ := Option.map_eq_some_iff.mp he
    obtain ⟨h₁, hw⟩ := h.locked hN ht hl
    exact h₁.setTask (hq nofun sys₁ h₁ hw)
  | appendFails =>
    simp only [FilterSystem.runSection] at he
    obtain ⟨sys₁, hl, rfl⟩ := Option.map_eq_some_iff.mp he
    obtain ⟨h₁, hw⟩ := h.locked hN ht hl
    exact h₁.setTask (hq nofun sys₁ h₁ hw)

theorem Core.taken_deliver (h : Core cfg sys) {d : Delivery} {sumSeq : String → Nat}
    {outcome : Outcome} (ha : allowed cfg sys (.deliver i d sumSeq outcome))
    (hw : Waits cfg sys (.deliver i d sumSeq outcome)) : Taken cfg sys i (.deliver d sumSeq) := by
  obtain ⟨hi, hd⟩ := ha
  cases d with
  | input body =>
    simp only [deliverable, Bool.and_eq_true, Bool.not_eq_true'] at hd
    refine ⟨fun _ => ⟨hi, hd.2, hd.1⟩, fun d s hact => ?_, fun _ _ hact => by cases hact⟩
    cases hact
    exact hw
  | control body =>
    have hb : body ∈ sys.sent := by simpa [deliverable] using hd
    refine ⟨fun _ => ⟨hi, rfl, ?_⟩, fun d s hact => ?_, fun _ _ hact => by cases hact⟩
    · simpa [FilterCluster.deliverable] using h.sent body hb
    · cases hact
      exact hw
  | response body =>
    have hb : body ∈ sys.sent := by simpa [deliverable] using hd
    refine ⟨fun _ => ⟨hi, rfl, ?_⟩, fun d s hact => ?_, fun _ _ hact => ?_⟩
    · simpa [FilterCluster.deliverable] using h.sent body hb
    · cases hact
      exact hw
    · cases hact
      exact hb

theorem taken_commitDone (hi : i < cfg.worker.filterAmount) (key : InputKey) :
    Taken cfg sys i (.commitDone key) :=
  ⟨fun _ => ⟨hi, rfl, rfl⟩, nofun, nofun⟩

theorem taken_nothing (hi : i < cfg.worker.filterAmount) :
    Taken cfg sys i (.deliver (.input []) fun _ => 0) := by
  refine ⟨fun _ => ⟨hi, rfl, rfl⟩, fun d s hact => ?_, nofun⟩
  cases hact
  exact nofun

/-- **Every step of a thread keeps the invariant**, as long as the replicas wait. -/
theorem Inv.exec (h : Inv cfg sys) (hN : 2 ≤ cfg.worker.filterAmount) {act : SystemAct}
    (ha : allowed cfg sys act) (hw : Waits cfg sys act) (he : sys.exec cfg act = some sys') :
    Inv cfg sys' := by
  cases act with
  | deliver i d sumSeq outcome =>
    simp only [FilterSystem.exec] at he
    split at he
    · refine h.runSection hN (h.taken_deliver ha hw) (fun hn sys₁ h₁ hex t ht => ?_) he
      -- the outputs of the instruction are those of the record
      unfold FilterTask.of at ht
      split at ht
      · next outputs m key hinstr =>
        cases ht
        have hout := FilterWorker.instruction_exec hn hinstr hex
        rcases (h₁.cluster.replica i).durable.outputs key with hnil | ⟨m', change, hrec⟩
        · rw [show outputs = [] from hout.trans hnil]
          exact .nil
        · exact Queued.of_record (hout ▸ hrec)
      · cases ht
    · cases he
  | publish i thread confirmed =>
    simp only [FilterSystem.exec] at he
    split at he
    · next key entry remaining ht =>
      split at he
      · cases he
        obtain ⟨h', hq⟩ := h.confirm (h.tasks i thread _ ht)
        exact h'.setTask fun t ht => by cases ht; exact hq
      · cases he
        exact h.setTask nofun
    · cases he
  | commit i thread outcome =>
    simp only [FilterSystem.exec] at he
    split at he
    · exact h.runSection hN (taken_commitDone ha _) (fun _ _ _ _ t ht => by cases ht) he
    · cases he
  | republish i =>
    simp only [FilterSystem.exec] at he
    split at he
    · next clientId m entry rest hp =>
      cases he
      have hq := h.pending i
      rw [hp] at hq
      obtain ⟨h', hq'⟩ := h.confirm hq
      refine ⟨h'.toCore.congr rfl rfl rfl, h'.tasks, fun j => ?_⟩
      simp only
      by_cases hj : j = i
      · subst hj
        rw [Function.update_self]
        exact hq'
      · rw [Function.update_of_ne hj]
        exact h'.pending j
    · cases he
  | crash i => exact h.crashed hN (taken_nothing ha) he

end threads

/-! ## Downstream -/

/-- The packets that reach a queue, in order. -/
def queueTo (published : List Publication) (destination : String) (shard : Option Nat) :
    List Bytes :=
  (published.filter fun p =>
    decide (p.entry.destination = destination ∧ p.entry.shard = shard)).map (·.entry.body)

theorem queueTo_append (published published' : List Publication) (destination : String)
    (shard : Option Nat) : queueTo (published ++ published') destination shard =
      queueTo published destination shard ++ queueTo published' destination shard := by
  simp [queueTo]

/-- A downstream filter that has been handed a part of its queue, with redeliveries, failures and
crashes. -/
inductive Fed (down : FilterConfig) : List Bytes → FilterWorker → Prop
  | init : Fed down [] (.init down)
  | deliver {queue : List Bytes} {w w' : FilterWorker} {body : Bytes} {sumSeq : String → Nat}
      {outcome : Outcome} (h : Fed down queue w)
      (he : w.exec down (.deliver (.input body) sumSeq) outcome = some w') :
      Fed down (queue ++ [body]) w'
  | again {queue : List Bytes} {w w' : FilterWorker} {body : Bytes} {sumSeq : String → Nat}
      {outcome : Outcome} (h : Fed down queue w) (hb : body ∈ queue)
      (he : w.exec down (.deliver (.input body) sumSeq) outcome = some w') : Fed down queue w'
  | commit {queue : List Bytes} {w w' : FilterWorker} {key : InputKey} {outcome : Outcome}
      (h : Fed down queue w) (he : w.exec down (.commitDone key) outcome = some w') :
      Fed down queue w'

/-- The packet neither ends nor aborts the client. -/
def KeepsOpen (clientId : Nat) (body : Bytes) : Prop :=
  ∀ m, unpackAddressedPacket body = .ok m → m.clientId = clientId →
    m.msgType ≠ MessageType.eof.toNat ∧ m.msgType ≠ MessageType.abort.toNat

theorem exec_open {down : FilterConfig} {w w' : FilterWorker} {body : Bytes} {sumSeq : String → Nat}
    {outcome : Outcome} {clientId : Nat} (hi : w.Durable down)
    (hopen : w.state.isClosed clientId = false) (hb : KeepsOpen clientId body)
    (he : w.exec down (.deliver (.input body) sumSeq) outcome = some w') :
    w'.Durable down ∧ w'.state.isClosed clientId = false := by
  obtain ⟨hi', hcases⟩ := hi.exec_cases he
  refine ⟨hi', ?_⟩
  rcases hcases with ⟨-, -, hs⟩ | ⟨d, _, key, change, entries, hact, -, -, hs, -, hrec⟩
  · rwa [FilterState.isClosed_congr hs]
  · cases hact
    have hmem := FilterState.mem_closedByClient_applyChange down.state w.state change clientId
    have hnot : clientId ∉ w.state.closedByClient := by simpa [FilterState.isClosed] using hopen
    rw [FilterState.isClosed_congr hs, FilterState.isClosed, decide_eq_false_iff_not, hmem]
    rintro (hc | hc)
    · exact hnot hc
    · cases hrec with
      | skipped | routed | announced => simp [FilterChange.ops, FilterState.dataChange] at hc
      | aborted hm ht =>
        exact (hb _ hm (by simpa [FilterChange.ops, eq_comm] using hc)).2 ht
      | drainedAlone hm ht =>
        exact (hb _ hm (by simpa [FilterChange.ops, eq_comm] using hc)).1 ht

/-- A filter that has been handed no EOF of a client is open for it. -/
theorem Fed.isOpen {down : FilterConfig} {queue : List Bytes} {w : FilterWorker} {clientId : Nat}
    (h : Fed down queue w) (hq : ∀ body ∈ queue, KeepsOpen clientId body) :
    w.Durable down ∧ w.state.isClosed clientId = false := by
  induction h with
  | init =>
    refine ⟨FilterWorker.durable_init, ?_⟩
    simp [FilterWorker.init, FilterWorker.state, Node.init, Handler.init, FilterState.isClosed,
      handler, FilterState.worker]
  | deliver h he ih =>
    obtain ⟨hi, hopen⟩ := ih fun body hb => hq body (List.mem_append_left _ hb)
    exact exec_open hi hopen (hq _ (List.mem_append_right _ List.mem_cons_self)) he
  | again h hb he ih =>
    obtain ⟨hi, hopen⟩ := ih hq
    exact exec_open hi hopen (hq _ hb) he
  | commit h he ih =>
    obtain ⟨hi, hopen⟩ := ih hq
    obtain ⟨hi', hcases⟩ := hi.exec_cases he
    refine ⟨hi', ?_⟩
    rcases hcases with ⟨-, -, hs⟩ | ⟨_, _, _, _, _, hact, -⟩
    · rwa [FilterState.isClosed_congr hs]
    · cases hact

/-- A published packet on an edge that is no EOF of the client keeps it open downstream. -/
theorem Core.keepsOpen (h : Core cfg sys) {p : Publication} (hp : p ∈ sys.published)
    (hedge : ((cfg.at p.replica).outputEdges.get? p.entry.destination).isSome) {clientId : Nat}
    (hne : ¬ (p.clientId = clientId ∧ (cfg.at p.replica).carries .eof p.entry = true)) :
    KeepsOpen clientId p.entry.body := by
  intro packet hu hc
  obtain ⟨m, key, change, entries, hm, hkey, he⟩ := h.published p hp
  obtain ⟨output, hst⟩ := h.addressed _ m key change entries hm p.entry he
  obtain ⟨spec, hspec⟩ := Option.isSome_iff_exists.mp hedge
  obtain ⟨t, c, payload, seq, -, hb, -⟩ := hst.addressed spec (hst.destination ▸ hspec)
  rw [unpackAddressedPacket_create hb] at hu
  cases hu
  have hread : (cfg.at p.replica).readEntry p.entry = some (t, payload) := by
    simp [readEntry, hedge, unpackAddressedPacket_create hb]
  obtain ⟨hkind, s, d, hrec⟩ := h.recorded _ m key change entries hm
  refine ⟨fun ht => hne ⟨hkey ▸ hc, ?_⟩, fun ht => ?_⟩
  · simp only at ht
    simp [carries, hread, ht]
  · exact hrec.first_ne_abort hkind he ((first_of_readEntry hread).trans ht)

/-! ## EOFs come last -/

/-- The runs in which the replicas wait. -/
def WaitingRun (cfg : FilterClusterConfig) (sys : FilterSystem) : Prop :=
  Reachable (exec cfg) (fun sys act => allowed cfg sys act ∧ Waits cfg sys act) (init cfg) sys

theorem WaitingRun.inv (hN : 2 ≤ cfg.worker.filterAmount) (h : WaitingRun cfg sys) : Inv cfg sys :=
  Reachable.invariant inv_init (fun _ _ _ hi ha he => hi.exec hN ha.1 ha.2 he) h

/-- Downstream, DATA that is published before an EOF finds the client open. -/
theorem Core.data_finds_open (h : Core cfg sys) {p : Publication} (hp : p ∈ sys.published)
    (heof : (cfg.at p.replica).carries .eof p.entry = true) {j : Nat}
    (hj : j < cfg.worker.filterAmount) {e : OutboxEntry}
    (he : e ∈ (cfg.at j).dataEntries (sys.cluster.replicas j).node.history p.clientId)
    (hedge : ∀ i, ((cfg.at i).outputEdges.get? e.destination).isSome) :
    ∃ front back, queueTo sys.published e.destination e.shard = front ++ e.body :: back ∧
      ∀ down w, Fed down front w → w.state.isClosed p.clientId = false := by
  -- the first EOF of the client, on whatever queue
  have hfirst : (sys.published.find? fun q =>
      decide (q.clientId = p.clientId) && (cfg.at q.replica).carries .eof q.entry).isSome := by
    simp only [List.find?_isSome, Bool.and_eq_true, decide_eq_true_eq]
    exact ⟨p, hp, rfl, heof⟩
  obtain ⟨q, hq⟩ := Option.isSome_iff_exists.mp hfirst
  obtain ⟨hq, before, after, hpub, hbefore⟩ := List.find?_eq_some_iff_append.mp hq
  simp only [Bool.and_eq_true, decide_eq_true_eq] at hq
  have hdata := h.follows before q after hpub hq.2 j hj e (hq.1.symm ▸ he)
  obtain ⟨front, back, rfl⟩ := List.append_of_mem hdata
  refine ⟨queueTo front e.destination e.shard, queueTo (back ++ q :: after) e.destination e.shard,
    ?_, fun down w hw => (hw.isOpen fun body hb => ?_).2⟩
  · rw [hpub, List.append_assoc, List.cons_append, queueTo_append]
    simp [queueTo]
  · obtain ⟨r, hr, rfl⟩ := List.mem_map.mp hb
    simp only [List.mem_filter, decide_eq_true_eq] at hr
    have hmem : r ∈ front ++ ⟨j, q.clientId, e⟩ :: back := List.mem_append_left _ hr.1
    refine h.keepsOpen (hpub ▸ List.mem_append_left _ hmem) (hr.2.1 ▸ hedge _) fun hne => ?_
    simpa [hne.1, hne.2] using hbefore r hmem

/-- **EOF follows DATA.** In every run of two or more replicas in which a replica that handles a
flush order, or the last ack, has published its DATA of the client: every EOF is published after all
DATA of its client, of all replicas; its total is the number of transactions routed to its output,
and the DATA carries all of them; and a downstream filter that consumes an edge in order is handed
every batch before it closes the client. -/
theorem eof_follows_data (cfg : FilterClusterConfig) (hN : 2 ≤ cfg.worker.filterAmount)
    {sys : FilterSystem} (h : WaitingRun cfg sys) :
    EofFollowsData cfg sys ∧
    ∀ p ∈ sys.published, (cfg.at p.replica).carries .eof p.entry = true →
      (∃ target ∈ (cfg.at p.replica).eofTargets, p.entry.destination = target.1 ∧
        (cfg.at p.replica).eofTotal p.entry =
          some (∑ j ∈ Finset.range cfg.worker.filterAmount, (cfg.at j).routedCount target.2
            (transactionsOf (sys.cluster.replicas j).routed p.clientId))) ∧
      ∀ j < cfg.worker.filterAmount,
        (∀ dest, ((cfg.at j).stampedPayloads (sys.cluster.replicas j).node.history p.clientId
            dest).flatten =
          ((cfg.at j).routedTo dest
            (transactionsOf (sys.cluster.replicas j).routed p.clientId)).flatten) ∧
        ∀ e ∈ (cfg.at j).dataEntries (sys.cluster.replicas j).node.history p.clientId,
          (∀ i, ((cfg.at i).outputEdges.get? e.destination).isSome) →
          ∃ front back, queueTo sys.published e.destination e.shard = front ++ e.body :: back ∧
            ∀ down w, Fed down front w → w.state.isClosed p.clientId = false := by
  have hi := h.inv hN
  refine ⟨hi.follows, fun p hp heof => ⟨?_, fun j hj => ⟨fun dest => ?_, fun e he hedge => ?_⟩⟩⟩
  · obtain ⟨m, key, change, entries, hm, hc, he⟩ := hi.published p hp
    have hmem := mem_eofTotals he heof
    rw [(hi.cluster.stamped _ m key change entries hm (List.ne_nil_of_mem hmem)).totals] at hmem
    obtain ⟨target, ht, heq⟩ := List.mem_map.mp hmem
    obtain ⟨hd, htotal⟩ := Prod.mk.inj heq
    refine ⟨target, ht, hd.symm, ?_⟩
    rw [← htotal, hc]
    rfl
  · obtain ⟨m, key, change, entries, hm, hc, he⟩ := hi.published p hp
    have hst := hi.cluster.stamped _ m key change entries hm
      (List.ne_nil_of_mem (mem_eofTotals he heof))
    have hcons := (hi.cluster.replica j).conserved
    have hpay := hcons.payloads dest p.clientId
    rwa [hcons.drained dest p.clientId (hc ▸ hst.closed j hj), List.append_nil] at hpay
  · exact hi.data_finds_open hp heof hj he hedge

/-! ## A data thread that is overtaken -/

/-- The two replicas of `FilterCluster.pairConfig`, with a batch for each payment. -/
def eagerConfig : FilterClusterConfig where
  worker := { FilterCluster.pairConfig.worker with
    limits := { maxBytes := 1048576, maxItems := 1 } }
  leaderOf _ := 0
  responseQueues _ _ := rfl

/-- Both replicas handle a payment each; replica `0` publishes its batch. -/
def eagerStart : List SystemAct :=
  [.deliver 0 (.input FilterWorker.sampleData) (fun _ => 0) .returns,
   .publish 0 .data true,
   .commit 0 .data .returns,
   .deliver 1 (.input FilterWorker.sampleData) (fun _ => 0) .returns]

/-- The EOF is announced, both replicas answer, and the leader orders the flush. -/
def eagerRound : List SystemAct :=
  [.deliver 0 (.input FilterCluster.pairEof) (fun _ => 0) .returns,
   .publish 0 .data true,
   .publish 0 .data true,
   .commit 0 .data .returns,
   .deliver 0 (.control (FilterCluster.pairControl .eofReceived 0 2 0)) (fun _ => 0) .returns,
   .publish 0 .control true,
   .commit 0 .control .returns,
   .deliver 1 (.control (FilterCluster.pairControl .eofReceived 0 2 0)) (fun _ => 0) .returns,
   .publish 1 .control true,
   .commit 1 .control .returns,
   .deliver 0 (.response (FilterCluster.pairControl .processedAnswer 0 1 1)) (fun _ => 0) .returns,
   .deliver 0 (.response (FilterCluster.pairControl .processedAnswer 1 1 1)) (fun _ => 0) .returns]

/-- Replica `1` flushes and acks, and the leader publishes the EOF. -/
def eagerEnd : List SystemAct :=
  [.deliver 1 (.control (FilterCluster.pairControl .flushOrder 0 0 0)) (fun _ => 0) .returns,
   .publish 1 .control true,
   .deliver 0 (.response FilterCluster.pairAck) (fun _ => 0) .returns,
   .publish 0 .response true]

/-- The last publication is an EOF of client `7`. -/
def endsWithEof (sys : FilterSystem) : Bool :=
  match sys.published.getLast? with
  | some p => decide (p.clientId = 7) && (eagerConfig.at p.replica).carries .eof p.entry
  | none => false

theorem exists_of_endsWithEof {sys : FilterSystem} (h : sys.endsWithEof = true) :
    ∃ before p, sys.published = before ++ [p] ∧ p.clientId = 7 ∧
      (eagerConfig.at p.replica).carries .eof p.entry = true := by
  unfold endsWithEof at h
  split at h
  · next p hp =>
    obtain ⟨before, hb⟩ := List.getLast?_eq_some_iff.mp hp
    simp only [Bool.and_eq_true, decide_eq_true_eq] at h
    exact ⟨before, p, hb, h⟩
  · cases h

/-- The batch of replica `1` is still to be published when the EOF is. -/
theorem eof_overtakes_data : ¬ ∀ (cfg : FilterClusterConfig) (sys : FilterSystem),
    2 ≤ cfg.worker.filterAmount → Run cfg sys → EofFollowsData cfg sys := by
  intro hall
  have hrun : (runAllowed (exec eagerConfig) (allowed eagerConfig) (init eagerConfig)
      (eagerStart ++ eagerRound ++ eagerEnd)).map (fun sys => (sys.endsWithEof,
        decide (sys.Settled eagerConfig 7 1))) = some (true, false) := by decide +kernel
  obtain ⟨sys, hsys, hp⟩ := Option.map_eq_some_iff.mp hrun
  obtain ⟨heof, hnot⟩ := Prod.mk.inj hp
  obtain ⟨before, p, hpub, hc, heof⟩ := exists_of_endsWithEof heof
  have hfollows := hall eagerConfig sys (by decide) (reachable_of_runAllowed .init hsys)
  refine of_decide_eq_false hnot fun e he => ?_
  rw [hpub]
  exact List.mem_append_left _ (hc ▸ hfollows before p [] hpub heof 1 (by decide) e (hc.symm ▸ he))

/-- When replica `1` publishes its batch before the flush order, the EOF is last. -/
theorem eof_follows_data_eager : ∃ sys, WaitingRun eagerConfig sys ∧
    EofFollowsData eagerConfig sys ∧ ∃ before p, sys.published = before ++ [p] ∧
      ∀ e ∈ (eagerConfig.at 1).dataEntries (sys.cluster.replicas 1).node.history 7,
        ⟨1, 7, e⟩ ∈ before := by
  have hrun : (runAllowed (exec eagerConfig)
      (fun sys act => allowed eagerConfig sys act ∧ Waits eagerConfig sys act) (init eagerConfig)
      (eagerStart ++ [.publish 1 .data true, .commit 1 .data .returns] ++ eagerRound ++
        eagerEnd)).map endsWithEof = some true := by decide +kernel
  obtain ⟨sys, hsys, hp⟩ := Option.map_eq_some_iff.mp hrun
  obtain ⟨before, p, hpub, hc, heof⟩ := exists_of_endsWithEof hp
  have hr : WaitingRun eagerConfig sys := reachable_of_runAllowed .init hsys
  have hfollows := (eof_follows_data eagerConfig (by decide) hr).1
  exact ⟨sys, hr, hfollows, before, p, hpub, fun e he =>
    hc ▸ hfollows before p [] hpub heof 1 (by decide) e (hc.symm ▸ he)⟩

end FilterSystem

end MoneyLaundering
