import MoneyLaundering.Filter.Records

/-!
# Nothing is lost or duplicated inside a filter

For every destination and client, the payloads of the DATA packets recorded so far, followed by what
the buffer holds, are the serializations of the transactions routed there, byte for byte and in
order.
-/

namespace MoneyLaundering

open Bytes InternalProtocol SenderSequencer

namespace FilterConfig

variable (cfg : FilterConfig)

/-! ## What is routed -/

/-- The serializations of the transactions routed to a destination. -/
def routedTo (dest : String) (txs : List Transaction) : List Bytes :=
  txs.flatMap fun tx =>
    match cfg.routeTransaction tx, TransactionSerializer.serialize tx with
    | .ok routes, .ok serialized =>
      (routes.filter fun route => decide (route.1 = dest)).map fun _ => serialized
    | _, _ => []

/-- How often transactions are routed to a logical output. -/
def routedCount (logical : String) (txs : List Transaction) : Nat :=
  (txs.map fun tx =>
    match cfg.routeTransaction tx with
    | .ok routes => routes.countP fun route => decide (route.2 = logical)
    | .error _ => 0).sum

variable {cfg}

theorem routedTo_append (dest : String) (txs txs' : List Transaction) :
    cfg.routedTo dest (txs ++ txs') = cfg.routedTo dest txs ++ cfg.routedTo dest txs' :=
  List.flatMap_append

theorem routedCount_append (logical : String) (txs txs' : List Transaction) :
    cfg.routedCount logical (txs ++ txs') =
      cfg.routedCount logical txs + cfg.routedCount logical txs' := by
  simp [routedCount]

theorem addRoutes_appends (acc : Routes) (serialized : Bytes) (routes : List (String × String))
    (dest : String) :
    (addRoutes acc serialized routes).1.getD dest [] = acc.1.getD dest [] ++
      (routes.filter fun route => decide (route.1 = dest)).map fun _ => serialized := by
  unfold addRoutes
  induction routes generalizing acc with
  | nil => simp
  | cons route routes ih =>
    rw [List.foldl_cons, ih]
    by_cases h : route.1 = dest <;> simp [Dict.getD_set, h]

theorem addRoutes_forwarded (acc : Routes) (serialized : Bytes) (routes : List (String × String))
    (logical : String) :
    (addRoutes acc serialized routes).2.getD logical 0 = acc.2.getD logical 0 +
      routes.countP fun route => decide (route.2 = logical) := by
  unfold addRoutes
  induction routes generalizing acc with
  | nil => simp
  | cons route routes ih =>
    rw [List.foldl_cons, ih]
    by_cases h : route.2 = logical
    · simp [Dict.getD_set, h]; omega
    · simp [Dict.getD_set, h]

/-- The loop over a batch collects what the batch routes. -/
theorem routeBatch_spec {acc acc' : Routes} {txs : List Transaction}
    (h : cfg.routeBatch acc txs = .ok acc') (dest logical : String) :
    acc'.1.getD dest [] = acc.1.getD dest [] ++ cfg.routedTo dest txs ∧
      acc'.2.getD logical 0 = acc.2.getD logical 0 + cfg.routedCount logical txs := by
  induction txs generalizing acc with
  | nil =>
    cases h
    simp [routedTo, routedCount]
  | cons tx txs ih =>
    obtain ⟨routes, hr, h⟩ := Except.ok_of_bind h
    cases routes with
    | nil =>
      obtain ⟨h₁, h₂⟩ := ih h
      refine ⟨?_, ?_⟩
      · have hone : cfg.routedTo dest [tx] = [] := by
          simp only [routedTo, List.flatMap_singleton, hr]
          cases TransactionSerializer.serialize tx <;> rfl
        rw [h₁, ← List.singleton_append, routedTo_append, hone, List.nil_append]
      · rw [h₂]
        simp [routedCount, hr]
    | cons route routes =>
      obtain ⟨serialized, hs, h⟩ := Except.ok_of_bind h
      obtain ⟨h₁, h₂⟩ := ih h
      refine ⟨?_, ?_⟩
      · have hone : cfg.routedTo dest [tx] = ((route :: routes).filter fun route =>
            decide (route.1 = dest)).map fun _ => serialized := by
          simp only [routedTo, List.flatMap_singleton, hr, hs]
        rw [h₁, addRoutes_appends, ← List.singleton_append (l := txs), routedTo_append, hone,
          List.append_assoc]
      · rw [h₂, addRoutes_forwarded]
        simp only [routedCount, List.map_cons, hr, List.sum_cons]
        omega

/-! ## What is stamped -/

/-- The payloads of the DATA packets to a destination. -/
def packetPayloads (packets : List Packet) (dest : String) : List Bytes :=
  packets.filterMap fun p =>
    if p.destination = dest ∧ p.msgType = .data then some p.payload else none

/-- The payloads of the DATA packets among recorded entries to a destination. -/
def dataPayloads (cfg : FilterConfig) (entries : List OutboxEntry) (dest : String) : List Bytes :=
  entries.filterMap fun e =>
    match cfg.readEntry e with
    | some (msgType, payload) =>
      if e.destination = dest ∧ msgType = MessageType.data.toNat then some payload else none
    | none => none

/-- The payloads stamped for a client and a destination in a whole history. -/
def stampedPayloads (cfg : FilterConfig) (history : List (WalRecord FilterChange)) (clientId : Nat)
    (dest : String) : List Bytes :=
  cfg.dataPayloads ((outputLog history).filterMap fun x =>
    if x.1 = clientId then some x.2 else none) dest

theorem dataPayloads_append (entries entries' : List OutboxEntry) (dest : String) :
    cfg.dataPayloads (entries ++ entries') dest =
      cfg.dataPayloads entries dest ++ cfg.dataPayloads entries' dest := List.filterMap_append

theorem ReadsAs.dataPayloads {entries : List OutboxEntry} {packets : List Packet}
    (h : cfg.ReadsAs entries packets) (dest : String) :
    cfg.dataPayloads entries dest = packetPayloads packets dest := by
  have ht : ∀ p : Packet, p.msgType.toNat = MessageType.data.toNat ↔ p.msgType = .data :=
    fun p => MessageType.toNat_injective.eq_iff
  have := h.filterMap fun r =>
    match r.2 with
    | some (msgType, payload) =>
      if r.1 = dest ∧ msgType = MessageType.data.toNat then some payload else none
    | none => none
  simpa only [ht, FilterConfig.dataPayloads, packetPayloads] using this

/-- Packets of another type carry no data. -/
theorem OfType.dataPayloads {msgType : MessageType} {entries : List OutboxEntry}
    (h : OfType msgType entries) (hne : msgType ≠ .data) (dest : String) :
    cfg.dataPayloads entries dest = [] := by
  refine List.filterMap_eq_nil_iff.mpr fun e he => ?_
  cases hr : cfg.readEntry e with
  | none => rfl
  | some r =>
    have ht := (first_of_readEntry hr).symm.trans (h e he)
    have : r.1 ≠ MessageType.data.toNat := fun hd =>
      hne (MessageType.toNat_injective (ht.symm.trans hd))
    simp [this]

theorem stampedPayloads_snoc (history : List (WalRecord FilterChange)) (m : String) (key : InputKey)
    (change : FilterChange) (entries : List OutboxEntry) (clientId : Nat) (dest : String) :
    cfg.stampedPayloads (history ++ [.inputApplied m key change entries]) clientId dest =
      cfg.stampedPayloads history clientId dest ++
        if key.clientId = clientId then cfg.dataPayloads entries dest else [] := by
  have hlog : outputLog (history ++ [WalRecord.inputApplied m key change entries]) =
      outputLog history ++ entries.map fun e => (key.clientId, e) := by
    simp [outputLog, WalRecord.loggedOutputs]
  rw [stampedPayloads, hlog, List.filterMap_append, dataPayloads_append, List.filterMap_map]
  congr 1
  by_cases h : key.clientId = clientId
  · simp [h]
  · simp [h, dataPayloads]

theorem stampedPayloads_done (history : List (WalRecord FilterChange)) (m : String) (key : InputKey)
    (clientId : Nat) (dest : String) :
    cfg.stampedPayloads (history ++ [.inputDone m key]) clientId dest =
      cfg.stampedPayloads history clientId dest := by
  simp [stampedPayloads, outputLog, WalRecord.loggedOutputs]

/-! ## Flushes and drains -/

theorem packetPayloads_append (packets packets' : List Packet) (dest : String) :
    packetPayloads (packets ++ packets') dest =
      packetPayloads packets dest ++ packetPayloads packets' dest := List.filterMap_append

/-- The flushed packets of a destination are those its own append flushes. -/
theorem packetPayloads_flushedPackets (s : FilterState) (clientId : Nat)
    (appends : Dict String (List Bytes)) (dest : String) :
    packetPayloads (cfg.flushedPackets s clientId appends) dest =
      s.buffer.planAppend cfg.state.limits (dest, clientId) (appends.getD dest []) := by
  obtain ⟨entries, hn⟩ := appends
  unfold flushedPackets FilterState.planData Dict.getD Dict.get?
  simp only
  induction entries with
  | nil => rfl
  | cons e entries ih =>
    obtain ⟨k, payloads⟩ := e
    simp only [List.map_cons, List.nodup_cons] at hn
    have hhead : packetPayloads ((s.buffer.planAppend cfg.state.limits (k, clientId) payloads).map
        (⟨k, .data, ·⟩)) dest =
        if k = dest then s.buffer.planAppend cfg.state.limits (k, clientId) payloads else [] := by
      unfold packetPayloads
      rw [List.filterMap_map]
      by_cases hk : k = dest <;> simp [hk]
    rw [List.map_cons, List.flatMap_cons, packetPayloads_append, hhead, ih hn.2]
    by_cases hk : k = dest
    · subst hk
      rw [Dict.find_eq_none_iff.mpr hn.1]
      simp [Dict.find]
    · simp [Dict.find, hk]

/-- The content of the buffer after the appends of a batch. -/
theorem content_appends (b : BatchBuffer (String × Nat)) (limits : BatchLimits) (clientId : Nat)
    (appends : Dict String (List Bytes)) (dest : String) (clientId' : Nat) :
    ((appends.mapVals (·.map Base64.encode)).entries.foldl (fun b e =>
        b.applyAppend limits (e.1, clientId) (e.2.map FilterState.decodePayload)) b).content
      (dest, clientId') =
    if clientId = clientId' then
      (b.applyAppend limits (dest, clientId) (appends.getD dest [])).content (dest, clientId)
    else b.content (dest, clientId') := by
  have hnil : ∀ b : BatchBuffer (String × Nat), (b.applyAppend limits (dest, clientId) []).content
      (dest, clientId) = b.content (dest, clientId) := fun b => by
    simpa using b.planAppend_applyAppend limits (dest, clientId) []
  obtain ⟨entries, hn⟩ := appends
  unfold Dict.mapVals Dict.getD Dict.get?
  simp only [List.foldl_map, FilterState.map_decodePayload_encode]
  induction entries generalizing b with
  | nil =>
    by_cases h : clientId = clientId'
    · subst h
      rw [if_pos rfl]
      exact (hnil b).symm
    · rw [if_neg h]
      rfl
  | cons e entries ih =>
    obtain ⟨k, payloads⟩ := e
    simp only [List.map_cons, List.nodup_cons] at hn
    rw [List.foldl_cons, ih _ hn.2]
    by_cases hc : clientId = clientId'
    · rw [if_pos hc, if_pos hc]
      by_cases hk : k = dest
      · subst hk
        simp [Dict.find_eq_none_iff.mpr hn.1, Dict.find, hnil]
      · -- the append to another destination leaves this one as it was
        have hne : ((k, clientId) : String × Nat) ≠ (dest, clientId) := by simp [hk]
        obtain ⟨h₁, h₂⟩ := b.applyAppend_of_ne limits hne payloads
        simp only [Dict.find, if_neg hk, BatchBuffer.content_applyAppend, if_true, h₁, h₂]
    · rw [if_neg hc, if_neg hc]
      exact b.content_applyAppend_of_ne limits (by simp [hc]) payloads

/-- Draining a client emits what the buffer holds for it. -/
theorem packetPayloads_drainPackets (s : FilterState) (clientId : Nat) (dest : String) :
    (packetPayloads (drainPackets s clientId) dest).flatten =
      s.buffer.content (dest, clientId) := by
  have h : _ = s.buffer.content (dest, clientId) :=
    BatchBuffer.planDrain_content s.buffer
      (p := fun k => k.2 == clientId) (by simp)
  rw [← h]
  unfold packetPayloads drainPackets FilterState.planDrain
  congr 1
  have hkey : ∀ e ∈ s.buffer.planDrain (fun k => k.2 == clientId), e.1.2 = clientId := by
    intro e he
    simp only [BatchBuffer.planDrain, List.mem_map, List.mem_filter, Bool.and_eq_true,
      beq_iff_eq] at he
    obtain ⟨_, ⟨-, hp, -⟩, rfl⟩ := he
    exact hp
  generalize s.buffer.planDrain (fun k => k.2 == clientId) = drained at hkey
  clear h
  induction drained with
  | nil => rfl
  | cons e drained ih =>
    obtain ⟨⟨d, c⟩, batch⟩ := e
    obtain rfl : c = clientId := hkey _ List.mem_cons_self
    have hrest := ih fun e he => hkey e (List.mem_cons_of_mem _ he)
    by_cases hd : d = dest <;> simp_all

theorem eofPackets_spec {counts : Dict String Nat} {eofs : List Packet}
    (h : cfg.eofPackets counts = .ok eofs) :
    List.Forall₂ (fun target p => p.destination = target.1 ∧ p.msgType = .eof ∧
      ControlMessage.serialize { senderId := cfg.id, expectedTotal := counts.getD target.2 0 } =
        .ok p.payload) cfg.eofTargets eofs := by
  refine (Except.forall₂_of_mapM h).imp fun target p hp => ?_
  obtain ⟨payload, hs, hp⟩ := Except.ok_of_bind hp
  cases hp
  exact ⟨rfl, rfl, hs⟩

theorem packetPayloads_eofPackets {counts : Dict String Nat} {eofs : List Packet}
    (h : cfg.eofPackets counts = .ok eofs) (dest : String) : packetPayloads eofs dest = [] := by
  have hspec := eofPackets_spec h
  generalize cfg.eofTargets = targets at hspec
  clear h
  induction hspec with
  | nil => rfl
  | cons hp _ ih => simpa [packetPayloads, hp.2.1] using ih

end FilterConfig

/-! ## The invariant -/

/-- The transactions of one client among routed batches. -/
def transactionsOf (routed : List (Nat × List Transaction)) (clientId : Nat) : List Transaction :=
  (routed.filter fun batch => decide (batch.1 = clientId)).flatMap Prod.snd

theorem transactionsOf_append (routed routed' : List (Nat × List Transaction)) (clientId : Nat) :
    transactionsOf (routed ++ routed') clientId =
      transactionsOf routed clientId ++ transactionsOf routed' clientId := by
  simp [transactionsOf]

/-- The state, the history and the routed batches agree. -/
structure Conserved (cfg : FilterConfig) (s : FilterState) (history : List (WalRecord FilterChange))
    (routed : List (Nat × List Transaction)) : Prop where
  payloads : ∀ dest clientId,
    (cfg.stampedPayloads history clientId dest).flatten ++ s.buffer.content (dest, clientId) =
      (cfg.routedTo dest (transactionsOf routed clientId)).flatten
  drained : ∀ dest clientId, s.isClosed clientId = true → s.buffer.content (dest, clientId) = []
  counts : ∀ clientId logical, s.isClosed clientId = false →
    (s.forwardedByOutput clientId).getD logical 0 =
      cfg.routedCount logical (transactionsOf routed clientId)

namespace Conserved

open FilterConfig

variable {cfg : FilterConfig} {s s' : FilterState} {history : List (WalRecord FilterChange)}
  {routed : List (Nat × List Transaction)}

theorem init : Conserved cfg {} [] [] where
  payloads _ _ := rfl
  drained _ _ h := by simp [FilterState.isClosed] at h
  counts _ _ _ := rfl

/-- Nothing that the invariant looks at changes. -/
theorem quiet (h : Conserved cfg s history routed) {m : String} {key : InputKey}
    {change : FilterChange} {entries : List OutboxEntry} (hb : s'.buffer = s.buffer)
    (hc : s'.closedByClient = s.closedByClient)
    (hf : s'.forwardedByOutputByClient = s.forwardedByOutputByClient)
    (he : ∀ dest, cfg.dataPayloads entries dest = []) :
    Conserved cfg s' (history ++ [.inputApplied m key change entries]) routed where
  payloads dest clientId := by
    rw [stampedPayloads_snoc, he, ite_self, List.append_nil, hb]
    exact h.payloads dest clientId
  drained dest clientId hcl := by
    rw [hb]
    exact h.drained dest clientId (by simpa [FilterState.isClosed, hc] using hcl)
  counts clientId logical hcl := by
    rw [FilterState.forwardedByOutput, hf]
    exact h.counts clientId logical (by simpa [FilterState.isClosed, hc] using hcl)

/-- A client is drained and closed. -/
theorem drain (h : Conserved cfg s history routed) {m : String} {key : InputKey}
    {change : FilterChange} {entries : List OutboxEntry}
    (hb : s'.buffer = s.buffer.discard fun k => k.2 == key.clientId)
    (hc : s'.closedByClient = insert key.clientId s.closedByClient)
    (hf : s'.forwardedByOutputByClient = s.forwardedByOutputByClient.erase key.clientId)
    (he : ∀ dest, (cfg.dataPayloads entries dest).flatten =
      s.buffer.content (dest, key.clientId)) :
    Conserved cfg s' (history ++ [.inputApplied m key change entries]) routed where
  payloads dest clientId := by
    rw [stampedPayloads_snoc, hb, BatchBuffer.content_discard]
    by_cases hk : key.clientId = clientId
    · subst hk
      simp only [if_true, beq_self_eq_true, List.flatten_append, he, List.append_nil]
      exact h.payloads dest key.clientId
    · simp only [hk, if_false, List.append_nil, beq_iff_eq, Ne.symm hk]
      exact h.payloads dest clientId
  drained dest clientId hcl := by
    rw [hb, BatchBuffer.content_discard]
    by_cases hk : clientId = key.clientId
    · simp [hk]
    · simp only [beq_iff_eq, hk, if_false]
      exact h.drained dest clientId (by simpa [FilterState.isClosed, hc, hk] using hcl)
  counts clientId logical hcl := by
    simp only [FilterState.isClosed, hc, Finset.mem_insert, decide_eq_false_iff_not, not_or] at hcl
    rw [FilterState.forwardedByOutput, hf, Dict.getD_erase, if_neg hcl.1]
    exact h.counts clientId logical (by simpa [FilterState.isClosed] using hcl.2)

/-- A batch is routed. -/
theorem route (h : Conserved cfg s history routed) {m : String} {key : InputKey}
    {txs : List Transaction} {appends : Dict String (List Bytes)} {forwarded : Dict String Nat}
    {entries : List OutboxEntry} (hopen : s.isClosed key.clientId = false)
    (hroute : cfg.routeBatch (∅, ∅) txs = .ok (appends, forwarded))
    (hread : cfg.ReadsAs entries (cfg.flushedPackets s key.clientId appends)) :
    Conserved cfg
      (s.applyChange cfg.state (FilterState.dataChange key.clientId txs.length appends forwarded))
      (history ++ [.inputApplied m key
        (FilterState.dataChange key.clientId txs.length appends forwarded) entries])
      (routed ++ [(key.clientId, txs)]) := by
  have hcl : key.clientId ∉ s.closedByClient := by simpa [FilterState.isClosed] using hopen
  have happ := fun dest => by simpa using (routeBatch_spec hroute dest dest).1
  have hfwd := fun logical => by simpa using (routeBatch_spec hroute logical logical).2
  have htx : ∀ clientId, transactionsOf (routed ++ [(key.clientId, txs)]) clientId =
      transactionsOf routed clientId ++ if key.clientId = clientId then txs else [] := by
    intro clientId
    rw [transactionsOf_append]
    by_cases hk : key.clientId = clientId <;> simp [transactionsOf, hk]
  simp only [FilterState.applyChange, FilterState.dataChange, FilterChange.ops, List.foldl_cons,
    List.foldl_nil, FilterState.applyOp, FilterState.applyData, if_neg hcl]
  refine ⟨fun dest clientId => ?_, fun dest clientId hc => ?_, fun clientId logical hc => ?_⟩
  · rw [stampedPayloads_snoc, htx, routedTo_append, content_appends]
    by_cases hk : key.clientId = clientId
    · subst hk
      simp only [if_true, List.flatten_append, hread.dataPayloads, packetPayloads_flushedPackets]
      rw [List.append_assoc, BatchBuffer.planAppend_applyAppend, ← List.append_assoc, happ]
      exact congrArg (· ++ _) (h.payloads dest key.clientId)
    · simp only [hk, if_false, List.append_nil]
      rw [show cfg.routedTo dest [] = [] from rfl, List.append_nil]
      exact h.payloads dest clientId
  · rw [content_appends]
    have hne : key.clientId ≠ clientId := by
      rintro rfl
      simp [FilterState.isClosed, hcl] at hc
    rw [if_neg hne]
    exact h.drained dest clientId hc
  · have hcount := h.counts clientId logical hc
    rw [htx, routedCount_append]
    by_cases hk : key.clientId = clientId
    · subst hk
      simp only [FilterState.forwardedByOutput, Dict.getD_set, if_true]
      rw [getD_addCounts, hfwd]
      exact congrArg (· + _) hcount
    · simp only [FilterState.forwardedByOutput, Dict.getD_set, hk, if_false]
      exact hcount

/-- Every record but an abort keeps the invariant. -/
theorem recorded (h : Conserved cfg s history routed) {m : String} {d : Delivery} {key : InputKey}
    {change : FilterChange} {entries : List OutboxEntry} {sumSeq : String → Nat}
    (hr : Recorded cfg s d key change entries) (hkind : key.kind ≠ .abort) :
    Conserved cfg (s.applyChange cfg.state change)
      (history ++ [.inputApplied m key change entries])
      (routed ++ FilterWorker.batchOf s (.deliver d sumSeq)) := by
  cases hr with
  | @skipped body msg hm ht hskip =>
    cases hcl : s.isClosed msg.clientId with
    | true =>
      have hmem : msg.clientId ∈ s.closedByClient := by simpa [FilterState.isClosed] using hcl
      have hbatch : FilterWorker.batchOf s (.deliver (.input body) sumSeq) = [] := by
        simp only [FilterWorker.batchOf, hm, hcl, Bool.true_eq_false, and_false, if_false]
      rw [hbatch, List.append_nil]
      refine h.quiet ?_ ?_ ?_ fun _ => rfl <;>
        simp [FilterState.applyChange, FilterState.dataChange, FilterChange.ops,
          FilterState.applyOp, FilterState.applyData, hmem]
    | false =>
      have htxs := hskip.resolve_left (by simp [hcl])
      have hbatch : FilterWorker.batchOf s (.deliver (.input body) sumSeq) =
          [(msg.clientId, [])] := by
        simp only [FilterWorker.batchOf, hm, ht, hcl, htxs, and_self, if_true]
      rw [hbatch]
      have hroute : cfg.routeBatch (∅, ∅) [] = .ok (∅, ∅) := rfl
      have hread : cfg.ReadsAs [] (cfg.flushedPackets s (dataKey msg).clientId ∅) := rfl
      exact h.route hcl hroute hread
  | @routed body msg txs appends _ _ hm ht hopen htxs hroute hread =>
    have hbatch : FilterWorker.batchOf s (.deliver (.input body) sumSeq) =
        [(msg.clientId, txs)] := by
      simp only [FilterWorker.batchOf, hm, ht, hopen, htxs, and_self, if_true]
    rw [hbatch]
    have hread : cfg.ReadsAs entries (cfg.flushedPackets s (dataKey msg).clientId appends) := hread
    exact h.route hopen hroute hread
  | aborted => exact absurd rfl hkind
  | @announced body _ _ _ hm ht hctrl hopen hmany htype =>
    have hbatch : FilterWorker.batchOf s (.deliver (.input body) sumSeq) = [] := by
      simp [FilterWorker.batchOf, hm, ht, MessageType.toNat]
    rw [hbatch, List.append_nil]
    exact h.quiet rfl rfl rfl (htype.dataPayloads (by rintro ⟨⟩))
  | @drainedAlone body _ _ _ _ hm ht hctrl hopen hone heofs hread =>
    have hbatch : FilterWorker.batchOf s (.deliver (.input body) sumSeq) = [] := by
      simp [FilterWorker.batchOf, hm, ht, MessageType.toNat]
    rw [hbatch, List.append_nil]
    refine h.drain rfl rfl rfl fun dest => ?_
    rw [hread.dataPayloads, packetPayloads_append, packetPayloads_eofPackets heofs, List.append_nil]
    exact packetPayloads_drainPackets s _ dest
  | answered hp hctrl htype =>
    exact (List.append_nil routed).symm ▸ h.quiet rfl rfl rfl (htype.dataPayloads (by rintro ⟨⟩))
  | drainedOrder hp hctrl hopen hleader hread hdumps hpacket hack =>
    refine (List.append_nil routed).symm ▸ h.drain rfl rfl rfl fun dest => ?_
    have htype : OfType .flushAck [_] :=
      ofType_of_forall₂ hpacket (fun o ho => by obtain rfl := List.mem_singleton.mp ho; rfl)
        (.cons hack .nil)
    rw [dataPayloads_append, htype.dataPayloads (by rintro ⟨⟩), List.append_nil, hread.dataPayloads]
    exact packetPayloads_drainPackets s _ dest
  | acked hp hload hopen hleader hmore =>
    refine (List.append_nil routed).symm ▸ h.quiet ?_ ?_ ?_ fun _ => rfl <;>
      simp [FilterState.applyChange, FilterChange.ops, FilterState.applyOp]
  | drainedLast hp hload hopen hleader hlast heofs hread =>
    refine (List.append_nil routed).symm ▸ h.drain ?_ ?_ ?_ fun dest => ?_
    · simp [FilterState.applyChange, FilterChange.ops, FilterState.applyOp, FilterState.applyClose]
    · simp [FilterState.applyChange, FilterChange.ops, FilterState.applyOp, FilterState.applyClose]
    · simp [FilterState.applyChange, FilterChange.ops, FilterState.applyOp, FilterState.applyClose]
    · rw [hread.dataPayloads, packetPayloads_append, packetPayloads_eofPackets heofs,
        List.append_nil]
      exact packetPayloads_drainPackets s _ dest

/-- The invariant does not look at the coordinator. -/
theorem of_durable_eq (h : Conserved cfg s history routed) (he : s'.durable = s.durable) :
    Conserved cfg s' history routed := by
  have h : Conserved cfg s.durable history routed := ⟨h.payloads, h.drained, h.counts⟩
  rw [← he] at h
  exact ⟨h.payloads, h.drained, h.counts⟩

theorem done (h : Conserved cfg s history routed) {m : String} {key : InputKey} :
    Conserved cfg s (history ++ [.inputDone m key]) routed where
  payloads dest clientId := by rw [stampedPayloads_done]; exact h.payloads dest clientId
  drained := h.drained
  counts := h.counts

end Conserved

/-! ## Runs -/

/-- A recorded input whose change closes the client. -/
def WalRecord.Closes (clientId : Nat) : WalRecord FilterChange → Prop
  | .inputApplied _ _ change _ => .close clientId ∈ change.ops
  | .inputDone _ _ => False

namespace FilterWorker

open FilterConfig Transition

variable {cfg : FilterConfig} {w w' : FilterWorker}

/-- The section handles the abort of a client. -/
def isAbort : FilterAct → Bool
  | .deliver (.input body) _ =>
    match unpackAddressedPacket body with
    | .ok m => m.msgType == MessageType.abort.toNat
    | .error _ => false
  | _ => false

/-- A section as a step of a run. -/
def step (cfg : FilterConfig) (w : FilterWorker) (l : FilterAct × Outcome) : Option FilterWorker :=
  w.exec cfg l.1 l.2

/-- The runs without aborts. -/
def Run (cfg : FilterConfig) (w : FilterWorker) : Prop :=
  Reachable (step cfg) (fun _ l => isAbort l.1 = false) (init cfg) w

/-- What every section keeps. -/
structure Inv (cfg : FilterConfig) (w : FilterWorker) : Prop where
  durable : w.Durable cfg
  conserved : Conserved cfg w.state w.node.history w.routed
  closed : ∀ clientId, w.state.isClosed clientId = true ↔
    ∃ record ∈ w.node.history, record.Closes clientId

theorem inv_init : Inv cfg (init cfg) where
  durable := durable_init
  conserved := .init
  closed clientId := by simp [init, state, Node.init, Handler.init, FilterState.isClosed,
    handler, FilterState.worker]

theorem Inv.exec {l : FilterAct × Outcome} (h : Inv cfg w) (hna : isAbort l.1 = false)
    (he : step cfg w l = some w') : Inv cfg w' := by
  obtain ⟨act, outcome⟩ := l
  obtain ⟨hd, hcases⟩ := h.durable.exec_cases he
  rcases hcases with ⟨hh, hr, hs⟩ | ⟨d, sumSeq, key, change, entries, rfl, hh, hr, hs, -, hrec⟩
  · have hc := h.conserved.of_durable_eq hs
    rcases hh with hh | ⟨key, rfl, hh⟩
    · refine ⟨hd, hr ▸ hh ▸ hc, fun clientId => ?_⟩
      rw [FilterState.isClosed_congr hs, h.closed, hh]
    · refine ⟨hd, hr ▸ hh ▸ hc.done, fun clientId => ?_⟩
      rw [FilterState.isClosed_congr hs, h.closed, hh]
      simp [WalRecord.Closes]
  · have hkind : key.kind ≠ .abort := by
      cases hrec with
      | aborted hm ht => simp [isAbort, hm, ht] at hna
      | _ => nofun
    refine ⟨hd, ?_, fun clientId => ?_⟩
    · rw [hh, hr]
      exact (h.conserved.recorded hrec hkind).of_durable_eq hs
    · have hmem := FilterState.mem_closedByClient_applyChange cfg.state w.state change clientId
      have hold := h.closed clientId
      simp only [FilterState.isClosed, decide_eq_true_eq] at hold
      rw [FilterState.isClosed_congr hs, FilterState.isClosed, decide_eq_true_eq, hmem, hold, hh]
      simp [WalRecord.Closes, or_and_right, exists_or]

theorem Run.inv (h : Run cfg w) : Inv cfg w :=
  Reachable.invariant inv_init (fun _ _ _ hi hna he => hi.exec hna he) h

/-- **Conservation.** In every run of a replica over DATA batches of any clients, under any
configuration, with control messages, redeliveries, failing appends and crashes in any order, for
every destination and client: the payloads of the DATA packets stamped so far, followed by the
buffer, are the serializations of the transactions routed there, in order; once an input has closed
the client, the buffer is empty and the stamped payloads are that whole sequence; and until then the
forwarded count of every logical output is the number of transactions routed to it. -/
theorem stamped_and_buffered_eq_routed (cfg : FilterConfig) {w : FilterWorker}
    (h : Run cfg w) (dest : String) (clientId : Nat) :
    (cfg.stampedPayloads w.node.history clientId dest).flatten ++
        w.state.buffer.content (dest, clientId) =
      (cfg.routedTo dest (transactionsOf w.routed clientId)).flatten ∧
    ((∃ record ∈ w.node.history, record.Closes clientId) →
      w.state.buffer.content (dest, clientId) = [] ∧
      (cfg.stampedPayloads w.node.history clientId dest).flatten =
        (cfg.routedTo dest (transactionsOf w.routed clientId)).flatten) ∧
    ((¬ ∃ record ∈ w.node.history, record.Closes clientId) → ∀ logical,
      (w.state.forwardedByOutput clientId).getD logical 0 =
        cfg.routedCount logical (transactionsOf w.routed clientId)) := by
  have hi := h.inv
  have hp := hi.conserved.payloads dest clientId
  refine ⟨hp, fun hc => ?_, fun hc logical => ?_⟩
  · have hnil := hi.conserved.drained dest clientId ((hi.closed clientId).mpr hc)
    rw [hnil, List.append_nil] at hp
    exact ⟨hnil, hp⟩
  · have hopen : w.state.isClosed clientId = false := by
      simpa using fun ht => hc ((hi.closed clientId).mp ht)
    exact hi.conserved.counts clientId logical hopen

/-- One payment of 10 dollars. -/
def samplePayment : Transaction :=
  ⟨"2022/09/01 00:20", "011", "8000EBD30", "011", "8000EBD30", 0x4024000000000000, "US Dollar",
    "Reinvestment", 1⟩

def samplePaymentBytes : Bytes :=
  match TransactionSerializer.serialize samplePayment with
  | .ok bytes => bytes
  | .error _ => []

/-- A filter `Q1` of one replica. -/
def sampleConfig : FilterConfig where
  id := 0
  configuration := .q1
  gatewayQueue := "gateway"
  filterDateQueue := "filter_date"
  filterQ1Queue := "filter_q1"
  scatterGatherMapperQueue := "scatter_gather_mapper"
  filterQ5UsdQueue := "filter_q5_usd"
  q4FilterInputExchange := false
  q4FilterInputRoutingPrefix := "q4_filter"
  q4FilterAmount := 1
  q3CandidatesQueue := "q3_candidates"
  q3BarrierAmount := 1
  sumQ3Queue := "sum_q3"
  sumQ3Amount := 1
  filterAmount := 1
  filterPrefix := "filter"
  usdEnableQ1 := true
  usdEnableQ2 := true
  usdEnableDate := true
  dateEnableQ3 := true
  dateEnableQ4 := true
  filterQ1Amount := 1
  filterQ5UsdAmount := 1
  sumQ2Amount := 1
  filterDateAmount := 1
  limits := { maxBytes := 1048576, maxItems := 5000 }
  snapshotInterval := 1000
  sha256 := fun _ => []
  unicode := { isDigit := Char.isDigit, decimal? := fun c => Text.toNat? [c] }
  changeJson := .ofTable []
  flushAckJson := .ofTable []
  isEof := fun key => decide (key.seq = 1)

/-- The packet of client `7` that sender `3` sends first. -/
def sampleData : Bytes := 0 :: (beEncode 16 7 ++ beEncode 4 3 ++ beEncode 4 0 ++ samplePaymentBytes)

/-- A payment that is a candidate of q3. -/
def candidate : Transaction := { samplePayment with date := "2022/09/07 11:05" }

def candidateBytes : Bytes :=
  match TransactionSerializer.serialize candidate with
  | .ok bytes => bytes
  | .error _ => []

/-- A filter `DATE` of one replica with the outputs of q3, which batches up to two payments, and the
JSON texts of its changes in the run below. -/
def datesConfig : FilterConfig := { sampleConfig with
  configuration := .date
  dateEnableQ4 := false
  limits := { maxBytes := 1048576, maxItems := 2 }
  changeJson := .ofTable [
    (FilterState.dataChange 7 2
      ((Dict.empty.set "sum_q3" [samplePaymentBytes]).set "q3_candidates" [candidateBytes])
      ((Dict.empty.set "sum_q3" 1).set "q3_candidates" 1),
      encodeText ("\x7b\"type\": \"data\", \"client_id\": 7, \"processed_count\": 2, " ++
        "\"appends_by_dest\": \x7b\"sum_q3\": [\"" ++
        String.ofList (Base64.encode samplePaymentBytes) ++ "\"], \"q3_candidates\": [\"" ++
        String.ofList (Base64.encode candidateBytes) ++
        "\"]\x7d, \"forwarded_by_output\": \x7b\"sum_q3\": 1, \"q3_candidates\": 1\x7d\x7d")),
    (FilterState.dataChange 7 1 (Dict.empty.set "sum_q3" [samplePaymentBytes])
      (Dict.empty.set "sum_q3" 1),
      encodeText ("\x7b\"type\": \"data\", \"client_id\": 7, \"processed_count\": 1, " ++
        "\"appends_by_dest\": \x7b\"sum_q3\": [\"" ++
        String.ofList (Base64.encode samplePaymentBytes) ++
        "\"]\x7d, \"forwarded_by_output\": \x7b\"sum_q3\": 1\x7d\x7d")),
    (.compound [.coordinatorUpstreamEof 7 3 3 3, .close 7],
      encodeText ("\x7b\"type\": \"compound\", \"changes\": [" ++
        "\x7b\"type\": \"coordinator_upstream_eof\", \"client_id\": 7, " ++
        "\"expected_total\": 3, \"count\": 3, \"forwarded\": 3\x7d, " ++
        "\x7b\"type\": \"close\", \"client_id\": 7\x7d]\x7d"))]
  isEof := fun key => decide (key.seq = 2) }

/-- Two batches of client `7`, and its EOF. -/
def firstBatch : Bytes :=
  0 :: (beEncode 16 7 ++ beEncode 4 3 ++ beEncode 4 0 ++ samplePaymentBytes ++ candidateBytes)

@[inherit_doc firstBatch] def secondBatch : Bytes :=
  0 :: (beEncode 16 7 ++ beEncode 4 3 ++ beEncode 4 1 ++ samplePaymentBytes)

@[inherit_doc firstBatch] def batchesEof : Bytes :=
  1 :: (beEncode 16 7 ++ beEncode 4 3 ++ beEncode 4 2 ++
    (beEncode 4 3 ++ beEncode 4 3 ++ beEncode 4 0))

/-- The first batch, a crash in the middle of its commit, its redelivery, and the second batch,
whose append fails at first. -/
def twoBatches : List (FilterAct × Outcome) :=
  [(.deliver (.input firstBatch) fun _ => 0, .returns),
   (.commitDone ⟨7, .data, 3, 0⟩, .crashes 0),
   (.deliver (.input firstBatch) fun _ => 0, .returns),
   (.deliver (.input secondBatch) fun _ => 0, .appendFails),
   (.deliver (.input secondBatch) fun _ => 0, .returns)]

/-- Before the `EOF` a candidate is buffered, behind it everything is stamped. -/
theorem stamped_and_buffered_eq_routed_dates : ∃ w w', Run datesConfig w ∧ Run datesConfig w' ∧
    w.state.buffer.content ("q3_candidates", 7) = candidateBytes ∧
    (∀ dest, (datesConfig.stampedPayloads w.node.history 7 dest).flatten ++
        w.state.buffer.content (dest, 7) =
      (datesConfig.routedTo dest (transactionsOf w.routed 7)).flatten ∧
      (w.state.forwardedByOutput 7).getD dest 0 =
        datesConfig.routedCount dest (transactionsOf w.routed 7)) ∧
    datesConfig.stampedPayloads w'.node.history 7 "sum_q3" =
      [samplePaymentBytes ++ samplePaymentBytes] ∧
    datesConfig.stampedPayloads w'.node.history 7 "q3_candidates" = [candidateBytes] ∧
    ∀ dest, w'.state.buffer.content (dest, 7) = [] ∧
      (datesConfig.stampedPayloads w'.node.history 7 dest).flatten =
        (datesConfig.routedTo dest (transactionsOf w'.routed 7)).flatten := by
  have hrun : ((runAllowed (step datesConfig) (fun _ l => isAbort l.1 = false) (init datesConfig)
      twoBatches).bind fun w => (runAllowed (step datesConfig) (fun _ l => isAbort l.1 = false) w
        [(.deliver (.input batchesEof) fun _ => 0, .returns)]).map fun w' =>
          ((w.state.buffer.content ("q3_candidates", 7), w.state.isClosed 7),
            datesConfig.stampedPayloads w'.node.history 7 "sum_q3",
            datesConfig.stampedPayloads w'.node.history 7 "q3_candidates", w'.state.isClosed 7)) =
      some ((candidateBytes, false), [samplePaymentBytes ++ samplePaymentBytes], [candidateBytes],
        true) := by decide +kernel
  obtain ⟨w, hw, hrun⟩ := Option.bind_eq_some_iff.mp hrun
  obtain ⟨w', hw', hp⟩ := Option.map_eq_some_iff.mp hrun
  obtain ⟨hbefore, hp⟩ := Prod.mk.inj hp
  obtain ⟨hbuffered, hopen⟩ := Prod.mk.inj hbefore
  obtain ⟨hsums, hp⟩ := Prod.mk.inj hp
  obtain ⟨hcandidates, hclosed⟩ := Prod.mk.inj hp
  have hr : Run datesConfig w := reachable_of_runAllowed .init hw
  have hr' : Run datesConfig w' := reachable_of_runAllowed hr hw'
  have hopen : ¬ ∃ record ∈ w.node.history, record.Closes 7 := by
    rw [← hr.inv.closed 7, hopen]
    exact Bool.false_ne_true
  have hclosed := (hr'.inv.closed 7).mp hclosed
  refine ⟨w, w', hr, hr', hbuffered, fun dest => ?_, hsums, hcandidates, fun dest => ?_⟩
  · have hall := stamped_and_buffered_eq_routed datesConfig hr dest 7
    exact ⟨hall.1, hall.2.2 hopen dest⟩
  · exact (stamped_and_buffered_eq_routed datesConfig hr' dest 7).2.1 hclosed

end FilterWorker

end MoneyLaundering
