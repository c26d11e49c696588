import MoneyLaundering.FaultTolerance.DecodedRecords
import MoneyLaundering.FaultTolerance.FailedAppends
import MoneyLaundering.Workers.Q5Numbers

/-!
# The numbers towards the aggregators

What the sums and filter_q5_usd send to the aggregators bypasses the durable sequencer. A sum
numbers its packets in memory, and sends them once for each client; filter_q5_usd counts them in its
logged state. The counters have 32 bits: a client with more than `2 ^ 32` packets gets numbers
again, on other wires (`agg_seqs_reused`).
-/

namespace MoneyLaundering

open Bytes InternalProtocol Transition Publisher

namespace FilterQ5UsdConfig

/-! ## After `2 ^ 32` packets -/

/-- The change of a batch of one transaction that is forwarded. -/
def oneForwarded : FilterQ5UsdChange :=
  .single (.data 7 { processedCount := 1, forwardedCount := 1, seqAdvance := 1 })

/-- One replica and one aggregator. -/
def single : FilterQ5UsdConfig where
  id := 0
  filterQ5UsdAmount := 1
  filterQ5UsdPrefix := "filter_q5_usd"
  aggregationAmount := 1
  aggregationPrefix := "aggregation"
  snapshotInterval := 100
  sha256 := fun _ => []
  getRate := fun _ _ => none
  mul := fun amount _ => amount
  changeJson := .ofTable [(oneForwarded, [1])]

/-- A wire of fifty cents. -/
def wire (row : Nat) : Transaction where
  date := "2022-09-02"
  fromBank := "1"
  fromAccount := "a"
  toBank := "2"
  toAccount := "b"
  amount := 0x3fe0000000000000
  currency := "US Dollar"
  format := "Wire"
  rowNumber := row

/-- A batch of one transaction, which is forwarded as it came. -/
structure OneWire (payload : Bytes) (tx : Transaction) : Prop where
  batch : TransactionSerializer.deserializeBatch payload = .ok [tx]
  forwards : single.forwards tx = true
  serialize : TransactionSerializer.serialize tx = .ok payload
  length : payload.length = 195

def payloadOf (row : Nat) : Bytes :=
  match TransactionSerializer.serialize (wire row) with
  | .ok payload => payload
  | .error _ => []

theorem oneWire_zero : OneWire (payloadOf 0) (wire 0) where
  batch := by decide +kernel
  forwards := by decide +kernel
  serialize := by decide +kernel
  length := by decide +kernel

theorem oneWire_one : OneWire (payloadOf 1) (wire 1) where
  batch := by decide +kernel
  forwards := by decide +kernel
  serialize := by decide +kernel
  length := by decide +kernel

/-! ### Every batch is sent -/

theorem length_msgId_le {key : InputKey} (hk : key.kind = .data) (hf : Wal.KeyFits key) :
    (tags.msgId key).toList.length ≤ 40 := by
  obtain ⟨c, kind, sender, seq⟩ := key
  cases hk
  obtain ⟨hc, hs, hq⟩ := hf
  have hdigits : ∀ {n}, n < 2 ^ 32 → (Text.ofNat n).length ≤ 10 := fun h =>
    Text.length_ofNat_le (by decide) (h.trans (by decide))
  have h₁ := hdigits hc
  have h₂ := hdigits hs
  have h₃ := hdigits hq
  rw [MsgIdTags.msgId, String.toList_ofList]
  simp only [tags, MsgIdTags.coordinates, Text.join, List.cons_append, List.nil_append,
    List.length_append, List.length_cons]
  simp only at h₁ h₂ h₃
  omega

/-- A record of one packet of a forwarded transaction fits. -/
theorem fits_oneForwarded {key : InputKey} (hk : key.kind = .data) (hf : Wal.KeyFits key) {k : Nat}
    (hseq : k < 10 ^ 10) {body : Bytes} (hbody : body.length = 220) :
    Wal.Fits single.changeJson (.inputApplied (tags.msgId key) key oneForwarded
      [{ outputId := SenderSequencer.plainId single.consumer.toSequencerConfig 7 k 0
         inputId := tags.msgId key
         destination := "aggregation_0"
         body }]) := by
  have hmsg := length_encodeText_le (tags.msgId key)
  have hmsg' := length_msgId_le hk hf
  have hout :=
    length_encodeText_le (SenderSequencer.plainId single.consumer.toSequencerConfig 7 k 0)
  have hout' : (SenderSequencer.plainId single.consumer.toSequencerConfig 7 k 0).toList.length ≤
      40 := by
    have hk : (Text.ofNat k).length ≤ 10 := Text.length_ofNat_le (by decide) hseq
    rw [SenderSequencer.plainId, String.toList_ofList]
    have hnode : single.consumer.nodeId.toList.length = 15 := by decide +kernel
    have h7 : (Text.ofNat 7).length = 1 := by decide
    have h0 : (Text.ofNat 0).length = 1 := by decide
    simp only [List.length_append, List.length_cons, hnode, h7, h0]
    omega
  have hdest : (encodeText "aggregation_0").length = 13 := by decide +kernel
  refine ⟨?_, hf, by simp [maxUint16], ?_, [1], by decide +kernel, ?_⟩
  · simp only [maxUint16]
    omega
  · intro e he
    obtain rfl := List.mem_singleton.mp he
    constructor
    · simp only [maxUint16]; omega
    · simp only [maxUint16]; omega
    · simp only [hdest]; decide
    · simp only [hbody]; decide
    · simp
  · simp only [Wal.appliedSize, OutboxEntry.size, List.map_cons, List.map_nil,
      List.sum_cons, List.sum_nil, hdest, hbody, List.length_singleton, maxUint32]
    omega

/-- The packets of the client are counted modulo `2 ^ 32`; nothing was published since the first. -/
structure Sent (k : Nat) (p : Publisher.State FilterQ5UsdState FilterQ5UsdChange) : Prop where
  pending : p.pending = []
  opened : p.node.handler.workerState.closedByClient = ∅
  aggSeq : p.node.handler.workerState.aggSeq 7 = k % 2 ^ 32
  nextSeq : p.node.handler.sequencer.nextSeq.getD 7 0 = k
  inFlight : ∀ key, p.node.handler.inbox.InFlight key → key.senderId = 0 ∧ key.seq < k
  unfinished : ∀ key, p.node.handler.inbox.tracker? key = none

theorem dataFn_oneWire {s : FilterQ5UsdState} {tx : Transaction} {payload body : Bytes}
    (h : OneWire payload tx)
    (hb : createAddressedPacket MessageType.data.toNat 7 single.id (s.aggSeq 7) payload =
      .ok body) :
    single.dataFn s 7 payload = .ok (oneForwarded, [{ destination := "aggregation_0", body }]) := by
  have hdest : s!"{single.aggregationPrefix}_{single.shardOf 7}" = "aggregation_0" := by
    decide +kernel
  have hfilter : [tx].filter single.forwards = [tx] := by
    rw [List.filter_cons, if_pos h.forwards]; rfl
  have hout : single.dataOutputs 7 (s.aggSeq 7) [tx] =
      .ok [{ destination := "aggregation_0", body }] := by
    rw [dataOutputs, hfilter, List.zipIdx_singleton, List.mapM_cons, List.mapM_nil]
    dsimp only
    rw [h.serialize, Except.ok_bind, Nat.add_zero, hb, Except.ok_bind, hdest]
    rfl
  rw [dataFn, h.batch, Except.ok_bind, if_neg (by rintro ⟨h0, -⟩; cases h0), hout,
    Except.ok_bind, hfilter]
  rfl

/-- One more batch: its packet has the number that comes next, modulo `2 ^ 32`. -/
theorem Sent.deliver {k : Nat} {p : Publisher.State FilterQ5UsdState FilterQ5UsdChange}
    (h : Sent k p)
    (hk : k ≤ 2 ^ 32) {tx : Transaction} {payload : Bytes} (ht : OneWire payload tx)
    {sender seq : Nat} (hs : sender < 2 ^ 32) (hq : seq < 2 ^ 32) (hnew : sender = 0 → k ≤ seq) :
    ∃ body packetBody key entry p',
      exec single.consumer .raised p (.deliver (.queue (.input body)) .returns) = some p' ∧
      createAddressedPacket MessageType.data.toNat 7 0 (k % 2 ^ 32) payload = .ok packetBody ∧
      packet entry = ("aggregation_0", packetBody) ∧
      p'.tasks = p.tasks ++ [.publishing key [entry]] ∧ p'.published = p.published ∧
      (sender = 0 → seq = k → Sent (k + 1) p') := by
  have hdata : MessageType.data.toNat < 2 ^ 8 := by decide
  have h7 : 7 < 2 ^ 128 := by decide
  obtain ⟨body, hbody⟩ := exists_createAddressedPacket payload hdata h7 hs hq
  obtain ⟨packetBody, hpacket⟩ := exists_createAddressedPacket payload hdata h7
    (show 0 < 2 ^ 32 by decide) (Nat.mod_lt k (show 0 < 2 ^ 32 by decide))
  have hlen : packetBody.length = 220 := by
    rw [length_createAddressedPacket hpacket, ht.length]
    rfl
  have hkey : Wal.KeyFits ⟨7, .data, sender, seq⟩ := ⟨show 7 < 2 ^ 32 by decide, hs, hq⟩
  have hreact : single.consumer.react p.node.handler.workerState (.queue (.input body)) =
      .handle ⟨7, .data, sender, seq⟩ p.node.handler.workerState
        (.ok (oneForwarded, [{ destination := "aggregation_0", body := packetBody }])) := by
    change single.processDataMessage _ body = _
    rw [processDataMessage, unpackAddressedPacket_create hbody]
    have hopen : p.node.handler.workerState.isClosed 7 = false := by
      rw [FilterQ5UsdState.isClosed, h.opened]
      rfl
    change (if p.node.handler.workerState.isClosed 7 = true then _ else
      single.resumeData p.node.handler.workerState ⟨MessageType.data.toNat, 7, sender,
        seq, payload⟩) = _
    rw [if_neg (by simp [hopen]), resumeData]
    dsimp only
    rw [dataFn_oneWire ht (h.aggSeq ▸ hpacket)]
  have hclassify : p.node.handler.inbox.classify ⟨7, .data, sender, seq⟩ = .new := by
    rw [Inbox.classify_eq_new_iff]
    refine ⟨fun hin => ?_, fun ⟨t, ht, _⟩ => ?_⟩
    · obtain ⟨h0, hlt⟩ := h.inFlight _ hin
      have := hnew h0
      dsimp only at hlt
      omega
    · rw [h.unfinished] at ht
      cases ht
  have hstamp : p.node.handler.sequencer.stamp single.consumer.toSequencerConfig 7
      (single.consumer.handler.msgId ⟨7, .data, sender, seq⟩)
      [{ destination := "aggregation_0", body := packetBody }] =
      .ok [{ outputId := SenderSequencer.plainId single.consumer.toSequencerConfig 7 k 0
             inputId := tags.msgId ⟨7, .data, sender, seq⟩
             destination := "aggregation_0"
             body := packetBody }] := by
    rw [SenderSequencer.stamp, SenderSequencer.stampFrom]
    change (SenderSequencer.stampFrom _ _ _ _ _ _ _ [] >>= _) = _
    rw [SenderSequencer.stampFrom, Except.ok_bind, h.nextSeq]
    rfl
  obtain ⟨bytes, hbytes⟩ :=
    (fits_oneForwarded (show (⟨7, .data, sender, seq⟩ : InputKey).kind = .data from rfl)
    hkey (hk.trans_lt (by decide)) hlen).encode
  obtain ⟨p', he, hp', hpub, htasks, hstate⟩ :
      ∃ p', exec single.consumer .raised p (.deliver (.queue (.input body)) .returns) = some p' ∧
      _ :=
    exec_deliver_new h.pending hreact hclassify hstamp hbytes
  refine ⟨body, packetBody, _, _, p', he, hpacket, rfl, htasks, hpub, fun h0 hseq => ?_⟩
  subst h0 hseq
  have hworker := congrArg HandlerState.workerState hstate
  have hinbox := congrArg HandlerState.inbox hstate
  have hsequencer := congrArg HandlerState.sequencer hstate
  dsimp only [HandlerState.applyOnce] at hworker hinbox hsequencer
  have hopen : 7 ∉ oneForwarded.closedAfter p.node.handler.workerState.closedByClient := by
    rw [h.opened]
    decide
  constructor
  · exact hp'
  · rw [hworker]
    change (FilterQ5UsdState.applyChange single _ oneForwarded).closedByClient = ∅
    rw [applyChange_closed, h.opened]
    rfl
  · rw [hworker]
    change (FilterQ5UsdState.applyChange single _ oneForwarded).aggSeq 7 = _
    rw [applyChange_aggSeq _ _ (h.aggSeq ▸ Nat.mod_lt _ (by decide)) hopen, h.aggSeq,
      Nat.mod_add_mod]
    rfl
  · rw [hsequencer, SenderSequencer.observe_cons, SenderSequencer.observe_nil,
      SenderSequencer.observeEntry, SenderSequencer.parse_plainId]
    dsimp only
    rw [h.nextSeq, if_pos (Nat.lt_succ_self _), Dict.getD_set, if_pos rfl]
  · intro key hin
    rw [hinbox, Inbox.inFlight_markApplied] at hin
    rcases hin with rfl | hin
    · exact ⟨rfl, Nat.lt_succ_self _⟩
    · exact (h.inFlight key hin).imp_right Nat.lt_succ_of_lt
  · intro key
    rw [hinbox, Inbox.tracker?_markApplied]
    exact h.unfinished key

/-- Batch after batch of the same sender, of which only the first packet is published. -/
theorem reachable_sent (k : Nat) (hk : k + 1 ≤ 2 ^ 32) : ∃ p first,
    createAddressedPacket MessageType.data.toNat 7 0 0 (payloadOf 0) = .ok first ∧
    Reachable (exec single.consumer .raised) ClosedAfterData (init single.consumer) p ∧
    Sent (k + 1) p ∧ p.published = [("aggregation_0", first)] := by
  induction k with
  | zero =>
    have hinit : Sent 0 (init single.consumer) :=
      ⟨rfl, rfl, rfl, rfl,
        fun _ hin => by simp [Inbox.InFlight, init, Node.init, Handler.init] at hin, fun _ => rfl⟩
    obtain ⟨body, first, key, entry, p, he, hfirst, hentry, htasks, hpub, hsent⟩ :=
      hinit.deliver (by decide) oneWire_zero (show 0 < 2 ^ 32 by decide) (show 0 < 2 ^ 32 by decide)
        fun _ => le_rfl
    have hp := hsent rfl rfl
    have hdeliver : Reachable (exec single.consumer .raised) ClosedAfterData
        (init single.consumer) p :=
      .step .init (show ClosedAfterData _ (.deliver (.queue (.input body)) .returns)
        from trivial) he
    have hpublish := hdeliver.step (show ClosedAfterData p (.publish 0 true) from trivial)
      (exec_publish_last htasks)
    refine ⟨_, first, hfirst, hpublish,
      ⟨hp.pending, hp.opened, hp.aggSeq, hp.nextSeq, hp.inFlight, hp.unfinished⟩, ?_⟩
    dsimp only
    rw [hpub, hentry]
    rfl
  | succ k ih =>
    obtain ⟨p, first, hfirst, hreach, hp, hpub⟩ := ih (by omega)
    obtain ⟨body, -, key, entry, p', he, -, -, -, hpub', hsent⟩ :=
      hp.deliver (by omega) oneWire_one (show 0 < 2 ^ 32 by decide) (show k + 1 < 2 ^ 32 by omega)
        fun _ => le_rfl
    exact ⟨p', first, hfirst, hreach.step (show ClosedAfterData p
      (.deliver (.queue (.input body)) .returns) from trivial) he, hsent rfl rfl, hpub'.trans hpub⟩
end FilterQ5UsdConfig

/-! ## Towards the aggregators -/

/-- **Numbers towards the aggregators are not reused with different content**, as long as an append
that raises or is interrupted leaves the log as it was. For a sum this holds in every run, although
its counter is in memory only; for filter_q5_usd as long as at most `2 ^ 32` packets of the client
were logged, if clients are closed after their `DATA`. -/
theorem agg_seqs_not_reused :
    (∀ {π : Type} (cfg : SumConfig π) (s : Publisher.State (SumWorker π) SumChange),
      Reachable (execDisk cfg.consumer .logged) (DiskAllowed cfg.consumer fun _ _ => True)
        (init cfg.consumer) s → ∀ c, NoReuse c s.published) ∧
    ∀ (cfg : FilterQ5UsdConfig) (p : Publisher.State FilterQ5UsdState FilterQ5UsdChange),
      Reachable (execDisk cfg.consumer .raised)
        (DiskAllowed cfg.consumer FilterQ5UsdConfig.ClosedAfterData) (init cfg.consumer) p →
        ∀ c, (streamOf c (loggedPackets p.node.history)).length ≤ 2 ^ 32 → NoReuse c p.published :=
  ⟨fun _ _ h => SumConfig.noReuse_of_reachable (reachable_of_disk h),
    fun _ _ h _ hlen => FilterQ5UsdConfig.noReuse_of_reachable (reachable_of_disk h) hlen⟩

/-- The change of a replica that closes the client with its `EOF`. -/
def flushAlone : SumChange := .compound [.coordinatorUpstreamEof 7 0 0 0, .close 7]

/-- A sum without replicas and one aggregator. -/
def lonelySum : SumConfig Nat where
  id := 0
  sumAmount := 1
  sumPrefix := "sum"
  aggregationAmount := 1
  aggregationPrefix := "aggregation"
  snapshotInterval := 100
  sha256 := fun _ => []
  processor := ⟨0, fun n _ => n + 1, fun _ => .ok []⟩
  changeJson := .ofTable [(flushAlone, [1])]

def bytesOf (body : Except String Bytes) : Bytes :=
  match body with
  | .ok bs => bs
  | .error _ => []

/-- The upstream `EOF`. -/
def noBatches : Bytes := bytesOf do
  let payload ← ControlMessage.serialize { senderId := 5, expectedTotal := 0 }
  createAddressedPacket MessageType.eof.toNat 7 5 0 payload

/-- A batch of one wire. -/
def oneBatch : Bytes := bytesOf <|
  createAddressedPacket MessageType.data.toNat 7 5 0 (FilterQ5UsdConfig.payloadOf 0)

/-- Both fail to log their first input, take it again, publish its packet, die, the sum in the
middle of logging the end of the input, and publish it again. -/
theorem agg_seqs_not_reused_republished :
    (∃ s, Reachable (execDisk lonelySum.consumer .logged)
        (DiskAllowed lonelySum.consumer fun _ _ => True) (init lonelySum.consumer) s ∧
      s.published.length = 2 ∧ NoReuse 7 s.published) ∧
    ∃ p, Reachable (execDisk FilterQ5UsdConfig.single.consumer .raised)
      (DiskAllowed FilterQ5UsdConfig.single.consumer FilterQ5UsdConfig.ClosedAfterData)
      (init FilterQ5UsdConfig.single.consumer) p ∧ p.published.length = 2 ∧
      NoReuse 7 p.published := by
  constructor
  · have hrun : ((runAllowed (execDisk lonelySum.consumer .logged)
        (DiskAllowed lonelySum.consumer fun _ _ => True) (init lonelySum.consumer)
        [.spillInDeliver (.input noBatches) 0, .label (.deliver (.input noBatches) .returns),
          .label (.publish 0 true), .tearInCommit 0 0,
          .label (.republish true)]).map fun s => s.published.length) = some 2 := by
      decide +kernel
    obtain ⟨s, hs, hlen⟩ := Option.map_eq_some_iff.mp hrun
    have hreach := reachable_of_runAllowed .init hs
    exact ⟨s, hreach, hlen, agg_seqs_not_reused.1 lonelySum s hreach 7⟩
  · have hrun : ((runAllowed (execDisk FilterQ5UsdConfig.single.consumer .raised)
        (DiskAllowed FilterQ5UsdConfig.single.consumer FilterQ5UsdConfig.ClosedAfterData)
        (init FilterQ5UsdConfig.single.consumer)
        [.spillInDeliver (.queue (.input oneBatch)) 0,
          .label (.deliver (.queue (.input oneBatch)) .returns), .label (.publish 0 false),
          .label .crash, .label (.republish true)]).map fun p => (p.published.length,
            decide ((streamOf 7 (loggedPackets p.node.history)).length ≤ 2 ^ 32))) =
          some (2, true) := by
      decide +kernel
    obtain ⟨p, hp, hlen⟩ := Option.map_eq_some_iff.mp hrun
    have hreach := reachable_of_runAllowed .init hp
    obtain ⟨hlen, hfew⟩ := Prod.mk.inj hlen
    exact ⟨p, hreach, hlen,
      agg_seqs_not_reused.2 FilterQ5UsdConfig.single p hreach 7 (of_decide_eq_true hfew)⟩

open FilterQ5UsdConfig in
/-- After `2 ^ 32` packets of a client a number is used again. -/
theorem agg_seqs_reused : ¬ ((∀ {π : Type} (cfg : SumConfig π)
      (s : Publisher.State (SumWorker π) SumChange),
      Reachable (exec cfg.consumer .logged) (fun _ _ => True) (init cfg.consumer) s →
        ∀ c, NoReuse c s.published) ∧
    ∀ (cfg : FilterQ5UsdConfig) (p : Publisher.State FilterQ5UsdState FilterQ5UsdChange),
      Reachable (exec cfg.consumer .raised) ClosedAfterData (init cfg.consumer) p →
        ∀ c, NoReuse c p.published) := by
  rintro ⟨-, hclaim⟩
  obtain ⟨p, first, hfirst, hreach, hp, hpub⟩ := reachable_sent (2 ^ 32 - 1) (by decide)
  -- the first packet of another sender gets the number of the very first
  obtain ⟨body, second, key, entry, p', he, hsecond, hentry, htasks, hpub', -⟩ :=
    hp.deliver (by decide) oneWire_one (show 1 < 2 ^ 32 by decide) (show 0 < 2 ^ 32 by decide)
      fun h => absurd h (by decide)
  have hdeliver := hreach.step
    (show ClosedAfterData p (.deliver (.queue (.input body)) .returns) from trivial) he
  have hpublish :=
    hdeliver.step (show ClosedAfterData p' (.publish p.tasks.length true) from trivial)
    (exec_publish_last htasks)
  have hreuse := hclaim single _ hpublish 7
  dsimp only at hreuse
  rw [hpub', hpub, hentry] at hreuse
  have hsame : first = second := hreuse _ List.mem_cons_self _
    (List.mem_cons_of_mem _ List.mem_cons_self) _ _ (streamPacket?_create hfirst)
    (streamPacket?_create hsecond) rfl rfl rfl rfl rfl
  have hpayload := (unpackAddressedPacket_create hfirst).symm.trans
    (hsame ▸ unpackAddressedPacket_create hsecond)
  have hrows : payloadOf 0 = payloadOf 1 := congrArg Addressed.payload (Except.ok.inj hpayload)
  exact absurd hrows (by decide +kernel)

end MoneyLaundering
