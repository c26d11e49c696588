import MoneyLaundering.FaultTolerance.Unlogged
import MoneyLaundering.Filter.System
import MoneyLaundering.Workers.Aggregator
import MoneyLaundering.Workers.FilterQ5Usd
import MoneyLaundering.Workers.Sum

/-!
# An append that raises

`handle` mutates its own structures after the append only, so a `wal.append` that raises leaves the
inbox, the outbox and the sequencer as they were. The EOF handlers of the workers call the
coordinator, and some advance counters, in `business_fn`, which runs before the append: that stays,
and the redelivered message finds it. For each of these handlers, the states and messages for which
a failed append leaves no trace.
-/

namespace MoneyLaundering

open Bytes InternalProtocol

/-! ## The handler -/

namespace Node

variable {σ ς Δ : Type} {cfg : HandlerConfig σ ς Δ} {n : Node σ ς Δ} {write : Except String PUnit}
  {key : InputKey} {businessFn : BusinessFn σ Δ}

/-- A call of `handle` gets as far as `wal.append`, which raises. -/
def AppendRaises (cfg : HandlerConfig σ ς Δ) (n : Node σ ς Δ) (write : Except String PUnit)
    (key : InputKey) (businessFn : BusinessFn σ Δ) : Prop :=
  n.handler.inbox.classify key = .new ∧ ∃ change logical outputs e,
    businessFn n.handler.workerState = .ok (change, logical) ∧
    n.handler.sequencer.stamp cfg.toSequencerConfig key.clientId
      (cfg.msgId key) logical = .ok outputs ∧
    Handler.walAppend cfg write (.inputApplied (cfg.msgId key) key change outputs) = .error e

theorem AppendRaises.effect (h : n.AppendRaises cfg write key businessFn) :
    ∃ e, n.effect cfg write (.handle key businessFn) = .error e := by
  obtain ⟨hnew, change, logical, outputs, e, hb, hs, hw⟩ := h
  refine ⟨e, ?_⟩
  change n.handler.handle cfg write (cfg.msgId key) key businessFn = _
  unfold Handler.handle
  rw [hnew]
  dsimp only
  rw [hb, Except.ok_bind]
  dsimp only
  rw [hs, Except.ok_bind, hw]
  rfl

theorem AppendRaises.call (h : n.AppendRaises cfg write key businessFn) :
    n.call cfg write (.handle key businessFn) = n := by
  obtain ⟨e, he⟩ := h.effect
  unfold Node.call
  rw [he]

theorem mutate_eq_self_iff {f : σ → σ} :
    (n.mutate f).handler = n.handler ↔ f n.handler.workerState = n.handler.workerState := by
  constructor
  · intro h
    exact congrArg (fun h : Handler σ => h.workerState) h
  · intro h
    unfold mutate
    dsimp only
    rw [h]

end Node

namespace Consumer

variable {σ Δ μ : Type} {cfg : ConsumerConfig σ Δ μ} {s : State σ Δ} {message : μ}
  {write : Except String PUnit} {key : InputKey} {touched : σ}
  {result : Except String (Δ × List LogicalOutput)}

/-- The message is new, its handler passes it to `handle`, and there the append raises. -/
def AppendRaises (cfg : ConsumerConfig σ Δ μ) (s : State σ Δ) (message : μ)
    (write : Except String PUnit) : Prop :=
  ∃ key touched result, cfg.react s.node.handler.workerState message = .handle key touched result ∧
    (touchedNode s.node key touched).AppendRaises cfg.handler write key fun _ => result

/-- After the message inbox, outbox, sequencer and worker state are those from before, and the
redelivered message is handled as a first delivery would be. -/
structure NoTrace (cfg : ConsumerConfig σ Δ μ) (s : State σ Δ) (message : μ)
    (write : Except String PUnit) : Prop where
  handler : (deliver cfg s message write).node.handler = s.node.handler
  again : ∀ write', deliver cfg (deliver cfg s message write) message write' =
    deliver cfg s message write'

theorem deliver_of_appendRaises
    (hr : cfg.react s.node.handler.workerState message = .handle key touched result)
    (h : (touchedNode s.node key touched).AppendRaises cfg.handler write key fun _ => result) :
    deliver cfg s message write = { s with node := s.node.mutate fun _ => touched } := by
  have hnew : s.node.handler.inbox.classify key = .new := by
    have hc := h.1
    unfold touchedNode at hc
    split at hc
    · assumption
    · exact hc
  obtain ⟨e, he⟩ := h.effect
  unfold deliver
  rw [hr]
  dsimp only
  rw [he]
  dsimp only
  unfold touchedNode
  rw [if_pos hnew]

/-- Whether a message is new to its handler and gets as far as the append of its record. -/
def reachesAppend (cfg : ConsumerConfig σ Δ μ) (s : State σ Δ) (message : μ) : Bool :=
  match cfg.react s.node.handler.workerState message with
  | .handle key _ (.ok (_, logical)) =>
    decide (s.node.handler.inbox.classify key = .new) &&
      (s.node.handler.sequencer.stamp cfg.handler.toSequencerConfig key.clientId
        (cfg.handler.msgId key)
        logical).isOk
  | _ => false

theorem appendRaises_of_reachesAppend (h : reachesAppend cfg s message = true) (e : String) :
    AppendRaises cfg s message (.error e) := by
  unfold reachesAppend at h
  split at h
  · next key touched change logical hr =>
    simp only [Bool.and_eq_true, decide_eq_true_eq] at h
    obtain ⟨hnew, hs⟩ := h
    refine ⟨key, touched, .ok (change, logical), hr, ?_⟩
    unfold touchedNode
    rw [if_pos hnew]
    cases hstamp : s.node.handler.sequencer.stamp cfg.handler.toSequencerConfig key.clientId
        (cfg.handler.msgId key) logical with
    | error e' =>
      rw [hstamp] at hs
      cases hs
    | ok outputs =>
      cases hw : Handler.walAppend cfg.handler (.error e)
          (.inputApplied (cfg.handler.msgId key) key change outputs) with
      | error e' => exact ⟨hnew, change, logical, outputs, e', rfl, hstamp, hw⟩
      | ok bytes =>
        obtain ⟨_, -, hw⟩ := Except.ok_of_bind hw
        obtain ⟨_, hw, -⟩ := Except.ok_of_bind hw
        cases hw
  · cases h

/-- What `business_fn` touched is the whole trace. -/
theorem noTrace_iff (h : AppendRaises cfg s message write)
    (hr : cfg.react s.node.handler.workerState message = .handle key touched result) :
    NoTrace cfg s message write ↔ touched = s.node.handler.workerState := by
  obtain ⟨key', touched', result', hr', h⟩ := h
  cases hr.symm.trans hr'
  have hd := deliver_of_appendRaises hr h
  constructor
  · intro ht
    have hh := ht.handler
    rw [hd] at hh
    exact Node.mutate_eq_self_iff.mp hh
  · rintro rfl
    exact ⟨by rw [hd]; rfl, fun write' => by rw [hd]; rfl⟩

end Consumer

/-! ## Messages -/

/-- The body of an upstream `EOF`. -/
structure IsUpstreamEof (body : Bytes) (m : Addressed) (ctrl : ControlMessage) : Prop where
  unpacked : unpackAddressedPacket body = .ok m
  msgType : MessageType.ofNat? m.msgType = some .eof
  control : ControlMessage.deserialize m.payload = .ok ctrl

/-- The body of an `EOF_RECEIVED`. -/
def IsEofReceived (body : Bytes) (clientId : Nat) (ctrl : ControlMessage) : Prop :=
  EofCoordinator.parseMessage body = .ok (some .eofReceived, clientId, ctrl)

/-! ## The coordinator -/

namespace EofCoordinator

variable (cfg : CoordinatorConfig) {s : EofCoordinator}
    {clientId expectedTotal count forwarded : Nat}
  {ctrl : ControlMessage}

theorem onEofReceived_keeps_iff (s : EofCoordinator) (clientId : Nat) (ctrl : ControlMessage)
    (count forwarded : Nat) : (s.onEofReceived cfg clientId ctrl count forwarded).1 = s ↔
    s.pendingEof.contains clientId = true := by
  unfold onEofReceived
  split
  · next hc => exact ⟨fun _ => hc, fun _ => rfl⟩
  · next hc =>
    refine ⟨fun h => ?_, fun h => absurd h hc⟩
    have hp : s.pendingEof.set clientId (ctrl.expectedTotal, ctrl.senderId) = s.pendingEof :=
      congrArg pendingEof h
    rw [Dict.contains, Dict.set_eq_self_iff.mp hp, Option.isSome_some]

theorem onUpstreamEof_broadcast (hm : cfg.mode = .broadcast) (hn : 1 < cfg.totalInstances) :
    s.onUpstreamEof cfg clientId expectedTotal count forwarded =
      ({ s with leaderExpected := s.leaderExpected.set clientId expectedTotal },
        some (.broadcast (allControlQueues cfg)
          { msgType := .eofReceived, clientId
            ctrl := { senderId := cfg.instanceId, expectedTotal } } 0)) := by
  unfold onUpstreamEof
  rw [if_neg (Nat.not_le.mpr hn), hm]

theorem onUpstreamEof_single (hn : cfg.totalInstances ≤ 1) :
    s.onUpstreamEof cfg clientId expectedTotal count forwarded =
      (s, some (.flush true forwarded "")) := by
  unfold onUpstreamEof
  rw [if_pos hn]

theorem onUpstreamEof_flushOrder_keeps_iff (s : EofCoordinator)
    (clientId expectedTotal count forwarded : Nat) (hm : cfg.mode = .flushOrder) :
    (s.onUpstreamEof cfg clientId expectedTotal count forwarded).1 = s ↔
      cfg.totalInstances ≤ 1 ∨ clientId ∈ s.seenEof := by
  by_cases hn : cfg.totalInstances ≤ 1
  · rw [onUpstreamEof_single cfg hn]
    simp [hn]
  unfold onUpstreamEof
  rw [if_neg hn, hm]
  dsimp only
  split
  · next hseen => simp [hseen]
  · next hseen =>
    simp only [hn, hseen, or_self, iff_false]
    intro h
    have hs : insert clientId s.seenEof = s.seenEof := congrArg seenEof h
    exact hseen (hs ▸ Finset.mem_insert_self clientId s.seenEof)

end EofCoordinator

/-! ## Counters in memory -/

/-- `_next_agg_seq`, on the counters. -/
def advanceSeq (clientId : Nat) (seqs : Dict Nat Nat) : Dict Nat Nat :=
  seqs.set clientId ((seqs.getD clientId 0 + 1) % 2 ^ 32)

/-- A counter with this value, if it has one, is back where it was after so many steps. -/
def SeqReturns (value : Option Nat) (steps : Nat) : Prop :=
  steps = 0 ∨ ∃ v, value = some v ∧ (v + steps) % 2 ^ 32 = v

theorem advanceSeq_iterate (clientId : Nat) (seqs : Dict Nat Nat) (n : Nat) :
    (advanceSeq clientId)^[n + 1] seqs =
      seqs.set clientId ((seqs.getD clientId 0 + (n + 1)) % 2 ^ 32) := by
  induction n with
  | zero => rfl
  | succ n ih =>
    rw [Function.iterate_succ_apply', ih, advanceSeq, Dict.set_set, Dict.getD, Dict.get?_set_self,
      Option.getD_some, Nat.mod_add_mod]
    rfl

theorem advanceSeq_iterate_eq_iff {clientId : Nat} {seqs : Dict Nat Nat} {n : Nat} :
    (advanceSeq clientId)^[n] seqs = seqs ↔ SeqReturns (seqs.get? clientId) n := by
  cases n with
  | zero => simp [SeqReturns]
  | succ n =>
    rw [advanceSeq_iterate, Dict.set_eq_self_iff, SeqReturns, Dict.getD]
    cases hg : seqs.get? clientId with
    | none => simp
    | some v => simp [eq_comm]

/-- Where the code returns, it has advanced the counter of the client so often. -/
def CountingM.Advances {α : Type} (m : CountingM α) (clientId n : Nat) : Prop :=
  ∀ seqs a seqs', (m.run.run seqs : Except _ _ × Dict Nat Nat) = (.ok a, seqs') →
    seqs' = (advanceSeq clientId)^[n] seqs

namespace CountingM.Advances

variable {α β : Type} {clientId n k : Nat}

theorem pure (a : α) : Advances (Pure.pure a : CountingM α) clientId 0 := by
  intro seqs a' seqs' h
  exact (Prod.mk.inj h).2.symm

theorem lift (x : Except String α) : Advances (liftM x : CountingM α) clientId 0 := by
  intro seqs a' seqs' h
  exact (Prod.mk.inj h).2.symm

theorem bind {m : CountingM α} {f : α → CountingM β} (hm : Advances m clientId n)
    (hf : ∀ a, Advances (f a) clientId k) : Advances (m >>= f) clientId (k + n) := by
  intro seqs b seqs' h
  have hrun : ((m >>= f).run.run seqs : Except _ _ × Dict Nat Nat) =
      match (m.run.run seqs : Except _ _ × Dict Nat Nat) with
      | (.ok a, seqs₁) => (f a).run.run seqs₁
      | (.error e, seqs₁) => (.error e, seqs₁) := by
    rw [ExceptT.run_bind, StateT.run_bind]
    change (match (m.run.run seqs : Except _ _ × Dict Nat Nat) with | (x, seqs₁) => _) = _
    rcases (m.run.run seqs : Except _ _ × Dict Nat Nat) with ⟨_ | a, seqs₁⟩ <;> rfl
  rw [hrun] at h
  split at h
  · next a seqs₁ he =>
    rw [Function.iterate_add_apply, ← hm seqs a seqs₁ he]
    exact hf a seqs₁ b seqs' h
  · cases h

theorem mapM {f : α → CountingM β} (hf : ∀ a, Advances (f a) clientId 1) (xs : List α) :
    Advances (xs.mapM f) clientId xs.length := by
  induction xs with
  | nil =>
    rw [List.mapM_nil]
    exact pure _
  | cons x xs ih =>
    rw [List.mapM_cons]
    refine (hf x).bind fun b => ?_
    have hrest := ih.bind (f := fun bs => (Pure.pure (b :: bs) : CountingM _)) fun _ => pure _
    rwa [Nat.zero_add] at hrest

theorem nextAggSeq : Advances (SumConfig.nextAggSeq clientId) clientId 1 := by
  intro seqs a seqs' h
  exact (Prod.mk.inj h).2.symm

variable {π : Type} (cfg : SumConfig π)

theorem shardOutput (msgType : MessageType) (index : Nat) (payload : Bytes) :
    Advances (cfg.shardOutput msgType clientId index payload) clientId 1 :=
  nextAggSeq.bind (k := 0) fun _ => (lift _).bind (k := 0) fun _ => pure _

theorem partialsOutputs (partials : List (String × Bytes)) :
    Advances (cfg.partialsOutputs clientId partials) clientId partials.length :=
  mapM (fun _ => (lift _).bind (n := 0) fun _ => shardOutput cfg _ _ _) partials

theorem eofOutputs (totalForwarded : Nat) :
    Advances (cfg.eofOutputs clientId totalForwarded) clientId cfg.aggregationAmount := by
  refine (lift _).bind (n := 0) fun payload => ?_
  have h : Advances ((List.range cfg.aggregationAmount).mapM fun index =>
      cfg.shardOutput .eof clientId index payload) clientId
        (List.range cfg.aggregationAmount).length :=
    mapM (fun index => shardOutput cfg .eof index payload) _
  rwa [List.length_range] at h

end CountingM.Advances

/-- What a call of `handle` that gets past `business_fn` touched before. -/
theorem SumWorker.touched_of_handleWith {π : Type} {w touched : SumWorker π} {key key' : InputKey}
    {coordinator : EofCoordinator} {business : CountingM (SumChange × List LogicalOutput)}
    {result : SumChange × List LogicalOutput} (clientId n : Nat)
    (h : w.handleWith key coordinator business = .handle key' touched (.ok result))
    (hb : business.Advances clientId n) :
    touched = { state := { w.state with coordinator }
                aggSeqByClient := (advanceSeq clientId)^[n] w.aggSeqByClient } := by
  unfold SumWorker.handleWith at h
  obtain ⟨rfl, rfl, hres⟩ := Reaction.handle.inj h
  have hseqs := hb w.aggSeqByClient result (business.run.run w.aggSeqByClient).2 (Prod.ext hres rfl)
  rw [← hseqs]
  rfl

/-! ## The conditions -/

/-- The upstream `EOF` finds the coordinator of the sum as it would leave it, and a single replica,
which flushes at once, numbers nothing or as many packets as there are numbers. -/
def SumConfig.UpstreamEofKeeps {π : Type} (cfg : SumConfig π) (w : SumWorker π)
    (clientId expectedTotal : Nat) : Prop :=
  if 1 < cfg.sumAmount then w.state.coordinator.leaderExpected.get? clientId = some expectedTotal
  else ∀ partials, w.state.partialsFor cfg clientId = .ok partials →
    SeqReturns (w.aggSeqByClient.get? clientId) (partials.length + cfg.aggregationAmount)

/-- The upstream `EOF` of the client was seen, or nobody else counts. -/
def AggregatorConfig.UpstreamEofKeeps {π : Type} (cfg : AggregatorConfig π) (s : AggregatorState π)
    (clientId : Nat) : Prop :=
  cfg.aggregationAmount ≤ 1 ∨ clientId ∈ s.coordinator.seenEof

/-- The upstream `EOF` finds the coordinator as it would leave it. -/
def FilterQ5UsdConfig.UpstreamEofKeeps (cfg : FilterQ5UsdConfig) (s : FilterQ5UsdState)
    (clientId expectedTotal : Nat) : Prop :=
  cfg.filterQ5UsdAmount ≤ 1 ∨ s.coordinator.leaderExpected.get? clientId = some expectedTotal

namespace Consumer

variable {π : Type} {body : Bytes} {m : Addressed} {ctrl : ControlMessage} {clientId : Nat}
  {write : Except String PUnit}

theorem react_upstreamEof_sum {cfg : SumConfig π} {w : SumWorker π}
    (h : IsUpstreamEof body m ctrl) :
    cfg.consumer.react w (.input body) = cfg.handleUpstreamEof w m := by
  change cfg.processMessage w body = _
  unfold SumConfig.processMessage
  rw [h.unpacked]
  dsimp only
  rw [h.msgType]

theorem noTrace_sum_upstreamEof {cfg : SumConfig π} {s : State (SumWorker π) SumChange}
    (h : IsUpstreamEof body m ctrl) (ha : AppendRaises cfg.consumer s (.input body) write) :
    NoTrace cfg.consumer s (.input body) write ↔
      cfg.UpstreamEofKeeps s.node.handler.workerState m.clientId ctrl.expectedTotal := by
  obtain ⟨key, touched, result, hr, hn⟩ := id ha
  rw [noTrace_iff ha hr]
  obtain ⟨-, change, logical, -, -, rfl, -⟩ := hn
  generalize s.node.handler.workerState = w at hr ⊢
  rw [react_upstreamEof_sum h] at hr
  unfold SumConfig.handleUpstreamEof at hr
  rw [h.control] at hr
  dsimp only at hr
  split at hr
  · cases hr
  unfold SumConfig.UpstreamEofKeeps
  split
  · next hone =>
    -- the change is logged with the broadcast, and no packet is numbered
    rw [EofCoordinator.onUpstreamEof_broadcast cfg.coordinator rfl hone] at hr
    have htouched := SumWorker.touched_of_handleWith m.clientId 0 hr
      ((CountingM.Advances.lift _).bind (n := 0) (k := 0) fun _ => .pure _)
    rw [htouched, ← Dict.set_eq_self_iff]
    constructor
    · exact fun ht => congrArg (fun w => w.state.coordinator.leaderExpected) ht
    · intro ht
      rw [ht]
      rfl
  · next hone =>
    rw [EofCoordinator.onUpstreamEof_single cfg.coordinator (Nat.not_lt.mp hone)] at hr
    dsimp only at hr
    cases hp : w.state.partialsFor cfg m.clientId with
    | error e =>
      rw [hp] at hr
      cases (Reaction.handle.inj hr).2.2
    | ok partials =>
      rw [hp] at hr
      have htouched := SumWorker.touched_of_handleWith m.clientId
        (0 + cfg.aggregationAmount + partials.length) hr
        ((CountingM.Advances.partialsOutputs cfg partials).bind fun _ =>
          (CountingM.Advances.eofOutputs cfg partials.length).bind fun _ => .pure _)
      rw [Nat.zero_add] at htouched
      rw [htouched]
      simp only [Except.ok.injEq, forall_eq', Nat.add_comm partials.length,
        ← advanceSeq_iterate_eq_iff]
      constructor
      · exact fun ht => congrArg SumWorker.aggSeqByClient ht
      · intro ht
        rw [ht]

theorem noTrace_sum_eofReceived {cfg : SumConfig π} {s : State (SumWorker π) SumChange}
    (h : IsEofReceived body clientId ctrl)
    (ha : AppendRaises cfg.consumer s (.control body) write) :
    NoTrace cfg.consumer s (.control body) write ↔
      s.node.handler.workerState.state.coordinator.pendingEof.contains clientId = true := by
  obtain ⟨key, touched, result, hr, hn⟩ := id ha
  rw [noTrace_iff ha hr]
  obtain ⟨-, change, logical, -, -, rfl, -⟩ := hn
  generalize s.node.handler.workerState = w at hr ⊢
  have hreact : cfg.consumer.react w (.control body) = cfg.handleEofReceived w clientId ctrl := by
    change cfg.handleControl w body = _
    unfold SumConfig.handleControl
    rw [h]
  rw [hreact] at hr
  unfold SumConfig.handleEofReceived at hr
  rw [← EofCoordinator.onEofReceived_keeps_iff cfg.coordinator w.state.coordinator clientId ctrl
    (w.state.processedCount clientId) (w.state.processedCount clientId)]
  have htouched := SumWorker.touched_of_handleWith clientId 0 hr (by
    split
    · exact (CountingM.Advances.lift _).bind (n := 0) (k := 0) fun _ => .pure _
    · exact .pure _)
  rw [htouched]
  constructor
  · exact fun ht => congrArg (fun w => w.state.coordinator) ht
  · intro ht
    change {
      state := { w.state with coordinator := (w.state.coordinator.onEofReceived _ _ _ _ _).1 },
             aggSeqByClient := w.aggSeqByClient } = w
    rw [ht]

theorem noTrace_aggregator_upstreamEof {cfg : AggregatorConfig π}
    {s : State (AggregatorState π) AggregatorChange} (h : IsUpstreamEof body m ctrl)
    (ha : AppendRaises cfg.consumer s (.input body) write) :
    NoTrace cfg.consumer s (.input body) write ↔
      cfg.UpstreamEofKeeps s.node.handler.workerState m.clientId := by
  obtain ⟨key, touched, result, hr, hn⟩ := id ha
  rw [noTrace_iff ha hr]
  generalize s.node.handler.workerState = w at hr ⊢
  have hreact : cfg.consumer.react w (.input body) = cfg.handleUpstreamEof w m := by
    change cfg.processDataMessage w body = _
    unfold AggregatorConfig.processDataMessage
    rw [h.unpacked]
    dsimp only
    rw [h.msgType]
  rw [hreact] at hr
  unfold AggregatorConfig.handleUpstreamEof at hr
  rw [h.control] at hr
  dsimp only at hr
  split at hr
  · cases hr
  obtain ⟨-, rfl, -⟩ := Reaction.handle.inj hr
  unfold AggregatorConfig.UpstreamEofKeeps
  change _ ↔ cfg.coordinator.totalInstances ≤ 1 ∨ _
  rw [← EofCoordinator.onUpstreamEof_flushOrder_keeps_iff cfg.coordinator w.coordinator m.clientId
    ctrl.expectedTotal (w.dataCount m.clientId) 0 rfl]
  constructor
  · exact fun ht => congrArg AggregatorState.coordinator ht
  · intro ht
    rw [ht]

/-- The aggregator answers nothing to an `EOF_RECEIVED`, and logs nothing. -/
theorem not_appendRaises_aggregator_eofReceived {cfg : AggregatorConfig π}
    {s : State (AggregatorState π) AggregatorChange} (h : IsEofReceived body clientId ctrl) :
    ¬ AppendRaises cfg.consumer s (.control body) write := by
  rintro ⟨key, touched, result, hr, -⟩
  change cfg.handleControl _ body = _ at hr
  unfold AggregatorConfig.handleControl at hr
  rw [h] at hr
  cases hr

theorem noTrace_filterQ5Usd_upstreamEof {cfg : FilterQ5UsdConfig}
    {s : State FilterQ5UsdState FilterQ5UsdChange} (h : IsUpstreamEof body m ctrl)
    (ha : AppendRaises cfg.consumer s (.queue (.input body)) write) :
    NoTrace cfg.consumer s (.queue (.input body)) write ↔
      cfg.UpstreamEofKeeps s.node.handler.workerState m.clientId ctrl.expectedTotal := by
  obtain ⟨key, touched, result, hr, hn⟩ := id ha
  rw [noTrace_iff ha hr]
  generalize s.node.handler.workerState = w at hr ⊢
  have hreact : cfg.consumer.react w (.queue (.input body)) = cfg.handleUpstreamEof w m := by
    change cfg.processDataMessage w body = _
    unfold FilterQ5UsdConfig.processDataMessage
    rw [h.unpacked]
    dsimp only
    rw [h.msgType]
  rw [hreact] at hr
  unfold FilterQ5UsdConfig.handleUpstreamEof at hr
  rw [h.control] at hr
  dsimp only at hr
  split at hr
  · cases hr
  obtain ⟨-, rfl, -⟩ := Reaction.handle.inj hr
  unfold FilterQ5UsdConfig.UpstreamEofKeeps
  rcases Nat.lt_or_ge 1 cfg.filterQ5UsdAmount with hone | hone
  · rw [EofCoordinator.onUpstreamEof_broadcast cfg.coordinator rfl hone, ← Dict.set_eq_self_iff]
    constructor
    · exact fun ht => .inr (congrArg (fun w => w.coordinator.leaderExpected) ht)
    · intro ht
      rw [ht.resolve_left (Nat.not_le.mpr hone)]
  · rw [EofCoordinator.onUpstreamEof_single cfg.coordinator hone]
    exact ⟨fun _ => .inl hone, fun _ => rfl⟩

theorem noTrace_filterQ5Usd_eofReceived {cfg : FilterQ5UsdConfig}
    {s : State FilterQ5UsdState FilterQ5UsdChange} (h : IsEofReceived body clientId ctrl)
    (ha : AppendRaises cfg.consumer s (.queue (.control body)) write) :
    NoTrace cfg.consumer s (.queue (.control body)) write ↔
      s.node.handler.workerState.coordinator.pendingEof.contains clientId = true := by
  obtain ⟨key, touched, result, hr, hn⟩ := id ha
  rw [noTrace_iff ha hr]
  generalize s.node.handler.workerState = w at hr ⊢
  change cfg.handleControl w body = _ at hr
  unfold FilterQ5UsdConfig.handleControl at hr
  rw [h] at hr
  dsimp only at hr
  split at hr
  · cases hr
  have htouched : { w with coordinator := (w.coordinator.onEofReceived cfg.coordinator clientId ctrl
      (w.processedCount clientId) (w.forwardedCount clientId)).1 } = touched :=
    (Reaction.handle.inj hr).2.1
  rw [← htouched,
    ← EofCoordinator.onEofReceived_keeps_iff cfg.coordinator w.coordinator clientId ctrl
    (w.processedCount clientId) (w.forwardedCount clientId)]
  constructor
  · exact fun ht => congrArg FilterQ5UsdState.coordinator ht
  · intro ht
    rw [ht]

end Consumer

/-! ## The filter -/

namespace FilterConfig

variable (cfg : FilterConfig)

/-- An addressed output that is no edge: `_next_sum_seq` numbers its packets. -/
def numbersByHand (outputName : String) : Bool :=
  (cfg.outputEdges.get? outputName).isNone && decide (outputName ∈ cfg.addressedOutputs)

/-- The counters after `_output_packet` for one packet after the other. -/
def sumSeqAfter (packets : List Packet) (sumSeq : String → Nat) : String → Nat :=
  packets.foldl (fun seqs p =>
    if cfg.numbersByHand p.destination then
      Function.update seqs p.destination ((seqs p.destination + 1) % 2 ^ 32)
    else seqs) sumSeq

/-- The packets that `bfn` of `_handle_upstream_eof` builds: a single replica flushes at once. -/
def upstreamEofPackets (s : FilterState) (clientId : Nat) : List Packet :=
  if 1 < cfg.filterAmount then []
  else drainPackets s clientId ++ (cfg.eofPackets (s.forwardedByOutput clientId)).toOption.getD []

/-- Nothing that the upstream `EOF` sends is numbered by hand, up to rounds through all numbers. -/
def UpstreamEofKeeps (s : FilterState) (clientId : Nat) (sumSeq : String → Nat) : Prop :=
  ∀ name, cfg.numbersByHand name = true → SeqReturns (some (sumSeq name))
    ((cfg.upstreamEofPackets s clientId).countP fun p => p.destination = name)

theorem iterate_succ_mod (v n : Nat) :
    (fun v => (v + 1) % 2 ^ 32)^[n + 1] v = (v + (n + 1)) % 2 ^ 32 := by
  induction n with
  | zero => rfl
  | succ n ih =>
    rw [Function.iterate_succ_apply', ih, Nat.mod_add_mod]
    rfl

theorem iterate_succ_mod_eq_iff {v n : Nat} :
    (fun v => (v + 1) % 2 ^ 32)^[n] v = v ↔ SeqReturns (some v) n := by
  cases n with
  | zero => simp [SeqReturns]
  | succ n =>
    rw [iterate_succ_mod]
    simp [SeqReturns]

theorem sumSeqAfter_apply (packets : List Packet) (sumSeq : String → Nat) (name : String) :
    cfg.sumSeqAfter packets sumSeq name =
      if cfg.numbersByHand name = true then
        (fun v => (v + 1) % 2 ^ 32)^[packets.countP fun p => p.destination = name] (sumSeq name)
      else sumSeq name := by
  induction packets generalizing sumSeq with
  | nil => simp [sumSeqAfter]
  | cons p packets ih =>
    rw [sumSeqAfter, List.foldl_cons]
    refine (ih _).trans ?_
    by_cases hp : p.destination = name
    · subst hp
      by_cases hb : cfg.numbersByHand p.destination = true
      · simp [hb, Function.iterate_succ_apply]
      · simp [hb]
    · have hp' : name ≠ p.destination := Ne.symm hp
      split <;> split <;> simp [hp, hp']

theorem sumSeqAfter_eq_iff {packets : List Packet} {sumSeq : String → Nat} :
    cfg.sumSeqAfter packets sumSeq = sumSeq ↔ ∀ name, cfg.numbersByHand name = true →
      SeqReturns (some (sumSeq name)) (packets.countP fun p => p.destination = name) := by
  rw [funext_iff]
  refine forall_congr' fun name => ?_
  rw [sumSeqAfter_apply, ← iterate_succ_mod_eq_iff]
  split
  · next hb => simp [hb]
  · next hb => simp [hb]

end FilterConfig

namespace FilterWorker

open FilterConfig

variable {cfg : FilterConfig} {w : FilterWorker} {act : FilterAct}
    {outcome : Outcome} {body : Bytes}
  {m : Addressed} {ctrl : ControlMessage} {clientId : Nat} {sumSeq : String → Nat}

/-- The message is new, its handler passes it to `handle`, and there the append raises. -/
def AppendRaises (cfg : FilterConfig) (w : FilterWorker) (act : FilterAct) (outcome : Outcome) :
    Prop :=
  outcome.isCrash = false ∧ ∃ key businessFn, (w.sectionOf cfg act).call =
  some (.handle key businessFn) ∧
    (w.prepared cfg act).AppendRaises cfg.handler outcome.write key businessFn

/-- After the message the durable handler and the counters of the outputs are those from before, and
the redelivered message is handled as a first delivery would be. -/
structure NoTrace (cfg : FilterConfig) (w : FilterWorker) (d : Delivery)
    (sumSeq after : String → Nat) (outcome : Outcome) : Prop where
  handler : ∀ w', w.exec cfg (.deliver d sumSeq) outcome = some w' →
    w'.node.handler = w.node.handler
  counters : after = sumSeq
  again : ∀ w', w.exec cfg (.deliver d sumSeq) outcome = some w' →
    ∀ outcome', w'.exec cfg (.deliver d after) outcome' = w.exec cfg (.deliver d sumSeq) outcome'

theorem exec_of_appendRaises (h : AppendRaises cfg w act outcome) :
    w.exec cfg act outcome = some { w with node := w.prepared cfg act } := by
  obtain ⟨hcrash, key, businessFn, hc, ha⟩ := h
  have hrun : runSection cfg (w.prepared cfg act) (w.sectionOf cfg act).call outcome =
      .ok (w.prepared cfg act) := by
    rw [hc]
    cases outcome with
    | returns => exact congrArg Except.ok ha.call
    | appendFails => exact congrArg Except.ok ha.call
    | crashes => cases hcrash
  unfold exec
  rw [hrun]
  dsimp only
  have hh : ¬ w.node.history.length < (w.prepared cfg act).history.length := lt_irrefl _
  rw [if_neg hh]

/-- What the section did to the coordinator is the whole trace, apart from the counters. -/
theorem noTrace_iff {d : Delivery} {after : String → Nat}
    (h : AppendRaises cfg w (.deliver d sumSeq) outcome) :
    NoTrace cfg w d sumSeq after outcome ↔
      (w.sectionOf cfg (.deliver d sumSeq)).mutate w.state.coordinator = w.state.coordinator ∧
        after = sumSeq := by
  have he := exec_of_appendRaises h
  constructor
  · intro ht
    have hh := Node.mutate_eq_self_iff.mp (ht.handler _ he)
    exact ⟨congrArg FilterState.coordinator hh, ht.counters⟩
  · rintro ⟨hm, rfl⟩
    have hp : w.prepared cfg (.deliver d after) = w.node := by
      unfold prepared Node.mutate
      dsimp only
      rw [show w.node.handler.workerState.coordinator = w.state.coordinator from rfl, hm]
      rfl
    refine ⟨fun w' hw => ?_, rfl, fun w' hw outcome' => ?_⟩
    · cases he.symm.trans hw
      exact congrArg Node.handler hp
    · cases he.symm.trans hw
      rw [hp]

theorem noTrace_upstreamEof (ha : AppendRaises cfg w (.deliver (.input body) sumSeq) outcome) :
    NoTrace cfg w (.input body) sumSeq
        (cfg.sumSeqAfter (cfg.upstreamEofPackets w.state clientId) sumSeq) outcome ↔
      cfg.UpstreamEofKeeps w.state clientId sumSeq := by
  rw [noTrace_iff ha]
  have hm : (w.sectionOf cfg (.deliver (.input body) sumSeq)).mutate = fun s => s :=
    mutate_onInputMessage cfg _ sumSeq body
  rw [hm, UpstreamEofKeeps, ← sumSeqAfter_eq_iff]
  exact and_iff_right rfl

theorem noTrace_eofReceived (h : IsEofReceived body clientId ctrl)
    (ha : AppendRaises cfg w (.deliver (.control body) sumSeq) outcome) :
    NoTrace cfg w (.control body) sumSeq sumSeq outcome ↔
      w.state.coordinator.pendingEof.contains clientId = true := by
  rw [noTrace_iff ha]
  obtain ⟨-, key, businessFn, hc, hnew, -⟩ := ha
  obtain ⟨payload, hu, hd⟩ := EofCoordinator.unpacked_of_parseMessage h
  have hsection : w.sectionOf cfg (.deliver (.control body) sumSeq) =
      cfg.handleEofReceived w.node.handler clientId ctrl := by
    change cfg.handleControl w.node.handler sumSeq body = _
    unfold handleControl
    rw [hu]
    dsimp only
    rw [hd]
    dsimp only
    rw [MessageType.ofNat?_toNat]
  rw [hsection] at hc ⊢
  obtain ⟨rfl, -⟩ := Call.handle.inj (Option.some.inj hc)
  have hmutate : (cfg.handleEofReceived w.node.handler clientId ctrl).mutate w.state.coordinator =
      (w.state.coordinator.onEofReceived cfg.coordinator clientId ctrl
        (w.state.processedCount clientId)
        ((w.state.forwardedByOutput clientId).entries.map Prod.snd).sum).1 := if_pos hnew
  rw [hmutate,
    ← EofCoordinator.onEofReceived_keeps_iff cfg.coordinator w.state.coordinator clientId ctrl
    (w.state.processedCount clientId)
      ((w.state.forwardedByOutput clientId).entries.map Prod.snd).sum]
  exact and_iff_left rfl

end FilterWorker

/-- **A failed append leaves no trace** in exactly these cases, for the handlers of the upstream
`EOF` and of `EOF_RECEIVED`: the coordinator already stands where the message would put it, and no
packet was numbered by a counter in memory. The aggregator logs no `EOF_RECEIVED`. -/
theorem failed_append_leaves_no_trace_iff (π : Type) (body : Bytes) :
    (∀ m ctrl, IsUpstreamEof body m ctrl →
      (∀ (cfg : SumConfig π) s write, Consumer.AppendRaises cfg.consumer s (.input body) write →
        (Consumer.NoTrace cfg.consumer s (.input body) write ↔
          cfg.UpstreamEofKeeps s.node.handler.workerState m.clientId ctrl.expectedTotal)) ∧
      (∀ (cfg : AggregatorConfig π) s write,
        Consumer.AppendRaises cfg.consumer s (.input body) write →
        (Consumer.NoTrace cfg.consumer s (.input body) write ↔
          cfg.UpstreamEofKeeps s.node.handler.workerState m.clientId)) ∧
      (∀ (cfg : FilterQ5UsdConfig) s write,
        Consumer.AppendRaises cfg.consumer s (.queue (.input body)) write →
        (Consumer.NoTrace cfg.consumer s (.queue (.input body)) write ↔
          cfg.UpstreamEofKeeps s.node.handler.workerState m.clientId ctrl.expectedTotal)) ∧
      (∀ (cfg : FilterConfig) (w : FilterWorker) sumSeq outcome,
        w.AppendRaises cfg (.deliver (.input body) sumSeq) outcome →
        (w.NoTrace cfg (.input body) sumSeq
            (cfg.sumSeqAfter (cfg.upstreamEofPackets w.state m.clientId) sumSeq) outcome ↔
          cfg.UpstreamEofKeeps w.state m.clientId sumSeq))) ∧
    (∀ clientId ctrl, IsEofReceived body clientId ctrl →
      (∀ (cfg : SumConfig π) s write, Consumer.AppendRaises cfg.consumer s (.control body) write →
        (Consumer.NoTrace cfg.consumer s (.control body) write ↔
          s.node.handler.workerState.state.coordinator.pendingEof.contains clientId = true)) ∧
      (∀ (cfg : AggregatorConfig π) s write,
        ¬ Consumer.AppendRaises cfg.consumer s (.control body) write) ∧
      (∀ (cfg : FilterQ5UsdConfig) s write,
        Consumer.AppendRaises cfg.consumer s (.queue (.control body)) write →
        (Consumer.NoTrace cfg.consumer s (.queue (.control body)) write ↔
          s.node.handler.workerState.coordinator.pendingEof.contains clientId = true)) ∧
      (∀ (cfg : FilterConfig) (w : FilterWorker) sumSeq outcome,
        w.AppendRaises cfg (.deliver (.control body) sumSeq) outcome →
        (w.NoTrace cfg (.control body) sumSeq sumSeq outcome ↔
          w.state.coordinator.pendingEof.contains clientId = true))) := by
  refine ⟨fun m ctrl h => ⟨?_, ?_, ?_, ?_⟩, fun clientId ctrl h => ⟨?_, ?_, ?_, ?_⟩⟩
  · exact fun cfg s write ha => Consumer.noTrace_sum_upstreamEof h ha
  · exact fun cfg s write ha => Consumer.noTrace_aggregator_upstreamEof h ha
  · exact fun cfg s write ha => Consumer.noTrace_filterQ5Usd_upstreamEof h ha
  · exact fun cfg w sumSeq outcome ha => FilterWorker.noTrace_upstreamEof ha
  · exact fun cfg s write ha => Consumer.noTrace_sum_eofReceived h ha
  · exact fun cfg s write => Consumer.not_appendRaises_aggregator_eofReceived h
  · exact fun cfg s write ha => Consumer.noTrace_filterQ5Usd_eofReceived h ha
  · exact fun cfg w sumSeq outcome ha => FilterWorker.noTrace_eofReceived h ha

/-! A sum of two replicas learns from replica 1 that 10 messages of client 7 are expected, and a
single aggregator gets the EOF of that client. -/

def firstOfTwoSums : SumConfig Unit where
  id := 0
  sumAmount := 2
  sumPrefix := "sum_q2"
  aggregationAmount := 1
  aggregationPrefix := "aggregation_q2"
  snapshotInterval := 1000
  sha256 _ := []
  processor := ⟨(), fun _ _ => (), fun _ => .ok []⟩
  changeJson := .ofTable [(.single (.coordinatorMsg .eofReceived 7 ⟨1, 10, 0⟩ 0 0), [1])]

def onlyAggregator : AggregatorConfig Unit where
  id := 0
  aggregationAmount := 1
  aggregationPrefix := "aggregation_q2"
  outputQueue := "joiner_q2"
  snapshotInterval := 1000
  sha256 _ := []
  processor := ⟨(), fun _ _ => (), fun _ => .ok []⟩
  changeJson := .ofTable []

def tenExpected : Bytes :=
  (ControlPacket.toBytes ⟨.eofReceived, 7, ⟨1, 10, 0⟩⟩).toOption.getD []

def upstreamEnd : Bytes :=
  (createAddressedPacket MessageType.eof.toNat 7 1 0
    ((ControlMessage.serialize ⟨1, 10, 0⟩).toOption.getD [])).toOption.getD []

/-- The single aggregator is as it was. -/
theorem single_aggregator_without_trace :
    Consumer.NoTrace onlyAggregator.consumer (Consumer.init onlyAggregator.consumer)
    (.input upstreamEnd)
      (.error "no space left on device") := by
  have hbody : IsUpstreamEof upstreamEnd ⟨1, 7, 1, 0, upstreamEnd.drop 25⟩ ⟨1, 10, 0⟩ :=
    ⟨by decide +kernel, by decide +kernel, by decide +kernel⟩
  have hraises :
      Consumer.AppendRaises onlyAggregator.consumer (Consumer.init onlyAggregator.consumer)
      (.input upstreamEnd) (.error "no space left on device") :=
    Consumer.appendRaises_of_reachesAppend (by decide +kernel) _
  exact (((failed_append_leaves_no_trace_iff Unit upstreamEnd).1 _ _ hbody).2.1 onlyAggregator _ _
    hraises).mpr (.inl le_rfl)

/-- The answer of the replica to `EOF_RECEIVED` is lost: the redelivered message finds the EOF
pending. -/
theorem answer_lost_by_failed_append :
    ¬ ∀ (cfg : SumConfig Unit) (s : Consumer.State (SumWorker Unit) SumChange) (body : Bytes)
      (clientId : Nat) (ctrl : ControlMessage) (write : Except String PUnit),
      Transition.Reachable (Consumer.exec cfg.consumer) (fun _ _ => True)
        (Consumer.init cfg.consumer) s →
      IsEofReceived body clientId ctrl →
      Consumer.AppendRaises cfg.consumer s (.control body) write →
      Consumer.NoTrace cfg.consumer s (.control body) write := by
  intro h
  have ht := h firstOfTwoSums (Consumer.init firstOfTwoSums.consumer) tenExpected 7 ⟨1, 10, 0⟩
    (.error "no space left on device") .init (by unfold IsEofReceived; decide +kernel)
    (Consumer.appendRaises_of_reachesAppend (by decide +kernel) _)
  have hagain := congrArg Consumer.State.tasks (ht.again (.ok ⟨⟩))
  exact absurd hagain (by decide +kernel)

end MoneyLaundering
