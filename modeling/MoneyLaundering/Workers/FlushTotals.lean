import MoneyLaundering.Eof.FlushTotals
import MoneyLaundering.FaultTolerance.ConsumerCrashes
import MoneyLaundering.Workers.IngestorLog
import MoneyLaundering.Workers.Sum

/-!
# The flush totals of the file ingestor and the sum

Both predict the last `FLUSH_ACK` from read-only accessors of the coordinator before the log gets
the ack, and write the total of the downstream EOF by that prediction. Along every run, with crashes
at any durable step, the prediction is the answer that the coordinator gives when the change is
applied or replayed.

The ingestor takes the acks of clients that it leads. The sum does not look, so its runs are those
in which a `FLUSH_ACK` comes to a leader: to a replica whose log has the upstream EOF of the client.
-/

namespace MoneyLaundering

open Bytes EofCoordinator Transition

/-! ## The file ingestor -/

namespace FileIngestorConfig

variable (cfg : FileIngestorConfig)

def flushStep : FileIngestorChange → Option FlushStep
  | .worker change => change.flushStep
  | .abort clientId => some (.close clientId)

variable {cfg} {w : FileIngestorState} {key : InputKey} {change : FileIngestorChange}
  {outputs : List LogicalOutput}

theorem applyOp_flush (w : FileIngestorState) (op : WorkerOp Nat) :
    (w.applyOp cfg op).coordinator = op.applyCoordinator cfg.coordinator w.coordinator ∧
      (w.applyOp cfg op).closedByClient = WorkerChange.closedBy w.closedByClient op := by
  cases op with
  | data clientId n =>
    dsimp only [FileIngestorState.applyOp, FileIngestorState.applyData]
    split
    · exact ⟨rfl, rfl⟩
    · exact ⟨rfl, rfl⟩
  | close | coordinatorUpstreamEof | coordinatorMsg | coordinatorCleanup => exact ⟨rfl, rfl⟩

theorem applyChange_worker (w : FileIngestorState) (change : WorkerChange Nat) :
    (w.applyChange cfg (.worker change)).coordinator =
        change.coordinatorAfter cfg.coordinator w.coordinator ∧
      (w.applyChange cfg (.worker change)).closedByClient = change.closedAfter w.closedByClient :=
  WorkerChange.foldl_applyOp (σ := FileIngestorState) applyOp_flush w change

theorem advances_abort (w : FileIngestorState) (c : Nat) :
    Advances cfg.coordinator (.close c) w.coordinator (w.applyChange cfg (.abort c)).coordinator
      w.closedByClient (w.applyChange cfg (.abort c)).closedByClient := by
  refine WorkerChange.advances_close (fun c' hc => ?_) (fun c' hc => ?_) fun c' hc => ?_
  · simp [isLeaderHere, FileIngestorConfig.coordinator, FileIngestorState.applyChange,
      FileIngestorState.applyClose, cleanupLeaderState, cleanupClient, Dict.contains,
        Dict.get?_erase, hc]
  · simp [FileIngestorState.applyChange, FileIngestorState.applyClose, cleanupLeaderState,
      cleanupClient, Dict.getD_erase, hc]
  · simp [FileIngestorState.applyChange, FileIngestorState.applyClose, cleanupLeaderState,
      cleanupClient, Dict.getD_erase, hc]

variable (cfg) in
def flushing (hN : 2 ≤ cfg.totalInstances) : Flushing cfg.handler where
  coordinator := cfg.coordinator
  replicas := hN
  coordinatorOf w := w.coordinator
  closedOf w := w.closedByClient
  step := flushStep
  fresh := ⟨rfl, rfl⟩
  advances w change step hs hne := by
    cases change with
    | worker change =>
      change Advances _ _ w.coordinator (w.applyChange cfg (.worker change)).coordinator
        w.closedByClient (w.applyChange cfg (.worker change)).closedByClient
      rw [(applyChange_worker w change).1, (applyChange_worker w change).2]
      exact WorkerChange.advances rfl hN hs hne
    | abort c =>
      cases hs
      exact advances_abort w c
  acks w change c ctrl last hs := by
    cases change with
    | worker change =>
      obtain ⟨hc, hclosed⟩ := @applyChange_worker cfg w change
      change (w.applyChange cfg (.worker change)).coordinator = _ ∧
        (w.applyChange cfg (.worker change)).closedByClient = _
      rw [hc, hclosed]
      exact WorkerChange.counts_ack hs
    | abort c' => cases hs

/-- The EOF total that the outputs of an ack carry. -/
def EofTotal (cfg : FileIngestorConfig) (w : FileIngestorState) (c acked : Nat) (last : Bool)
    (outputs : List LogicalOutput) : Prop :=
  if last then cfg.downstreamEofOutputs c (acked + w.processedCount c) = .ok outputs
    else outputs = []

/-- What a handler logs has a meaning, and an ack is predicted by what the coordinator holds. -/
theorem flushStep_of_logs (hN : 2 ≤ cfg.totalInstances) (h : cfg.Logs w key change outputs) :
    ∃ step, flushStep change = some step ∧ ∀ c ctrl last, step = .ack c ctrl last →
      key = Flushing.ackKey c ctrl ∧ c ∉ w.closedByClient ∧
      (w.coordinator.leaderExpected.get? c).isSome ∧
      (last = true ↔ cfg.totalInstances - 1 ≤
        (insert ctrl.senderId (w.coordinator.flushAcks.getD c ∅)).card) ∧
      (ctrl.senderId ∉ w.coordinator.flushAcks.getD c ∅ →
        EofTotal cfg w c (w.coordinator.forwardedFromAcks.getD c 0 + ctrl.processedCount)
          last outputs) := by
  cases h with
  | data => exact ⟨_, rfl, by intros; contradiction⟩
  | abort hopen hb => exact ⟨_, rfl, by intros; contradiction⟩
  | upstreamEof hopen hb =>
    unfold upstreamEofBusiness at hb
    rw [if_pos (show 1 < cfg.totalInstances from hN)] at hb
    obtain ⟨payload, -, hb⟩ := Except.ok_of_bind hb
    obtain ⟨body, -, hb⟩ := Except.ok_of_bind hb
    cases hb
    exact ⟨_, rfl, by intros; contradiction⟩
  | flushOrder hopen hl hb =>
    obtain ⟨body, -, hb⟩ := Except.ok_of_bind hb
    cases hb
    exact ⟨_, if_pos rfl, by intros; contradiction⟩
  | @flushAck c ctrl _ _ hopen hl hb =>
    rcases flushAckBusiness_cases hb with ⟨hle, rfl, ho⟩ | ⟨hlt, rfl, rfl⟩
    · refine ⟨.ack c ctrl true, if_pos rfl, ?_⟩
      rintro _ _ _ ⟨⟩
      refine ⟨rfl, hopen, hl, iff_of_true rfl hle, fun hnew => ?_⟩
      rw [if_neg hnew] at ho
      exact ho
    · refine ⟨.ack c ctrl false, rfl, ?_⟩
      rintro _ _ _ ⟨⟩
      exact ⟨rfl, hopen, hl, iff_of_false (by rintro ⟨⟩) (Nat.not_le.mpr hlt), fun _ => rfl⟩

/-- Only an upstream EOF makes a replica the leader of a client. -/
theorem leads_of_logs (hN : 2 ≤ cfg.totalInstances) (h : cfg.Logs w key change outputs)
    (w' : FileIngestorState) (c : Nat)
    (hl : ((w'.applyChange cfg change).coordinator.leaderExpected.get? c).isSome) :
    (w'.coordinator.leaderExpected.get? c).isSome ∨ flushStep change = some (.lead c) := by
  have herase : ∀ c', ((w'.coordinator.leaderExpected.erase c').get? c).isSome →
      (w'.coordinator.leaderExpected.get? c).isSome := by
    intro c' h
    rw [Dict.get?_erase] at h
    split at h
    · cases h
    · exact h
  cases h with
  | @data c' sender seq n =>
    left
    rwa [(applyChange_worker w' _).1] at hl
  | abort hopen hb => exact .inl (herase _ hl)
  | @upstreamEof c' _ _ expectedTotal _ _ hopen hb =>
    unfold upstreamEofBusiness at hb
    rw [if_pos (show 1 < cfg.totalInstances from hN)] at hb
    obtain ⟨payload, -, hb⟩ := Except.ok_of_bind hb
    obtain ⟨body, -, hb⟩ := Except.ok_of_bind hb
    cases hb
    by_cases e : c' = c
    · exact .inr (by rw [e]; rfl)
    · left
      change ((w'.coordinator.onUpstreamEof cfg.coordinator c' expectedTotal (w.processedCount c')
        (w.processedCount c')).1.leaderExpected.get? c).isSome at hl
      rw [show w'.coordinator.onUpstreamEof cfg.coordinator c' expectedTotal (w.processedCount c')
        (w.processedCount c') = _ from onUpstreamEof_eq rfl hN _ _ _ _] at hl
      rwa [Dict.get?_set_of_ne _ _ e] at hl
  | flushOrder hopen hlead hb =>
    obtain ⟨body, -, hb⟩ := Except.ok_of_bind hb
    cases hb
    exact .inl hl
  | @flushAck c' ctrl _ _ hopen hlead hb =>
    left
    have hcoord : (w'.applyChange cfg change).coordinator.leaderExpected =
        (w'.coordinator.onFlushAck cfg.coordinator c' ctrl).1.leaderExpected := by
      rcases flushAckBusiness_cases hb with ⟨-, rfl, -⟩ | ⟨-, rfl, -⟩
      · rfl
      · rfl
    rw [hcoord] at hl
    rcases FileIngestorState.leaderExpected_onFlushAck cfg c' w'.coordinator ctrl with he | ⟨-, he⟩
    · rwa [he] at hl
    · rw [he] at hl
      exact herase _ hl

end FileIngestorConfig

namespace FileIngestor

open FileIngestorConfig

variable {cfg : FileIngestorConfig} {s : State}

/-- The log of a leader has the upstream EOF of the client. -/
theorem led_of_leads (hN : 2 ≤ cfg.totalInstances) {history : List (WalRecord FileIngestorChange)}
    (hr : EachRecord (Produced cfg) history) {c : Nat}
    (hl : ((loggedAfter cfg history).coordinator.leaderExpected.get? c).isSome) :
    .lead c ∈ (cfg.flushing hN).stepsOf history := by
  induction history using List.reverseRecOn with
  | nil => cases hl
  | append_singleton history record ih =>
    have ih := ih (hr.of_prefix (List.prefix_append _ _))
    have hrecord := hr history record List.prefix_rfl
    cases record with
    | inputApplied m key change outputs =>
      obtain ⟨w, logical, -, -, hlogs, -⟩ := hrecord
      obtain ⟨step, hstep, -⟩ := flushStep_of_logs hN hlogs
      rw [Flushing.stepsOf_applied (F := cfg.flushing hN) hstep]
      rw [loggedAfter_applied] at hl
      rcases leads_of_logs hN hlogs (loggedAfter cfg history) c hl with hl | hlead
      · exact List.mem_append_left _ (ih hl)
      · cases hstep.symm.trans hlead
        exact List.mem_append_right _ List.mem_cons_self
    | inputDone m key =>
      rw [loggedAfter_done] at hl
      rw [Flushing.stepsOf_done]
      exact ih hl

/-- Every run of an ingestor keeps the flush state that its log describes. -/
theorem LogInv.flush (hN : 2 ≤ cfg.totalInstances) (h : LogInv cfg s) :
    s.node.Follows (cfg.flushing hN).invariant := by
  refine h.follows (I := (cfg.flushing hN).invariant) ?_ ?_
  · intro history w w' hw hholds
    obtain ⟨hclosed, -, hleads, hacks, hforwarded⟩ := FileIngestorState.sameLogged hw
    have hcongr := FlushState.touched hholds (.of_same hleads.symm hacks.symm hforwarded.symm)
    change FlushState cfg.coordinator _ w'.coordinator w'.closedByClient
    rw [← hclosed]
    exact hcongr
  · intro front record hp heach hholds hproduced
    cases record with
    | inputDone m key => trivial
    | inputApplied m key change outputs =>
      obtain ⟨w, logical, hw, hnew, hlogs, -⟩ := hproduced
      obtain ⟨step, hstep, hack⟩ := flushStep_of_logs hN hlogs
      have hfront : front <+: s.node.history := (List.prefix_append _ _).trans hp
      refine ⟨step, hstep, fun c ctrl last e => ?_⟩
      obtain ⟨hkey, hopen, hlead, hlast, -⟩ := hack c ctrl last e
      refine ⟨hkey, FlushState.predicted (hholds w hw) hopen ?_ ?_ hlast⟩
      · refine led_of_leads hN (h.records.of_prefix hfront) ?_
        rw [← hw]
        exact hlead
      · obtain ⟨back, hback⟩ := hfront
        have hfull : Admissible cfg.handler cfg.view (front ++ back) := hback ▸ h.node.admissible
        have hadm : Admissible cfg.handler cfg.view front := hfull.of_append
        exact Flushing.new_sender hadm heach (hkey ▸ hnew)

/-- A new ack is predicted exactly, and the outputs carry the total. -/
theorem LogInv.ack_exact (hN : 2 ≤ cfg.totalInstances) (h : LogInv cfg s) {c : Nat}
    {ctrl : ControlMessage} {key : InputKey} {fn : BusinessFn FileIngestorState FileIngestorChange}
    {change : FileIngestorChange} {logical : List LogicalOutput}
    (hr : cfg.handleFlushAck s.worker s.node.handler.inbox c ctrl = .handle key fn)
    (hnew : s.node.handler.inbox.classify key = .new) (hb : fn s.worker = .ok (change, logical)) :
    ∃ last, flushStep change = some (.ack c ctrl last) ∧
      ExactFlush cfg.coordinator ((cfg.flushing hN).stepsOf s.node.history)
        s.worker.coordinator c ctrl
        last ∧
      cfg.EofTotal s.worker c
        (ackTotal (acksIn ((cfg.flushing hN).stepsOf s.node.history) c ++ [ctrl]))
        last logical := by
  have hfollows := h.flush hN
  have hlogs : cfg.Logs s.worker key change logical :=
    logs_of_handleResponse (p := ⟨.flushAck, c, ctrl⟩) hr hnew hb
  obtain ⟨last, hstep⟩ : ∃ last, flushStep change = some (.ack c ctrl last) := by
    have heq := handle_of_openOrApplied hr
    split at heq
    · cases heq
    · cases heq
      rcases flushAckBusiness_cases hb with ⟨-, rfl, -⟩ | ⟨-, rfl, -⟩
      · exact ⟨true, if_pos rfl⟩
      · exact ⟨false, rfl⟩
  obtain ⟨step, hstep', hack⟩ := flushStep_of_logs hN hlogs
  cases hstep.symm.trans hstep'
  obtain ⟨rfl, hopen, hlead, hlast, htotal⟩ := hack c ctrl last rfl
  have hled : .lead c ∈ (cfg.flushing hN).stepsOf s.node.history := by
    refine led_of_leads hN h.records ?_
    rw [← h.worker]
    exact hlead
  obtain ⟨hp, hexact⟩ := Flushing.predicted hfollows hnew hopen hled hlast
  refine ⟨last, hstep, hexact, ?_⟩
  have hacks : s.worker.coordinator.flushAcks.getD c ∅ = _ := FlushState.acks hfollows.holds c hopen
  have hforwarded : s.worker.coordinator.forwardedFromAcks.getD c 0 = _ :=
    FlushState.forwarded hfollows.holds c hopen
  have htotal := htotal (hacks ▸ hp.new)
  rw [hforwarded] at htotal
  simpa [ackTotal] using htotal

end FileIngestor

/-! ## The sum -/

namespace CountingM

variable {α β : Type} {seqs seqs' : Dict Nat Nat}

/-- The code returns `a` and leaves these counters. -/
def Returns (m : CountingM α) (seqs : Dict Nat Nat) (a : α) (seqs' : Dict Nat Nat) : Prop :=
  (m.run.run seqs : Except _ _ × Dict Nat Nat) = (.ok a, seqs')

theorem returns_bind {m : CountingM α} {f : α → CountingM β} {b : β}
    (h : Returns (m >>= f) seqs b seqs') :
    ∃ a seqs₁, Returns m seqs a seqs₁ ∧ Returns (f a) seqs₁ b seqs' := by
  have hrun : ((m >>= f).run.run seqs : Except _ _ × Dict Nat Nat) =
      match (m.run.run seqs : Except _ _ × Dict Nat Nat) with
      | (.ok a, seqs₁) => (f a).run.run seqs₁
      | (.error e, seqs₁) => (.error e, seqs₁) := by
    rw [ExceptT.run_bind, StateT.run_bind]
    change (match (m.run.run seqs : Except _ _ × Dict Nat Nat) with | (x, seqs₁) => _) = _
    rcases (m.run.run seqs : Except _ _ × Dict Nat Nat) with ⟨_ | a, seqs₁⟩ <;> rfl
  unfold Returns at h
  rw [hrun] at h
  split at h
  · next a seqs₁ he => exact ⟨a, seqs₁, he, h⟩
  · cases h

theorem returns_pure {a b : α} (h : Returns (Pure.pure a : CountingM α) seqs b seqs') :
    b = a ∧ seqs' = seqs := by
  cases h
  exact ⟨rfl, rfl⟩

theorem returns_lift {x : Except String α} {a : α}
    (h : Returns (liftM x : CountingM α) seqs a seqs') :
    x = .ok a ∧ seqs' = seqs := by
  obtain ⟨hx, hs⟩ := Prod.mk.inj h
  exact ⟨hx, hs.symm⟩

end CountingM

namespace SumConfig

variable {π : Type} {cfg : SumConfig π} {w touched : SumWorker π} {key : InputKey}
  {result : Except String (SumChange × List LogicalOutput)} {change : SumChange}
  {outputs : List LogicalOutput}

theorem applyOp_flush (w : SumState π) (op : WorkerOp (List Char)) :
    (w.applyOp cfg op).coordinator = op.applyCoordinator cfg.coordinator w.coordinator ∧
      (w.applyOp cfg op).closedByClient = WorkerChange.closedBy w.closedByClient op := by
  cases op with
  | data clientId n =>
    dsimp only [SumState.applyOp, SumState.applyData]
    split
    · exact ⟨rfl, rfl⟩
    · exact ⟨rfl, rfl⟩
  | close | coordinatorUpstreamEof | coordinatorMsg | coordinatorCleanup => exact ⟨rfl, rfl⟩

theorem applyChange_flush (w : SumState π) (change : SumChange) :
    (w.applyChange cfg change).coordinator = change.coordinatorAfter cfg.coordinator w.coordinator ∧
      (w.applyChange cfg change).closedByClient = change.closedAfter w.closedByClient :=
  WorkerChange.foldl_applyOp (σ := SumState π) applyOp_flush w change

variable (cfg) in
def flushing (hN : 2 ≤ cfg.sumAmount) : Flushing cfg.consumer.handler where
  coordinator := cfg.coordinator
  replicas := hN
  coordinatorOf w := w.state.coordinator
  closedOf w := w.state.closedByClient
  step := WorkerChange.flushStep
  fresh := ⟨rfl, rfl⟩
  advances w change step hs hne := by
    obtain ⟨hc, hclosed⟩ := @applyChange_flush π cfg w.state change
    change Advances _ _ _ (w.state.applyChange cfg change).coordinator _
      (w.state.applyChange cfg change).closedByClient
    rw [hc, hclosed]
    exact WorkerChange.advances rfl hN hs hne
  acks w change c ctrl last hs := by
    obtain ⟨hc, hclosed⟩ := @applyChange_flush π cfg w.state change
    change (w.state.applyChange cfg change).coordinator = _ ∧
      (w.state.applyChange cfg change).closedByClient = _
    rw [hc, hclosed]
    exact WorkerChange.counts_ack hs

/-- What a handler passes to `handle`. -/
theorem handle_inj {coordinator : EofCoordinator} {key' : InputKey}
    {business : CountingM (SumChange × List LogicalOutput)}
    (h : w.handleWith key' coordinator business = .handle key touched result) :
    key = key' ∧ touched.state = { w.state with coordinator } ∧
      ∀ x, result = .ok x → ∃ seqs, business.Returns w.aggSeqByClient x seqs := by
  unfold SumWorker.handleWith at h
  obtain ⟨rfl, rfl, hres⟩ := Reaction.handle.inj h
  refine ⟨rfl, rfl, fun x hx => ⟨(business.run.run w.aggSeqByClient).2, ?_⟩⟩
  exact Prod.ext (hres.trans hx) rfl

/-- A reaction that is no `FLUSH_ACK`: what it touches keeps the acks, and what it logs counts
none. -/
def NoAck (cfg : SumConfig π) (w : SumWorker π) : Reaction (SumWorker π) SumChange → Prop
  | .refuse | .skip _ => True
  | .direct touched _ => touched.state.closedByClient = w.state.closedByClient ∧
      KeepsFlush cfg.coordinator w.state.coordinator touched.state.coordinator
  | .handle _ touched result => (touched.state.closedByClient = w.state.closedByClient ∧
      KeepsFlush cfg.coordinator w.state.coordinator touched.state.coordinator) ∧
      ∀ change logical, result = .ok (change, logical) →
        ∃ step, change.flushStep = some step ∧ ∀ c ctrl last, step ≠ .ack c ctrl last

theorem noAck_handleWith {coordinator : EofCoordinator}
    {business : CountingM (SumChange × List LogicalOutput)} (w : SumWorker π) (key : InputKey)
    (hk : KeepsFlush cfg.coordinator w.state.coordinator coordinator)
    (hb : ∀ seqs change logical seqs', business.Returns seqs (change, logical) seqs' →
      ∃ step, change.flushStep = some step ∧ ∀ c ctrl last, step ≠ .ack c ctrl last) :
    NoAck cfg w (w.handleWith key coordinator business) := by
  cases hr : w.handleWith key coordinator business with
  | refuse | skip => trivial
  | direct touched sends => cases hr
  | handle key touched result =>
    obtain ⟨-, htouched, hresult⟩ := handle_inj hr
    refine ⟨⟨by rw [htouched], by rw [htouched]; exact hk⟩, fun change logical hx => ?_⟩
    obtain ⟨seqs, hret⟩ := hresult _ hx
    exact hb _ _ _ _ hret

theorem noAck_ofAction {touched : SumWorker π} (action : Option CoordinatorAction)
    (hc : touched.state.closedByClient = w.state.closedByClient)
    (hk : KeepsFlush cfg.coordinator w.state.coordinator touched.state.coordinator) :
    NoAck cfg w (.ofAction touched action) := by
  unfold Reaction.ofAction
  split
  · exact ⟨hc, hk⟩
  · split
    · trivial
    · exact ⟨hc, hk⟩

theorem noAck_processMessage (hN : 2 ≤ cfg.sumAmount) (w : SumWorker π) (body : Bytes) :
    NoAck cfg w (cfg.processMessage w body) := by
  unfold processMessage
  split
  · trivial
  · next m hm =>
    split
    · unfold handleData
      split
      · trivial
      · refine noAck_handleWith w _ (.refl _) fun seqs change logical seqs' hret => ?_
        cases (CountingM.returns_pure hret).1
        exact ⟨_, rfl, by rintro _ _ _ ⟨⟩⟩
    · unfold handleUpstreamEof
      split
      · trivial
      · split
        · trivial
        · dsimp only
          rw [onUpstreamEof_eq (show cfg.coordinator.mode = .broadcast from rfl) hN]
          refine noAck_handleWith w _ ?_ fun seqs change logical seqs' hret => ?_
          · exact onUpstreamEof_eq (s := w.state.coordinator)
              (show cfg.coordinator.mode = .broadcast from rfl) hN _ _ 0 0 ▸
              keepsFlush_onUpstreamEof rfl hN _ _ _ _
          · obtain ⟨outputs, seqs₁, -, hret⟩ := CountingM.returns_bind hret
            cases (CountingM.returns_pure hret).1
            exact ⟨_, rfl, by rintro _ _ _ ⟨⟩⟩
    · unfold handleAbort
      split
      · trivial
      · refine noAck_handleWith w _ (.refl _) fun seqs change logical seqs' hret => ?_
        obtain ⟨outputs, seqs₁, -, hret⟩ := CountingM.returns_bind hret
        cases (CountingM.returns_pure hret).1
        exact ⟨_, if_pos rfl, by rintro _ _ _ ⟨⟩⟩
    · trivial

theorem noAck_handleControl (w : SumWorker π) (body : Bytes) :
    NoAck cfg w (cfg.handleControl w body) := by
  unfold handleControl
  split
  · trivial
  · next msgType clientId ctrl hp =>
    split
    · unfold handleEofReceived
      refine noAck_handleWith w _ (keepsFlush_onEofReceived _ _ _ _)
        fun seqs change logical seqs' hret => ?_
      dsimp only at hret
      split at hret
      · obtain ⟨outputs, seqs₁, -, hret⟩ := CountingM.returns_bind hret
        cases (CountingM.returns_pure hret).1
        exact ⟨_, rfl, by rintro _ _ _ ⟨⟩⟩
      · cases (CountingM.returns_pure hret).1
        exact ⟨_, rfl, by rintro _ _ _ ⟨⟩⟩
    · exact noAck_ofAction _ rfl (.refl _)
    · unfold handleFlushOrder
      split
      · trivial
      · split
        · trivial
        · refine noAck_handleWith w _ (.refl _) fun seqs change logical seqs' hret => ?_
          obtain ⟨partials, seqs₁, -, hret⟩ := CountingM.returns_bind hret
          obtain ⟨own, seqs₂, -, hret⟩ := CountingM.returns_bind hret
          obtain ⟨flushAck, seqs₃, -, hret⟩ := CountingM.returns_bind hret
          cases (CountingM.returns_pure hret).1
          exact ⟨_, if_pos rfl, by rintro _ _ _ ⟨⟩⟩
    · exact ⟨rfl, .refl _⟩

theorem noAck_handleResponse (w : SumWorker π) {body : Bytes}
    (h : ∀ c ctrl, parseMessage body ≠ .ok (some .flushAck, c, ctrl)) :
    NoAck cfg w (cfg.handleResponse w body) := by
  unfold handleResponse
  split
  · trivial
  · next msgType clientId ctrl hp =>
    split
    · exact noAck_ofAction _ rfl (keepsFlush_onProcessedAnswer _ _)
    · exact absurd hp (h clientId ctrl)
    · exact ⟨rfl, .refl _⟩

/-- The outputs of the last ack are the leader's own partials, and EOFs with the total of the acks
and of these; any other ack has no outputs. -/
def EofTotal (cfg : SumConfig π) (w : SumWorker π) (c acked : Nat) (last : Bool)
    (outputs : List LogicalOutput) : Prop :=
  if last then ∃ partials own eofs seqs seqs', w.state.partialsFor cfg c = .ok partials ∧
      (cfg.partialsOutputs c partials).Returns w.aggSeqByClient own seqs ∧
      (cfg.eofOutputs c (acked + partials.length)).Returns seqs eofs seqs' ∧ outputs = own ++ eofs
  else outputs = []

/-- A `FLUSH_ACK` that reaches `handle`. -/
theorem handleFlushAck_handle {c : Nat} {ctrl : ControlMessage}
    (h : cfg.handleFlushAck w c ctrl = .handle key touched result) :
    key = Flushing.ackKey c ctrl ∧ c ∉ w.state.closedByClient ∧ touched.state = w.state ∧
    ∀ change outputs, result = .ok (change, outputs) →
      ∃ last, change.flushStep = some (.ack c ctrl last) ∧
      (last = true ↔ cfg.sumAmount - 1 ≤
        (insert ctrl.senderId (w.state.coordinator.flushAcks.getD c ∅)).card) ∧
      (ctrl.senderId ∉ w.state.coordinator.flushAcks.getD c ∅ → EofTotal cfg w c
        (w.state.coordinator.forwardedFromAcks.getD c 0 + ctrl.processedCount) last outputs) := by
  unfold handleFlushAck at h
  dsimp only at h
  split at h
  · cases h
  · next hopen =>
    obtain ⟨hkey, htouched, hresult⟩ := handle_inj h
    refine ⟨hkey, fun hc => hopen (decide_eq_true hc), htouched, fun change outputs hx => ?_⟩
    obtain ⟨seqs, hret⟩ := hresult _ hx
    rw [FileIngestorState.card_insert_eq]
    simp only [decide_eq_true_eq] at hret ⊢
    by_cases hlt : (w.state.coordinator.flushAcks.getD c ∅).card +
        (if ctrl.senderId ∈ w.state.coordinator.flushAcks.getD c ∅ then 0 else 1) <
        cfg.sumAmount - 1
    · rw [if_pos hlt] at hret
      cases (CountingM.returns_pure hret).1
      exact ⟨false, rfl, iff_of_false (by rintro ⟨⟩) (Nat.not_le.mpr hlt), fun _ => rfl⟩
    · rw [if_neg hlt] at hret
      obtain ⟨partials, seqs₁, hpartials, hret⟩ := CountingM.returns_bind hret
      obtain ⟨hread, rfl⟩ := CountingM.returns_lift hpartials
      obtain ⟨own, seqs₂, hown, hret⟩ := CountingM.returns_bind hret
      obtain ⟨eofs, seqs₃, heofs, hret⟩ := CountingM.returns_bind hret
      cases (CountingM.returns_pure hret).1
      refine ⟨true, if_pos rfl, iff_of_true rfl (Nat.not_lt.mp hlt), fun hnew => ?_⟩
      rw [if_neg hnew] at heofs
      exact ⟨partials, own, eofs, seqs₂, seqs₃, hread, hown, heofs, rfl⟩

/-- A `FLUSH_ACK` comes to the leader of its client: a replica whose log has the upstream EOF. -/
def acksLed (hN : 2 ≤ cfg.sumAmount) (n : Node (SumWorker π) (SumWorker π) SumChange) :
    Consumer.DurableLabel WorkerDelivery → Prop
  | .deliver (.response body) _ =>
    match parseMessage body with
    | .ok (some .flushAck, c, _) => .lead c ∈ (cfg.flushing hN).stepsOf n.history
    | _ => True
  | _ => True

instance (hN : 2 ≤ cfg.sumAmount) (n : Node (SumWorker π) (SumWorker π) SumChange) :
    (l : Consumer.DurableLabel WorkerDelivery) → Decidable (acksLed hN n l)
  | .deliver (.response body) _ =>
    match h : parseMessage body with
    | .ok (some .flushAck, c, ctrl) =>
      decidable_of_iff (.lead c ∈ (cfg.flushing hN).stepsOf n.history) (by simp [acksLed, h])
    | .ok (some .data, _, _) | .ok (some .eof, _, _) | .ok (some .eofReceived, _, _)
    | .ok (some .processedRequest, _, _) | .ok (some .processedAnswer, _, _)
    | .ok (some .flushOrder, _, _) | .ok (some .aggregatedCount, _, _) | .ok (some .abort, _, _)
    | .ok (none, _, _) | .error _ => .isTrue (by simp [acksLed, h])
  | .deliver (.input _) _ | .deliver (.control _) _ | .commit .. | .crash => .isTrue trivial

/-- Every run of a sum keeps the flush state that its log describes. -/
theorem follows_exec {hN : 2 ≤ cfg.sumAmount} {n n' : Node (SumWorker π) (SumWorker π) SumChange}
    (h : n.Follows (cfg.flushing hN).invariant) {l : Consumer.DurableLabel WorkerDelivery}
    (hl : acksLed hN n l) (he : Consumer.durableExec cfg.consumer n l = some n') :
    n'.Follows (cfg.flushing hN).invariant := by
  -- a handler that counts no ack
  have hnoAck : ∀ {d : WorkerDelivery},
      NoAck cfg n.handler.workerState (cfg.consumer.react n.handler.workerState d) →
      (∀ touched sends, cfg.consumer.react n.handler.workerState d = .direct touched sends →
        (cfg.flushing hN).invariant.Holds n.history touched) ∧
      (∀ key touched result, cfg.consumer.react n.handler.workerState d =
        .handle key touched result →
        (cfg.flushing hN).invariant.Holds n.history touched ∧
        ∀ change logical outputs, result = .ok (change, logical) →
          (cfg.flushing hN).invariant.Valid n.history
            (.inputApplied (cfg.consumer.handler.msgId key) key change outputs)) := by
    intro d hd
    have hholds : ∀ touched : SumWorker π,
        touched.state.closedByClient = n.handler.workerState.state.closedByClient →
        KeepsFlush cfg.coordinator n.handler.workerState.state.coordinator
          touched.state.coordinator →
        (cfg.flushing hN).invariant.Holds n.history touched := by
      intro touched hc hk
      have htouched := FlushState.touched h.holds hk
      change FlushState cfg.coordinator _ touched.state.coordinator touched.state.closedByClient
      rw [hc]
      exact htouched
    refine ⟨fun touched sends hr => ?_, fun key touched result hr => ?_⟩
    · rw [hr] at hd
      exact hholds touched hd.1 hd.2
    · rw [hr] at hd
      refine ⟨hholds touched hd.1.1 hd.1.2, fun change logical outputs hx => ?_⟩
      obtain ⟨step, hstep, hne⟩ := hd.2 change logical hx
      exact ⟨step, hstep, fun c ctrl last e => absurd e (hne c ctrl last)⟩
  have hdeliver : ∀ d outcome, l = .deliver d outcome →
      NoAck cfg n.handler.workerState (cfg.consumer.react n.handler.workerState d) ∨
      ∃ c ctrl, .lead c ∈ (cfg.flushing hN).stepsOf n.history ∧
        cfg.consumer.react n.handler.workerState d =
        cfg.handleFlushAck n.handler.workerState c ctrl := by
    rintro d outcome rfl
    cases d with
    | input body => exact .inl (noAck_processMessage hN _ body)
    | control body => exact .inl (noAck_handleControl _ body)
    | response body =>
      by_cases hp : ∃ c ctrl, parseMessage body = .ok (some .flushAck, c, ctrl)
      · obtain ⟨c, ctrl, hp⟩ := hp
        refine .inr ⟨c, ctrl, by simpa [acksLed, hp] using hl, ?_⟩
        change cfg.handleResponse n.handler.workerState body = _
        unfold handleResponse
        rw [hp]
      · exact .inl (noAck_handleResponse _ fun c ctrl e => hp ⟨c, ctrl, e⟩)
  refine Consumer.follows_durableExec h ?_ ?_ (fun _ _ _ _ => trivial) he
  · intro d outcome touched sends hd hr
    rcases hdeliver d outcome hd with hno | ⟨c, ctrl, -, hack⟩
    · exact (hnoAck hno).1 touched sends hr
    · rw [hack] at hr
      unfold handleFlushAck at hr
      dsimp only at hr
      split at hr
      · cases hr
      · cases hr
  · intro d outcome key touched result hd hr hnew
    rcases hdeliver d outcome hd with hno | ⟨c, ctrl, hled, hack⟩
    · exact (hnoAck hno).2 key touched result hr
    · rw [hack] at hr
      obtain ⟨rfl, hopen, htouched, hresult⟩ := handleFlushAck_handle hr
      refine ⟨?_, fun change logical outputs hx => ?_⟩
      · change FlushState cfg.coordinator _ touched.state.coordinator touched.state.closedByClient
        rw [htouched]
        exact h.holds
      · obtain ⟨last, hstep, hlast, -⟩ := hresult change logical hx
        refine ⟨_, hstep, ?_⟩
        rintro _ _ _ ⟨⟩
        exact ⟨rfl, (Flushing.predicted h hnew hopen hled hlast).1⟩

theorem follows_of_reachable {hN : 2 ≤ cfg.sumAmount}
    {n : Node (SumWorker π) (SumWorker π) SumChange}
    (h : Reachable (Consumer.durableExec cfg.consumer) (acksLed hN)
      (Node.init cfg.consumer.handler) n) :
    n.Follows (cfg.flushing hN).invariant :=
  h.invariant Node.follows_init fun _ _ _ hi hl he => follows_exec hi hl he

/-- A new ack of a led client is predicted exactly, and the outputs carry the total. -/
theorem ack_exact {hN : 2 ≤ cfg.sumAmount} {n : Node (SumWorker π) (SumWorker π) SumChange}
    (h : n.Follows (cfg.flushing hN).invariant) {c : Nat} {ctrl : ControlMessage}
    (hr : cfg.handleFlushAck n.handler.workerState c ctrl =
      .handle key touched (.ok (change, outputs)))
    (hled : .lead c ∈ (cfg.flushing hN).stepsOf n.history)
    (hnew : n.handler.inbox.classify key = .new) :
    ∃ last, change.flushStep = some (.ack c ctrl last) ∧
      ExactFlush cfg.coordinator ((cfg.flushing hN).stepsOf n.history)
        touched.state.coordinator c ctrl
        last ∧
      cfg.EofTotal n.handler.workerState c
        (ackTotal (acksIn ((cfg.flushing hN).stepsOf n.history) c ++ [ctrl])) last outputs := by
  obtain ⟨rfl, hopen, htouched, hresult⟩ := handleFlushAck_handle hr
  obtain ⟨last, hstep, hlast, htotal⟩ := hresult change outputs rfl
  obtain ⟨hp, hexact⟩ := Flushing.predicted h hnew hopen hled hlast
  rw [htouched]
  refine ⟨last, hstep, hexact, ?_⟩
  have hacks : n.handler.workerState.state.coordinator.flushAcks.getD c ∅ = _ :=
    FlushState.acks h.holds c hopen
  have hforwarded : n.handler.workerState.state.coordinator.forwardedFromAcks.getD c 0 = _ :=
    FlushState.forwarded h.holds c hopen
  have htotal := htotal (hacks ▸ hp.new)
  rw [hforwarded] at htotal
  simpa [ackTotal] using htotal

end SumConfig

/-- **Flush total prediction.** In every run of a file ingestor and of a sum of at least two
replicas, with redeliveries, failed appends and crashes at any durable step: a new `FLUSH_ACK` that
the leader handles is predicted to be the last exactly if it brings the last of the `N - 1` senders,
the coordinator then answers `apply_change` with the order to flush the sum of their counts and with
nothing before, and the outputs carry that sum and the leader's own count. A recovery meets the same
answers, and of the acks of a client one is predicted to be the last as soon as there are `N -
1`. -/
theorem flush_total_prediction {π : Type} :
    (∀ (cfg : FileIngestorConfig) (hN : 2 ≤ cfg.totalInstances) (s : FileIngestor.State),
      Reachable (FileIngestor.exec cfg) (fun _ l => FileIngestor.queued l = true)
        (FileIngestor.init cfg) s →
      (∀ c ctrl key fn change outputs,
        cfg.handleFlushAck s.worker s.node.handler.inbox c ctrl = .handle key fn →
        s.node.handler.inbox.classify key = .new → fn s.worker = .ok (change, outputs) →
        ∃ last, FileIngestorConfig.flushStep change = some (.ack c ctrl last) ∧
          ExactFlush cfg.coordinator ((cfg.flushing hN).stepsOf s.node.history)
            s.worker.coordinator c
            ctrl last ∧
          cfg.EofTotal s.worker c
            (ackTotal (acksIn ((cfg.flushing hN).stepsOf s.node.history) c ++ [ctrl]))
              last outputs) ∧
      (cfg.flushing hN).FlushedOnce s.node) ∧
    (∀ (cfg : SumConfig π) (hN : 2 ≤ cfg.sumAmount)
      (n : Node (SumWorker π) (SumWorker π) SumChange),
      Reachable (Consumer.durableExec cfg.consumer) (SumConfig.acksLed hN)
        (Node.init cfg.consumer.handler) n →
      (∀ c ctrl key touched change outputs,
        cfg.handleFlushAck n.handler.workerState c ctrl = .handle key touched
          (.ok (change, outputs)) →
        .lead c ∈ (cfg.flushing hN).stepsOf n.history → n.handler.inbox.classify key = .new →
        ∃ last, change.flushStep = some (.ack c ctrl last) ∧
          ExactFlush cfg.coordinator ((cfg.flushing hN).stepsOf n.history)
            touched.state.coordinator c
            ctrl last ∧
          cfg.EofTotal n.handler.workerState c
            (ackTotal (acksIn ((cfg.flushing hN).stepsOf n.history) c ++ [ctrl])) last outputs) ∧
      (cfg.flushing hN).FlushedOnce n) := by
  refine ⟨fun cfg hN s hs => ?_, fun cfg hN n hn => ?_⟩
  · have hinv := FileIngestor.logInv_of_reachable hs
    exact ⟨fun c ctrl key fn change outputs hr hnew hb => hinv.ack_exact hN hr hnew hb,
      Flushing.flushedOnce (hinv.flush hN)⟩
  · have hfollows := SumConfig.follows_of_reachable hn
    exact ⟨fun c ctrl key touched change outputs hr hled hnew =>
      SumConfig.ack_exact hfollows hr hled hnew, Flushing.flushedOnce hfollows⟩

/-! ### The leaders of two replicas -/

def leadingIngestor : FileIngestorConfig where
  id := 0
  totalInstances := 2
  outputs := [⟨"filter", 1⟩]
  controlQueuePrefix := "ingestor_control"
  responseQueuePrefix := "ingestor_response"
  parseLine _ _ _ := .error "invalid transaction row"
  changeJson := .ofTable [(.worker (.single (.coordinatorUpstreamEof 7 4 0 0)), [7])]
  sha256 _ := []

def leadingSum : SumConfig Unit where
  id := 0
  sumAmount := 2
  sumPrefix := "sum_q2"
  aggregationAmount := 1
  aggregationPrefix := "aggregation_q2"
  snapshotInterval := 1000
  sha256 _ := []
  processor := ⟨(), fun _ _ => (), fun _ => .ok []⟩
  changeJson := .ofTable [(.single (.coordinatorUpstreamEof 7 4 0 0), [7])]

theorem two_ingestors : 2 ≤ leadingIngestor.totalInstances := by decide

theorem two_sums : 2 ≤ leadingSum.sumAmount := by decide

/-- The upstream EOF of client 7, with 4 messages expected. -/
def leadBody : Bytes :=
  (InternalProtocol.createAddressedPacket MessageType.eof.toNat 7 3 1
    ((ControlMessage.serialize { senderId := 3, expectedTotal := 4 }).toOption.getD
      [])).toOption.getD []

/-- Replica 1 has forwarded 5 messages. -/
def lastAck : ControlMessage := { senderId := 1, expectedTotal := 0, processedCount := 5 }

/-- An ack that is new at an open client that the ingestor leads reaches `handle`. -/
theorem FileIngestorConfig.handleFlushAck_new {cfg : FileIngestorConfig} {w : FileIngestorState}
    {inbox : Inbox} {c : Nat} {ctrl : ControlMessage} (hopen : c ∉ w.closedByClient)
    (hl : (w.coordinator.leaderExpected.get? c).isSome) :
    cfg.handleFlushAck w inbox c ctrl =
      .handle (Flushing.ackKey c ctrl) (cfg.flushAckBusiness c ctrl) := by
  unfold handleFlushAck openOrApplied
  rw [if_neg fun h => hopen (of_decide_eq_true h.1), if_neg]
  · rfl
  · rintro ⟨-, hnone⟩
    rw [hnone] at hl
    cases hl

/-- The change that a reaction logs. -/
def Reaction.change? {σ Δ : Type} : Reaction σ Δ → Option Δ
  | .handle _ _ result => result.toOption.map (·.1)
  | .refuse | .skip _ | .direct _ _ => none

/-- The upstream EOF makes each of them the leader, and after a crash the ack of the other replica
is predicted to be the last. -/
theorem last_ack_of_two :
    (∃ s outputs, Reachable (FileIngestor.exec leadingIngestor) (fun _ l =>
      FileIngestor.queued l = true)
        (FileIngestor.init leadingIngestor) s ∧
      ExactFlush leadingIngestor.coordinator
        ((leadingIngestor.flushing two_ingestors).stepsOf s.node.history)
          s.worker.coordinator 7 lastAck
        true ∧
      leadingIngestor.EofTotal s.worker 7 5 true outputs) ∧
    (∃ n outputs, Reachable (Consumer.durableExec leadingSum.consumer)
        (SumConfig.acksLed two_sums) (Node.init leadingSum.consumer.handler) n ∧
      ExactFlush leadingSum.coordinator ((leadingSum.flushing two_sums).stepsOf n.history)
        n.handler.workerState.state.coordinator 7 lastAck true ∧
      leadingSum.EofTotal n.handler.workerState 7 5 true outputs) := by
  constructor
  · have hrun : (runAllowed (FileIngestor.exec leadingIngestor)
        (fun _ l => FileIngestor.queued l = true) (FileIngestor.init leadingIngestor)
        [.input leadBody .returns, .crash]).any (fun s => decide (7 ∉ s.worker.closedByClient ∧
          (s.worker.coordinator.leaderExpected.get? 7).isSome ∧
          s.node.handler.inbox.classify (Flushing.ackKey 7 lastAck) = .new ∧
          acksIn ((leadingIngestor.flushing two_ingestors).stepsOf s.node.history) 7 = [] ∧
          (leadingIngestor.flushAckBusiness 7 lastAck s.worker).toOption.any fun x =>
            decide (x.1 =
              .worker (.compound [.coordinatorMsg .flushAck 7 lastAck 0 0, .close 7])))) =
        true := by decide +kernel
    obtain ⟨s, hs, hdec⟩ := (Option.any_eq_true _ _).mp hrun
    obtain ⟨hopen, hl, hnew, hnil, hb⟩ := of_decide_eq_true hdec
    obtain ⟨⟨change, outputs⟩, hb, hchange⟩ := (Option.any_eq_true _ _).mp hb
    have hchange := of_decide_eq_true hchange
    have hb : leadingIngestor.flushAckBusiness 7 lastAck s.worker = .ok (change, outputs) := by
      cases he : leadingIngestor.flushAckBusiness 7 lastAck s.worker with
      | error e => rw [he] at hb; cases hb
      | ok x => rw [he] at hb; cases hb; rfl
    have hreach := reachable_of_runAllowed .init hs
    obtain ⟨last, hstep, hexact, htotal⟩ :=
      ((flush_total_prediction (π := Unit)).1 leadingIngestor two_ingestors s
      hreach).1 7 lastAck _ _ change outputs
        (FileIngestorConfig.handleFlushAck_new hopen hl) hnew hb
    dsimp only at hchange
    rw [hchange] at hstep
    cases hstep
    rw [hnil] at htotal
    exact ⟨s, outputs, hreach, hexact, htotal⟩
  · have hrun : (runAllowed (Consumer.durableExec leadingSum.consumer)
        (SumConfig.acksLed two_sums) (Node.init leadingSum.consumer.handler)
        [.deliver (.input leadBody) .returns, .crash]).any (fun n => decide (
          n.handler.inbox.classify (Flushing.ackKey 7 lastAck) = .new ∧
          .lead 7 ∈ (leadingSum.flushing two_sums).stepsOf n.history ∧
          acksIn ((leadingSum.flushing two_sums).stepsOf n.history) 7 = [] ∧
          (leadingSum.handleFlushAck n.handler.workerState 7 lastAck).change? =
            some (.compound [.coordinatorMsg .flushAck 7 lastAck 0 0, .close 7]))) = true := by
      decide +kernel
    obtain ⟨n, hn, hdec⟩ := (Option.any_eq_true _ _).mp hrun
    obtain ⟨hnew, hled, hnil, hr⟩ := of_decide_eq_true hdec
    have hreach := reachable_of_runAllowed .init hn
    cases hr' : leadingSum.handleFlushAck n.handler.workerState 7 lastAck with
    | refuse | skip | direct =>
      rw [hr'] at hr
      cases hr
    | handle key touched result =>
      rw [hr'] at hr
      obtain ⟨⟨change, outputs⟩, hresult, hchange⟩ := Option.map_eq_some_iff.mp hr
      have hok : result = .ok (change, outputs) := by
        cases result with
        | error e => cases hresult
        | ok x => exact congrArg Except.ok (Option.some.inj hresult)
      rw [hok] at hr'
      obtain ⟨rfl, -, htouched, -⟩ := SumConfig.handleFlushAck_handle hr'
      obtain ⟨last, hstep, hexact, htotal⟩ :=
        ((flush_total_prediction (π := Unit)).2 leadingSum two_sums n
        hreach).1 7 lastAck _ touched change outputs hr' hled hnew
      dsimp only at hchange
      rw [hchange] at hstep
      cases hstep
      rw [hnil] at htotal
      rw [htouched] at hexact
      exact ⟨n, outputs, hreach, hexact, htotal⟩

end MoneyLaundering
