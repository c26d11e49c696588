import MoneyLaundering.Workers.StreamNumbers

/-!
# The packets of a sum

A sum sends packets to the aggregators when it closes a client, and only then. They are numbered by
a counter in memory that advances even when the append fails and starts over with the process; the
record of the close has them all, and it is the only one of its client.
-/

namespace MoneyLaundering

open Bytes InternalProtocol Transition

/-! ## Counting -/

namespace CountingM

variable {α β : Type}

/-- Where the code returns, the packets among these outputs of its value count up from the counter
of the client, and the counter counted them. -/
def Numbers (c : Nat) (outputs : α → List LogicalOutput) (m : CountingM α) : Prop :=
  ∀ seqs a seqs', m.Returns seqs a seqs' → Stream c (seqs.getD c 0) (outputPackets (outputs a)) ∧
    (seqs.getD c 0 + (streamOf c (outputPackets (outputs a))).length) % 2 ^ 32 =
    seqs'.getD c 0 % 2 ^ 32

variable {c : Nat}

/-- Outputs of two parts, one after the other. -/
theorem Numbers.concat {out : α → List LogicalOutput} {out' : β → List LogicalOutput}
    {m : CountingM α}
    {f : α → CountingM β} {seqs seqs' : Dict Nat Nat} {b : β} (hm : Numbers c out m)
    (hf : ∀ a, Numbers c out' (f a)) (h : (m >>= f).Returns seqs b seqs') :
    ∃ a, Stream c (seqs.getD c 0) (outputPackets (out a ++ out' b)) ∧
      (seqs.getD c 0 + (streamOf c (outputPackets (out a ++ out' b))).length) % 2 ^ 32 =
        seqs'.getD c 0 % 2 ^ 32 ∧
      ∃ seqs₁, m.Returns seqs a seqs₁ ∧ (f a).Returns seqs₁ b seqs' := by
  obtain ⟨a, seqs₁, ha, hb⟩ := returns_bind h
  obtain ⟨hs, hn⟩ := hm _ _ _ ha
  obtain ⟨hs', hn'⟩ := hf a _ _ _ hb
  refine ⟨a, ?_, ?_, seqs₁, ha, hb⟩
  · rw [outputPackets_append]
    exact hs.append (hs'.congr hn.symm)
  rw [outputPackets_append, streamOf_append, List.length_append, ← hn', ← Nat.add_assoc,
    Nat.add_mod, hn, ← Nat.add_mod]

theorem Numbers.mapM {f : α → CountingM LogicalOutput} (hf : ∀ a, Numbers c (fun o => [o]) (f a))
    (xs : List α) : Numbers c id (xs.mapM f) := by
  induction xs with
  | nil =>
    intro seqs a seqs' h
    rw [List.mapM_nil] at h
    obtain ⟨rfl, rfl⟩ := returns_pure h
    exact ⟨.of_control (by simp [outputPackets]), rfl⟩
  | cons x xs ih =>
    intro seqs outputs seqs' h
    rw [List.mapM_cons] at h
    have hrest : ∀ output, Numbers c List.tail (do
        let rest ← xs.mapM f
        return output :: rest) := by
      intro output seqs outputs seqs' h
      obtain ⟨rest, seqs₁, hrest, h⟩ := returns_bind h
      obtain ⟨rfl, rfl⟩ := returns_pure h
      exact ih _ _ _ hrest
    obtain ⟨output, hs, hn, seqs₁, -, h⟩ := Numbers.concat (hf x) hrest h
    obtain ⟨rest, _, -, h⟩ := returns_bind h
    obtain ⟨rfl, -⟩ := returns_pure h
    exact ⟨hs, hn⟩

variable {π : Type} (cfg : SumConfig π)

theorem numbers_shardOutput {msgType : MessageType} (ht : msgType = .data ∨ msgType = .eof)
    (index : Nat) (payload : Bytes) :
    Numbers c (fun o => [o]) (cfg.shardOutput msgType c index payload) := by
  intro seqs output seqs' h
  obtain ⟨seq, seqs₁, hseq, h⟩ := returns_bind h
  obtain ⟨hseq, rfl⟩ := Prod.mk.inj hseq
  cases hseq
  obtain ⟨body, seqs₂, hret, h⟩ := returns_bind h
  obtain ⟨hbody, rfl⟩ := returns_lift hret
  obtain ⟨rfl, rfl⟩ := returns_pure h
  obtain ⟨hs, hlen⟩ := Stream.single hbody ht
  refine ⟨hs, ?_⟩
  change (seqs.getD c 0 + (streamOf c [(_, body)]).length) % 2 ^ 32 = _
  rw [hlen, Dict.getD_set, if_pos rfl, Nat.mod_mod]

theorem numbers_partialsOutputs (partials : List (String × Bytes)) :
    Numbers c id (cfg.partialsOutputs c partials) := by
  refine Numbers.mapM (fun x => ?_) partials
  intro seqs output seqs' h
  obtain ⟨index, seqs₁, hindex, hshard⟩ := returns_bind h
  obtain ⟨-, rfl⟩ := returns_lift hindex
  exact numbers_shardOutput cfg (.inl rfl) _ _ _ _ _ hshard

theorem numbers_eofOutputs (totalForwarded : Nat) :
    Numbers c id (cfg.eofOutputs c totalForwarded) := by
  intro seqs outputs seqs' h
  obtain ⟨payload, seqs₁, hpayload, hshards⟩ := returns_bind h
  obtain ⟨-, rfl⟩ := returns_lift hpayload
  exact Numbers.mapM (fun index => numbers_shardOutput cfg (.inr rfl) index payload) _ _ _ _ hshards

end CountingM

/-! ## The handlers -/
namespace SumConfig

open Publisher

variable {π : Type} {cfg : SumConfig π} {w touched : SumWorker π} {key : InputKey}
    {change : SumChange}
  {logical : List LogicalOutput} {c : Nat} {closed : Finset Nat}
  {history : List (WalRecord SumChange)}

/-- The packets of a change: those of a client that it closes, or none of a stream. -/
def ClosesStream (closed : Finset Nat) (change : SumChange) (packets : List (String × Bytes)) :
    Prop :=
  (∀ p ∈ packets, streamPacket? p.2 = none) ∨
    ∃ c v, c ∉ closed ∧ c ∈ change.closedAfter closed ∧ Stream c v packets

variable (cfg) in
/-- What a reaction of an open client may do: it keeps the closed clients, and sends packets when it
closes one. -/
def SendsStream (w : SumWorker π) : Reaction (SumWorker π) SumChange → Prop
  | .refuse | .skip _ => True
  | .direct touched sends => touched.state.closedByClient = w.state.closedByClient ∧
      ∀ p ∈ sends, streamPacket? p.2 = none
  | .handle _ touched result => touched.state.closedByClient = w.state.closedByClient ∧
      ∀ change logical, result = .ok (change, logical) →
        ClosesStream w.state.closedByClient change (outputPackets logical)

theorem sendsStream_handleWith {coordinator : EofCoordinator}
    {business : CountingM (SumChange × List LogicalOutput)} (w : SumWorker π) (key : InputKey)
    (hb : ∀ seqs change logical seqs', business.Returns seqs (change, logical) seqs' →
      ClosesStream w.state.closedByClient change (outputPackets logical)) :
    SendsStream w (w.handleWith key coordinator business) := by
  cases hr : w.handleWith key coordinator business with
  | refuse | skip => trivial
  | direct touched sends => cases hr
  | handle key touched result =>
    obtain ⟨-, htouched, hresult⟩ := handle_inj hr
    refine ⟨by rw [htouched], fun change logical hx => ?_⟩
    obtain ⟨seqs, hret⟩ := hresult _ hx
    exact hb _ _ _ _ hret

theorem sendsStream_ofAction {t : SumWorker π} {action : Option CoordinatorAction}
    (hc : t.state.closedByClient = w.state.closedByClient)
    (ht : ∀ message ∈ EofCoordinator.messagesOf action,
      message.msgType ≠ .data ∧ message.msgType ≠ .eof) : SendsStream w (.ofAction t action) := by
  cases hr : (Reaction.ofAction t action : Reaction (SumWorker π) SumChange) with
  | refuse | skip => trivial
  | direct touched sends =>
    obtain ⟨rfl, hsends⟩ := streamPacket?_ofAction ht hr
    exact ⟨hc, hsends⟩
  | handle key touched result =>
    unfold Reaction.ofAction at hr
    split at hr
    · cases hr
    · split at hr <;> cases hr

/-- The partials of a client. -/
theorem stream_partialsOutputs {partials : List (String × Bytes)} {seqs seqs' : Dict Nat Nat}
    (h : (cfg.partialsOutputs c partials).Returns seqs logical seqs') :
    Stream c (seqs.getD c 0) (outputPackets logical) :=
  (CountingM.numbers_partialsOutputs cfg partials _ _ _ h).1

/-- The partials of a client, and the EOFs behind them. -/
theorem stream_flush {partials : List (String × Bytes)} {total : Nat}
    {own eofs : List LogicalOutput}
    {seqs seqs₁ seqs₂ : Dict Nat Nat}
    (hown : (cfg.partialsOutputs c partials).Returns seqs own seqs₁)
    (heofs : (cfg.eofOutputs c total).Returns seqs₁ eofs seqs₂) :
    Stream c (seqs.getD c 0) (outputPackets (own ++ eofs)) := by
  rw [outputPackets_append]
  obtain ⟨hs, hn⟩ := CountingM.numbers_partialsOutputs cfg partials _ _ _ hown
  obtain ⟨hs', -⟩ := CountingM.numbers_eofOutputs cfg total _ _ _ heofs
  exact hs.append (hs'.congr hn.symm)

theorem control_downstreamAbortOutputs {seqs seqs' : Dict Nat Nat}
    (h : (cfg.downstreamAbortOutputs c).Returns seqs logical seqs') :
    ∀ p ∈ outputPackets logical, streamPacket? p.2 = none := by
  unfold downstreamAbortOutputs at h
  generalize List.range cfg.aggregationAmount = indices at h
  induction indices generalizing seqs seqs' logical with
  | nil =>
    rw [List.mapM_nil] at h
    obtain ⟨rfl, -⟩ := CountingM.returns_pure h
    simp [outputPackets]
  | cons index indices ih =>
    rw [List.mapM_cons] at h
    obtain ⟨output, seqs₁, hout, h⟩ := CountingM.returns_bind h
    obtain ⟨rest, seqs₂, hrest, h⟩ := CountingM.returns_bind h
    obtain ⟨rfl, -⟩ := CountingM.returns_pure h
    obtain ⟨seq, seqs₃, -, hout⟩ := CountingM.returns_bind hout
    obtain ⟨body, seqs₄, hbody, hout⟩ := CountingM.returns_bind hout
    obtain ⟨hbody, -⟩ := CountingM.returns_lift hbody
    obtain ⟨rfl, -⟩ := CountingM.returns_pure hout
    intro p hp
    rcases List.mem_cons.mp hp with rfl | hp
    · rw [streamPacket?_create hbody]
      rfl
    · exact ih hrest p hp

theorem sendsStream_processMessage (cfg : SumConfig π) (w : SumWorker π) (body : Bytes) :
    SendsStream w (cfg.processMessage w body) := by
  unfold processMessage
  split
  · trivial
  · next m hm =>
    split
    · unfold handleData
      split
      · trivial
      · refine sendsStream_handleWith w _ fun seqs change logical seqs' hret => .inl ?_
        cases (CountingM.returns_pure hret).1
        simp [outputPackets]
    · unfold handleUpstreamEof
      split
      · trivial
      · dsimp only
        split
        · trivial
        · next hopen =>
          refine sendsStream_handleWith w _ fun seqs change logical seqs' hret => ?_
          split at hret
          · next queueNames message sleep hact =>
            obtain ⟨outputs, seqs₁, hout, hret⟩ := CountingM.returns_bind hret
            cases (CountingM.returns_pure hret).1
            refine .inl (streamPacket?_actionOutputs (CountingM.returns_lift hout).1
              fun message hmem => ?_)
            exact EofCoordinator.ne_stream_of_onUpstreamEof (hact ▸ hmem)
          · obtain ⟨partials, seqs₁, -, hret⟩ := CountingM.returns_bind hret
            obtain ⟨own, seqs₂, hown, hret⟩ := CountingM.returns_bind hret
            obtain ⟨eofs, seqs₃, heofs, hret⟩ := CountingM.returns_bind hret
            cases (CountingM.returns_pure hret).1
            refine .inr ⟨m.clientId, _, fun hc => hopen (decide_eq_true hc), ?_,
              stream_flush hown heofs⟩
            exact Finset.mem_insert_self ..
          · cases (CountingM.returns_pure hret).1
            exact .inl (by simp [outputPackets])
    · unfold handleAbort
      split
      · trivial
      · refine sendsStream_handleWith w _ fun seqs change logical seqs' hret => ?_
        obtain ⟨outputs, seqs₁, hout, hret⟩ := CountingM.returns_bind hret
        cases (CountingM.returns_pure hret).1
        exact .inl (control_downstreamAbortOutputs hout)
    · trivial

theorem sendsStream_handleControl (cfg : SumConfig π) (w : SumWorker π) (body : Bytes) :
    SendsStream w (cfg.handleControl w body) := by
  unfold handleControl
  split
  · trivial
  · next msgType clientId ctrl hp =>
    split
    · have hne := fun message => @EofCoordinator.ne_stream_of_processControlMessage cfg.coordinator
        w.state.coordinator message clientId (w.state.processedCount clientId)
        (w.state.processedCount clientId) .eofReceived ctrl
      unfold handleEofReceived
      refine sendsStream_handleWith w _ fun seqs change logical seqs' hret => .inl ?_
      dsimp only at hret
      split at hret
      · next queueName message hact =>
        obtain ⟨outputs, seqs₁, hout, hret⟩ := CountingM.returns_bind hret
        cases (CountingM.returns_pure hret).1
        refine streamPacket?_actionOutputs (CountingM.returns_lift hout).1 fun message hmem => ?_
        rw [← hact] at hmem
        exact hne message hmem
      · cases (CountingM.returns_pure hret).1
        simp [outputPackets]
    · exact sendsStream_ofAction rfl fun message =>
        EofCoordinator.ne_stream_of_processControlMessage
    · unfold handleFlushOrder
      split
      · trivial
      · split
        · trivial
        · next hopen =>
          refine sendsStream_handleWith w _ fun seqs change logical seqs' hret => ?_
          obtain ⟨partials, seqs₁, -, hret⟩ := CountingM.returns_bind hret
          obtain ⟨own, seqs₂, hown, hret⟩ := CountingM.returns_bind hret
          obtain ⟨flushAck, seqs₃, hack, hret⟩ := CountingM.returns_bind hret
          cases (CountingM.returns_pure hret).1
          have hack : streamPacket? flushAck = none :=
            streamPacket?_toBytes (CountingM.returns_lift hack).1 (fun h => by cases h)
              (fun h => by cases h)
          refine .inr ⟨clientId, seqs₁.getD clientId 0, fun hc => hopen (decide_eq_true hc), ?_, ?_⟩
          · exact Finset.mem_insert_self ..
          · rw [outputPackets_append]
            refine (stream_partialsOutputs hown).append (.of_control fun p hp => ?_)
            obtain rfl := List.mem_singleton.mp hp
            exact hack
    · exact ⟨rfl, by simp⟩

theorem sendsStream_handleResponse (cfg : SumConfig π) (w : SumWorker π) (body : Bytes) :
    SendsStream w (cfg.handleResponse w body) := by
  unfold handleResponse
  split
  · trivial
  · next msgType clientId ctrl hp =>
    split
    · unfold handleProcessedAnswer
      dsimp only
      exact sendsStream_ofAction rfl fun message =>
        EofCoordinator.ne_stream_of_processControlMessage
    · unfold handleFlushAck
      dsimp only
      split
      · trivial
      · next hopen =>
        refine sendsStream_handleWith w _ fun seqs change logical seqs' hret => ?_
        simp only [decide_eq_true_eq] at hret
        by_cases hlt : (w.state.coordinator.flushAcks.getD clientId ∅).card +
            (if ctrl.senderId ∈ w.state.coordinator.flushAcks.getD clientId ∅ then 0 else 1) <
              cfg.sumAmount - 1
        · rw [if_pos hlt] at hret
          cases (CountingM.returns_pure hret).1
          exact .inl (by simp [outputPackets])
        · rw [if_neg hlt] at hret
          obtain ⟨partials, seqs₁, -, hret⟩ := CountingM.returns_bind hret
          obtain ⟨own, seqs₂, hown, hret⟩ := CountingM.returns_bind hret
          obtain ⟨eofs, seqs₃, heofs, hret⟩ := CountingM.returns_bind hret
          cases (CountingM.returns_pure hret).1
          refine .inr ⟨clientId, _, fun hc => hopen (decide_eq_true hc), ?_,
            stream_flush hown heofs⟩
          exact Finset.mem_insert_self ..
    · exact ⟨rfl, by simp⟩

theorem sendsStream_react (cfg : SumConfig π) (w : SumWorker π) (message : WorkerDelivery) :
    SendsStream w (cfg.consumer.react w message) := by
  cases message with
  | input body => exact sendsStream_processMessage cfg w body
  | control body => exact sendsStream_handleControl cfg w body
  | response body => exact sendsStream_handleResponse cfg w body

/-! ### Along the log -/

/-- The packets of a record are those of one client, which was open and is closed by it. -/
def ClosingRecord (front : List (WalRecord SumChange)) : WalRecord SumChange → Prop
  | .inputApplied _ _ change outputs =>
    ClosesStream (closedIn front) change (outputs.map Publisher.packet)
  | .inputDone _ _ => True

variable (cfg) in
def closing : LogInvariant cfg.consumer.handler where
  Valid := ClosingRecord
  Holds history w := w.state.closedByClient = closedIn history
  fresh := rfl
  applied {history m key change outputs w} _ _ h := by
    rw [closedIn_applied, ← h]
    exact (applyChange_flush w.state change).2
  done {history m key w} _ _ h := by rw [closedIn_done, ← h]

/-- A client has packets in one record, and it is closed then. -/
structure ClosedOnce (history : List (WalRecord SumChange)) (c : Nat) : Prop where
  closed : streamOf c (loggedPackets history) ≠ [] → c ∈ closedIn history
  once : streamOf c (loggedPackets history) = [] ∨ ∃ v, ∃ record ∈ history,
    streamOf c (loggedPackets history) = streamOf c record.packets ∧
      CountsFrom (2 ^ 32) v (streamSeqs c (loggedPackets history))

theorem closedOnce (h : EachRecord ClosingRecord history) (c : Nat) : ClosedOnce history c := by
  induction history using List.reverseRecOn with
  | nil => exact ⟨fun hne => absurd rfl hne, .inl rfl⟩
  | append_singleton history record ih =>
    obtain ⟨hclosed, honce⟩ := ih (h.of_prefix (List.prefix_append _ _))
    have hrecord := h history record List.prefix_rfl
    have hsub : closedIn history ⊆ closedIn (history ++ [record]) := by
      cases record with
      | inputApplied m key change outputs =>
        rw [closedIn_applied]
        exact change.subset_closedAfter _
      | inputDone m key => rw [closedIn_done]
    -- a record without packets of the client
    have hnone : streamOf c record.packets = [] → ClosedOnce (history ++ [record]) c := by
      intro hnil
      have hsame : streamOf c (loggedPackets (history ++ [record])) =
          streamOf c (loggedPackets history) := by
        rw [loggedPackets_snoc, streamOf_append, hnil, List.append_nil]
      refine ⟨fun hne => hsub (hclosed (hsame ▸ hne)), ?_⟩
      rw [streamSeqs, hsame]
      exact honce.imp_right (Exists.imp fun v => Exists.imp fun r =>
        And.imp_left (List.mem_append_left _))
    cases record with
    | inputDone m key => exact hnone rfl
    | inputApplied m key change outputs =>
      rcases hrecord with hnil | ⟨c', v, hopen, hcloses, honly, hcount⟩
      · exact hnone (streamOf_control hnil)
      · by_cases hc : c = c'
        · subst hc
          have hempty : streamOf c (loggedPackets history) = [] :=
            Classical.not_not.mp fun hne => hopen (hclosed hne)
          have hsame :
              streamOf c (loggedPackets (history ++ [.inputApplied m key change outputs])) =
              streamOf c (WalRecord.inputApplied m key change outputs).packets := by
            rw [loggedPackets_snoc, streamOf_append, hempty, List.nil_append]
          refine ⟨fun _ => by rw [closedIn_applied]; exact hcloses,
            .inr ⟨v, _, List.mem_append_right _ List.mem_cons_self, hsame, ?_⟩⟩
          rw [streamSeqs, hsame]
          exact hcount
        · exact hnone (honly c hc)

/-! ### Runs -/

variable {s : Publisher.State (SumWorker π) SumChange}

theorem closing_exec {s' : Publisher.State (SumWorker π) SumChange} {l : Label WorkerDelivery}
    (hi : s.node.Follows (closing cfg)) (he : exec cfg.consumer .logged s l = some s') :
    s'.node.Follows (closing cfg) := by
  have hreact : ∀ message, SendsStream s.node.handler.workerState
      (cfg.consumer.react s.node.handler.workerState message) := sendsStream_react cfg _
  have hheld : s.node.handler.workerState.state.closedByClient = closedIn s.node.history := hi.holds
  refine Publisher.follows_exec hi (fun message outcome touched sends _ hr => ?_)
    (fun message outcome key touched result _ hr _ => ?_) (fun _ => trivial) he
  · have hsends := hreact message
    rw [hr] at hsends
    exact hsends.1.trans hheld
  · have hsends := hreact message
    rw [hr] at hsends
    refine ⟨hsends.1.trans hheld, fun change logical outputs hx hstamp => ?_⟩
    change ClosesStream _ _ _
    rw [packets_of_stamp rfl hstamp, ← hheld]
    exact hsends.2 change logical hx

theorem closing_of_reachable
    (h : Reachable (exec cfg.consumer .logged) (fun _ _ => True) (init cfg.consumer) s) :
    s.node.Follows (closing cfg) := by
  induction h with
  | init => exact Node.follows_init
  | step _ _ he ih => exact closing_exec ih he

theorem accounted_of_reachable
    (h : Reachable (exec cfg.consumer .logged) (fun _ _ => True) (init cfg.consumer) s) :
    Accounted cfg.consumer (fun p => streamPacket? p.2 = none) s := by
  refine h.invariant accounted_init fun s l s' hi _ he => ?_
  refine hi.exec (fun message outcome touched sends _ hr => ?_) he
  have hsends := sendsStream_react cfg s.node.handler.workerState message
  rw [hr] at hsends
  exact hsends.2

/-- In every run of a sum no number is reused with different content. -/
theorem noReuse_of_reachable
    (h : Reachable (exec cfg.consumer .logged) (fun _ _ => True) (init cfg.consumer) s) (c : Nat) :
    NoReuse c s.published := by
  have hacc := accounted_of_reachable h
  rcases (closedOnce (closing_of_reachable h).records c).once with hnil |
    ⟨v, record, hr, hsame, hcount⟩
  · refine noReuse_of_countsFrom (v := 0) hacc.published ?_ ?_
    · rw [streamSeqs, hnil]
      trivial
    · rw [hnil]
      exact Nat.zero_le _
  · refine noReuse_of_countsFrom hacc.published hcount ?_
    obtain ⟨bytes, hb⟩ := hacc.encoded record hr
    rw [hsame]
    exact (length_streamOf_le c record.packets).trans
      ((Wal.length_packets_le hb).trans (by decide))

end SumConfig

end MoneyLaundering
