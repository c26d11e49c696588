import Mathlib.Algebra.BigOperators.Intervals
import MoneyLaundering.Filter.Leader

/-!
# A cluster of filter replicas

Any number of replicas that share a network of control packets. The network only grows: a packet
that was sent, or recorded to be sent, may be delivered at any time, any number of times, to any
replica, or never. `FilterCluster.Inv` follows the counts of a client from the replicas through
their acks to the leader, and `FilterCluster.eof_stamped_once_with_routed_totals` is the accounting
of the cluster.
-/

namespace MoneyLaundering

open Bytes InternalProtocol SenderSequencer FilterConfig Transition

/-- The configuration of one replica of a cluster. -/
def FilterConfig.withId (cfg : FilterConfig) (id : Nat) : FilterConfig := { cfg with id }

/-- A deployment. The replicas differ in their id only, the upstream EOF of a client is routed to
the data queue of one of them, and the response queues are not among the outputs. -/
structure FilterClusterConfig where
  worker : FilterConfig
  leaderOf : Nat → Nat
  responseQueues : ∀ i j, (worker.withId i).outputEdges.get?
    ((worker.withId i).coordinator.responseQueueFor j) = none

/-- The configuration of replica `i`. -/
def FilterClusterConfig.at (cfg : FilterClusterConfig) (i : Nat) : FilterConfig :=
  cfg.worker.withId i

structure FilterCluster where
  replicas : Nat → FilterWorker
  network : List Bytes := []

/-- A section of one of the replicas, with its outcome. -/
structure ClusterAct where
  replica : Nat
  act : FilterAct
  outcome : Outcome

namespace FilterCluster

variable (cfg : FilterClusterConfig)

def init : FilterCluster where
  replicas i := .init (cfg.at i)

/-- A section of a replica. What it sends and what it records for sending is in the network. -/
def exec (cl : FilterCluster) (l : ClusterAct) : Option FilterCluster :=
  match (cl.replicas l.replica).exec (cfg.at l.replica) l.act l.outcome with
  | none => none
  | some w => some {
      replicas := Function.update cl.replicas l.replica w
      network := cl.network ++ (cl.replicas l.replica).emitted (cfg.at l.replica) w l.act }

/-- What a replica may be handed: on the data queue anything, but an EOF only at the leader of its
client; on the control and response queues what is in the network. -/
def deliverable (cl : FilterCluster) (replica : Nat) : FilterAct → Bool
  | .deliver (.input body) _ =>
    match unpackAddressedPacket body with
    | .ok m => m.msgType != MessageType.eof.toNat || replica == cfg.leaderOf m.clientId
    | .error _ => true
  | .deliver (.control body) _ => decide (body ∈ cl.network)
  | .deliver (.response body) _ => decide (body ∈ cl.network)
  | .commitDone _ => true

def allowed (cl : FilterCluster) (l : ClusterAct) : Prop :=
  l.replica < cfg.worker.filterAmount ∧ FilterWorker.isAbort l.act = false ∧
    cl.deliverable cfg l.replica l.act = true

instance (cl : FilterCluster) (l : ClusterAct) : Decidable (allowed cfg cl l) :=
  inferInstanceAs (Decidable (_ ∧ _ ∧ _))

/-- The runs without aborts. -/
def Run (cl : FilterCluster) : Prop := Reachable (exec cfg) (allowed cfg) (init cfg) cl

/-! ## The invariant -/

/-- The number of transactions of a client that a replica routed to a logical output. -/
def routedBy (cl : FilterCluster) (clientId : Nat) (logical : String) (i : Nat) : Nat :=
  (cfg.at i).routedCount logical (transactionsOf (cl.replicas i).routed clientId)

/-- The number that all replicas together routed there. -/
def routedByAll (cl : FilterCluster) (clientId : Nat) (logical : String) : Nat :=
  ∑ i ∈ Finset.range cfg.worker.filterAmount, cl.routedBy cfg clientId logical i

/-- The replica is closed for the client. -/
def Closed (cl : FilterCluster) (clientId i : Nat) : Prop :=
  (cl.replicas i).state.isClosed clientId = true

/-- A replica other than the leader that flushed the client. -/
structure Flushed (cl : FilterCluster) (clientId i : Nat) : Prop where
  lt : i < cfg.worker.filterAmount
  ne : i ≠ cfg.leaderOf clientId
  closed : cl.Closed clientId i

/-- What the leader of an open client has collected. -/
structure Collected (cl : FilterCluster) (clientId : Nat) : Prop where
  flushed : ∀ i ∈ (cl.replicas (cfg.leaderOf clientId)).state.flushedAcks clientId,
    cl.Flushed cfg clientId i
  recorded : ∀ i ∈ (cl.replicas (cfg.leaderOf clientId)).state.flushedAcks clientId,
    ∃ m change entries, .inputApplied m ⟨clientId, .ctrlFlushAck, i, clientId⟩ change entries ∈
      (cl.replicas (cfg.leaderOf clientId)).node.history
  counts : ∀ logical,
    ((cl.replicas (cfg.leaderOf clientId)).state.allForwardedByOutput clientId).getD logical 0 =
      ∑ i ∈ (cl.replicas (cfg.leaderOf clientId)).state.flushedAcks clientId,
        cl.routedBy cfg clientId logical i

/-- EOFs of a client that a replica stamped. -/
structure Stamped (cl : FilterCluster) (clientId i : Nat) (totals : List (String × Option Nat)) :
    Prop where
  leader : i = cfg.leaderOf clientId
  closed : ∀ j < cfg.worker.filterAmount, cl.Closed clientId j
  totals : totals = (cfg.at i).eofTargets.map fun target =>
    (target.1, some (cl.routedByAll cfg clientId target.2))

/-- What every step keeps. -/
structure Inv (cl : FilterCluster) : Prop where
  replica : ∀ i, FilterWorker.Inv (cfg.at i) (cl.replicas i)
  leads : ∀ i clientId, (cl.replicas i).state.Leads clientId → i = cfg.leaderOf clientId
  orders : ∀ body ∈ cl.network, ∀ clientId payload,
    unpackPacket body = .ok (MessageType.flushOrder.toNat, clientId, payload) →
    (cl.replicas (cfg.leaderOf clientId)).state.Leads clientId ∨
      cl.Closed clientId (cfg.leaderOf clientId)
  acks : ∀ body ∈ cl.network, ∀ clientId payload,
    unpackPacket body = .ok (MessageType.flushAck.toNat, clientId, payload) →
    ∃ i counts, cfg.worker.flushAckJson.loads payload = .ok (i, counts) ∧
      cl.Flushed cfg clientId i ∧
      ∀ logical, counts.getD logical 0 = cl.routedBy cfg clientId logical i
  collected : ∀ clientId, ¬ cl.Closed clientId (cfg.leaderOf clientId) → cl.Collected cfg clientId
  stamped : ∀ i m key change entries,
    .inputApplied m key change entries ∈ (cl.replicas i).node.history →
    (cfg.at i).eofTotals entries ≠ [] →
    cl.Stamped cfg key.clientId i ((cfg.at i).eofTotals entries)
  once : ∀ i clientId,
    (cl.replicas i).node.history.countP ((cfg.at i).stampsEof clientId) ≤ 1

variable {cfg} {cl cl' : FilterCluster} {l : ClusterAct}

theorem inv_init : Inv cfg (init cfg) where
  replica _ := FilterWorker.inv_init
  leads _ _ h := absurd rfl h
  orders := nofun
  acks := nofun
  collected _ _ := ⟨nofun, nofun, fun _ => rfl⟩
  stamped := nofun
  once _ _ := Nat.zero_le _

/-! ## One step -/

theorem exec_eq_some (h : cl.exec cfg l = some cl') : ∃ w,
    (cl.replicas l.replica).exec (cfg.at l.replica) l.act l.outcome = some w ∧
    cl'.replicas = Function.update cl.replicas l.replica w ∧
    cl'.network = cl.network ++ (cl.replicas l.replica).emitted (cfg.at l.replica) w l.act := by
  unfold exec at h
  split at h
  · cases h
  · next w hw =>
    cases h
    exact ⟨w, hw, rfl, rfl⟩

/-- A client that is closed at a replica stays so, and its routed transactions stay as they are. -/
theorem Inv.exec_closed (hi : Inv cfg cl) (he : cl.exec cfg l = some cl') {clientId i : Nat}
    (h : cl.Closed clientId i) : cl'.Closed clientId i ∧
      ∀ logical, cl'.routedBy cfg clientId logical i = cl.routedBy cfg clientId logical i := by
  obtain ⟨w, hw, hr, -⟩ := exec_eq_some he
  unfold Closed routedBy
  rw [hr]
  by_cases hj : i = l.replica
  · subst hj
    obtain ⟨hc, ht⟩ := (hi.replica _).durable.exec_closed hw h
    rw [Function.update_self]
    exact ⟨hc, fun logical => by rw [ht]⟩
  · rw [Function.update_of_ne hj]
    exact ⟨h, fun _ => rfl⟩

theorem Inv.exec_flushed (hi : Inv cfg cl) (he : cl.exec cfg l = some cl') {clientId i : Nat}
    (h : cl.Flushed cfg clientId i) : cl'.Flushed cfg clientId i :=
  ⟨h.lt, h.ne, (hi.exec_closed he h.closed).1⟩

theorem Inv.exec_leads_or_closed (hi : Inv cfg cl) (he : cl.exec cfg l = some cl')
    {clientId i : Nat} (h : (cl.replicas i).state.Leads clientId ∨ cl.Closed clientId i) :
    (cl'.replicas i).state.Leads clientId ∨ cl'.Closed clientId i := by
  obtain ⟨w, hw, hr, -⟩ := exec_eq_some he
  unfold Closed at h ⊢
  rw [hr]
  by_cases hj : i = l.replica
  · subst hj
    rw [Function.update_self]
    exact (hi.replica _).durable.exec_leads_or_closed hw h
  · rwa [Function.update_of_ne hj]

theorem Inv.exec_stamped (hi : Inv cfg cl) (he : cl.exec cfg l = some cl') {clientId i : Nat}
    {totals : List (String × Option Nat)} (h : cl.Stamped cfg clientId i totals) :
    cl'.Stamped cfg clientId i totals where
  leader := h.leader
  closed j hj := (hi.exec_closed he (h.closed j hj)).1
  totals := by
    have hsum : ∀ logical,
        cl'.routedByAll cfg clientId logical = cl.routedByAll cfg clientId logical := fun logical =>
      Finset.sum_congr rfl fun j hj =>
        (hi.exec_closed he (h.closed j (Finset.mem_range.mp hj))).2 logical
    simp only [hsum]
    exact h.totals

/-- The section recorded nothing new: it was a redelivery, failed, or finished an input. -/
structure Quiet (w w' : FilterWorker) : Prop where
  history : w'.node.history = w.node.history ∨
    ∃ m key, w'.node.history = w.node.history ++ [.inputDone m key]
  routed : w'.routed = w.routed
  state : w'.state.durable = w.state.durable

/-- The section recorded the delivered message. -/
structure Applies (cfg : FilterConfig) (w w' : FilterWorker) (act : FilterAct) (d : Delivery)
    (key : InputKey) (change : FilterChange) (entries : List OutboxEntry) : Prop where
  delivered : ∃ sumSeq, act = .deliver d sumSeq
  history : ∃ m, w'.node.history = w.node.history ++ [.inputApplied m key change entries]
  routed : w'.routed = w.routed ++ FilterWorker.batchOf w.state act
  state : w'.state.durable = (w.state.applyChange cfg.state change).durable
  new : w.node.handler.inbox.classify key = .new
  recorded : Recorded cfg w.state d key change entries
  stamped : ∀ e ∈ entries, ∃ output, StampedAs cfg.handler.toSequencerConfig key.clientId output e

/-- **Inversion of a step.** -/
theorem Inv.exec_cases (hi : Inv cfg cl) (he : cl.exec cfg l = some cl') :
    (∀ i ≠ l.replica, cl'.replicas i = cl.replicas i) ∧
    (Quiet (cl.replicas l.replica) (cl'.replicas l.replica) ∨
      ∃ d key change entries, Applies (cfg.at l.replica) (cl.replicas l.replica)
        (cl'.replicas l.replica) l.act d key change entries) := by
  obtain ⟨w, hw, hr, -⟩ := exec_eq_some he
  refine ⟨fun i hi => by rw [hr, Function.update_of_ne hi], ?_⟩
  rw [hr, Function.update_self]
  rcases ((hi.replica _).durable.exec_cases hw).2 with
    ⟨hh, hrouted, hs⟩ | ⟨d, sumSeq, key, change, entries, hact, hh, hrouted, hs, hnew, hrec⟩
  · exact .inl ⟨hh.imp_right fun ⟨key, _, h⟩ => ⟨_, key, h⟩, hrouted, hs⟩
  · exact .inr ⟨d, key, change, entries, ⟨sumSeq, hact⟩, ⟨_, hh⟩, hrouted, hs, hnew, hrec,
      fun _ he => (hi.replica _).durable.exec_stampedAs hw hh he⟩

theorem Quiet.mem_history {w w' : FilterWorker} (h : Quiet w w') {m : String} {key : InputKey}
    {change : FilterChange} {entries : List OutboxEntry} :
    .inputApplied m key change entries ∈ w'.node.history ↔
      .inputApplied m key change entries ∈ w.node.history := by
  rcases h.history with hh | ⟨m, key, hh⟩ <;> simp [hh]

theorem Applies.mem_history {cfg : FilterConfig} {w w' : FilterWorker}
    {act : FilterAct} {d : Delivery}
    {key : InputKey} {change : FilterChange} {entries : List OutboxEntry}
    (h : Applies cfg w w' act d key change entries) {record : WalRecord FilterChange}
    (hm : record ∈ w.node.history) : record ∈ w'.node.history := by
  obtain ⟨m, hh⟩ := h.history
  rw [hh]
  exact List.mem_append_left _ hm

/-- A record was there before, or is the one of the step. -/
theorem Inv.exec_mem_history (hi : Inv cfg cl) (he : cl.exec cfg l = some cl')
    {i : Nat} {m : String} {key : InputKey} {change : FilterChange} {entries : List OutboxEntry}
    (hm : .inputApplied m key change entries ∈ (cl'.replicas i).node.history) :
    .inputApplied m key change entries ∈ (cl.replicas i).node.history ∨
      i = l.replica ∧ ∃ d, Applies (cfg.at l.replica) (cl.replicas l.replica)
        (cl'.replicas l.replica) l.act d key change entries := by
  obtain ⟨hother, hcases⟩ := hi.exec_cases he
  by_cases hj : i = l.replica
  · subst hj
    rcases hcases with hq | ⟨d, key', change', entries', happ⟩
    · exact .inl (hq.mem_history.mp hm)
    · obtain ⟨m', hh⟩ := happ.history
      rw [hh] at hm
      rcases List.mem_append.mp hm with hm | hm
      · exact .inl hm
      · cases List.mem_singleton.mp hm
        exact .inr ⟨rfl, d, happ⟩
  · exact .inl (hother i hj ▸ hm)

theorem Inv.exec_history_mono (hi : Inv cfg cl) (he : cl.exec cfg l = some cl')
    {i : Nat} {m : String} {key : InputKey} {change : FilterChange} {entries : List OutboxEntry}
    (hm : .inputApplied m key change entries ∈ (cl.replicas i).node.history) :
    .inputApplied m key change entries ∈ (cl'.replicas i).node.history := by
  obtain ⟨hother, hcases⟩ := hi.exec_cases he
  by_cases hj : i = l.replica
  · subst hj
    rcases hcases with hq | ⟨d, key', change', entries', happ⟩
    · exact hq.mem_history.mpr hm
    · exact happ.mem_history hm
  · exact (hother i hj).symm ▸ hm

theorem Inv.exec_replica (hi : Inv cfg cl) (ha : allowed cfg cl l) (he : cl.exec cfg l = some cl')
    (i : Nat) : FilterWorker.Inv (cfg.at i) (cl'.replicas i) := by
  obtain ⟨w, hw, hr, -⟩ := exec_eq_some he
  rw [hr]
  by_cases hj : i = l.replica
  · subst hj
    rw [Function.update_self]
    exact FilterWorker.Inv.exec (l := (l.act, l.outcome)) (hi.replica _) ha.2.1 hw
  · rw [Function.update_of_ne hj]
    exact hi.replica i

theorem Inv.exec_leads (hi : Inv cfg cl) (ha : allowed cfg cl l) (he : cl.exec cfg l = some cl')
    {i clientId : Nat} (h : (cl'.replicas i).state.Leads clientId) : i = cfg.leaderOf clientId := by
  obtain ⟨w, hw, hr, -⟩ := exec_eq_some he
  rw [hr] at h
  by_cases hj : i = l.replica
  · subst hj
    rw [Function.update_self] at h
    rcases (hi.replica _).durable.exec_leads hw h with h | ⟨body, sumSeq, m, hact, hm, ht, rfl⟩
    · exact hi.leads _ _ h
    · have hd := ha.2.2
      simpa [hact, deliverable, hm, ht] using hd
  · rw [Function.update_of_ne hj] at h
    exact hi.leads i clientId h

theorem Inv.exec_orders (hi : Inv cfg cl) (he : cl.exec cfg l = some cl') {body payload : Bytes}
    {clientId : Nat} (hb : body ∈ cl'.network)
    (hp : unpackPacket body = .ok (MessageType.flushOrder.toNat, clientId, payload)) :
    (cl'.replicas (cfg.leaderOf clientId)).state.Leads clientId ∨
      cl'.Closed clientId (cfg.leaderOf clientId) := by
  obtain ⟨w, hw, -, hn⟩ := exec_eq_some he
  rw [hn] at hb
  rcases List.mem_append.mp hb with hb | hb
  · exact hi.exec_leads_or_closed he (hi.orders body hb clientId payload hp)
  · have hl := ((hi.replica _).durable.emitted hw (cfg.responseQueues _) hb).1 hp
    exact hi.exec_leads_or_closed he (.inl (hi.leads _ _ hl ▸ hl))

/-- An ack that enters the network is of a replica that does not lead the client, and has its final
counts. -/
theorem Inv.exec_acks (hi : Inv cfg cl) (ha : allowed cfg cl l) (he : cl.exec cfg l = some cl')
    {body payload : Bytes} {clientId : Nat} (hb : body ∈ cl'.network)
    (hp : unpackPacket body = .ok (MessageType.flushAck.toNat, clientId, payload)) :
    ∃ i counts, cfg.worker.flushAckJson.loads payload = .ok (i, counts) ∧
      cl'.Flushed cfg clientId i ∧
      ∀ logical, counts.getD logical 0 = cl'.routedBy cfg clientId logical i := by
  obtain ⟨w, hw, hr, hn⟩ := exec_eq_some he
  rw [hn] at hb
  rcases List.mem_append.mp hb with hb | hb
  · obtain ⟨i, counts, hload, hf, hcounts⟩ := hi.acks body hb clientId payload hp
    refine ⟨i, counts, hload, hi.exec_flushed he hf, fun logical => ?_⟩
    rw [hcounts logical, (hi.exec_closed he hf.closed).2 logical]
  · obtain ⟨hopen, hleads, hclosed, hrouted, hload, order, sumSeq, orderPayload, hact, ho⟩ :=
      ((hi.replica _).durable.emitted hw (cfg.responseQueues _) hb).2 hp
    have horder : order ∈ cl.network := by
      have hd := ha.2.2
      simpa [hact, deliverable] using hd
    refine ⟨l.replica, _, hload, ⟨ha.1, ?_, ?_⟩, fun logical => ?_⟩
    · intro heq
      -- the leader of an ordered client leads it or has closed it
      rcases heq ▸ hi.orders order horder clientId orderPayload ho with h | h
      · exact hleads h
      · exact absurd (h.symm.trans hopen) (by decide)
    · rw [Closed, hr, Function.update_self]
      exact hclosed
    · rw [(hi.replica _).conserved.counts clientId logical hopen, routedBy, hr,
        Function.update_self, hrouted]

/-- What was collected stays so while the acks stay as they are. -/
theorem Inv.exec_collected_of_eq (hi : Inv cfg cl) (he : cl.exec cfg l = some cl') {clientId : Nat}
    (h : cl.Collected cfg clientId)
    (hacks : (cl'.replicas (cfg.leaderOf clientId)).state.flushedAcks clientId =
      (cl.replicas (cfg.leaderOf clientId)).state.flushedAcks clientId)
    (hall : (cl'.replicas (cfg.leaderOf clientId)).state.allForwardedByOutput clientId =
      (cl.replicas (cfg.leaderOf clientId)).state.allForwardedByOutput clientId)
    (hhist : ∀ m key change entries,
      .inputApplied m key change entries ∈ (cl.replicas (cfg.leaderOf clientId)).node.history →
      .inputApplied m key change entries ∈ (cl'.replicas (cfg.leaderOf clientId)).node.history) :
    cl'.Collected cfg clientId := by
  refine ⟨?_, ?_, fun logical => ?_⟩
  · rw [hacks]
    exact fun i hm => hi.exec_flushed he (h.flushed i hm)
  · rw [hacks]
    intro i hm
    obtain ⟨m, change, entries, hrec⟩ := h.recorded i hm
    exact ⟨m, change, entries, hhist _ _ _ _ hrec⟩
  · rw [hacks, hall, h.counts logical]
    exact Finset.sum_congr rfl fun i hm =>
      ((hi.exec_closed he (h.flushed i hm).closed).2 logical).symm

/-- The ack of a response that is new was not collected before. -/
theorem Inv.ack_fresh (hi : Inv cfg cl) {clientId i : Nat} (h : cl.Collected cfg clientId)
    (hnew : (cl.replicas (cfg.leaderOf clientId)).node.handler.inbox.classify
      ⟨clientId, .ctrlFlushAck, i, clientId⟩ = .new) :
    i ∉ (cl.replicas (cfg.leaderOf clientId)).state.flushedAcks clientId := by
  intro hm
  obtain ⟨m, change, entries, hrec⟩ := h.recorded i hm
  exact (hi.replica _).durable.not_recorded hnew hrec

/-- A response with an ack is one of the network, so it has the final counts of its sender. -/
theorem Inv.ack_delivered (hi : Inv cfg cl) (ha : allowed cfg cl l) {body payload : Bytes}
    {sumSeq : String → Nat} {clientId i : Nat} {counts : Dict String Nat}
    (hact : l.act = .deliver (.response body) sumSeq)
    (hp : unpackPacket body = .ok (MessageType.flushAck.toNat, clientId, payload))
    (hload : cfg.worker.flushAckJson.loads payload = .ok (i, counts)) :
    cl.Flushed cfg clientId i ∧
      ∀ logical, counts.getD logical 0 = cl.routedBy cfg clientId logical i := by
  have hbody : body ∈ cl.network := by
    have hd := ha.2.2
    simpa [hact, deliverable] using hd
  obtain ⟨i', counts', hload', hf, hcounts⟩ := hi.acks body hbody clientId payload hp
  obtain ⟨rfl, rfl⟩ : i' = i ∧ counts' = counts := by
    simpa using hload'.symm.trans hload
  exact ⟨hf, hcounts⟩

/-- The leader collects one more ack. -/
theorem Inv.exec_collected_insert (hi : Inv cfg cl) (he : cl.exec cfg l = some cl')
    {clientId i : Nat}
    {counts : Dict String Nat} (h : cl.Collected cfg clientId) (hf : cl.Flushed cfg clientId i)
    (hcounts : ∀ logical, counts.getD logical 0 = cl.routedBy cfg clientId logical i)
    (hfresh : i ∉ (cl.replicas (cfg.leaderOf clientId)).state.flushedAcks clientId)
    (hacks : (cl'.replicas (cfg.leaderOf clientId)).state.flushedAcks clientId =
      insert i ((cl.replicas (cfg.leaderOf clientId)).state.flushedAcks clientId))
    (hall : (cl'.replicas (cfg.leaderOf clientId)).state.allForwardedByOutput clientId =
      addCounts ((cl.replicas (cfg.leaderOf clientId)).state.allForwardedByOutput clientId) counts)
    {m : String} {change : FilterChange} {entries : List OutboxEntry}
    (hhist : (cl'.replicas (cfg.leaderOf clientId)).node.history =
      (cl.replicas (cfg.leaderOf clientId)).node.history ++
        [.inputApplied m ⟨clientId, .ctrlFlushAck, i, clientId⟩ change entries]) :
    cl'.Collected cfg clientId := by
  have hsame : ∀ j, cl.Flushed cfg clientId j → ∀ logical,
      cl'.routedBy cfg clientId logical j = cl.routedBy cfg clientId logical j :=
    fun j hf logical => (hi.exec_closed he hf.closed).2 logical
  refine ⟨?_, ?_, fun logical => ?_⟩
  · rw [hacks]
    intro j hm
    rcases Finset.mem_insert.mp hm with rfl | hm
    · exact hi.exec_flushed he hf
    · exact hi.exec_flushed he (h.flushed j hm)
  · rw [hacks, hhist]
    intro j hm
    rcases Finset.mem_insert.mp hm with rfl | hm
    · exact ⟨m, change, entries, List.mem_append_right _ List.mem_cons_self⟩
    · obtain ⟨m', change', entries', hrec⟩ := h.recorded j hm
      exact ⟨m', change', entries', List.mem_append_left _ hrec⟩
  · rw [hacks, hall, getD_addCounts, Finset.sum_insert hfresh, h.counts logical, hcounts logical,
      hsame i hf logical, add_comm]
    congr 1
    exact Finset.sum_congr rfl fun j hm => (hsame j (h.flushed j hm) logical).symm

theorem Inv.exec_collected (hi : Inv cfg cl) (ha : allowed cfg cl l) (he : cl.exec cfg l = some cl')
    {clientId : Nat} (hopen : ¬ cl'.Closed clientId (cfg.leaderOf clientId)) :
    cl'.Collected cfg clientId := by
  have hcol := hi.collected clientId fun h => hopen (hi.exec_closed he h).1
  obtain ⟨hother, hcases⟩ := hi.exec_cases he
  by_cases hj : cfg.leaderOf clientId = l.replica
  · rw [← hj] at hcases
    rcases hcases with hq | ⟨d, key, change, entries, happ⟩
    · obtain ⟨hacks, hall⟩ := FilterState.acks_congr hq.state clientId
      exact hi.exec_collected_of_eq he hcol hacks hall fun _ _ _ _ => hq.mem_history.mpr
    · obtain ⟨hacks, hall⟩ := FilterState.acks_congr happ.state clientId
      have hopen' := FilterState.isClosed_congr happ.state clientId
      rw [Bool.eq_false_iff.mpr hopen] at hopen'
      rcases happ.recorded.acks hopen'.symm with
        ⟨hacks', hall'⟩ | ⟨body, payload, i, counts, rfl, hp, hload, -, rfl, hins⟩
      · exact hi.exec_collected_of_eq he hcol (hacks.trans hacks') (hall.trans hall')
          fun _ _ _ _ => happ.mem_history
      · obtain ⟨sumSeq, hact⟩ := happ.delivered
        obtain ⟨m, hh⟩ := happ.history
        obtain ⟨hf, hcounts⟩ := hi.ack_delivered ha hact hp hload
        have hfresh := hi.ack_fresh hcol happ.new
        obtain ⟨hacks', hall'⟩ := hins hfresh
        exact hi.exec_collected_insert he hcol hf hcounts hfresh (hacks.trans hacks')
          (hall.trans hall') hh
  · rw [← ne_eq] at hj
    have hsame := hother _ hj
    exact hi.exec_collected_of_eq he hcol (by rw [hsame]) (by rw [hsame])
      fun _ _ _ _ h => by rwa [hsame]

/-- The collected acks and one more are those of all replicas but the leader. -/
theorem Collected.insert_eq {clientId i : Nat} (h : cl.Collected cfg clientId)
    (hf : cl.Flushed cfg clientId i)
    (hi : i ∉ (cl.replicas (cfg.leaderOf clientId)).state.flushedAcks clientId)
    (hl : cfg.leaderOf clientId < cfg.worker.filterAmount)
    (hlast : cfg.worker.filterAmount - 1 ≤
      (cl.replicas (cfg.leaderOf clientId)).state.flushedAckCount clientId + 1) :
    insert i ((cl.replicas (cfg.leaderOf clientId)).state.flushedAcks clientId) =
      (Finset.range cfg.worker.filterAmount).erase (cfg.leaderOf clientId) := by
  refine Finset.eq_of_subset_of_card_le (fun j hj => ?_) ?_
  · have hflushed : cl.Flushed cfg clientId j := by
      rcases Finset.mem_insert.mp hj with rfl | hj
      · exact hf
      · exact h.flushed j hj
    exact Finset.mem_erase.mpr ⟨hflushed.ne, Finset.mem_range.mpr hflushed.lt⟩
  · rw [Finset.card_erase_of_mem (Finset.mem_range.mpr hl), Finset.card_range,
      Finset.card_insert_of_notMem hi]
    exact hlast

/-- What the leader collected, the last ack and its own count make up all that was routed. -/
theorem Collected.sum_all {clientId i : Nat} (h : cl.Collected cfg clientId)
    (hf : cl.Flushed cfg clientId i)
    (hi : i ∉ (cl.replicas (cfg.leaderOf clientId)).state.flushedAcks clientId)
    (hl : cfg.leaderOf clientId < cfg.worker.filterAmount)
    (hlast : cfg.worker.filterAmount - 1 ≤
      (cl.replicas (cfg.leaderOf clientId)).state.flushedAckCount clientId + 1) :
    (∀ j < cfg.worker.filterAmount, j ≠ cfg.leaderOf clientId → cl.Flushed cfg clientId j) ∧
    ∀ logical, ((cl.replicas (cfg.leaderOf clientId)).state.allForwardedByOutput
        clientId).getD logical 0 + cl.routedBy cfg clientId logical i +
        cl.routedBy cfg clientId logical (cfg.leaderOf clientId) =
      cl.routedByAll cfg clientId logical := by
  have heq := h.insert_eq hf hi hl hlast
  refine ⟨fun j hj hne => ?_, fun logical => ?_⟩
  · have hm := heq ▸ Finset.mem_erase.mpr ⟨hne, Finset.mem_range.mpr hj⟩
    rcases Finset.mem_insert.mp hm with rfl | hm
    · exact hf
    · exact h.flushed j hm
  · rw [routedByAll, ← Finset.sum_erase_add _ _ (Finset.mem_range.mpr hl), ← heq,
      Finset.sum_insert hi, h.counts logical]
    omega

section stamping

variable {d : Delivery} {key : InputKey} {change : FilterChange} {entries : List OutboxEntry}

/-- A section closes the clients that its change closes. -/
theorem Applies.closed_iff (h : Applies (cfg.at l.replica) (cl.replicas l.replica)
      (cl'.replicas l.replica) l.act d key change entries) (clientId : Nat) :
    cl'.Closed clientId l.replica ↔
      cl.Closed clientId l.replica ∨ .close clientId ∈ change.ops := by
  have hmem := FilterState.mem_closedByClient_applyChange (cfg.at l.replica).state
    (cl.replicas l.replica).state change clientId
  rw [Closed, Closed, FilterState.isClosed_congr h.state, FilterState.isClosed,
    FilterState.isClosed, decide_eq_true_eq, decide_eq_true_eq, hmem]

theorem Applies.closed (h : Applies (cfg.at l.replica) (cl.replicas l.replica)
      (cl'.replicas l.replica) l.act d key change entries)
    (hclose : .close key.clientId ∈ change.ops) : cl'.Closed key.clientId l.replica :=
  (h.closed_iff key.clientId).mpr (.inr hclose)

/-- Without aborts, no abort is recorded. -/
theorem Applies.kind_ne_abort {w w' : FilterWorker} {act : FilterAct} {cfg : FilterConfig}
    (h : Applies cfg w w' act d key change entries) (ha : FilterWorker.isAbort act = false) :
    key.kind ≠ .abort := by
  obtain ⟨sumSeq, rfl⟩ := h.delivered
  cases h.recorded with
  | aborted hm ht => simp [FilterWorker.isAbort, hm, ht] at ha
  | _ =>
    intro hk
    cases hk

/-- A section that hands nothing to the routing loop routes nothing. -/
theorem Applies.routedBy_eq (h : Applies (cfg.at l.replica) (cl.replicas l.replica)
      (cl'.replicas l.replica) l.act d key change entries)
    (hb : FilterWorker.batchOf (cl.replicas l.replica).state l.act = []) (clientId : Nat)
    (logical : String) :
    cl'.routedBy cfg clientId logical l.replica = cl.routedBy cfg clientId logical l.replica := by
  rw [routedBy, routedBy, h.routed, hb, List.append_nil]

/-- The EOFs of a replica that is alone. -/
theorem Inv.exec_stamps_alone (hi : Inv cfg cl) (ha : allowed cfg cl l)
    (happ : Applies (cfg.at l.replica) (cl.replicas l.replica) (cl'.replicas l.replica) l.act d key
      change entries) {body : Bytes} {m : Addressed} (hd : d = .input body)
    (hm : unpackAddressedPacket body = .ok m) (ht : m.msgType = MessageType.eof.toNat)
    (hc : m.clientId = key.clientId) (hone : cfg.worker.filterAmount ≤ 1)
    (hopen : (cl.replicas l.replica).state.isClosed key.clientId = false)
    (hclose : .close key.clientId ∈ change.ops) {totals : List (String × Option Nat)}
    (htotals : totals = (cfg.at l.replica).eofTargets.map fun target => (target.1,
      some (((cl.replicas l.replica).state.forwardedByOutput key.clientId).getD target.2 0))) :
    cl'.Stamped cfg key.clientId l.replica totals := by
  obtain ⟨sumSeq, hact⟩ := happ.delivered
  rw [hd] at hact
  have hlt := ha.1
  have hall : ∀ logical, cl'.routedByAll cfg key.clientId logical =
      ((cl.replicas l.replica).state.forwardedByOutput key.clientId).getD logical 0 := by
    intro logical
    have hN : cfg.worker.filterAmount = 1 := by omega
    have hzero : l.replica = 0 := by omega
    rw [(hi.replica l.replica).conserved.counts key.clientId logical hopen, routedByAll, hN,
      Finset.sum_range_one, ← hzero]
    exact happ.routedBy_eq (by simp [hact, FilterWorker.batchOf, hm, ht, MessageType.toNat]) _ _
  refine ⟨?_, fun j hj => ?_, ?_⟩
  · have hdel := ha.2.2
    simpa [hact, deliverable, hm, ht, hc] using hdel
  · obtain rfl : j = l.replica := by omega
    exact happ.closed hclose
  · rw [htotals]
    simp only [hall]

/-- The EOFs of the leader at the last ack. -/
theorem Inv.exec_stamps_last (hi : Inv cfg cl) (ha : allowed cfg cl l)
    (he : cl.exec cfg l = some cl')
    (happ : Applies (cfg.at l.replica) (cl.replicas l.replica) (cl'.replicas l.replica) l.act d key
      change entries) {body payload : Bytes} {i : Nat} {counts : Dict String Nat}
    (hd : d = .response body)
    (hp : unpackPacket body = .ok (MessageType.flushAck.toNat, key.clientId, payload))
    (hload : cfg.worker.flushAckJson.loads payload = .ok (i, counts))
    (hleads : (cl.replicas l.replica).state.Leads key.clientId)
    (hlast : cfg.worker.filterAmount - 1 ≤
      (cl.replicas l.replica).state.flushedAckCount key.clientId + 1)
    (hkey : key = ⟨key.clientId, .ctrlFlushAck, i, key.clientId⟩)
    (hopen : (cl.replicas l.replica).state.isClosed key.clientId = false)
    (hclose : .close key.clientId ∈ change.ops) {totals : List (String × Option Nat)}
    (htotals : totals = (cfg.at l.replica).eofTargets.map fun target => (target.1,
      some ((addCounts (addCounts ((cl.replicas l.replica).state.allForwardedByOutput key.clientId)
        counts) ((cl.replicas l.replica).state.forwardedByOutput key.clientId)).getD target.2 0))) :
    cl'.Stamped cfg key.clientId l.replica totals := by
  obtain ⟨sumSeq, hact⟩ := happ.delivered
  rw [hd] at hact
  have hleader := hi.leads _ _ hleads
  obtain ⟨hf, hcounts⟩ := hi.ack_delivered ha hact hp hload
  have hcol := hi.collected key.clientId fun h => by
    rw [Closed, ← hleader, hopen] at h
    cases h
  have hfresh := hi.ack_fresh hcol (hleader ▸ hkey ▸ happ.new)
  obtain ⟨hall, hsum⟩ := hcol.sum_all hf hfresh (hleader ▸ ha.1) (hleader ▸ hlast)
  have hclosed : ∀ j < cfg.worker.filterAmount, cl'.Closed key.clientId j ∧ ∀ logical,
      cl'.routedBy cfg key.clientId logical j = cl.routedBy cfg key.clientId logical j := by
    intro j hj
    by_cases hjl : j = l.replica
    · subst hjl
      exact ⟨happ.closed hclose, happ.routedBy_eq (by simp [hact, FilterWorker.batchOf]) _⟩
    · exact hi.exec_closed he (hall j hj (hleader ▸ hjl)).closed
  refine ⟨hleader, fun j hj => (hclosed j hj).1, ?_⟩
  rw [htotals]
  refine List.map_congr_left fun target _ => ?_
  have hsame : cl'.routedByAll cfg key.clientId target.2 =
      cl.routedByAll cfg key.clientId target.2 :=
    Finset.sum_congr rfl fun j hj => (hclosed j (Finset.mem_range.mp hj)).2 target.2
  rw [hsame, ← hsum, getD_addCounts, getD_addCounts, hcounts, ← hleader,
    (hi.replica l.replica).conserved.counts key.clientId target.2 hopen]
  rfl

/-- The EOFs that a section stamps. -/
theorem Inv.exec_stamps (hi : Inv cfg cl) (ha : allowed cfg cl l) (he : cl.exec cfg l = some cl')
    (happ : Applies (cfg.at l.replica) (cl.replicas l.replica) (cl'.replicas l.replica) l.act d key
      change entries) (heof : (cfg.at l.replica).eofTotals entries ≠ []) :
    cl'.Stamped cfg key.clientId l.replica ((cfg.at l.replica).eofTotals entries) := by
  obtain ⟨hopen, hclose, hcases⟩ := happ.recorded.eofTotals heof
  rcases hcases with ⟨body, m, hd, hm, ht, hc, hone, htotals⟩ |
    ⟨body, payload, i, counts, hd, hp, hload, hleads, hlast, hkey, htotals⟩
  · exact hi.exec_stamps_alone ha happ hd hm ht hc hone hopen hclose htotals
  · exact hi.exec_stamps_last ha he happ hd hp hload hleads hlast hkey hopen hclose htotals

/-- A replica that is open for a client has stamped no EOF of it. -/
theorem Inv.countP_stampsEof (hi : Inv cfg cl) {i clientId : Nat}
    (hlt : i < cfg.worker.filterAmount) (hopen : (cl.replicas i).state.isClosed clientId = false) :
    (cl.replicas i).node.history.countP ((cfg.at i).stampsEof clientId) = 0 := by
  refine List.countP_eq_zero.mpr fun record hm hs => ?_
  cases record with
  | inputDone m key => cases hs
  | inputApplied m key change entries =>
    obtain ⟨rfl, heof⟩ := stampsEof_inputApplied.mp hs
    have hclosed := (hi.stamped i m key change entries hm heof).closed i hlt
    rw [Closed, hopen] at hclosed
    cases hclosed

end stamping

theorem Inv.exec_stamped_all (hi : Inv cfg cl) (ha : allowed cfg cl l)
    (he : cl.exec cfg l = some cl')
    {i : Nat} {m : String} {key : InputKey} {change : FilterChange} {entries : List OutboxEntry}
    (hm : .inputApplied m key change entries ∈ (cl'.replicas i).node.history)
    (heof : (cfg.at i).eofTotals entries ≠ []) :
    cl'.Stamped cfg key.clientId i ((cfg.at i).eofTotals entries) := by
  rcases hi.exec_mem_history he hm with hm | ⟨rfl, d, happ⟩
  · exact hi.exec_stamped he (hi.stamped i m key change entries hm heof)
  · exact hi.exec_stamps ha he happ heof

theorem Inv.exec_once (hi : Inv cfg cl) (ha : allowed cfg cl l) (he : cl.exec cfg l = some cl')
    (i clientId : Nat) :
    (cl'.replicas i).node.history.countP ((cfg.at i).stampsEof clientId) ≤ 1 := by
  obtain ⟨hother, hcases⟩ := hi.exec_cases he
  have hold := hi.once i clientId
  by_cases hj : i = l.replica
  · subst hj
    rcases hcases with hq | ⟨d, key, change, entries, happ⟩
    · rcases hq.history with hh | ⟨m, key, hh⟩
      · rwa [hh]
      · rw [hh, List.countP_append]
        simpa [stampsEof] using hold
    · obtain ⟨m, hh⟩ := happ.history
      rw [hh, List.countP_append]
      by_cases hs :
        (cfg.at l.replica).stampsEof clientId (.inputApplied m key change entries) = true
      · obtain ⟨rfl, heof⟩ := stampsEof_inputApplied.mp hs
        rw [hi.countP_stampsEof ha.1 (happ.recorded.eofTotals heof).1]
        simp [hs]
      · simpa [hs] using hold
  · rwa [hother i hj]

theorem Inv.exec (hi : Inv cfg cl) (ha : allowed cfg cl l) (he : cl.exec cfg l = some cl') :
    Inv cfg cl' where
  replica i := hi.exec_replica ha he i
  leads _ _ h := hi.exec_leads ha he h
  orders _ hb _ _ hp := hi.exec_orders he hb hp
  acks _ hb _ _ hp := hi.exec_acks ha he hb hp
  collected _ h := hi.exec_collected ha he h
  stamped _ _ _ _ _ hm heof := hi.exec_stamped_all ha he hm heof
  once i clientId := hi.exec_once ha he i clientId

theorem Run.inv (h : Run cfg cl) : Inv cfg cl :=
  Reachable.invariant inv_init (fun _ _ _ hi ha he => hi.exec ha he) h

/-- **The accounting of a filter cluster.** In every run of any number of replicas, under any
configuration and any distribution of the batches, with EOFs, control and response packets delivered
in any order and any number of times, failing appends and crashes: at most one input over all
replicas stamps the downstream EOFs of a client, and each of these EOFs carries the number of
transactions of the client that all replicas together routed to its logical output. -/
theorem eof_stamped_once_with_routed_totals (cfg : FilterClusterConfig) {cl : FilterCluster}
    (h : Run cfg cl) (clientId : Nat) :
    ∑ i ∈ Finset.range cfg.worker.filterAmount,
      (cl.replicas i).node.history.countP ((cfg.at i).stampsEof clientId) ≤ 1 ∧
    ∀ i < cfg.worker.filterAmount, ∀ m key change entries,
      .inputApplied m key change entries ∈ (cl.replicas i).node.history →
      key.clientId = clientId → (cfg.at i).eofTotals entries ≠ [] →
      (cfg.at i).eofTotals entries = (cfg.at i).eofTargets.map fun target =>
        (target.1, some (∑ j ∈ Finset.range cfg.worker.filterAmount,
          (cfg.at j).routedCount target.2 (transactionsOf (cl.replicas j).routed clientId))) := by
  have hi := h.inv
  refine ⟨?_, fun i _ m key change entries hm hc heof => ?_⟩
  · -- only the leader stamps
    have hzero : ∀ i ∈ Finset.range cfg.worker.filterAmount, i ≠ cfg.leaderOf clientId →
        (cl.replicas i).node.history.countP ((cfg.at i).stampsEof clientId) = 0 := by
      intro i _ hne
      refine List.countP_eq_zero.mpr fun record hm hs => ?_
      cases record with
      | inputDone m key => cases hs
      | inputApplied m key change entries =>
        obtain ⟨rfl, heof⟩ := stampsEof_inputApplied.mp hs
        exact hne (hi.stamped i m key change entries hm heof).leader
    calc ∑ i ∈ Finset.range cfg.worker.filterAmount,
          (cl.replicas i).node.history.countP ((cfg.at i).stampsEof clientId)
        ≤ (cl.replicas (cfg.leaderOf clientId)).node.history.countP
          ((cfg.at (cfg.leaderOf clientId)).stampsEof clientId) := by
          by_cases hl : cfg.leaderOf clientId ∈ Finset.range cfg.worker.filterAmount
          · rw [Finset.sum_eq_single_of_mem _ hl hzero]
          · rw [Finset.sum_eq_zero fun i hm => hzero i hm fun heq => hl (heq ▸ hm)]
            exact Nat.zero_le _
      _ ≤ 1 := hi.once _ clientId
  · subst hc
    exact (hi.stamped i m key change entries hm heof).totals

/-- A filter `Q1` of two replicas that batches up to two payments, led by replica `0`, and the JSON
texts of the changes and of the ack in the run below. -/
def pairConfig : FilterClusterConfig where
  worker := { FilterWorker.sampleConfig with
    filterAmount := 2
    limits := { maxBytes := 1048576, maxItems := 2 }
    changeJson := .ofTable [
      (FilterState.dataChange 7 1 (Dict.empty.set "gateway" [FilterWorker.samplePaymentBytes])
        (Dict.empty.set "gateway" 1),
        encodeText ("\x7b\"type\": \"data\", \"client_id\": 7, \"processed_count\": 1, " ++
          "\"appends_by_dest\": \x7b\"gateway\": [\"" ++
          String.ofList (Base64.encode FilterWorker.samplePaymentBytes) ++
          "\"]\x7d, \"forwarded_by_output\": \x7b\"gateway\": 1\x7d\x7d")),
      (.single (.coordinatorUpstreamEof 7 2 1 1),
        encodeText ("\x7b\"type\": \"coordinator_upstream_eof\", \"client_id\": 7, " ++
          "\"expected_total\": 2, \"count\": 1, \"forwarded\": 1\x7d")),
      (.single (.coordinatorMsg .eofReceived 7 { senderId := 0, expectedTotal := 2 } 1 1),
        encodeText ("\x7b\"type\": \"coordinator_msg\", \"msg_type\": 7, \"client_id\": 7, " ++
          "\"sender_id\": 0, \"expected_total\": 2, \"processed_count\": 0, \"count\": 1, " ++
          "\"forwarded\": 1\x7d")),
      (.compound [.coordinatorCleanup 7 false, .close 7],
        encodeText ("\x7b\"type\": \"compound\", \"changes\": [" ++
          "\x7b\"type\": \"coordinator_cleanup\", \"client_id\": 7, \"is_leader\": false\x7d, " ++
          "\x7b\"type\": \"close\", \"client_id\": 7\x7d]\x7d")),
      (.compound [.flushAck 7 1 (Dict.empty.set "gateway" 1), .coordinatorCleanup 7 true, .close 7],
        encodeText ("\x7b\"type\": \"compound\", \"changes\": [" ++
          "\x7b\"type\": \"flush_ack\", \"client_id\": 7, \"sender_id\": 1, " ++
          "\"forwarded_by_output\": \x7b\"gateway\": 1\x7d\x7d, " ++
          "\x7b\"type\": \"coordinator_cleanup\", \"client_id\": 7, \"is_leader\": true\x7d, " ++
          "\x7b\"type\": \"close\", \"client_id\": 7\x7d]\x7d"))]
    flushAckJson := .ofTable [((1, Dict.empty.set "gateway" 1),
      encodeText "\x7b\"sender_id\": 1, \"forwarded_by_output\": \x7b\"gateway\": 1\x7d\x7d")] }
  leaderOf _ := 0
  responseQueues _ _ := rfl

/-- The EOF of client `7`, which announces two transactions. -/
def pairEof : Bytes :=
  1 :: (beEncode 16 7 ++ beEncode 4 3 ++ beEncode 4 1 ++
    (beEncode 4 3 ++ beEncode 4 2 ++ beEncode 4 0))

/-- A control packet of client `7`. -/
def pairControl (msgType : MessageType) (senderId expectedTotal processedCount : Nat) : Bytes :=
  UInt8.ofNat msgType.toNat :: (beEncode 16 7 ++
    (beEncode 4 senderId ++ beEncode 4 expectedTotal ++ beEncode 4 processedCount))

/-- The ack of replica `1`. -/
def pairAck : Bytes :=
  5 :: (beEncode 16 7 ++ encodeText
    "\x7b\"sender_id\": 1, \"forwarded_by_output\": \x7b\"gateway\": 1\x7d\x7d")

/-- One payment at each replica, the EOF at replica `0`, both answers, the flush order and the ack,
with a crash of replica `1` and deliveries of the order and of the ack once more. -/
def pairRun : List ClusterAct :=
  [⟨0, .deliver (.input FilterWorker.sampleData) fun _ => 0, .returns⟩,
   ⟨1, .deliver (.input FilterWorker.sampleData) fun _ => 0, .returns⟩,
   ⟨0, .deliver (.input pairEof) fun _ => 0, .returns⟩,
   ⟨0, .deliver (.control (pairControl .eofReceived 0 2 0)) fun _ => 0, .returns⟩,
   ⟨1, .deliver (.control (pairControl .eofReceived 0 2 0)) fun _ => 0, .returns⟩,
   ⟨0, .deliver (.response (pairControl .processedAnswer 0 1 1)) fun _ => 0, .returns⟩,
   ⟨0, .deliver (.response (pairControl .processedAnswer 1 1 1)) fun _ => 0, .returns⟩,
   ⟨1, .deliver (.control (pairControl .flushOrder 0 0 0)) fun _ => 0, .crashes 1⟩,
   ⟨1, .deliver (.control (pairControl .flushOrder 0 0 0)) fun _ => 0, .returns⟩,
   ⟨0, .deliver (.response pairAck) fun _ => 0, .returns⟩,
   ⟨0, .deliver (.response pairAck) fun _ => 0, .returns⟩]

/-- The totals that the records of a history stamp. -/
def stampedTotals (cfg : FilterConfig) (history : List (WalRecord FilterChange)) :
    List (List (String × Option Nat)) :=
  history.map fun record => cfg.eofTotals (record.loggedOutputs.map Prod.snd)

set_option maxRecDepth 20000 in
theorem eof_stamped_once_with_routed_totals_pair : ∃ cl, Run pairConfig cl ∧
    stampedTotals (pairConfig.at 0) (cl.replicas 0).node.history =
      [[], [], [], [("gateway", some 2)]] ∧
    ∑ i ∈ Finset.range 2,
      (cl.replicas i).node.history.countP ((pairConfig.at i).stampsEof 7) ≤ 1 := by
  have hrun : (runAllowed (exec pairConfig) (allowed pairConfig) (init pairConfig) pairRun).map
      (fun cl => stampedTotals (pairConfig.at 0) (cl.replicas 0).node.history) =
        some [[], [], [], [("gateway", some 2)]] := by decide +kernel
  obtain ⟨cl, hcl, ht⟩ := Option.map_eq_some_iff.mp hrun
  have hr : Run pairConfig cl := reachable_of_runAllowed .init hcl
  exact ⟨cl, hr, ht, (eof_stamped_once_with_routed_totals pairConfig hr 7).1⟩

end FilterCluster

end MoneyLaundering
