import MoneyLaundering.ScatterGather.Q4FilterWorker

/-!
# The source gate over batches

`predict_data_outputs` runs the gates on copies of the sources that a batch meets, before
`apply_change` runs them on the sources themselves. Over all the batches of a client the predictions
are the two counted edges of each transaction whose source reaches enough targets, and the counts
that `apply_change` keeps for the `EOF`s are the numbers of predicted edges.
-/

namespace MoneyLaundering

open Q4

namespace Q4Filter

variable {cfg : Q4Config}

/-- `_apply_data` counts what the gates emit. -/
theorem forwarded_applyData (s : Q4FilterClient) (edges : List Q4TransactionEdge) (k : Nat) :
    (applyData cfg s edges).forwardedByPartition.getD k 0 =
      s.forwardedByPartition.getD k 0 +
        ((gateRun s.sources edges).2.filter (partitionOf cfg · = k)).length := by
  have key : (edges.foldl (applyEdge cfg) s).forwardedByPartition.getD k 0 =
      s.forwardedByPartition.getD k 0 +
        ((gateRun s.sources edges).2.filter (partitionOf cfg · = k)).length := by
    induction edges generalizing s with
    | nil => rfl
    | cons e edges ih =>
      rw [List.foldl_cons, ih, gateRun, List.filter_append, List.length_append, ← Nat.add_assoc]
      congr 1
      exact getD_foldl_increment ..
  exact key

/-- A batch is predicted to send a partition as many edges as it counts for it. -/
theorem forwarded_eq_length_predicted (s : Q4FilterClient)
    (edges : List Q4TransactionEdge) (k : Nat) :
    (applyData cfg s edges).forwardedByPartition.getD k 0 =
      s.forwardedByPartition.getD k 0 + ((predictDataOutputs cfg s edges).getD k []).length := by
  rw [forwarded_applyData, predictDataOutputs_eq, getD_groupInto]
  rfl

/-- All the predicted edges of a batch are what its gates emit. -/
theorem perm_grouped_predictDataOutputs (s : Q4FilterClient) (edges : List Q4TransactionEdge) :
    (predictDataOutputs cfg s edges).grouped.Perm (gateRun s.sources edges).2 := by
  have h := perm_grouped_groupInto (partitionOf cfg) ∅ (gateRun s.sources edges).2
  rw [Dict.grouped_empty, List.append_nil] at h
  rwa [predictDataOutputs_eq]

/-- Without a batch before them, the gates emit the two counted edges of each kept transaction. -/
theorem perm_gateRun (edges : List Q4TransactionEdge) :
    (gateRun ∅ edges).2.Perm ((kept edges).flatMap countedFor) := by
  refine perm_of_tally_eq fun w => ?_
  rw [tally_gateRun, tally_flatMap]

end Q4Filter

namespace Q4FilterState

variable (cfg : Q4FilterConfig)

/-- `predict_data_outputs`. -/
def predictDataOutputs (s : Q4FilterState) (clientId : Nat) (payload : Bytes) :
    Except String (Dict Nat (List Q4CountedEdge)) := do
  if s.isClosed clientId then return ∅
  let edges ← cfg.edgesOf payload
  return Q4Filter.predictDataOutputs cfg.deployment (s.client clientId) edges

/-- A sequence of batches of a client: each is predicted, and then applied. Returns the state after
all of them and the predictions. -/
def runBatches (s : Q4FilterState) (clientId : Nat) :
    List Bytes → Except String (Q4FilterState × List (Dict Nat (List Q4CountedEdge)))
  | [] => .ok (s, [])
  | payload :: payloads => do
    let predicted ← s.predictDataOutputs cfg clientId payload
    let (s', rest) ← runBatches (s.applyChange cfg (dataChange clientId payload)) clientId payloads
    return (s', predicted :: rest)

/-- The records that the `DATA` outputs of a batch bring to a partition. -/
def recordsSent (predicted : Dict Nat (List Q4CountedEdge)) (partition : Nat) :
    List Q4CountedEdge :=
  Body.content (toShard partition
    (dataOutputs cfg.deployment.filterBatchMaxEdges predicted predicted.sortedKeys))

variable {cfg} {s s' : Q4FilterState} {clientId : Nat} {payload : Bytes}
  {edges : List Q4TransactionEdge} {predicted : Dict Nat (List Q4CountedEdge)}

theorem recordsSent_eq (predicted : Dict Nat (List Q4CountedEdge)) (partition : Nat) :
    recordsSent cfg predicted partition = predicted.getD partition [] :=
  content_dataOutputs cfg.deployment.filterBatch_pos (Dict.perm_sortedKeys _) partition

theorem applyChange_dataChange (s : Q4FilterState) (clientId : Nat) (payload : Bytes) :
    s.applyChange cfg (dataChange clientId payload) =
      if clientId ∈ s.closedByClient then s
      else
        match cfg.edgesOf payload with
        | .error _ => s
        | .ok edges =>
          { s with
            byClient := s.byClient.set clientId
              (Q4Filter.applyData cfg.deployment (s.client clientId) edges) } := by
  change s.applyData cfg clientId (Base64.encode payload) = _
  rw [applyData, Base64.decode_encode]
  rfl

theorem applyChange_of_open (hopen : clientId ∉ s.closedByClient)
    (hread : cfg.edgesOf payload = .ok edges) :
    s.applyChange cfg (dataChange clientId payload) =
      { s with
        byClient := s.byClient.set clientId
          (Q4Filter.applyData cfg.deployment (s.client clientId) edges) } := by
  rw [applyChange_dataChange, if_neg hopen, hread]

theorem predictDataOutputs_of_open (hopen : clientId ∉ s.closedByClient)
    (hread : cfg.edgesOf payload = .ok edges) :
    s.predictDataOutputs cfg clientId payload =
      .ok (Q4Filter.predictDataOutputs cfg.deployment (s.client clientId) edges) := by
  unfold predictDataOutputs
  rw [isClosed, decide_eq_false hopen, hread]
  rfl

/-- In every state, the edges predicted for a partition are as many as the increments of its
count. -/
theorem forwarded_applyChange (h : s.predictDataOutputs cfg clientId payload = .ok predicted)
    (k : Nat) :
    ((s.applyChange cfg (dataChange clientId payload)).client clientId).forwardedByPartition.getD k
      0 =
      (s.client clientId).forwardedByPartition.getD k 0 + (predicted.getD k []).length := by
  by_cases hc : clientId ∈ s.closedByClient
  · unfold predictDataOutputs at h
    rw [isClosed, decide_eq_true hc] at h
    cases h
    rw [applyChange_dataChange, if_pos hc]
    rfl
  · cases hread : cfg.edgesOf payload with
    | error e =>
      unfold predictDataOutputs at h
      rw [isClosed, decide_eq_false hc, hread] at h
      cases h
    | ok edges =>
      rw [predictDataOutputs_of_open hc hread] at h
      cases h
      rw [applyChange_of_open hc hread, client, Dict.getD_set, if_pos rfl]
      exact Q4Filter.forwarded_eq_length_predicted ..

/-- What a run of batches leaves, from any state in which the client is open. -/
theorem runBatches_spec {payloads : List Bytes} {batches : List (List Q4TransactionEdge)}
    (hopen : clientId ∉ s.closedByClient) (hread : payloads.mapM cfg.edgesOf = .ok batches) :
    ∃ s' predictions, s.runBatches cfg clientId payloads = .ok (s', predictions) ∧
      (predictions.flatMap Dict.grouped).Perm
        (gateRun (s.client clientId).sources batches.flatten).2 ∧
      ∀ k, (s'.client clientId).forwardedByPartition.getD k 0 =
        (s.client clientId).forwardedByPartition.getD k 0 +
          (predictions.flatMap (recordsSent cfg · k)).length := by
  induction payloads generalizing s batches with
  | nil =>
    cases hread
    exact ⟨s, [], rfl, .refl _, fun k => rfl⟩
  | cons payload payloads ih =>
    rw [List.mapM_cons] at hread
    obtain ⟨edges, hedges, hread⟩ := Except.ok_of_bind hread
    obtain ⟨rest, hrest, hread⟩ := Except.ok_of_bind hread
    cases hread
    have happly := applyChange_of_open hopen hedges
    have hpredict := predictDataOutputs_of_open hopen hedges
    have hopen' : clientId ∉ (s.applyChange cfg (dataChange clientId payload)).closedByClient := by
      rw [happly]
      exact hopen
    obtain ⟨s', predictions, hrun, hperm, hcount⟩ := ih hopen' hrest
    refine ⟨s', Q4Filter.predictDataOutputs cfg.deployment (s.client clientId) edges :: predictions,
      ?_, ?_, fun k => ?_⟩
    · rw [runBatches, hpredict, Except.ok_bind, hrun]
      rfl
    · have hclient : ((s.applyChange cfg (dataChange clientId payload)).client clientId).sources =
          (gateRun (s.client clientId).sources edges).1 := by
        rw [happly, client, Dict.getD_set, if_pos rfl, Q4Filter.sources_applyData]
      rw [List.flatMap_cons, List.flatten_cons, gateRun_append]
      rw [hclient] at hperm
      exact (Q4Filter.perm_grouped_predictDataOutputs _ _).append hperm
    · rw [hcount k, forwarded_applyChange hpredict k, List.flatMap_cons, List.length_append,
        recordsSent_eq, Nat.add_assoc]

/-- **Source gate.** However the transactions of a client are ordered and batched: the edges
predicted over all batches are the incoming and the outgoing edge of each transaction whose source
reaches enough distinct targets within the run, once for each transaction; every batch, in every
state, is predicted to send a partition as many edges as `apply_change` adds to the count of the
partition; and the `EOF` of a partition then names the number of records sent to it. -/
theorem source_gate (cfg : Q4FilterConfig) {s : Q4FilterState} {clientId : Nat}
    {payloads : List Bytes}
    {batches : List (List Q4TransactionEdge)} (hopen : clientId ∉ s.closedByClient)
    (hfresh : s.client clientId = {}) (hread : payloads.mapM cfg.edgesOf = .ok batches) :
    (∃ s' predictions, s.runBatches cfg clientId payloads = .ok (s', predictions) ∧
      (predictions.flatMap Dict.grouped).Perm ((kept batches.flatten).flatMap countedFor) ∧
      ∀ partition < cfg.deployment.sumAmount,
        toShard partition (Q4Filter.buildEofOutputs cfg.deployment cfg.id (s'.client clientId)) =
          [.eof { senderId := cfg.id
                  expectedTotal := (predictions.flatMap (recordsSent cfg · partition)).length }]) ∧
    ∀ (t : Q4FilterState) (payload : Bytes) (predicted : Dict Nat (List Q4CountedEdge)),
      t.predictDataOutputs cfg clientId payload = .ok predicted → ∀ partition,
        ((t.applyChange cfg (dataChange clientId payload)).client
          clientId).forwardedByPartition.getD
            partition 0 =
          (t.client clientId).forwardedByPartition.getD partition 0 +
            (predicted.getD partition []).length := by
  refine ⟨?_, fun t payload predicted h => forwarded_applyChange h⟩
  obtain ⟨s', predictions, hrun, hperm, hcount⟩ := runBatches_spec hopen hread
  rw [hfresh] at hperm hcount
  refine ⟨s', predictions, hrun, hperm.trans (Q4Filter.perm_gateRun _), fun partition hlt => ?_⟩
  rw [Q4Filter.buildEofOutputs, toShard_eofOutputs hlt, hcount partition]
  simp

/-! Account `1` pays six accounts in two batches, and one of them pays back. -/

/-- A filter alone, before two workers of the next stage. -/
def scatteringFilter : Q4FilterConfig where
  deployment := { Q4Config.smallest with
    sumAmount := 2
    partitionForParts := Q4Config.byCharacters
    sumAmount_pos := Nat.two_pos
    partition_lt := Q4Config.byCharacters_lt }
  id := 0
  q4FilterPrefix := "q4_filter"
  snapshotInterval := 1000
  sha256 _ := []
  changeJson := .ofTable []

/-- The record of a transaction between two accounts of bank `7`. -/
def paymentRecord (source target : String) : Bytes :=
  (TransactionSerializer.serialize ⟨"2022/09/01 00:00:00", "7", source, "7", target, 0, "US Dollar",
    "ACH", 0⟩).toOption.getD []

def scatterPayloads : List Bytes :=
  [paymentRecord "1" "2" ++ paymentRecord "1" "3" ++ paymentRecord "2" "1",
    paymentRecord "1" "4" ++ paymentRecord "1" "5" ++ paymentRecord "1" "6" ++
      paymentRecord "1" "7"]

/-- The six payments of account `1` are predicted, twelve edges in all. -/
theorem source_gate_six_targets :
    ∃ batches s' predictions, scatterPayloads.mapM scatteringFilter.edgesOf = .ok batches ∧
      runBatches scatteringFilter {} 7 scatterPayloads = .ok (s', predictions) ∧
      (predictions.flatMap Dict.grouped).Perm ((kept batches.flatten).flatMap countedFor) ∧
      (kept batches.flatten).length = 6 := by
  have hread : ((scatterPayloads.mapM scatteringFilter.edgesOf).toOption.any fun batches =>
      decide ((kept batches.flatten).length = 6)) = true := by decide +kernel
  obtain ⟨batches, hbatches, hkept⟩ := (Option.any_eq_true _ _).mp hread
  have hok : scatterPayloads.mapM scatteringFilter.edgesOf = .ok batches := by
    cases hm : scatterPayloads.mapM scatteringFilter.edgesOf with
    | error e => rw [hm] at hbatches; cases hbatches
    | ok bs => rw [hm] at hbatches; cases hbatches; rfl
  have hopen : 7 ∉ ({} : Q4FilterState).closedByClient := Finset.notMem_empty 7
  obtain ⟨⟨s', predictions, hrun, hperm, -⟩, -⟩ := source_gate scatteringFilter hopen rfl hok
  exact ⟨batches, s', predictions, hok, hrun, hperm, of_decide_eq_true hkept⟩

end Q4FilterState

end MoneyLaundering
