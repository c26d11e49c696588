import MoneyLaundering.ScatterGather.FanInState
import MoneyLaundering.ScatterGather.Q4Aggregator
import MoneyLaundering.ScatterGather.Wire

/-!
# The saturating reduction of pairs

The paths of a pair are cut at the threshold three times: by the joiner that sends them, by the
format they travel in, and by the sum that the aggregator keeps; and the sum is dropped once the
pair has qualified. Over all the batches of a client a pair still qualifies exactly when the paths
that were never cut reach the threshold, and it does so once.
-/

namespace MoneyLaundering

open Q4Joiner Q4PairPaths

/-! ## The pairs that qualify -/

/-- A pair that qualifies is not looked at again. -/
theorem nodup_newly_applyBatch (pairs : List Q4PairPaths) : (applyBatch ∅ ∅ pairs).newly.Nodup := by
  induction pairs using List.reverseRecOn with
  | nil => exact List.nodup_nil
  | append_singleton pairs pair ih =>
    have hred := reduced_applyBatch pairs
    rw [applyBatch, List.foldl_append]
    change (reducePair (applyBatch ∅ ∅ pairs) pair).newly.Nodup
    unfold reducePair
    split
    · exact ih
    · split
      · exact ih
      · next hq =>
        split
        · rw [← List.concat_eq_append]
          exact ih.concat fun hm => hq ((hred.newly _).mp hm)
        · exact ih

/-- Cutting the paths of every record does not change which pairs reach the threshold. -/
theorem threshold_le_tally_capped (a b : Q4AccountId) (pairs : List Q4PairPaths) :
    q4QualifyThreshold ≤ tally (pairWeight a b) (pairs.map capped) ↔
      q4QualifyThreshold ≤ tally (pairWeight a b) pairs := by
  have hcut : ∀ p ∈ pairs, pairWeight a b p.capped = min (pairWeight a b p) q4QualifyThreshold := by
    intro p _
    unfold pairWeight capped
    split
    · rfl
    · rfl
  rw [tally_map, tally_congr hcut, le_tally_min_iff]

/-! ## The state -/

/-- `Q4AggregatorState`. -/
abbrev Q4AggregatorState := FanInState Q4AggregatorClient

namespace Q4Aggregator

/-- `Q4AggregatorWorker` with the format of its input. -/
def wireStage (cfg : Q4Config) (id : Nat) :
    WireStage Q4PairPaths Q4AggregatorClient (Output Q4AccountId) where
  toStage := stage cfg id
  readBatch := Q4PairPaths.deserializeBatch

variable {cfg : Q4Config}

/-- A batch is predicted to send a partition as many accounts as it counts for it. -/
theorem forwarded_eq_length_predicted (s : Q4AggregatorClient)
    (batch : List Q4PairPaths) (k : Nat) :
    (applyData cfg s batch).forwardedByPartition.getD k 0 =
      s.forwardedByPartition.getD k 0 + ((predictDataOutputs cfg s batch).getD k []).length := by
  rw [predictDataOutputs, getD_groupInto]
  exact getD_foldl_increment ..

end Q4Aggregator

namespace Q4AggregatorState

variable (cfg : Q4Config) (id : Nat)

/-- The record of a client. -/
def client (s : Q4AggregatorState) (clientId : Nat) : Q4AggregatorClient :=
  FanInState.client (Q4Aggregator.wireStage cfg id) s clientId

/-- `apply_change` of a batch. -/
def applyBatchChange (s : Q4AggregatorState) (clientId : Nat) (payload : Bytes) :
    Q4AggregatorState :=
  s.applyChange (Q4Aggregator.wireStage cfg id) (FanInState.dataChange clientId payload)

/-- `predict_data_outputs`. -/
def predictDataOutputs (s : Q4AggregatorState) (clientId : Nat) (payload : Bytes) :
    Except String (Dict Nat (List Q4AccountId)) := do
  if s.isClosed clientId then return ∅
  let batch ← Q4PairPaths.deserializeBatch payload
  return Q4Aggregator.predictDataOutputs cfg (client cfg id s clientId) batch

/-- The pairs that `apply_change` calls `on_qualified` for. -/
def qualifications (s : Q4AggregatorState) (clientId : Nat) (payload : Bytes) :
    Except String (List PairKey) := do
  if s.isClosed clientId then return []
  let batch ← Q4PairPaths.deserializeBatch payload
  return (applyBatch (client cfg id s clientId).pairCounts
    (client cfg id s clientId).qualifiedPairs batch).newly

/-- A sequence of batches of a client. Returns the state after all of them and the pairs that
qualify in each. -/
def runBatches (s : Q4AggregatorState) (clientId : Nat) :
    List Bytes → Except String (Q4AggregatorState × List (List PairKey))
  | [] => .ok (s, [])
  | payload :: payloads => do
    let qualified ← qualifications cfg id s clientId payload
    let (s', rest) ← runBatches (applyBatchChange cfg id s clientId payload) clientId payloads
    return (s', qualified :: rest)

variable {cfg id} {s : Q4AggregatorState} {clientId : Nat} {payload : Bytes}
    {batch : List Q4PairPaths}

theorem client_applyBatchChange (hopen : clientId ∉ s.closedByClient)
    (hread : Q4PairPaths.deserializeBatch payload = .ok batch) :
    client cfg id (applyBatchChange cfg id s clientId payload) clientId =
      Q4Aggregator.applyData cfg (client cfg id s clientId) batch := by
  rw [applyBatchChange, FanInState.applyChange_of_open hopen hread, client,
    FanInState.client, Dict.getD_set, if_pos rfl]
  rfl

/-- In every state, the accounts predicted for a partition are as many as the increments of its
count. -/
theorem forwarded_applyBatchChange {predicted : Dict Nat (List Q4AccountId)}
    (h : predictDataOutputs cfg id s clientId payload = .ok predicted) (k : Nat) :
    (client cfg id (applyBatchChange cfg id s clientId payload) clientId).forwardedByPartition.getD
      k 0 =
      (client cfg id s clientId).forwardedByPartition.getD k 0 + (predicted.getD k []).length := by
  by_cases hc : clientId ∈ s.closedByClient
  · unfold predictDataOutputs at h
    rw [FanInState.isClosed, decide_eq_true hc] at h
    cases h
    rw [applyBatchChange, FanInState.applyChange_dataChange, if_pos hc]
    rfl
  · unfold predictDataOutputs at h
    rw [FanInState.isClosed, decide_eq_false hc] at h
    obtain ⟨batch, hread, h⟩ := Except.ok_of_bind h
    cases h
    rw [client_applyBatchChange hc hread]
    exact Q4Aggregator.forwarded_eq_length_predicted ..

/-- What a run of batches leaves, from any state in which the client is open. -/
theorem runBatches_spec {payloads : List Bytes} {batches : List (List Q4PairPaths)}
    (hopen : clientId ∉ s.closedByClient)
    (hread : payloads.mapM Q4PairPaths.deserializeBatch = .ok batches) :
    ∃ s' keys, runBatches cfg id s clientId payloads = .ok (s', keys) ∧
      keys.flatten = (applyBatch (client cfg id s clientId).pairCounts
        (client cfg id s clientId).qualifiedPairs batches.flatten).newly ∧
      (client cfg id s' clientId).qualifiedPairs = (applyBatch (client cfg id s clientId).pairCounts
        (client cfg id s clientId).qualifiedPairs batches.flatten).qualified := by
  induction payloads generalizing s batches with
  | nil =>
    cases hread
    exact ⟨s, [], rfl, rfl, rfl⟩
  | cons payload payloads ih =>
    rw [List.mapM_cons] at hread
    obtain ⟨batch, hbatch, hread⟩ := Except.ok_of_bind hread
    obtain ⟨rest, hrest, hread⟩ := Except.ok_of_bind hread
    cases hread
    have hopen' : clientId ∉ (applyBatchChange cfg id s clientId payload).closedByClient := by
      rw [applyBatchChange, FanInState.applyChange_of_open hopen hbatch]
      exact hopen
    obtain ⟨s', keys, hrun, hkeys, hqualified⟩ := ih hopen' hrest
    rw [client_applyBatchChange hopen hbatch] at hkeys hqualified
    refine ⟨s', (applyBatch (client cfg id s clientId).pairCounts
      (client cfg id s clientId).qualifiedPairs batch).newly :: keys, ?_, ?_, ?_⟩
    · rw [runBatches, qualifications, FanInState.isClosed, decide_eq_false hopen, hbatch, hrun]
      rfl
    · rw [List.flatten_cons, hkeys, List.flatten_cons, applyBatch_append]
      rfl
    · rw [hqualified, List.flatten_cons, applyBatch_append]
      rfl

/-- **Saturating pair reduction.** However the contributions to the pairs of a client are ordered
and batched, and with each of them cut by the joiner and by the format: a pair qualifies at most
once, and it has qualified by the end exactly when its accounts differ and the contributions that
were not cut reach the threshold. Every batch, in every state, is predicted to send a partition as
many accounts as `apply_change` adds to the count of the partition. -/
theorem saturating_pair_reduction (cfg : Q4Config) (id : Nat) {s : Q4AggregatorState}
    {clientId : Nat} {batches : List (List Q4PairPaths)} (hopen : clientId ∉ s.closedByClient)
    (hfresh : client cfg id s clientId = {})
    (hids : ∀ batch ∈ batches, ∀ p ∈ batch, p.source.OnWire ∧ p.target.OnWire) :
    (∃ payloads s' keys,
      batches.mapM (fun batch => serializeBatch (batch.map capped)) = .ok payloads ∧
      runBatches cfg id s clientId payloads = .ok (s', keys) ∧
      keys.flatten.Nodup ∧
      (∀ a b, (a, b) ∈ keys.flatten ↔
        a ≠ b ∧ q4QualifyThreshold ≤ tally (pairWeight a b) batches.flatten) ∧
      ∀ key, key ∈ (client cfg id s' clientId).qualifiedPairs ↔ key ∈ keys.flatten) ∧
    ∀ (t : Q4AggregatorState) (payload : Bytes) (predicted : Dict Nat (List Q4AccountId)),
      predictDataOutputs cfg id t clientId payload = .ok predicted → ∀ partition,
        (client cfg id (applyBatchChange cfg id t clientId payload)
          clientId).forwardedByPartition.getD
            partition 0 =
          (client cfg id t clientId).forwardedByPartition.getD partition 0 +
            (predicted.getD partition []).length := by
  refine ⟨?_, fun t payload predicted h => forwarded_applyBatchChange h⟩
  -- what the aggregator reads is cut twice, which is as good as once
  have hwire : ∃ payloads,
      batches.mapM (fun batch => serializeBatch (batch.map capped)) = .ok payloads ∧
      payloads.mapM Q4PairPaths.deserializeBatch = .ok (batches.map (·.map capped)) := by
    clear hopen hfresh
    induction batches with
    | nil => exact ⟨[], rfl, rfl⟩
    | cons batch batches ih =>
      obtain ⟨payloads, hser, hde⟩ := ih fun b hb => hids b (List.mem_cons_of_mem _ hb)
      have hfits : ∀ p ∈ batch.map capped, p.source.Fits ∧ p.target.Fits := by
        intro p hp
        obtain ⟨q, hq, rfl⟩ := List.mem_map.mp hp
        obtain ⟨hs, ht⟩ := hids batch List.mem_cons_self q hq
        exact ⟨hs.fits, ht.fits⟩
      have htwice : (batch.map capped).map capped = batch.map capped := by
        rw [List.map_map]
        refine List.map_congr_left fun p _ => ?_
        simp [capped]
      obtain ⟨payload, hpayload, hread⟩ := deserializeBatch_serializeBatch hfits
      refine ⟨payload :: payloads, ?_, ?_⟩
      · rw [List.mapM_cons, hpayload, Except.ok_bind, hser]
        rfl
      · rw [List.mapM_cons, hread, Except.ok_bind, hde, htwice]
        rfl
  obtain ⟨payloads, hser, hread⟩ := hwire
  obtain ⟨s', keys, hrun, hkeys, hqualified⟩ := runBatches_spec hopen hread
  have hflatten : (batches.map (·.map capped)).flatten = batches.flatten.map capped :=
    List.map_flatten.symm
  have hred := reduced_applyBatch (batches.flatten.map capped)
  rw [hfresh, hflatten] at hkeys hqualified
  refine ⟨payloads, s', keys, hser, hrun, ?_, fun a b => ?_, fun key => ?_⟩
  · rw [hkeys]
    exact nodup_newly_applyBatch _
  · rw [hkeys, ← threshold_le_tally_capped, ← hred.qualified]
    exact hred.newly _
  · rw [hqualified, hkeys]
    exact (hred.newly key).symm

/-! Account `1` reaches account `2` by more paths than are needed, in two batches; back there are
two. -/

/-- A deployment with one worker of every stage. -/
def oneOfEach : Q4Config := .smallest

def pathBatches : List (List Q4PairPaths) :=
  [[⟨⟨"7", "1"⟩, ⟨"7", "2"⟩, 4⟩, ⟨⟨"7", "1"⟩, ⟨"7", "1"⟩, 9⟩],
    [⟨⟨"7", "1"⟩, ⟨"7", "2"⟩, 100⟩, ⟨⟨"7", "2"⟩, ⟨"7", "1"⟩, 2⟩]]

theorem onWire_pathBatches :
    ∀ batch ∈ pathBatches, ∀ p ∈ batch, p.source.OnWire ∧ p.target.OnWire := by
  have hseven : Bytes.Fits TransactionSerializer.bankSize "7" :=
    ⟨by decide +kernel, by rintro c ⟨⟩; decide⟩
  have hone : Q4AccountId.OnWire ⟨"7", "1"⟩ :=
    ⟨_, Q4AccountId.Fits.deserialize ⟨hseven, by decide +kernel, by rintro c ⟨⟩; decide⟩⟩
  have htwo : Q4AccountId.OnWire ⟨"7", "2"⟩ :=
    ⟨_, Q4AccountId.Fits.deserialize ⟨hseven, by decide +kernel, by rintro c ⟨⟩; decide⟩⟩
  simp only [pathBatches, List.mem_cons, List.not_mem_nil, or_false, forall_eq_or_imp, forall_eq]
  exact ⟨⟨⟨hone, htwo⟩, ⟨hone, hone⟩⟩, ⟨⟨hone, htwo⟩, ⟨htwo, hone⟩⟩⟩

/-- The pair of the two accounts qualifies in one direction only. -/
theorem one_pair_qualifies :
    ∃ payloads s' keys,
    runBatches oneOfEach 0 (FanInState.init (Q4Aggregator.wireStage oneOfEach 0)) 3
        payloads = .ok (s', keys) ∧
      keys.flatten.Nodup ∧ (⟨"7", "1"⟩, ⟨"7", "2"⟩) ∈ keys.flatten ∧
      (⟨"7", "2"⟩, ⟨"7", "1"⟩) ∉ keys.flatten := by
  have hopen : 3 ∉ (FanInState.init (Q4Aggregator.wireStage oneOfEach 0)).closedByClient :=
    Finset.notMem_empty 3
  obtain ⟨⟨payloads, s', keys, -, hrun, hnodup, hmem, -⟩, -⟩ :=
    saturating_pair_reduction oneOfEach 0 hopen rfl onWire_pathBatches
  exact ⟨payloads, s', keys, hrun, hnodup, (hmem _ _).mpr (by decide), fun h =>
    absurd ((hmem _ _).mp h).2 (by decide)⟩

end Q4AggregatorState

end MoneyLaundering
