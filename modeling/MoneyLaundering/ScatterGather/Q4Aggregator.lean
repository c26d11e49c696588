import MoneyLaundering.ScatterGather.Q4Joiner

/-!
# `q4_aggregator`: the pairs with enough paths

`Q4AggregatorState` and `Q4AggregatorWorker` (`q4_aggregator/q4_aggregator_state.py`,
`aggregator.py`). The paths of a pair are added up until they reach the threshold. There the pair
qualifies: both its accounts are emitted at once, and nothing is counted for it any more.
-/

namespace MoneyLaundering

open Packet Q4Joiner

/-- `_pair_key`. -/
abbrev PairKey := Q4AccountId × Q4AccountId

/-- What `_apply_batch` works on, with the keys it has called `on_qualified` for. -/
structure PairReduction where
  counts : Dict PairKey Nat := ∅
  qualified : Finset PairKey := ∅
  newly : List PairKey := []

/-- One record of `_apply_batch`. -/
def reducePair (r : PairReduction) (pair : Q4PairPaths) : PairReduction :=
  if pair.source = pair.target then r
  else if (pair.source, pair.target) ∈ r.qualified then r
  else if q4QualifyThreshold ≤
      min q4QualifyThreshold (r.counts.getD (pair.source, pair.target) 0 + pair.pathCount) then
    { counts := r.counts.erase (pair.source, pair.target)
      qualified := insert (pair.source, pair.target) r.qualified
      newly := r.newly ++ [(pair.source, pair.target)] }
  else
    { r with
      counts := r.counts.set (pair.source, pair.target)
        (min q4QualifyThreshold (r.counts.getD (pair.source, pair.target) 0 + pair.pathCount)) }

/-- `_apply_batch`. -/
def applyBatch (counts : Dict PairKey Nat) (qualified : Finset PairKey) (batch : List Q4PairPaths) :
    PairReduction :=
  batch.foldl reducePair { counts, qualified }

/-- The two accounts of a key, source first. -/
def accountsOf (key : PairKey) : List Q4AccountId := [key.1, key.2]

/-! ### What a reduction knows -/

/-- The reduction of some records: a pair is qualified when its paths reach the threshold, and they
are counted until then. -/
structure Reduced (pairs : List Q4PairPaths) (r : PairReduction) : Prop where
  qualified : ∀ a b, (a, b) ∈ r.qualified ↔ a ≠ b ∧
    q4QualifyThreshold ≤ tally (pairWeight a b) pairs
  counts : ∀ a b, a ≠ b → (a, b) ∉ r.qualified →
    r.counts.getD (a, b) 0 = tally (pairWeight a b) pairs
  newly : ∀ key, key ∈ r.newly ↔ key ∈ r.qualified

theorem reduced_nil : Reduced [] {} where
  qualified a b := by simp [q4QualifyThreshold]
  counts a b _ _ := rfl
  newly key := by simp

theorem Reduced.step {pairs : List Q4PairPaths} {r : PairReduction} (h : Reduced pairs r)
    (pair : Q4PairPaths) : Reduced (pairs ++ [pair]) (reducePair r pair) := by
  have htally : ∀ a b, tally (pairWeight a b) (pairs ++ [pair]) =
      tally (pairWeight a b) pairs + pairWeight a b pair := fun a b => by simp
  have hother : ∀ a b, (a, b) ≠ (pair.source, pair.target) → pairWeight a b pair = 0 := by
    intro a b hne
    exact if_neg fun h => hne (by rw [h.1, h.2])
  unfold reducePair
  split
  · next hself =>
    -- a record from an account to itself weighs nothing for a pair of different accounts
    have hzero : ∀ a b, a ≠ b → pairWeight a b pair = 0 := fun a b hab =>
      hother a b fun he => by cases he; exact hab hself
    exact {
      qualified := fun a b => by
        rw [h.qualified, htally]
        exact and_congr_right fun hab => by rw [hzero a b hab, Nat.add_zero]
      counts := fun a b hab hq => by rw [h.counts a b hab hq, htally, hzero a b hab, Nat.add_zero]
      newly := h.newly }
  · next hne =>
    split
    · next hq =>
      have hsat := (h.qualified _ _).mp hq
      exact {
        qualified := fun a b => by
          rw [h.qualified, htally]
          refine and_congr_right fun _ =>
            ⟨fun hle => hle.trans (Nat.le_add_right _ _), fun hle => ?_⟩
          by_cases hk : (a, b) = (pair.source, pair.target)
          · cases hk; exact hsat.2
          · rwa [hother a b hk, Nat.add_zero] at hle
        counts := fun a b hab hq' => by
          rw [h.counts a b hab hq', htally, hother a b fun he => hq' (he ▸ hq), Nat.add_zero]
        newly := h.newly }
    · next hq =>
      have hself : pairWeight pair.source pair.target pair = pair.pathCount := if_pos ⟨rfl, rfl⟩
      have hcount : r.counts.getD (pair.source, pair.target) 0 + pair.pathCount =
          tally (pairWeight pair.source pair.target) (pairs ++ [pair]) := by
        rw [h.counts _ _ hne hq, htally, hself]
      rw [hcount]
      split
      · next hle =>
        exact {
          qualified := fun a b => by
            rw [Finset.mem_insert]
            by_cases hk : (a, b) = (pair.source, pair.target)
            · cases hk
              exact iff_of_true (.inl rfl) ⟨hne, hle.trans (min_le_right _ _)⟩
            · rw [or_iff_right hk, h.qualified, htally, hother a b hk, Nat.add_zero]
          counts := fun a b hab hq' => by
            rw [Finset.mem_insert, not_or] at hq'
            rw [Dict.getD_erase, if_neg hq'.1, h.counts a b hab hq'.2, htally, hother a b hq'.1,
              Nat.add_zero]
          newly := fun key => by
            rw [List.mem_append, h.newly, List.mem_singleton, Finset.mem_insert, or_comm] }
      · next hlt =>
        have hlt' : ¬ q4QualifyThreshold ≤
            tally (pairWeight pair.source pair.target) (pairs ++ [pair]) :=
          fun hle => hlt (le_min le_rfl hle)
        exact {
          qualified := fun a b => by
            by_cases hk : (a, b) = (pair.source, pair.target)
            · cases hk
              exact iff_of_false hq fun hh => hlt' hh.2
            · rw [h.qualified, htally, hother a b hk, Nat.add_zero]
          counts := fun a b hab hq' => by
            rw [Dict.getD_set]
            split
            · next hk => cases hk; exact min_eq_right (Nat.le_of_not_le hlt')
            · next hk =>
              rw [h.counts a b hab hq', htally, hother a b (Ne.symm hk), Nat.add_zero]
          newly := h.newly }

/-- In whatever order the records come, the pairs that qualify are those whose paths reach the
threshold. -/
theorem reduced_applyBatch (pairs : List Q4PairPaths) : Reduced pairs (applyBatch ∅ ∅ pairs) := by
  induction pairs using List.reverseRecOn with
  | nil => exact reduced_nil
  | append_singleton pairs pair ih =>
    rw [applyBatch, List.foldl_append]
    exact ih.step pair

/-- The keys that qualify are added to those that did before. -/
theorem reducePair_newly (r : PairReduction) (l : List PairKey) (pair : Q4PairPaths) :
    reducePair { r with newly := l ++ r.newly } pair =
      { reducePair r pair with newly := l ++ (reducePair r pair).newly } := by
  unfold reducePair
  split
  · rfl
  · split
    · rfl
    · split
      · simp
      · rfl

theorem foldl_reducePair_newly (r : PairReduction) (l : List PairKey) (batch : List Q4PairPaths) :
    batch.foldl reducePair { r with newly := l ++ r.newly } =
      { batch.foldl reducePair r with newly := l ++ (batch.foldl reducePair r).newly } := by
  induction batch generalizing r with
  | nil => rfl
  | cons pair batch ih => rw [List.foldl_cons, reducePair_newly, ih]; rfl

/-- Two batches are one after the other. -/
theorem applyBatch_append (counts : Dict PairKey Nat) (qualified : Finset PairKey)
    (batch batch' : List Q4PairPaths) :
    applyBatch counts qualified (batch ++ batch') =
      let r := applyBatch counts qualified batch
      { applyBatch r.counts r.qualified batch' with
        newly := r.newly ++ (applyBatch r.counts r.qualified batch').newly } := by
  have h := foldl_reducePair_newly
    { counts := (applyBatch counts qualified batch).counts
      qualified := (applyBatch counts qualified batch).qualified }
    (applyBatch counts qualified batch).newly batch'
  rw [List.append_nil] at h
  rw [applyBatch, List.foldl_append]
  exact h

/-! ## The state of a client -/

/-- What `Q4AggregatorState` keeps for a client. -/
structure Q4AggregatorClient where
  pairCounts : Dict PairKey Nat := ∅
  qualifiedPairs : Finset PairKey := ∅
  forwardedByPartition : Dict Nat Nat := ∅
  processed : Nat := 0

namespace Q4Aggregator

variable (cfg : Q4Config)

/-- `_account_partition`. -/
def accountPartition (account : Q4AccountId) : Nat :=
  cfg.partitionForParts account.parts cfg.deduperAmount

/-- `_apply_data`. -/
def applyData (s : Q4AggregatorClient) (batch : List Q4PairPaths) : Q4AggregatorClient :=
  let r := applyBatch s.pairCounts s.qualifiedPairs batch
  { pairCounts := r.counts
    qualifiedPairs := r.qualified
    forwardedByPartition := (r.newly.flatMap accountsOf).foldl (fun forwarded account =>
      forwarded.set (accountPartition cfg account)
        (forwarded.getD (accountPartition cfg account) 0 + 1)) s.forwardedByPartition
    processed := s.processed + batch.length }

/-- `predict_data_outputs`. -/
def predictDataOutputs (s : Q4AggregatorClient) (batch : List Q4PairPaths) :
    Dict Nat (List Q4AccountId) :=
  groupInto (accountPartition cfg) ∅
    ((applyBatch s.pairCounts s.qualifiedPairs batch).newly.flatMap accountsOf)

/-- `_build_data_outputs`. -/
def buildDataOutputs (s : Q4AggregatorClient) (batch : List Q4PairPaths) :
    List (Output Q4AccountId) :=
  dataOutputs cfg.aggregatorBatchMaxAccounts (predictDataOutputs cfg s batch)
    (predictDataOutputs cfg s batch).sortedKeys

/-- `_build_eof_outputs`. -/
def buildEofOutputs (id : Nat) (s : Q4AggregatorClient) : List (Output Q4AccountId) :=
  eofOutputs id cfg.deduperAmount fun partition => s.forwardedByPartition.getD partition 0

/-- `Q4AggregatorWorker`. -/
def stage (id : Nat) : Stage Q4PairPaths Q4AggregatorClient (Output Q4AccountId) where
  fresh := {}
  applyData := applyData cfg
  dataOutputs := buildDataOutputs cfg
  flushOutputs := buildEofOutputs cfg id
  upstreamAmount := cfg.joinerAmount
  acksClosedData := true

/-! ## What a deduper receives -/

variable {cfg}

end Q4Aggregator

end MoneyLaundering
