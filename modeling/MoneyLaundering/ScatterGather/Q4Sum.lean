import MoneyLaundering.ScatterGather.Records

/-!
# `q4_sum`: the edges of an intermediate account

`Q4SumState` and `Q4SumWorker` (`q4_sum/q4_sum_state.py`, `sums.py`). The worker adds up the counted
edges of its intermediate accounts. When every `q4_filter` worker has ended, it plans for each
account a grid of join blocks, and sends an incoming edge to the blocks of its row and an outgoing
edge to the blocks of its column.
-/

namespace MoneyLaundering

open Packet

/-! ## Counts of endpoints -/

section counts
variable {κ : Type} [DecidableEq κ]

/-- `counts = d.setdefault(k, {}); counts[e] = counts.get(e, 0) + n`. -/
def addCount (d : Dict κ (Dict Q4AccountId Nat)) (k : κ) (e : Q4AccountId) (n : Nat) :
    Dict κ (Dict Q4AccountId Nat) :=
  d.set k ((d.getD k ∅).set e ((d.getD k ∅).getD e 0 + n))

/-- The count of an endpoint. -/
def countAt (d : Dict κ (Dict Q4AccountId Nat)) (k : κ) (e : Q4AccountId) : Nat :=
  (d.getD k ∅).getD e 0

/-- The keys that two maps share, in the order in which the set is iterated. -/
def sharedKeys (cfg : Q4Config) (d d' : Dict κ (Dict Q4AccountId Nat)) : List κ :=
  cfg.setOrder (d.keys.filter d'.contains)

theorem nodup_sharedKeys (cfg : Q4Config) (d d' : Dict κ (Dict Q4AccountId Nat)) :
    (sharedKeys cfg d d').Nodup :=
  (cfg.setOrder_perm _).nodup_iff.mpr (d.nodup_keys.filter _)

theorem mem_sharedKeys {cfg : Q4Config} {d d' : Dict κ (Dict Q4AccountId Nat)} {k : κ} :
    k ∈ sharedKeys cfg d d' ↔ k ∈ d.keys ∧ k ∈ d'.keys := by
  rw [sharedKeys, (cfg.setOrder_perm _).mem_iff, List.mem_filter, Dict.mem_keys_iff (d := d')]
  rfl

end counts

/-- What `Q4SumState` keeps for a client. -/
structure Q4SumClient where
  incoming : Dict Q4AccountId (Dict Q4AccountId Nat) := ∅
  outgoing : Dict Q4AccountId (Dict Q4AccountId Nat) := ∅
  processed : Nat := 0

namespace Q4Sum

def applyEdge (s : Q4SumClient) (edge : Q4CountedEdge) : Q4SumClient :=
  match edge.role with
  | .incoming =>
    { s with incoming := addCount s.incoming edge.intermediate edge.endpoint edge.count }
  | .outgoing =>
    { s with outgoing := addCount s.outgoing edge.intermediate edge.endpoint edge.count }

/-- `_apply_data`. -/
def applyData (s : Q4SumClient) (edges : List Q4CountedEdge) : Q4SumClient :=
  { edges.foldl applyEdge s with processed := s.processed + edges.length }

/-! ## The plan of the blocks -/

/-- `Q4_SUM_HOT_PAIR_THRESHOLD`. -/
def hotPairThreshold : Nat := 1000000

/-- `Q4_SUM_HOT_A_BUCKETS`. -/
def hotABuckets : Nat := 16

/-- `Q4_SUM_HOT_B_BUCKETS`. -/
def hotBBuckets : Nat := 16

/-- `_block_plan`. -/
def blockPlan (incomingSize outgoingSize : Nat) : Nat × Nat :=
  if incomingSize * outgoingSize ≤ hotPairThreshold then (1, 1)
  else (max 1 hotABuckets, max 1 hotBBuckets)

variable (cfg : Q4Config)

/-- `_account_bucket`. -/
def accountBucket (account : Q4AccountId) (bucketCount : Nat) : Nat :=
  cfg.partitionForParts account.parts bucketCount

/-- A join block: the intermediate account and the buckets of its row and column. -/
abbrev Block := Q4AccountId × Nat × Nat

/-- `_block_partition`. -/
def blockPartition (block : Block) : Nat :=
  cfg.partitionForParts (block.1.parts ++ [toString block.2.1, toString block.2.2]) cfg.joinerAmount

def incomingEdges (m : Q4AccountId) (counts : Dict Q4AccountId Nat) (aBuckets bBuckets : Nat) :
    List Q4BlockJoinEdge :=
  counts.entries.flatMap fun e => (List.range bBuckets).map fun bBucket =>
    { role := .incoming, intermediate := m, endpoint := e.1
      aBucket := accountBucket cfg e.1 aBuckets, bBucket, count := e.2 }

def outgoingEdges (m : Q4AccountId) (counts : Dict Q4AccountId Nat) (aBuckets bBuckets : Nat) :
    List Q4BlockJoinEdge :=
  counts.entries.flatMap fun e => (List.range aBuckets).map fun aBucket =>
    { role := .outgoing, intermediate := m, endpoint := e.1
      aBucket, bBucket := accountBucket cfg e.1 bBuckets, count := e.2 }

/-- The plan of an intermediate account. -/
def planOf (s : Q4SumClient) (m : Q4AccountId) : Nat × Nat :=
  blockPlan (s.incoming.getD m ∅).entries.length (s.outgoing.getD m ∅).entries.length

/-- The block edges of an intermediate account. -/
def blockEdges (s : Q4SumClient) (m : Q4AccountId) : List Q4BlockJoinEdge :=
  if (s.incoming.getD m ∅).entries = [] ∨ (s.outgoing.getD m ∅).entries = [] then []
  else
    incomingEdges cfg m (s.incoming.getD m ∅) (planOf s m).1 (planOf s m).2 ++
      outgoingEdges cfg m (s.outgoing.getD m ∅) (planOf s m).1 (planOf s m).2

/-- All the block edges, in the order in which they are made. -/
def flushEdges (s : Q4SumClient) : List Q4BlockJoinEdge :=
  (sharedKeys cfg s.incoming s.outgoing).flatMap (blockEdges cfg s)

def blockOf (e : Q4BlockJoinEdge) : Block := (e.intermediate, e.aBucket, e.bBucket)

/-- `edges_by_partition`. -/
def edgesByPartition (s : Q4SumClient) : Dict Nat (List Q4BlockJoinEdge) :=
  groupInto (fun e => blockPartition cfg (blockOf e)) ∅ (flushEdges cfg s)

/-- `_build_flush_outputs`. -/
def buildFlushOutputs (id : Nat) (s : Q4SumClient) : List (Output Q4BlockJoinEdge) :=
  dataOutputs cfg.sumBatchMaxEdges (edgesByPartition cfg s) (edgesByPartition cfg s).keys ++
    eofOutputs id cfg.joinerAmount fun partition =>
      ((edgesByPartition cfg s).getD partition []).length

/-- `Q4SumWorker`. -/
def stage (id : Nat) : Stage Q4CountedEdge Q4SumClient (Output Q4BlockJoinEdge) where
  fresh := {}
  applyData := applyData
  dataOutputs _ _ := []
  flushOutputs := buildFlushOutputs cfg id
  upstreamAmount := cfg.filterAmount
  acksClosedData := false

/-! ## The counts that are gathered -/

/-- The counts of one side. -/
def side (s : Q4SumClient) : Q4EdgeRole → Dict Q4AccountId (Dict Q4AccountId Nat)
  | .incoming => s.incoming
  | .outgoing => s.outgoing

variable {cfg}

/-- Both sides of the account have endpoints. -/
def Active (s : Q4SumClient) (m : Q4AccountId) : Prop :=
  ¬ ((s.incoming.getD m ∅).entries = [] ∨ (s.outgoing.getD m ∅).entries = [])

instance (s : Q4SumClient) (m : Q4AccountId) : Decidable (Active s m) :=
  inferInstanceAs (Decidable (¬ (_ ∨ _)))

theorem Active.mem_sharedKeys {s : Q4SumClient} {m : Q4AccountId} (h : Active s m) :
    m ∈ sharedKeys cfg s.incoming s.outgoing := by
  rw [Active, not_or] at h
  refine MoneyLaundering.mem_sharedKeys.mpr ⟨?_, ?_⟩ <;> by_contra hk
  · exact h.1 (by rw [Dict.getD_of_not_mem_keys hk]; rfl)
  · exact h.2 (by rw [Dict.getD_of_not_mem_keys hk]; rfl)

/-- The weight of one bucket of a range. -/
theorem tally_range (n b w : Nat) (p : Prop) [Decidable p] :
    tally (fun b' => if p ∧ b' = b then w else 0) (List.range n) = if p ∧ b < n then w else 0 := by
  by_cases hb : b < n
  · rw [tally_eq_single (a := b) List.nodup_range (fun b' _ hne => if_neg fun h : p ∧
      b' = b => hne h.2)
      (absurd (List.mem_range.mpr hb))]
    simp [hb]
  · rw [if_neg fun h => hb h.2]
    exact tally_eq_zero fun b' hb' => if_neg fun h : p ∧ b' = b => hb (h.2 ▸ List.mem_range.mp hb')

theorem role_of_mem_incomingEdges {m : Q4AccountId} {counts : Dict Q4AccountId Nat} {a b : Nat}
    {e : Q4BlockJoinEdge} (h : e ∈ incomingEdges cfg m counts a b) : e.role = .incoming := by
  obtain ⟨x, -, h⟩ := List.mem_flatMap.mp h
  obtain ⟨b, -, rfl⟩ := List.mem_map.mp h
  rfl

theorem role_of_mem_outgoingEdges {m : Q4AccountId} {counts : Dict Q4AccountId Nat} {a b : Nat}
    {e : Q4BlockJoinEdge} (h : e ∈ outgoingEdges cfg m counts a b) : e.role = .outgoing := by
  obtain ⟨x, -, h⟩ := List.mem_flatMap.mp h
  obtain ⟨b, -, rfl⟩ := List.mem_map.mp h
  rfl

end Q4Sum

end MoneyLaundering
