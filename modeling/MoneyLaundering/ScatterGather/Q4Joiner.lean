import MoneyLaundering.ScatterGather.Q4Sum

/-!
# `q4_joiner`: the pairs of a block

`Q4JoinerState` and `Q4JoinerWorker` (`q4_joiner/q4_joiner_state.py`, `joiner.py`). The worker files
the edges it receives by block. When every `q4_sum` worker has ended, each source of a block makes a
pair with each target of the block, with as many paths as the product of their counts, cut at the
threshold.
-/

namespace MoneyLaundering

open Packet Q4Sum

/-- What `Q4JoinerState` keeps for a client. -/
structure Q4JoinerClient where
  incoming : Dict Block (Dict Q4AccountId Nat) := ∅
  outgoing : Dict Block (Dict Q4AccountId Nat) := ∅
  processed : Nat := 0

namespace Q4Joiner

def applyEdge (s : Q4JoinerClient) (edge : Q4BlockJoinEdge) : Q4JoinerClient :=
  match edge.role with
  | .incoming => { s with incoming := addCount s.incoming (blockOf edge) edge.endpoint edge.count }
  | .outgoing => { s with outgoing := addCount s.outgoing (blockOf edge) edge.endpoint edge.count }

/-- `_apply_data`. -/
def applyData (s : Q4JoinerClient) (edges : List Q4BlockJoinEdge) : Q4JoinerClient :=
  { edges.foldl applyEdge s with processed := s.processed + edges.length }

/-- The pair of a source and a target of a block. -/
def pairOf (source : Q4AccountId × Nat) (target : Q4AccountId × Nat) : List Q4PairPaths :=
  if source.1 = target.1 then []
  else if source.2 * target.2 = 0 then []
  else [{ source := source.1, target := target.1,
          pathCount := min (source.2 * target.2) q4QualifyThreshold }]

/-- The pairs of a block. -/
def blockPairs (s : Q4JoinerClient) (block : Block) : List Q4PairPaths :=
  (s.incoming.getD block ∅).entries.flatMap fun source =>
    (s.outgoing.getD block ∅).entries.flatMap fun target => pairOf source target

variable (cfg : Q4Config)

/-- `_pair_partition`. -/
def pairPartition (source target : Q4AccountId) : Nat :=
  cfg.partitionForParts (source.parts ++ target.parts) cfg.aggregatorAmount

def flushPairs (s : Q4JoinerClient) : List Q4PairPaths :=
  (sharedKeys cfg s.incoming s.outgoing).flatMap (blockPairs s)

/-- `pairs_by_partition`. -/
def pairsByPartition (s : Q4JoinerClient) : Dict Nat (List Q4PairPaths) :=
  groupInto (fun pair => pairPartition cfg pair.source pair.target) ∅ (flushPairs cfg s)

/-- `_build_flush_outputs`. -/
def buildFlushOutputs (id : Nat) (s : Q4JoinerClient) : List (Output Q4PairPaths) :=
  dataOutputs cfg.joinerBatchMaxDeltas (pairsByPartition cfg s)
    (pairsByPartition cfg s).sortedKeys ++
    eofOutputs id cfg.aggregatorAmount fun partition =>
      ((pairsByPartition cfg s).getD partition []).length

/-- `Q4JoinerWorker`. -/
def stage (id : Nat) : Stage Q4BlockJoinEdge Q4JoinerClient (Output Q4PairPaths) where
  fresh := {}
  applyData := applyData
  dataOutputs _ _ := []
  flushOutputs := buildFlushOutputs cfg id
  upstreamAmount := cfg.sumAmount
  acksClosedData := false

/-! ## The counts that are gathered -/

/-- The counts of one side. -/
def side (s : Q4JoinerClient) : Q4EdgeRole → Dict Block (Dict Q4AccountId Nat)
  | .incoming => s.incoming
  | .outgoing => s.outgoing

variable {cfg}

/-- The paths that a record brings a pair. -/
def pairWeight (a b : Q4AccountId) (pair : Q4PairPaths) : Nat :=
  if pair.source = a ∧ pair.target = b then pair.pathCount else 0

end Q4Joiner

end MoneyLaundering
