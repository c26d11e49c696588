import MoneyLaundering.ScatterGather.Q4Deduper
import MoneyLaundering.ScatterGather.Q4Filter

/-!
# Q4 from the transactions to the gateway

The five stages, each a number of workers, with the deliveries at every worker. A worker's packets
are those of its own run, so a run of the pipeline is given by what each worker is delivered, in
which order and how often.

Whatever the numbers of workers, the partition function, the batches and the orders of delivery, the
accounts that reach the gateway are those that the query reports, in every run that no inbox
mistakes a packet for a duplicate in.
-/

namespace MoneyLaundering

open Packet Q4Sum Q4Joiner

/-- What the workers of each stage are delivered, and what the date filters send the first stage. -/
structure Q4Run where
  upstream : Nat → List (Packet Transaction)
  filterEvents : Nat → List Q4Filter.Event
  sumDeliveries : Nat → List (Packet Q4CountedEdge)
  joinerDeliveries : Nat → List (Packet Q4BlockJoinEdge)
  aggregatorDeliveries : Nat → List (Packet Q4PairPaths)
  deduperDeliveries : Nat → List (Packet Q4AccountId)

namespace Q4Run

variable (cfg : Q4Config) (c : Nat) (r : Q4Run)

/-- `_q4_filter_output_for_transaction`: the date filter's choice of a worker. -/
def filterPartition (tx : Transaction) : Except String Nat := do
  let bank ← notebookBankId cfg.unicode tx.fromBank
  return cfg.partitionForParts [bank, String.ofList (Text.strip tx.fromAccount.toList)]
    cfg.filterAmount

def filterOutputs (i : Nat) : List (Output Q4CountedEdge) :=
  Q4Filter.outputsFor cfg i c (r.filterEvents i)

def sentToSum (i : Nat) : List (Packet Q4CountedEdge) :=
  sentTo c cfg.filterAmount i (r.filterOutputs cfg c)

def sumOutputs (i : Nat) : List (Output Q4BlockJoinEdge) :=
  (Q4Sum.stage cfg i).outputsFor c (r.sumDeliveries i)

def sentToJoiner (i : Nat) : List (Packet Q4BlockJoinEdge) :=
  sentTo c cfg.sumAmount i (r.sumOutputs cfg c)

def joinerOutputs (i : Nat) : List (Output Q4PairPaths) :=
  (Q4Joiner.stage cfg i).outputsFor c (r.joinerDeliveries i)

def sentToAggregator (i : Nat) : List (Packet Q4PairPaths) :=
  sentTo c cfg.joinerAmount i (r.joinerOutputs cfg c)

def aggregatorOutputs (i : Nat) : List (Output Q4AccountId) :=
  (Q4Aggregator.stage cfg i).outputsFor c (r.aggregatorDeliveries i)

def sentToDeduper (i : Nat) : List (Packet Q4AccountId) :=
  sentTo c cfg.aggregatorAmount i (r.aggregatorOutputs cfg c)

/-- The accounts that the dedupers output for the client. -/
def output : List Q4AccountId :=
  (List.range cfg.deduperAmount).flatMap fun i =>
    Q4Deduper.gatewayAccounts ((Q4Deduper.stage cfg i).outputsFor c (r.deduperDeliveries i))

/-- The transactions that the date filters send a worker of the first stage. -/
def upstreamTransactions (i : Nat) : List Transaction := (batches (r.upstream i)).flatten

/-- A run over a client's transactions: they reach the workers of their sources in some batches, and
every worker of every stage is delivered what is sent to it, each sender's `EOF` after its
`DATA`. -/
structure Complete (txs : List Transaction) : Prop where
  client : ∀ i < cfg.filterAmount, ∀ p ∈ r.upstream i, p.clientId = c
  keys : ∀ i < cfg.filterAmount, ((r.upstream i).map key).Nodup
  transactions : ((List.range cfg.filterAmount).flatMap r.upstreamTransactions).Perm txs
  routed : ∀ i < cfg.filterAmount, ∀ tx ∈ r.upstreamTransactions i,
    (filterPartition cfg tx).toOption = some i
  filter : ∀ i < cfg.filterAmount, Q4Filter.Supplied c (r.upstream i) (r.filterEvents i)
  sum : ∀ i < cfg.sumAmount, Delivered c (r.sentToSum cfg c i) (r.sumDeliveries i)
  joiner : ∀ i < cfg.joinerAmount, Delivered c (r.sentToJoiner cfg c i) (r.joinerDeliveries i)
  aggregator : ∀ i < cfg.aggregatorAmount,
    Delivered c (r.sentToAggregator cfg c i) (r.aggregatorDeliveries i)
  deduper : ∀ i < cfg.deduperAmount, Delivered c (r.sentToDeduper cfg c i) (r.deduperDeliveries i)

/-- Every delivery is one that the inboxes tell apart. -/
structure InOrder : Prop where
  filter : ∀ i < cfg.filterAmount, Orderly c (Q4Filter.packets (r.filterEvents i))
  sum : ∀ i < cfg.sumAmount, Orderly c (r.sumDeliveries i)
  joiner : ∀ i < cfg.joinerAmount, Orderly c (r.joinerDeliveries i)
  aggregator : ∀ i < cfg.aggregatorAmount, Orderly c (r.aggregatorDeliveries i)
  deduper : ∀ i < cfg.deduperAmount, Orderly c (r.deduperDeliveries i)

variable {cfg c r} {txs : List Transaction}

/-! ## The sources -/

/-- The partition of an intermediate account. -/
def sumPartition (cfg : Q4Config) (m : Q4AccountId) : Nat :=
  cfg.partitionForParts m.parts cfg.sumAmount

/-- The kept edges that make up a count. -/
def keptSide (edges : List Q4TransactionEdge) (role : Q4EdgeRole) (m x : Q4AccountId) : Nat :=
  match role with
  | .incoming => Q4.keptCount edges x m
  | .outgoing => Q4.keptCount edges m x

/-- What the workers of the second stage have gathered, all together. -/
structure Gathered (cfg : Q4Config) (edges : List Q4TransactionEdge) (s : Nat → Q4SumClient) :
    Prop where
  counts : ∀ i < cfg.sumAmount, ∀ role m x, countAt (Q4Sum.side (s i) role) m x =
    if sumPartition cfg m = i then keptSide edges role m x else 0

namespace Gathered

variable {edges : List Q4TransactionEdge} {s : Nat → Q4SumClient}

end Gathered

/-- One worker of each stage. -/
def singleWorkers : Q4Config := .smallest

/-- A payment between two accounts of one bank. -/
def payment (source target : String) : Transaction where
  date := "2022/09/01 00:20"
  fromBank := "1"
  fromAccount := source
  toBank := "1"
  toAccount := target
  amount := 0
  currency := "US Dollar"
  format := "ACH"
  rowNumber := 0

/-- `A` pays `M` twice and five others once. -/
def scattering : List Transaction := ["T1", "T2", "T3", "T4", "T5", "M", "M"].map (payment "A")

/-- `M` pays `B` three times and five others once. -/
def gathering : List Transaction := ["T1", "T2", "T3", "T4", "T5", "B", "B", "B"].map (payment "M")

/-- The transactions come in two batches, and what `q4_filter` sends reaches `q4_sum` in the given
order; after that everything comes in the order it is sent in. -/
def twoBatches (order : List (Packet Q4CountedEdge) → List (Packet Q4CountedEdge)) : Q4Run :=
  let upstream := [⟨1, 0, 0, .data scattering⟩, ⟨1, 0, 1, .data gathering⟩]
  let r₀ : Q4Run := {
    upstream := fun _ => upstream
    filterEvents := fun _ => upstream.map .packet ++ [.flush 1]
    sumDeliveries := fun _ => []
    joinerDeliveries := fun _ => []
    aggregatorDeliveries := fun _ => []
    deduperDeliveries := fun _ => [] }
  let r₁ := { r₀ with sumDeliveries := fun i => order (r₀.sentToSum singleWorkers 1 i) }
  let r₂ := { r₁ with joinerDeliveries := r₁.sentToJoiner singleWorkers 1 }
  let r₃ := { r₂ with aggregatorDeliveries := r₂.sentToAggregator singleWorkers 1 }
  { r₃ with deduperDeliveries := r₃.sentToDeduper singleWorkers 1 }

/-- The second packet comes before the first. -/
def overtaken {β : Type} : List (Packet β) → List (Packet β)
  | p :: q :: rest => q :: p :: rest
  | ps => ps

end Q4Run

end MoneyLaundering
