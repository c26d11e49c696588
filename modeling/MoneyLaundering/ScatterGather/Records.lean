import Mathlib.Data.List.ProdSigma
import MoneyLaundering.Lib.Tally
import MoneyLaundering.ScatterGather.Sharding
import MoneyLaundering.Transaction

/-!
# Q4: accounts that scatter and gather

The records that the Q4 stages exchange (`scatter_gather_serializer.py`), the configuration of a
deployment, and the query itself: keep the transactions of the sources with enough distinct targets,
count the paths from `A` through any `M` to `B`, and report the accounts of the pairs with enough
paths.
-/

namespace MoneyLaundering

/-- `Q4AccountId`. -/
structure Q4AccountId where
  bankId : String
  account : String
  deriving DecidableEq

/-- `Q4TransactionEdge`. -/
structure Q4TransactionEdge where
  source : Q4AccountId
  target : Q4AccountId
  deriving DecidableEq

/-- `Q4_EDGE_INCOMING` and `Q4_EDGE_OUTGOING`. -/
inductive Q4EdgeRole where
  | incoming | outgoing
  deriving DecidableEq

/-- `Q4CountedEdge`. -/
structure Q4CountedEdge where
  role : Q4EdgeRole
  intermediate : Q4AccountId
  endpoint : Q4AccountId
  count : Nat
  deriving DecidableEq

/-- `Q4BlockJoinEdge`. -/
structure Q4BlockJoinEdge where
  role : Q4EdgeRole
  intermediate : Q4AccountId
  endpoint : Q4AccountId
  aBucket : Nat
  bBucket : Nat
  count : Nat
  deriving DecidableEq

/-- `Q4PairPaths`. -/
structure Q4PairPaths where
  source : Q4AccountId
  target : Q4AccountId
  pathCount : Nat
  deriving DecidableEq

/-- `Q4_QUALIFY_THRESHOLD`. -/
def q4QualifyThreshold : Nat := 6

/-- `_QUALIFY_TARGETS`. -/
def qualifyTargets : Nat := 6

/-- `_edge_from_tx`. -/
def edgeFromTx (unicode : UnicodeDigits) (tx : Transaction) : Except String Q4TransactionEdge := do
  let fromBank ← notebookBankId unicode tx.fromBank
  let toBank ← notebookBankId unicode tx.toBank
  return {
    source := ⟨fromBank, String.ofList (Text.strip tx.fromAccount.toList)⟩
    target := ⟨toBank, String.ofList (Text.strip tx.toAccount.toList)⟩ }

/-- A deployment: the workers of each stage, the limit of a batch of each stage, the partition
function, and the order in which a set is iterated. -/
structure Q4Config where
  filterAmount : Nat
  sumAmount : Nat
  joinerAmount : Nat
  aggregatorAmount : Nat
  deduperAmount : Nat
  filterBatchMaxEdges : Nat := 5000
  sumBatchMaxEdges : Nat := 5000
  joinerBatchMaxDeltas : Nat := 5000
  aggregatorBatchMaxAccounts : Nat := 5000
  deduperBatchMaxAccounts : Nat := 5000
  unicode : UnicodeDigits
  partitionForParts : List String → Nat → Nat
  setOrder : ∀ {α : Type}, List α → List α
  filterAmount_pos : 0 < filterAmount := by decide
  sumAmount_pos : 0 < sumAmount := by decide
  joinerAmount_pos : 0 < joinerAmount := by decide
  aggregatorAmount_pos : 0 < aggregatorAmount := by decide
  deduperAmount_pos : 0 < deduperAmount := by decide
  filterBatch_pos : 0 < filterBatchMaxEdges := by decide
  sumBatch_pos : 0 < sumBatchMaxEdges := by decide
  joinerBatch_pos : 0 < joinerBatchMaxDeltas := by decide
  aggregatorBatch_pos : 0 < aggregatorBatchMaxAccounts := by decide
  deduperBatch_pos : 0 < deduperBatchMaxAccounts := by decide
  partition_lt : ∀ parts n, 0 < n → partitionForParts parts n < n
  setOrder_perm : ∀ {α : Type} (l : List α), (setOrder l).Perm l

/-- One worker a stage, and every key in the first partition. -/
def Q4Config.smallest : Q4Config where
  filterAmount := 1
  sumAmount := 1
  joinerAmount := 1
  aggregatorAmount := 1
  deduperAmount := 1
  unicode := ⟨Char.isDigit, fun c => if c.isDigit then some (c.toNat - '0'.toNat) else none⟩
  partitionForParts _ _ := 0
  setOrder l := l
  partition_lt _ _ h := h
  setOrder_perm l := List.Perm.refl l

/-- A partition by the characters of the key. -/
def Q4Config.byCharacters (parts : List String) (n : Nat) : Nat :=
  (parts.map (fun part => part.toList.foldl (· + ·.toNat) 0)).sum % n

theorem Q4Config.byCharacters_lt (parts : List String) (n : Nat) (h : 0 < n) :
    byCharacters parts n < n :=
  Nat.mod_lt _ h

/-- `_account_parts`. -/
def Q4AccountId.parts (a : Q4AccountId) : List String := [a.bankId, a.account]

/-! ## The query -/

namespace Q4

/-- The distinct targets of a source. -/
def targetsOf (edges : List Q4TransactionEdge) (source : Q4AccountId) : Finset Q4AccountId :=
  ((edges.filter (·.source = source)).map Q4TransactionEdge.target).toFinset

/-- The source has enough distinct targets. -/
def Scatters (edges : List Q4TransactionEdge) (source : Q4AccountId) : Prop :=
  qualifyTargets ≤ (targetsOf edges source).card

instance (edges : List Q4TransactionEdge) (source : Q4AccountId) :
    Decidable (Scatters edges source) :=
  inferInstanceAs (Decidable (_ ≤ _))

/-- The transactions that are kept. -/
def kept (edges : List Q4TransactionEdge) : List Q4TransactionEdge :=
  edges.filter fun e => Scatters edges e.source

/-- The number of paths `A → M → B` over kept transactions. -/
def paths (edges : List Q4TransactionEdge) (a b : Q4AccountId) : Nat :=
  (kept edges ×ˢ kept edges).countP fun x =>
    x.1.source = a ∧ x.1.target = x.2.source ∧ x.2.target = b

/-- The pair is reported. -/
def Gathers (edges : List Q4TransactionEdge) (a b : Q4AccountId) : Prop :=
  a ≠ b ∧ q4QualifyThreshold ≤ paths edges a b

/-- The account is reported. -/
def Reported (edges : List Q4TransactionEdge) (x : Q4AccountId) : Prop :=
  ∃ a b, Gathers edges a b ∧ (x = a ∨ x = b)

/-- The kept transactions from `a` to `b`. -/
def keptCount (edges : List Q4TransactionEdge) (a b : Q4AccountId) : Nat :=
  tally (fun e => if e.source = a ∧ e.target = b then 1 else 0) (kept edges)

end Q4

end MoneyLaundering
