import Mathlib.Data.Finset.Sort
import Mathlib.Data.Prod.Lex
import Mathlib.Data.String.Basic
import MoneyLaundering.ScatterGather.Q4Aggregator

/-!
# `q4_deduper`: each account once

`Q4DeduperState` and `Q4DeduperWorker` (`q4_deduper/q4_deduper_state.py`, `deduper.py`), up to what
the worker emits when every `q4_aggregator` worker has ended: its accounts in order, in numbered
batches, and then the `EOF` of the gateway, or the report to the leader when there are several
dedupers.
-/

namespace MoneyLaundering

open Packet

/-- The key of an account, ordered like a tuple of texts. -/
abbrev AccountKey := String ×ₗ String

/-- `_account_key`. -/
def Q4AccountId.key (a : Q4AccountId) : AccountKey := toLex (a.bankId, a.account)

/-- `_account_from_key`. -/
def AccountKey.account (k : AccountKey) : Q4AccountId := ⟨(ofLex k).1, (ofLex k).2⟩

@[simp] theorem AccountKey.account_key (a : Q4AccountId) : AccountKey.account a.key = a := rfl

theorem AccountKey.key_account (k : AccountKey) : (AccountKey.account k).key = k := rfl

/-- What `Q4DeduperState` keeps for a client. -/
structure Q4DeduperClient where
  accounts : Finset AccountKey := ∅
  processed : Nat := 0

namespace Q4Deduper

/-- `GATEWAY_EOF_SEQ`. -/
def gatewayEofSeq : Nat := 0xFFFFFFFF

/-- The outputs of a close: to the gateway, or to the leader of the dedupers. -/
inductive CloseOutput where
  | gatewayData (seq : Nat) (accounts : List Q4AccountId)
  | gatewayEof (seq : Nat) (control : ControlMessage)
  | leaderReport (control : ControlMessage)

/-- `_apply_data`. -/
def applyData (s : Q4DeduperClient) (batch : List Q4AccountId) : Q4DeduperClient where
  accounts := batch.foldl (fun keys a => insert a.key keys) s.accounts
  processed := s.processed + batch.length

variable (cfg : Q4Config)

/-- `_build_gateway_data_outputs`. -/
def buildGatewayDataOutputs (s : Q4DeduperClient) : List CloseOutput :=
  (chunks cfg.deduperBatchMaxAccounts
    ((s.accounts.sort (· ≤ ·)).map AccountKey.account)).zipIdx.map fun x => .gatewayData x.2 x.1

/-- `_build_close_outputs`. -/
def buildCloseOutputs (id : Nat) (s : Q4DeduperClient) : List CloseOutput :=
  buildGatewayDataOutputs cfg s ++
    [if cfg.deduperAmount = 1 then
      .gatewayEof gatewayEofSeq { senderId := id, expectedTotal := s.accounts.card }
    else .leaderReport { senderId := id, expectedTotal := s.accounts.card }]

/-- `Q4DeduperWorker`. -/
def stage (id : Nat) : Stage Q4AccountId Q4DeduperClient CloseOutput where
  fresh := {}
  applyData := applyData
  dataOutputs _ _ := []
  flushOutputs := buildCloseOutputs cfg id
  upstreamAmount := cfg.aggregatorAmount
  acksClosedData := true

/-- The accounts that go to the gateway. -/
def gatewayAccounts (outputs : List CloseOutput) : List Q4AccountId :=
  outputs.flatMap fun o => match o with
    | .gatewayData _ accounts => accounts
    | _ => []

/-! ## What the gateway receives -/

variable {cfg}

theorem mem_accounts_applyData (s : Q4DeduperClient) (batch : List Q4AccountId) (k : AccountKey) :
    k ∈ (applyData s batch).accounts ↔ AccountKey.account k ∈ batch ∨ k ∈ s.accounts := by
  have key : ∀ (batch : List Q4AccountId) (keys : Finset AccountKey),
      k ∈ batch.foldl (fun keys a => insert a.key keys) keys ↔
        AccountKey.account k ∈ batch ∨ k ∈ keys := by
    intro batch
    induction batch with
    | nil => simp
    | cons a batch ih =>
      intro keys
      have ha : k = a.key ↔ AccountKey.account k = a :=
        ⟨fun h => by rw [h, AccountKey.account_key], fun h => by rw [← h, AccountKey.key_account]⟩
      rw [List.foldl_cons, ih, Finset.mem_insert, List.mem_cons, ha]
      tauto
  exact key batch s.accounts

theorem mem_accounts_afterBatches (id : Nat) (bs : List (List Q4AccountId)) (k : AccountKey) :
    k ∈ ((stage cfg id).afterBatches bs).accounts ↔ AccountKey.account k ∈ bs.flatten := by
  induction bs using List.reverseRecOn with
  | nil => simp [Accumulator.afterBatches, stage]
  | append_singleton bs b ih =>
    rw [Accumulator.afterBatches_concat]
    refine (mem_accounts_applyData _ b k).trans ?_
    rw [ih]
    simp [or_comm]

theorem gatewayAccounts_close (id : Nat) (s : Q4DeduperClient) :
    gatewayAccounts (buildCloseOutputs cfg id s) =
      (s.accounts.sort (· ≤ ·)).map AccountKey.account := by
  have hdata : ∀ (bs : List (List Q4AccountId)) (k : Nat),
      gatewayAccounts ((bs.zipIdx k).map fun x => .gatewayData x.2 x.1) = bs.flatten := by
    intro bs
    induction bs with
    | nil => intro k; rfl
    | cons b bs ih =>
      intro k
      exact congrArg (b ++ ·) (ih (k + 1))
  have hend : gatewayAccounts [if cfg.deduperAmount = 1 then
      .gatewayEof gatewayEofSeq { senderId := id, expectedTotal := s.accounts.card }
    else .leaderReport { senderId := id, expectedTotal := s.accounts.card }] = [] := by
    split <;> rfl
  rw [buildCloseOutputs, gatewayAccounts, List.flatMap_append]
  refine (congrArg₂ (· ++ ·) ((hdata _ 0).trans (flatten_chunks cfg.deduperBatch_pos _)) hend).trans
    ?_
  exact List.append_nil _

end Q4Deduper

end MoneyLaundering
