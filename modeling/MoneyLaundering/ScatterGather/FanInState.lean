import MoneyLaundering.Lib.Base64
import MoneyLaundering.ScatterGather.FanIn

/-!
# The logged state of a fan-in stage

`Q4SumState`, `Q4AggregatorState` and the part of `Q4DeduperState` that takes its input: the records
of the clients, the counter of the upstream workers and the closed clients, with the changes `data`,
`eof` and `close` that the write-ahead log holds. A `data` change carries the payload as base64 text
and is read when it is applied.
-/

namespace MoneyLaundering

/-- One change of the state of a fan-in stage. -/
inductive FanInOp where
  | data (clientId : Nat) (payload : List Char)
  | eof (clientId senderId : Nat)
  | close (clientId : Nat)
  deriving DecidableEq

/-- A change; `compound_change` bundles single changes only. -/
inductive FanInChange where
  | single (op : FanInOp)
  | compound (changes : List FanInOp)
  deriving DecidableEq

def FanInChange.ops : FanInChange → List FanInOp
  | single op => [op]
  | compound changes => changes

/-- A stage with the format of its input. -/
structure WireStage (β σ ω : Type) extends Stage β σ ω where
  readBatch : Bytes → Except String (List β)

/-- The state of a stage. The `*_by_client` maps are one record for each client. -/
structure FanInState (σ : Type) where
  byClient : Dict Nat σ := ∅
  eofCounter : UpstreamEofCounter
  closedByClient : Finset Nat := ∅

namespace FanInState

variable {β σ ω : Type} (stage : WireStage β σ ω)

def init : FanInState σ where
  eofCounter := { expected := stage.upstreamAmount }

/-- `data_change`. -/
def dataChange (clientId : Nat) (payload : Bytes) : FanInChange :=
  .single (.data clientId (Base64.encode payload))

/-- `is_closed`. -/
def isClosed (s : FanInState σ) (clientId : Nat) : Bool := decide (clientId ∈ s.closedByClient)

/-- The client's record. -/
def client (s : FanInState σ) (clientId : Nat) : σ := s.byClient.getD clientId stage.fresh

/-- `_apply_data`, of a payload that can be read. -/
def applyData (s : FanInState σ) (clientId : Nat) (payload : List Char) : FanInState σ :=
  if clientId ∈ s.closedByClient then s
  else
    match stage.readBatch ((Base64.decode payload).getD []) with
    | .error _ => s
    | .ok batch =>
      { s with byClient := s.byClient.set clientId (stage.applyData
        (s.client stage clientId) batch) }

/-- `_apply_eof`. -/
def applyEof (s : FanInState σ) (clientId senderId : Nat) : FanInState σ :=
  { s with eofCounter := (s.eofCounter.onEof clientId senderId).1 }

/-- `_apply_close`. -/
def applyClose (s : FanInState σ) (clientId : Nat) : FanInState σ where
  byClient := s.byClient.erase clientId
  eofCounter := s.eofCounter.close clientId
  closedByClient := insert clientId s.closedByClient

def applyOp (s : FanInState σ) : FanInOp → FanInState σ
  | .data clientId payload => s.applyData stage clientId payload
  | .eof clientId senderId => s.applyEof clientId senderId
  | .close clientId => s.applyClose clientId

/-- `apply_change`. -/
def applyChange (s : FanInState σ) (change : FanInChange) : FanInState σ :=
  change.ops.foldl (applyOp stage) s

variable {stage} {s : FanInState σ} {clientId : Nat} {payload : Bytes}

theorem applyChange_dataChange (s : FanInState σ) (clientId : Nat) (payload : Bytes) :
    s.applyChange stage (dataChange clientId payload) =
      if clientId ∈ s.closedByClient then s
      else
        match stage.readBatch payload with
        | .error _ => s
        | .ok batch =>
          { s with
            byClient := s.byClient.set clientId
              (stage.applyData (s.client stage clientId) batch) } := by
  change s.applyData stage clientId (Base64.encode payload) = _
  rw [applyData, Base64.decode_encode]
  rfl

theorem applyChange_of_open {batch : List β} (hopen : clientId ∉ s.closedByClient)
    (hread : stage.readBatch payload = .ok batch) :
    s.applyChange stage (dataChange clientId payload) =
      { s with
        byClient := s.byClient.set clientId
          (stage.applyData (s.client stage clientId) batch) } := by
  rw [applyChange_dataChange, if_neg hopen, hread]

end FanInState

/-! ## Changes of other clients -/

/-- The client that a change is about. -/
def FanInOp.clientId : FanInOp → Nat
  | .data clientId _ | .eof clientId _ | .close clientId => clientId

namespace FanInState

variable {β σ ω : Type} {stage : WireStage β σ ω} {c : Nat} {s s' s'' : FanInState σ}

/-- Two states agree on a client. -/
structure SameFor (c : Nat) (s s' : FanInState σ) : Prop where
  record : s'.byClient.get? c = s.byClient.get? c
  seen : s'.eofCounter.seen c = s.eofCounter.seen c
  counterClosed : c ∈ s'.eofCounter.closed ↔ c ∈ s.eofCounter.closed
  expected : s'.eofCounter.expected = s.eofCounter.expected
  closed : c ∈ s'.closedByClient ↔ c ∈ s.closedByClient

theorem SameFor.refl (c : Nat) (s : FanInState σ) : SameFor c s s := ⟨rfl, rfl, .rfl, rfl, .rfl⟩

theorem SameFor.trans (h : SameFor c s s') (h' : SameFor c s' s'') : SameFor c s s'' where
  record := h'.record.trans h.record
  seen := h'.seen.trans h.seen
  counterClosed := h'.counterClosed.trans h.counterClosed
  expected := h'.expected.trans h.expected
  closed := h'.closed.trans h.closed

theorem SameFor.client (h : SameFor c s s') : s'.client stage c = s.client stage c := by
  rw [FanInState.client, Dict.getD, h.record]
  rfl

theorem expected_applyChange (s : FanInState σ) (change : FanInChange) :
    (s.applyChange stage change).eofCounter.expected = s.eofCounter.expected := by
  unfold applyChange
  generalize change.ops = ops
  induction ops generalizing s with
  | nil => rfl
  | cons op ops ih =>
    rw [List.foldl_cons, ih]
    cases op with
    | data clientId payload =>
      unfold applyOp applyData
      dsimp only
      split
      · rfl
      · split <;> rfl
    | eof clientId senderId => exact UpstreamEofCounter.expected_onEof
    | close clientId => rfl

theorem sameFor_applyOp (s : FanInState σ) {op : FanInOp} (hc : op.clientId ≠ c) :
    SameFor c s (s.applyOp stage op) := by
  cases op with
  | data clientId payload =>
    change clientId ≠ c at hc
    unfold applyOp applyData
    dsimp only
    split
    · exact .refl c s
    · split
      · exact .refl c s
      · refine ⟨?_, rfl, .rfl, rfl, .rfl⟩
        rw [Dict.get?_set, if_neg hc]
  | eof clientId senderId =>
    exact ⟨rfl, UpstreamEofCounter.seen_onEof_of_ne hc, by rw [applyOp, applyEof]; simp, by
      rw [applyOp, applyEof]; simp, .rfl⟩
  | close clientId =>
    change clientId ≠ c at hc
    refine ⟨?_, UpstreamEofCounter.seen_close_of_ne
      hc, UpstreamEofCounter.mem_closed_close_of_ne hc, rfl, ?_⟩
    · rw [applyOp, applyClose, Dict.get?_erase, if_neg (Ne.symm hc)]
    · rw [applyOp, applyClose, Finset.mem_insert]
      exact or_iff_right (Ne.symm hc)

/-- A change of other clients leaves what the state says of a client. -/
theorem sameFor_applyChange (s : FanInState σ) {change : FanInChange}
    (hc : ∀ op ∈ change.ops, op.clientId ≠ c) : SameFor c s (s.applyChange stage change) := by
  unfold applyChange
  generalize change.ops = ops at hc
  induction ops generalizing s with
  | nil => exact .refl c s
  | cons op ops ih =>
    exact (sameFor_applyOp s (hc op List.mem_cons_self)).trans
      (ih _ fun op' hm => hc op' (List.mem_cons_of_mem _ hm))

end FanInState

end MoneyLaundering
