import MoneyLaundering.FaultTolerance.Recovery

/-!
# Sequence numbers over whole runs

The counters of the sequencer are not stored with a record: they are rebuilt from the output ids,
partly through the snapshot and partly through the log. Since memory and disk always agree with the
history (`Node.Inv`), it is enough to follow the history: its outputs stay `Dense` with every
appended record (`dense_append`).
-/

namespace MoneyLaundering

open Bytes SenderSequencer

namespace WalRecord

variable {Δ : Type}

/-- The outputs a record carries, each with the client of its input. -/
def loggedOutputs : WalRecord Δ → List (Nat × OutboxEntry)
  | inputApplied _ key _ outputs => outputs.map fun e => (key.clientId, e)
  | inputDone _ _ => []

end WalRecord

/-- The outputs a whole history records, in append order. -/
def outputLog {Δ : Type} (history : List (WalRecord Δ)) : List (Nat × OutboxEntry) :=
  history.flatMap WalRecord.loggedOutputs

namespace Node

variable {σ ς Δ τ : Type} {cfg : HandlerConfig σ ς Δ} {V : View cfg.worker τ} {n : Node σ ς Δ}

/-- Every record that a call appends keeps the output log dense. -/
theorem dense_append (hcolon : cfg.EdgesNoColon) (hi : Inv cfg V n)
    (h : Dense cfg.toSequencerConfig (outputLog n.history)
      (specState cfg V n.history).sequencer) {c : Call σ Δ} {record : WalRecord Δ}
    (ha : Appends cfg n.handler c record) :
    Dense cfg.toSequencerConfig (outputLog (n.history ++ [record]))
      (specState cfg V (n.history ++ [record])).sequencer := by
  have hlog : outputLog (n.history ++ [record]) = outputLog n.history ++ record.loggedOutputs := by
    simp [outputLog]
  rw [hlog, specState_snoc]
  cases c with
  | handle key businessFn =>
    obtain ⟨-, change, logical, outputs, -, hs, rfl⟩ := ha
    rw [hi.sequencer] at hs
    exact h.append_stamped hcolon (stamped_of_stamp hcolon hs)
  | commitDone key =>
    cases ha
    simpa [WalRecord.loggedOutputs, HandlerState.applyOnce] using h
  | snapshotNow => cases ha

end Node

end MoneyLaundering
