import MoneyLaundering.FaultTolerance.Consumer
import MoneyLaundering.FaultTolerance.Tracking

/-!
# Message handlers and crashes

The durable part of a worker with message handlers of its own: deliveries and commits that return,
raise or are interrupted by a crash at any durable step, and crashes between them. What a handler
touched outside the log is lost with the process.
-/

namespace MoneyLaundering

open Transition

namespace Consumer

variable {σ Δ μ : Type}

/-- What can happen to the durable part. -/
inductive DurableLabel (μ : Type) where
  | deliver (message : μ) (outcome : Outcome)
  | commit (key : InputKey) (outcome : Outcome)
  | crash

variable (cfg : ConsumerConfig σ Δ μ)

/-- One step, `none` when it is not enabled or the recovery raises. -/
def durableExec (n : Node σ σ Δ) : DurableLabel μ → Option (Node σ σ Δ)
  | .deliver message outcome =>
    match cfg.react n.handler.workerState message with
    | .refuse | .skip _ => some n
    | .direct touched _ => some (n.mutate fun _ => touched)
    | .handle key touched result =>
      ((touchedNode n key touched).exec cfg.handler
        (outcome.event (.handle key fun _ => result))).toOption
  | .commit key outcome =>
    if n.handler.inbox.classify key = .new then none
    else (n.exec cfg.handler (outcome.event (.commitDone key))).toOption
  | .crash => (n.exec cfg.handler ((Outcome.crashes 0).event .snapshotNow)).toOption

variable {cfg} {I : LogInvariant cfg.handler} {n n' : Node σ σ Δ}

theorem exec_of_toOption {e : Event σ Δ} (h : (n.exec cfg.handler e).toOption = some n') :
    n.exec cfg.handler e = .ok n' := by
  cases he : n.exec cfg.handler e with
  | error e => rw [he] at h; cases h
  | ok node => rw [he] at h; cases h; rfl

/-- A call of `handle` keeps an invariant along the log when what it touches and what it logs fits
it. -/
theorem follows_handle (h : n.Follows I) {key : InputKey} {touched : σ} {outcome : Outcome}
    {result : Except String (Δ × List LogicalOutput)}
    (hnew : n.handler.inbox.classify key = .new → I.Holds n.history touched ∧
      ∀ change logical outputs, result = .ok (change, logical) →
        n.handler.sequencer.stamp cfg.toSequencerConfig key.clientId
          (cfg.handler.msgId key) logical =
          .ok outputs →
        I.Valid n.history (.inputApplied (cfg.handler.msgId key) key change outputs))
    (he : (touchedNode n key touched).exec cfg.handler
      (outcome.event (.handle key fun _ => result)) =
      .ok n') : n'.Follows I := by
  unfold touchedNode at he
  split at he
  · next hn =>
    obtain ⟨hholds, hvalid⟩ := hnew hn
    refine Node.Follows.outcome (h.mutate hholds) ?_ he
    rintro record ⟨-, change, logical, outputs, hb, hs, rfl⟩
    exact hvalid change logical outputs hb hs
  · next hn =>
    refine Node.Follows.outcome h ?_ he
    rintro record ⟨hn', -⟩
    exact absurd hn' hn

/-- A step keeps an invariant along the log when what the handlers touch and what they log fits
it. -/
theorem follows_durableExec (h : n.Follows I) {l : DurableLabel μ}
    (hdirect : ∀ message outcome touched sends, l = .deliver message outcome →
      cfg.react n.handler.workerState message = .direct touched sends → I.Holds n.history touched)
    (hhandle : ∀ message outcome key touched result, l = .deliver message outcome →
      cfg.react n.handler.workerState message = .handle key touched result →
      n.handler.inbox.classify key = .new → I.Holds n.history touched ∧
      ∀ change logical outputs, result = .ok (change, logical) →
        I.Valid n.history (.inputApplied (cfg.handler.msgId key) key change outputs))
    (hcommit : ∀ key outcome, l = .commit key outcome → n.handler.inbox.classify key ≠ .new →
      I.Valid n.history (.inputDone (cfg.handler.msgId key) key))
    (he : durableExec cfg n l = some n') : n'.Follows I := by
  cases l with
  | deliver message outcome =>
    dsimp only [durableExec] at he
    split at he
    · cases he
      exact h
    · cases he
      exact h
    · next touched sends hreact =>
      cases he
      exact h.mutate (hdirect message outcome touched sends rfl hreact)
    · next key touched result hreact =>
      refine follows_handle h (fun hnew => ?_) (exec_of_toOption he)
      obtain ⟨hholds, hvalid⟩ := hhandle message outcome key touched result rfl hreact hnew
      exact ⟨hholds, fun change logical outputs hb _ => hvalid change logical outputs hb⟩
  | commit key outcome =>
    dsimp only [durableExec] at he
    split at he
    · cases he
    · next hk =>
      refine Node.Follows.outcome h ?_ (exec_of_toOption he)
      rintro record rfl
      exact hcommit key outcome rfl hk
  | crash => exact Node.Follows.outcome h Node.appended_snapshotNow (exec_of_toOption he)

end Consumer

end MoneyLaundering
