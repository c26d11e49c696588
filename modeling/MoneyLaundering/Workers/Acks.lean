import MoneyLaundering.Workers.Aggregator
import MoneyLaundering.Workers.FilterQ5Usd
import MoneyLaundering.Workers.Q3Barrier
import MoneyLaundering.Workers.Sum

/-!
# Acks of the workers with an early return

The sum, the aggregator, filter_q5_usd and q3_barrier ack a message of a closed client before
`handle` looks at the inbox. The message that closes a client is applied before its outputs are
published, so a publication that fails leaves the client closed, and the redelivery is acked at
once.

An applied input is acked only after its outputs were published exactly as long as no such early
return meets an input that is applied and not finished.
-/

namespace MoneyLaundering

open Bytes Consumer Runner Transition

namespace Consumer

variable {σ Δ μ : Type} (cfg : ConsumerConfig σ Δ μ)

instance (s : State σ Δ) : (l : Label μ) → Decidable (SkipsFinished cfg s l)
  | .deliver message _ =>
    match h : cfg.react s.node.handler.workerState message with
    | .skip key => decidable_of_iff (s.node.handler.inbox.classify key ≠ .applied)
        ⟨fun hn key' he => by rw [h] at he; cases he; exact hn, fun ha => ha key h⟩
    | .refuse | .direct .. | .handle .. => .isTrue fun key he => by rw [h] at he; cases he
  | .publish .. | .commit .. | .ack .. => .isTrue trivial

/-- A run without early returns on inputs in flight. -/
def Run (s : State σ Δ) : Prop := Reachable (exec cfg) (SkipsFinished cfg) (init cfg) s

/-- A checked run that shows a given ack. -/
theorem exists_run_acked (ls : List (Label μ)) (key : InputKey) [DecidableEq Δ]
    (h : (runAllowed (exec cfg) (SkipsFinished cfg) (init cfg) ls).any
      (fun s => decide (.acked key ∈ s.trace)) = true) : ∃ s, Run cfg s ∧ .acked key ∈ s.trace := by
  obtain ⟨s, hs, hk⟩ := (Option.any_eq_true _ _).mp h
  exact ⟨s, reachable_of_runAllowed .init hs, of_decide_eq_true hk⟩

/-- A checked run after which a message meets an early return as an input in flight. -/
theorem exists_early_ack (ls : List (Label μ)) (message : μ)
    (h : (runAllowed (exec cfg) (SkipsFinished cfg) (init cfg) ls).any
      (fun s => !decide (SkipsFinished cfg s (.deliver message (.ok ⟨⟩)))) = true) :
    ∃ s, Reachable (exec cfg) (fun _ _ => True) (init cfg) s ∧ ¬ AckedAfterPublished cfg s := by
  obtain ⟨s, hs, hk⟩ := (Option.any_eq_true _ _).mp h
  have hreach : Run cfg s := reachable_of_runAllowed .init hs
  have hstep : exec cfg s (.deliver message (.ok ⟨⟩)) = some (deliver cfg s message (.ok ⟨⟩)) := rfl
  exact ⟨_, (hreach.mono fun _ _ _ => trivial).step trivial hstep,
    (inv_of_reachable hreach).not_ackedAfterPublished (by simpa using hk)⟩

end Consumer

/-- **Publication before ack.** In every run of the message handlers of the four workers, with
failing publications and appends and any redeliveries, in which no early return meets an input that
is applied and not finished: an applied input is acked only after every output it was stamped with
was published and its end was recorded. The first early return that does meet such an input breaks
this. -/
theorem applied_input_acked_after_published {π ρ α : Type} [LinearOrder α] :
    (∀ (cfg : SumConfig π) s, Run cfg.consumer s → AckedAfterPublished cfg.consumer s ∧
      ∀ message write, ¬ SkipsFinished cfg.consumer s (.deliver message write) →
        ¬ AckedAfterPublished cfg.consumer (deliver cfg.consumer s message write)) ∧
    (∀ (cfg : AggregatorConfig ρ) s, Run cfg.consumer s → AckedAfterPublished cfg.consumer s ∧
      ∀ message write, ¬ SkipsFinished cfg.consumer s (.deliver message write) →
        ¬ AckedAfterPublished cfg.consumer (deliver cfg.consumer s message write)) ∧
    (∀ (cfg : FilterQ5UsdConfig) s, Run cfg.consumer s → AckedAfterPublished cfg.consumer s ∧
      ∀ message write, ¬ SkipsFinished cfg.consumer s (.deliver message write) →
        ¬ AckedAfterPublished cfg.consumer (deliver cfg.consumer s message write)) ∧
    (∀ (cfg : Q3BarrierConfig α) s, Run cfg.consumer s → AckedAfterPublished cfg.consumer s ∧
      ∀ message write, ¬ SkipsFinished cfg.consumer s (.deliver message write) →
        ¬ AckedAfterPublished cfg.consumer (deliver cfg.consumer s message write)) := by
  have hall : ∀ {σ Δ μ : Type} (cfg : ConsumerConfig σ Δ μ) (s : State σ Δ), Run cfg s →
      AckedAfterPublished cfg s ∧
      ∀ message write, ¬ SkipsFinished cfg s (.deliver message write) →
        ¬ AckedAfterPublished cfg (deliver cfg s message write) := by
    intro σ Δ μ cfg s hs
    exact ⟨ackedAfterPublished_of_reachable hs, fun message write hn =>
      (inv_of_reachable hs).not_ackedAfterPublished hn⟩
  exact ⟨fun cfg => hall _, fun cfg => hall _, fun cfg => hall _, fun cfg => hall _⟩

/-! ### Workers that are alone -/

/-- An upstream EOF of client `7` from sender `1`. -/
def loneEof (seq : Nat) : Bytes :=
  1 :: (beEncode 16 7 ++ beEncode 4 1 ++ beEncode 4 seq ++
    (beEncode 4 1 ++ beEncode 4 0 ++ beEncode 4 0))

/-- The JSON text of the change that ends client `7`. -/
def closingText : Bytes := encodeText
  "\x7b\"type\": \"compound\", \"changes\": [\x7b\"type\": \"close\", \"client_id\": 7\x7d]\x7d"

def loneSum : SumConfig Unit where
  id := 0
  sumAmount := 1
  sumPrefix := "sum_q2"
  aggregationAmount := 1
  aggregationPrefix := "aggregation_q2"
  snapshotInterval := 1000
  sha256 := fun _ => []
  processor := ⟨(), fun _ _ => (), fun _ => .ok []⟩
  changeJson := .ofTable [(.compound [.coordinatorUpstreamEof 7 0 0 0, .close 7], closingText)]

def loneAggregator : AggregatorConfig Unit where
  id := 0
  aggregationAmount := 1
  aggregationPrefix := "aggregation_q2"
  outputQueue := "joiner_q2"
  snapshotInterval := 1000
  sha256 := fun _ => []
  processor := ⟨(), fun _ _ => (), fun _ => .ok []⟩
  changeJson := .ofTable [(.compound [.coordinatorUpstreamEof 7 0 0 0, .close 7], closingText)]

def loneFilterQ5Usd : FilterQ5UsdConfig where
  id := 0
  filterQ5UsdAmount := 1
  filterQ5UsdPrefix := "filter_q5_usd"
  aggregationAmount := 1
  aggregationPrefix := "aggregation_q5"
  snapshotInterval := 1000
  sha256 := fun _ => []
  getRate := fun _ _ => none
  mul := fun amount _ => amount
  changeJson := .ofTable
    [(.compound [.coordinatorUpstreamEof 7 0 0 0, .data 7 ⟨0, 0, 1⟩, .close 7], closingText)]

def loneQ3Barrier : Q3BarrierConfig Nat where
  id := 0
  outputQueue := "gateway_q3"
  amount := UInt64.toNat
  threshold := UInt64.toNat
  snapshotInterval := 1000
  sha256 := fun _ => []
  changeJson := .ofTable [
    (.single (.avgEof 7), encodeText "\x7b\"type\": \"avg_eof\", \"client_id\": 7\x7d"),
    (.compound [.candidateEof 7 0, .close 7], closingText)]

/-- A message that is processed to its end: one output is published, the input committed and
acked. -/
def toTheEnd {μ : Type} (message : μ) : List (Label μ) :=
  [.deliver message (.ok ⟨⟩), .publish 0 true, .commit 0 (.ok ⟨⟩), .ack 0]

/-- A message whose first output is not published. -/
def publishFails {μ : Type} (message : μ) : List (Label μ) :=
  [.deliver message (.ok ⟨⟩), .publish 0 false]

/-- The averages end first; the message has no outputs. -/
def averagesEnd : List (Label Q3BarrierConfig.Delivery) :=
  [.deliver (.averages (loneEof 0)) (.ok ⟨⟩), .commit 0 (.ok ⟨⟩), .ack 0]

/-- Each worker ends client `7` in a run without failures. -/
theorem acked_after_published_when_alone :
    (∃ s, Run loneSum.consumer s ∧ .acked ⟨7, .data, 1, 0⟩ ∈ s.trace ∧
      AckedAfterPublished loneSum.consumer s) ∧
    (∃ s, Run loneAggregator.consumer s ∧ .acked ⟨7, .data, 1, 0⟩ ∈ s.trace ∧
      AckedAfterPublished loneAggregator.consumer s) ∧
    (∃ s, Run loneFilterQ5Usd.consumer s ∧ .acked ⟨7, .ctrlUpstreamEof, 1, 7⟩ ∈ s.trace ∧
      AckedAfterPublished loneFilterQ5Usd.consumer s) ∧
    (∃ s, Run loneQ3Barrier.consumer s ∧ .acked ⟨7, .q3Candidates, 1, 0⟩ ∈ s.trace ∧
      AckedAfterPublished loneQ3Barrier.consumer s) := by
  obtain ⟨hsum, haggregator, hq5, hq3⟩ := @applied_input_acked_after_published Unit Unit Nat _
  obtain ⟨s₁, hs₁, hk₁⟩ := exists_run_acked loneSum.consumer
    (toTheEnd (.input (loneEof 0))) ⟨7, .data, 1, 0⟩ (by decide +kernel)
  obtain ⟨s₂, hs₂, hk₂⟩ := exists_run_acked loneAggregator.consumer
    (toTheEnd (.input (loneEof 0))) ⟨7, .data, 1, 0⟩ (by decide +kernel)
  obtain ⟨s₃, hs₃, hk₃⟩ := exists_run_acked loneFilterQ5Usd.consumer
    (toTheEnd (.queue (.input (loneEof 0)))) ⟨7, .ctrlUpstreamEof, 1, 7⟩ (by decide +kernel)
  obtain ⟨s₄, hs₄, hk₄⟩ := exists_run_acked loneQ3Barrier.consumer
    (averagesEnd ++ toTheEnd (.candidates (loneEof 0))) ⟨7, .q3Candidates, 1, 0⟩ (by decide +kernel)
  exact ⟨⟨s₁, hs₁, hk₁, (hsum _ s₁ hs₁).1⟩, ⟨s₂, hs₂, hk₂, (haggregator _ s₂ hs₂).1⟩,
    ⟨s₃, hs₃, hk₃, (hq5 _ s₃ hs₃).1⟩, ⟨s₄, hs₄, hk₄, (hq3 _ s₄ hs₄).1⟩⟩

/-- One failing publication of the output that ends client `7`, and one redelivery: each of the
workers acks the message, and the output is never published. -/
theorem acked_before_published_when_publish_fails :
    (¬ ∀ s, Reachable (exec loneSum.consumer) (fun _ _ => True) (init loneSum.consumer) s →
      AckedAfterPublished loneSum.consumer s) ∧
    (¬ ∀ s, Reachable (exec loneAggregator.consumer) (fun _ _ => True)
      (init loneAggregator.consumer) s → AckedAfterPublished loneAggregator.consumer s) ∧
    (¬ ∀ s, Reachable (exec loneFilterQ5Usd.consumer) (fun _ _ => True)
      (init loneFilterQ5Usd.consumer) s → AckedAfterPublished loneFilterQ5Usd.consumer s) ∧
    (¬ ∀ s, Reachable (exec loneQ3Barrier.consumer) (fun _ _ => True)
      (init loneQ3Barrier.consumer) s → AckedAfterPublished loneQ3Barrier.consumer s) := by
  refine ⟨fun h => ?_, fun h => ?_, fun h => ?_, fun h => ?_⟩
  · obtain ⟨s, hs, hn⟩ := exists_early_ack loneSum.consumer
      (publishFails (.input (loneEof 0))) (.input (loneEof 0)) (by decide +kernel)
    exact hn (h s hs)
  · obtain ⟨s, hs, hn⟩ := exists_early_ack loneAggregator.consumer
      (publishFails (.input (loneEof 0))) (.input (loneEof 0)) (by decide +kernel)
    exact hn (h s hs)
  · obtain ⟨s, hs, hn⟩ := exists_early_ack loneFilterQ5Usd.consumer
      (publishFails (.queue (.input (loneEof 0)))) (.queue (.input (loneEof 0))) (by decide +kernel)
    exact hn (h s hs)
  · obtain ⟨s, hs, hn⟩ := exists_early_ack loneQ3Barrier.consumer
      (averagesEnd ++ publishFails (.candidates (loneEof 0))) (.candidates (loneEof 0))
      (by decide +kernel)
    exact hn (h s hs)

end MoneyLaundering
