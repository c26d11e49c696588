/-!
# Runs of a labelled transition function

States reached by steps whose label the environment allows in the state it is taken in, the
invariant rule for them, and a way to show that a concrete run reaches a state.
-/

universe u v w

namespace Transition

variable {S : Type u} {L : Type v}

/-- The states reached from `s₀` by allowed steps; a label that is not enabled gives `none`. -/
inductive Reachable (exec : S → L → Option S) (allowed : S → L → Prop) (s₀ : S) : S → Prop
  | init : Reachable exec allowed s₀ s₀
  | step {s s' : S} {l : L} (h : Reachable exec allowed s₀ s) (ha : allowed s l)
      (he : exec s l = some s') : Reachable exec allowed s₀ s'

variable {exec : S → L → Option S} {allowed : S → L → Prop} {s₀ s : S}

/-- What holds initially and survives every allowed step holds in every reached state. -/
theorem Reachable.invariant {Inv : S → Prop} (h₀ : Inv s₀)
    (hstep : ∀ s l s', Inv s → allowed s l → exec s l = some s' → Inv s')
    (h : Reachable exec allowed s₀ s) : Inv s := by
  induction h with
  | init => exact h₀
  | step _ ha he ih => exact hstep _ _ _ ih ha he

/-- A reached state stays reached when more is allowed. -/
theorem Reachable.mono {allowed' : S → L → Prop} (hle : ∀ s l, allowed s l → allowed' s l)
    (h : Reachable exec allowed s₀ s) : Reachable exec allowed' s₀ s := by
  induction h with
  | init => exact .init
  | step _ ha he ih => exact .step ih (hle _ _ ha) he

/-- Where every allowed step of one system is an allowed step of another, what the first reaches the
second reaches. -/
theorem Reachable.of_steps {L' : Type w} {exec' : S → L' → Option S} {allowed' : S → L' → Prop}
    (hstep : ∀ s l s', allowed s l → exec s l = some s' → ∃ l', allowed' s l' ∧
      exec' s l' = some s')
    (h : Reachable exec allowed s₀ s) : Reachable exec' allowed' s₀ s := by
  induction h with
  | init => exact .init
  | step _ ha he ih =>
    obtain ⟨l', ha', he'⟩ := hstep _ _ _ ha he
    exact .step ih ha' he'

/-- Run a list of labels, checking each against the environment. -/
def runAllowed (exec : S → L → Option S) (allowed : S → L → Prop)
    [∀ s l, Decidable (allowed s l)] : S → List L → Option S
  | s, [] => some s
  | s, l :: ls =>
    if allowed s l then
      match exec s l with
      | some s' => runAllowed exec allowed s' ls
      | none => none
    else none

/-- One run after another. -/
theorem runAllowed_append [∀ s l, Decidable (allowed s l)] (s : S) (ls ls' : List L) :
    runAllowed exec allowed s (ls ++ ls') =
      (runAllowed exec allowed s ls).bind (runAllowed exec allowed · ls') := by
  induction ls generalizing s with
  | nil => rfl
  | cons l ls ih =>
    rw [List.cons_append, runAllowed, runAllowed]
    split
    · cases exec s l with
      | none => rfl
      | some s' => exact ih s'
    · rfl

/-- A checked run reaches its last state. -/
theorem reachable_of_runAllowed [∀ s l, Decidable (allowed s l)] {s' : S} {ls : List L}
    (h : Reachable exec allowed s₀ s) (hr : runAllowed exec allowed s ls = some s') :
    Reachable exec allowed s₀ s' := by
  induction ls generalizing s with
  | nil => cases hr; exact h
  | cons l ls ih =>
    rw [runAllowed] at hr
    split at hr
    · next ha =>
      split at hr
      · next s₁ he => exact ih (h.step ha he) hr
      · cases hr
    · cases hr

end Transition
