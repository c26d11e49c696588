import Mathlib.Order.RelClasses
import MoneyLaundering.Lib.Transition

/-!
# What every run comes to

A state is inevitable when no run can avoid it or stop before it. The rule for it is a rank: as long
as the state is not reached some step is enabled, and every allowed step lowers the rank.
-/

universe u v w

namespace Transition

variable {S : Type u} {L : Type v} {exec : S → L → Option S} {allowed : S → L → Prop}
    {P Q : S → Prop} {s : S}

/-- Every run of allowed steps comes to a state with `P`, and none gets stuck before. -/
inductive Inevitable (exec : S → L → Option S) (allowed : S → L → Prop) (P : S → Prop) : S → Prop
  | here {s : S} (h : P s) : Inevitable exec allowed P s
  | next {s : S} (enabled : ∃ l s', allowed s l ∧ exec s l = some s')
      (all : ∀ l s', allowed s l → exec s l = some s' → Inevitable exec allowed P s') :
      Inevitable exec allowed P s

theorem Inevitable.mono (hle : ∀ s, P s → Q s) (h : Inevitable exec allowed P s) :
    Inevitable exec allowed Q s := by
  induction h with
  | here h => exact .here (hle _ h)
  | next enabled _ ih => exact .next enabled fun l s' ha he => ih l s' ha he

/-- What survives every allowed step holds there as well. -/
theorem Inevitable.with_invariant {Inv : S → Prop}
    (hstep : ∀ s l s', Inv s → allowed s l → exec s l = some s' → Inv s')
    (h : Inevitable exec allowed P s)
    (hs : Inv s) : Inevitable exec allowed (fun s => P s ∧ Inv s) s := by
  induction h with
  | here h => exact .here ⟨h, hs⟩
  | next enabled _ ih => exact .next enabled fun l s' ha he => ih l s' ha he (hstep _ _ _ hs ha he)

/-- Under an invariant, a rank that every allowed step lowers leads to `P`. -/
theorem Inevitable.of_rank {α : Type w} {r : α → α → Prop} (wf : WellFounded r) (rank : S → α)
    {Inv : S → Prop} (enabled : ∀ s, Inv s → ¬ P s → ∃ l s', allowed s l ∧ exec s l = some s')
    (step : ∀ s l s', Inv s → ¬ P s → allowed s l → exec s l = some s' → Inv s' ∧
      r (rank s') (rank s))
    (h : Inv s) : Inevitable exec allowed P s := by
  generalize hs : rank s = a
  induction a using wf.induction generalizing s with
  | _ a ih =>
    subst hs
    by_cases hP : P s
    · exact .here hP
    · refine .next (enabled s h hP) fun l s' ha he => ?_
      obtain ⟨hInv, hr⟩ := step s l s' h hP ha he
      exact ih _ hr hInv rfl

end Transition
