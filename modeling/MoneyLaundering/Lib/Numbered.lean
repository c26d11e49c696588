import Mathlib.Data.List.Nodup
import Mathlib.Data.Nat.ModEq

/-!
# Numbers from a counter that wraps

Lists that count up from a number modulo `m`, as a counter of fixed width stamps them. No number
comes twice as long as the list is not longer than `m`.
-/

namespace MoneyLaundering

/-- The numbers `v, v + 1, …` modulo `m`. -/
def CountsFrom (m : Nat) : Nat → List Nat → Prop
  | _, [] => True
  | v, x :: xs => x = v % m ∧ CountsFrom m (v + 1) xs

namespace CountsFrom

variable {m v v' : Nat} {xs ys : List Nat}

theorem append_iff :
    CountsFrom m v (xs ++ ys) ↔ CountsFrom m v xs ∧ CountsFrom m (v + xs.length) ys := by
  induction xs generalizing v with
  | nil => simp [CountsFrom]
  | cons x xs ih =>
    have hlen : v + 1 + xs.length = v + (x :: xs).length := by
      rw [List.length_cons]
      omega
    rw [List.cons_append, CountsFrom, CountsFrom, ih, hlen, and_assoc]

/-- Only the remainder of the first number matters. -/
theorem congr (hv : v % m = v' % m) (h : CountsFrom m v xs) : CountsFrom m v' xs := by
  induction xs generalizing v v' with
  | nil => trivial
  | cons x xs ih => exact ⟨h.1.trans hv, ih (Nat.ModEq.add_right 1 hv) h.2⟩

/-- What stands at a position. -/
theorem getElem? {i x : Nat} (h : CountsFrom m v xs) (hx : xs[i]? = some x) : x = (v + i) % m := by
  induction xs generalizing v i with
  | nil => cases hx
  | cons y xs ih =>
    cases i with
    | zero => exact (Option.some.inj hx).symm.trans h.1
    | succ i =>
      have hxi := ih h.2 hx
      rwa [Nat.add_assoc, Nat.add_comm 1 i] at hxi

/-- No number comes twice before the counter wraps. -/
theorem nodup (h : CountsFrom m v xs) (hlen : xs.length ≤ m) : xs.Nodup := by
  rw [List.nodup_iff_getElem?_ne_getElem?]
  intro i j hij hj hsame
  obtain ⟨x, hx⟩ : ∃ x, xs[i]? = some x := ⟨_, List.getElem?_eq_getElem (Nat.lt_trans hij hj)⟩
  have hi := h.getElem? hx
  have hj' := h.getElem? (hsame ▸ hx)
  -- positions below `m` have distinct remainders
  have hmod : (v + i) % m = (v + j) % m := hi.symm.trans hj'
  have hrem : i % m = j % m := Nat.ModEq.add_left_cancel' v hmod
  rw [Nat.mod_eq_of_lt (by omega), Nat.mod_eq_of_lt (by omega)] at hrem
  omega

end CountsFrom

end MoneyLaundering
