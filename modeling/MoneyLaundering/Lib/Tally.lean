import Mathlib.Algebra.BigOperators.Group.List.Lemmas
import Mathlib.Algebra.BigOperators.Ring.List
import Mathlib.Tactic.Ring
import MoneyLaundering.Lib.Dict

/-!
# Weighing lists

`tally w l` adds the weights of the elements of `l`. Two lists with the same elements in any order
have equal tallies, a tally over a concatenation is the sum of the tallies, and two nested tallies
may be exchanged: what an order, a partition or a batching does to a list does not show in its
tallies.
-/

universe u v w

/-- The total weight of a list. -/
def tally {α : Type u} (weight : α → Nat) (l : List α) : Nat := (l.map weight).sum

section tally
variable {α : Type u} {β : Type v} {weight weight' : α → Nat} {l l' : List α}

@[simp] theorem tally_nil : tally weight [] = 0 := rfl

@[simp] theorem tally_cons (a : α) : tally weight (a :: l) = weight a + tally weight l := by
  simp [tally]

@[simp] theorem tally_append : tally weight (l ++ l') = tally weight l + tally weight l' := by
  simp [tally]

theorem tally_map (f : β → α) (l : List β) :
    tally weight (l.map f) = tally (fun b => weight (f b)) l := by
  simp [tally, Function.comp_def]

theorem tally_flatMap (f : β → List α) (l : List β) :
    tally weight (l.flatMap f) = tally (fun b => tally weight (f b)) l := by
  induction l with
  | nil => rfl
  | cons b l ih => simp [List.flatMap_cons, ih]

theorem tally_perm (h : l.Perm l') : tally weight l = tally weight l' := (h.map weight).sum_eq

theorem tally_congr (h : ∀ a ∈ l, weight a = weight' a) : tally weight l = tally weight' l :=
  congrArg List.sum (List.map_congr_left h)

theorem tally_eq_zero (h : ∀ a ∈ l, weight a = 0) : tally weight l = 0 := by
  rw [tally_congr h]
  induction l with
  | nil => rfl
  | cons a l ih => simpa using ih fun b hb => h b (List.mem_cons_of_mem _ hb)

theorem tally_filter (p : α → Bool) :
    tally weight (l.filter p) = tally (fun a => if p a then weight a else 0) l := by
  induction l with
  | nil => rfl
  | cons a l ih => by_cases hp : p a <;> simp [hp, ih]

theorem tally_add : tally (fun a => weight a + weight' a) l = tally weight l + tally weight' l :=
  List.sum_map_add

/-- The tallies over two lists may be exchanged. -/
theorem tally_comm (f : α → β → Nat) (l : List α) (m : List β) :
    tally (fun a => tally (f a) m) l = tally (fun b => tally (fun a => f a b) l) m := by
  induction l with
  | nil => exact (tally_eq_zero fun _ _ => rfl).symm
  | cons a l ih =>
    simp only [tally_cons, ih]
    exact tally_add.symm

/-- Only one element of a list without repetitions has weight. -/
theorem tally_eq_single {a : α} (hn : l.Nodup) (h : ∀ b ∈ l, b ≠ a → weight b = 0)
    (ha : a ∉ l → weight a = 0) : tally weight l = weight a := by
  induction l with
  | nil => exact (ha List.not_mem_nil).symm
  | cons b l ih =>
    obtain ⟨hb, hn⟩ := List.nodup_cons.mp hn
    rw [tally_cons]
    by_cases hba : b = a
    · subst hba
      rw [tally_eq_zero fun c hc => h c (List.mem_cons_of_mem _ hc) (ne_of_mem_of_not_mem hc hb),
        Nat.add_zero]
    · rw [h b List.mem_cons_self hba, Nat.zero_add]
      exact ih hn (fun c hc => h c (List.mem_cons_of_mem _ hc)) fun hal =>
        ha fun hm => (List.mem_cons.mp hm).elim (fun e => hba e.symm) hal

/-- Elements distributed over numbered buckets: each weighs in one of them. -/
theorem tally_buckets {bucket : α → Nat} {n : Nat} (h : ∀ a ∈ l, bucket a < n) (f : α → Nat → Nat) :
    tally (fun i => tally (fun a => if bucket a = i then f a i else 0) l) (List.range n) =
      tally (fun a => f a (bucket a)) l := by
  rw [tally_comm]
  refine tally_congr fun a ha => ?_
  rw [tally_eq_single (a := bucket a) List.nodup_range (fun i _ hi => if_neg (Ne.symm hi))
    (absurd (List.mem_range.mpr (h a ha))), if_pos rfl]

/-- Cutting every weight at `t` does not hide whether the tally reaches `t`. -/
theorem le_tally_min_iff (t : Nat) :
    t ≤ tally (fun a => min (weight a) t) l ↔ t ≤ tally weight l := by
  have key : min (tally (fun a => min (weight a) t) l) t = min (tally weight l) t := by
    induction l with
    | nil => rfl
    | cons a l ih => simp only [tally_cons]; omega
  omega

theorem tally_mono (h : ∀ a ∈ l, weight a ≤ weight' a) : tally weight l ≤ tally weight' l := by
  induction l with
  | nil => exact Nat.le_refl _
  | cons a l ih =>
    rw [tally_cons, tally_cons]
    exact Nat.add_le_add (h a List.mem_cons_self) (ih fun b hb => h b (List.mem_cons_of_mem _ hb))

/-- Tallies of weights that are below others one by one are equal only if all the weights are. -/
theorem eq_of_tally_le (h : ∀ a ∈ l, weight a ≤ weight' a)
    (hle : tally weight' l ≤ tally weight l) :
    ∀ a ∈ l, weight a = weight' a := by
  induction l with
  | nil => intro a ha; cases ha
  | cons b l ih =>
    rw [tally_cons, tally_cons] at hle
    have hb := h b List.mem_cons_self
    have hl := fun c hc => h c (List.mem_cons_of_mem b hc)
    have hmono := tally_mono hl
    intro a ha
    rcases List.mem_cons.mp ha with rfl | ha
    · omega
    · exact ih hl (by omega) a ha

section count
variable [DecidableEq α] {m : List α}

/-- Lists that no weight tells apart have the same elements. -/
theorem perm_of_tally_eq (h : ∀ weight : α → Nat, tally weight l = tally weight l') :
    l.Perm l' := by
  have hcount : ∀ (a : α) (l : List α), l.count a = tally (fun b => if b = a then 1 else 0) l := by
    intro a l
    induction l with
    | nil => rfl
    | cons b l ih => rw [List.count_cons, tally_cons, ih, Nat.add_comm]; simp
  refine List.perm_iff_count.mpr fun a => ?_
  rw [hcount, hcount, h]

/-- A tally by how often each element occurs. -/
theorem tally_eq_tally_count (hm : m.Nodup) (hl : ∀ a ∈ l, a ∈ m) :
    tally weight l = tally (fun a => l.count a * weight a) m := by
  induction l with
  | nil => exact (tally_eq_zero fun a _ => by simp).symm
  | cons b l ih =>
    have hb : tally (fun a => if a = b then weight a else 0) m = weight b := by
      rw [tally_eq_single (a := b) hm (fun c _ hc => if_neg hc)
        (fun hc => absurd (hl b List.mem_cons_self) hc), if_pos rfl]
    rw [tally_cons, ih fun a ha => hl a (List.mem_cons_of_mem _ ha), ← hb, ← tally_add]
    refine tally_congr fun a _ => ?_
    by_cases hab : a = b
    · subst hab
      rw [if_pos rfl, List.count_cons_self, Nat.succ_mul, Nat.add_comm]
    · rw [if_neg hab, Nat.zero_add, List.count_cons_of_ne (Ne.symm hab)]

omit [DecidableEq α] in
/-- Lists without repetitions that have the elements with a weight in common. -/
theorem tally_eq_of_support (hl : l.Nodup) (hm : m.Nodup) (h : ∀ a ∈ l, weight a ≠ 0 → a ∈ m)
    (h' : ∀ a ∈ m, weight a ≠ 0 → a ∈ l) : tally weight l = tally weight m := by
  have hdrop : ∀ l : List α, tally weight l = tally weight (l.filter fun a =>
      decide (weight a ≠ 0)) := by
    intro l
    rw [tally_filter]
    refine tally_congr fun a _ => ?_
    by_cases ha : weight a = 0
    · simp [ha]
    · simp [ha]
  rw [hdrop l, hdrop m]
  refine tally_perm ((List.perm_ext_iff_of_nodup (hl.filter _) (hm.filter _)).mpr fun a => ?_)
  simp only [List.mem_filter, decide_eq_true_eq]
  exact ⟨fun ⟨ha, hw⟩ => ⟨h a ha hw, hw⟩, fun ⟨ha, hw⟩ => ⟨h' a ha hw, hw⟩⟩

/-- Elements of which those with a weight occur at least once weigh as if they occurred once only if
none with a weight occurs again. -/
theorem tally_eq_iff_count_eq_one (hm : m.Nodup) (hl : ∀ a ∈ l, a ∈ m)
    (h : ∀ a ∈ m, weight a ≠ 0 → a ∈ l) :
    tally weight l = tally weight m ↔ ∀ a ∈ m, weight a ≠ 0 → l.count a = 1 := by
  have hpos : ∀ a ∈ m, weight a ≤ l.count a * weight a := by
    intro a ha
    by_cases hw : weight a = 0
    · rw [hw, Nat.mul_zero]
    · exact Nat.le_mul_of_pos_left _ (List.count_pos_iff.mpr (h a ha hw))
  rw [tally_eq_tally_count hm hl]
  constructor
  · intro he a ha hw
    have := eq_of_tally_le hpos (Nat.le_of_eq he) a ha
    exact Nat.eq_of_mul_eq_mul_right (Nat.pos_of_ne_zero hw) (this.symm.trans (Nat.one_mul _).symm)
  · intro hc
    refine tally_congr fun a ha => ?_
    by_cases hw : weight a = 0
    · rw [hw, Nat.mul_zero]
    · rw [hc a ha hw, Nat.one_mul]

end count

end tally
