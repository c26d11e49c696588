import Mathlib.Data.List.Sort
import MoneyLaundering.Lib.Dict

/-!
# Chunks and groups of a list

A list cut into chunks of a size, and a list distributed over the groups of a dictionary. The chunks
give the list back, and a group holds the elements of its key in the order of the list.
-/

universe u v

variable {α : Type u} {κ : Type v} {size : Nat}

/-- `items[i : i + size]` for `i` in `range(0, len(items), size)`. -/
def chunks (size : Nat) (items : List α) : List (List α) :=
  (List.range ((items.length + size - 1) / size)).map fun i => (items.drop (i * size)).take size

theorem flatten_chunks (hpos : 0 < size) (items : List α) :
    (chunks size items).flatten = items := by
  have key : ∀ k, ((List.range k).map fun i => (items.drop (i * size)).take size).flatten =
      items.take (k * size) := by
    intro k
    induction k with
    | zero => simp
    | succ k ih =>
      rw [List.range_succ, List.map_append, List.flatten_append, ih, Nat.succ_mul, List.take_add]
      simp
  rw [chunks, key]
  apply List.take_of_length_le
  have hmod := Nat.mod_lt (items.length + size - 1) hpos
  have hdiv := Nat.div_add_mod' (items.length + size - 1) size
  omega

variable [DecidableEq κ]

/-- `groups[k].append(x)` on a `defaultdict(list)`. -/
def Dict.push (d : Dict κ (List α)) (k : κ) (x : α) : Dict κ (List α) :=
  d.set k (d.getD k [] ++ [x])

/-- The elements of a list, appended to their groups in order. -/
def groupInto (f : α → κ) (d : Dict κ (List α)) (l : List α) : Dict κ (List α) :=
  l.foldl (fun d x => d.push (f x) x) d

theorem groupInto_append (f : α → κ) (d : Dict κ (List α)) (l l' : List α) :
    groupInto f d (l ++ l') = groupInto f (groupInto f d l) l' := List.foldl_append

theorem getD_groupInto (f : α → κ) (d : Dict κ (List α)) (l : List α) (k : κ) :
    (groupInto f d l).getD k [] = d.getD k [] ++ l.filter (f · = k) := by
  induction l generalizing d with
  | nil => simp [groupInto]
  | cons x l ih =>
    rw [groupInto, List.foldl_cons]
    refine (ih _).trans ?_
    rw [Dict.push, Dict.getD_set]
    by_cases h : f x = k
    · simp [h]
    · simp [h]

/-- `counts[k] = counts.get(k, 0) + 1` for every element of a list. -/
theorem getD_foldl_increment (f : α → κ) (d : Dict κ Nat) (l : List α) (k : κ) :
    (l.foldl (fun d x => d.set (f x) (d.getD (f x) 0 + 1)) d).getD k 0 =
      d.getD k 0 + (l.filter (f · = k)).length := by
  induction l generalizing d with
  | nil => rfl
  | cons x l ih =>
    rw [List.foldl_cons, ih, Dict.getD_set]
    by_cases hk : f x = k
    · simp only [hk, if_true, List.filter_cons, decide_true, List.length_cons]
      omega
    · simp only [hk, if_false, List.filter_cons, decide_false, Bool.false_eq_true]

/-- All the elements of the groups. -/
def Dict.grouped (d : Dict κ (List α)) : List α := d.entries.flatMap Prod.snd

omit [DecidableEq κ] in
@[simp] theorem Dict.grouped_empty : (∅ : Dict κ (List α)).grouped = [] := rfl

theorem Dict.perm_grouped_push (d : Dict κ (List α)) (k : κ) (x : α) :
    (d.push k x).grouped.Perm (x :: d.grouped) := by
  have key : ∀ es : List (κ × List α),
      ((put k ((find k es).getD [] ++ [x]) es).flatMap Prod.snd).Perm
        (x :: es.flatMap Prod.snd) := by
    intro es
    induction es with
    | nil => exact .refl _
    | cons e es ih =>
      by_cases h : e.1 = k
      · simp only [put, find, h, if_true, List.flatMap_cons, Option.getD_some, List.append_assoc,
          List.singleton_append]
        exact List.perm_middle
      · simp only [put, find, h, if_false, List.flatMap_cons]
        exact (ih.append_left _).trans List.perm_middle
  exact key d.entries

/-- The groups hold the elements of the list. -/
theorem perm_grouped_groupInto (f : α → κ) (d : Dict κ (List α)) (l : List α) :
    (groupInto f d l).grouped.Perm (l ++ d.grouped) := by
  induction l generalizing d with
  | nil => exact .refl _
  | cons x l ih =>
    refine (ih _).trans ?_
    exact ((d.perm_grouped_push (f x) x).append_left l).trans List.perm_middle

/-- The keys in insertion order. -/
def Dict.keys (d : Dict κ α) : List κ := d.entries.map Prod.fst

omit [DecidableEq κ] in
theorem Dict.nodup_keys (d : Dict κ α) : d.keys.Nodup := d.nodup

theorem Dict.getD_of_not_mem_keys {d : Dict κ α} {k : κ} (h : k ∉ d.keys) (x : α) :
    d.getD k x = x := by
  rw [Dict.getD, Dict.get?_eq_none_iff.mpr h]; rfl

theorem Dict.mem_keys_iff {d : Dict κ α} {k : κ} : k ∈ d.keys ↔ (d.get? k).isSome := by
  rw [← not_iff_not, Dict.keys, ← Dict.get?_eq_none_iff]
  simp

/-- `sorted(d)`. -/
def Dict.sortedKeys (d : Dict Nat α) : List Nat := d.keys.insertionSort (· ≤ ·)

theorem Dict.perm_sortedKeys (d : Dict Nat α) : d.sortedKeys.Perm d.keys :=
  List.perm_insertionSort _ _
