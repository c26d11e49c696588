import Mathlib.Data.List.Nodup
import Mathlib.Data.List.Basic
import Mathlib.Data.Option.Basic

/-!
# Insertion-ordered dictionaries

A finite map with distinct keys that remembers the order in which its keys were first inserted.
Overwriting a key keeps its position, a new key goes to the end. The distinctness of the keys is
a field of the structure, so every operation below keeps it by construction and iterating over
`entries` visits each key once.
-/

universe u v w x

/-- A dictionary: distinct keys, in insertion order. -/
structure Dict (κ : Type u) (ν : Type v) where
  entries : List (κ × ν)
  nodup : (entries.map Prod.fst).Nodup

namespace Dict

variable {κ : Type u} {ν : Type v} {ω : Type w} {υ : Type x}

/-- Two dictionaries with the same entries, in the same order, are equal. -/
@[ext] theorem ext {d e : Dict κ ν} (h : d.entries = e.entries) : d = e := by
  cases d; cases e; cases h; rfl

instance [DecidableEq κ] [DecidableEq ν] : DecidableEq (Dict κ ν) := fun d e =>
  decidable_of_iff (d.entries = e.entries) ⟨Dict.ext, fun h => h ▸ rfl⟩

/-- The empty dictionary. -/
def empty : Dict κ ν := ⟨[], List.nodup_nil⟩

instance : EmptyCollection (Dict κ ν) := ⟨empty⟩
instance : Inhabited (Dict κ ν) := ⟨empty⟩

@[simp] theorem entries_empty : (∅ : Dict κ ν).entries = [] := rfl

/-! ## Raw association lists -/

section raw
variable [DecidableEq κ]

/-- Value of the first entry with key `k`. -/
def find (k : κ) : List (κ × ν) → Option ν
  | [] => none
  | (k', x) :: es => if k' = k then some x else find k es

/-- Overwrite the entry of `k` in place, or append one. -/
def put (k : κ) (x : ν) : List (κ × ν) → List (κ × ν)
  | [] => [(k, x)]
  | (k', y) :: es => if k' = k then (k, x) :: es else (k', y) :: put k x es

theorem find_eq_none_iff {k : κ} {es : List (κ × ν)} : find k es = none ↔ k ∉ es.map Prod.fst := by
  induction es with
  | nil => simp [find]
  | cons e es ih =>
    obtain ⟨k', y⟩ := e
    by_cases h : k' = k
    · simp [find, h]
    · simp [find, h, ih, Ne.symm h]

theorem find_put (k k' : κ) (x : ν) (es : List (κ × ν)) :
    find k' (put k x es) = if k = k' then some x else find k' es := by
  induction es with
  | nil => simp [put, find]
  | cons e es ih =>
    obtain ⟨k'', y⟩ := e
    by_cases h : k'' = k
    · subst h
      by_cases h' : k'' = k' <;> simp [put, find, h']
    · by_cases h' : k'' = k'
      · subst h'
        simp [put, find, h, Ne.symm h]
      · simp [put, find, h, h', ih]

theorem keys_put (k : κ) (x : ν) (es : List (κ × ν)) :
    (put k x es).map Prod.fst =
      if k ∈ es.map Prod.fst then es.map Prod.fst else es.map Prod.fst ++ [k] := by
  induction es with
  | nil => simp [put]
  | cons e es ih =>
    obtain ⟨k', y⟩ := e
    by_cases h : k' = k
    · subst h; simp [put]
    · have hk : (k ∈ List.map Prod.fst ((k', y) :: es)) ↔ k ∈ es.map Prod.fst := by
        simp [Ne.symm h]
      rw [put, if_neg h, List.map_cons, ih]
      by_cases hm : k ∈ es.map Prod.fst
      · rw [if_pos hm, if_pos (hk.mpr hm), List.map_cons]
      · rw [if_neg hm, if_neg (hk.not.mpr hm), List.map_cons, List.cons_append]

theorem find_of_mem {k : κ} {x : ν} {es : List (κ × ν)} (hn : (es.map Prod.fst).Nodup)
    (h : (k, x) ∈ es) : find k es = some x := by
  induction es with
  | nil => simp at h
  | cons e es ih =>
    obtain ⟨k', y⟩ := e
    simp only [List.map_cons, List.nodup_cons] at hn
    rcases List.mem_cons.mp h with h | h
    · cases h; simp [find]
    · have hne : k' ≠ k := fun he => hn.1 (he ▸ List.mem_map.mpr ⟨_, h, rfl⟩)
      simp [find, hne, ih hn.2 h]

theorem mem_of_find {k : κ} {x : ν} {es : List (κ × ν)} (h : find k es = some x) :
    (k, x) ∈ es := by
  induction es with
  | nil => simp [find] at h
  | cons e es ih =>
    obtain ⟨k', y⟩ := e
    by_cases hk : k' = k
    · subst hk; simp_all [find]
    · simp only [find, if_neg hk] at h
      exact List.mem_cons_of_mem _ (ih h)

theorem put_of_find {k : κ} {x : ν} {es : List (κ × ν)} (h : find k es = some x) :
    put k x es = es := by
  induction es with
  | nil => simp [find] at h
  | cons e es ih =>
    obtain ⟨k', y⟩ := e
    by_cases hk : k' = k
    · subst hk; simp_all [find, put]
    · simp only [find, if_neg hk] at h
      rw [put, if_neg hk, ih h]

theorem put_put (k : κ) (x y : ν) (es : List (κ × ν)) : put k y (put k x es) = put k y es := by
  induction es with
  | nil => simp [put]
  | cons e es ih =>
    obtain ⟨k', z⟩ := e
    by_cases hk : k' = k
    · simp [put, hk]
    · simp [put, hk, ih]

theorem put_append_of_not_mem {k : κ} {x : ν} {es : List (κ × ν)} (h : k ∉ es.map Prod.fst) :
    put k x es = es ++ [(k, x)] := by
  induction es with
  | nil => rfl
  | cons e es ih =>
    obtain ⟨k', y⟩ := e
    simp only [List.map_cons, List.mem_cons, not_or] at h
    rw [put, if_neg (Ne.symm h.1), ih h.2, List.cons_append]

end raw

/-! ## Operations -/

variable [DecidableEq κ]

/-- `d.get(k)`. -/
def get? (d : Dict κ ν) (k : κ) : Option ν := find k d.entries

/-- `d.get(k, x)`. -/
def getD (d : Dict κ ν) (k : κ) (x : ν) : ν := (d.get? k).getD x

/-- `k in d`. -/
def contains (d : Dict κ ν) (k : κ) : Bool := (d.get? k).isSome

/-- `d[k] = x`. -/
def set (d : Dict κ ν) (k : κ) (x : ν) : Dict κ ν where
  entries := put k x d.entries
  nodup := by
    rw [keys_put]
    split
    · exact d.nodup
    · next h =>
      refine List.Nodup.append d.nodup (List.nodup_singleton k) ?_
      intro a ha hb
      rw [List.mem_singleton] at hb
      exact h (hb ▸ ha)

/-- Keep the entries whose key satisfies `p`. -/
def filter (d : Dict κ ν) (p : κ → Bool) : Dict κ ν where
  entries := d.entries.filter fun e => p e.1
  nodup := d.nodup.sublist (List.filter_sublist.map _)

/-- `d.pop(k, None)`. -/
def erase (d : Dict κ ν) (k : κ) : Dict κ ν := d.filter fun k' => decide (k' ≠ k)

/-- `{k: f(x) for k, x in d.items()}`. -/
def mapVals (d : Dict κ ν) (f : ν → ω) : Dict κ ω where
  entries := d.entries.map fun e => (e.1, f e.2)
  nodup := by simpa [List.map_map, Function.comp_def] using d.nodup

/-- The dictionary built by assigning the pairs in order. -/
def ofList (es : List (κ × ν)) : Dict κ ν := es.foldl (fun d e => d.set e.1 e.2) ∅

@[simp] theorem get?_empty (k : κ) : (∅ : Dict κ ν).get? k = none := rfl

@[simp] theorem getD_empty (k : κ) (x : ν) : (∅ : Dict κ ν).getD k x = x := rfl

theorem get?_set (d : Dict κ ν) (k k' : κ) (x : ν) :
    (d.set k x).get? k' = if k = k' then some x else d.get? k' := find_put k k' x d.entries

@[simp] theorem get?_set_self (d : Dict κ ν) (k : κ) (x : ν) : (d.set k x).get? k = some x := by
  simp [get?_set]

theorem get?_set_of_ne (d : Dict κ ν) {k k' : κ} (x : ν) (h : k ≠ k') :
    (d.set k x).get? k' = d.get? k' := by simp [get?_set, h]

theorem getD_set (d : Dict κ ν) (k k' : κ) (x y : ν) :
    (d.set k x).getD k' y = if k = k' then x else d.getD k' y := by
  simp only [getD, get?_set]; split <;> rfl

theorem get?_filter (d : Dict κ ν) (p : κ → Bool) (k : κ) :
    (d.filter p).get? k = if p k then d.get? k else none := by
  obtain ⟨es, hn⟩ := d
  simp only [get?, filter]
  clear hn
  induction es with
  | nil => simp [find]
  | cons e es ih =>
    obtain ⟨k', y⟩ := e
    by_cases hk : k' = k
    · subst hk
      by_cases hp : p k'
      · simp [find, hp]
      · simpa [find, hp] using ih
    · by_cases hp : p k' <;> simp [find, hp, hk, ih]

theorem get?_erase (d : Dict κ ν) (k k' : κ) :
    (d.erase k).get? k' = if k' = k then none else d.get? k' := by
  rw [erase, get?_filter]
  by_cases h : k' = k <;> simp [h]

@[simp] theorem get?_erase_self (d : Dict κ ν) (k : κ) : (d.erase k).get? k = none := by
  simp [get?_erase]

theorem get?_erase_of_ne (d : Dict κ ν) {k k' : κ} (h : k' ≠ k) :
    (d.erase k).get? k' = d.get? k' := by simp [get?_erase, h]

theorem getD_erase (d : Dict κ ν) (k k' : κ) (x : ν) :
    (d.erase k).getD k' x = if k' = k then x else d.getD k' x := by
  simp only [getD, get?_erase]; split <;> rfl

theorem get?_mapVals (d : Dict κ ν) (f : ν → ω) (k : κ) :
    (d.mapVals f).get? k = (d.get? k).map f := by
  obtain ⟨es, hn⟩ := d
  simp only [get?, mapVals]
  clear hn
  induction es with
  | nil => rfl
  | cons e es ih =>
    obtain ⟨k', y⟩ := e
    by_cases hk : k' = k <;> simp [find, hk, ih]

omit [DecidableEq κ] in
theorem mapVals_mapVals (d : Dict κ ν) (f : ν → ω) (g : ω → υ) :
    (d.mapVals f).mapVals g = d.mapVals (g ∘ f) := ext (by simp [mapVals, Function.comp_def])

theorem mapVals_congr {d : Dict κ ν} {f g : ν → ω} (h : ∀ k x, d.get? k = some x → f x = g x) :
    d.mapVals f = d.mapVals g :=
  ext (List.map_congr_left fun e he =>
    congrArg (Prod.mk e.1) (h e.1 e.2 (find_of_mem d.nodup he)))

theorem mapVals_set (d : Dict κ ν) (f : ν → ω) (k : κ) (x : ν) :
    (d.set k x).mapVals f = (d.mapVals f).set k (f x) := by
  refine ext ?_
  simp only [mapVals, set]
  induction d.entries with
  | nil => rfl
  | cons e es ih =>
    obtain ⟨k', y⟩ := e
    by_cases hk : k' = k <;> simp [put, hk, ih]

omit [DecidableEq κ] in
theorem mapVals_filter (d : Dict κ ν) (f : ν → ω) (p : κ → Bool) :
    (d.filter p).mapVals f = (d.mapVals f).filter p :=
  ext (by simp [mapVals, filter, List.filter_map, Function.comp_def])

theorem mapVals_erase (d : Dict κ ν) (f : ν → ω) (k : κ) :
    (d.erase k).mapVals f = (d.mapVals f).erase k := mapVals_filter ..

omit [DecidableEq κ] in
@[simp] theorem mapVals_id (d : Dict κ ν) : d.mapVals (fun x => x) = d := ext (by simp [mapVals])

/-- Changing what one value, held under one key only, is mapped to. -/
theorem mapVals_update [DecidableEq ν] {d : Dict κ ν} {k : κ} {r : ν} (f : ν → ω) (x : ω)
    (hk : d.get? k = some r) (hr : ∀ k', d.get? k' = some r → k' = k) :
    d.mapVals (Function.update f r x) = (d.mapVals f).set k x := by
  refine ext ?_
  obtain ⟨es, hn⟩ := d
  replace hr : ∀ k', (k', r) ∈ es → k' = k := fun k' hm => hr k' (find_of_mem hn hm)
  simp only [get?] at hk
  simp only [mapVals, set]
  induction es with
  | nil => cases hk
  | cons e es ih =>
    obtain ⟨k', y⟩ := e
    have hn' := List.nodup_cons.mp hn
    have htail : ∀ k'', (k'', r) ∈ es → k'' = k := fun k'' hm => hr k'' (List.mem_cons_of_mem _ hm)
    by_cases hk' : k' = k
    · subst hk'
      obtain rfl : y = r := by simpa [find] using hk
      have hrest : ∀ e ∈ es, (e.1, Function.update f y x e.2) = (e.1, f e.2) := by
        rintro ⟨k'', z⟩ hm
        refine congrArg (Prod.mk k'') (Function.update_of_ne ?_ _ _)
        rintro rfl
        exact hn'.1 (htail k'' hm ▸ List.mem_map.mpr ⟨_, hm, rfl⟩)
      simp [put, List.map_congr_left hrest]
    · have hy : y ≠ r := by
        rintro rfl
        exact hk' (hr k' List.mem_cons_self)
      rw [find, if_neg hk'] at hk
      simp [put, hk', hy, ih hn'.2 hk htail]

theorem mem_entries_iff {d : Dict κ ν} {k : κ} {x : ν} : (k, x) ∈ d.entries ↔ d.get? k = some x :=
  ⟨find_of_mem d.nodup, mem_of_find⟩

theorem get?_eq_none_iff {d : Dict κ ν} {k : κ} :
    d.get? k = none ↔ k ∉ d.entries.map Prod.fst := find_eq_none_iff

theorem contains_iff {d : Dict κ ν} {k : κ} : d.contains k = true ↔ k ∈ d.entries.map Prod.fst := by
  rw [contains, Option.isSome_iff_ne_none, ne_eq, get?_eq_none_iff, not_not]

theorem filter_congr {d : Dict κ ν} {p q : κ → Bool} (h : ∀ k, d.contains k = true → p k = q k) :
    d.filter p = d.filter q := by
  refine ext (List.filter_congr fun e he => h e.1 ?_)
  rw [contains, mem_entries_iff.mp he]
  rfl

omit [DecidableEq κ] in
theorem filter_filter (d : Dict κ ν) (p q : κ → Bool) :
    (d.filter p).filter q = d.filter fun k => p k && q k :=
  ext (by simp only [filter, List.filter_filter, Bool.and_comm])

omit [DecidableEq κ] in
@[simp] theorem filter_true (d : Dict κ ν) : (d.filter fun _ => true) = d :=
  ext (List.filter_eq_self.mpr fun _ _ => rfl)

/-- Writing back the stored value changes nothing. -/
theorem set_of_get? {d : Dict κ ν} {k : κ} {x : ν} (h : d.get? k = some x) : d.set k x = d :=
  Dict.ext (put_of_find h)

theorem set_eq_self_iff {d : Dict κ ν} {k : κ} {x : ν} : d.set k x = d ↔ d.get? k = some x :=
  ⟨fun h => by rw [← h, get?_set_self], set_of_get?⟩

theorem set_set (d : Dict κ ν) (k : κ) (x y : ν) : (d.set k x).set k y = d.set k y :=
  ext (put_put k x y d.entries)

theorem erase_set (d : Dict κ ν) (k : κ) (x : ν) : (d.set k x).erase k = d.erase k := by
  refine ext ?_
  simp only [erase, filter, set]
  induction d.entries with
  | nil => simp [put]
  | cons e es ih =>
    obtain ⟨k', y⟩ := e
    by_cases hk : k' = k
    · simp [put, hk]
    · rw [put, if_neg hk, List.filter_cons, List.filter_cons, ih]

theorem erase_of_get?_none {d : Dict κ ν} {k : κ} (h : d.get? k = none) : d.erase k = d := by
  refine Dict.ext (List.filter_eq_self.mpr fun e he => ?_)
  have hne : e.1 ≠ k := fun hk =>
    get?_eq_none_iff.mp h (hk ▸ List.mem_map.mpr ⟨e, he, rfl⟩)
  simpa using hne

/-- A dictionary with a stored key is not empty. -/
theorem ne_empty_of_get? {d : Dict κ ν} {k : κ} {x : ν} (h : d.get? k = some x) : d ≠ ∅ := by
  rintro rfl; simp at h

theorem set_ne_empty (d : Dict κ ν) (k : κ) (x : ν) : d.set k x ≠ ∅ :=
  ne_empty_of_get? (get?_set_self d k x)

private theorem foldl_set_entries {es : List (κ × ν)} {d : Dict κ ν}
    (hn : ((d.entries ++ es).map Prod.fst).Nodup) :
    (es.foldl (fun d e => d.set e.1 e.2) d).entries = d.entries ++ es := by
  induction es generalizing d with
  | nil => simp
  | cons e es ih =>
    have hk : e.1 ∉ d.entries.map Prod.fst := by
      simp only [List.map_append, List.map_cons] at hn
      intro hm
      exact (List.nodup_append.mp hn).2.2 _ hm _ List.mem_cons_self rfl
    have hset : (d.set e.1 e.2).entries = d.entries ++ [e] := put_append_of_not_mem hk
    rw [List.foldl_cons, ih (by rw [hset]; simpa using hn), hset]
    simp

/-- Assigning pairs with distinct keys keeps them all, in order. -/
theorem entries_ofList {es : List (κ × ν)} (hn : (es.map Prod.fst).Nodup) :
    (ofList es).entries = es := by
  simpa [ofList] using foldl_set_entries (d := (∅ : Dict κ ν)) (by simpa using hn)

/-- Assigning the entries of a dictionary one by one rebuilds it. -/
@[simp] theorem ofList_entries (d : Dict κ ν) : ofList d.entries = d :=
  Dict.ext (entries_ofList d.nodup)

/-- `{k: f(x) for k, x in d.items()}` for an `f` that may fail. -/
def mapM? (d : Dict κ ν) (f : ν → Option ω) : Option (Dict κ ω) :=
  (d.entries.mapM fun e => (f e.2).map (Prod.mk e.1)).map ofList

/-- Undoing a value map that always succeeds. -/
theorem mapM?_mapVals {d : Dict κ ν} {g : ν → ω} {f : ω → Option ν}
    (h : ∀ e ∈ d.entries, f (g e.2) = some e.2) : (d.mapVals g).mapM? f = some d := by
  have hm : (d.mapVals g).entries.mapM (fun e => (f e.2).map (Prod.mk e.1)) = some d.entries := by
    obtain ⟨es, hn⟩ := d
    simp only [mapVals] at h ⊢
    clear hn
    induction es with
    | nil => rfl
    | cons e es ih =>
      rw [List.map_cons, List.mapM_cons, ih fun e he => h e (List.mem_cons_of_mem _ he)]
      simp [h e List.mem_cons_self]
  rw [mapM?, hm, Option.map_some, ofList_entries]

end Dict
