import Mathlib.Data.Set.Lattice
import Mathlib.Order.Basic
import MoneyLaundering.Lib.Dict

/-!
# Keyed maxima

Elements have a key and a rank, and for every key an element of greatest rank is wanted. A part of a
set *covers* it when it still has, for every element, one of the same key that ranks no lower;
covers compose and unite, and a maximum of a cover is a maximum of the whole set. A dictionary that
keeps, under each key, the better of the old and the new element is such a cover of what it was
offered.
-/

universe u v w

variable {α : Type u} {κ : Type v} {ρ : Type w} [LinearOrder ρ]

/-- `a` ranks at least as high as every element of `S` with its key. -/
def IsKeyedMax (key : α → κ) (rank : α → ρ) (S : Set α) (a : α) : Prop :=
  a ∈ S ∧ ∀ b ∈ S, key b = key a → rank b ≤ rank a

/-- A part of `S` that has, for every element of `S`, one of the same key that ranks no lower. -/
structure KeyedCover (key : α → κ) (rank : α → ρ) (C S : Set α) : Prop where
  subset : C ⊆ S
  above : ∀ b ∈ S, ∃ c ∈ C, key c = key b ∧ rank b ≤ rank c

section cover
variable {key : α → κ} {rank : α → ρ} {A B C S : Set α} {a b : α}

theorem KeyedCover.trans (h : KeyedCover key rank A B) (h' : KeyedCover key rank B C) :
    KeyedCover key rank A C where
  subset := h.subset.trans h'.subset
  above c hc := by
    obtain ⟨b, hb, hkb, hcb⟩ := h'.above c hc
    obtain ⟨a, ha, hka, hba⟩ := h.above b hb
    exact ⟨a, ha, hka.trans hkb, hcb.trans hba⟩

theorem KeyedCover.iUnion {ι : Type*} {P Q : ι → Set α} (h : ∀ i, KeyedCover key rank (P i) (Q i)) :
    KeyedCover key rank (⋃ i, P i) (⋃ i, Q i) where
  subset := Set.iUnion_mono fun i => (h i).subset
  above b hb := by
    obtain ⟨i, hb⟩ := Set.mem_iUnion.mp hb
    obtain ⟨c, hc, hcb⟩ := (h i).above b hb
    exact ⟨c, Set.mem_iUnion.mpr ⟨i, hc⟩, hcb⟩

theorem IsKeyedMax.of_cover (h : KeyedCover key rank C S) (ha : IsKeyedMax key rank C a) :
    IsKeyedMax key rank S a := by
  refine ⟨h.subset ha.1, fun b hb hk => ?_⟩
  obtain ⟨c, hc, hkc, hbc⟩ := h.above b hb
  exact hbc.trans (ha.2 c hc (hkc.trans hk))

/-- A maximum stays one next to an element of another key, or one that ranks no higher. -/
theorem IsKeyedMax.insert (hb : IsKeyedMax key rank S b) (h : key a = key b → rank a ≤ rank b) :
    IsKeyedMax key rank (insert a S) b := by
  refine ⟨Set.mem_insert_of_mem a hb.1, fun c hc hk => ?_⟩
  obtain rfl | hc := Set.mem_insert_iff.mp hc
  · exact h hk
  · exact hb.2 c hc hk

end cover

namespace Dict

variable [DecidableEq κ]

/-- The values, in the order of their keys. -/
def values (d : Dict κ α) : List α := d.entries.map Prod.snd

theorem mem_values_iff {d : Dict κ α} {a : α} : a ∈ d.values ↔ ∃ k, d.get? k = some a := by
  simp only [values, List.mem_map, Prod.exists, mem_entries_iff, exists_eq_right]

/-- Keep `a` under its key unless what is there is at least as good. -/
def offer (better : α → α → Bool) (d : Dict κ α) (k : κ) (a : α) : Dict κ α :=
  match d.get? k with
  | none => d.set k a
  | some b => if better a b then d.set k a else d

/-- The dictionary holds a maximum of `S` under every key of `S`, and nothing else. -/
structure HoldsMax (key : α → κ) (rank : α → ρ) (d : Dict κ α) (S : Set α) : Prop where
  isKeyedMax : ∀ {k a}, d.get? k = some a → key a = k ∧ IsKeyedMax key rank S a
  isSome : ∀ a ∈ S, (d.get? (key a)).isSome

variable {key : α → κ} {rank : α → ρ} {better : α → α → Bool} {d : Dict κ α} {S : Set α} {a : α}

theorem holdsMax_empty : HoldsMax key rank ∅ (∅ : Set α) where
  isKeyedMax h := by simp at h
  isSome _ h := absurd h (Set.notMem_empty _)

theorem HoldsMax.set (h : HoldsMax key rank d S) (ha : ∀ b ∈ S, key b = key a → rank b ≤ rank a) :
    HoldsMax key rank (d.set (key a) a) (insert a S) where
  isKeyedMax {k b} hb := by
    rw [get?_set] at hb
    split_ifs at hb with hk
    · obtain rfl := Option.some_inj.mp hb
      refine ⟨hk, Set.mem_insert a S, fun c hc hkc => ?_⟩
      obtain rfl | hc := Set.mem_insert_iff.mp hc
      · exact le_rfl
      · exact ha c hc hkc
    · obtain ⟨hkb, hmax⟩ := h.isKeyedMax hb
      exact ⟨hkb, hmax.insert fun hkab => absurd (hkab.trans hkb) hk⟩
  isSome b hb := by
    rw [get?_set]
    split_ifs with hk
    · rfl
    · obtain rfl | hb := Set.mem_insert_iff.mp hb
      · exact absurd rfl hk
      · exact h.isSome b hb

theorem HoldsMax.offer (h : HoldsMax key rank d S)
    (hbetter : ∀ b ∈ S, better a b = true ↔ rank b < rank a) :
    HoldsMax key rank (d.offer better (key a) a) (insert a S) := by
  rw [Dict.offer]
  cases hget : d.get? (key a) with
  | none =>
    refine h.set fun b hb hk => ?_
    have := h.isSome b hb
    simp [hk, hget] at this
  | some b =>
    obtain ⟨hkb, hmax⟩ := h.isKeyedMax hget
    simp only [hbetter b hmax.1]
    split_ifs with hlt
    · exact h.set fun c hc hk => (hmax.2 c hc (hk.trans hkb.symm)).trans hlt.le
    · refine ⟨fun {k c} hc => ?_, fun c hc => ?_⟩
      · obtain ⟨hkc, hmaxc⟩ := h.isKeyedMax hc
        refine ⟨hkc, hmaxc.insert fun hkac => ?_⟩
        obtain rfl : c = b := by
          have := hc.symm.trans (hkc ▸ hkac ▸ hget)
          exact Option.some_inj.mp this
        exact not_lt.mp hlt
      · obtain rfl | hc := Set.mem_insert_iff.mp hc
        · simp [hget]
        · exact h.isSome c hc

/-- The values that are held cover what was offered. -/
theorem HoldsMax.cover (h : HoldsMax key rank d S) :
    KeyedCover key rank {a | a ∈ d.values} S where
  subset a ha := by
    obtain ⟨k, hk⟩ := mem_values_iff.mp ha
    exact (h.isKeyedMax hk).2.1
  above b hb := by
    obtain ⟨c, hc⟩ := Option.isSome_iff_exists.mp (h.isSome b hb)
    obtain ⟨hk, hmax⟩ := h.isKeyedMax hc
    exact ⟨c, mem_values_iff.mpr ⟨key b, hc⟩, hk, hmax.2 b hb hk.symm⟩

/-- No two held values have the same key. -/
theorem HoldsMax.nodup_keys (h : HoldsMax key rank d S) : (d.values.map key).Nodup := by
  have hkeys : d.values.map key = d.entries.map Prod.fst := by
    rw [values, List.map_map]
    refine List.map_congr_left fun e he => ?_
    exact (h.isKeyedMax (mem_entries_iff.mp (show (e.1, e.2) ∈ d.entries from he))).1
  exact hkeys ▸ d.nodup

end Dict
