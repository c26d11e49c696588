import MoneyLaundering.Lib.Fields

/-!
# Formats of fixed-size records

A format writes a record as a fixed number of bytes, or raises, and reads the bytes back. From what
holds of one record follows what holds of batches: a batch reads back as it was, concatenated
batches read back as the concatenated lists, and no two records share their bytes.
-/

namespace Bytes

/-- How records are written and read, one by one and in batches. -/
structure RecordFormat (α : Type) where
  size : Nat
  serialize : α → Except String Bytes
  deserialize : Bytes → Except String α
  deserializeBatch : Bytes → Except String (List α)

namespace RecordFormat

variable {α : Type} (F : RecordFormat α)

/-- The records of a batch, one behind the other. -/
def serializeBatch (xs : List α) : Except String Bytes := do
  return (← xs.mapM F.serialize).flatten

/-- What is known of a single record: a `good` one is written exactly when it is `writable`, and
then takes `size` bytes and is read back. Batches are cut into pieces of that size. -/
structure Lawful (good writable : α → Prop) : Prop where
  size_pos : 0 < F.size
  written : ∀ {x}, good x → writable x → ∃ bs, F.serialize x = .ok bs
  writable : ∀ {x bs}, good x → F.serialize x = .ok bs → writable x
  length : ∀ {x bs}, good x → F.serialize x = .ok bs → bs.length = F.size
  read : ∀ {x bs}, good x → F.serialize x = .ok bs → F.deserialize bs = .ok x
  batch : ∀ {data n}, data.length = n * F.size → F.deserializeBatch data =
    (List.range n).mapM fun i => F.deserialize ((data.drop (i * F.size)).take F.size)

/-- What holds of batches of `good` records. -/
structure BatchLaws (good writable : α → Prop) : Prop where
  roundTrip : ∀ xs, (∀ x ∈ xs, good x) →
    (∃ bs, F.serializeBatch xs = .ok bs ∧ F.deserializeBatch bs = .ok xs) ∨
      (∃ e, F.serializeBatch xs = .error e) ∧ ∃ x ∈ xs, ¬ writable x
  append : ∀ xs ys bs cs, (∀ x ∈ xs ++ ys, good x) → F.serializeBatch xs = .ok bs →
    F.serializeBatch ys = .ok cs → F.deserializeBatch (bs ++ cs) = .ok (xs ++ ys)
  injective : ∀ x y bs, good x → good y → F.serialize x = .ok bs → F.serialize y = .ok bs → x = y

variable {F} {good writable : α → Prop}

/-- The bytes of a record that is written. -/
def bytesOf (F : RecordFormat α) (x : α) : Bytes := (F.serialize x).toOption.getD []

/-- A batch that is written holds the bytes of its records. -/
theorem serializeBatch_eq_ok {xs : List α} {bs : Bytes} (h : F.serializeBatch xs = .ok bs) :
    (∀ x ∈ xs, F.serialize x = .ok (F.bytesOf x)) ∧ bs = (xs.map F.bytesOf).flatten := by
  obtain ⟨parts, hp, h⟩ := Except.ok_of_bind h
  cases h
  have hall := Except.forall₂_of_mapM hp
  clear hp h
  induction hall with
  | nil => exact ⟨by simp, rfl⟩
  | @cons x part xs parts hx _ ih =>
    have hpart : F.bytesOf x = part := by rw [bytesOf, hx]; rfl
    constructor
    · intro y hy
      rcases List.mem_cons.mp hy with rfl | hy
      · rw [hpart]; exact hx
      · exact ih.1 y hy
    · rw [List.map_cons, List.flatten_cons, List.flatten_cons, hpart, ih.2]

variable (h : F.Lawful good writable)

include h

theorem Lawful.deserializeBatch {xs : List α} (hgood : ∀ x ∈ xs, good x)
    (hw : ∀ x ∈ xs, F.serialize x = .ok (F.bytesOf x)) :
    F.deserializeBatch (xs.map F.bytesOf).flatten = .ok xs := by
  have hread : ∀ x ∈ xs, F.deserialize (F.bytesOf x) = .ok (id x) := fun x hx =>
    h.read (hgood x hx) (hw x hx)
  obtain ⟨hlen, hmap⟩ := mapM_pieces (fun x hx => h.length (hgood x hx) (hw x hx)) hread
  rw [h.batch hlen, hmap, List.map_id]

theorem Lawful.batchLaws : F.BatchLaws good writable where
  roundTrip xs hgood := by
    by_cases hall : ∀ x ∈ xs, writable x
    · obtain ⟨parts, hp⟩ := Except.mapM_of_forall fun x hx => h.written (hgood x hx) (hall x hx)
      have hb : F.serializeBatch xs = .ok parts.flatten := by rw [serializeBatch, hp]; rfl
      obtain ⟨hw, he⟩ := serializeBatch_eq_ok hb
      refine .inl ⟨_, hb, ?_⟩
      rw [he]
      exact h.deserializeBatch hgood hw
    · push Not at hall
      obtain ⟨x, hx, hnot⟩ := hall
      refine .inr ⟨?_, x, hx, hnot⟩
      cases hb : F.serializeBatch xs with
      | error e => exact ⟨e, rfl⟩
      | ok bs => exact absurd (h.writable (hgood x hx) ((serializeBatch_eq_ok hb).1 x hx)) hnot
  append xs ys bs cs hgood hx hy := by
    obtain ⟨hwx, rfl⟩ := serializeBatch_eq_ok hx
    obtain ⟨hwy, rfl⟩ := serializeBatch_eq_ok hy
    rw [← List.flatten_append, ← List.map_append]
    refine h.deserializeBatch hgood fun z hz => ?_
    rcases List.mem_append.mp hz with hz | hz
    · exact hwx z hz
    · exact hwy z hz
  injective x y bs gx gy hx hy := Except.ok.inj ((h.read gx hx).symm.trans (h.read gy hy))

end RecordFormat

end Bytes
