import MoneyLaundering.Lib.Bytes
import MoneyLaundering.Lib.Text

/-!
# Fields of fixed-width records

Text in a field of `width` bytes is padded with NUL on the right and read back without its trailing
NULs. A double is kept as its 64 bits; the two zeros are equal, a number that is none compares with
nothing, and the others are ordered like the integers that their bits spell in sign and magnitude.
-/

namespace Bytes

/-- The text that a padded field of `width` bytes can hold. -/
structure Fits (width : Nat) (s : String) : Prop where
  length_le : (encodeText s).length ≤ width
  unpadded : ∀ c, s.toList.getLast? = some c → c ≠ '\x00'

/-- The bytes of a field. -/
def padded (width : Nat) (s : String) : Bytes :=
  encodeText s ++ List.replicate (width - (encodeText s).length) 0

/-- The text of a field. -/
def unpadded? (field : Bytes) : Option String :=
  (decodeText? field).map fun s => String.ofList (Text.rstrip (· == '\x00') s.toList)

theorem Fits.length_padded {width : Nat} {s : String} (h : Fits width s) :
    (padded width s).length = width := by
  have := h.length_le
  rw [padded, List.length_append, List.length_replicate]
  omega

theorem Fits.unpadded?_padded {width : Nat} {s : String} (h : Fits width s) :
    unpadded? (padded width s) = some s := by
  rw [unpadded?, padded, ← encodeText_nuls, ← encodeText_append, decodeText?_encodeText,
    Option.map_some,
    String.toList_append, String.toList_ofList, Text.rstrip_append_replicate (by rfl),
    Text.rstrip_eq_self fun c hc => by simpa using h.unpadded c hc, String.ofList_toList]

/-- Text that was read from a field fits it. -/
theorem fits_of_unpadded? {field : Bytes} {s : String} (h : unpadded? field = some s) :
    Fits field.length s := by
  obtain ⟨text, htext, rfl⟩ := Option.map_eq_some_iff.mp h
  obtain ⟨nuls, hnuls⟩ := Text.rstrip_prefix (p := (· == '\x00')) text.toList
  constructor
  · have hsplit : encodeText text =
        encodeText (String.ofList (Text.rstrip (· == '\x00') text.toList)) ++
          encodeText (String.ofList nuls) := by
      rw [← encodeText_append, ← String.ofList_append, hnuls, String.ofList_toList]
    rw [← encodeText_of_decodeText? htext, hsplit, List.length_append]
    exact Nat.le_add_right _ _
  · intro c hc
    rw [String.toList_ofList] at hc
    simpa using Text.rstrip_last hc

/-! ## Batches of records -/

/-- The records of `size` bytes that follow one another, each read on its own. -/
def readRecords {β : Type} (size : Nat) (read : Bytes → Except String β) (label : String)
    (data : Bytes) :
    Except String (List β) := do
  Except.raiseIf (data.length % size ≠ 0) s!"invalid {label} batch size: {data.length}"
  (List.range (data.length / size)).mapM fun i => read ((data.drop (i * size)).take size)

/-- Records of the right size, one behind the other, are cut apart and read back one by one. -/
theorem mapM_pieces {α β : Type} {size : Nat} {read : Bytes → Except String β} {items : List α}
    {encode : α → Bytes} {result : α → β} (hlen : ∀ x ∈ items, (encode x).length = size)
    (hread : ∀ x ∈ items, read (encode x) = .ok (result x)) :
    ((items.map encode).flatten).length = items.length * size ∧
      (List.range items.length).mapM (fun i =>
        read ((((items.map encode).flatten).drop (i * size)).take size)) =
          .ok (items.map result) := by
  induction items with
  | nil => exact ⟨(Nat.zero_mul size).symm, rfl⟩
  | cons x items ih =>
    obtain ⟨hlength, hrest⟩ := ih (fun y hy => hlen y (List.mem_cons_of_mem _ hy))
      fun y hy => hread y (List.mem_cons_of_mem _ hy)
    have hx := hlen x List.mem_cons_self
    have hdrop : ∀ i, (encode x ++ (items.map encode).flatten).drop ((i + 1) * size) =
        ((items.map encode).flatten).drop (i * size) := by
      intro i
      rw [Nat.succ_mul, Nat.add_comm, ← List.drop_drop, List.drop_left' hx]
    constructor
    · rw [List.map_cons, List.flatten_cons, List.length_append, hlength, hx,
        List.length_cons, Nat.succ_mul, Nat.add_comm]
    · rw [List.length_cons, List.range_succ_eq_map, List.mapM_cons, List.mapM_map, List.map_cons,
        List.flatten_cons, Nat.zero_mul, List.drop_zero, List.take_left' hx,
        hread x List.mem_cons_self, Except.ok_bind]
      simp only [Function.comp_def, Nat.succ_eq_add_one, hdrop, hrest]
      rfl

/-- A batch whose length is that of whole records. -/
theorem readRecords_of_length {β : Type} {size n : Nat} (hpos : 0 < size)
    {read : Bytes → Except String β} {label : String} {data : Bytes} (h : data.length = n * size) :
    readRecords size read label data =
      (List.range n).mapM fun i => read ((data.drop (i * size)).take size) := by
  rw [readRecords, Except.raiseIf_of_not (by rw [h, Nat.mul_mod_left]; simp), Except.ok_bind, h,
    Nat.mul_div_cancel _ hpos]

theorem readRecords_flatten {α β : Type} {size : Nat} (hpos : 0 < size)
    {read : Bytes → Except String β}
    {label : String} {items : List α} {encode : α → Bytes} {result : α → β}
    (hlen : ∀ x ∈ items, (encode x).length = size)
    (hread : ∀ x ∈ items, read (encode x) = .ok (result x)) :
    readRecords size read label (items.map encode).flatten = .ok (items.map result) := by
  obtain ⟨hlength, hmap⟩ := mapM_pieces hlen hread
  rw [readRecords_of_length hpos hlength, hmap]

end Bytes

namespace Double

/-- The bits are not those of a number. -/
def isNaN (bits : UInt64) : Bool := decide (0x7ff0000000000000 < bits.toNat % 2 ^ 63)

/-- An integer that stands where the number stands: the magnitude, with the sign of the top bit. -/
def position (bits : UInt64) : Int :=
  if 2 ^ 63 ≤ bits.toNat then -((bits.toNat % 2 ^ 63 : Nat) : Int) else (bits.toNat % 2 ^ 63 : Nat)

/-- `a == b`. -/
def eq (a b : UInt64) : Bool := !isNaN a && !isNaN b && decide (position a = position b)

/-- `a > b`. -/
def gt (a b : UInt64) : Bool := !isNaN a && !isNaN b && decide (position b < position a)

variable {a b : UInt64}

theorem eq_iff (ha : isNaN a = false) (hb : isNaN b = false) :
    eq a b = true ↔ position a = position b := by
  simp [eq, ha, hb]

theorem gt_iff (ha : isNaN a = false) (hb : isNaN b = false) :
    gt a b = true ↔ position b < position a := by
  simp [gt, ha, hb]

end Double
