import Mathlib.Data.List.Induction
import Mathlib.Tactic.Ring

/-!
# Big-endian byte strings and cursors

Fixed-width big-endian numbers, bounds-checked reads at an offset, and the predicate `Bytes.At`
that says what remains to be read at a cursor. A reader is specified by one law in each direction:
reading what was written gives it back and moves the cursor (`readExact_of_at`), and a successful
read splits the remaining bytes (`at_of_readExact`).
-/

universe u v

/-! ## Lists side by side -/

namespace List.Forall₂

variable {α : Type u} {β : Type v} {R : α → β → Prop} {as : List α} {bs : List β}

theorem exists_left (h : List.Forall₂ R as bs) {b : β} (hb : b ∈ bs) : ∃ a ∈ as, R a b := by
  induction h with
  | nil => cases hb
  | @cons a b' as bs hab _ ih =>
    rcases List.mem_cons.mp hb with rfl | hb
    · exact ⟨a, List.mem_cons_self, hab⟩
    · obtain ⟨a', ha, hr⟩ := ih hb
      exact ⟨a', List.mem_cons_of_mem _ ha, hr⟩

theorem exists_right (h : List.Forall₂ R as bs) {a : α} (ha : a ∈ as) : ∃ b ∈ bs, R a b := by
  induction h with
  | nil => cases ha
  | @cons a' b as bs hab _ ih =>
    rcases List.mem_cons.mp ha with rfl | ha
    · exact ⟨b, List.mem_cons_self, hab⟩
    · obtain ⟨b', hb, hr⟩ := ih ha
      exact ⟨b', List.mem_cons_of_mem _ hb, hr⟩

end List.Forall₂

/-! ## Computations that may raise -/

namespace Except

variable {ε : Type u} {α β : Type v}

theorem ok_bind (a : α) (f : α → Except ε β) : (Except.ok a >>= f) = f a := rfl

/-- A sequence of two steps succeeds exactly when both do. -/
theorem ok_of_bind {x : Except ε α} {f : α → Except ε β} {b : β} (h : (x >>= f) = .ok b) :
    ∃ a, x = .ok a ∧ f a = .ok b := by
  cases x with
  | error e => cases h
  | ok a => exact ⟨a, rfl, h⟩

theorem ok_of_map {f : α → β} {x : Except ε α} {b : β} (h : x.map f = .ok b) :
    ∃ a, x = .ok a ∧ f a = b := by
  cases x with
  | error e => cases h
  | ok a => exact ⟨a, rfl, Except.ok.inj h⟩

/-- Two computations with one outcome fail alike, or both succeed. -/
theorem of_map_eq {γ : Type v} {x : Except ε α} {y : Except ε β} {f : α → γ} {g : β → γ}
    (h : x.map f = y.map g) :
    (∃ e, x = .error e ∧ y = .error e) ∨ ∃ a b, x = .ok a ∧ y = .ok b ∧ f a = g b := by
  cases x with
  | error e =>
    cases y with
    | error e' =>
      cases h
      exact .inl ⟨e, rfl, rfl⟩
    | ok b => cases h
  | ok a =>
    cases y with
    | error e' => cases h
    | ok b => exact .inr ⟨a, b, rfl, rfl, Except.ok.inj h⟩

/-- `if p: raise e`. -/
def raiseIf (p : Prop) [Decidable p] (e : ε) : Except ε PUnit := if p then .error e else .ok ⟨⟩

/-- A computation that succeeds has passed the guard in front of it. -/
theorem ok_of_raiseIf {p : Prop} [Decidable p] {e : ε} {x : PUnit → Except ε β} {b : β}
    (h : (raiseIf p e >>= x) = .ok b) : ¬ p ∧ x PUnit.unit = .ok b := by
  unfold raiseIf at h
  by_cases hp : p
  · rw [if_pos hp] at h; cases h
  · rw [if_neg hp] at h; exact ⟨hp, h⟩

/-- A loop that may raise succeeds when every round does. -/
theorem forall₂_of_mapM {α : Type u} {β : Type v} {f : α → Except ε β} {as : List α} {bs : List β}
    (h : as.mapM f = .ok bs) : List.Forall₂ (fun a b => f a = .ok b) as bs := by
  induction as generalizing bs with
  | nil => cases h; exact .nil
  | cons a as ih =>
    rw [List.mapM_cons] at h
    obtain ⟨b, hb, h⟩ := ok_of_bind h
    obtain ⟨bs', hbs, h⟩ := ok_of_bind h
    cases h
    exact .cons hb (ih hbs)

theorem mapM_of_forall {α : Type u} {β : Type v} {f : α → Except ε β} {as : List α}
    (h : ∀ a ∈ as, ∃ b, f a = .ok b) : ∃ bs, as.mapM f = .ok bs := by
  induction as with
  | nil => exact ⟨[], rfl⟩
  | cons a as ih =>
    obtain ⟨b, hb⟩ := h a List.mem_cons_self
    obtain ⟨bs, hbs⟩ := ih fun a ha => h a (List.mem_cons_of_mem _ ha)
    exact ⟨b :: bs, by rw [List.mapM_cons, hb, ok_bind, hbs]; rfl⟩

theorem mapM_eq_map {α : Type u} {β : Type v} {f : α → Except ε β} {g : α → β} {as : List α}
    (h : ∀ a ∈ as, f a = .ok (g a)) : as.mapM f = .ok (as.map g) := by
  induction as with
  | nil => rfl
  | cons a as ih =>
    rw [List.mapM_cons, h a List.mem_cons_self, ok_bind, ih fun a ha =>
      h a (List.mem_cons_of_mem _ ha)]
    rfl

@[simp] theorem raiseIf_of_not {p : Prop} [Decidable p] {e : ε} (h : ¬ p) :
    raiseIf p e = .ok PUnit.unit := if_neg h

end Except

/-- A byte string. -/
abbrev Bytes := List UInt8

namespace Bytes

/-- The low `w` bytes of `n`, most significant first. -/
def beEncode : Nat → Nat → Bytes
  | 0, _ => []
  | w + 1, n => beEncode w (n / 256) ++ [UInt8.ofNat n]

/-- The number a byte string denotes, most significant byte first. -/
def beDecode (bs : Bytes) : Nat := bs.foldl (fun acc b => acc * 256 + b.toNat) 0

@[simp] theorem length_beEncode (w n : Nat) : (beEncode w n).length = w := by
  induction w generalizing n with
  | zero => rfl
  | succ w ih => simp [beEncode, ih]

@[simp] theorem beDecode_append_singleton (bs : Bytes) (b : UInt8) :
    beDecode (bs ++ [b]) = beDecode bs * 256 + b.toNat := by simp [beDecode]

theorem beDecode_beEncode {w n : Nat} (h : n < 256 ^ w) : beDecode (beEncode w n) = n := by
  induction w generalizing n with
  | zero =>
    have : n = 0 := by simpa using h
    simp [beEncode, beDecode, this]
  | succ w ih =>
    have hdiv : n / 256 < 256 ^ w := by
      rw [Nat.div_lt_iff_lt_mul (by decide)]; simpa [pow_succ] using h
    rw [beEncode, beDecode_append_singleton, ih hdiv]
    simp only [UInt8.toNat_ofNat', Nat.reducePow]
    omega

theorem beDecode_lt (bs : Bytes) : beDecode bs < 256 ^ bs.length := by
  induction bs using List.reverseRecOn with
  | nil => simp [beDecode]
  | append_singleton bs b ih =>
    have hb := b.toNat_lt
    rw [beDecode_append_singleton, List.length_append, List.length_singleton, pow_succ]
    omega

theorem beEncode_beDecode (bs : Bytes) : beEncode bs.length (beDecode bs) = bs := by
  induction bs using List.reverseRecOn with
  | nil => rfl
  | append_singleton bs b ih =>
    have hb := b.toNat_lt
    have hdiv : (beDecode bs * 256 + b.toNat) / 256 = beDecode bs := by omega
    rw [List.length_append, List.length_singleton, beDecode_append_singleton, beEncode, hdiv, ih]
    congr 2
    refine UInt8.toNat_inj.mp ?_
    rw [UInt8.toNat_ofNat']
    omega

/-! ## Writing -/

/-- A length of `w` bytes, then the bytes. -/
def lengthPrefixed (w : Nat) (bs : Bytes) : Bytes := beEncode w bs.length ++ bs

@[simp] theorem length_lengthPrefixed (w : Nat) (bs : Bytes) :
    (lengthPrefixed w bs).length = w + bs.length := by simp [lengthPrefixed]

/-- `struct.pack` of one unsigned number of `w` bytes: it raises when the number does not fit. -/
def pack (w n : Nat) : Except String Bytes :=
  if n < 256 ^ w then .ok (beEncode w n) else .error "argument out of range"

theorem pack_eq_ok_iff {w n : Nat} {bs : Bytes} :
    pack w n = .ok bs ↔ n < 256 ^ w ∧ beEncode w n = bs := by
  unfold pack
  split
  · next h => simp [h]
  · next h => simp [h]

/-- A field of known width at a known position of a byte string. -/
theorem take_drop_field {a b rest : Bytes} {i w : Nat} (ha : a.length = i) (hb : b.length = w) :
    ((a ++ (b ++ rest)).drop i).take w = b := by
  rw [List.drop_left' ha, List.take_left' hb]

/-! ## Reading -/

/-- `rest` is what remains of `data` at `offset`. -/
def At (data : Bytes) (offset : Nat) (rest : Bytes) : Prop :=
  ∃ front, data = front ++ rest ∧ front.length = offset

theorem at_zero (data : Bytes) : At data 0 data := ⟨[], rfl, rfl⟩

theorem At.drop {data rest : Bytes} {offset : Nat} (h : At data offset rest) :
    data.drop offset = rest := by
  obtain ⟨front, rfl, rfl⟩ := h; simp

theorem At.length {data rest : Bytes} {offset : Nat} (h : At data offset rest) :
    offset + rest.length = data.length := by
  obtain ⟨front, rfl, rfl⟩ := h; simp

/-- Everything has been read exactly when the cursor stands at the end. -/
theorem At.eq_nil_iff {data rest : Bytes} {offset : Nat} (h : At data offset rest) :
    offset = data.length ↔ rest = [] := by
  have := h.length
  rw [← List.length_eq_zero_iff]; omega

/-- The field at a cursor. -/
theorem field_of_at {data x rest : Bytes} {offset n : Nat} (h : At data offset (x ++ rest))
    (hn : x.length = n) : (data.drop offset).take n = x ∧ At data (offset + n) rest := by
  rw [h.drop, ← hn, List.take_left]
  obtain ⟨front, rfl, rfl⟩ := h
  exact ⟨rfl, front ++ x, by simp, by simp⟩

/-- `read_exact`. -/
def readExact (data : Bytes) (offset n : Nat) : Except String (Bytes × Nat) :=
  if data.length < offset + n then
    .error s!"truncated data: need {n} bytes at offset {offset}, have {data.length - offset}"
  else .ok ((data.drop offset).take n, offset + n)

theorem readExact_of_at {data x rest : Bytes} {offset n : Nat} (h : At data offset (x ++ rest))
    (hn : x.length = n) :
    readExact data offset n = .ok (x, offset + n) ∧ At data (offset + n) rest := by
  have hlen := h.length
  rw [List.length_append] at hlen
  constructor
  · rw [readExact, if_neg (by omega), h.drop, ← hn, List.take_left]
  · obtain ⟨front, rfl, rfl⟩ := h
    exact ⟨front ++ x, by simp, by simp [hn]⟩

theorem at_of_readExact {data rest x : Bytes} {offset n offset' : Nat} (h : At data offset rest)
    (hr : readExact data offset n = .ok (x, offset')) :
    x.length = n ∧ ∃ rest', rest = x ++ rest' ∧ At data offset' rest' := by
  have hlen := h.length
  unfold readExact at hr
  split at hr
  · contradiction
  · next hle =>
    rw [h.drop] at hr
    simp only [Except.ok.injEq, Prod.mk.injEq] at hr
    obtain ⟨rfl, rfl⟩ := hr
    obtain ⟨front, rfl, rfl⟩ := h
    have hn : n ≤ rest.length := by omega
    refine ⟨by simp [hn], rest.drop n, (List.take_append_drop n rest).symm,
      front ++ rest.take n, ?_, ?_⟩
    · rw [List.append_assoc, List.take_append_drop]
    · simp [hn]

/-- `read_uint8`, `read_uint16`, `read_uint32`: one big-endian number of `w` bytes. -/
def readUint (w : Nat) (data : Bytes) (offset : Nat) : Except String (Nat × Nat) := do
  let (raw, offset) ← readExact data offset w
  return (beDecode raw, offset)

theorem readUint_of_at {data rest : Bytes} {offset w n : Nat}
    (h : At data offset (beEncode w n ++ rest)) (hn : n < 256 ^ w) :
    readUint w data offset = .ok (n, offset + w) ∧ At data (offset + w) rest := by
  obtain ⟨hr, ha⟩ := readExact_of_at h (length_beEncode w n)
  refine ⟨?_, ha⟩
  rw [readUint, hr, Except.ok_bind]
  simp only [beDecode_beEncode hn]
  rfl

theorem at_of_readUint {data rest : Bytes} {offset w n offset' : Nat} (h : At data offset rest)
    (hr : readUint w data offset = .ok (n, offset')) :
    n < 256 ^ w ∧ ∃ rest', rest = beEncode w n ++ rest' ∧ At data offset' rest' := by
  unfold readUint at hr
  obtain ⟨⟨x, o⟩, hx, hr⟩ := Except.ok_of_bind hr
  cases hr
  obtain ⟨hlen, rest', rfl, ha⟩ := at_of_readExact h hx
  refine ⟨hlen ▸ beDecode_lt x, rest', ?_, ha⟩
  rw [← hlen, beEncode_beDecode]

/-- `read_length_prefixed_u16`, `read_length_prefixed_u32`: a length of `w` bytes, then that many
bytes. -/
def readLengthPrefixed (w : Nat) (data : Bytes) (offset : Nat) : Except String (Bytes × Nat) := do
  let (length, offset) ← readUint w data offset
  readExact data offset length

theorem readLengthPrefixed_of_at {data x rest : Bytes} {offset w : Nat}
    (h : At data offset (lengthPrefixed w x ++ rest)) (hx : x.length < 256 ^ w) :
    readLengthPrefixed w data offset = .ok (x, offset + (lengthPrefixed w x).length) ∧
      At data (offset + (lengthPrefixed w x).length) rest := by
  rw [lengthPrefixed, List.append_assoc] at h
  obtain ⟨hr, ha⟩ := readUint_of_at h hx
  obtain ⟨hr', ha'⟩ := readExact_of_at ha rfl
  rw [length_lengthPrefixed, ← Nat.add_assoc]
  refine ⟨?_, ha'⟩
  rw [readLengthPrefixed, hr]
  exact hr'

theorem at_of_readLengthPrefixed {data rest x : Bytes} {offset w offset' : Nat}
    (h : At data offset rest) (hr : readLengthPrefixed w data offset = .ok (x, offset')) :
    x.length < 256 ^ w ∧
      ∃ rest', rest = lengthPrefixed w x ++ rest' ∧ At data offset' rest' := by
  unfold readLengthPrefixed at hr
  obtain ⟨⟨n, o⟩, hl, hr⟩ := Except.ok_of_bind hr
  obtain ⟨hn, rest₁, rfl, ha⟩ := at_of_readUint h hl
  obtain ⟨hx, rest', rfl, ha'⟩ := at_of_readExact ha hr
  exact ⟨hx ▸ hn, rest', by rw [lengthPrefixed, hx, List.append_assoc], ha'⟩

/-! ## Text -/

/-- `s.encode()`. -/
def encodeText (s : String) : Bytes := s.toByteArray.data.toList

/-- `data.decode()`, `none` on bytes that are not UTF-8. -/
def decodeText? (bs : Bytes) : Option String := String.fromUTF8? ⟨bs.toArray⟩

@[simp] theorem decodeText?_encodeText (s : String) : decodeText? (encodeText s) = some s := by
  have h : (⟨(encodeText s).toArray⟩ : ByteArray) = s.toByteArray := by
    simp [encodeText]
  rw [decodeText?, h, String.fromUTF8?, dif_pos s.isValidUTF8]
  rfl

theorem encodeText_of_decodeText? {bs : Bytes} {s : String} (h : decodeText? bs = some s) :
    encodeText s = bs := by
  unfold decodeText? String.fromUTF8? at h
  split at h
  · cases h; simp [encodeText, String.fromUTF8]
  · contradiction

theorem encodeText_injective : Function.Injective encodeText := fun a b h =>
  Option.some.inj ((decodeText?_encodeText a).symm.trans (h ▸ decodeText?_encodeText b))

theorem encodeText_append (s t : String) : encodeText (s ++ t) = encodeText s ++ encodeText t := by
  simp [encodeText, String.toByteArray_append]

/-- A character takes at most four bytes. -/
theorem length_encodeText_le (s : String) : (encodeText s).length ≤ 4 * s.toList.length := by
  have h : ∀ cs : List Char, cs.utf8Encode.size ≤ 4 * cs.length := by
    intro cs
    induction cs with
    | nil => simp
    | cons c cs ih =>
      have hc := Char.utf8Size_le_four c
      rw [List.utf8Encode_cons, ByteArray.size_append, List.utf8Encode_singleton,
        List.size_toByteArray, String.length_utf8EncodeChar, List.length_cons]
      omega
  have hs := h s.toList
  rw [String.utf8Encode_toList] at hs
  simpa [encodeText] using hs

theorem encodeText_nuls (n : Nat) :
    encodeText (String.ofList (List.replicate n '\x00')) = List.replicate n 0 := by
  induction n with
  | zero => rfl
  | succ n ih =>
    rw [List.replicate_succ, ← List.singleton_append, String.ofList_append, encodeText_append, ih]
    rfl

end Bytes
