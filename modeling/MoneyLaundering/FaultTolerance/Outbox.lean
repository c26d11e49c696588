import MoneyLaundering.Lib.Bytes
import MoneyLaundering.Lib.Dict

/-!
# Pending outputs

The entries a worker still has to publish (`outbox/outbox_entry.py`), their binary form, and the
outbox that keeps them until their input is committed (`outbox/outbox.py`).

The binary form is length-prefixed throughout, so reading an entry back at any cursor returns it and
leaves the cursor behind it (`OutboxEntry.deserialize_of_at`).
-/

namespace MoneyLaundering

open Bytes

/-- `MAX_UINT16`. -/
def maxUint16 : Nat := 2 ^ 16 - 1

/-- `MAX_UINT32`. -/
def maxUint32 : Nat := 2 ^ 32 - 1

theorem lt_of_le_maxUint16 {n : Nat} (h : n ≤ maxUint16) : n < 256 ^ 2 := by
  simp only [maxUint16] at h; omega

theorem lt_of_le_maxUint32 {n : Nat} (h : n ≤ maxUint32) : n < 256 ^ 4 := by
  simp only [maxUint32] at h; omega

/-- `OutboxEntry`. -/
structure OutboxEntry where
  outputId : String
  inputId : String
  destination : String
  body : Bytes
  shard : Option Nat := none
  deriving DecidableEq, Repr

namespace OutboxEntry

/-- `_encode_shard`: `0` means no explicit shard. -/
def encodeShard : Option Nat → Nat
  | none => 0
  | some shard => shard + 1

/-- `_decode_shard`. -/
def decodeShard : Nat → Option Nat
  | 0 => none
  | n + 1 => some n

@[simp] theorem decodeShard_encodeShard (shard : Option Nat) :
    decodeShard (encodeShard shard) = shard := by cases shard <;> rfl

def serialize (e : OutboxEntry) : Except String Bytes := do
  Except.raiseIf (maxUint16 < (encodeText e.outputId).length) "output_id too long"
  Except.raiseIf (maxUint16 < (encodeText e.inputId).length) "input_id too long"
  Except.raiseIf (maxUint16 < (encodeText e.destination).length) "destination too long"
  Except.raiseIf (maxUint32 < e.body.length) "body too long"
  let shard ← pack 4 (encodeShard e.shard)
  return lengthPrefixed 2 (encodeText e.outputId) ++ lengthPrefixed 2 (encodeText e.inputId) ++
    lengthPrefixed 2 (encodeText e.destination) ++ lengthPrefixed 4 e.body ++ shard

/-- `bytes.decode()`, which raises on bytes that are not UTF-8. -/
def decode (bs : Bytes) : Except String String :=
  match decodeText? bs with
  | some s => .ok s
  | none => .error "invalid utf-8"

@[simp] theorem decode_encodeText (s : String) : decode (encodeText s) = .ok s := by
  simp [decode]

def deserialize (data : Bytes) (offset : Nat) : Except String (OutboxEntry × Nat) := do
  let (outputId, offset) ← readLengthPrefixed 2 data offset
  let (inputId, offset) ← readLengthPrefixed 2 data offset
  let (destination, offset) ← readLengthPrefixed 2 data offset
  let (body, offset) ← readLengthPrefixed 4 data offset
  let (shard, offset) ← readUint 4 data offset
  return ({ outputId := ← decode outputId
            inputId := ← decode inputId
            destination := ← decode destination
            body
            shard := decodeShard shard }, offset)

/-- What a successful serialization has checked, and the bytes it gives. -/
theorem serialize_eq_ok {e : OutboxEntry} {bs : Bytes} (h : e.serialize = .ok bs) :
    (encodeText e.outputId).length ≤ maxUint16 ∧ (encodeText e.inputId).length ≤ maxUint16 ∧
    (encodeText e.destination).length ≤ maxUint16 ∧ e.body.length ≤ maxUint32 ∧
    encodeShard e.shard < 256 ^ 4 ∧
    bs = lengthPrefixed 2 (encodeText e.outputId) ++ lengthPrefixed 2 (encodeText e.inputId) ++
      lengthPrefixed 2 (encodeText e.destination) ++ lengthPrefixed 4 e.body ++
      beEncode 4 (encodeShard e.shard) := by
  unfold serialize at h
  obtain ⟨h₁, h⟩ := Except.ok_of_raiseIf h
  obtain ⟨h₂, h⟩ := Except.ok_of_raiseIf h
  obtain ⟨h₃, h⟩ := Except.ok_of_raiseIf h
  obtain ⟨h₄, h⟩ := Except.ok_of_raiseIf h
  obtain ⟨shard, hs, h⟩ := Except.ok_of_bind h
  obtain ⟨hlt, rfl⟩ := pack_eq_ok_iff.mp hs
  exact ⟨by omega, by omega, by omega, by omega, hlt, (Except.ok.inj h).symm⟩

/-- Reading a serialized entry at a cursor gives the entry and moves the cursor behind it. -/
theorem deserialize_of_at {e : OutboxEntry} {data bs rest : Bytes} {offset : Nat}
    (hs : e.serialize = .ok bs) (h : At data offset (bs ++ rest)) :
    deserialize data offset = .ok (e, offset + bs.length) ∧ At data (offset + bs.length) rest := by
  obtain ⟨h₁, h₂, h₃, h₄, h₅, rfl⟩ := serialize_eq_ok hs
  simp only [List.append_assoc] at h
  obtain ⟨r₁, h⟩ := readLengthPrefixed_of_at h (lt_of_le_maxUint16 h₁)
  obtain ⟨r₂, h⟩ := readLengthPrefixed_of_at h (lt_of_le_maxUint16 h₂)
  obtain ⟨r₃, h⟩ := readLengthPrefixed_of_at h (lt_of_le_maxUint16 h₃)
  obtain ⟨r₄, h⟩ := readLengthPrefixed_of_at h (lt_of_le_maxUint32 h₄)
  obtain ⟨r₅, h⟩ := readUint_of_at h h₅
  simp only [deserialize, r₁, r₂, r₃, r₄, r₅, Except.ok_bind, decode_encodeText,
    decodeShard_encodeShard]
  simp only [List.length_append, length_beEncode, ← Nat.add_assoc] at h ⊢
  exact ⟨rfl, h⟩

/-- `b"".join(e.serialize() for e in outputs)`. -/
def serializeAll : List OutboxEntry → Except String Bytes
  | [] => .ok []
  | e :: es => do
    let bs ← e.serialize
    let rest ← serializeAll es
    return bs ++ rest

/-- The loop that reads `count` entries. -/
def deserializeAll (data : Bytes) : Nat → Nat → Except String (List OutboxEntry × Nat)
  | 0, offset => .ok ([], offset)
  | count + 1, offset => do
    let (e, offset) ← deserialize data offset
    let (es, offset) ← deserializeAll data count offset
    return (e :: es, offset)

theorem deserializeAll_of_at {es : List OutboxEntry} {data bs rest : Bytes} {offset : Nat}
    (hs : serializeAll es = .ok bs) (h : At data offset (bs ++ rest)) :
    deserializeAll data es.length offset = .ok (es, offset + bs.length) ∧
      At data (offset + bs.length) rest := by
  induction es generalizing bs offset with
  | nil =>
    cases hs
    exact ⟨rfl, h⟩
  | cons e es ih =>
    obtain ⟨b₁, h₁, hs⟩ := Except.ok_of_bind hs
    obtain ⟨b₂, h₂, hs⟩ := Except.ok_of_bind hs
    cases hs
    rw [List.append_assoc] at h
    obtain ⟨r₁, h⟩ := deserialize_of_at h₁ h
    obtain ⟨r₂, h⟩ := ih h₂ h
    rw [List.length_append, ← Nat.add_assoc]
    exact ⟨by simp [deserializeAll, r₁, r₂, Except.ok_bind, pure, Except.pure], h⟩

end OutboxEntry

/-! ## The outbox -/

/-- `Outbox`: client, then input, then the outputs of that input. -/
structure Outbox where
  pending : Dict Nat (Dict String (List OutboxEntry)) := ∅
  deriving DecidableEq

namespace Outbox

def add (o : Outbox) (clientId : Nat) (inputId : String) (entries : List OutboxEntry) : Outbox where
  pending := o.pending.set clientId ((o.pending.getD clientId ∅).set inputId entries)

def entriesForInput (o : Outbox) (clientId : Nat) (inputId : String) : List OutboxEntry :=
  (o.pending.getD clientId ∅).getD inputId []

def removeInput (o : Outbox) (clientId : Nat) (inputId : String) : Outbox :=
  match o.pending.get? clientId with
  | none => o
  | some inputs =>
    if inputs.erase inputId = ∅ then { pending := o.pending.erase clientId }
    else { pending := o.pending.set clientId (inputs.erase inputId) }

def allPending (o : Outbox) : List OutboxEntry :=
  o.pending.entries.flatMap fun inputs => inputs.2.entries.flatMap Prod.snd

/-- The persisted form of an entry. -/
structure EntryDump where
  outputId : String
  inputId : String
  destination : String
  body : Bytes
  shard : Option Nat
  deriving DecidableEq

/-- The persisted form of an outbox. -/
abbrev Dump := Dict Nat (Dict String (List EntryDump))

def entryToDict (e : OutboxEntry) : EntryDump :=
  ⟨e.outputId, e.inputId, e.destination, e.body, e.shard⟩

def entryFromDict (d : EntryDump) : OutboxEntry :=
  ⟨d.outputId, d.inputId, d.destination, d.body, d.shard⟩

def toDict (o : Outbox) : Dump := o.pending.mapVals fun inputs => inputs.mapVals (·.map entryToDict)

def fromDict (data : Dump) : Outbox where
  pending := data.mapVals fun inputs => inputs.mapVals (·.map entryFromDict)

/-- Persisting and restoring an outbox gives it back. -/
@[simp] theorem fromDict_toDict (o : Outbox) : fromDict o.toDict = o := by
  have he : ∀ es : List OutboxEntry, (es.map entryToDict).map entryFromDict = es := fun es => by
    rw [List.map_map]; exact List.map_id es
  simp only [fromDict, toDict, Dict.mapVals_mapVals, Function.comp_def, he, Dict.mapVals_id]

/-- The outputs recorded for one input, `none` when it has no entry. -/
def lookup (o : Outbox) (clientId : Nat) (inputId : String) : Option (List OutboxEntry) :=
  (o.pending.getD clientId ∅).get? inputId

/-- No client has an empty dictionary of inputs. -/
def WF (o : Outbox) : Prop := ∀ c inputs, o.pending.get? c = some inputs → inputs ≠ ∅

section laws
variable {o : Outbox} {c c' : Nat} {m m' : String} {es : List OutboxEntry}

theorem entriesForInput_eq : o.entriesForInput c m = (o.lookup c m).getD [] := rfl

theorem lookup_add : (o.add c m es).lookup c' m' =
    if c = c' ∧ m = m' then some es else o.lookup c' m' := by
  unfold lookup add
  rw [Dict.getD_set]
  by_cases hc : c = c'
  · subst hc
    simp only [if_true, true_and, Dict.get?_set]
  · simp [hc]

theorem lookup_removeInput : (o.removeInput c m).lookup c' m' =
    if c = c' ∧ m = m' then none else o.lookup c' m' := by
  unfold lookup removeInput
  by_cases hc : c = c'
  · subst hc
    cases h : o.pending.get? c with
    | none => simp [Dict.getD, h]
    | some inputs =>
      have hi : (inputs.erase m).get? m' = if m = m' then none else inputs.get? m' := by
        rw [Dict.get?_erase]; simp only [eq_comm]
      simp only
      split
      · next he =>
        rw [he, Dict.get?_empty] at hi
        simp only [Dict.getD, Dict.get?_erase, if_true, Option.getD_none, Dict.get?_empty, true_and,
          h, Option.getD_some]
        exact hi
      · simp only [Dict.getD, Dict.get?_set, if_true, Option.getD_some, true_and, h, hi]
  · rw [if_neg fun h => hc h.1]
    split
    · rfl
    · split
      · simp [Dict.getD, Dict.get?_erase, Ne.symm hc]
      · simp [Dict.getD, Dict.get?_set, hc]

theorem wf_default : WF {} := by simp [WF]

theorem WF.add (h : o.WF) (c : Nat) (m : String) (es : List OutboxEntry) : (o.add c m es).WF := by
  intro c' inputs hc
  rw [Outbox.add, Dict.get?_set] at hc
  split at hc
  · cases hc; exact Dict.set_ne_empty _ _ _
  · exact h c' inputs hc

theorem WF.removeInput (h : o.WF) (c : Nat) (m : String) : (o.removeInput c m).WF := by
  intro c' inputs hc
  unfold Outbox.removeInput at hc
  split at hc
  · exact h c' inputs hc
  · split at hc
    · rw [Dict.get?_erase] at hc
      split at hc
      · cases hc
      · exact h c' inputs hc
    · next hne =>
      rw [Dict.get?_set] at hc
      split at hc
      · cases hc; exact hne
      · exact h c' inputs hc

/-- Removing an input without an entry changes nothing. -/
theorem removeInput_of_lookup (h : o.WF) (hl : o.lookup c m = none) : o.removeInput c m = o := by
  unfold removeInput
  cases hc : o.pending.get? c with
  | none => rfl
  | some inputs =>
    have hi : inputs.get? m = none := by simpa [lookup, Dict.getD, hc] using hl
    simp only [Dict.erase_of_get?_none hi, h c inputs hc, if_false, Dict.set_of_get? hc]

/-- The pending entries are the entries of the inputs that have one. -/
theorem mem_allPending {e : OutboxEntry} :
    e ∈ o.allPending ↔ ∃ c m es, o.lookup c m = some es ∧ e ∈ es := by
  simp only [allPending, List.mem_flatMap, Prod.exists]
  constructor
  · rintro ⟨c, inputs, hc, m, es, hm, he⟩
    refine ⟨c, m, es, ?_, he⟩
    rw [lookup, Dict.getD, Dict.mem_entries_iff.mp hc, Option.getD_some, Dict.mem_entries_iff.mp hm]
  · rintro ⟨c, m, es, hl, he⟩
    unfold lookup Dict.getD at hl
    cases hc : o.pending.get? c with
    | none => simp [hc] at hl
    | some inputs =>
      exact ⟨c, inputs, Dict.mem_entries_iff.mpr hc, m, es,
        Dict.mem_entries_iff.mpr (by simpa [hc] using hl), he⟩

end laws

end Outbox

end MoneyLaundering
