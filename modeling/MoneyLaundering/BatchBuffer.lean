import MoneyLaundering.Lib.Bytes
import MoneyLaundering.Lib.Dict

/-!
# Output batches

`BatchBuffer` (`common/batch_buffer.py`) coalesces serialized payloads under a key until a limit is
reached. A durable worker first plans what an append or a drain would flush, stamps that, and later
performs the same append or drops the drained buffers. `planAppend_applyAppend` and
`planDrain_content` say that nothing is lost between the two: what is flushed followed by what stays
is what was there followed by what was appended.

A caller without a log appends payload by payload and flushes. `planned_path` says that the two ways
agree, whatever the calls before and in between.
-/

namespace MoneyLaundering

/-- The limits a buffer is flushed at. -/
structure BatchLimits where
  maxBytes : Nat
  maxItems : Nat
  deriving DecidableEq, Repr

/-- `BatchBuffer`. -/
structure BatchBuffer (κ : Type) where
  buffers : Dict κ (List Bytes) := ∅
  bytesByKey : Dict κ Nat := ∅

namespace BatchBuffer

/-- `_simulate_append`: the flushed batches, the remaining buffer and its size in bytes. -/
def simulateAppend (limits : BatchLimits) :
    List Bytes → Nat → List Bytes → List Bytes × List Bytes × Nat
  | cur, curBytes, [] => ([], cur, curBytes)
  | cur, curBytes, payload :: payloads =>
    if limits.maxItems ≤ cur.length + 1 ∨ limits.maxBytes ≤ curBytes + payload.length then
      let (flushed, rem) := simulateAppend limits [] 0 payloads
      ((cur ++ [payload]).flatten :: flushed, rem)
    else simulateAppend limits (cur ++ [payload]) (curBytes + payload.length) payloads

variable {κ : Type} [DecidableEq κ] (limits : BatchLimits)

def planAppend (b : BatchBuffer κ) (key : κ) (payloads : List Bytes) : List Bytes :=
  (simulateAppend limits (b.buffers.getD key []) (b.bytesByKey.getD key 0) payloads).1

def applyAppend (b : BatchBuffer κ) (key : κ) (payloads : List Bytes) : BatchBuffer κ :=
  let (rem, remBytes) :=
    (simulateAppend limits (b.buffers.getD key []) (b.bytesByKey.getD key 0) payloads).2
  if rem ≠ [] then
    { buffers := b.buffers.set key rem, bytesByKey := b.bytesByKey.set key remBytes }
  else { buffers := b.buffers.erase key, bytesByKey := b.bytesByKey.erase key }

omit [DecidableEq κ] in
def planDrain (b : BatchBuffer κ) (predicate : κ → Bool) : List (κ × Bytes) :=
  (b.buffers.entries.filter fun e => predicate e.1 && !e.2.isEmpty).map fun e => (e.1, e.2.flatten)

def discard (b : BatchBuffer κ) (predicate : κ → Bool) : BatchBuffer κ where
  buffers := b.buffers.filter fun k => !predicate k
  bytesByKey := b.bytesByKey.filter fun k => !(b.buffers.contains k && predicate k)

/-- `_flush_key_locked`. -/
def flushKey (b : BatchBuffer κ) (key : κ) : Option Bytes × BatchBuffer κ :=
  (match b.buffers.getD key [] with
    | [] => none
    | buf => some buf.flatten,
   { buffers := b.buffers.erase key, bytesByKey := b.bytesByKey.erase key })

def append (b : BatchBuffer κ) (key : κ) (payload : Bytes) : Option Bytes × BatchBuffer κ :=
  let buf := b.buffers.getD key [] ++ [payload]
  let newBytes := b.bytesByKey.getD key 0 + payload.length
  let b' : BatchBuffer κ :=
    { buffers := b.buffers.set key buf, bytesByKey := b.bytesByKey.set key newBytes }
  if limits.maxItems ≤ buf.length ∨ limits.maxBytes ≤ newBytes then b'.flushKey key else (none, b')

/-- The payloads are appended one by one. -/
def appendEach (b : BatchBuffer κ) (key : κ) : List Bytes → List Bytes × BatchBuffer κ
  | [] => ([], b)
  | payload :: payloads =>
    let (batch, b') := b.append limits key payload
    let (batches, b'') := b'.appendEach key payloads
    (batch.toList ++ batches, b'')

/-- The loop of `flush` over the keys it has listed. -/
def flushKeys (b : BatchBuffer κ) : List κ → List (κ × Bytes) × BatchBuffer κ
  | [] => ([], b)
  | key :: keys =>
    let (payload, b') := b.flushKey key
    let (out, b'') := b'.flushKeys keys
    (payload.toList.map (key, ·) ++ out, b'')

def flush (b : BatchBuffer κ) (predicate : κ → Bool) : List (κ × Bytes) × BatchBuffer κ :=
  b.flushKeys ((b.buffers.entries.map Prod.fst).filter predicate)

/-- The bytes buffered under a key. -/
def content (b : BatchBuffer κ) (key : κ) : Bytes := (b.buffers.getD key []).flatten

@[simp] theorem content_empty (key : κ) : ({} : BatchBuffer κ).content key = [] := rfl

/-- A simulated append keeps every byte, in order. -/
theorem simulateAppend_flatten (cur : List Bytes) (curBytes : Nat) (payloads : List Bytes) :
    (simulateAppend limits cur curBytes payloads).1.flatten ++
      (simulateAppend limits cur curBytes payloads).2.1.flatten =
    cur.flatten ++ payloads.flatten := by
  induction payloads generalizing cur curBytes with
  | nil => simp [simulateAppend]
  | cons payload payloads ih =>
    rw [simulateAppend]
    split
    · have h := ih [] 0
      simp only [List.flatten_nil, List.nil_append] at h
      simp [List.append_assoc, h]
    · rw [ih]
      simp

theorem content_applyAppend (b : BatchBuffer κ) (key key' : κ) (payloads : List Bytes) :
    (b.applyAppend limits key payloads).content key' =
      if key = key' then
        (simulateAppend limits (b.buffers.getD key []) (b.bytesByKey.getD key 0)
          payloads).2.1.flatten
      else b.content key' := by
  unfold applyAppend
  split
  next rem remBytes hrem =>
  rw [hrem]
  by_cases hk : key = key'
  · subst hk
    split
    · simp [content, Dict.getD_set]
    · next hnil => simp_all [content, Dict.getD_erase]
  · split
    · simp [content, Dict.getD_set, hk]
    · simp [content, Dict.getD_erase, Ne.symm hk]

/-- An append flushes what was planned and keeps the rest. -/
theorem planAppend_applyAppend (b : BatchBuffer κ) (key : κ) (payloads : List Bytes) :
    (b.planAppend limits key payloads).flatten ++ (b.applyAppend limits key payloads).content key =
      b.content key ++ payloads.flatten := by
  rw [content_applyAppend, if_pos rfl]
  exact simulateAppend_flatten limits _ _ _

theorem content_applyAppend_of_ne (b : BatchBuffer κ) {key key' : κ} (h : key ≠ key')
    (payloads : List Bytes) :
    (b.applyAppend limits key payloads).content key' = b.content key' := by
  rw [content_applyAppend, if_neg h]

/-- An append touches one key. -/
theorem applyAppend_of_ne (b : BatchBuffer κ) {key key' : κ} (h : key ≠ key')
    (payloads : List Bytes) :
    (b.applyAppend limits key payloads).buffers.getD key' [] = b.buffers.getD key' [] ∧
      (b.applyAppend limits key payloads).bytesByKey.getD key' 0 = b.bytesByKey.getD key' 0 := by
  unfold applyAppend
  split
  split <;> simp [Dict.getD_set, Dict.getD_erase, h, Ne.symm h]

/-- Appending nothing flushes nothing. -/
@[simp] theorem planAppend_nil (b : BatchBuffer κ) (key : κ) : b.planAppend limits key [] = [] :=
  rfl

theorem content_discard (b : BatchBuffer κ) (predicate : κ → Bool) (key : κ) :
    (b.discard predicate).content key = if predicate key then [] else b.content key := by
  unfold content discard
  rw [Dict.getD, Dict.get?_filter]
  by_cases h : predicate key <;> simp [h, Dict.getD]

omit [DecidableEq κ] in
/-- A drain emits at most one batch for each key. -/
theorem nodup_planDrain (b : BatchBuffer κ) (predicate : κ → Bool) :
    ((b.planDrain predicate).map Prod.fst).Nodup := by
  have h : (b.planDrain predicate).map Prod.fst =
      (b.buffers.entries.filter fun e => predicate e.1 && !e.2.isEmpty).map Prod.fst := by
    simp [planDrain, Function.comp_def]
  rw [h]
  exact b.buffers.nodup.sublist (List.filter_sublist.map _)

/-- A drain emits the content of every key it is asked for. -/
theorem planDrain_content (b : BatchBuffer κ) {p : κ → Bool} {key : κ}
    (h : p key = true) :
    (((b.planDrain p).filter fun e => decide (e.1 = key)).map Prod.snd).flatten =
      b.content key := by
  unfold planDrain content Dict.getD Dict.get?
  obtain ⟨⟨entries, hn⟩, bytes⟩ := b
  simp only
  clear bytes
  induction entries with
  | nil => simp [Dict.find]
  | cons e entries ih =>
    obtain ⟨k, buf⟩ := e
    simp only [List.map_cons, List.nodup_cons] at hn
    have hrest := ih hn.2
    by_cases hk : k = key
    · subst hk
      have hnone : Dict.find k entries = none := Dict.find_eq_none_iff.mpr hn.1
      rw [hnone] at hrest
      simp only [Option.getD_none, List.flatten_nil] at hrest
      cases buf with
      | nil => simpa [Dict.find] using hrest
      | cons payload payloads => simpa [Dict.find, h] using hrest
    · rw [Dict.find, if_neg hk, ← hrest]
      by_cases hp : (p k && !buf.isEmpty) = true <;> simp [hp, hk]

/-! ## The plain path -/

theorem flushKey_batch_of_ne (b : BatchBuffer κ) {key key' : κ} (h : key' ≠ key) :
    ((b.flushKey key).2.flushKey key').1 = (b.flushKey key').1 := by
  simp [flushKey, Dict.getD_erase, h]

/-- The loop of `flush` pops the keys it has listed. -/
theorem flushKeys_eq (b : BatchBuffer κ) {keys : List κ} (hn : keys.Nodup) :
    b.flushKeys keys =
      (keys.flatMap fun key => (b.flushKey key).1.toList.map (key, ·),
        { buffers := b.buffers.filter (· ∉ keys),
          bytesByKey := b.bytesByKey.filter (· ∉ keys) }) := by
  induction keys generalizing b with
  | nil =>
    simp [flushKeys]
  | cons key keys ih =>
    rw [List.nodup_cons] at hn
    have hout :
        (keys.flatMap fun key' => ((b.flushKey key).2.flushKey key').1.toList.map (key', ·)) =
        keys.flatMap fun key' => (b.flushKey key').1.toList.map (key', ·) := by
      refine List.flatMap_congr fun key' hm => ?_
      have hne : key' ≠ key := fun h => hn.1 (h ▸ hm)
      rw [flushKey_batch_of_ne b hne]
    have hrest : ∀ {ν : Type} (d : Dict κ ν),
        (d.erase key).filter (· ∉ keys) = d.filter (· ∉ key :: keys) := by
      intro ν d
      rw [Dict.erase, Dict.filter_filter]
      refine Dict.filter_congr fun e _ => ?_
      simp only [List.mem_cons, not_or, Bool.decide_and]
    simp only [flushKeys, ih _ hn.2, hout, List.flatMap_cons]
    simp only [flushKey, hrest]

theorem flushKey_batch_of_mem (b : BatchBuffer κ) {e : κ × List Bytes}
    (he : e ∈ b.buffers.entries) :
    (b.flushKey e.1).1 = if e.2.isEmpty then none else some e.2.flatten := by
  rw [flushKey, Dict.getD, Dict.mem_entries_iff.mp he, Option.getD_some]
  cases e.2 <;> rfl

/-- The keys a flush lists, among those that are buffered. -/
theorem notMem_flushed_iff (b : BatchBuffer κ) (predicate : κ → Bool) (key : κ) :
    decide (key ∉ (b.buffers.entries.map Prod.fst).filter predicate) =
      !(b.buffers.contains key && predicate key) := by
  cases hk : b.buffers.contains key with
  | true => simp [List.mem_filter, Dict.contains_iff.mp hk]
  | false =>
    have hm : key ∉ b.buffers.entries.map Prod.fst := fun h => by
      rw [Dict.contains_iff.mpr h] at hk
      cases hk
    simp [List.mem_filter, hm]

/-- Dropping what a drain would emit is flushing it. -/
theorem flush_eq (b : BatchBuffer κ) (predicate : κ → Bool) :
    b.flush predicate = (b.planDrain predicate, b.discard predicate) := by
  have hbatches : ∀ es : List (κ × List Bytes), (∀ e ∈ es, e ∈ b.buffers.entries) →
      ((es.map Prod.fst).filter predicate).flatMap
        (fun key => (b.flushKey key).1.toList.map (key, ·)) =
      (es.filter fun e => predicate e.1 && !e.2.isEmpty).map fun e => (e.1, e.2.flatten) := by
    intro es hes
    induction es with
    | nil => rfl
    | cons e es ih =>
      have hrest := ih fun e' hm => hes e' (List.mem_cons_of_mem _ hm)
      have hhead := b.flushKey_batch_of_mem (hes e List.mem_cons_self)
      cases hp : predicate e.1 with
      | false => simpa [hp] using hrest
      | true => cases he : e.2.isEmpty <;> simp [hp, he, hhead, hrest]
  rw [flush, flushKeys_eq b (b.buffers.nodup.filter _), hbatches _ fun _ he => he, discard]
  simp only [notMem_flushed_iff, planDrain]
  rw [Dict.filter_congr (d := b.buffers) (q := fun k => !predicate k) fun k hk => by
    rw [hk, Bool.true_and]]

/-! ### Buffers between two calls -/

/-- A buffer that has not reached a limit. -/
def Below (buf : List Bytes) : Prop :=
  buf.length < limits.maxItems ∧ buf.flatten.length < limits.maxBytes

/-- What is kept of a buffer under its key: an empty one is dropped. -/
def stored (buf : List Bytes) : Option (List Bytes) := if buf = [] then none else some buf

/-- No empty buffer and none at a limit, and the byte counters of the buffered keys and no
others. -/
structure Kept (b : BatchBuffer κ) : Prop where
  below : ∀ {key buf}, b.buffers.get? key = some buf → buf ≠ [] ∧ Below limits buf
  bytes : ∀ key, b.bytesByKey.get? key = (b.buffers.get? key).map fun buf => buf.flatten.length

/-- The same buffers and counters under every key, in any order. -/
def Agree (b b' : BatchBuffer κ) : Prop :=
  (∀ key, b.buffers.get? key = b'.buffers.get? key) ∧
    ∀ key, b.bytesByKey.get? key = b'.bytesByKey.get? key

/-- `b'` has `buf` under `key` and what `b` has elsewhere. -/
structure Stores (b : BatchBuffer κ) (key : κ) (buf : List Bytes) (b' : BatchBuffer κ) : Prop where
  buffers : ∀ k, b'.buffers.get? k = if key = k then stored buf else b.buffers.get? k
  bytes : ∀ k, b'.bytesByKey.get? k =
    if key = k then (stored buf).map fun buf => buf.flatten.length else b.bytesByKey.get? k

section
variable {limits} {b b' b'' : BatchBuffer κ} {key : κ} {buf buf' : List Bytes}

theorem kept_empty : Kept limits ({} : BatchBuffer κ) where
  below h := by cases h
  bytes _ := rfl

/-- Counters are determined by the buffers. -/
theorem Kept.agree (h : Kept limits b) (h' : Kept limits b')
    (hb : ∀ key, b.buffers.get? key = b'.buffers.get? key) : Agree b b' :=
  ⟨hb, fun key => by rw [h.bytes, h'.bytes, hb]⟩

theorem Kept.getD_bytes (h : Kept limits b) (key : κ) :
    b.bytesByKey.getD key 0 = (b.buffers.getD key []).flatten.length := by
  rw [Dict.getD, Dict.getD, h.bytes]
  cases b.buffers.get? key <;> rfl

theorem Kept.below_getD (h : Kept limits b) (hb : b.buffers.getD key [] ≠ []) :
    Below limits (b.buffers.getD key []) := by
  rw [Dict.getD] at hb ⊢
  cases hk : b.buffers.get? key with
  | none => simp [hk] at hb
  | some buf => exact (h.below hk).2

theorem Kept.stored_getD (h : Kept limits b) (key : κ) :
    b.buffers.get? key = stored (b.buffers.getD key []) := by
  rw [Dict.getD, stored]
  cases hk : b.buffers.get? key with
  | none => rfl
  | some buf => rw [Option.getD_some, if_neg (h.below hk).1]

theorem Kept.stores_self (h : Kept limits b) (key : κ) :
    Stores b key (b.buffers.getD key []) b where
  buffers k := by
    split
    next hk => rw [← hk, h.stored_getD]
    · rfl
  bytes k := by
    split
    next hk => rw [← hk, h.bytes, h.stored_getD]
    · rfl

theorem Stores.trans (h : Stores b key buf b') (h' : Stores b' key buf' b'') :
    Stores b key buf' b'' where
  buffers k := by
    rw [h'.buffers, h.buffers]
    split <;> rfl
  bytes k := by
    rw [h'.bytes, h.bytes]
    split <;> rfl

theorem Stores.getD (h : Stores b key buf b') : b'.buffers.getD key [] = buf := by
  rw [Dict.getD, h.buffers, if_pos rfl, stored]
  split
  next hnil => exact hnil.symm
  · rfl

theorem Stores.kept (h : Stores b key buf b') (hk : Kept limits b)
    (hb : buf ≠ [] → Below limits buf) :
    Kept limits b' where
  below {k x} hx := by
    rw [h.buffers, stored] at hx
    split at hx
    · split at hx
      · cases hx
      next hne =>
        cases hx
        exact ⟨hne, hb hne⟩
    · exact hk.below hx
  bytes k := by
    rw [h.bytes, h.buffers, hk.bytes]
    split <;> rfl

theorem stores_set (hb : buf ≠ []) :
    Stores b key buf
      { buffers := b.buffers.set key buf,
        bytesByKey := b.bytesByKey.set key buf.flatten.length } where
  buffers k := by rw [Dict.get?_set, stored, if_neg hb]
  bytes k := by rw [Dict.get?_set, stored, if_neg hb, Option.map_some]

theorem stores_erase :
    Stores b key [] { buffers := b.buffers.erase key, bytesByKey := b.bytesByKey.erase key } where
  buffers k := by simp only [Dict.get?_erase, stored, if_pos, eq_comm]
  bytes k := by simp only [Dict.get?_erase, stored, if_pos, eq_comm, Option.map_none]

theorem Kept.discard (h : Kept limits b) (predicate : κ → Bool) :
    Kept limits (b.discard predicate) where
  below {key buf} hk := by
    rw [BatchBuffer.discard, Dict.get?_filter] at hk
    split at hk
    · exact h.below hk
    · cases hk
  bytes key := by
    simp only [BatchBuffer.discard, Dict.get?_filter, h.bytes, Dict.contains]
    cases b.buffers.get? key <;> simp [apply_ite]

end

/-! ### Appending -/

/-- A simulated append counts the bytes that remain, and leaves no buffer at a limit. -/
theorem simulateAppend_rem {cur : List Bytes} (hcur : cur ≠ [] → Below limits cur)
    (payloads : List Bytes) :
    (simulateAppend limits cur cur.flatten.length payloads).2.2 =
        (simulateAppend limits cur cur.flatten.length payloads).2.1.flatten.length ∧
      ((simulateAppend limits cur cur.flatten.length payloads).2.1 ≠ [] →
        Below limits (simulateAppend limits cur cur.flatten.length payloads).2.1) := by
  induction payloads generalizing cur with
  | nil => exact ⟨rfl, hcur⟩
  | cons payload payloads ih =>
    have hlen : cur.flatten.length + payload.length = (cur ++ [payload]).flatten.length := by simp
    rw [simulateAppend, hlen]
    split
    · exact ih (absurd rfl)
    next hlim =>
      refine ih fun _ => ⟨?_, ?_⟩ <;> simp at hlim ⊢ <;> omega

/-- Payloads can be appended one after the other. -/
theorem simulateAppend_cons (cur : List Bytes) (curBytes : Nat) (payload : Bytes)
    (payloads : List Bytes) :
    simulateAppend limits cur curBytes (payload :: payloads) =
      let (first, rem, remBytes) := simulateAppend limits cur curBytes [payload]
      let (flushed, rest) := simulateAppend limits rem remBytes payloads
      (first ++ flushed, rest) := by
  rw [simulateAppend, simulateAppend]
  split <;> simp [simulateAppend]

variable {limits} {b : BatchBuffer κ}

theorem Kept.simulateAppend_bytes (h : Kept limits b) (key : κ) (payloads : List Bytes) :
    let r := simulateAppend limits (b.buffers.getD key []) (b.bytesByKey.getD key 0) payloads
    r.2.2 = r.2.1.flatten.length := by
  rw [h.getD_bytes]
  exact (simulateAppend_rem limits h.below_getD payloads).1

/-- The buffer that a simulated append leaves is kept. -/
theorem Kept.simulated (h : Kept limits b) (key : κ) (payloads : List Bytes) {b' : BatchBuffer κ}
    (hs : Stores b key
      (simulateAppend limits (b.buffers.getD key []) (b.bytesByKey.getD key 0) payloads).2.1 b') :
    Kept limits b' := by
  rw [h.getD_bytes] at hs
  exact hs.kept h (simulateAppend_rem limits h.below_getD payloads).2

/-- One payload, appended: the batch and the buffer of a simulated append. -/
theorem Kept.append (h : Kept limits b) (key : κ) (payload : Bytes) :
    let r := simulateAppend limits (b.buffers.getD key []) (b.bytesByKey.getD key 0) [payload]
    (b.append limits key payload).1.toList = r.1 ∧
    Stores b key r.2.1 (b.append limits key payload).2 := by
  have hlen : b.bytesByKey.getD key 0 + payload.length =
      (b.buffers.getD key [] ++ [payload]).flatten.length := by simp [h.getD_bytes]
  have hset : Stores b key (b.buffers.getD key [] ++ [payload])
      { buffers := b.buffers.set key (b.buffers.getD key [] ++ [payload])
        bytesByKey := b.bytesByKey.set key (b.bytesByKey.getD key 0 + payload.length) } := by
    rw [hlen]
    exact stores_set (by simp)
  simp only [simulateAppend, BatchBuffer.append, List.length_append, List.length_singleton]
  split
  · refine ⟨?_, hset.trans stores_erase⟩
    rw [flushKey, hset.getD]
    simp
  · exact ⟨rfl, hset⟩

theorem Kept.appendEach (h : Kept limits b) (key : κ) (payloads : List Bytes) :
    let r := simulateAppend limits (b.buffers.getD key []) (b.bytesByKey.getD key 0) payloads
    (b.appendEach limits key payloads).1 = r.1 ∧
      Stores b key r.2.1 (b.appendEach limits key payloads).2 := by
  induction payloads generalizing b with
  | nil => exact ⟨rfl, h.stores_self key⟩
  | cons payload payloads ih =>
    obtain ⟨hbatch, hstores⟩ := h.append key payload
    have hkept := h.simulated key [payload] hstores
    obtain ⟨hbatches, hrest⟩ := ih hkept
    rw [hkept.getD_bytes, hstores.getD, ← h.simulateAppend_bytes key [payload]] at hbatches hrest
    rw [simulateAppend_cons]
    refine ⟨?_, hstores.trans hrest⟩
    simp only [BatchBuffer.appendEach]
    rw [hbatch, hbatches]

theorem Kept.applyAppend (h : Kept limits b) (key : κ) (payloads : List Bytes) :
    Stores b key
      (simulateAppend limits (b.buffers.getD key []) (b.bytesByKey.getD key 0) payloads).2.1
      (b.applyAppend limits key payloads) := by
  unfold BatchBuffer.applyAppend
  dsimp only
  rw [h.simulateAppend_bytes key payloads]
  split
  next hne => exact stores_set hne
  next hnil =>
    rw [not_not.mp hnil]
    exact stores_erase

/-! ### Both paths -/

/-- What a caller does with a buffer. -/
inductive Call (κ : Type) where
  | append (key : κ) (payloads : List Bytes)
  | drain (predicate : κ → Bool)
  | discard (predicate : κ → Bool)

variable (limits) in
/-- A caller that appends and flushes: what it publishes, and the buffer. -/
def plainCall (b : BatchBuffer κ) : Call κ → List (κ × Bytes) × BatchBuffer κ
  | .append key payloads =>
    let (batches, b') := b.appendEach limits key payloads
    (batches.map (key, ·), b')
  | .drain predicate => b.flush predicate
  | .discard predicate => ([], b.discard predicate)

variable (limits) in
/-- A caller that plans first. -/
def plannedCall (b : BatchBuffer κ) : Call κ → List (κ × Bytes) × BatchBuffer κ
  | .append key payloads =>
    ((b.planAppend limits key payloads).map (key, ·), b.applyAppend limits key payloads)
  | .drain predicate => (b.planDrain predicate, b.discard predicate)
  | .discard predicate => ([], b.discard predicate)

/-- The buffer after some calls. -/
def after (call : BatchBuffer κ → Call κ → List (κ × Bytes) × BatchBuffer κ)
    (calls : List (Call κ)) :
    BatchBuffer κ :=
  calls.foldl (fun b c => (call b c).2) {}

variable {b' : BatchBuffer κ}

theorem Agree.getD (h : Agree b b') (key : κ) :
    b.buffers.getD key [] = b'.buffers.getD key [] ∧
      b.bytesByKey.getD key 0 = b'.bytesByKey.getD key 0 := by
  simp only [Dict.getD, h.1 key, h.2 key, and_self]

/-- Appending under a key: the batches are those that were planned, and the buffers agree. -/
theorem Agree.append (h : Agree b b') (hk : Kept limits b) (hk' : Kept limits b') (key : κ)
    (payloads : List Bytes) :
    (b.appendEach limits key payloads).1 = b'.planAppend limits key payloads ∧
      Agree (b.appendEach limits key payloads).2 (b'.applyAppend limits key payloads) := by
  obtain ⟨hbatches, hplain⟩ := hk.appendEach key payloads
  have hplanned := hk'.applyAppend key payloads
  obtain ⟨hbuf, hbytes⟩ := h.getD key
  refine ⟨by rw [hbatches, hbuf, hbytes, planAppend], ?_⟩
  refine (hk.simulated key payloads hplain).agree (hk'.simulated key payloads hplanned) fun k => ?_
  rw [hplain.buffers, hplanned.buffers, hbuf, hbytes, h.1]

/-- The two drain the same batches. -/
theorem Agree.planDrain (h : Agree b b') (predicate : κ → Bool) :
    (b.planDrain predicate).Perm (b'.planDrain predicate) := by
  have hmem : ∀ (b : BatchBuffer κ) (o : κ × Bytes), o ∈ b.planDrain predicate ↔
      ∃ buf, b.buffers.get? o.1 = some buf ∧ predicate o.1 = true ∧ buf ≠ [] ∧
      buf.flatten = o.2 := by
    intro b o
    simp only [BatchBuffer.planDrain, List.mem_map, List.mem_filter]
    constructor
    · rintro ⟨⟨key, buf⟩, ⟨hm, hp⟩, rfl⟩
      simp only [Bool.and_eq_true, Bool.not_eq_true', List.isEmpty_eq_false_iff] at hp
      exact ⟨buf, Dict.mem_entries_iff.mp hm, hp.1, hp.2, rfl⟩
    · rintro ⟨buf, hm, hp, hne, ho⟩
      exact ⟨(o.1, buf), ⟨Dict.mem_entries_iff.mpr hm, by simp [hp, hne]⟩, Prod.ext rfl ho⟩
  refine (List.perm_ext_iff_of_nodup (b.nodup_planDrain predicate).of_map
    (b'.nodup_planDrain predicate).of_map).mpr fun o => ?_
  rw [hmem, hmem, h.1]

/-- The same call keeps the buffers in agreement. -/
theorem Agree.call (h : Agree b b') (hk : Kept limits b) (hk' : Kept limits b') (call : Call κ) :
    Agree (plainCall limits b call).2 (plannedCall limits b' call).2 ∧
      Kept limits (plainCall limits b call).2 ∧ Kept limits (plannedCall limits b' call).2 := by
  have hdiscard : ∀ predicate, Agree (b.discard predicate) (b'.discard predicate) := by
    intro predicate
    refine (hk.discard predicate).agree (hk'.discard predicate) fun key => ?_
    simp only [discard, Dict.get?_filter, h.1]
  cases call with
  | append key payloads =>
    exact ⟨(h.append hk hk' key payloads).2,
      hk.simulated key payloads (hk.appendEach key payloads).2,
      hk'.simulated key payloads (hk'.applyAppend key payloads)⟩
  | drain predicate =>
    simp only [plainCall, plannedCall, flush_eq]
    exact ⟨hdiscard predicate, hk.discard predicate, hk'.discard predicate⟩
  | discard predicate => exact ⟨hdiscard predicate, hk.discard predicate, hk'.discard predicate⟩

theorem agree_after (limits : BatchLimits) (calls : List (Call κ)) :
    Agree (after (plainCall limits) calls) (after (plannedCall limits) calls) ∧
      Kept limits (after (plainCall limits) calls) ∧
      Kept limits (after (plannedCall limits) calls) := by
  induction calls using List.reverseRecOn with
  | nil => exact ⟨⟨fun _ => rfl, fun _ => rfl⟩, kept_empty, kept_empty⟩
  | append_singleton calls call ih =>
    simp only [after, List.foldl_append, List.foldl_cons, List.foldl_nil]
    exact ih.1.call ih.2.1 ih.2.2 call

/-- **The planned path is the plain path.** After the same calls, in any order and under any keys, a
caller that plans has the buffers and counters of one that does not, and both get the same batches
from the next call. Every buffer is below the limits and its counter is its size. -/
theorem planned_path (limits : BatchLimits) (calls : List (Call κ)) :
    let plain := after (plainCall limits) calls
    let planned := after (plannedCall limits) calls
    Agree plain planned ∧ Kept limits plain ∧ Kept limits planned ∧
      (∀ key payloads,
        (plain.appendEach limits key payloads).1 = planned.planAppend limits key payloads) ∧
      ∀ predicate,
        plain.flush predicate = (plain.planDrain predicate, plain.discard predicate) ∧
        planned.flush predicate = (planned.planDrain predicate, planned.discard predicate) ∧
        (plain.flush predicate).1.Perm (planned.planDrain predicate) := by
  obtain ⟨hagree, hplain, hplanned⟩ := agree_after limits calls
  refine ⟨hagree, hplain, hplanned, fun key payloads => ?_, fun predicate => ⟨?_, ?_, ?_⟩⟩
  · exact (hagree.append hplain hplanned key payloads).1
  · exact flush_eq _ predicate
  · exact flush_eq _ predicate
  · rw [flush_eq]
    exact hagree.planDrain predicate

end BatchBuffer

end MoneyLaundering
