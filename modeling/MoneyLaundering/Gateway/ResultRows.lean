import MoneyLaundering.Gateway.Download
import MoneyLaundering.Lib.Decimal
import MoneyLaundering.Q2.BankNameJoiner
import MoneyLaundering.ScatterGather.RecordFormats

/-!
# The rows of the results

`_q1_csv_lines` to `_q5_csv_lines` (`gateway/gateway.py`) read the records that the last workers of
the queries serialize and print a row for each. With the way of the lines to the client, the result
files hold the rows of these records.
-/

namespace MoneyLaundering

open Bytes InternalProtocol
open TransactionSerializer (bankSize accountSize decodeFixed)

/-! ## Results of Q2 -/

namespace Q2BankMaxResult

/-- `Q2BankMaxResultSerializer.deserialize`. -/
def deserialize (data : Bytes) : Except String Q2BankMaxResult := do
  Except.raiseIf (data.length ≠ 120) "unpack requires a buffer of 120 bytes"
  return {
    bankId := ← decodeFixed data 0 bankSize
    fromAccount := ← decodeFixed data 16 accountSize
    bankName := ← decodeFixed data 48 bankNameSize
    amount := UInt64.ofNat (beDecode ((data.drop 112).take 8)) }

/-- No text ends in NUL. -/
structure Storable (r : Q2BankMaxResult) : Prop where
  bankId : Unpadded r.bankId
  fromAccount : Unpadded r.fromAccount
  bankName : Unpadded r.bankName

/-- The bytes of a result whose texts do not exceed their fields. -/
def wire (r : Q2BankMaxResult) : Bytes :=
  padded bankSize r.bankId ++ padded accountSize r.fromAccount ++ padded bankNameSize r.bankName ++
    beEncode 8 r.amount.toNat

/-- Decoding undoes encoding, and every text is within its field. -/
theorem deserialize_of_serialize {r : Q2BankMaxResult} (hs : r.Storable) {payload : Bytes}
    (h : r.serialize = .ok payload) : deserialize payload = .ok r ∧ Within bankSize r.bankId ∧
      Within accountSize r.fromAccount ∧ Within bankNameSize r.bankName := by
  obtain ⟨_, h₁, h⟩ := Except.ok_of_bind h
  obtain ⟨_, h₂, h⟩ := Except.ok_of_bind h
  obtain ⟨_, h₃, h⟩ := Except.ok_of_bind h
  obtain ⟨w₁, rfl⟩ := encodeFixed_eq_ok_iff.mp h₁
  obtain ⟨w₂, rfl⟩ := encodeFixed_eq_ok_iff.mp h₂
  obtain ⟨w₃, rfl⟩ := encodeFixed_eq_ok_iff.mp h₃
  obtain rfl : r.wire = payload := Except.ok.inj h
  refine ⟨?_, w₁, w₂, w₃⟩
  have hlength : r.wire.length = 120 := by
    simp only [wire, List.length_append, length_padded_of_within w₁, length_padded_of_within w₂,
      length_padded_of_within w₃, length_beEncode]
    rfl
  have h₀ := at_zero r.wire
  nth_rewrite 2 [wire] at h₀
  rw [← List.append_nil (beEncode 8 r.amount.toNat)] at h₀
  simp only [List.append_assoc] at h₀
  obtain ⟨r₁, h₁⟩ := decodeFixed_of_at hs.bankId w₁ h₀
  obtain ⟨r₂, h₂⟩ := decodeFixed_of_at hs.fromAccount w₂ h₁
  obtain ⟨r₃, h₃⟩ := decodeFixed_of_at hs.bankName w₃ h₂
  obtain ⟨r₄, -⟩ := beDecode_of_at (by simpa using r.amount.toNat_lt) h₃
  simp only [bankSize, accountSize, bankNameSize, Nat.reduceAdd] at r₁ r₂ r₃ r₄
  rw [deserialize, Except.raiseIf_of_not (not_not.mpr hlength), Except.ok_bind]
  simp only [bankSize, accountSize, bankNameSize, r₁, r₂, r₃, r₄, Except.ok_bind,
    UInt64.ofNat_toNat]
  rfl

end Q2BankMaxResult

/-! ## The generators -/

section
variable (unicode : UnicodeDigits)

/-- What a generator yields for each item, and whether it came to its end. -/
def yieldEach {α : Type} (row : α → Except String String) : List α → List String × Bool
  | [] => ([], true)
  | x :: xs =>
    match row x with
    | .error _ => ([], false)
    | .ok line => (line :: (yieldEach row xs).1, (yieldEach row xs).2)

/-- The line of a transaction in `_q1_csv_lines`. -/
def q1Row (tx : Transaction) : String :=
  tx.fromBank ++ "," ++ tx.fromAccount ++ "," ++ tx.toBank ++ "," ++ tx.toAccount ++ "," ++
    Double.fixed2 tx.amount

/-- `_q2_csv`. -/
def q2Row (r : Q2BankMaxResult) : String :=
  r.bankId ++ "," ++ r.fromAccount ++ "," ++ r.bankName ++ "," ++ Double.fixed2 r.amount

/-- The line of a transaction in `_q3_csv_lines`. -/
def q3Row (tx : Transaction) : Except String String := do
  return (← notebookBankId unicode tx.fromBank) ++ "," ++ tx.fromAccount ++ "," ++
    tx.format ++ "," ++
    Double.fixed2 tx.amount

/-- The line of an account in `_q4_csv_lines`. -/
def q4Row (a : Q4AccountId) : String := a.bankId ++ "," ++ a.account

/-- The items of a payload, and then the line of each; a payload that cannot be read yields
nothing. -/
def yieldFrom {α : Type} (items : Except String (List α)) (row : α → Except String String) :
    List String × Bool :=
  match items with
  | .error _ => ([], false)
  | .ok items => yieldEach row items

/-- The `payload_to_csv_lines` that `run` gives to the consumer of a query. -/
def csvLinesOf : Query → Bytes → List String × Bool
  | .q1, payload => yieldFrom (TransactionSerializer.deserializeBatch payload)
      fun tx => .ok (q1Row tx)
  | .q2, payload => yieldFrom ((Q2BankMaxResult.deserialize payload).map fun r => [r])
      fun r => .ok (q2Row r)
  | .q3, payload => yieldFrom (TransactionSerializer.deserializeBatch payload) (q3Row unicode)
  | .q4, payload => yieldFrom (Q4AccountId.deserializeBatch payload) fun a => .ok (q4Row a)
  | .q5, payload => q5CsvLines payload

/-- The gateway as `main` builds it. -/
def GatewayConfig.ofQueues (queueName : Query → Option String) : GatewayConfig where
  queueName
  payloadToCsvLines := csvLinesOf unicode

end

theorem yieldEach_map {α : Type} {row : α → Except String String} {items : List α}
    {lines : List String}
    (h : items.mapM row = .ok lines) : yieldEach row items = (lines, true) := by
  induction items generalizing lines with
  | nil =>
    cases h
    rfl
  | cons x items ih =>
    rw [List.mapM_cons] at h
    obtain ⟨line, hx, h⟩ := Except.ok_of_bind h
    obtain ⟨rest, hrest, h⟩ := Except.ok_of_bind h
    cases h
    rw [yieldEach, hx, ih hrest]

/-! ## What the last workers send -/

/-- The payload of a result message, before it is serialized. -/
inductive ResultBatch where
  | q1 (txs : List Transaction)
  | q2 (result : Q2BankMaxResult)
  | q3 (txs : List Transaction)
  | q4 (accounts : List Q4AccountId)
  | q5 (count : Nat)

namespace ResultBatch

def query : ResultBatch → Query
  | q1 _ => .q1
  | q2 _ => .q2
  | q3 _ => .q3
  | q4 _ => .q4
  | q5 _ => .q5

/-- The serialized payload. -/
def payload : ResultBatch → Except String Bytes
  | q1 txs | q3 txs => TransactionSerializer.serializeBatch txs
  | q2 result => result.serialize
  | q4 accounts => Q4AccountId.serializeBatch accounts
  | q5 count => pack 8 count

variable (unicode : UnicodeDigits)

/-- The rows of the result files. -/
def rows : ResultBatch → List String
  | q1 txs => txs.map q1Row
  | q2 result => [q2Row result]
  | q3 txs => (txs.mapM (q3Row unicode)).toOption.getD []
  | q4 accounts => accounts.map q4Row
  | q5 count => [toString count]

/-- The text has no line break. -/
def OneLine (s : String) : Prop := '\n' ∉ s.toList

instance (s : String) : Decidable (OneLine s) := inferInstanceAs (Decidable ('\n' ∉ s.toList))

/-- Records whose rows are lines: texts without line breaks, a bank of Q1 without a bar, a bank of
Q3 that can be normalised and an account of Q4 that does not end in a carriage return. -/
def Plain : ResultBatch → Prop
  | q1 txs => ∀ tx ∈ txs, tx.Storable ∧ OneLine tx.fromBank ∧ OneLine tx.fromAccount ∧
      OneLine tx.toBank ∧
      OneLine tx.toAccount ∧ '|' ∉ tx.fromBank.toList
  | q2 result => result.Storable ∧ OneLine result.bankId ∧ OneLine result.fromAccount ∧
      OneLine result.bankName
  | q3 txs => ∀ tx ∈ txs, tx.Storable ∧ OneLine tx.fromBank ∧ OneLine tx.fromAccount ∧
      OneLine tx.format ∧
      ∃ bank, notebookBankId unicode tx.fromBank = .ok bank
  | q4 accounts => ∀ a ∈ accounts, a.Storable ∧ OneLine a.bankId ∧ OneLine a.account ∧
      a.account.toList.getLast? ≠ some '\r'
  | q5 _ => True

variable {unicode} {b : ResultBatch} {payload : Bytes}

theorem deserializeBatch_of_serializeBatch {txs : List Transaction} (hs : ∀ tx ∈ txs, tx.Storable)
    (h : TransactionSerializer.serializeBatch txs = .ok payload) :
    TransactionSerializer.deserializeBatch payload = .ok txs ∧ ∀ tx ∈ txs, tx.WithinFields := by
  obtain ⟨hw, rfl⟩ := RecordFormat.serializeBatch_eq_ok (F := Transaction.recordFormat) h
  exact ⟨Transaction.recordFormat_lawful.deserializeBatch hs hw,
    fun tx htx => (Transaction.serialize_eq_ok_iff.mp (hw tx htx)).1⟩

/-- The consumer yields the rows of the records. -/
theorem csvLinesOf_payload (hb : b.Plain unicode) (h : b.payload = .ok payload) :
    csvLinesOf unicode b.query payload = (b.rows unicode, true) := by
  cases b with
  | q1 txs =>
    obtain ⟨hread, -⟩ := deserializeBatch_of_serializeBatch (fun tx htx => (hb tx htx).1) h
    rw [query, csvLinesOf, hread, yieldFrom]
    exact yieldEach_map (Except.mapM_eq_map fun tx _ => rfl)
  | q2 result =>
    rw [query, csvLinesOf, (Q2BankMaxResult.deserialize_of_serialize hb.1 h).1]
    rfl
  | q3 txs =>
    obtain ⟨hread, -⟩ := deserializeBatch_of_serializeBatch (fun tx htx => (hb tx htx).1) h
    obtain ⟨lines, hlines⟩ : ∃ lines, txs.mapM (q3Row unicode) = .ok lines := by
      refine Except.mapM_of_forall fun tx htx => ?_
      obtain ⟨bank, hbank⟩ := (hb tx htx).2.2.2.2
      rw [q3Row, hbank]
      exact ⟨_, rfl⟩
    rw [query, csvLinesOf, hread, yieldFrom, yieldEach_map hlines, rows, hlines]
    rfl
  | q4 accounts =>
    obtain ⟨hw, rfl⟩ := RecordFormat.serializeBatch_eq_ok (F := Q4AccountId.recordFormat) h
    have hread : Q4AccountId.deserializeBatch
        (accounts.map Q4AccountId.recordFormat.bytesOf).flatten = .ok accounts :=
      Q4AccountId.recordFormat_lawful.deserializeBatch (fun a ha => (hb a ha).1) hw
    rw [query, csvLinesOf, hread, yieldFrom]
    exact yieldEach_map (Except.mapM_eq_map fun a _ => rfl)
  | q5 count =>
    obtain ⟨hlt, rfl⟩ := pack_eq_ok_iff.mp h
    rw [query, csvLinesOf, q5CsvLines, if_pos (length_beEncode 8 count), beDecode_beEncode hlt]
    rfl

end ResultBatch

/-! ## The rows are lines -/

theorem length_toList_le (s : String) : s.toList.length ≤ (encodeText s).length := by
  rw [encodeText_eq]
  induction s.toList with
  | nil => exact Nat.le_refl 0
  | cons c cs ih =>
    have hpos := List.length_pos_iff.mpr (utf8EncodeChar_ne_nil c)
    rw [List.flatMap_cons, List.length_append, List.length_cons]
    omega

theorem Within.length_toList_le {width : Nat} {s : String} (h : Within width s) :
    s.toList.length ≤ width :=
  (MoneyLaundering.length_toList_le s).trans h

/-- The digits of `int` are decimals. -/
def UnicodeDigits.Decimal (unicode : UnicodeDigits) : Prop :=
  ∀ c d, unicode.decimal? c = some d → d < 10

theorem foldl_digits_lt {digits : List Nat} (h : ∀ d ∈ digits, d < 10) (n : Nat) :
    digits.foldl (fun n d => n * 10 + d) n < (n + 1) * 10 ^ digits.length := by
  induction digits generalizing n with
  | nil => simp
  | cons d digits ih =>
    have hd := h d List.mem_cons_self
    calc (d :: digits).foldl (fun n d => n * 10 + d) n
        < (n * 10 + d + 1) * 10 ^ digits.length :=
          ih (fun d' hd' => h d' (List.mem_cons_of_mem _ hd')) _
      _ ≤ ((n + 1) * 10) * 10 ^ digits.length := Nat.mul_le_mul_right _ (by omega)
      _ = (n + 1) * 10 ^ (d :: digits).length := by
        rw [List.length_cons, Nat.pow_succ', Nat.mul_assoc]

theorem strip_sublist (cs : List Char) : (Text.strip cs).Sublist cs :=
  (Text.rstrip_prefix _).sublist.trans (List.dropWhile_sublist _)

theorem UnicodeDigits.Decimal.mapM {unicode : UnicodeDigits} (hu : unicode.Decimal) {cs : List Char}
    {digits : List Nat}
    (h : cs.mapM unicode.decimal? = some digits) :
    digits.length = cs.length ∧ ∀ d ∈ digits, d < 10 := by
  induction cs generalizing digits with
  | nil =>
    cases h
    exact ⟨rfl, fun d hd => absurd hd List.not_mem_nil⟩
  | cons c cs ih =>
    rw [List.mapM_cons] at h
    obtain ⟨d, hd, h⟩ := Option.bind_eq_some_iff.mp h
    obtain ⟨rest, hrest, h⟩ := Option.bind_eq_some_iff.mp h
    cases h
    obtain ⟨hlength, hlt⟩ := ih hrest
    refine ⟨congrArg (· + 1) hlength, fun d' hd' => ?_⟩
    rcases List.mem_cons.mp hd' with rfl | hd'
    · exact hu c _ hd
    · exact hlt d' hd'

/-- A normal bank id is not longer than the text it was made of, and has no line break that was not
there. -/
theorem notebookBankId_chars {unicode : UnicodeDigits} (hu : unicode.Decimal) {value bank : String}
    (h : notebookBankId unicode value = .ok bank) : bank.toList.length ≤ value.toList.length ∧
      ('\n' ∉ value.toList → '\n' ∉ bank.toList) := by
  have hsub := strip_sublist value.toList
  rw [notebookBankId] at h
  split at h
  · cases h
    exact ⟨Nat.zero_le _, fun _ => List.not_mem_nil⟩
  · next cs hcs =>
    split_ifs at h with hall
    · split at h
      · cases h
      · next digits hdigits =>
        cases h
        obtain ⟨hlength, hlt⟩ := hu.mapM hdigits
        have hvalue : digits.foldl (fun n d => n * 10 + d) 0 < 10 ^ digits.length := by
          simpa using foldl_digits_lt hlt 0
        have hpos : 0 < digits.length := hlength ▸ List.length_pos_iff.mpr hcs
        rw [String.toList_ofList]
        exact ⟨(Text.length_ofNat_le hpos hvalue).trans (hlength ▸ hsub.length_le), fun _ =>
          Text.not_mem_ofNat (by decide) _⟩
    · cases h
      rw [String.toList_ofList]
      exact ⟨hsub.length_le, fun hnot hmem => hnot (hsub.subset hmem)⟩

section
variable {q : Query} {csv : String} {maxLineSize : Nat}

/-- A row is a line: it has no break and is not too long. -/
theorem clean_of_row (hbreak : '\n' ∉ csv.toList) (hlast : csv.toList.getLast? ≠ some '\r')
    (hunprefixed : q = .q1 → Client.queryByPrefix.lookup (String.ofList (csv.toList.take 3)) = none)
    (hlength : csv.toList.length ≤ 500) (hmax : 2048 ≤ maxLineSize) :
    (⟨q, csv⟩ : ResultLine).Clean maxLineSize where
  noBreak := hbreak
  last := hlast
  unprefixed := hunprefixed
  fits := by
    have hprefix : q.prefixOf.toList.length ≤ 3 := by cases q <;> decide
    have hline : ((⟨q, csv⟩ : ResultLine).line ++ "\n").toList.length = q.prefixOf.toList.length +
        csv.toList.length + 1 := by
      rw [String.toList_append, ResultLine.line, String.toList_append, List.length_append,
        List.length_append]
      rfl
    have hbytes := length_encodeText_le ((⟨q, csv⟩ : ResultLine).line ++ "\n")
    rw [hline] at hbytes
    rw [ResultLine.bytes]
    omega

theorem not_mem_fixed2 {bits : UInt64} {c : Char} (hd : c.isDigit = false)
    (hc : c ∉ ['-', '.', 'n', 'a', 'i', 'f']) : c ∉ (Double.fixed2 bits).toList := by
  intro h
  rcases Double.mem_fixed2 h with h | h
  · rw [hd] at h
    cases h
  · exact hc h

/-- What ends in a comma and a printed double does not end in a carriage return. -/
theorem getLast?_amount (front : String) (bits : UInt64) :
    (front ++ "," ++ Double.fixed2 bits).toList.getLast? ≠ some '\r' := by
  intro h
  rw [String.toList_append, String.toList_append, List.append_assoc,
    List.getLast?_append_of_ne_nil _ (by simp)] at h
  rcases List.mem_append.mp (List.mem_of_getLast? h) with h | h
  · exact absurd h (by decide)
  · exact not_mem_fixed2 (by decide) (by decide) h

/-- A line whose first text has no bar does not look like one of another query. -/
theorem lookup_queryByPrefix {text rest : List Char} (h : '|' ∉ text) :
    Client.queryByPrefix.lookup (String.ofList ((text ++ ',' :: rest).take 3)) = none := by
  refine List.lookup_eq_none_iff.mpr fun p hp => ?_
  have hchars : ',' ∉ p.1.toList ∧ '|' ∈ p.1.toList := by
    revert p
    decide
  refine bne_iff_ne.mpr fun he => ?_
  have htake : (text ++ ',' :: rest).take 3 = p.1.toList := by
    rw [← he, String.toList_ofList]
  rw [← htake] at hchars
  by_cases hlength : text.length < 3
  · refine hchars.1 ?_
    rw [List.take_append]
    refine List.mem_append_right _ ?_
    obtain ⟨n, hn⟩ : ∃ n, 3 - text.length = n + 1 := ⟨2 - text.length, by omega⟩
    rw [hn, List.take_succ_cons]
    exact List.mem_cons_self
  · rw [List.take_append_of_le_length (Nat.le_of_not_lt hlength)] at hchars
    exact h (List.mem_of_mem_take hchars.2)

end

namespace ResultBatch

variable {unicode : UnicodeDigits} {b : ResultBatch} {payload : Bytes} {maxLineSize : Nat}

/-- The rows of records that were serialized come back at the client as they were sent. -/
theorem Plain.clean (hb : b.Plain unicode) (hu : unicode.Decimal) (h : b.payload = .ok payload)
    (hmax : 2048 ≤ maxLineSize) {row : String} (hrow : row ∈ b.rows unicode) :
    (⟨b.query, row⟩ : ResultLine).Clean maxLineSize := by
  have hbreak : ∀ bits, '\n' ∉ (Double.fixed2 bits).toList := fun bits =>
    not_mem_fixed2 (by decide) (by decide)
  have hcomma : ",".toList = [','] := rfl
  cases b with
  | q1 txs =>
    obtain ⟨tx, htx, rfl⟩ := List.mem_map.mp hrow
    obtain ⟨hs, l₁, l₂, l₃, l₄, hbar⟩ := hb tx htx
    have hw := (deserializeBatch_of_serializeBatch (fun tx htx => (hb tx htx).1) h).2 tx htx
    have h₁ := hw.fromBank.length_toList_le
    have h₂ := hw.fromAccount.length_toList_le
    have h₃ := hw.toBank.length_toList_le
    have h₄ := hw.toAccount.length_toList_le
    have h₅ := Double.length_fixed2_le tx.amount
    refine clean_of_row ?_ (getLast?_amount _ _) (fun _ => ?_) ?_ hmax
    · simp only [q1Row, String.toList_append, List.mem_append, hcomma, not_or]
      exact ⟨⟨⟨⟨⟨⟨⟨⟨l₁, by decide⟩, l₂⟩, by decide⟩, l₃⟩, by decide⟩, l₄⟩, by decide⟩, hbreak _⟩
    · simp only [q1Row, String.toList_append, List.append_assoc, hcomma]
      exact lookup_queryByPrefix hbar
    · simp only [q1Row, String.toList_append, List.length_append, hcomma, List.length_singleton]
      simp only [bankSize, accountSize] at h₁ h₂ h₃ h₄
      omega
  | q2 result =>
    obtain rfl := List.mem_singleton.mp hrow
    obtain ⟨hs, l₁, l₂, l₃⟩ := hb
    obtain ⟨-, w₁, w₂, w₃⟩ := Q2BankMaxResult.deserialize_of_serialize hs h
    have h₁ := w₁.length_toList_le
    have h₂ := w₂.length_toList_le
    have h₃ := w₃.length_toList_le
    have h₄ := Double.length_fixed2_le result.amount
    refine clean_of_row ?_ (getLast?_amount _ _) (by rintro ⟨⟩) ?_ hmax
    · simp only [q2Row, String.toList_append, List.mem_append, hcomma, not_or]
      exact ⟨⟨⟨⟨⟨⟨l₁, by decide⟩, l₂⟩, by decide⟩, l₃⟩, by decide⟩, hbreak _⟩
    · simp only [q2Row, String.toList_append, List.length_append, hcomma, List.length_singleton]
      simp only [bankSize, accountSize, bankNameSize] at h₁ h₂ h₃
      omega
  | q3 txs =>
    obtain ⟨lines, hlines, hrow⟩ : ∃ lines, txs.mapM (q3Row unicode) = .ok lines ∧ row ∈ lines := by
      rw [rows] at hrow
      cases hmap : txs.mapM (q3Row unicode) with
      | error error =>
        rw [hmap] at hrow
        cases hrow
      | ok lines =>
        rw [hmap] at hrow
        exact ⟨lines, rfl, hrow⟩
    obtain ⟨tx, htx, hline⟩ := (Except.forall₂_of_mapM hlines).exists_left hrow
    obtain ⟨bank, hbank, hline⟩ := Except.ok_of_bind hline
    cases hline
    obtain ⟨hs, l₁, l₂, l₃, -⟩ := hb tx htx
    have hw := (deserializeBatch_of_serializeBatch (fun tx htx => (hb tx htx).1) h).2 tx htx
    obtain ⟨hshort, hkept⟩ := notebookBankId_chars hu hbank
    have h₁ := hw.fromBank.length_toList_le
    have h₂ := hw.fromAccount.length_toList_le
    have h₃ := hw.format.length_toList_le
    have h₄ := Double.length_fixed2_le tx.amount
    refine clean_of_row ?_ (getLast?_amount _ _) (by rintro ⟨⟩) ?_ hmax
    · simp only [String.toList_append, List.mem_append, hcomma, not_or]
      exact ⟨⟨⟨⟨⟨⟨hkept l₁, by decide⟩, l₂⟩, by decide⟩, l₃⟩, by decide⟩, hbreak _⟩
    · simp only [String.toList_append, List.length_append, hcomma, List.length_singleton]
      simp only [bankSize, accountSize, TransactionSerializer.formatSize] at h₁ h₂ h₃
      omega
  | q4 accounts =>
    obtain ⟨a, ha, rfl⟩ := List.mem_map.mp hrow
    obtain ⟨hs, l₁, l₂, hlast⟩ := hb a ha
    obtain ⟨hw, -⟩ := RecordFormat.serializeBatch_eq_ok (F := Q4AccountId.recordFormat) h
    have hwithin := (Q4AccountId.serialize_eq_ok_iff.mp (hw a ha)).1
    have h₁ := hwithin.bankId.length_toList_le
    have h₂ := hwithin.account.length_toList_le
    refine clean_of_row ?_ ?_ (by rintro ⟨⟩) ?_ hmax
    · simp only [q4Row, String.toList_append, List.mem_append, hcomma, not_or]
      exact ⟨⟨l₁, by decide⟩, l₂⟩
    · simp only [q4Row, String.toList_append, hcomma, List.append_assoc, List.singleton_append]
      rw [List.getLast?_append_of_ne_nil _ (List.cons_ne_nil _ _), List.getLast?_cons]
      cases hget : a.account.toList.getLast? with
      | none => simp
      | some c =>
        rw [hget] at hlast
        exact hlast
    · simp only [q4Row, String.toList_append, List.length_append, hcomma, List.length_singleton]
      simp only [bankSize, accountSize] at h₁ h₂
      omega
  | q5 count =>
    obtain rfl := List.mem_singleton.mp hrow
    obtain ⟨hlt, -⟩ := pack_eq_ok_iff.mp h
    have hchars : (toString count).toList = Text.ofNat count := by
      simp [Text.ofNat, toString, Nat.repr]
    have hlen : (Text.ofNat count).length ≤ 20 :=
      Text.length_ofNat_le (by decide) (Nat.lt_trans hlt (by decide))
    refine clean_of_row ?_ (fun hlast => ?_) (by rintro ⟨⟩) ?_ hmax
    · rw [hchars]
      exact Text.not_mem_ofNat (by decide) count
    · rw [hchars] at hlast
      exact Text.not_mem_ofNat (by decide) count (List.mem_of_getLast? hlast)
    · rw [hchars]
      omega

end ResultBatch

/-! ## From the records to the files -/

namespace Gateway

variable {k : Nat} {unicode : UnicodeDigits} {queueName : Query → Option String} {g : Gateway}
  {log : List (Query × UnpackedResult)} {batches : List ResultBatch}

/-- The result files with these rows. -/
def resultFiles (rows : Query → List String) : Query → String := fun q =>
  Client.resultHeader q ++ String.join ((rows q).map (· ++ "\n"))

/-- The rows of the batches of a query. -/
def rowsOf (unicode : UnicodeDigits) (batches : List ResultBatch) (q : Query) : List String :=
  (batches.filter (·.query = q)).flatMap (ResultBatch.rows unicode)

/-- The result message is one that the last worker of the query made of the batch. -/
structure Carries (unicode : UnicodeDigits) (e : Query × UnpackedResult) (b : ResultBatch) :
    Prop where
  query : b.query = e.1
  payload : b.payload = .ok e.2.payload
  plain : b.Plain unicode

/-- The admitted messages with results, in order, are those of the batches. -/
def Sent (unicode : UnicodeDigits) (log : List (Query × UnpackedResult))
    (batches : List ResultBatch) : Prop :=
  List.Forall₂ (Carries unicode) (log.filter (·.2.msgType = MessageType.data.toNat)) batches

theorem Carries.csvLines {e : Query × UnpackedResult} {b : ResultBatch} (h : Carries unicode e b)
    (hdata : e.2.msgType = MessageType.data.toNat) :
    csvLines (.ofQueues unicode queueName) e.1 e.2 = (b.rows unicode).map (⟨b.query, ·⟩) := by
  rw [Gateway.csvLines, if_pos hdata, ← h.query]
  have hlines := ResultBatch.csvLinesOf_payload h.plain h.payload
  dsimp only [GatewayConfig.ofQueues]
  rw [hlines]

/-- The lines of the admitted messages are the rows of the batches. -/
theorem Sent.accepted (h : Sent unicode log batches) (q : Query) :
    acceptedLines (.ofQueues unicode queueName) log q =
      (rowsOf unicode batches q).map (⟨q, ·⟩) := by
  unfold Sent at h
  induction log generalizing batches with
  | nil =>
    cases h
    rfl
  | cons e log ih =>
    by_cases hdata : e.2.msgType = MessageType.data.toNat
    · simp only [List.filter_cons, hdata, decide_true, if_true] at h
      cases h with
      | @cons _ b _ batches hb hrest =>
        by_cases hq : e.1 = q
        · subst hq
          simp only [rowsOf, acceptedLines, List.filter_cons, hb.query, decide_true, if_true,
            List.flatMap_cons, List.map_append, hb.csvLines hdata]
          exact congrArg (_ ++ ·) (ih hrest)
        · have hbq : ¬ b.query = q := fun he => hq (hb.query.symm.trans he)
          simp only [rowsOf, acceptedLines, List.filter_cons, hbq, hq, decide_false,
            Bool.false_eq_true, if_false]
          exact ih hrest
    · simp only [List.filter_cons, hdata, decide_false, Bool.false_eq_true, if_false] at h
      have hnone : csvLines (.ofQueues unicode queueName) e.1 e.2 = [] := if_neg hdata
      rw [← ih h, acceptedLines, acceptedLines]
      by_cases hq : e.1 = q
      · rw [hq] at hnone
        simp only [List.filter_cons, hq, decide_true, if_true, List.flatMap_cons, hnone,
          List.nil_append]
      · simp only [List.filter_cons, hq, decide_false, Bool.false_eq_true, if_false]

theorem Sent.clean (h : Sent unicode log batches) (hu : unicode.Decimal) {maxLineSize : Nat}
    (hmax : 2048 ≤ maxLineSize) :
    CleanLog (.ofQueues unicode queueName) log maxLineSize := by
  intro e he r hr
  by_cases hdata : e.2.msgType = MessageType.data.toNat
  · obtain ⟨b, -, hb⟩ := h.exists_right (List.mem_filter.mpr ⟨he, decide_eq_true hdata⟩)
    rw [hb.csvLines hdata] at hr
    obtain ⟨row, hrow, rfl⟩ := List.mem_map.mp hr
    exact hb.plain.clean hu hb.payload hmax hrow
  · rw [csvLines, if_neg hdata] at hr
    cases hr

/-- **From the records to the result files.** When the messages that the consumers admit carry
records which the last workers serialized, each result file holds a beginning of the rows of these
records in the order in which their messages were admitted, and one file maybe a part of one more
row: however the puts of the five consumers interleave, however the bytes to the client are cut into
pieces and wherever they end. When all has come, no line is behind the mark and no callback has a
line left, each file holds all these rows. -/
theorem rows_reach_client (hu : unicode.Decimal) {maxLineSize : Nat} (hmax : 2048 ≤ maxLineSize)
    (h : ResultRun (.ofQueues unicode queueName) k g log) (hsent : Sent unicode log batches)
    {pieces : List Bytes} (hpieces : pieces.flatten <+: sentBytes (g.queue k)) :
    ∃ rows cut, (∀ q, rows q <+: rowsOf unicode batches q) ∧
      (cut = [] ∨ ∃ q, ∃ row ∈ rowsOf unicode batches q,
        cut <+: (⟨q, row⟩ : ResultLine).bytes ∧ cut.length < (⟨q, row⟩ : ResultLine).bytes.length) ∧
      Client.logResultLines maxLineSize pieces = (if cut = [] then resultFiles rows
        else Client.writeLine (resultFiles rows) (Sender.decodeResultLine cut), .ok ⟨⟩) ∧
      (pieces.flatten = sentBytes (g.queue k) →
        (∀ item ∈ (g.queue k).dropWhile isLine, isLine item = false) →
        (∀ q, waiting k (g.tasks q) = []) → cut = [] ∧ ∀ q, rows q = rowsOf unicode batches q) := by
  obtain ⟨written, cut, hwritten, hcut, hfiles, hall⟩ :=
    lines_reach_client (Nat.lt_of_lt_of_le (by decide) hmax) h (hsent.clean hu hmax) hpieces
  have hcsv : ∀ q (rows : List String),
      (rows.map (⟨q, ·⟩ : String → ResultLine)).map ResultLine.csv = rows := by
    intro q rows
    rw [List.map_map]
    exact List.map_id rows
  refine ⟨fun q => (written.filter (·.query = q)).map ResultLine.csv, cut, fun q =>
    ?_, ?_, ?_, fun hcame hmark hidle => ?_⟩
  · have := (hwritten q).map ResultLine.csv
    rwa [hsent.accepted, hcsv] at this
  · rcases hcut with hnil | ⟨r, hr, hcut⟩
    · exact .inl hnil
    · rw [hsent.accepted] at hr
      obtain ⟨row, hrow, he⟩ := List.mem_map.mp hr
      exact .inr ⟨r.query, row, hrow, he ▸ hcut⟩
  · have hfiled : resultFiles (fun q => (written.filter (·.query = q)).map ResultLine.csv) =
        ResultLine.filed written := by
      funext q
      rw [resultFiles, ResultLine.filed, List.map_map]
      rfl
    rw [hfiles, hfiled]
  · obtain ⟨hnil, heq⟩ := hall hcame hmark hidle
    refine ⟨hnil, fun q => ?_⟩
    dsimp only
    rw [heq, hsent.accepted, hcsv]

/-- A small transfer. -/
def smallTransfer : Transaction :=
  ⟨"2022/09/01 00:08", "11", "8000ECA90", "70", "80010F0", 0x4029000000000000,
    "US Dollar", "Wire", 3⟩

/-- A result of Q1, and the count of Q5. -/
def sampleBatches : List ResultBatch := [.q1 [smallTransfer], .q5 3]

/-- A packet of client 7 for each consumer. -/
def transferMessage : Bytes :=
  (createPacket MessageType.data.toNat 7
    ((TransactionSerializer.serializeBatch [smallTransfer]).toOption.getD [])).toOption.getD []

def countMessage : Bytes :=
  (createAddressedPacket MessageType.data.toNat 7 1 0 (beEncode 8 3)).toOption.getD []

/-- The client connects, both messages come, and their lines are put. -/
def sampleRun : List Label :=
  [.openSession 7, .deliver .q1 transferMessage, .deliver .q5 countMessage, .advance .q5,
    .advance .q1, .advance .q5, .advance .q1]

def sampleConfig : GatewayConfig :=
  .ofQueues asciiDigits fun q => if q = .q1 ∨ q = .q5 then some "results" else none

/-- A run, and what it admits. -/
def runLog (cfg : GatewayConfig) (k : Nat) : Gateway → List (Query × UnpackedResult) → List Label →
    Option (Gateway × List (Query × UnpackedResult))
  | g, log, [] => some (g, log)
  | g, log, l :: labels => (g.exec cfg l).bind fun g' =>
    runLog cfg k g' (log ++ admitted k g l) labels

theorem resultRun_of_runLog {cfg : GatewayConfig} {labels : List Label} {g' : Gateway}
    {log' : List (Query × UnpackedResult)} (h : ResultRun cfg k g log)
    (hr : runLog cfg k g log labels = some (g', log')) : ResultRun cfg k g' log' := by
  induction labels generalizing g log with
  | nil =>
    cases hr
    exact h
  | cons l labels ih =>
    obtain ⟨g₁, he, hr⟩ := Option.bind_eq_some_iff.mp hr
    exact ih (h.step he) hr

theorem rows_reach_client_two :
    ∃ g log, ResultRun sampleConfig 0 g log ∧ Sent asciiDigits log sampleBatches ∧
    ∃ rows, Client.logResultLines 2048 [encodeText "Q5|3\n11,8000E",
      encodeText "CA90,70,80010F0,12.50\n"] =
      (resultFiles rows, .ok ⟨⟩) ∧ ∀ q, rows q = rowsOf asciiDigits sampleBatches q := by
  have hrun : (runLog sampleConfig 0 {} [] sampleRun).any (fun r =>
      decide (r.1.queue 0 = [.line "Q5|3\n", .line "11,8000ECA90,70,80010F0,12.50\n"]) &&
        decide ((r.2.filter (·.2.msgType = MessageType.data.toNat)).map (fun e =>
          (e.1, e.2.payload)) =
          sampleBatches.map fun b => (b.query, b.payload.toOption.getD [])) &&
        Query.all.all fun q => decide (waiting 0 (r.1.tasks q) = [])) = true := by decide +kernel
  obtain ⟨⟨g, log⟩, hr, hg⟩ := (Option.any_eq_true _ _).mp hrun
  obtain ⟨hg, hidle⟩ := Bool.and_eq_true_iff.mp hg
  obtain ⟨hqueue, hlog⟩ := Bool.and_eq_true_iff.mp hg
  have hqueue : g.queue 0 = [.line "Q5|3\n", .line "11,8000ECA90,70,80010F0,12.50\n"] :=
    of_decide_eq_true hqueue
  have hreach := resultRun_of_runLog .init hr
  have hpayload : ∀ b ∈ sampleBatches, b.payload = .ok (b.payload.toOption.getD []) := by
    decide +kernel
  have hplain : ∀ b ∈ sampleBatches, b.Plain asciiDigits := by
    intro b hb
    rcases List.mem_cons.mp hb with rfl | hb
    · intro tx htx
      obtain rfl := List.mem_singleton.mp htx
      refine ⟨⟨?_, ?_, ?_, ?_, ?_, ?_, ?_, by decide⟩, by decide, by decide, by decide, by
        decide, by decide⟩ <;>
        · rintro c hc rfl
          exact absurd (List.mem_of_getLast? hc) (by decide)
    · obtain rfl := List.mem_singleton.mp hb
      trivial
  have hsent : Sent asciiDigits log sampleBatches := by
    obtain ⟨e₁, log₁, he, h₁, hlog⟩ := List.map_eq_cons_iff.mp (of_decide_eq_true hlog)
    obtain ⟨e₂, log₂, he', h₂, hlog⟩ := List.map_eq_cons_iff.mp hlog
    obtain rfl := List.map_eq_nil_iff.mp hlog
    rw [Sent, he, he']
    refine .cons ⟨(congrArg Prod.fst h₁).symm, ?_, hplain _ List.mem_cons_self⟩
      (.cons ⟨(congrArg Prod.fst h₂).symm, ?_, hplain _ (List.mem_cons_of_mem _ List.mem_cons_self)⟩
        .nil)
    · rw [hpayload _ List.mem_cons_self]
      exact congrArg Except.ok (congrArg Prod.snd h₁).symm
    · rw [hpayload _ (List.mem_cons_of_mem _ List.mem_cons_self)]
      exact congrArg Except.ok (congrArg Prod.snd h₂).symm
  have hcame : [encodeText "Q5|3\n11,8000E", encodeText "CA90,70,80010F0,12.50\n"].flatten =
      sentBytes (g.queue 0) := by
    rw [hqueue]
    decide +kernel
  have hu : asciiDigits.Decimal := by
    intro c d h
    unfold asciiDigits at h
    dsimp only at h
    split at h
    · next hdigit =>
      cases h
      have hle := (Bool.and_eq_true_iff.mp hdigit).2
      have : c.toNat ≤ 57 := UInt32.le_iff_toNat_le.mp (of_decide_eq_true hle)
      omega
    · cases h
  obtain ⟨rows, cut, -, -, hfiles, hall⟩ := rows_reach_client hu (Nat.le_refl 2048) hreach hsent
    (show _ <+: _ by rw [hcame])
  obtain ⟨rfl, hrows⟩ := hall hcame (by rw [hqueue]; decide) fun q =>
    of_decide_eq_true (List.all_eq_true.mp hidle q (Query.mem_all q))
  exact ⟨g, log, hreach, hsent, rows, hfiles, hrows⟩

end Gateway

end MoneyLaundering
