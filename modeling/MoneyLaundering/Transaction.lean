import MoneyLaundering.Lib.Fields
import MoneyLaundering.MessageProtocol

/-!
# Transactions

`Transaction` (`domain/transaction.py`), its fixed-width records (`transaction_serializer.py`) and
the keys it is routed by (`bank_ids.py`, `routing.py`).
-/

namespace MoneyLaundering

open Bytes

/-- `Transaction`. The amount is a double, kept as its 64 bits. -/
structure Transaction where
  date : String
  fromBank : String
  fromAccount : String
  toBank : String
  toAccount : String
  amount : UInt64
  currency : String
  format : String
  rowNumber : Nat
  deriving DecidableEq

/-- `transaction < 50`. Below the sign bit, doubles are ordered like their bits, `0x4049…` is `50.0`
and everything above `0x7ff0…` is not a number. -/
def Transaction.ltFifty (tx : Transaction) : Bool :=
  let magnitude := tx.amount.toNat % 2 ^ 63
  magnitude ≤ 0x7ff0000000000000 && (2 ^ 63 ≤ tx.amount.toNat || magnitude < 0x4049000000000000)

namespace TransactionSerializer

def dateSize : Nat := 19
def bankSize : Nat := 16
def accountSize : Nat := 32
def currencySize : Nat := 32
def formatSize : Nat := 32

/-- `SIZE`. -/
def size : Nat := 195

/-- `_encode_fixed`, and the padding that `struct.pack` adds. -/
def encodeFixed (value : String) (width : Nat) (fieldName : String) : Except String Bytes := do
  Except.raiseIf (width < (encodeText value).length) s!"{fieldName} exceeds {width} bytes: {value}"
  return encodeText value ++ List.replicate (width - (encodeText value).length) 0

/-- `_decode_fixed` of the `width` bytes at `offset`. -/
def decodeFixed (data : Bytes) (offset width : Nat) : Except String String :=
  match decodeText? ((data.drop offset).take width) with
  | none => .error "invalid utf-8"
  | some value => .ok (String.ofList (Text.rstrip (· == '\x00') value.toList))

theorem encodeFixed_of_fits {value : String} {width : Nat} (h : Fits width value)
    (fieldName : String) :
    encodeFixed value width fieldName = .ok (padded width value) := by
  rw [encodeFixed, Except.raiseIf_of_not (by simpa using h.length_le)]
  rfl

/-- A field is read back, wherever it stands in the record. -/
theorem decodeFixed_of_fits {value : String} {width : Nat} (h : Fits width value)
    (before rest : Bytes) :
    decodeFixed (before ++ (padded width value ++ rest)) before.length width = .ok value := by
  have hfield := h.unpadded?_padded
  rw [unpadded?, Option.map_eq_some_iff] at hfield
  obtain ⟨text, htext, hvalue⟩ := hfield
  rw [decodeFixed, take_drop_field rfl h.length_padded, htext]
  exact congrArg Except.ok hvalue

/-- Whatever is read from a field fits it. -/
theorem fits_of_decodeFixed {data : Bytes} {offset width : Nat} {value : String}
    (h : decodeFixed data offset width = .ok value) : Fits width value := by
  unfold decodeFixed at h
  split at h
  · cases h
  · next text htext =>
    cases h
    have hread : unpadded? ((data.drop offset).take width) =
        some (String.ofList (Text.rstrip (· == '\x00') text.toList)) := by
      rw [unpadded?, htext, Option.map_some]
    have hfits := fits_of_unpadded? hread
    exact ⟨hfits.length_le.trans (List.length_take_le _ _), hfits.unpadded⟩

def serialize (tx : Transaction) : Except String Bytes := do
  let date ← encodeFixed tx.date dateSize "date"
  let fromBank ← encodeFixed tx.fromBank bankSize "from_bank"
  let fromAccount ← encodeFixed tx.fromAccount accountSize "from_account"
  let toBank ← encodeFixed tx.toBank bankSize "to_bank"
  let toAccount ← encodeFixed tx.toAccount accountSize "to_account"
  let currency ← encodeFixed tx.currency currencySize "currency"
  let format ← encodeFixed tx.format formatSize "format"
  let rowNumber ← pack 8 tx.rowNumber
  return date ++ fromBank ++ fromAccount ++ toBank ++ toAccount ++ beEncode 8 tx.amount.toNat ++
    currency ++ format ++ rowNumber

def deserialize (data : Bytes) : Except String Transaction := do
  Except.raiseIf (data.length ≠ size) "unpack requires a buffer of 195 bytes"
  return {
    date := ← decodeFixed data 0 dateSize
    fromBank := ← decodeFixed data 19 bankSize
    fromAccount := ← decodeFixed data 35 accountSize
    toBank := ← decodeFixed data 67 bankSize
    toAccount := ← decodeFixed data 83 accountSize
    amount := UInt64.ofNat (beDecode ((data.drop 115).take 8))
    currency := ← decodeFixed data 123 currencySize
    format := ← decodeFixed data 155 formatSize
    rowNumber := beDecode ((data.drop 187).take 8) }

/-- The records of a batch; a last piece that is too short raises in `deserialize`. -/
def deserializeBatch (data : Bytes) : Except String (List Transaction) :=
  (List.range ((data.length + size - 1) / size)).mapM fun i =>
    deserialize ((data.drop (i * size)).take size)

end TransactionSerializer

/-! ## Routing keys -/

/-- What `str.isdigit` and `int` know about characters. -/
structure UnicodeDigits where
  isDigit : Char → Bool
  decimal? : Char → Option Nat

/-- `notebook_bank_id`. A digit that is no decimal, like a superscript, makes `int` raise. -/
def notebookBankId (unicode : UnicodeDigits) (value : String) : Except String String :=
  match Text.strip value.toList with
  | [] => .ok ""
  | cs =>
    if cs.all unicode.isDigit then
      match cs.mapM unicode.decimal? with
      | none => .error "invalid literal for int()"
      | some digits => .ok (String.ofList (Text.ofNat (digits.foldl (fun n d => n * 10 + d) 0)))
    else .ok (String.ofList cs)

/-- On the ASCII digits, `str.isdigit` and `int` agree with the usual ones. -/
structure UnicodeDigits.ExtendsAscii (unicode : UnicodeDigits) : Prop where
  isDigit : ∀ c : Char, c.isDigit = true → unicode.isDigit c = true
  decimal? : ∀ c : Char, c.isDigit = true → unicode.decimal? c = some (c.toNat - 48)

/-- A decimal number is normal. -/
private theorem notebookBankId_ofNat {unicode : UnicodeDigits}
    (hu : unicode.ExtendsAscii) (n : Nat) :
    notebookBankId unicode (String.ofList (Text.ofNat n)) = .ok (String.ofList (Text.ofNat n)) := by
  have hdigit : ∀ c ∈ Text.ofNat n, c.isDigit = true := fun c hc => Text.isDigit_of_mem_ofNat hc
  have hstrip : Text.strip (Text.ofNat n) = Text.ofNat n :=
    Text.strip_eq_self (fun c hc => Text.not_isSpace_of_isDigit (hdigit c (List.mem_of_head? hc)))
      fun c hc => Text.not_isSpace_of_isDigit (hdigit c (List.mem_of_getLast? hc))
  have hall : (Text.ofNat n).all unicode.isDigit = true :=
    List.all_eq_true.mpr fun c hc => hu.isDigit c (hdigit c hc)
  have hdec : ∀ cs : List Char, (∀ c ∈ cs, c.isDigit = true) →
      cs.mapM unicode.decimal? = some (cs.map fun c => c.toNat - 48) := by
    intro cs
    induction cs with
    | nil => intro _; rfl
    | cons c cs ih =>
      intro hcs
      rw [List.mapM_cons, hu.decimal? c (hcs c List.mem_cons_self),
        ih fun c' hc' => hcs c' (List.mem_cons_of_mem _ hc')]
      rfl
  have hval : ((Text.ofNat n).map fun c => c.toNat - 48).foldl (fun n d => n * 10 + d) 0 = n := by
    rw [List.foldl_map]
    simpa [Nat.ofDigitChars, mul_comm, Text.ofNat] using Nat.ofDigitChars_ten_toDigits (n := n)
  rw [notebookBankId, String.toList_ofList, hstrip]
  split
  · next hnil => exact absurd hnil Nat.toDigits_ne_nil
  · simp only [hall, if_true, hdec _ hdigit, hval]

/-- Normalising twice changes nothing. -/
theorem notebookBankId_idem {unicode : UnicodeDigits} (hu : unicode.ExtendsAscii)
    {value bank : String}
    (h : notebookBankId unicode value = .ok bank) : notebookBankId unicode bank = .ok bank := by
  rw [notebookBankId] at h
  split at h
  · cases h
    rfl
  · next hne =>
    split_ifs at h with hall
    · split at h
      · cases h
      · cases h
        exact notebookBankId_ofNat hu _
    · cases h
      rw [notebookBankId, String.toList_ofList, Text.strip_strip]
      split
      · next hnil => exact absurd hnil hne
      · rw [if_neg hall]

/-- The key that `shard_for_key_parts` hashes: every part with its length in front. -/
def compoundKey (parts : List String) : String :=
  String.ofList (parts.flatMap fun part => Text.ofNat part.length ++ ':' :: part.toList)

/-- `partition_for_parts`. -/
def partitionForParts (sha256 : Bytes → Bytes) (parts : List String) (partitions : Nat) :
    Except String Nat := do
  Except.raiseIf (partitions = 0) "partitions must be greater than 0"
  shardForKey sha256 (encodeText (compoundKey parts)) partitions

/-- `queue_name_for_worker`. -/
def queueNameForWorker (name : String) (index : Nat) : String := s!"{name}_{index}"

end MoneyLaundering
