import Mathlib.Data.Prod.Lex
import MoneyLaundering.Lib.KeyedMax
import MoneyLaundering.Transaction

/-!
# Q2: the largest transfer of every bank

`Q2BankMaxPartial` and its records (`partial_result.py`, `partial_result_serializer.py`), and the
three processors that reduce them (`workers/sum/processors.py`, `workers/aggregator/processors.py`,
`workers/joiner/processors.py`). Each stage decodes, normalises the bank and compares again. The
comparison is that of one rank, the amount and then the earlier row, so every stage passes on a
cover of what it received and the joiner ends with the maximum of the whole input.
-/

namespace MoneyLaundering

open Bytes

/-- `Q2BankMaxPartial`; also the candidates that `Q2SumProcessor` keeps. -/
structure Q2BankMaxPartial where
  bankId : String
  fromAccount : String
  amount : UInt64
  rowNumber : Nat
  deriving DecidableEq

namespace Q2BankMaxPartialSerializer

open TransactionSerializer (bankSize accountSize encodeFixed decodeFixed)

/-- `SIZE`. -/
def size : Nat := 64

def serialize (p : Q2BankMaxPartial) : Except String Bytes := do
  let bankId ← encodeFixed p.bankId bankSize "bank_id"
  let fromAccount ← encodeFixed p.fromAccount accountSize "from_account"
  let rowNumber ← pack 8 p.rowNumber
  return bankId ++ fromAccount ++ beEncode 8 p.amount.toNat ++ rowNumber

def deserialize (data : Bytes) : Except String Q2BankMaxPartial := do
  Except.raiseIf (data.length ≠ size) "unpack requires a buffer of 64 bytes"
  return {
    bankId := ← decodeFixed data 0 bankSize
    fromAccount := ← decodeFixed data 16 accountSize
    amount := UInt64.ofNat (beDecode ((data.drop 48).take 8))
    rowNumber := beDecode ((data.drop 56).take 8) }

end Q2BankMaxPartialSerializer

/-- The comparison of `_is_better_q2_candidate` and the two `_is_better_q2_partial`: the larger
amount, and of two equal ones the earlier row where both are known. -/
def isBetterQ2 (candidate current : Q2BankMaxPartial) : Bool :=
  if !Double.eq candidate.amount current.amount then Double.gt candidate.amount current.amount
  else if candidate.rowNumber ≠ 0 ∧ current.rowNumber ≠ 0 then
    decide (candidate.rowNumber < current.rowNumber)
  else false

/-- `max_by_bank`. -/
abbrev MaxByBank := Dict String Q2BankMaxPartial

namespace Q2SumProcessor

def isBetterQ2Candidate : Q2BankMaxPartial → Q2BankMaxPartial → Bool := isBetterQ2

def process (unicode : UnicodeDigits) (maxByBank : MaxByBank) (tx : Transaction) :
    Except String MaxByBank := do
  let bankId ← notebookBankId unicode tx.fromBank
  return maxByBank.offer isBetterQ2Candidate bankId ⟨bankId, tx.fromAccount,
    tx.amount, tx.rowNumber⟩

/-- `_partial_tuple`. -/
def partialTuple (candidate : Q2BankMaxPartial) : Except String (String × Bytes) := do
  return (candidate.bankId, ← Q2BankMaxPartialSerializer.serialize candidate)

def partials (maxByBank : MaxByBank) : Except String (List (String × Bytes)) :=
  maxByBank.values.mapM partialTuple

end Q2SumProcessor

/-- `accept` of a processor of partials: decode, normalise the bank, keep the better one. -/
def acceptQ2 (isBetter : Q2BankMaxPartial → Q2BankMaxPartial → Bool) (unicode : UnicodeDigits)
    (maxByBank : MaxByBank) (payload : Bytes) : Except String MaxByBank := do
  let p ← Q2BankMaxPartialSerializer.deserialize payload
  let bankId ← notebookBankId unicode p.bankId
  let p := if bankId ≠ p.bankId then { p with bankId } else p
  return maxByBank.offer isBetter p.bankId p

/-- `results` of a processor of partials. -/
def resultsQ2 (maxByBank : MaxByBank) : Except String (List Bytes) :=
  maxByBank.values.mapM Q2BankMaxPartialSerializer.serialize

namespace Q2AggregatorProcessor

def isBetterQ2Partial : Q2BankMaxPartial → Q2BankMaxPartial → Bool := isBetterQ2

def accept : UnicodeDigits → MaxByBank → Bytes → Except String MaxByBank :=
  acceptQ2 isBetterQ2Partial

def results : MaxByBank → Except String (List Bytes) := resultsQ2

end Q2AggregatorProcessor

namespace Q2JoinerProcessor

def isBetterQ2Partial : Q2BankMaxPartial → Q2BankMaxPartial → Bool := isBetterQ2

def accept : UnicodeDigits → MaxByBank → Bytes → Except String MaxByBank :=
  acceptQ2 isBetterQ2Partial

def results : MaxByBank → Except String (List Bytes) := resultsQ2

end Q2JoinerProcessor

/-! ## One rank for all stages -/

/-- The record of a transaction. -/
def q2Record (unicode : UnicodeDigits) (tx : Transaction) : Except String Q2BankMaxPartial := do
  return ⟨← notebookBankId unicode tx.fromBank, tx.fromAccount, tx.amount, tx.rowNumber⟩

namespace Q2BankMaxPartial

/-- The amount, and below it the earlier row. -/
def rank (p : Q2BankMaxPartial) : Int ×ₗ Natᵒᵈ :=
  toLex (Double.position p.amount, OrderDual.toDual p.rowNumber)

/-- The record fits its fields, its bank is normal, its amount is a number and its row is known. -/
structure Sound (unicode : UnicodeDigits) (p : Q2BankMaxPartial) : Prop where
  normal : notebookBankId unicode p.bankId = .ok p.bankId
  bankId : Fits TransactionSerializer.bankSize p.bankId
  fromAccount : Fits TransactionSerializer.accountSize p.fromAccount
  amount : Double.isNaN p.amount = false
  rowNumber_pos : 0 < p.rowNumber
  rowNumber_lt : p.rowNumber < 2 ^ 64

variable {unicode : UnicodeDigits} {p q : Q2BankMaxPartial}

theorem rank_lt_iff : p.rank < q.rank ↔ Double.position p.amount < Double.position q.amount ∨
    Double.position p.amount = Double.position q.amount ∧ q.rowNumber < p.rowNumber := by
  simp [rank, Prod.Lex.lt_iff]

theorem Sound.isBetterQ2_iff (hp : p.Sound unicode) (hq : q.Sound unicode) :
    isBetterQ2 p q = true ↔ q.rank < p.rank := by
  have heq := Double.eq_iff hp.amount hq.amount
  have hgt := Double.gt_iff hp.amount hq.amount
  have hrows : p.rowNumber ≠ 0 ∧ q.rowNumber ≠ 0 := ⟨hp.rowNumber_pos.ne', hq.rowNumber_pos.ne'⟩
  rw [isBetterQ2, rank_lt_iff]
  by_cases he : Double.eq p.amount q.amount = true
  · have hpos := heq.mp he
    simp [he, hrows, hpos]
  · have hpos : ¬ Double.position q.amount = Double.position p.amount :=
      fun h => he (heq.mpr h.symm)
    simp [he, hgt, hpos]

/-- The bytes of a record that fits its fields. -/
def encoded (p : Q2BankMaxPartial) : Bytes :=
  padded TransactionSerializer.bankSize p.bankId ++
    (padded TransactionSerializer.accountSize p.fromAccount ++
    (beEncode 8 p.amount.toNat ++ beEncode 8 p.rowNumber))

theorem Sound.serialize (hp : p.Sound unicode) :
    Q2BankMaxPartialSerializer.serialize p = .ok p.encoded := by
  rw [Q2BankMaxPartialSerializer.serialize, TransactionSerializer.encodeFixed_of_fits hp.bankId,
    TransactionSerializer.encodeFixed_of_fits hp.fromAccount,
    pack_eq_ok_iff.mpr ⟨hp.rowNumber_lt, rfl⟩]
  simp only [Except.ok_bind, pure, Except.pure, encoded, List.append_assoc]

/-- Decoding undoes encoding. -/
theorem Sound.deserialize_encoded (hp : p.Sound unicode) :
    Q2BankMaxPartialSerializer.deserialize p.encoded = .ok p := by
  have hbank := hp.bankId.length_padded
  have haccount := hp.fromAccount.length_padded
  have hlength : p.encoded.length = Q2BankMaxPartialSerializer.size := by
    simp only [encoded, List.length_append, hbank, haccount, length_beEncode]
    rfl
  have hBank : TransactionSerializer.decodeFixed p.encoded 0 TransactionSerializer.bankSize =
      .ok p.bankId :=
    TransactionSerializer.decodeFixed_of_fits hp.bankId [] _
  have hAccount : TransactionSerializer.decodeFixed p.encoded 16 TransactionSerializer.accountSize =
      .ok p.fromAccount := by
    have h := TransactionSerializer.decodeFixed_of_fits hp.fromAccount
      (padded TransactionSerializer.bankSize p.bankId)
      (beEncode 8 p.amount.toNat ++ beEncode 8 p.rowNumber)
    rwa [hbank] at h
  have hAmount : (p.encoded.drop 48).take 8 = beEncode 8 p.amount.toNat := by
    rw [encoded, ← List.append_assoc]
    exact take_drop_field (by rw [List.length_append, hbank, haccount]; rfl) (length_beEncode _ _)
  have hRow : (p.encoded.drop 56).take 8 = beEncode 8 p.rowNumber := by
    rw [encoded, ← List.append_assoc, ← List.append_assoc,
      ← List.append_nil (beEncode 8 p.rowNumber)]
    exact take_drop_field
      (by rw [List.length_append, List.length_append, hbank, haccount, length_beEncode]; rfl)
      (length_beEncode _ _)
  have hamount : UInt64.ofNat (beDecode (beEncode 8 p.amount.toNat)) = p.amount := by
    rw [beDecode_beEncode p.amount.toNat_lt, UInt64.ofNat_toNat]
  have hrow : beDecode (beEncode 8 p.rowNumber) = p.rowNumber :=
    beDecode_beEncode (show p.rowNumber < 256 ^ 8 from hp.rowNumber_lt)
  rw [Q2BankMaxPartialSerializer.deserialize, Except.raiseIf_of_not (not_not.mpr hlength)]
  simp only [Except.ok_bind, hBank, hAccount, hAmount, hRow, hamount, hrow]
  rfl

end Q2BankMaxPartial

/-! ## The stages -/

/-- The records that are read from a list. -/
def recordsOf {ι : Type} (read : ι → Except String Q2BankMaxPartial) (items : List ι) :
    Set Q2BankMaxPartial :=
  {p | ∃ x ∈ items, read x = .ok p}

/-- A cover of records, by bank. -/
abbrev CoversByBank : Set Q2BankMaxPartial → Set Q2BankMaxPartial → Prop :=
  KeyedCover Q2BankMaxPartial.bankId Q2BankMaxPartial.rank

section stages
variable {unicode : UnicodeDigits} {ι : Type}

/-- A loop that offers the record of every item holds the maxima of the records. -/
private theorem holdsMax_foldlM {read : ι → Except String Q2BankMaxPartial}
    {step : MaxByBank → ι → Except String MaxByBank} {items : List ι}
    (hstep : ∀ d x p, x ∈ items → read x = .ok p → step d x = .ok (d.offer isBetterQ2 p.bankId p))
    (hsound : ∀ x ∈ items, ∃ p, read x = .ok p ∧ p.Sound unicode)
    {d : MaxByBank} {S : Set Q2BankMaxPartial} (hS : ∀ p ∈ S, p.Sound unicode)
    (hd : d.HoldsMax Q2BankMaxPartial.bankId Q2BankMaxPartial.rank S) :
    ∃ d', items.foldlM step d = .ok d' ∧
      d'.HoldsMax Q2BankMaxPartial.bankId Q2BankMaxPartial.rank (S ∪ recordsOf read items) := by
  induction items generalizing d S with
  | nil =>
    refine ⟨d, rfl, ?_⟩
    simpa [recordsOf] using hd
  | cons x items ih =>
    obtain ⟨p, hread, hp⟩ := hsound x List.mem_cons_self
    have hoffer := hd.offer fun q hq => hp.isBetterQ2_iff (hS q hq)
    have hS' : ∀ q ∈ insert p S, q.Sound unicode := by
      intro q hq
      obtain rfl | hq := Set.mem_insert_iff.mp hq
      · exact hp
      · exact hS q hq
    obtain ⟨d', hfold, hd'⟩ := ih (fun d y q hy => hstep d y q (List.mem_cons_of_mem _ hy))
      (fun y hy => hsound y (List.mem_cons_of_mem _ hy)) hS' hoffer
    refine ⟨d', ?_, ?_⟩
    · rw [List.foldlM_cons, hstep d x p List.mem_cons_self hread, Except.ok_bind, hfold]
    · have hset : insert p S ∪ recordsOf read items = S ∪ recordsOf read (x :: items) := by
        ext q
        simp only [recordsOf, Set.mem_union, Set.mem_insert_iff, Set.mem_ofPred_eq, List.mem_cons,
          exists_eq_or_imp, hread, Except.ok.injEq]
        tauto
      exact hset ▸ hd'

/-- From nothing, such a loop ends with the maxima of what was read. -/
private theorem maxima_of_foldlM {read : ι → Except String Q2BankMaxPartial}
    {step : MaxByBank → ι → Except String MaxByBank} {items : List ι}
    (hstep : ∀ d x p, x ∈ items → read x = .ok p → step d x = .ok (d.offer isBetterQ2 p.bankId p))
    (hsound : ∀ x ∈ items, ∃ p, read x = .ok p ∧ p.Sound unicode) :
    ∃ d : MaxByBank, items.foldlM step ∅ = .ok d ∧ (∀ p ∈ d.values, p.Sound unicode) ∧
      d.HoldsMax Q2BankMaxPartial.bankId Q2BankMaxPartial.rank (recordsOf read items) := by
  obtain ⟨d, hfold, hd⟩ := holdsMax_foldlM hstep hsound (fun p hp => absurd hp (Set.notMem_empty p))
    Dict.holdsMax_empty
  rw [Set.empty_union] at hd
  refine ⟨d, hfold, fun p hp => ?_, hd⟩
  obtain ⟨x, hx, hread⟩ := hd.cover.subset hp
  obtain ⟨q, hq, hsq⟩ := hsound x hx
  exact Except.ok.inj (hread.symm.trans hq) ▸ hsq

/-- Payloads that encode the records of `P` are read back as those. -/
private theorem recordsOf_encoded {payloads : List Bytes} {P : Set Q2BankMaxPartial}
    (h : ∀ x, x ∈ payloads ↔ ∃ p ∈ P, p.encoded = x) (hP : ∀ p ∈ P, p.Sound unicode) :
    (∀ x ∈ payloads, ∃ p, Q2BankMaxPartialSerializer.deserialize x = .ok p ∧ p.Sound unicode) ∧
      recordsOf Q2BankMaxPartialSerializer.deserialize payloads = P := by
  constructor
  · intro x hx
    obtain ⟨p, hp, rfl⟩ := (h x).mp hx
    exact ⟨p, (hP p hp).deserialize_encoded, hP p hp⟩
  · ext p
    simp only [recordsOf, Set.mem_ofPred_eq, h]
    constructor
    · rintro ⟨_, ⟨q, hq, rfl⟩, hread⟩
      rw [(hP q hq).deserialize_encoded] at hread
      exact Except.ok.inj hread ▸ hq
    · intro hp
      exact ⟨p.encoded, ⟨p, hp, rfl⟩, (hP p hp).deserialize_encoded⟩

private theorem mapM_deserialize {ps : List Q2BankMaxPartial} (h : ∀ p ∈ ps, p.Sound unicode) :
    (ps.map Q2BankMaxPartial.encoded).mapM Q2BankMaxPartialSerializer.deserialize = .ok ps := by
  induction ps with
  | nil => rfl
  | cons p ps ih =>
    rw [List.map_cons, List.mapM_cons, (h p List.mem_cons_self).deserialize_encoded,
      ih fun q hq => h q (List.mem_cons_of_mem _ hq)]
    rfl

private theorem mapM_serialize {ps : List Q2BankMaxPartial} (h : ∀ p ∈ ps, p.Sound unicode) :
    ps.mapM Q2BankMaxPartialSerializer.serialize = .ok (ps.map Q2BankMaxPartial.encoded) := by
  induction ps with
  | nil => rfl
  | cons p ps ih =>
    rw [List.mapM_cons, (h p List.mem_cons_self).serialize, ih fun q hq =>
      h q (List.mem_cons_of_mem _ hq)]
    rfl

private theorem mapM_partialTuple {ps : List Q2BankMaxPartial} (h : ∀ p ∈ ps, p.Sound unicode) :
    ps.mapM Q2SumProcessor.partialTuple = .ok (ps.map fun p => (p.bankId, p.encoded)) := by
  induction ps with
  | nil => rfl
  | cons p ps ih =>
    rw [List.mapM_cons, Q2SumProcessor.partialTuple, (h p List.mem_cons_self).serialize,
      ih fun q hq => h q (List.mem_cons_of_mem _ hq)]
    rfl

/-- A sum processor's transactions in the order it processes them, and its partials. -/
def sumPartials (unicode : UnicodeDigits) (txs : List Transaction) :
    Except String (List (String × Bytes)) := do
  Q2SumProcessor.partials (← txs.foldlM (Q2SumProcessor.process unicode) ∅)

/-- An aggregator's payloads in the order it accepts them, and its results. -/
def aggregatorResults (unicode : UnicodeDigits) (payloads : List Bytes) :
    Except String (List Bytes) := do
  Q2AggregatorProcessor.results (← payloads.foldlM (Q2AggregatorProcessor.accept unicode) ∅)

/-- The joiner's payloads in the order it accepts them, and its results. -/
def joinerResults (unicode : UnicodeDigits) (payloads : List Bytes) :
    Except String (List Bytes) := do
  Q2JoinerProcessor.results (← payloads.foldlM (Q2JoinerProcessor.accept unicode) ∅)

/-- A sum processor emits a cover of the records of its transactions. -/
theorem sumPartials_spec {txs : List Transaction}
    (hsound : ∀ tx ∈ txs, ∃ p, q2Record unicode tx = .ok p ∧ p.Sound unicode) :
    ∃ ps : List Q2BankMaxPartial, sumPartials unicode txs = .ok (ps.map fun p =>
      (p.bankId, p.encoded)) ∧
      (∀ p ∈ ps, p.Sound unicode) ∧ CoversByBank {p | p ∈ ps}
      (recordsOf (q2Record unicode) txs) := by
  have hstep : ∀ (d : MaxByBank) tx p, tx ∈ txs → q2Record unicode tx = .ok p →
      Q2SumProcessor.process unicode d tx = .ok (d.offer isBetterQ2 p.bankId p) := by
    intro d tx p _ hread
    obtain ⟨bankId, hbank, h⟩ := Except.ok_of_bind hread
    cases h
    rw [Q2SumProcessor.process, hbank]
    rfl
  obtain ⟨d, hfold, hvalues, hd⟩ := maxima_of_foldlM hstep hsound
  refine ⟨d.values, ?_, hvalues, hd.cover⟩
  rw [sumPartials, hfold, Except.ok_bind, Q2SumProcessor.partials, mapM_partialTuple hvalues]

/-- A stage of partials holds the maxima of what it accepts, and emits them. -/
private theorem accept_spec {payloads : List Bytes}
    (hsound : ∀ x ∈ payloads, ∃ p, Q2BankMaxPartialSerializer.deserialize x = .ok p ∧
      p.Sound unicode) :
    ∃ d : MaxByBank, payloads.foldlM (acceptQ2 isBetterQ2 unicode) ∅ = .ok d ∧
      resultsQ2 d = .ok (d.values.map Q2BankMaxPartial.encoded) ∧
      (∀ p ∈ d.values, p.Sound unicode) ∧
      d.HoldsMax Q2BankMaxPartial.bankId Q2BankMaxPartial.rank
        (recordsOf Q2BankMaxPartialSerializer.deserialize payloads) := by
  have hstep : ∀ (d : MaxByBank) x p, x ∈ payloads →
      Q2BankMaxPartialSerializer.deserialize x = .ok p →
      acceptQ2 isBetterQ2 unicode d x = .ok (d.offer isBetterQ2 p.bankId p) := by
    intro d x p hx hread
    obtain ⟨q, hq, hsq⟩ := hsound x hx
    obtain rfl := Except.ok.inj (hread.symm.trans hq)
    rw [acceptQ2, hread, Except.ok_bind, hsq.normal, Except.ok_bind, if_neg (not_not.mpr rfl)]
    rfl
  obtain ⟨d, hfold, hvalues, hd⟩ := maxima_of_foldlM hstep hsound
  exact ⟨d, hfold, mapM_serialize hvalues, hvalues, hd⟩

end stages

/-! ## The whole reduction -/

/-- A transaction with a normal bank, an amount that is a number and a row number, whose text fits
the fields of a partial. The fields are padded with NUL, so text that ends in NUL does not fit. -/
structure Transaction.FitsQ2 (unicode : UnicodeDigits) (tx : Transaction) : Prop where
  bank : ∃ bank, notebookBankId unicode tx.fromBank = .ok bank ∧
    Fits TransactionSerializer.bankSize bank
  fromAccount : Fits TransactionSerializer.accountSize tx.fromAccount
  amount : Double.isNaN tx.amount = false
  rowNumber_pos : 0 < tx.rowNumber
  rowNumber_lt : tx.rowNumber < 2 ^ 64

/-- One record for each normal source bank: the one with the greatest amount and, among those, the
smallest row number. -/
structure IsQ2Answer (unicode : UnicodeDigits) (txs : List Transaction)
    (records : List Q2BankMaxPartial) :
    Prop where
  one : (records.map Q2BankMaxPartial.bankId).Nodup
  every : ∀ tx ∈ txs, ∃ r ∈ records, notebookBankId unicode tx.fromBank = .ok r.bankId
  largest : ∀ r ∈ records, ∃ tx ∈ txs, q2Record unicode tx = .ok r ∧
    ∀ tx' ∈ txs, notebookBankId unicode tx'.fromBank = .ok r.bankId → tx' ≠ tx →
      Double.gt tx.amount tx'.amount = true ∨
        Double.eq tx.amount tx'.amount = true ∧ tx.rowNumber < tx'.rowNumber

section answer
variable {unicode : UnicodeDigits} {txs : List Transaction}

theorem q2Record_eq_ok_iff {tx : Transaction} {p : Q2BankMaxPartial} :
    q2Record unicode tx = .ok p ↔ notebookBankId unicode tx.fromBank = .ok p.bankId ∧
      p.fromAccount = tx.fromAccount ∧ p.amount = tx.amount ∧ p.rowNumber = tx.rowNumber := by
  rw [q2Record]
  cases notebookBankId unicode tx.fromBank with
  | error e => simp [bind, Except.bind]
  | ok bank =>
    obtain ⟨b, a, m, r⟩ := p
    simp only [Except.ok_bind, pure, Except.pure, Except.ok.injEq, Q2BankMaxPartial.mk.injEq]
    constructor <;> rintro ⟨h₁, h₂, h₃, h₄⟩ <;> exact ⟨h₁, h₂.symm, h₃.symm, h₄.symm⟩

theorem Transaction.FitsQ2.sound (hu : unicode.ExtendsAscii) {tx : Transaction}
    (h : tx.FitsQ2 unicode) :
    ∃ p, q2Record unicode tx = .ok p ∧ p.Sound unicode := by
  obtain ⟨bank, hbank, hfits⟩ := h.bank
  exact ⟨⟨bank, tx.fromAccount, tx.amount, tx.rowNumber⟩,
    q2Record_eq_ok_iff.mpr ⟨hbank, rfl, rfl, rfl⟩,
    notebookBankId_idem hu hbank, hfits, h.fromAccount, h.amount, h.rowNumber_pos, h.rowNumber_lt⟩

/-- A dictionary that holds maxima of a cover of the records holds the answer. -/
private theorem isQ2Answer_of_holdsMax (hfits : ∀ tx ∈ txs, tx.FitsQ2 unicode)
    (hrows : (txs.map Transaction.rowNumber).Nodup) {d : MaxByBank} {C : Set Q2BankMaxPartial}
    (hcover : CoversByBank C (recordsOf (q2Record unicode) txs))
    (hd : d.HoldsMax Q2BankMaxPartial.bankId Q2BankMaxPartial.rank C) :
    IsQ2Answer unicode txs d.values where
  one := hd.nodup_keys
  every tx htx := by
    obtain ⟨bank, hbank, -⟩ := (hfits tx htx).bank
    obtain ⟨r, hr, hkey, -⟩ := (hd.cover.trans hcover).above
      ⟨bank, tx.fromAccount, tx.amount, tx.rowNumber⟩
      ⟨tx, htx, q2Record_eq_ok_iff.mpr ⟨hbank, rfl, rfl, rfl⟩⟩
    exact ⟨r, hr, by rw [hkey, hbank]⟩
  largest r hr := by
    obtain ⟨k, hk⟩ := Dict.mem_values_iff.mp hr
    have hmax := (hd.isKeyedMax hk).2.of_cover hcover
    obtain ⟨tx, htx, hread⟩ := hmax.1
    refine ⟨tx, htx, hread, fun tx' htx' hbank hne => ?_⟩
    obtain ⟨-, -, hamount, hrow⟩ := q2Record_eq_ok_iff.mp hread
    have hle := hmax.2 ⟨r.bankId, tx'.fromAccount, tx'.amount, tx'.rowNumber⟩
      ⟨tx', htx', q2Record_eq_ok_iff.mpr ⟨hbank, rfl, rfl, rfl⟩⟩ rfl
    rw [Double.gt_iff (hfits tx htx).amount (hfits tx' htx').amount,
      Double.eq_iff (hfits tx htx).amount (hfits tx' htx').amount]
    have hrow' : tx'.rowNumber ≠ tx.rowNumber := fun h =>
      hne (List.inj_on_of_nodup_map hrows htx' htx h)
    have hnot := not_lt.mpr hle
    rw [Q2BankMaxPartial.rank_lt_iff, hamount, hrow] at hnot
    simp only at hnot
    omega

end answer

/-- However the transactions are partitioned among sum processors, their partials routed by key to
aggregator shards and the results to one joiner, and in whatever order each processor takes its
input, the joiner ends with the largest transfer of every bank. -/
theorem q2_maximum_of_every_bank (unicode : UnicodeDigits) (hu : unicode.ExtendsAscii)
    (txs : List Transaction) (hfits : ∀ tx ∈ txs, tx.FitsQ2 unicode)
    (hrows : (txs.map Transaction.rowNumber).Nodup)
    (sums : Nat) (processed : Fin sums → List Transaction)
    (hprocessed : ((List.finRange sums).flatMap processed).Perm txs) :
    ∃ partials : Fin sums → List (String × Bytes),
      (∀ i, sumPartials unicode (processed i) = .ok (partials i)) ∧
      ∀ (shards : Nat) (route : String → Fin shards) (received : Fin shards → List Bytes),
        (∀ j, (received j).Perm
          ((((List.finRange sums).flatMap partials).filter fun e => route e.1 = j).map Prod.snd)) →
        ∃ results : Fin shards → List Bytes,
          (∀ j, aggregatorResults unicode (received j) = .ok (results j)) ∧
          ∀ joined : List Bytes, joined.Perm ((List.finRange shards).flatMap results) →
            ∃ payloads records, joinerResults unicode joined = .ok payloads ∧
              payloads.mapM Q2BankMaxPartialSerializer.deserialize = .ok records ∧
              IsQ2Answer unicode txs records := by
  have hsound : ∀ i, ∀ tx ∈ processed i, ∃ p, q2Record unicode tx = .ok p ∧ p.Sound unicode := by
    intro i tx htx
    have hmem : tx ∈ txs :=
      hprocessed.mem_iff.mp (List.mem_flatMap.mpr ⟨i, List.mem_finRange i, htx⟩)
    exact (hfits tx hmem).sound hu
  choose held hpartials hheld hsums using fun i => sumPartials_spec (hsound i)
  refine ⟨fun i => (held i).map fun p => (p.bankId, p.encoded), hpartials, ?_⟩
  intro shards route received hreceived
  -- what the shards receive is what the sum processors emitted
  have hreceived : ∀ j x, x ∈ received j ↔
      ∃ p ∈ {p | route p.bankId = j ∧ ∃ i, p ∈ held i}, p.encoded = x := by
    intro j x
    rw [(hreceived j).mem_iff]
    simp only [List.mem_map, List.mem_filter, List.mem_flatMap, List.mem_finRange,
      true_and, Prod.exists, Prod.mk.injEq, decide_eq_true_eq, Set.mem_ofPred_eq]
    constructor
    · rintro ⟨_, _, ⟨⟨i, p, hp, rfl, rfl⟩, hroute⟩, rfl⟩
      exact ⟨p, ⟨hroute, i, hp⟩, rfl⟩
    · rintro ⟨p, ⟨hroute, i, hp⟩, rfl⟩
      exact ⟨p.bankId, p.encoded, ⟨⟨i, p, hp, rfl, rfl⟩, hroute⟩, rfl⟩
  have hread j := recordsOf_encoded (hreceived j) fun p ⟨_, i, hp⟩ => hheld i p hp
  choose d hfold hresults hvalues hmax using fun j => accept_spec (hread j).1
  refine ⟨fun j => (d j).values.map Q2BankMaxPartial.encoded, fun j => ?_, fun joined hjoined => ?_⟩
  · rw [aggregatorResults]
    exact (congrArg (· >>= _) (hfold j)).trans (hresults j)
  -- what the joiner receives is what the shards emitted
  have hjoined : ∀ x, x ∈ joined ↔ ∃ p ∈ ⋃ j, {p | p ∈ (d j).values}, p.encoded = x := by
    intro x
    rw [hjoined.mem_iff]
    simp only [List.mem_flatMap, List.mem_finRange, true_and, List.mem_map, Set.mem_iUnion,
      Set.mem_ofPred_eq]
    constructor
    · rintro ⟨j, p, hp, rfl⟩
      exact ⟨p, ⟨j, hp⟩, rfl⟩
    · rintro ⟨p, ⟨j, hp⟩, rfl⟩
      exact ⟨j, p, hp, rfl⟩
  have hreadJoined := recordsOf_encoded hjoined fun p hp => by
    obtain ⟨j, hp⟩ := Set.mem_iUnion.mp hp
    exact hvalues j p hp
  obtain ⟨e, hfoldJoined, hresultsJoined, hvaluesJoined, hmaxJoined⟩ := accept_spec hreadJoined.1
  refine ⟨e.values.map Q2BankMaxPartial.encoded, e.values, ?_, mapM_deserialize hvaluesJoined, ?_⟩
  · rw [joinerResults]
    exact (congrArg (· >>= _) hfoldJoined).trans hresultsJoined
  rw [hreadJoined.2] at hmaxJoined
  -- the shards' results cover the partials, and these cover the transactions
  have hshards : CoversByBank (⋃ j, {p | p ∈ (d j).values}) (⋃ i, {p | p ∈ held i}) := by
    have hcover := KeyedCover.iUnion fun j => (hmax j).cover
    have hall : (⋃ j, recordsOf Q2BankMaxPartialSerializer.deserialize (received j)) =
        ⋃ i, {p | p ∈ held i} := by
      ext p
      simp [(hread _).2]
    exact hall ▸ hcover
  have htransactions : CoversByBank (⋃ i, {p | p ∈ held i}) (recordsOf (q2Record unicode) txs) := by
    have hcover := KeyedCover.iUnion hsums
    have hall : (⋃ i, recordsOf (q2Record unicode) (processed i)) =
        recordsOf (q2Record unicode) txs := by
      ext p
      simp only [recordsOf, Set.mem_iUnion, Set.mem_ofPred_eq, ← hprocessed.mem_iff,
        List.mem_flatMap, List.mem_finRange, true_and]
      constructor
      · rintro ⟨i, tx, htx, hp⟩
        exact ⟨tx, ⟨i, htx⟩, hp⟩
      · rintro ⟨tx, ⟨i, htx⟩, hp⟩
        exact ⟨i, tx, htx, hp⟩
    exact hall ▸ hcover
  exact isQ2Answer_of_holdsMax hfits hrows (hshards.trans htransactions) hmaxJoined

/-- The digits of ASCII. -/
def asciiDigits : UnicodeDigits where
  isDigit := Char.isDigit
  decimal? c := if c.isDigit then some (c.toNat - 48) else none

theorem asciiDigits_extendsAscii : asciiDigits.ExtendsAscii where
  isDigit _ h := h
  decimal? _ h := if_pos h

/-- A transfer of `100.0`. -/
def transfer (fromBank fromAccount : String) (rowNumber : Nat) : Transaction :=
  ⟨"2022/09/01 00:00", fromBank, fromAccount, "999", "target", 0x4059000000000000, "US Dollar",
    "ACH", rowNumber⟩

def transfers : List Transaction := [transfer "001" "later" 20, transfer "1" "earlier" 10]

private theorem fitsQ2_transfers : ∀ tx ∈ transfers, tx.FitsQ2 asciiDigits := by
  have hbank : ∀ tx ∈ transfers, notebookBankId asciiDigits tx.fromBank = .ok "1" := by
    decide +kernel
  have hlength : ∀ tx ∈ transfers, (encodeText tx.fromAccount).length ≤
      TransactionSerializer.accountSize := by
    decide +kernel
  have hlast : ∀ tx ∈ transfers, tx.fromAccount.toList.getLast? = some 'r' := by decide +kernel
  intro tx htx
  have hrest : Double.isNaN tx.amount = false ∧ 0 < tx.rowNumber ∧ tx.rowNumber < 2 ^ 64 := by
    revert tx
    decide +kernel
  refine ⟨⟨"1", hbank tx htx, by decide +kernel, fun c hc => ?_⟩, ⟨hlength tx htx, fun c hc => ?_⟩,
    hrest.1, hrest.2.1, hrest.2.2⟩
  · have h : "1".toList.getLast? = some '1' := by decide +kernel
    cases h.symm.trans hc
    decide
  · cases (hlast tx htx).symm.trans hc
    decide

/-- Two transfers of one bank, on two sum processors and one shard. -/
theorem q2_maximum_of_two_transfers : ∃ joined payloads records,
    joinerResults asciiDigits joined = .ok payloads ∧
      payloads.mapM Q2BankMaxPartialSerializer.deserialize = .ok records ∧
      IsQ2Answer asciiDigits transfers records := by
  obtain ⟨partials, -, hshards⟩ :=
    q2_maximum_of_every_bank asciiDigits asciiDigits_extendsAscii transfers
    fitsQ2_transfers (by decide +kernel) 2 (fun i => [transfers.get i]) (by rfl)
  obtain ⟨results, -, hjoiner⟩ := hshards 1 (fun _ => 0)
    (fun _ => ((List.finRange 2).flatMap partials).map Prod.snd)
    (fun j => by simp [Subsingleton.elim 0 j])
  obtain ⟨payloads, records, h⟩ := hjoiner _ (List.Perm.refl _)
  exact ⟨_, payloads, records, h⟩

end MoneyLaundering
