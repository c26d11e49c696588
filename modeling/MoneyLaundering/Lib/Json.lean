import MoneyLaundering.Lib.Bytes
import MoneyLaundering.Lib.Dict
import MoneyLaundering.Lib.SelfDelimiting

/-!
# JSON

The text that `json.dumps` writes for a tree of built-in values, and the reader of such texts,
`json.loads`. Reading back is not always the identity: a tuple comes back as a list, a number used
as a key comes back as text, and bytes are not written at all. `loads_dumps` says what any tree that
can be written comes back as, and `loads_dumps_of_native` that a tree of lists, numbers and texts
under text keys comes back as it was. Fractions are left out.
-/

namespace Json

/-- A key of a dictionary. -/
inductive Key where
  | str (s : String)
  | int (n : Int)
  deriving DecidableEq

/-- A tree of built-in values. The entries of a dictionary are in insertion order. -/
inductive Value where
  | null
  | bool (b : Bool)
  | int (n : Int)
  | str (s : String)
  | bytes (bs : Bytes)
  | list (vs : List Value)
  | tuple (vs : List Value)
  | dict (es : List (Key × Value))

/-! ## Strings -/

/-- The 16 digits. -/
def hexDigits : List Char := "0123456789abcdef".toList

def hexDigit (n : Nat) : Char := hexDigits.getD n '0'

/-- The number a digit of either case stands for. -/
def hexValue? (c : Char) : Option Nat := hexDigits.findIdx? (· == c.toLower)

theorem hexValue?_hexDigit {n : Nat} (h : n < 16) : hexValue? (hexDigit n) = some n := by
  have hall : ∀ i : Fin 16, hexValue? (hexDigit i) = some i.val := by decide +kernel
  exact hall ⟨n, h⟩

/-- Four digits. -/
def hex4 (n : Nat) : List Char :=
  [hexDigit (n / 4096 % 16), hexDigit (n / 256 % 16), hexDigit (n / 16 % 16), hexDigit (n % 16)]

def readHex4 : List Char → Option (Nat × List Char)
  | a :: b :: c :: d :: rest => do
    let a ← hexValue? a
    let b ← hexValue? b
    let c ← hexValue? c
    let d ← hexValue? d
    return (a * 4096 + b * 256 + c * 16 + d, rest)
  | _ => none

theorem readHex4_append {n : Nat} (h : n < 65536) (rest : List Char) :
    readHex4 (hex4 n ++ rest) = some (n, rest) := by
  have hval : ∀ m, hexValue? (hexDigit (m % 16)) = some (m % 16) := fun m =>
    hexValue?_hexDigit (Nat.mod_lt m (by decide))
  have hsum : n / 4096 % 16 * 4096 + n / 256 % 16 * 256 + n / 16 % 16 * 16 + n % 16 = n := by omega
  simp only [hex4, List.cons_append, List.nil_append, readHex4, hval, Option.bind_eq_bind,
    Option.bind_some, hsum]
  rfl

/-- `\uXXXX`. -/
def unicodeEscape (n : Nat) : List Char := '\\' :: 'u' :: hex4 n

/-- The characters with an escape of two characters. -/
def shortEscapes : List (Char × Char) :=
  [('"', '"'), ('\\', '\\'), ('\n', 'n'), ('\r', 'r'), ('\t', 't'), ('\x0c', 'f'), ('\x08', 'b')]

/-- One character of a string, in printable ASCII. A character above `U+FFFF` is written as two
surrogates. -/
def escape (c : Char) : List Char :=
  match shortEscapes.find? fun e => e.1 == c with
  | some e => ['\\', e.2]
  | none =>
    if 32 ≤ c.toNat ∧ c.toNat < 127 then [c]
    else if c.toNat < 0x10000 then unicodeEscape c.toNat
    else unicodeEscape (0xd800 + (c.toNat - 0x10000) / 1024) ++
      unicodeEscape (0xdc00 + (c.toNat - 0x10000) % 1024)

/-- What follows `\u`. A surrogate without its other half is no character. -/
def readUnicode (cs : List Char) : Option (Char × List Char) := do
  let (unit, rest) ← readHex4 cs
  if 0xd800 ≤ unit ∧ unit < 0xdc00 then
    match rest with
    | '\\' :: 'u' :: rest => do
      let (low, rest) ← readHex4 rest
      if 0xdc00 ≤ low ∧ low < 0xe000 then
        return (Char.ofNat (0x10000 + (unit - 0xd800) * 1024 + (low - 0xdc00)), rest)
      else none
    | _ => none
  else if unit.isValidChar then return (Char.ofNat unit, rest)
  else none

/-- One character of a string. Control characters have to be escaped. -/
def readChar : List Char → Option (Char × List Char)
  | [] => none
  | '\\' :: [] => none
  | '\\' :: 'u' :: rest => readUnicode rest
  | '\\' :: e :: rest =>
    ((('/', '/') :: shortEscapes).find? fun p => p.2 == e).map fun p => (p.1, rest)
  | c :: rest => if c.toNat < 32 then none else some (c, rest)

theorem readUnicode_unit {n : Nat} (h : n < 0x10000) (hv : n.isValidChar) (rest : List Char) :
    readUnicode (hex4 n ++ rest) = some (Char.ofNat n, rest) := by
  have hsur : ¬ (0xd800 ≤ n ∧ n < 0xdc00) := by
    rcases hv with hv | hv <;> omega
  rw [readUnicode, readHex4_append h]
  simp only [Option.bind_eq_bind, Option.bind_some, if_neg hsur, if_pos hv]
  rfl

theorem readUnicode_surrogates {n : Nat} (h : n < 0x100000) (rest : List Char) :
    readUnicode (hex4 (0xd800 + n / 1024) ++ (unicodeEscape (0xdc00 + n % 1024) ++ rest)) =
      some (Char.ofNat (0x10000 + n), rest) := by
  have hhigh : 0xd800 ≤ 0xd800 + n / 1024 ∧ 0xd800 + n / 1024 < 0xdc00 := by omega
  have hlow : 0xdc00 ≤ 0xdc00 + n % 1024 ∧ 0xdc00 + n % 1024 < 0xe000 := by omega
  have hsum : 0x10000 + (0xd800 + n / 1024 - 0xd800) * 1024 + (0xdc00 + n % 1024 - 0xdc00) =
      0x10000 + n := by
    omega
  rw [readUnicode, readHex4_append (by omega)]
  simp only [Option.bind_eq_bind, Option.bind_some, if_pos hhigh, unicodeEscape, List.cons_append]
  rw [readHex4_append (by omega)]
  simp only [Option.bind_some, if_pos hlow, hsum]
  rfl

/-- An escaped character is read as it was. -/
theorem readChar_escape (c : Char) (rest : List Char) :
    readChar (escape c ++ rest) = some (c, rest) := by
  unfold escape
  split
  · next e he =>
    have hc : e.1 = c := by simpa using List.find?_some he
    have hall : ∀ p ∈ shortEscapes, p.2 ≠ 'u' ∧
        ((('/', '/') :: shortEscapes).find? fun p' => p'.2 == p.2) = some p := by decide
    obtain ⟨hu, hfind⟩ := hall e (List.mem_of_find?_eq_some he)
    rw [← hc, List.cons_append, List.cons_append, List.nil_append, readChar]
    · rw [hfind]
      rfl
    · exact hu
  · next hnone =>
    have hno : ∀ p ∈ shortEscapes, p.1 ≠ c := by simpa using List.find?_eq_none.mp hnone
    have hback : c ≠ '\\' := fun h => hno ('\\', '\\') (by decide) h.symm
    split
    · next hr =>
      rw [List.cons_append, List.nil_append, readChar]
      · rw [if_neg (by omega)]
      · exact fun h _ => hback h
      · exact fun _ h _ => hback h
      · exact fun _ _ h _ => hback h
    · split
      · next hlt =>
        rw [unicodeEscape, List.cons_append, List.cons_append, readChar,
          readUnicode_unit hlt c.valid, Char.ofNat_toNat]
      · next hge =>
        have hmax : c.toNat < 0x110000 := by
          rcases c.valid with hv | hv
          · exact Nat.lt_trans hv (by decide)
          · exact hv.2
        rw [unicodeEscape, List.append_assoc, List.cons_append, List.cons_append, readChar,
          readUnicode_surrogates (by omega), show 0x10000 + (c.toNat - 0x10000) = c.toNat by omega,
          Char.ofNat_toNat]

/-- No escaped character begins with the quote that ends a string. -/
theorem head?_escape (c : Char) : (escape c).head? ≠ some '"' := by
  unfold escape
  split
  · simp
  · next hnone =>
    have hno : ∀ p ∈ shortEscapes, p.1 ≠ c := by simpa using List.find?_eq_none.mp hnone
    split
    · have hquote : c ≠ '"' := fun h => hno ('"', '"') (by decide) h.symm
      simpa using hquote
    · split <;> simp [unicodeEscape]

theorem reads_escape : SelfDelimiting.Reads escape readChar where
  read_append := readChar_escape
  ne_nil c h := by
    have := readChar_escape c []
    rw [h] at this
    cases this

/-- A string between quotes. -/
def quote (s : String) : List Char := '"' :: s.toList.flatMap escape ++ ['"']

/-- The rest of a string, after its first quote. -/
def readString (cs : List Char) : Option (String × List Char) :=
  (SelfDelimiting.readUntil '"' readChar cs.length cs).map fun (s, rest) => (String.ofList s, rest)

theorem readString_append (s : String) (rest : List Char) :
    readString (s.toList.flatMap escape ++ '"' :: rest) = some (s, rest) := by
  have hlen := reads_escape.length_le s.toList
  rw [readString, reads_escape.readUntil_flatMap head?_escape
    (by rw [List.length_append, List.length_cons]; omega), Option.map_some]
  exact congrArg (fun s => some (s, rest)) String.ofList_toList

/-! ## Numbers, literals and space -/

def intText : Int → List Char
  | .ofNat n => Text.ofNat n
  | .negSucc n => '-' :: Text.ofNat (n + 1)

/-- A number with no zeros in front. -/
def readNat (cs : List Char) : Option (Nat × List Char) := do
  let digits := cs.takeWhile Char.isDigit
  let n ← Text.toNat? digits
  if Text.ofNat n = digits then return (n, cs.dropWhile Char.isDigit) else none

def readInt : List Char → Option (Int × List Char)
  | '-' :: cs => (readNat cs).map fun (n, rest) => (-(n : Int), rest)
  | cs => (readNat cs).map fun (n, rest) => ((n : Int), rest)

/-- A text that a number can stand before. -/
def Ends (rest : List Char) : Prop := ∀ c, rest.head? = some c → c.isDigit = false

theorem readNat_append (n : Nat) {rest : List Char} (h : Ends rest) :
    readNat (Text.ofNat n ++ rest) = some (n, rest) := by
  have hdigits : ∀ c ∈ Text.ofNat n, c.isDigit = true := fun _ hc => Text.isDigit_of_mem_ofNat hc
  have hrest : rest.takeWhile Char.isDigit = [] ∧ rest.dropWhile Char.isDigit = rest := by
    cases rest with
    | nil => exact ⟨rfl, rfl⟩
    | cons c rest => simp [h c rfl]
  rw [readNat, List.takeWhile_append_of_pos hdigits, List.dropWhile_append_of_pos hdigits,
    hrest.1, hrest.2, List.append_nil, Text.toNat?_ofNat]
  simp

theorem readInt_append (n : Int) {rest : List Char} (h : Ends rest) :
    readInt (intText n ++ rest) = some (n, rest) := by
  cases n with
  | ofNat n =>
    have hminus : ∀ cs, Text.ofNat n ++ rest ≠ '-' :: cs := by
      intro cs heq
      have hne : Text.ofNat n ≠ [] := Nat.toDigits_ne_nil
      obtain ⟨d, ds, hd⟩ := List.exists_cons_of_ne_nil hne
      rw [hd, List.cons_append] at heq
      have hdigit := Text.isDigit_of_mem_ofNat (hd ▸ List.mem_cons_self : d ∈ Text.ofNat n)
      rw [(List.cons.inj heq).1] at hdigit
      cases hdigit
    rw [intText, readInt, readNat_append n h]
    · rfl
    · exact hminus
  | negSucc n =>
    rw [intText, List.cons_append, readInt, readNat_append (n + 1) h]
    rfl

/-- The words. -/
def literals : List (List Char × Value) :=
  [("null".toList, .null), ("true".toList, .bool true), ("false".toList, .bool false)]

def readLiteral (cs : List Char) : Option (Value × List Char) :=
  literals.findSome? fun (word, v) =>
    if word.isPrefixOf cs then some (v, cs.drop word.length) else none

def skipSpace (cs : List Char) : List Char := cs.dropWhile [' ', '\t', '\n', '\r'].contains

/-! ## Writing -/

/-- A key as text. -/
def Key.text : Key → String
  | .str s => s
  | .int n => String.ofList (intText n)

mutual

def dumps : Value → Except String (List Char)
  | .null => .ok "null".toList
  | .bool true => .ok "true".toList
  | .bool false => .ok "false".toList
  | .int n => .ok (intText n)
  | .str s => .ok (quote s)
  | .bytes _ => .error "Object of type bytes is not JSON serializable"
  | .list vs => do return '[' :: (← dumpsItems vs) ++ [']']
  | .tuple vs => do return '[' :: (← dumpsItems vs) ++ [']']
  | .dict es => do return '{' :: (← dumpsFields es) ++ ['}']

def dumpsItems : List Value → Except String (List Char)
  | [] => .ok []
  | [v] => dumps v
  | v :: w :: vs => do return (← dumps v) ++ ',' :: ' ' :: (← dumpsItems (w :: vs))

def dumpsFields : List (Key × Value) → Except String (List Char)
  | [] => .ok []
  | [(k, v)] => do return quote k.text ++ ':' :: ' ' :: (← dumps v)
  | (k, v) :: e :: es => do
    return quote k.text ++ ':' :: ' ' :: (← dumps v) ++ ',' :: ' ' :: (← dumpsFields (e :: es))

end

/-! ## Reading -/

/-- `dict(pairs)`. -/
def ofPairs (pairs : List (Key × Value)) : Value := .dict (Dict.ofList pairs).entries

mutual

def readValue : Nat → List Char → Option (Value × List Char)
  | 0, _ => none
  | _ + 1, [] => none
  | fuel + 1, c :: rest =>
    if c = '"' then (readString rest).map fun (s, rest) => (.str s, rest)
    else if c = '[' then
      match skipSpace rest with
      | ']' :: rest => some (.list [], rest)
      | rest => (readItems fuel rest).map fun (vs, rest) => (.list vs, rest)
    else if c = '{' then
      match skipSpace rest with
      | '}' :: rest => some (.dict [], rest)
      | rest => (readFields fuel rest).map fun (es, rest) => (ofPairs es, rest)
    else readLiteral (c :: rest) <|> (readInt (c :: rest)).map fun (n, rest) => (.int n, rest)

/-- The items of a list up to its end. -/
def readItems : Nat → List Char → Option (List Value × List Char)
  | 0, _ => none
  | fuel + 1, cs => do
    let (v, rest) ← readValue fuel cs
    match skipSpace rest with
    | ']' :: rest => return ([v], rest)
    | ',' :: rest => do
      let (vs, rest) ← readItems fuel (skipSpace rest)
      return (v :: vs, rest)
    | _ => none

/-- The fields of a dictionary up to its end. -/
def readFields : Nat → List Char → Option (List (Key × Value) × List Char)
  | 0, _ => none
  | fuel + 1, '"' :: cs => do
    let (k, rest) ← readString cs
    match skipSpace rest with
    | ':' :: rest => do
      let (v, rest) ← readValue fuel (skipSpace rest)
      match skipSpace rest with
      | '}' :: rest => return ([(.str k, v)], rest)
      | ',' :: rest => do
        let (es, rest) ← readFields fuel (skipSpace rest)
        return ((.str k, v) :: es, rest)
      | _ => none
    | _ => none
  | _ + 1, _ => none

end

/-- The value of a whole text. Every list, every dictionary and every item costs one step, so twice
the length is enough. -/
def loads (cs : List Char) : Option Value := do
  let (v, rest) ← readValue (2 * cs.length) (skipSpace cs)
  if skipSpace rest = [] then return v else none

/-! ## What a value comes back as -/

mutual

/-- The value with lists for tuples and texts for keys. -/
def norm : Value → Value
  | .null => .null
  | .bool b => .bool b
  | .int n => .int n
  | .str s => .str s
  | .bytes bs => .bytes bs
  | .list vs => .list (normItems vs)
  | .tuple vs => .list (normItems vs)
  | .dict es => ofPairs (normFields es)

def normItems : List Value → List Value
  | [] => []
  | v :: vs => norm v :: normItems vs

def normFields : List (Key × Value) → List (Key × Value)
  | [] => []
  | (k, v) :: es => (.str k.text, norm v) :: normFields es

end

/-! ## Round trip -/

/-- A text that begins with neither space nor the end of a list or dictionary. -/
def Opens (cs : List Char) : Prop := ∃ c rest, cs = c :: rest ∧
    c ∉ [' ', '\t', '\n', '\r', ']', '}']

theorem Opens.append {cs : List Char} (h : Opens cs) (rest : List Char) : Opens (cs ++ rest) := by
  obtain ⟨c, cs', rfl, hc⟩ := h
  exact ⟨c, cs' ++ rest, rfl, hc⟩

theorem Opens.skipSpace {cs : List Char} (h : Opens cs) : skipSpace cs = cs := by
  obtain ⟨c, rest, rfl, hc⟩ := h
  refine List.dropWhile_cons_of_neg ?_
  simp only [List.mem_cons, not_or] at hc
  simp [hc]

theorem Opens.ne_cons {cs rest : List Char} {c : Char} (h : Opens cs)
    (hc : c ∈ [' ', '\t', '\n', '\r', ']', '}']) : cs ≠ c :: rest := by
  obtain ⟨c', rest', rfl, hc'⟩ := h
  rintro heq
  exact hc' ((List.cons.inj heq).1 ▸ hc)

theorem opens_cons {c : Char} {rest : List Char} (hc : c ∉ [' ', '\t', '\n', '\r', ']', '}']) :
    Opens (c :: rest) := ⟨c, rest, rfl, hc⟩

theorem ends_cons {c : Char} {rest : List Char} (hc : c.isDigit = false) : Ends (c :: rest) := by
  rintro c' ⟨⟩
  exact hc

/-- The separators that are written. -/
theorem skipSpace_comma (rest : List Char) : skipSpace (',' :: rest) = ',' :: rest := rfl

theorem skipSpace_colon (rest : List Char) : skipSpace (':' :: rest) = ':' :: rest := rfl

theorem skipSpace_space {cs : List Char} (h : Opens cs) : skipSpace (' ' :: cs) = cs := h.skipSpace

theorem opens_of_isDigit {c : Char} {rest : List Char} (hc : c.isDigit = true) :
    Opens (c :: rest) := by
  refine opens_cons fun hm => ?_
  have hall : ∀ c ∈ [' ', '\t', '\n', '\r', ']', '}'], c.isDigit = false := by simp [Char.isDigit]
  rw [hall c hm] at hc
  cases hc

theorem exists_digit (n : Nat) : ∃ c rest, Text.ofNat n = c :: rest ∧ c.isDigit = true := by
  obtain ⟨c, rest, h⟩ := List.exists_cons_of_ne_nil (Nat.toDigits_ne_nil : Text.ofNat n ≠ [])
  exact ⟨c, rest, h, Text.isDigit_of_mem_ofNat (h ▸ List.mem_cons_self)⟩

theorem opens_dumps {v : Value} {t : List Char} (h : dumps v = .ok t) : Opens t := by
  cases v with
  | null => cases h; exact opens_cons (by decide)
  | bool b => cases b <;> cases h <;> exact opens_cons (by decide)
  | int n =>
    cases h
    cases n with
    | ofNat n =>
      obtain ⟨c, rest, hn, hc⟩ := exists_digit n
      rw [intText, hn]
      exact opens_of_isDigit hc
    | negSucc n => exact opens_cons (by decide)
  | str s => cases h; exact opens_cons (by decide)
  | bytes bs => cases h
  | list vs | tuple vs =>
    obtain ⟨items, -, h⟩ := Except.ok_of_bind h
    cases h
    exact opens_cons (by decide)
  | dict es =>
    obtain ⟨fields, -, h⟩ := Except.ok_of_bind h
    cases h
    exact opens_cons (by decide)

theorem opens_dumpsItems {v : Value} {vs : List Value} {t : List Char}
    (h : dumpsItems (v :: vs) = .ok t) :
    Opens t := by
  cases vs with
  | nil => exact opens_dumps h
  | cons w vs =>
    obtain ⟨tv, hv, h⟩ := Except.ok_of_bind h
    obtain ⟨ts, -, h⟩ := Except.ok_of_bind h
    cases h
    exact (opens_dumps hv).append _

theorem opens_dumpsFields {e : Key × Value} {es : List (Key × Value)} {t : List Char}
    (h : dumpsFields (e :: es) = .ok t) : ∃ rest, t = '"' :: rest := by
  obtain ⟨k, v⟩ := e
  cases es with
  | nil =>
    obtain ⟨tv, hv, h⟩ := Except.ok_of_bind h
    cases h
    exact ⟨_, rfl⟩
  | cons e es =>
    obtain ⟨tv, hv, h⟩ := Except.ok_of_bind h
    obtain ⟨ts, -, h⟩ := Except.ok_of_bind h
    cases h
    exact ⟨_, rfl⟩

theorem readValue_nilList (fuel : Nat) (rest : List Char) :
    readValue (fuel + 1) ('[' :: ']' :: rest) = some (.list [], rest) := by
  simp [readValue, skipSpace]

/-- A list that is not empty is read item by item. -/
theorem readValue_list (fuel : Nat) {cs : List Char} (h : Opens cs) :
    readValue (fuel + 1) ('[' :: cs) = (readItems fuel cs).map fun (vs, rest) =>
    (.list vs, rest) := by
  simp only [readValue, h.skipSpace, Char.reduceEq, if_true, if_false]
  split
  · exact absurd rfl (h.ne_cons (by decide))
  · rfl

theorem readValue_nilDict (fuel : Nat) (rest : List Char) :
    readValue (fuel + 1) ('{' :: '}' :: rest) = some (.dict [], rest) := by
  simp [readValue, skipSpace]

theorem readValue_dict (fuel : Nat) {cs : List Char} (h : Opens cs) :
    readValue (fuel + 1) ('{' :: cs) = (readFields fuel cs).map fun (es, rest) =>
    (ofPairs es, rest) := by
  simp only [readValue, h.skipSpace, Char.reduceEq, if_true, if_false]
  split
  · exact absurd rfl (h.ne_cons (by decide))
  · rfl

theorem readValue_str (fuel : Nat) (s : String) (rest : List Char) :
    readValue (fuel + 1) (quote s ++ rest) = some (.str s, rest) := by
  rw [quote, List.cons_append, List.cons_append, List.append_assoc, readValue, if_pos rfl]
  exact congrArg (Option.map _) (readString_append s rest)

theorem readLiteral_of_not_letter {c : Char} {cs : List Char} (hc : c ∉ ['n', 't', 'f']) :
    readLiteral (c :: cs) = none := by
  simp only [List.mem_cons, not_or] at hc
  simp [readLiteral, literals, Ne.symm hc.1, Ne.symm hc.2.1, Ne.symm hc.2.2.1]

/-- A number is told from the other values by its first character. -/
theorem readValue_int (fuel : Nat) (n : Int) {rest : List Char} (h : Ends rest) :
    readValue (fuel + 1) (intText n ++ rest) = some (.int n, rest) := by
  have hread := readInt_append n h
  obtain ⟨c, cs, hcs, hc⟩ : ∃ c cs, intText n = c :: cs ∧ (c = '-' ∨ c.isDigit = true) := by
    cases n with
    | ofNat n =>
      obtain ⟨c, cs, hn, hc⟩ := exists_digit n
      exact ⟨c, cs, hn, .inr hc⟩
    | negSucc n => exact ⟨'-', _, rfl, .inl rfl⟩
  have hall : ∀ d ∈ ['"', '[', '{', 'n', 't', 'f'], c ≠ d := by
    rintro d hd rfl
    have hno : ∀ d ∈ ['"', '[', '{', 'n', 't', 'f'], ¬ (d = '-' ∨ d.isDigit = true) := by
      simp [Char.isDigit]
    exact hno c hd hc
  rw [hcs, List.cons_append] at hread ⊢
  rw [readValue, if_neg (hall '"' (by decide)), if_neg (hall '[' (by decide)),
    if_neg (hall '{' (by decide)), readLiteral_of_not_letter, hread]
  · rfl
  · intro hm
    have hsub : ['n', 't', 'f'] ⊆ ['"', '[', '{', 'n', 't', 'f'] := by decide
    exact hall c (hsub hm) rfl

/-- With enough steps a written value is read back in its normal form, whatever follows it, and so
are the items of a list and the fields of a dictionary. -/
theorem read_dumps (fuel : Nat) :
    (∀ v t rest, dumps v = .ok t → Ends rest → 2 * t.length ≤ fuel →
      readValue fuel (t ++ rest) = some (norm v, rest)) ∧
    (∀ v vs t rest, dumpsItems (v :: vs) = .ok t → 2 * t.length + 1 ≤ fuel →
      readItems fuel (t ++ ']' :: rest) = some (normItems (v :: vs), rest)) ∧
    ∀ e es t rest, dumpsFields (e :: es) = .ok t → 2 * t.length + 1 ≤ fuel →
      readFields fuel (t ++ '}' :: rest) = some (normFields (e :: es), rest) := by
  induction fuel with
  | zero =>
    refine ⟨fun v t rest h _ hf => ?_, fun v vs t rest h hf => absurd hf (by omega),
      fun e es t rest h hf => absurd hf (by omega)⟩
    obtain ⟨c, cs, rfl, -⟩ := opens_dumps h
    rw [List.length_cons] at hf
    omega
  | succ fuel ih =>
    obtain ⟨ihv, ihi, ihf⟩ := ih
    have hlist : ∀ vs items rest, dumpsItems vs = .ok items →
        2 * ('[' :: items ++ [']']).length ≤ fuel + 1 →
        readValue (fuel + 1) ('[' :: items ++ [']'] ++ rest) =
        some (.list (normItems vs), rest) := by
      intro vs items rest h hf
      rw [List.append_assoc, List.cons_append, List.singleton_append]
      cases vs with
      | nil => cases h; exact readValue_nilList fuel rest
      | cons v vs =>
        simp only [List.length_cons, List.length_append, List.length_nil] at hf
        rw [readValue_list fuel ((opens_dumpsItems h).append _), ihi v vs items rest h (by omega)]
        rfl
    refine ⟨fun v t rest h hrest hf => ?_, fun v vs t rest h hf => ?_, fun e es t rest h hf => ?_⟩
    · cases v with
      | null => cases h; rfl
      | bool b => cases b <;> cases h <;> rfl
      | int n => cases h; exact readValue_int fuel n hrest
      | str s => cases h; exact readValue_str fuel s rest
      | bytes bs => cases h
      | list vs | tuple vs =>
        obtain ⟨items, hitems, h⟩ := Except.ok_of_bind h
        cases h
        exact hlist vs items rest hitems hf
      | dict es =>
        obtain ⟨fields, hfields, h⟩ := Except.ok_of_bind h
        cases h
        rw [List.append_assoc, List.cons_append, List.singleton_append]
        cases es with
        | nil => cases hfields; exact readValue_nilDict fuel rest
        | cons e es =>
          obtain ⟨cs, rfl⟩ := opens_dumpsFields hfields
          simp only [List.length_cons, List.length_append, List.length_nil] at hf
          rw [readValue_dict fuel ((opens_cons (by decide)).append _),
            ihf e es _ rest hfields (by rw [List.length_cons]; omega)]
          rfl
    · cases vs with
      | nil =>
        rw [readItems, ihv v t (']' :: rest) h (ends_cons rfl) (by omega)]
        rfl
      | cons w vs =>
        obtain ⟨tv, hv, h⟩ := Except.ok_of_bind h
        obtain ⟨ts, hs, h⟩ := Except.ok_of_bind h
        cases h
        simp only [List.length_cons, List.length_append] at hf
        rw [List.append_assoc, List.cons_append, List.cons_append, readItems,
          ihv v tv _ hv (ends_cons rfl) (by omega)]
        have hrest := ihi w vs ts rest hs (by omega)
        simp only [Option.bind_eq_bind, Option.bind_some, skipSpace_comma,
          skipSpace_space ((opens_dumpsItems hs).append (']' :: rest)), hrest]
        rfl
    · obtain ⟨k, v⟩ := e
      cases es with
      | nil =>
        obtain ⟨tv, hv, h⟩ := Except.ok_of_bind h
        cases h
        simp only [quote, List.length_cons, List.length_append, List.length_nil] at hf
        have hread := ihv v tv ('}' :: rest) hv (ends_cons rfl) (by omega)
        have hspace := skipSpace_space ((opens_dumps hv).append ('}' :: rest))
        simp only [quote, List.append_assoc, List.cons_append, List.nil_append, readFields,
          readString_append, Option.bind_eq_bind, Option.bind_some, skipSpace_colon, hspace, hread]
        rfl
      | cons e es =>
        obtain ⟨tv, hv, h⟩ := Except.ok_of_bind h
        obtain ⟨ts, hs, h⟩ := Except.ok_of_bind h
        cases h
        simp only [quote, List.length_cons, List.length_append, List.length_nil] at hf
        have hread := ihv v tv (',' :: ' ' :: (ts ++ '}' :: rest)) hv (ends_cons rfl) (by omega)
        have hspace := skipSpace_space ((opens_dumps hv).append (',' :: ' ' :: (ts ++ '}' :: rest)))
        have hrest := ihf e es ts rest hs (by omega)
        have hopens : Opens ts := by
          obtain ⟨cs, rfl⟩ := opens_dumpsFields hs
          exact opens_cons (by decide)
        simp only [quote, List.append_assoc, List.cons_append, List.nil_append, readFields,
          readString_append,
          Option.bind_eq_bind, Option.bind_some, skipSpace_colon, hspace, hread, skipSpace_comma,
          skipSpace_space (hopens.append ('}' :: rest)), hrest]
        rfl

/-- What was written is read back in its normal form. -/
theorem loads_dumps {v : Value} {t : List Char} (h : dumps v = .ok t) :
    loads t = some (norm v) := by
  have hread := (read_dumps (2 * t.length)).1 v t [] h nofun le_rfl
  rw [List.append_nil] at hread
  rw [loads, (opens_dumps h).skipSpace, hread]
  rfl

/-- A tuple under a number comes back as a list under a text. -/
example : (dumps (.dict [(.int 7, .tuple [.bool true, .str "é"])])).toOption =
    some "\x7b\"7\": [true, \"\\u00e9\"]\x7d".toList := by decide

/-! ## What comes back as it was -/

mutual

/-- Lists, numbers and texts under distinct text keys. -/
def Native : Value → Prop
  | .null | .bool _ | .int _ | .str _ => True
  | .bytes _ | .tuple _ => False
  | .list vs => NativeItems vs
  | .dict es => (es.map Prod.fst).Nodup ∧ NativeFields es

def NativeItems : List Value → Prop
  | [] => True
  | v :: vs => Native v ∧ NativeItems vs

def NativeFields : List (Key × Value) → Prop
  | [] => True
  | (k, v) :: es => (∃ s, k = .str s) ∧ Native v ∧ NativeFields es

end

theorem nativeItems_iff {vs : List Value} : NativeItems vs ↔ ∀ v ∈ vs, Native v := by
  induction vs with
  | nil => simp [NativeItems]
  | cons v vs ih => simp [NativeItems, ih]

theorem nativeFields_iff {es : List (Key × Value)} :
    NativeFields es ↔ ∀ e ∈ es, (∃ s, e.1 = .str s) ∧ Native e.2 := by
  induction es with
  | nil => simp [NativeFields]
  | cons e es ih =>
    obtain ⟨k, v⟩ := e
    simp only [NativeFields, ih, List.forall_mem_cons, and_assoc]

mutual

theorem Native.norm_eq : (v : Value) → Native v → norm v = v
  | .null, _ | .bool _, _ | .int _, _ | .str _, _ => rfl
  | .list vs, h => congrArg Value.list (NativeItems.norm_eq vs h)
  | .dict es, ⟨hn, h⟩ => by
    rw [norm, NativeFields.norm_eq es h, ofPairs, Dict.entries_ofList hn]

theorem NativeItems.norm_eq : (vs : List Value) → NativeItems vs → normItems vs = vs
  | [], _ => rfl
  | v :: vs, h => by rw [normItems, Native.norm_eq v h.1, NativeItems.norm_eq vs h.2]

theorem NativeFields.norm_eq : (es : List (Key × Value)) → NativeFields es → normFields es = es
  | [], _ => rfl
  | (k, v) :: es, h => by
    obtain ⟨⟨s, rfl⟩, hv, hes⟩ := h
    rw [normFields, Native.norm_eq v hv, NativeFields.norm_eq es hes]
    rfl

end

mutual

theorem Native.exists_dumps : (v : Value) → Native v → ∃ t, dumps v = .ok t
  | .null, _ | .bool true, _ | .bool false, _ | .int _, _ | .str _, _ => ⟨_, rfl⟩
  | .list vs, h => by
    obtain ⟨t, ht⟩ := NativeItems.exists_dumps vs h
    exact ⟨_, by rw [dumps, ht]; rfl⟩
  | .dict es, h => by
    obtain ⟨t, ht⟩ := NativeFields.exists_dumps es h.2
    exact ⟨_, by rw [dumps, ht]; rfl⟩

theorem NativeItems.exists_dumps : (vs : List Value) → NativeItems vs → ∃ t, dumpsItems vs = .ok t
  | [], _ => ⟨_, rfl⟩
  | [v], h => Native.exists_dumps v h.1
  | v :: w :: vs, h => by
    obtain ⟨t, ht⟩ := Native.exists_dumps v h.1
    obtain ⟨ts, hts⟩ := NativeItems.exists_dumps (w :: vs) h.2
    exact ⟨_, by rw [dumpsItems, ht, hts]; rfl⟩

theorem NativeFields.exists_dumps :
    (es : List (Key × Value)) → NativeFields es → ∃ t, dumpsFields es = .ok t
  | [], _ => ⟨_, rfl⟩
  | [(k, v)], h => by
    obtain ⟨t, ht⟩ := Native.exists_dumps v h.2.1
    exact ⟨_, by rw [dumpsFields, ht]; rfl⟩
  | (k, v) :: e :: es, h => by
    obtain ⟨t, ht⟩ := Native.exists_dumps v h.2.1
    obtain ⟨ts, hts⟩ := NativeFields.exists_dumps (e :: es) h.2.2
    exact ⟨_, by rw [dumpsFields, ht, hts]; rfl⟩

end

/-- A tree of lists, numbers and texts under text keys is written, and comes back as it was. -/
theorem loads_dumps_of_native {v : Value} (h : Native v) :
    ∃ t, dumps v = .ok t ∧ loads t = some v := by
  obtain ⟨t, ht⟩ := Native.exists_dumps v h
  exact ⟨t, ht, by rw [loads_dumps ht, Native.norm_eq v h]⟩

end Json
