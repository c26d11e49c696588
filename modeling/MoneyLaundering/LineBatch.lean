import MoneyLaundering.MessageProtocol

/-!
# Line batches

Raw lines of a file on their way from the file splitter to the file ingestors: `LineBatchSerializer`
(`line_batch_serializer.py`) and the row numbers that `LineBatchParser` gives them
(`file_ingestor/line_batch_parser.py`).
-/

namespace MoneyLaundering

open Bytes

/-- `FILE_TYPE_TRANSACTIONS`. -/
def fileTypeTransactions : Nat := 1

/-- `FILE_TYPE_ACCOUNTS`. -/
def fileTypeAccounts : Nat := 2

structure LineBatch where
  fileType : Nat
  relPath : String
  batchId : Nat
  firstLineNumber : Nat
  header : List String
  lines : List Bytes
  deriving DecidableEq

namespace LineBatchSerializer

/-- `FIXED_HEADER_SIZE`. -/
def fixedHeaderSize : Nat := 29

/-- `_validate_uint`, and `to_bytes` of what it lets through. -/
def validateUint (name : String) (w value : Nat) : Except String Bytes := do
  Except.raiseIf (256 ^ w ≤ value) s!"{name} must be less than or equal to {256 ^ w - 1}"
  return beEncode w value

/-- One item of `_serialize_string_items` or `_serialize_byte_items`. -/
def serializeItem (fieldName : String) (item : Bytes) : Except String Bytes := do
  let size ← validateUint s!"{fieldName}_size" 4 item.length
  return size ++ item

def serializeItems (fieldName : String) (items : List Bytes) : Except String Bytes := do
  let parts ← items.mapM (serializeItem fieldName)
  return parts.flatten

def serialize (batch : LineBatch) : Except String Bytes := do
  let fileType ← validateUint "file_type" 1 batch.fileType
  let batchId ← validateUint "batch_id" 8 batch.batchId
  let firstLineNumber ← validateUint "first_line_number" 8 batch.firstLineNumber
  let pathSize ← validateUint "rel_path_size" 4 (encodeText batch.relPath).length
  let headerCount ← validateUint "header_count" 4 batch.header.length
  let lineCount ← validateUint "line_count" 4 batch.lines.length
  let header ← serializeItems "header" (batch.header.map encodeText)
  let lines ← serializeItems "line" batch.lines
  return fileType ++ batchId ++ firstLineNumber ++ pathSize ++ headerCount ++ lineCount ++
    encodeText batch.relPath ++ header ++ lines

/-- `_read_sized`. -/
def readSized (data : Bytes) (offset size : Nat) (fieldName : String) :
    Except String (Bytes × Nat) := do
  Except.raiseIf (data.length < offset + size) s!"not enough bytes for LineBatch {fieldName}"
  return ((data.drop offset).take size, offset + size)

/-- `_read_byte_items`. -/
def readByteItems (data : Bytes) (fieldName : String) : Nat → Nat → Except String (List Bytes × Nat)
  | offset, 0 => return ([], offset)
  | offset, count + 1 => do
    let (sizeBytes, offset) ← readSized data offset 4 s!"{fieldName}_size"
    let (item, offset) ← readSized data offset (beDecode sizeBytes) fieldName
    let (items, offset) ← readByteItems data fieldName offset count
    return (item :: items, offset)

/-- `bytes.decode("utf-8")`. -/
def decode (bs : Bytes) : Except String String :=
  match decodeText? bs with
  | some text => .ok text
  | none => .error "'utf-8' codec can't decode"

def deserialize (data : Bytes) : Except String LineBatch := do
  Except.raiseIf (data.length < fixedHeaderSize) "not enough bytes for LineBatch"
  let (relPath, offset) ← readSized data fixedHeaderSize
      (beDecode ((data.drop 17).take 4)) "rel_path"
  let (header, offset) ← readByteItems data "header" offset (beDecode ((data.drop 21).take 4))
  let header ← header.mapM decode
  let (lines, offset) ← readByteItems data "line" offset (beDecode ((data.drop 25).take 4))
  Except.raiseIf (offset ≠ data.length) "too many bytes for LineBatch"
  let relPath ← decode relPath
  return {
    fileType := beDecode (data.take 1)
    relPath
    batchId := beDecode ((data.drop 1).take 8)
    firstLineNumber := beDecode ((data.drop 9).take 8)
    header
    lines }

/-- The fields of a batch fit their widths on the wire. -/
structure Fits (batch : LineBatch) : Prop where
  fileType : batch.fileType < 256 ^ 1
  batchId : batch.batchId < 256 ^ 8
  firstLineNumber : batch.firstLineNumber < 256 ^ 8
  relPath : (encodeText batch.relPath).length < 256 ^ 4
  headerCount : batch.header.length < 256 ^ 4
  lineCount : batch.lines.length < 256 ^ 4
  header : ∀ item ∈ batch.header, (encodeText item).length < 256 ^ 4
  lines : ∀ line ∈ batch.lines, line.length < 256 ^ 4

/-- The fields of a batch, in the order of the wire. -/
def wire (batch : LineBatch) : Bytes :=
  beEncode 1 batch.fileType ++ beEncode 8 batch.batchId ++ beEncode 8 batch.firstLineNumber ++
    beEncode 4 (encodeText batch.relPath).length ++ beEncode 4 batch.header.length ++
    beEncode 4 batch.lines.length ++ encodeText batch.relPath ++
    (batch.header.map fun item => lengthPrefixed 4 (encodeText item)).flatten ++
    (batch.lines.map (lengthPrefixed 4)).flatten

theorem validateUint_eq_ok_iff {name : String} {w value : Nat} {bs : Bytes} :
    validateUint name w value = .ok bs ↔ value < 256 ^ w ∧ beEncode w value = bs := by
  unfold validateUint Except.raiseIf
  by_cases h : 256 ^ w ≤ value
  · rw [if_pos h]
    exact ⟨nofun, fun ⟨hlt, _⟩ => absurd h (by omega)⟩
  · rw [if_neg h]
    exact ⟨fun he => ⟨by omega, Except.ok.inj he⟩, fun ⟨_, he⟩ => congrArg Except.ok he⟩

theorem serializeItem_eq_ok_iff {fieldName : String} {item bs : Bytes} :
    serializeItem fieldName item = .ok bs ↔ item.length < 256 ^ 4 ∧ lengthPrefixed 4 item = bs := by
  constructor
  · intro h
    obtain ⟨size, hs, h⟩ := Except.ok_of_bind h
    obtain ⟨hlt, rfl⟩ := validateUint_eq_ok_iff.mp hs
    exact ⟨hlt, Except.ok.inj h⟩
  · rintro ⟨hlt, rfl⟩
    rw [serializeItem, validateUint_eq_ok_iff.mpr ⟨hlt, rfl⟩]
    rfl

theorem serializeItems_eq_ok_iff {fieldName : String} {items : List Bytes} {bs : Bytes} :
    serializeItems fieldName items = .ok bs ↔
      (∀ item ∈ items, item.length < 256 ^ 4) ∧ (items.map (lengthPrefixed 4)).flatten = bs := by
  constructor
  · intro h
    obtain ⟨parts, hp, he⟩ := Except.ok_of_bind h
    cases he
    have hall := Except.forall₂_of_mapM hp
    clear hp h
    induction hall with
    | nil => exact ⟨by simp, rfl⟩
    | cons hitem _ ih =>
      obtain ⟨hlt, rfl⟩ := serializeItem_eq_ok_iff.mp hitem
      exact ⟨by simpa using ⟨hlt, ih.1⟩, by simp [ih.2]⟩
  · rintro ⟨hall, rfl⟩
    have hp : items.mapM (serializeItem fieldName) = .ok (items.map (lengthPrefixed 4)) := by
      induction items with
      | nil => rfl
      | cons item items ih =>
        rw [List.mapM_cons, serializeItem_eq_ok_iff.mpr ⟨hall item List.mem_cons_self, rfl⟩,
          Except.ok_bind, ih fun item hi => hall item (List.mem_cons_of_mem _ hi), Except.ok_bind]
        rfl
    rw [serializeItems, hp]
    rfl

/-- A batch is serialized exactly when its fields fit. -/
theorem serialize_eq_ok_iff {batch : LineBatch} {bs : Bytes} :
    serialize batch = .ok bs ↔ Fits batch ∧ wire batch = bs := by
  constructor
  · intro h
    obtain ⟨_, h₁, h⟩ := Except.ok_of_bind h
    obtain ⟨_, h₂, h⟩ := Except.ok_of_bind h
    obtain ⟨_, h₃, h⟩ := Except.ok_of_bind h
    obtain ⟨_, h₄, h⟩ := Except.ok_of_bind h
    obtain ⟨_, h₅, h⟩ := Except.ok_of_bind h
    obtain ⟨_, h₆, h⟩ := Except.ok_of_bind h
    obtain ⟨_, h₇, h⟩ := Except.ok_of_bind h
    obtain ⟨_, h₈, h⟩ := Except.ok_of_bind h
    obtain ⟨l₁, rfl⟩ := validateUint_eq_ok_iff.mp h₁
    obtain ⟨l₂, rfl⟩ := validateUint_eq_ok_iff.mp h₂
    obtain ⟨l₃, rfl⟩ := validateUint_eq_ok_iff.mp h₃
    obtain ⟨l₄, rfl⟩ := validateUint_eq_ok_iff.mp h₄
    obtain ⟨l₅, rfl⟩ := validateUint_eq_ok_iff.mp h₅
    obtain ⟨l₆, rfl⟩ := validateUint_eq_ok_iff.mp h₆
    obtain ⟨l₇, rfl⟩ := serializeItems_eq_ok_iff.mp h₇
    obtain ⟨l₈, rfl⟩ := serializeItems_eq_ok_iff.mp h₈
    rw [List.map_map] at h
    exact ⟨⟨l₁, l₂, l₃, l₄, l₅, l₆, by simpa using l₇, l₈⟩, Except.ok.inj h⟩
  · rintro ⟨hf, rfl⟩
    have hheader : ∀ item ∈ batch.header.map encodeText, item.length < 256 ^ 4 := by
      simpa using hf.header
    simp only [serialize, validateUint_eq_ok_iff.mpr ⟨hf.fileType, rfl⟩,
      validateUint_eq_ok_iff.mpr ⟨hf.batchId, rfl⟩,
      validateUint_eq_ok_iff.mpr ⟨hf.firstLineNumber, rfl⟩,
      validateUint_eq_ok_iff.mpr ⟨hf.relPath, rfl⟩,
      validateUint_eq_ok_iff.mpr ⟨hf.headerCount, rfl⟩,
      validateUint_eq_ok_iff.mpr ⟨hf.lineCount, rfl⟩, serializeItems_eq_ok_iff.mpr ⟨hheader, rfl⟩,
      serializeItems_eq_ok_iff.mpr ⟨hf.lines, rfl⟩, Except.ok_bind, List.map_map]
    rfl

theorem readSized_of_at {data x rest : Bytes} {offset n : Nat} (fieldName : String)
    (h : At data offset (x ++ rest)) (hn : x.length = n) :
    readSized data offset n fieldName = .ok (x, offset + n) ∧ At data (offset + n) rest := by
  have hlen := h.length
  rw [List.length_append] at hlen
  obtain ⟨hx, ha⟩ := field_of_at h hn
  rw [readSized, Except.raiseIf_of_not (by omega), Except.ok_bind, hx]
  exact ⟨rfl, ha⟩

/-- The loop over items reads what the loop over items wrote. -/
theorem readByteItems_of_at {data rest : Bytes} {s : String} {items : List Bytes} {offset : Nat}
    (hall : ∀ item ∈ items, item.length < 256 ^ 4)
    (h : At data offset ((items.map (lengthPrefixed 4)).flatten ++ rest)) :
    ∃ offset', readByteItems data s offset items.length = .ok (items, offset') ∧
      At data offset' rest := by
  induction items generalizing offset with
  | nil => exact ⟨offset, rfl, h⟩
  | cons item items ih =>
    have hlt := hall item List.mem_cons_self
    rw [List.map_cons, List.flatten_cons, lengthPrefixed, List.append_assoc, List.append_assoc] at h
    obtain ⟨r₁, h⟩ := readSized_of_at s!"{s}_size" h (length_beEncode 4 _)
    obtain ⟨r₂, h⟩ := readSized_of_at s h rfl
    obtain ⟨offset', r₃, h⟩ := ih (fun item hi => hall item (List.mem_cons_of_mem _ hi)) h
    refine ⟨offset', ?_, h⟩
    rw [List.length_cons, readByteItems, r₁, Except.ok_bind]
    simp only [beDecode_beEncode hlt, r₂, Except.ok_bind, r₃]
    rfl

theorem mapM_decode_encodeText (items : List String) :
    (items.map encodeText).mapM decode = .ok items := by
  induction items with
  | nil => rfl
  | cons item items ih =>
    rw [List.map_cons, List.mapM_cons, ih]
    simp only [decode, decodeText?_encodeText]
    rfl

/-- Reading the fields of a batch in front of any bytes: the batch, and an error when bytes are
left. -/
theorem deserialize_wire_append {batch : LineBatch} (hf : Fits batch) (rest : Bytes) :
    deserialize (wire batch ++ rest) =
      if rest = [] then .ok batch else .error "too many bytes for LineBatch" := by
  have hmap : (batch.header.map fun item => lengthPrefixed 4 (encodeText item)) =
      (batch.header.map encodeText).map (lengthPrefixed 4) := by simp
  have h₀ := at_zero (wire batch ++ rest)
  nth_rewrite 2 [wire] at h₀
  rw [hmap] at h₀
  simp only [List.append_assoc] at h₀
  obtain ⟨f₁, h₁⟩ := field_of_at h₀ (length_beEncode 1 _)
  obtain ⟨f₂, h₂⟩ := field_of_at h₁ (length_beEncode 8 _)
  obtain ⟨f₃, h₃⟩ := field_of_at h₂ (length_beEncode 8 _)
  obtain ⟨f₄, h₄⟩ := field_of_at h₃ (length_beEncode 4 _)
  obtain ⟨f₅, h₅⟩ := field_of_at h₄ (length_beEncode 4 _)
  obtain ⟨f₆, h₆⟩ := field_of_at h₅ (length_beEncode 4 _)
  obtain ⟨r₁, h₇⟩ := readSized_of_at "rel_path" h₆ rfl
  obtain ⟨o₁, r₂, h₈⟩ := readByteItems_of_at (s := "header") (by simpa using hf.header) h₇
  obtain ⟨o₂, r₃, h₉⟩ := readByteItems_of_at (s := "line") hf.lines h₈
  have hlen : ¬ (wire batch ++ rest).length < fixedHeaderSize := by
    have := h₆.length
    change ¬ (wire batch ++ rest).length < 29
    omega
  simp only [Nat.reduceAdd, List.drop_zero, List.length_map] at f₁ f₂ f₃ f₄ f₅ f₆ r₁ r₂ r₃
  have r₁' :
      readSized (wire batch ++ rest) fixedHeaderSize (encodeText batch.relPath).length "rel_path" =
    .ok (encodeText batch.relPath, 29 + (encodeText batch.relPath).length) := r₁
  rw [deserialize, Except.raiseIf_of_not hlen, Except.ok_bind, f₄,
    beDecode_beEncode hf.relPath, r₁', Except.ok_bind]
  dsimp only
  rw [f₅, beDecode_beEncode hf.headerCount, r₂, Except.ok_bind]
  dsimp only
  rw [mapM_decode_encodeText, Except.ok_bind, f₆, beDecode_beEncode hf.lineCount, r₃,
    Except.ok_bind]
  dsimp only
  split
  · next hnil =>
    rw [Except.raiseIf_of_not (not_not_intro (h₉.eq_nil_iff.mpr hnil)), Except.ok_bind, f₁, f₂, f₃,
      beDecode_beEncode hf.fileType, beDecode_beEncode hf.batchId,
      beDecode_beEncode hf.firstLineNumber, decode, decodeText?_encodeText]
    rfl
  · next hne =>
    have hend : o₂ ≠ (wire batch ++ rest).length := fun he => hne (h₉.eq_nil_iff.mp he)
    rw [Except.raiseIf, if_pos hend]
    rfl

/-- A batch that is serialized reads back as it was. -/
theorem deserialize_serialize {batch : LineBatch} {bs : Bytes} (h : serialize batch = .ok bs) :
    deserialize bs = .ok batch := by
  obtain ⟨hf, rfl⟩ := serialize_eq_ok_iff.mp h
  have hread := deserialize_wire_append hf []
  rwa [List.append_nil, if_pos rfl] at hread

/-! ### Every accepted input is an encoding -/

/-- The field that is read at a cursor stands there. -/
theorem at_of_field {data rest : Bytes} {offset n : Nat} (h : At data offset rest)
    (hn : offset + n ≤ data.length) :
    ∃ rest', rest = beEncode n (beDecode ((data.drop offset).take n)) ++ rest' ∧
      beDecode ((data.drop offset).take n) < 256 ^ n ∧ At data (offset + n) rest' := by
  have hlen := h.length
  have hx : ((data.drop offset).take n).length = n := by
    rw [List.length_take, List.length_drop]
    omega
  have henc := beEncode_beDecode ((data.drop offset).take n)
  have hlt := beDecode_lt ((data.drop offset).take n)
  rw [hx] at henc hlt
  have hsplit : rest = (data.drop offset).take n ++ rest.drop n := by
    rw [h.drop, List.take_append_drop]
  refine ⟨rest.drop n, by rw [henc]; exact hsplit, hlt, ?_⟩
  rw [hsplit] at h
  exact (field_of_at h hx).2

theorem at_of_readSized {data rest x : Bytes} {offset size offset' : Nat} {s : String}
    (h : At data offset rest) (hr : readSized data offset size s = .ok (x, offset')) :
    x.length = size ∧ ∃ rest', rest = x ++ rest' ∧ At data offset' rest' := by
  obtain ⟨hle, hr⟩ := Except.ok_of_raiseIf hr
  cases hr
  have hlen := h.length
  have hx : ((data.drop offset).take size).length = size := by
    rw [List.length_take, List.length_drop]
    omega
  have hsplit : rest = (data.drop offset).take size ++ rest.drop size := by
    rw [h.drop, List.take_append_drop]
  refine ⟨hx, rest.drop size, hsplit, ?_⟩
  rw [hsplit] at h
  exact (field_of_at h hx).2

/-- The items that the loop reads stand at the cursor, with their lengths. -/
theorem at_of_readByteItems {data rest : Bytes} {s : String} {count offset offset' : Nat}
    {items : List Bytes}
    (h : At data offset rest) (hr : readByteItems data s offset count = .ok (items, offset')) :
    items.length = count ∧ (∀ item ∈ items, item.length < 256 ^ 4) ∧
      ∃ rest', rest = (items.map (lengthPrefixed 4)).flatten ++ rest' ∧ At data offset' rest' := by
  induction count generalizing offset rest items with
  | zero =>
    cases hr
    exact ⟨rfl, by simp, rest, rfl, h⟩
  | succ count ih =>
    obtain ⟨⟨sizeBytes, o₁⟩, hsize, hr⟩ := Except.ok_of_bind hr
    obtain ⟨⟨item, o₂⟩, hitem, hr⟩ := Except.ok_of_bind hr
    obtain ⟨⟨items', o₃⟩, hitems, hr⟩ := Except.ok_of_bind hr
    cases hr
    obtain ⟨h4, rest₁, rfl, h₁⟩ := at_of_readSized h hsize
    obtain ⟨hlen, rest₂, rfl, h₂⟩ := at_of_readSized h₁ hitem
    obtain ⟨hcount, hall, rest₃, rfl, h₃⟩ := ih h₂ hitems
    have hlt := beDecode_lt sizeBytes
    have henc := beEncode_beDecode sizeBytes
    rw [h4] at hlt henc
    refine ⟨by simp [hcount], ?_, rest₃, ?_, h₃⟩
    · intro x hx
      rcases List.mem_cons.mp hx with rfl | hx
      · rwa [hlen]
      · exact hall x hx
    · rw [List.map_cons, List.flatten_cons, lengthPrefixed, hlen, henc, List.append_assoc,
        List.append_assoc]

theorem encodeText_of_decode {bs : Bytes} {text : String} (h : decode bs = .ok text) :
    encodeText text = bs := by
  unfold decode at h
  split at h
  · next hd =>
    cases h
    exact encodeText_of_decodeText? hd
  · cases h

theorem map_encodeText_of_mapM_decode {items : List Bytes} {texts : List String}
    (h : items.mapM decode = .ok texts) : texts.map encodeText = items := by
  have hall := Except.forall₂_of_mapM h
  clear h
  induction hall with
  | nil => rfl
  | cons hd _ ih => rw [List.map_cons, encodeText_of_decode hd, ih]

/-- An accepted input is the encoding of what it is read as. -/
theorem wire_of_deserialize {data : Bytes} {batch : LineBatch} (h : deserialize data = .ok batch) :
    Fits batch ∧ wire batch = data := by
  obtain ⟨hshort, h⟩ := Except.ok_of_raiseIf h
  obtain ⟨⟨path, o₁⟩, hpath, h⟩ := Except.ok_of_bind h
  obtain ⟨⟨header, o₂⟩, hheader, h⟩ := Except.ok_of_bind h
  obtain ⟨texts, htexts, h⟩ := Except.ok_of_bind h
  obtain ⟨⟨lines, o₃⟩, hlines, h⟩ := Except.ok_of_bind h
  obtain ⟨hend, h⟩ := Except.ok_of_raiseIf h
  obtain ⟨relPath, hrel, h⟩ := Except.ok_of_bind h
  cases h
  simp only [fixedHeaderSize, not_lt] at hshort
  obtain ⟨rest₁, e₁, l₁, a₁⟩ := at_of_field (n := 1) (at_zero data) (by omega)
  obtain ⟨rest₂, rfl, l₂, a₂⟩ := at_of_field (n := 8) a₁ (by omega)
  obtain ⟨rest₃, rfl, l₃, a₃⟩ := at_of_field (n := 8) a₂ (by omega)
  obtain ⟨rest₄, rfl, l₄, a₄⟩ := at_of_field (n := 4) a₃ (by omega)
  obtain ⟨rest₅, rfl, l₅, a₅⟩ := at_of_field (n := 4) a₄ (by omega)
  obtain ⟨rest₆, rfl, l₆, a₆⟩ := at_of_field (n := 4) a₅ (by omega)
  obtain ⟨lp, rest₇, rfl, a₇⟩ := at_of_readSized a₆ hpath
  obtain ⟨lh, hh, rest₈, rfl, a₈⟩ := at_of_readByteItems a₇ hheader
  obtain ⟨ll, hl, rest₉, rfl, a₉⟩ := at_of_readByteItems a₈ hlines
  obtain rfl : rest₉ = [] := a₉.eq_nil_iff.mp (not_not.mp hend)
  simp only [Nat.reduceAdd, List.drop_zero] at e₁ l₁ l₂ l₃ l₄ l₅ l₆ lp lh ll
  have hpathText := encodeText_of_decode hrel
  have hheaderText := map_encodeText_of_mapM_decode htexts
  have hcount : texts.length = header.length := by rw [← hheaderText, List.length_map]
  refine ⟨⟨l₁, l₂, l₃, ?_, ?_, ?_, ?_, hl⟩, ?_⟩
  · rwa [hpathText, lp]
  · rwa [hcount, lh]
  · rwa [ll]
  · intro item hi
    exact hh _ (hheaderText ▸ List.mem_map_of_mem hi)
  · have hmap : (texts.map fun item => lengthPrefixed 4 (encodeText item)) =
        header.map (lengthPrefixed 4) := by
      rw [← hheaderText, List.map_map]
      rfl
    conv_rhs => rw [e₁]
    simp only [wire, hmap, hpathText, lp, hcount, lh, ll, List.append_assoc, List.append_nil]

/-- **The format of line batches.** A batch whose fields are in range is serialized and reads back
as it was; an accepted input is what its batch serializes to; and no accepted input is a proper
prefix of another. -/
theorem lineBatch_format :
    (∀ batch, Fits batch → ∃ bs, serialize batch = .ok bs ∧ deserialize bs = .ok batch) ∧
    (∀ data batch, deserialize data = .ok batch → serialize batch = .ok data) ∧
    ∀ data data' batch batch', deserialize data = .ok batch → deserialize data' = .ok batch' →
      data <+: data' → data = data' := by
  refine ⟨fun batch hf => ?_, fun data batch h => ?_, ?_⟩
  · have hs := serialize_eq_ok_iff.mpr ⟨hf, rfl⟩
    exact ⟨_, hs, deserialize_serialize hs⟩
  · exact serialize_eq_ok_iff.mpr (wire_of_deserialize h)
  · rintro data _ batch batch' h h' ⟨rest, rfl⟩
    obtain ⟨hf, rfl⟩ := wire_of_deserialize h
    rw [deserialize_wire_append hf] at h'
    split at h'
    · next hnil => rw [hnil, List.append_nil]
    · cases h'

end LineBatchSerializer

/-- `LineBatchParser.parse`; `parseLine` is the row parser of the header, on a line and its row
number. -/
def LineBatchParser.parse {τ : Type} (parseLine : List String → Bytes → Nat → Except String τ)
    (batch : LineBatch) : Except String (List τ) := do
  if batch.fileType = fileTypeAccounts then return []
  Except.raiseIf (batch.fileType ≠ fileTypeTransactions)
    s!"unknown line batch file_type: {batch.fileType}"
  batch.lines.zipIdx.mapM fun (line, index) =>
    parseLine batch.header line (batch.firstLineNumber + index)

end MoneyLaundering
