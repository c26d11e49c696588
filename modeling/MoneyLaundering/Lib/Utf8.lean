import MoneyLaundering.Lib.Bytes

/-!
# Text that may be cut

`bytes.decode("utf-8", errors="replace")`: what is no character becomes U+FFFD, one for each longest
beginning of a character. On the bytes of a text it gives the text.
-/

namespace Bytes

/-- A continuation byte. -/
def isContinuation (b : UInt8) : Bool := 0x80 ≤ b && b ≤ 0xBF

/-- The second byte of a character of three or four bytes, by its first. -/
def isSecondOf (first second : UInt8) : Bool :=
  isContinuation second &&
    if first = 0xE0 then decide (0xA0 ≤ second)
    else if first = 0xED then decide (second < 0xA0)
    else if first = 0xF0 then decide (0x90 ≤ second)
    else if first = 0xF4 then decide (second < 0x90)
    else 0xE0 ≤ first && first ≤ 0xF4

/-- How many bytes one U+FFFD stands for, where no character begins. -/
def illFormedLength : Bytes → Nat
  | first :: second :: third :: _ =>
    if isSecondOf first second then
      if 0xF0 ≤ first && isContinuation third then 3 else 2
    else 1
  | [first, second] => if isSecondOf first second then 2 else 1
  | [_] => 1
  | [] => 1

/-- Decode at most `fuel` characters. -/
def decodeChars : Nat → Bytes → List Char
  | 0, _ => []
  | fuel + 1, data =>
    if data = [] then []
    else match (⟨data.toArray⟩ : ByteArray).utf8DecodeChar? 0 with
      | some c => c :: decodeChars fuel (data.drop c.utf8Size)
      | none => '\uFFFD' :: decodeChars fuel (data.drop (illFormedLength data))

/-- `data.decode("utf-8", errors="replace")`. -/
def decodeReplace (data : Bytes) : String := String.ofList (decodeChars data.length data)

/-! ## The bytes of a text -/

theorem encodeText_ofList (cs : List Char) :
    encodeText (String.ofList cs) = cs.flatMap String.utf8EncodeChar := by
  rw [encodeText, String.toByteArray_ofList, List.utf8Encode, List.data_toByteArray]

theorem encodeText_eq (s : String) : encodeText s = s.toList.flatMap String.utf8EncodeChar := by
  rw [← encodeText_ofList, String.ofList_toList]

theorem utf8EncodeChar_ne_nil (c : Char) : String.utf8EncodeChar c ≠ [] := by
  refine List.length_pos_iff.mp ?_
  rw [String.length_utf8EncodeChar]
  exact c.utf8Size_pos

theorem decodeChars_flatMap {cs : List Char} {fuel : Nat} (h : cs.length ≤ fuel) :
    decodeChars fuel (cs.flatMap String.utf8EncodeChar) = cs := by
  induction cs generalizing fuel with
  | nil => cases fuel <;> rfl
  | cons c cs ih =>
    cases fuel with
    | zero => cases h
    | succ fuel =>
      have hchar : (⟨((c :: cs).flatMap String.utf8EncodeChar).toArray⟩ : ByteArray).utf8DecodeChar?
          0 = some c := by
        have happend : (⟨((c :: cs).flatMap String.utf8EncodeChar).toArray⟩ : ByteArray) =
            (String.utf8EncodeChar c).toByteArray ++
              (cs.flatMap String.utf8EncodeChar).toByteArray := by
          rw [← List.toByteArray_append, ← List.flatMap_cons]
          exact ByteArray.ext (by simp)
        rw [happend, ByteArray.utf8DecodeChar?_utf8EncodeChar_append]
      have hne : (c :: cs).flatMap String.utf8EncodeChar ≠ [] := by
        rw [List.flatMap_cons]
        exact List.append_ne_nil_of_left_ne_nil (utf8EncodeChar_ne_nil c) _
      rw [decodeChars, if_neg hne, hchar]
      dsimp only
      rw [List.flatMap_cons, List.drop_left' (String.length_utf8EncodeChar c),
        ih (Nat.le_of_succ_le_succ h)]

theorem decodeReplace_encodeText (s : String) : decodeReplace (encodeText s) = s := by
  have hlen : ∀ cs : List Char, cs.length ≤ (cs.flatMap String.utf8EncodeChar).length := by
    intro cs
    induction cs with
    | nil => exact Nat.le_refl _
    | cons c cs ih =>
      have hc := List.length_pos_iff.mpr (utf8EncodeChar_ne_nil c)
      rw [List.flatMap_cons, List.length_append, List.length_cons]
      omega
  rw [decodeReplace, encodeText_eq, decodeChars_flatMap (hlen _), String.ofList_toList]

/-- Only a line break has its byte. -/
theorem eq_of_newline_mem {c : Char} (h : (10 : UInt8) ∈ String.utf8EncodeChar c) : c = '\n' := by
  have hbyte : ∀ n : Nat, n < 256 → (10 : UInt8) = UInt8.ofNat n → n = 10 := by
    intro n hn heq
    have hnat := congrArg UInt8.toNat heq
    rw [UInt8.toNat_ofNat', Nat.mod_eq_of_lt hn] at hnat
    exact hnat.symm
  have hlt : c.val.toNat < 1114112 := by
    have := c.valid
    omega
  -- the bytes of a longer character are 128 or more
  have hlong : ∀ n : Nat, 128 ≤ n → n < 256 → (10 : UInt8) ≠ UInt8.ofNat n := by
    intro n hge hn heq
    have := hbyte n hn heq
    omega
  unfold String.utf8EncodeChar at h
  dsimp only at h
  split at h
  · have hval := hbyte _ (by omega) (List.mem_singleton.mp h)
    exact Char.ext (UInt32.toNat_inj.mp hval)
  split at h
  · simp only [List.mem_cons, List.not_mem_nil, or_false] at h
    rcases h with h | h <;> exact absurd h (hlong _ (by omega) (by omega))
  split at h
  · simp only [List.mem_cons, List.not_mem_nil, or_false] at h
    rcases h with h | h | h <;> exact absurd h (hlong _ (by omega) (by omega))
  · simp only [List.mem_cons, List.not_mem_nil, or_false] at h
    rcases h with h | h | h | h <;> exact absurd h (hlong _ (by omega) (by omega))

theorem newline_notMem_encodeText {s : String} (h : '\n' ∉ s.toList) :
    (10 : UInt8) ∉ encodeText s := by
  intro hmem
  rw [encodeText_eq] at hmem
  obtain ⟨c, hc, hb⟩ := List.mem_flatMap.mp hmem
  exact h (eq_of_newline_mem hb ▸ hc)

end Bytes
