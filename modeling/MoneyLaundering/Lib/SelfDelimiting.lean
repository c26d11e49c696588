import MoneyLaundering.Lib.Text

/-!
# Self-delimiting codes

An encoding is self-delimiting when a reader takes the code of one value off the front of any text
and returns the text that follows it. A concatenation of such codes reads back value by value, so it
determines the sequence, whatever the values look like. A text with its length in front is such a
code.
-/

namespace SelfDelimiting

variable {α β : Type*} {enc : α → List β} {read : List β → Option (α × List β)}

/-- `read` takes the code of one value off the front. -/
structure Reads (enc : α → List β) (read : List β → Option (α × List β)) : Prop where
  read_append : ∀ a rest, read (enc a ++ rest) = some (a, rest)
  ne_nil : ∀ a, enc a ≠ []

/-- Read values until nothing is left, `fuel` of them at most. -/
def readAll (read : List β → Option (α × List β)) : Nat → List β → Option (List α)
  | _, [] => some []
  | 0, _ :: _ => none
  | fuel + 1, b :: bs =>
    match read (b :: bs) with
    | none => none
    | some (a, rest) => (readAll read fuel rest).map (a :: ·)

/-- Read values up to a stop symbol, fewer than `fuel` of them. -/
def readUntil [DecidableEq β] (stop : β) (read : List β → Option (α × List β)) :
    Nat → List β → Option (List α × List β)
  | 0, _ => none
  | _ + 1, [] => none
  | fuel + 1, b :: bs =>
    if b = stop then some ([], bs)
    else match read (b :: bs) with
      | none => none
      | some (a, rest) => (readUntil stop read fuel rest).map fun (as, rest) => (a :: as, rest)

namespace Reads

theorem readAll_append (h : Reads enc read) (fuel : Nat) (a : α) (rest : List β) :
    readAll read (fuel + 1) (enc a ++ rest) = (readAll read fuel rest).map (a :: ·) := by
  have hread := h.read_append a rest
  cases hcode : enc a with
  | nil => exact absurd hcode (h.ne_nil a)
  | cons b bs =>
    rw [hcode] at hread
    rw [List.cons_append, readAll, ← List.cons_append, hread]

/-- Enough fuel reads the whole sequence back. -/
theorem readAll_flatMap (h : Reads enc read) {as : List α} {fuel : Nat} (hf : as.length ≤ fuel) :
    readAll read fuel (as.flatMap enc) = some as := by
  induction as generalizing fuel with
  | nil => cases fuel <;> rfl
  | cons a as ih =>
    obtain ⟨fuel, rfl⟩ := Nat.exists_eq_add_of_lt (Nat.lt_of_lt_of_le (Nat.succ_pos _) hf)
    rw [Nat.zero_add, List.flatMap_cons, h.readAll_append, ih (by simpa using hf), Option.map_some]

theorem length_le (h : Reads enc read) (as : List α) : as.length ≤ (as.flatMap enc).length := by
  induction as with
  | nil => exact Nat.zero_le _
  | cons a as ih =>
    have hpos : 0 < (enc a).length := List.length_pos_iff.mpr (h.ne_nil a)
    rw [List.flatMap_cons, List.length_append, List.length_cons]
    omega

/-- The length of the text is fuel enough. -/
theorem readAll_length (h : Reads enc read) (as : List α) :
    readAll read (as.flatMap enc).length (as.flatMap enc) = some as :=
  h.readAll_flatMap (h.length_le as)

/-- Codes of which none begins with the stop symbol are read up to it. -/
theorem readUntil_flatMap [DecidableEq β] (h : Reads enc read) {stop : β}
    (hstop : ∀ a, (enc a).head? ≠ some stop) {as : List α} {rest : List β} {fuel : Nat}
    (hf : as.length < fuel) :
    readUntil stop read fuel (as.flatMap enc ++ stop :: rest) = some (as, rest) := by
  induction as generalizing fuel with
  | nil =>
    obtain ⟨fuel, rfl⟩ := Nat.exists_eq_add_of_lt hf
    rw [List.flatMap_nil, List.nil_append, readUntil, if_pos rfl]
  | cons a as ih =>
    obtain ⟨fuel, rfl⟩ := Nat.exists_eq_add_of_lt (Nat.lt_of_le_of_lt (Nat.zero_le _) hf)
    rw [Nat.zero_add] at hf ⊢
    have hread := h.read_append a (as.flatMap enc ++ stop :: rest)
    have hhead := hstop a
    rw [List.flatMap_cons, List.append_assoc]
    cases hcode : enc a with
    | nil => exact absurd hcode (h.ne_nil a)
    | cons b bs =>
      rw [hcode] at hread hhead
      have hb : b ≠ stop := fun heq => hhead (congrArg some heq)
      rw [List.cons_append] at hread ⊢
      rw [readUntil, if_neg hb, hread]
      simp only [ih (Nat.lt_of_succ_lt_succ hf), Option.map_some]

end Reads

end SelfDelimiting

namespace Text

/-- `f"{len(part)}:{part}"`, with any separator. -/
def withLength (c : Char) (part : List Char) : List Char := ofNat part.length ++ c :: part

/-- Read a length up to the separator and as many characters after it. -/
def readWithLength (c : Char) (cs : List Char) : Option (List Char × List Char) := do
  let (digits, rest) ← split1 c cs
  let n ← toNat? digits
  if n ≤ rest.length then return (rest.take n, rest.drop n) else none

/-- A separator that is not a digit ends the length, whatever the part holds. -/
theorem readWithLength_append {c : Char} (hc : c.isDigit = false) (part rest : List Char) :
    readWithLength c (withLength c part ++ rest) = some (part, rest) := by
  have hsplit : split1 c (withLength c part ++ rest) = some (ofNat part.length, part ++ rest) := by
    rw [withLength, List.append_assoc, List.cons_append]
    exact split1_append_cons (not_mem_ofNat hc _)
  have hle : part.length ≤ (part ++ rest).length := by simp
  simp only [readWithLength, hsplit, Option.bind_eq_bind, Option.bind_some,
    toNat?_ofNat, if_pos hle, List.take_left', List.drop_left']
  rfl

theorem reads_withLength {c : Char} (hc : c.isDigit = false) :
    SelfDelimiting.Reads (withLength c) (readWithLength c) where
  read_append := readWithLength_append hc
  ne_nil part := by simp [withLength]

end Text
