import Mathlib.Algebra.Group.Nat.Defs
import Mathlib.Data.List.Basic

/-!
# Decimal numbers and separators in text

Splitting a list of characters at a separator and reading decimal numbers, with the laws that undo
the corresponding formatting: a text built from parts that do not contain the separator splits
back into those parts, and the decimal digits of a number read back as that number.
-/

namespace Text

/-- The decimal digits of `n`. -/
def ofNat (n : Nat) : List Char := Nat.toDigits 10 n

/-- Read a non-empty list of decimal digits. -/
def toNat? (cs : List Char) : Option Nat :=
  if cs ≠ [] ∧ cs.all Char.isDigit = true then some (Nat.ofDigitChars 10 cs 0) else none

/-- Cut at every occurrence of `c`. -/
def split (c : Char) : List Char → List (List Char)
  | [] => [[]]
  | x :: xs =>
    if x = c then [] :: split c xs
    else match split c xs with
      | [] => [[x]]
      | p :: ps => (x :: p) :: ps

/-- The parts with `c` between them. -/
def join (c : Char) : List (List Char) → List Char
  | [] => []
  | [a] => a
  | a :: b :: parts => a ++ c :: join c (b :: parts)

/-- Cut at the first occurrence of `c`, if there is one. -/
def split1 (c : Char) : List Char → Option (List Char × List Char)
  | [] => none
  | x :: xs => if x = c then some ([], xs) else (split1 c xs).map fun p => (x :: p.1, p.2)

/-- Cut at the last occurrence of `c`, if there is one. -/
def rsplit1 (c : Char) : List Char → Option (List Char × List Char)
  | [] => none
  | x :: xs =>
    match rsplit1 c xs with
    | some p => some (x :: p.1, p.2)
    | none => if x = c then some ([], xs) else none

/-- White space, as Unicode defines it for stripping text. -/
def isSpace (c : Char) : Bool :=
  (9 ≤ c.toNat && c.toNat ≤ 13) || (28 ≤ c.toNat && c.toNat ≤ 32) ||
    (0x2000 ≤ c.toNat && c.toNat ≤ 0x200a) ||
    [0x85, 0xa0, 0x1680, 0x2028, 0x2029, 0x202f, 0x205f, 0x3000].contains c.toNat

/-- Drop the characters that satisfy `p` from the right. -/
def rstrip (p : Char → Bool) (cs : List Char) : List Char := (cs.reverse.dropWhile p).reverse

/-- Drop white space on both sides. -/
def strip (cs : List Char) : List Char := rstrip isSpace (cs.dropWhile isSpace)

theorem isDigit_of_mem_ofNat {n : Nat} {c : Char} (h : c ∈ ofNat n) : c.isDigit = true :=
  Nat.isDigit_of_mem_toDigits (by decide) (by decide) h

theorem length_ofNat_le {n d : Nat} (hd : 0 < d) (h : n < 10 ^ d) : (ofNat n).length ≤ d :=
  (Nat.length_toDigits_le_iff (by decide) hd).mpr h

/-- A separator that is not a digit does not occur in a number. -/
theorem not_mem_ofNat {c : Char} (hc : c.isDigit = false) (n : Nat) : c ∉ ofNat n := fun h => by
  rw [isDigit_of_mem_ofNat h] at hc; contradiction

@[simp] theorem toNat?_ofNat (n : Nat) : toNat? (ofNat n) = some n := by
  have hne : ofNat n ≠ [] := Nat.toDigits_ne_nil
  have hall : (ofNat n).all Char.isDigit = true :=
    List.all_eq_true.mpr fun _ hc => isDigit_of_mem_ofNat hc
  rw [toNat?, if_pos ⟨hne, hall⟩, ofNat, Nat.ofDigitChars_ten_toDigits]

theorem ofNat_injective : Function.Injective ofNat := fun m n h =>
  Option.some.inj ((toNat?_ofNat m).symm.trans (h ▸ toNat?_ofNat n))

theorem split_of_not_mem {c : Char} {a : List Char} (h : c ∉ a) : split c a = [a] := by
  induction a with
  | nil => rfl
  | cons x xs ih =>
    simp only [List.mem_cons, not_or] at h
    rw [split, if_neg (Ne.symm h.1), ih h.2]

/-- The first part of a text ends at the first separator. -/
theorem split_append_cons {c : Char} {a b : List Char} (h : c ∉ a) :
    split c (a ++ c :: b) = a :: split c b := by
  induction a with
  | nil => simp [split]
  | cons x xs ih =>
    simp only [List.mem_cons, not_or] at h
    rw [List.cons_append, split, if_neg (Ne.symm h.1), ih h.2]

/-- Parts without the separator are what the joined text splits into. -/
theorem split_join {c : Char} {parts : List (List Char)} (hne : parts ≠ [])
    (h : ∀ part ∈ parts, c ∉ part) : split c (join c parts) = parts := by
  induction parts with
  | nil => contradiction
  | cons a parts ih =>
    cases parts with
    | nil => exact split_of_not_mem (h a List.mem_cons_self)
    | cons b parts =>
      rw [join, split_append_cons (h a List.mem_cons_self), ih (List.cons_ne_nil _ _)
        fun part hp => h part (List.mem_cons_of_mem _ hp)]

/-- Parts without the separator are told apart by what they join to. -/
theorem join_inj {c : Char} {a b : List (List Char)} (ha : a ≠ [] ∧ ∀ part ∈ a, c ∉ part)
    (hb : b ≠ [] ∧ ∀ part ∈ b, c ∉ part) (h : join c a = join c b) : a = b := by
  rw [← split_join ha.1 ha.2, ← split_join hb.1 hb.2, h]

theorem split1_append_cons {c : Char} {a b : List Char} (h : c ∉ a) :
    split1 c (a ++ c :: b) = some (a, b) := by
  induction a with
  | nil => simp [split1]
  | cons x xs ih =>
    simp only [List.mem_cons, not_or] at h
    rw [List.cons_append, split1, if_neg (Ne.symm h.1), ih h.2, Option.map_some]

theorem rsplit1_of_not_mem {c : Char} {a : List Char} (h : c ∉ a) : rsplit1 c a = none := by
  induction a with
  | nil => rfl
  | cons x xs ih =>
    simp only [List.mem_cons, not_or] at h
    rw [rsplit1, ih h.2]; simp [Ne.symm h.1]

/-- The last part of a text starts after the last separator. -/
theorem rsplit1_append_cons {c : Char} {a b : List Char} (h : c ∉ b) :
    rsplit1 c (a ++ c :: b) = some (a, b) := by
  induction a with
  | nil => simp [rsplit1, rsplit1_of_not_mem h]
  | cons x xs ih => rw [List.cons_append, rsplit1, ih]

/-! ## Stripping -/

theorem rstrip_append_replicate {p : Char → Bool} {c : Char} (hc : p c = true)
    (cs : List Char) (n : Nat) :
    rstrip p (cs ++ List.replicate n c) = rstrip p cs := by
  have h : ∀ n, (List.replicate n c ++ cs.reverse).dropWhile p = cs.reverse.dropWhile p := by
    intro n
    induction n with
    | zero => rfl
    | succ n ih => rw [List.replicate_succ, List.cons_append, List.dropWhile_cons_of_pos hc, ih]
  rw [rstrip, List.reverse_append, List.reverse_replicate, h, rstrip]

theorem dropWhile_eq_self {p : Char → Bool} {cs : List Char}
    (h : ∀ c, cs.head? = some c → p c = false) : cs.dropWhile p = cs := by
  cases cs with
  | nil => rfl
  | cons c cs => exact List.dropWhile_cons_of_neg (by simp [h c rfl])

theorem rstrip_eq_self {p : Char → Bool} {cs : List Char}
    (h : ∀ c, cs.getLast? = some c → p c = false) : rstrip p cs = cs := by
  rw [rstrip, dropWhile_eq_self, List.reverse_reverse]
  intro c hc
  exact h c (by rwa [← List.head?_reverse])

/-- Text that neither begins nor ends with white space is stripped to itself. -/
theorem strip_eq_self {cs : List Char} (hhead : ∀ c, cs.head? = some c → isSpace c = false)
    (hlast : ∀ c, cs.getLast? = some c → isSpace c = false) : strip cs = cs := by
  rw [strip, dropWhile_eq_self hhead, rstrip_eq_self hlast]

theorem rstrip_last {p : Char → Bool} {cs : List Char} {c : Char}
    (h : (rstrip p cs).getLast? = some c) :
    p c = false := by
  rw [rstrip, List.getLast?_reverse] at h
  have := List.head?_dropWhile_not p cs.reverse
  rw [h] at this
  simpa using this

theorem rstrip_prefix {p : Char → Bool} (cs : List Char) : rstrip p cs <+: cs := by
  rw [rstrip, ← List.reverse_suffix, List.reverse_reverse]
  exact List.dropWhile_suffix p

theorem strip_strip (cs : List Char) : strip (strip cs) = strip cs := by
  refine strip_eq_self (fun c hc => ?_) (fun c hc => rstrip_last hc)
  obtain ⟨t, ht⟩ := rstrip_prefix (p := isSpace) (cs.dropWhile isSpace)
  have hh : (cs.dropWhile isSpace).head? = some c := by
    rw [← ht, ← strip, List.head?_append, hc]
    rfl
  have := List.head?_dropWhile_not isSpace cs
  rw [hh] at this
  simpa using this

theorem not_isSpace_of_isDigit {c : Char} (h : c.isDigit = true) : isSpace c = false := by
  simp only [Char.isDigit, Bool.and_eq_true, decide_eq_true_eq, UInt32.le_iff_toNat_le] at h
  have hlo : 48 ≤ c.toNat := h.1
  have hhi : c.toNat ≤ 57 := h.2
  simp only [isSpace, List.contains_eq_mem, List.mem_cons, List.not_mem_nil, or_false,
    Bool.or_eq_false_iff, Bool.and_eq_false_iff, decide_eq_false_iff_not]
  omega

end Text
