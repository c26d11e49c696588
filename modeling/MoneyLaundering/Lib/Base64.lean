import MoneyLaundering.Lib.Bytes

/-!
# Base64

The standard alphabet with padding, three bytes to four characters, and the law that decoding undoes
encoding.
-/

namespace Base64

/-- The 64 digits. -/
def alphabet : List Char :=
  "ABCDEFGHIJKLMNOPQRSTUVWXYZabcdefghijklmnopqrstuvwxyz0123456789+/".toList

def digit (n : Nat) : Char := alphabet.getD n '='

/-- The number a digit stands for. -/
def value? (c : Char) : Option Nat := alphabet.findIdx? (· == c)

theorem value?_digit {n : Nat} (h : n < 64) : value? (digit n) = some n := by
  have hall : ∀ i : Fin 64, value? (digit i) = some i.val := by decide +kernel
  exact hall ⟨n, h⟩

/-- The padding is no digit. -/
theorem digit_ne_pad {n : Nat} (h : n < 64) : digit n ≠ '=' := by
  have hall : ∀ i : Fin 64, digit i ≠ '=' := by decide +kernel
  exact hall ⟨n, h⟩

def encode : Bytes → List Char
  | [] => []
  | [a] => [digit (a.toNat / 4), digit (a.toNat % 4 * 16), '=', '=']
  | [a, b] =>
    [digit (a.toNat / 4), digit (a.toNat % 4 * 16 + b.toNat / 16), digit (b.toNat % 16 * 4), '=']
  | a :: b :: c :: rest =>
    digit (a.toNat / 4) :: digit (a.toNat % 4 * 16 + b.toNat / 16) ::
      digit (b.toNat % 16 * 4 + c.toNat / 64) :: digit (c.toNat % 64) :: encode rest

/-- One group of four characters. -/
def decodeGroup (a b c d : Char) : Option Bytes := do
  let a ← value? a
  let b ← value? b
  let first := UInt8.ofNat (a * 4 + b / 16)
  if c = '=' ∧ d = '=' then return [first]
  let c ← value? c
  let second := UInt8.ofNat (b % 16 * 16 + c / 4)
  if d = '=' then return [first, second]
  let d ← value? d
  return [first, second, UInt8.ofNat (c % 4 * 64 + d)]

def decode : List Char → Option Bytes
  | [] => some []
  | a :: b :: c :: d :: rest => do return (← decodeGroup a b c d) ++ (← decode rest)
  | _ => none

private theorem ofNat_eq {n : Nat} {b : UInt8} (h : n = b.toNat) : UInt8.ofNat n = b := by
  subst h; exact UInt8.ofNat_toNat

/-- The three shapes of a group that `encode` writes. -/
theorem decodeGroup_one (a : UInt8) :
    decodeGroup (digit (a.toNat / 4)) (digit (a.toNat % 4 * 16)) '=' '=' = some [a] := by
  have ha := a.toNat_lt
  simp only [decodeGroup, value?_digit (show a.toNat / 4 < 64 by omega),
    value?_digit (show a.toNat % 4 * 16 < 64 by omega), Option.bind_eq_bind, Option.bind_some,
    and_self, if_true]
  rw [ofNat_eq (show a.toNat / 4 * 4 + a.toNat % 4 * 16 / 16 = a.toNat by omega)]
  rfl

theorem decodeGroup_two (a b : UInt8) :
    decodeGroup (digit (a.toNat / 4)) (digit (a.toNat % 4 * 16 + b.toNat / 16))
      (digit (b.toNat % 16 * 4)) '=' = some [a, b] := by
  have ha := a.toNat_lt
  have hb := b.toNat_lt
  have hc : digit (b.toNat % 16 * 4) ≠ '=' := digit_ne_pad (by omega)
  simp only [decodeGroup, value?_digit (show a.toNat / 4 < 64 by omega),
    value?_digit (show a.toNat % 4 * 16 + b.toNat / 16 < 64 by omega),
    value?_digit (show b.toNat % 16 * 4 < 64 by omega), Option.bind_eq_bind, Option.bind_some,
    hc, false_and, if_false, if_true, Option.pure_def]
  rw [ofNat_eq (show a.toNat / 4 * 4 + (a.toNat % 4 * 16 + b.toNat / 16) / 16 = a.toNat by omega),
    ofNat_eq (show (a.toNat % 4 * 16 + b.toNat / 16) % 16 * 16 + b.toNat % 16 * 4 / 4 = b.toNat by
      omega)]

theorem decodeGroup_three (a b c : UInt8) :
    decodeGroup (digit (a.toNat / 4)) (digit (a.toNat % 4 * 16 + b.toNat / 16))
      (digit (b.toNat % 16 * 4 + c.toNat / 64)) (digit (c.toNat % 64)) = some [a, b, c] := by
  have ha := a.toNat_lt
  have hb := b.toNat_lt
  have hc := c.toNat_lt
  have hne : digit (c.toNat % 64) ≠ '=' := digit_ne_pad (by omega)
  simp only [decodeGroup, value?_digit (show a.toNat / 4 < 64 by omega),
    value?_digit (show a.toNat % 4 * 16 + b.toNat / 16 < 64 by omega),
    value?_digit (show b.toNat % 16 * 4 + c.toNat / 64 < 64 by omega),
    value?_digit (show c.toNat % 64 < 64 by omega), Option.bind_eq_bind, Option.bind_some,
    hne, and_false, if_false, Option.pure_def]
  rw [ofNat_eq (show a.toNat / 4 * 4 + (a.toNat % 4 * 16 + b.toNat / 16) / 16 = a.toNat by omega),
    ofNat_eq (show (a.toNat % 4 * 16 + b.toNat / 16) % 16 * 16 +
      (b.toNat % 16 * 4 + c.toNat / 64) / 4 = b.toNat by omega),
    ofNat_eq (show (b.toNat % 16 * 4 + c.toNat / 64) % 4 * 64 + c.toNat % 64 = c.toNat by omega)]

theorem decode_encode (bs : Bytes) : decode (encode bs) = some bs := by
  fun_induction encode bs with
  | case1 => rfl
  | case2 a => simp [decode, decodeGroup_one]
  | case3 a b => simp [decode, decodeGroup_two]
  | case4 a b c rest ih => simp [decode, decodeGroup_three, ih]

example : decode (encode [77, 97]) = some [77, 97] := by decide

end Base64
