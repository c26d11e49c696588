import Mathlib.Tactic.NormNum
import MoneyLaundering.Lib.Fields

/-!
# Doubles with two decimals

The hundredths of a double, rounded to the nearest and between two nearest to the even one, and
their digits.
-/

/-- The quotient, rounded to the nearest; in the middle to the even one. -/
def Nat.divRound (n d : Nat) : Nat :=
  if d < 2 * (n % d) ∨ d = 2 * (n % d) ∧ n / d % 2 = 1 then n / d + 1 else n / d

theorem Nat.divRound_le (n d : Nat) : Nat.divRound n d ≤ n / d + 1 := by
  unfold Nat.divRound
  split
  · exact Nat.le_refl _
  · exact Nat.le_succ _

namespace Double

/-- The significand of a magnitude; below the smallest normal one the leading bit is missing. -/
def significand (magnitude : Nat) : Nat :=
  if magnitude / 2 ^ 52 = 0 then magnitude % 2 ^ 52 else 2 ^ 52 + magnitude % 2 ^ 52

/-- The hundredths of a magnitude: the significand times a power of two, whose exponent is biased by
1075. -/
def hundredths (magnitude : Nat) : Nat :=
  let exponent := max (magnitude / 2 ^ 52) 1
  if 1075 ≤ exponent then significand magnitude * 2 ^ (exponent - 1075) * 100
  else Nat.divRound (significand magnitude * 100) (2 ^ (1075 - exponent))

/-- The digits of hundredths, with a point before the last two. -/
def pointed (n : Nat) : List Char :=
  Text.ofNat (n / 100) ++ ['.', Nat.digitChar (n / 10 % 10), Nat.digitChar (n % 10)]

/-- `f"{value:.2f}"`. -/
def fixed2 (bits : UInt64) : String :=
  let magnitude := bits.toNat % 2 ^ 63
  let sign := if 2 ^ 63 ≤ bits.toNat then "-" else ""
  if isNaN bits then "nan"
  else if magnitude = 0x7ff0000000000000 then sign ++ "inf"
  else sign ++ String.ofList (pointed (hundredths magnitude))

example : fixed2 0x4049000000000000 = "50.00" ∧ fixed2 0x3fc0000000000000 = "0.12" ∧
    fixed2 0x8000000000000001 = "-0.00" := by decide +kernel

theorem significand_lt (magnitude : Nat) : significand magnitude < 2 ^ 53 := by
  have := Nat.mod_lt magnitude (show 0 < 2 ^ 52 by decide)
  unfold significand
  split <;> omega

theorem significand_mul_lt {s e : Nat} (hs : s < 2 ^ 53) (he : e ≤ 971) :
    s * 2 ^ e < 10 ^ (78 * 4 + 1) := by
  have hsplit : ∀ b m n : Nat, b ^ (m * n + 1) = b * (b ^ m) ^ n := by
    intro b m n
    rw [Nat.pow_succ, Nat.pow_mul, Nat.mul_comm]
  have hpow : ∀ n : Nat, 53 + e < n → 2 ^ (53 + e) < 2 ^ n :=
    fun n => Nat.pow_lt_pow_right (by decide)
  have hle : (2 : Nat) ^ 256 ≤ 10 ^ 78 := by norm_num
  calc s * 2 ^ e ≤ 2 ^ 53 * 2 ^ e := Nat.mul_le_mul_right (2 ^ e) hs.le
    _ = 2 ^ (53 + e) := (Nat.pow_add 2 53 e).symm
    _ < 2 ^ (256 * 4 + 1) := hpow _ (by omega)
    _ = 2 * (2 ^ 256) ^ 4 := hsplit 2 256 4
    _ ≤ 10 * (10 ^ 78) ^ 4 := Nat.mul_le_mul (by decide) (Nat.pow_le_pow_left hle 4)
    _ = 10 ^ (78 * 4 + 1) := (hsplit 10 78 4).symm

/-- A magnitude that is a number has at most 313 digits before the point. -/
theorem hundredths_div_lt {magnitude : Nat} (h : magnitude < 0x7ff0000000000000) :
    hundredths magnitude / 100 < 10 ^ (78 * 4 + 1) := by
  have hexponent : magnitude / 2 ^ 52 < 2047 := by omega
  have hsignificand := significand_lt magnitude
  unfold hundredths
  dsimp only
  generalize max (magnitude / 2 ^ 52) 1 = exponent,
    (by omega : max (magnitude / 2 ^ 52) 1 ≤ 2046) = hle
  split
  · rw [Nat.mul_div_cancel _ (by decide)]
    exact significand_mul_lt hsignificand (by omega)
  · have hquotient := (Nat.divRound_le (significand magnitude * 100) (2 ^ (1075 - exponent))).trans
      (Nat.succ_le_succ (Nat.div_le_self _ _))
    have hpow : ∀ n : Nat, 18 ≤ n → 10 ^ 18 ≤ 10 ^ n := fun n => Nat.pow_le_pow_right (by decide)
    refine lt_of_lt_of_le ?_ (hpow (78 * 4 + 1) (by decide))
    omega

/-- The characters of a printed double. -/
theorem mem_fixed2 {bits : UInt64} {c : Char} (h : c ∈ (fixed2 bits).toList) :
    c.isDigit = true ∨ c ∈ ['-', '.', 'n', 'a', 'i', 'f'] := by
  have hsign : ∀ {t : List Char}, (∀ c ∈ t, c.isDigit = true ∨ c ∈ ['-', '.', 'n', 'a', 'i', 'f']) →
      c ∈ ((if 2 ^ 63 ≤ bits.toNat then "-" else "") : String).toList ++ t →
        c.isDigit = true ∨ c ∈ ['-', '.', 'n', 'a', 'i', 'f'] := by
    intro t ht hc
    rcases List.mem_append.mp hc with hc | hc
    · split at hc
      · exact .inr (List.mem_cons.mpr (.inl (List.mem_singleton.mp hc)))
      · cases hc
    · exact ht c hc
  unfold fixed2 at h
  dsimp only at h
  split at h
  · have hnan : c ∈ ['n', 'a', 'n'] := h
    simp only [List.mem_cons, List.not_mem_nil, or_false] at hnan
    rcases hnan with rfl | rfl | rfl <;> exact .inr (by decide)
  · split at h
    · rw [String.toList_append] at h
      refine hsign (fun c hc => ?_) h
      have hinf : c ∈ ['i', 'n', 'f'] := hc
      simp only [List.mem_cons, List.not_mem_nil, or_false] at hinf
      rcases hinf with rfl | rfl | rfl <;> exact .inr (by decide)
    · rw [String.toList_append, String.toList_ofList] at h
      refine hsign (fun c hc => ?_) h
      rcases List.mem_append.mp hc with hc | hc
      · exact .inl (Text.isDigit_of_mem_ofNat hc)
      · simp only [List.mem_cons, List.not_mem_nil, or_false] at hc
        rcases hc with rfl | rfl | rfl
        · exact .inr (by decide)
        · exact .inl
            (by rw [Nat.isDigit_digitChar]; exact decide_eq_true (Nat.mod_lt _ (by decide)))
        · exact .inl
            (by rw [Nat.isDigit_digitChar]; exact decide_eq_true (Nat.mod_lt _ (by decide)))

theorem length_fixed2_le (bits : UInt64) : (fixed2 bits).toList.length ≤ 317 := by
  have hsign : ((if 2 ^ 63 ≤ bits.toNat then "-" else "") : String).toList.length ≤ 1 := by
    split <;> decide
  unfold fixed2
  dsimp only
  split
  · decide
  · next hnan =>
    split
    · rw [String.toList_append, List.length_append]
      have hinf : "inf".toList.length = 3 := rfl
      omega
    · next hinf =>
      have hmagnitude : bits.toNat % 2 ^ 63 < 0x7ff0000000000000 := by
        simp only [isNaN, decide_eq_true_eq] at hnan
        omega
      have hdigits := Text.length_ofNat_le (by decide) (hundredths_div_lt hmagnitude)
      rw [String.toList_append, List.length_append, String.toList_ofList, pointed,
        List.length_append]
      simp only [List.length_cons, List.length_nil]
      omega

end Double
