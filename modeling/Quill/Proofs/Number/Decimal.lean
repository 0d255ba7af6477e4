import Mathlib.Tactic.Ring
import Quill.Number.Shortest
import Quill.Proofs.Number.Exact
import Quill.Proofs.Grammar.Lexeme

/-!
# Shortest decimals read back

A decimal denotes the same double wherever its point stands: trailing zeros may go into the
exponent, and each layout of a decimal is a numeral of its value. The shortest decimal of a double
reads back as the double, since the search for it ends with the decimal that has all its digits.
-/

namespace Quill

open Text

/-! ## Digits -/

theorem digitValue?_of_isDigit {c : Char} (h : c.isDigit) :
    digitValue? c = some (c.toNat - '0'.toNat) := by
  have hascii : c.toNat < 128 := by
    have hle := UInt32.le_iff_toNat_le.1 (of_decide_eq_true (Bool.and_eq_true_iff.1 h).2)
    exact Nat.lt_of_le_of_lt hle (by decide)
  exact forall_ascii (p := fun c => c.isDigit → digitValue? c = some (c.toNat - '0'.toNat))
    (by decide +kernel) hascii h

theorem isDigit_of_mem_toDigits {n : Nat} {c : Char} (h : c ∈ Nat.toDigits 10 n) : isDigit c := by
  rw [isDigit, digitValue?_of_isDigit (Nat.isDigit_of_mem_toDigits (by decide) (by decide) h)]
  rfl

theorem foldl_digits (digits : List Char) (n : Nat) :
    digits.foldl (fun value c => 10 * value + (digitValue? c).getD 0) n =
      n * 10 ^ digits.length + digitsValue digits := by
  induction digits generalizing n with
  | nil => simp [digitsValue]
  | cons c digits ih =>
    rw [digitsValue, List.foldl_cons, List.foldl_cons, ih, ih (_ + _), List.length_cons]
    ring

/-- Digits in front count for a power of ten each. -/
theorem digitsValue_append (xs ys : List Char) :
    digitsValue (xs ++ ys) = digitsValue xs * 10 ^ ys.length + digitsValue ys := by
  rw [digitsValue, List.foldl_append, foldl_digits, ← digitsValue]

theorem digitsValue_zeros (n : Nat) : digitsValue (List.replicate n '0') = 0 := by
  induction n with
  | zero => rfl
  | succ n ih =>
    have hzero : digitsValue ['0'] = 0 := by decide
    rw [List.replicate_succ, ← List.singleton_append, digitsValue_append, ih, hzero, Nat.zero_mul]

theorem digitsValue_zeros_append (n : Nat) (digits : List Char) :
    digitsValue (List.replicate n '0' ++ digits) = digitsValue digits := by
  rw [digitsValue_append, digitsValue_zeros, Nat.zero_mul, Nat.zero_add]

theorem digitsValue_append_zeros (digits : List Char) (n : Nat) :
    digitsValue (digits ++ List.replicate n '0') = digitsValue digits * 10 ^ n := by
  rw [digitsValue_append, digitsValue_zeros, List.length_replicate, Nat.add_zero]

/-- The decimal digits of a number have its value. -/
theorem digitsValue_toDigits (n : Nat) : digitsValue (Nat.toDigits 10 n) = n := by
  have hfold : ∀ digits : List Char, (∀ c ∈ digits, c.isDigit) → ∀ m,
      digits.foldl (fun value c => 10 * value + (digitValue? c).getD 0) m =
        Nat.ofDigitChars 10 digits m := by
    intro digits
    induction digits with
    | nil => exact fun _ _ => rfl
    | cons c digits ih =>
      intro hdigits m
      rw [List.forall_mem_cons] at hdigits
      rw [List.foldl_cons, ih hdigits.2, digitValue?_of_isDigit hdigits.1]
      rfl
  refine (hfold _ ?_ 0).trans Nat.ofDigitChars_ten_toDigits
  exact fun c hc => Nat.isDigit_of_mem_toDigits (by decide) (by decide) hc

theorem digitCount_le_iff {n k : Nat} (hk : 0 < k) : digitCount n ≤ k ↔ n < 10 ^ k :=
  Nat.length_toDigits_le_iff (by decide) hk

theorem digitCount_mul_ten {n : Nat} (hn : n ≠ 0) : digitCount (n * 10) = digitCount n + 1 := by
  rw [digitCount, digitCount, Nat.toDigits_of_base_le (by decide) (by omega)]
  simp

/-! ## Decimals of one value -/

theorem nearestEven_mul_mul {k : Nat} (hk : 0 < k) (num den : Nat) :
    nearestEven (num * k) (den * k) = nearestEven num den := by
  have hless (a : Nat) : 2 * (a * k) < den * k ↔ 2 * a < den := by
    rw [← Nat.mul_assoc, Nat.mul_lt_mul_right hk]
  have htie (a : Nat) : 2 * (a * k) = den * k ↔ 2 * a = den := by
    rw [← Nat.mul_assoc, Nat.mul_left_inj (Nat.ne_of_gt hk)]
  simp only [nearestEven, Nat.mul_div_mul_right num den hk, Nat.mul_mod_mul_right, hless, htie]

/-- A common factor of numerator and denominator makes no difference. -/
theorem Number.ofQuotient_mul_mul {k : Nat} (hk : 0 < k) (negative : Bool) (num den : Nat) :
    ofQuotient negative (num * k) (den * k) = ofQuotient negative num den := by
  have hround : roundQuotient (num * k) (den * k) = roundQuotient num den := by
    rw [roundQuotient, roundQuotient, spacing, Nat.mul_div_mul_right num den hk, ← spacing,
      Nat.mul_right_comm, nearestEven_mul_mul hk]
  simp only [ofQuotient, hround]

theorem Number.ofDecimal_of_range {digits : Nat} {e : Int} (negative : Bool) (hdigits : digits ≠ 0)
    (hupper : digitCount digits + e ≤ 310) (hlower : -324 ≤ digitCount digits + e) :
    ofDecimal negative digits e =
      ofQuotient negative (digits * Nat.pow 10 e.toNat * unitsPerOne)
        (Nat.pow 10 (-e).toNat) := by
  rw [ofDecimal, if_neg hdigits, if_neg (by omega), if_neg (by omega)]

/-- A zero behind the digits may be taken for one in the exponent. -/
theorem Number.ofDecimal_mul_ten (negative : Bool) (digits : Nat) (e : Int) :
    ofDecimal negative (digits * 10) (e - 1) = ofDecimal negative digits e := by
  by_cases hzero : digits = 0
  · simp [ofDecimal, hzero]
  have hcount : (digitCount (digits * 10) : Int) + (e - 1) = digitCount digits + e := by
    rw [digitCount_mul_ten hzero]
    omega
  simp only [ofDecimal, hcount, Nat.mul_eq_zero, hzero, false_or, OfNat.ofNat_ne_zero, if_false]
  split
  · rfl
  split
  · rfl
  generalize unitsPerOne = one
  by_cases he : 1 ≤ e
  · obtain ⟨k, rfl⟩ : ∃ k : Nat, e = k + 1 := ⟨(e - 1).toNat, by omega⟩
    have hup : ((k : Int) + 1).toNat = k + 1 := by omega
    have hdown : (-((k : Int) + 1)).toNat = 0 := by omega
    have hdown' : (-(k : Int)).toNat = 0 := by omega
    simp only [hup, hdown, hdown', Int.add_sub_cancel, Int.toNat_natCast, Nat.pow_eq]
    congr 1
    ring
  · obtain ⟨k, rfl⟩ : ∃ k : Nat, e = -(k : Int) := ⟨(-e).toNat, by omega⟩
    have hup : (-(k : Int)).toNat = 0 := by omega
    have hup' : (-(k : Int) - 1).toNat = 0 := by omega
    have hdown : (-(-(k : Int) - 1)).toNat = k + 1 := by omega
    simp only [hup, hup', hdown, Int.neg_neg, Int.toNat_natCast, Nat.pow_eq]
    refine Eq.trans ?_ (ofQuotient_mul_mul (by decide : 0 < 10) negative _ _)
    congr 1
    ring

/-- Zeros at the end of the digits make up for a smaller exponent. -/
theorem Number.ofDecimal_mul_pow (negative : Bool) (digits : Nat) (e : Int) (k : Nat) :
    ofDecimal negative (digits * 10 ^ k) (e - k) = ofDecimal negative digits e := by
  induction k generalizing e with
  | zero => simp
  | succ k ih =>
    have hexponent : e - ((k + 1 : Nat) : Int) = e - k - 1 := by omega
    rw [pow_succ, ← Nat.mul_assoc, hexponent, ofDecimal_mul_ten, ih]

namespace Decimal

/-- Zeros at the end may be dropped for the exponent. -/
theorem value_strip (n : Nat) (d : Decimal) : (strip n d).value = d.value := by
  induction n generalizing d with
  | zero => rfl
  | succ n ih =>
    rw [strip]
    split
    · rename_i hmod
      have hdigits : d.digits = d.digits / 10 * 10 := by omega
      have hexponent : d.exponent = d.exponent + 1 - 1 := by omega
      rw [ih, value, value, ← Number.ofDecimal_mul_ten, ← hdigits, ← hexponent]
    · rfl

theorem pow_five_mul_unitsPerOne :
    Nat.pow 5 unitExponent * unitsPerOne = Nat.pow 10 unitExponent := by
  decide +kernel

/-- The decimal with all digits of a magnitude reads back as it. -/
theorem value_exact {units : Nat} (fits : Fits units) :
    (exact units).value = Number.finite false units fits := by
  rcases Nat.eq_zero_or_pos units with rfl | hpos
  · simp [exact, value, Number.ofDecimal, Number.signedZero]
  have hfive : 0 < Nat.pow 5 unitExponent := by decide +kernel
  have hten : 0 < Nat.pow 10 unitExponent := by decide +kernel
  have hupper : digitCount (units * Nat.pow 5 unitExponent) ≤ 309 + unitExponent := by
    rw [digitCount_le_iff (by decide)]
    calc units * Nat.pow 5 unitExponent
        < unitLimit * Nat.pow 5 unitExponent := Nat.mul_lt_mul_of_pos_right fits.1 hfive
      _ ≤ 10 ^ (309 + unitExponent) := by decide +kernel
  have hlower : 750 < digitCount (units * Nat.pow 5 unitExponent) := by
    rw [← Nat.not_le, digitCount_le_iff (by decide), Nat.not_lt]
    calc 10 ^ 750 ≤ Nat.pow 5 unitExponent := by decide +kernel
      _ ≤ units * Nat.pow 5 unitExponent := Nat.le_mul_of_pos_left _ hpos
  have hunit : unitExponent = 1074 := rfl
  have hone : Nat.pow 10 (-(unitExponent : Int)).toNat = 1 := by decide +kernel
  have hnum : units * Nat.pow 5 unitExponent * Nat.pow 10 (-(unitExponent : Int)).toNat *
      unitsPerOne = units * Nat.pow 10 unitExponent := by
    rw [hone, Nat.mul_one, Nat.mul_assoc, pow_five_mul_unitsPerOne]
  simp only [value, exact]
  rw [Number.ofDecimal_of_range false (Nat.ne_of_gt (Nat.mul_pos hpos hfive)) (by omega)
    (by omega), hnum, Int.neg_neg, Int.toNat_natCast]
  exact Number.ofQuotient_mul fits hten false

/-- The shortest decimal of a magnitude reads back as it. -/
theorem value_shortest {units : Nat} (fits : Fits units) :
    (shortest units fits).value = Number.finite false units fits := by
  rw [shortest, value_strip]
  cases hfound : (candidates units).find? fun d => d.value = Number.finite false units fits with
  | none => exact value_exact fits
  | some d => simpa using List.find?_some hfound

/-! ## Layouts -/

/-- The exponent is written with its sign, and with zeros in front up to its width. -/
theorem value_exponent (point : Int) (zeros : Nat) :
    Numeral.Exponent.value ⟨'e', some (if point < 0 then '-' else '+'),
      List.replicate zeros '0' ++ Nat.toDigits 10 point.natAbs⟩ = point := by
  simp only [Numeral.Exponent.value, digitsValue_zeros_append, digitsValue_toDigits]
  by_cases hpoint : point < 0
  · simp only [hpoint, if_true]
    omega
  · have hsign : some '+' ≠ some '-' := by decide
    simp only [hpoint, if_false, hsign]
    omega

/-- Each layout of a decimal is a numeral of its value. -/
theorem value_numeral (d : Decimal) : d.numeral.value = d.value := by
  obtain ⟨n, e⟩ := d
  have hlength : 0 < (Nat.toDigits 10 n).length := Nat.length_toDigits_pos
  have hdigits := digitsValue_toDigits n
  simp only [numeral, value]
  generalize Nat.toDigits 10 n = digits at hlength hdigits
  split
  · -- a zero before the point
    have hvalue : digitsValue (['0'] ++
        (List.replicate (-(digits.length + e : Int)).toNat '0' ++ digits)) = n := by
      rw [← hdigits, ← digitsValue_zeros_append _ digits]
      exact digitsValue_zeros_append 1 _
    simp only [Numeral.value, hvalue, Option.map_none, Option.getD_none, List.length_append,
      List.length_replicate]
    congr 1
    omega
  split
  · -- the point among the digits
    simp only [Numeral.value, List.take_append_drop, hdigits, Option.map_none, Option.getD_none,
      List.length_drop]
    congr 1
    omega
  split
  · -- zeros up to the point, and one behind it
    have hzeros : ((digits.length : Int) + e).toNat - digits.length = e.toNat := by omega
    have hvalue : digitsValue (digits ++ List.replicate e.toNat '0' ++ ['0']) =
        n * 10 ^ (e.toNat + 1) := by
      rw [← hdigits, ← digitsValue_append_zeros, List.replicate_succ', ← List.append_assoc]
    have hexponent : (0 : Int) - (1 : Nat) = e - (e.toNat + 1 : Nat) := by omega
    simp only [Numeral.value, hzeros, hvalue, Option.map_none, Option.getD_none,
      List.length_singleton]
    rw [hexponent, Number.ofDecimal_mul_pow]
  · -- one digit before the point, and an exponent
    simp only [Numeral.value, List.take_append_drop, hdigits, Option.map_some, Option.getD_some,
      value_exponent, List.length_drop]
    congr 1
    omega

end Decimal
end Quill
