/-!
# Double-precision numbers

A finite double is a sign and a whole number of units, where a unit is `2 ^ -1074`, the smallest
positive double. In this view every operation is exact arithmetic on whole numbers followed by one
rounding, and a double is nothing but a whole number with few significant bits. Powers are written
with `Nat.pow`, so that they mean the same whatever else is imported.

## Main definitions

* `Fits units` — `units` is the magnitude of a finite double.
* `Number` — the doubles, with one NaN.
* `Number.ofQuotient negative num den` — the double nearest to `num / den` units, ties to even.
* `Number.place x` — the place of `x` on the line, in units; a NaN has none.
-/

namespace Quill

/-- Bits in the significand of a double. -/
def significandBits : Nat := 53

/-- A unit is two to the minus this power. -/
def unitExponent : Nat := 1074

/-- Two to this power is the least that is out of reach of finite doubles. -/
def limitExponent : Nat := 1024

/-- The number of units in one. -/
def unitsPerOne : Nat := Nat.pow 2 unitExponent

/-- The least magnitude, in units, that is out of reach of finite doubles. -/
def unitLimit : Nat := Nat.pow 2 (unitExponent + limitExponent)

/-- Magnitudes of finite doubles: at most 53 significant bits, and below the limit. -/
def Fits (units : Nat) : Prop :=
  units < unitLimit ∧ units % Nat.pow 2 (units.log2 + 1 - significandBits) = 0

instance (units : Nat) : Decidable (Fits units) := by
  unfold Fits
  infer_instance

/-! ## Rounding -/

/-- The whole number nearest to `num / den`; a tie goes to the even one. -/
def nearestEven (num den : Nat) : Nat :=
  let quotient := num / den
  let rest := num % den
  if 2 * rest < den ∨ (2 * rest = den ∧ quotient % 2 = 0) then quotient else quotient + 1

/-- The spacing of the 53-bit numbers around `num / den`. -/
def spacing (num den : Nat) : Nat :=
  Nat.pow 2 ((num / den).log2 + 1 - significandBits)

/-- `num / den` rounded to 53 significant bits; a tie goes to the even neighbour. -/
def roundQuotient (num den : Nat) : Nat :=
  nearestEven num (den * spacing num den) * spacing num den

theorem nearestEven_le (num den : Nat) : nearestEven num den ≤ num / den + 1 := by
  simp only [nearestEven]
  split <;> omega

/-- A multiple of a power of two by at most `2 ^ 53` has 53 significant bits. -/
theorem mul_two_pow_mod {k : Nat} (hk : k ≤ Nat.pow 2 significandBits) (s : Nat) :
    (k * Nat.pow 2 s) % Nat.pow 2 ((k * Nat.pow 2 s).log2 + 1 - significandBits) = 0 := by
  replace hk : k ≤ 2 ^ significandBits := hk
  change (k * 2 ^ s) % 2 ^ ((k * 2 ^ s).log2 + 1 - significandBits) = 0
  rcases Nat.eq_zero_or_pos k with rfl | hpos
  · simp
  have hne : k * 2 ^ s ≠ 0 := Nat.ne_of_gt (Nat.mul_pos hpos (Nat.two_pow_pos s))
  apply Nat.mod_eq_zero_of_dvd
  rcases Nat.lt_or_eq_of_le hk with hlt | rfl
  · have hlog : (k * 2 ^ s).log2 < significandBits + s := by
      rw [Nat.log2_lt hne, Nat.pow_add]
      exact Nat.mul_lt_mul_of_pos_right hlt (Nat.two_pow_pos s)
    exact Nat.dvd_trans (Nat.pow_dvd_pow 2 (by omega)) (Nat.dvd_mul_left _ _)
  · rw [← Nat.pow_add, Nat.log2_two_pow]
    exact Nat.pow_dvd_pow 2 (by unfold significandBits; omega)

theorem nearestEven_spacing_le (num den : Nat) :
    nearestEven num (den * spacing num den) ≤ Nat.pow 2 significandBits := by
  refine Nat.le_trans (nearestEven_le _ _) ?_
  have hlt : num / den < Nat.pow 2 significandBits * spacing num den := by
    refine Nat.lt_of_lt_of_le Nat.lt_log2_self ?_
    rw [spacing, Nat.pow_eq, Nat.pow_eq, ← Nat.pow_add]
    exact Nat.pow_le_pow_right (by decide) (by omega)
  have := Nat.div_lt_of_lt_mul (Nat.mul_comm _ _ ▸ hlt)
  rw [← Nat.div_div_eq_div_mul]
  omega

theorem fits_roundQuotient {num den : Nat} (h : roundQuotient num den < unitLimit) :
    Fits (roundQuotient num den) :=
  ⟨h, mul_two_pow_mod (nearestEven_spacing_le num den) _⟩

/-! ## Numbers -/

/-- A double: one NaN, two infinities, and a sign with a magnitude in units of `2 ^ -1074`. -/
inductive Number where
  | nan
  | infinity (negative : Bool)
  | finite (negative : Bool) (units : Nat) (fits : Fits units)
deriving DecidableEq

namespace Number

/-- The double nearest to `num / den` units with the given sign; beyond the finite doubles it is an
infinity. -/
def ofQuotient (negative : Bool) (num den : Nat) : Number :=
  if h : roundQuotient num den < unitLimit then
    finite negative (roundQuotient num den) (fits_roundQuotient h)
  else infinity negative

/-- A zero of either sign. -/
def signedZero (negative : Bool) : Number := finite negative 0 (by decide +kernel)

/-- Zero. -/
def zero : Number := signedZero false

/-- One. -/
def one : Number := finite false unitsPerOne (by decide +kernel)

instance : Inhabited Number := ⟨zero⟩

/-- The place on the line in units; the infinities lie just beyond every finite double. -/
def place : Number → Option Int
  | nan => none
  | infinity negative => some (if negative then -unitLimit else unitLimit)
  | finite negative units _ => some (if negative then -units else units)

/-- Numerical equality: the zeros are equal, and a NaN equals nothing. -/
def equal (x y : Number) : Bool :=
  match x.place, y.place with
  | some a, some b => a = b
  | _, _ => false

/-- Numerical order, false as soon as a NaN takes part. -/
def less (x y : Number) : Bool :=
  match x.place, y.place with
  | some a, some b => a < b
  | _, _ => false

/-- `less` or `equal`. -/
def lessEqual (x y : Number) : Bool :=
  match x.place, y.place with
  | some a, some b => a ≤ b
  | _, _ => false

/-- The sign bit; a NaN has none. -/
def isNegative : Number → Bool
  | nan => false
  | infinity negative => negative
  | finite negative _ _ => negative

/-- Neither infinite nor NaN. -/
def isFinite : Number → Bool
  | finite _ _ _ => true
  | _ => false

/-- Zero of either sign. -/
def isZero : Number → Bool
  | finite _ units _ => units = 0
  | _ => false

/-- A finite double without a fractional part. -/
def isWhole : Number → Bool
  | finite _ units _ => units % unitsPerOne = 0
  | _ => false

/-- A whole double that is not a multiple of two. -/
def isOdd : Number → Bool
  | finite _ units _ => units % (2 * unitsPerOne) = unitsPerOne
  | _ => false

/-- The sign flipped; a NaN stays. -/
def neg : Number → Number
  | nan => nan
  | infinity negative => infinity !negative
  | finite negative units fits => finite (!negative) units fits

/-- The magnitude without its sign. -/
def abs : Number → Number
  | nan => nan
  | infinity _ => infinity false
  | finite _ units fits => finite false units fits

@[simp] theorem place_nan : nan.place = none := rfl

@[simp] theorem place_zero : zero.place = some 0 := rfl

theorem place_eq_none_iff {x : Number} : x.place = none ↔ x = nan := by
  constructor
  · intro h
    cases x with
    | nan => rfl
    | infinity _ => exact nomatch h
    | finite _ _ _ => exact nomatch h
  · rintro rfl
    rfl

theorem equal_comm (x y : Number) : x.equal y = y.equal x := by
  unfold equal
  cases x.place <;> cases y.place <;> simp [eq_comm]

theorem isZero_iff_equal_zero (x : Number) : x.isZero = x.equal zero := by
  cases x with
  | nan => rfl
  | infinity negative => cases negative <;> decide +kernel
  | finite negative units fits =>
    simp only [isZero, equal, place]
    apply decide_eq_decide.2
    split <;> omega

end Number
end Quill
