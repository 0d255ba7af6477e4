import Quill.Number.Elementary

/-!
# Powers of doubles

The power of a double is an exact fraction when the exponent is whole, or when enough square roots
of the base are exact. Such a power may lie halfway between two doubles, so it is computed as a
fraction; every other power is irrational or has more digits than any halfway point, and enclosures
of `e ^ (y ln x)` settle it.

## Main definitions

* `Dyadic` — an odd number times a power of two.
* `Dyadic.root?` — the exact root that turns a fractional exponent into a whole one.
* `Number.pow x y` — the power with the IEEE 754 values at zeros, infinities and NaN.
-/

namespace Quill

/-- The number `odd * 2 ^ exponent`. -/
structure Dyadic where
  odd : Nat
  exponent : Int
deriving DecidableEq

namespace Dyadic

/-- Moves factors of two into the exponent, at most `n` of them. -/
def reduce : Nat → Dyadic → Dyadic
  | 0, x => x
  | n + 1, x => if x.odd % 2 = 0 then reduce n ⟨x.odd / 2, x.exponent + 1⟩ else x

/-- The dyadic value of a magnitude in units. -/
def ofUnits (units : Nat) : Dyadic :=
  reduce (units.log2 + 1) ⟨units, -unitsPerOne.log2⟩

/-- The exact square root, if it is dyadic. -/
def sqrt? (x : Dyadic) : Option Dyadic :=
  let root := Nat.sqrt x.odd
  if root * root = x.odd ∧ x.exponent % 2 = 0 then some ⟨root, x.exponent / 2⟩ else none

/-- For the power `x ^ y` with `y` in units, an equal power with a whole exponent. Each square root
of the base doubles the exponent. -/
def root? : Nat → Dyadic → Nat → Option (Dyadic × Nat)
  | 0, _, _ => none
  | n + 1, x, y =>
    if y % unitsPerOne = 0 then some (x, y / unitsPerOne)
    else x.sqrt?.bind fun root => root? n root (2 * y)

/-- Whole exponents up to this one are raised exactly. -/
def exactExponent : Nat := 64

/-- The power `x ^ ± n` as a double. A power of two far outside the doubles overflows or
vanishes. -/
def power? (negative : Bool) (x : Dyadic) (reciprocal : Bool) (n : Nat) : Option Number :=
  let exponent := (if reciprocal then -1 else 1) * x.exponent * n
  if x.odd = 1 then
    if limitExponent ≤ exponent then some (Number.infinity negative)
    else if exponent < -unitExponent then some (Number.signedZero negative)
    else some (Number.ofQuotient negative (Nat.pow 2 (exponent + unitExponent).toNat) 1)
  else if exactExponent < n then none
  else
    let scaleUp := Nat.pow 2 (exponent + unitExponent).toNat
    let scaleDown := Nat.pow 2 (-(exponent + unitExponent)).toNat
    if reciprocal then some (Number.ofQuotient negative scaleUp (Nat.pow x.odd n * scaleDown))
    else some (Number.ofQuotient negative (Nat.pow x.odd n * scaleUp) scaleDown)

end Dyadic

namespace Number

/-- One attempt at `± x ^ ± y` for magnitudes in units. -/
def powAttempt (negative : Bool) (base : Nat) (reciprocal : Bool) (exponent : Nat) (p : Nat) :
    Option Number :=
  let y : Int := if reciprocal then -exponent else exponent
  expAttempt negative p (((logarithm p base).scale y).divide unitsPerOne)

/-- `± x ^ ± y` for positive magnitudes in units, the base not one. -/
def powMagnitude (negative : Bool) (base : Nat) (reciprocal : Bool) (exponent : Nat) : Number :=
  let exact := (Dyadic.root? 16 (Dyadic.ofUnits base) exponent).bind fun (root, n) =>
    root.power? negative reciprocal n
  exact.getD (correctlyRounded (powAttempt negative base reciprocal exponent))

/-- The power. Anything to the power zero is one, and so is one to any power; a negative base needs
a whole exponent and gives a negative result when that is odd. -/
def pow (x y : Number) : Number :=
  if y.isZero ∨ x = one then one
  else match x, y with
    | nan, _ | _, nan => nan
    | x, infinity down =>
      if x.abs = one then one
      else if x.abs.less one = down then infinity false
      else zero
    | infinity negative, y =>
      if y.isNegative then signedZero (negative && y.isOdd) else infinity (negative && y.isOdd)
    | finite negative base _, y@(finite reciprocal exponent _) =>
      if base = 0 then
        if reciprocal then infinity (negative && y.isOdd) else signedZero (negative && y.isOdd)
      else if negative && !y.isWhole then nan
      else if base = unitsPerOne then if negative && y.isOdd then one.neg else one
      else powMagnitude (negative && y.isOdd) base reciprocal exponent

theorem pow_of_isZero {x y : Number} (h : y.isZero) : pow x y = one := by
  simp [pow, h]

theorem one_pow (y : Number) : pow one y = one := by
  simp [pow]

end Number
end Quill
