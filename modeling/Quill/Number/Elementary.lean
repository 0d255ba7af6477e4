import Quill.Number.Enclosure

/-!
# Elementary functions on doubles

Each function returns the double nearest to the exact value. Roots are taken exactly from a whole
radicand; the transcendental functions are irrational away from a few arguments, so growing
enclosures settle them. A host may answer a neighbouring double instead; what does not depend on
the last digit is stated for any `Arithmetic`.

## Main definitions

* `Number.sqrt`, `Number.hypot` — roots of exact radicands.
* `Number.exp`, `Number.ln`, `Number.sin`, `Number.cos` — by enclosures.
-/

namespace Quill.Number

/-! ## Roots -/

/-- The square root of a whole number, rounded to a double. The root of `4 * radicand` and a bit
for an inexact root tell every quarter of a unit apart. -/
def ofRoot (negative : Bool) (radicand : Nat) : Number :=
  let root := Nat.sqrt (4 * radicand)
  let sticky := if root * root = 4 * radicand then 0 else 1
  ofQuotient negative (2 * root + sticky) 4

/-- The square root; NaN below zero, and a negative zero stays. -/
def sqrt : Number → Number
  | nan => nan
  | infinity negative => if negative then nan else infinity false
  | finite negative units _ =>
    if units = 0 then signedZero negative
    else if negative then nan
    else ofRoot false (units * unitsPerOne)

/-- The sum of the squares of the magnitudes in units. -/
def sumOfSquares : List Number → Nat
  | [] => 0
  | finite _ units _ :: xs => units * units + sumOfSquares xs
  | _ :: xs => sumOfSquares xs

/-- The Euclidean norm. An infinite coordinate makes it infinite even beside a NaN. -/
def hypot (xs : List Number) : Number :=
  if xs.any (fun x => x.abs = infinity false) then infinity false
  else if nan ∈ xs then nan
  else ofRoot false (sumOfSquares xs)

/-! ## Exponential and logarithm -/

/-- Powers of e above this exponent overflow, and below its negative they vanish. -/
def exponentRange : Int := 760

/-- As many squarings undo the halvings that bring every exponent in the range below one half. -/
def squarings : Nat := 11

/-- One attempt at `± e ^ t`: the exponent is halved, and the power squared as often. -/
def expAttempt (negative : Bool) (p : Nat) (t : Enclosure) : Option Number :=
  if exponentRange * Nat.pow 2 p < t.lower then some (infinity negative)
  else if t.upper < -exponentRange * Nat.pow 2 p then some (signedZero negative)
  else if (Nat.pow 2 p : Int) < t.upper - t.lower then none
  else
    let power :=
      (Enclosure.exponentialSeries p (t.divide (Nat.pow 2 squarings))).squared p squarings
    (power.rounded? p).map fun x => if negative then x.neg else x

/-- The exponential. -/
def exp : Number → Number
  | nan => nan
  | infinity negative => if negative then zero else infinity false
  | finite negative units _ =>
    if units = 0 then one
    else correctlyRounded fun p =>
      expAttempt false p (Enclosure.ofQuotient p (if negative then -units else units) unitsPerOne)

/-- The natural logarithm of a positive magnitude in units: the magnitude is a power of two times a
number between 1 and 2. -/
def logarithm (p : Nat) (units : Nat) : Enclosure :=
  let ln2 := Enclosure.logarithmNearOne p 2 1
  let shift : Int := units.log2 - unitsPerOne.log2
  (ln2.scale shift).add (Enclosure.logarithmNearOne p units (Nat.pow 2 units.log2))

/-- The natural logarithm: minus infinity at zero and NaN below. -/
def ln : Number → Number
  | nan => nan
  | infinity negative => if negative then nan else infinity false
  | finite negative units _ =>
    if units = 0 then infinity true
    else if negative then nan
    else if units = unitsPerOne then zero
    else correctlyRounded fun p => (logarithm p units).rounded? p

/-! ## Sine and cosine -/

/-- The sine of the magnitude `units` advanced by `quarters` quarter turns. The precision grows by
the bits of the whole part, which the reduction to a quarter turn cancels. -/
def sineAttempt (units quarters : Nat) (bits : Nat) : Option Number :=
  let p := bits + (units.log2 - unitsPerOne.log2) + 8
  let quarter := Enclosure.halfPi p
  let x := Enclosure.ofQuotient p units unitsPerOne
  let turns := (2 * x.lower + quarter.lower) / (2 * quarter.lower)
  let rest := x.add (quarter.scale (-turns))
  match (turns.toNat + quarters) % 4 with
  | 0 => (Enclosure.sineSeries p rest).rounded? p
  | 1 => (Enclosure.cosineSeries p rest).rounded? p
  | 2 => (Enclosure.sineSeries p rest).neg.rounded? p
  | _ => (Enclosure.cosineSeries p rest).neg.rounded? p

/-- The sine; NaN at the infinities. -/
def sin : Number → Number
  | nan | infinity _ => nan
  | finite negative units _ =>
    if units = 0 then signedZero negative
    else
      let value := correctlyRounded (sineAttempt units 0)
      if negative then value.neg else value

/-- The cosine, the sine one quarter turn ahead; NaN at the infinities. -/
def cos : Number → Number
  | nan | infinity _ => nan
  | finite _ units _ => if units = 0 then one else correctlyRounded (sineAttempt units 1)

end Quill.Number
