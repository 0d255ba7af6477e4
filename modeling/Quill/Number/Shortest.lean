import Quill.Number.Numeral

/-!
# Shortest decimal text of a double

A finite double is written with the fewest digits that read back as itself: of the decimals with
`1, 2, … , 17` digits, the first number of digits wins for which one of the two neighbours of the
double reads back, and of two such neighbours the nearer one. Numbers below `10 ^ 16` and from
`10 ^ -4` on are written positionally, others with an exponent.

## Main definitions

* `Decimal` — digits with a power of ten, and `Decimal.shortest units`.
* `Decimal.numeral` — the layout of a decimal.
* `Number.text` — the shortest text, with a point or an exponent.
* `Number.display` — the same, but whole numbers with all their digits and without a point.
-/

namespace Quill

/-- The decimal number `digits * 10 ^ exponent`. -/
structure Decimal where
  digits : Nat
  exponent : Int
deriving DecidableEq

namespace Decimal

/-- The magnitude in units to which the decimal is read. -/
def value (d : Decimal) : Number := Number.ofDecimal false d.digits d.exponent

/-- Moves trailing zeros into the exponent, at most `n` of them. -/
def strip : Nat → Decimal → Decimal
  | 0, d => d
  | n + 1, d => if d.digits % 10 = 0 then strip n ⟨d.digits / 10, d.exponent + 1⟩ else d

/-- The `k` with `10 ^ k ≤ num / den < 10 ^ (k + 1)`. -/
def order (num den : Nat) : Int :=
  if den ≤ num then (digitCount (num / den) : Int) - 1
  else -(digitCount ((den - 1) / num) : Int)

/-- The decimals with exponent `e` on both sides of `num / den`, the nearer one first; of two
equally near ones the even one. -/
def neighbours (num den : Nat) (e : Int) : List Decimal :=
  let num := num * Nat.pow 10 (-e).toNat
  let den := den * Nat.pow 10 e.toNat
  let near := nearestEven num den
  let far := if near = num / den then num / den + 1 else num / den
  [⟨near, e⟩, ⟨far, e⟩]

/-- Every digit of the magnitude: `2 ^ -n` is `5 ^ n * 10 ^ -n`. -/
def exact (units : Nat) : Decimal := ⟨units * Nat.pow 5 unitExponent, -unitExponent⟩

/-- All candidates in order of preference. -/
def candidates (units : Nat) : List Decimal :=
  let top := order units unitsPerOne
  (List.range 17).flatMap fun (n : Nat) => neighbours units unitsPerOne (top - n)

/-- The decimal with the fewest digits that reads back as the magnitude. -/
def shortest (units : Nat) (fits : Fits units) : Decimal :=
  let found := (candidates units).find? fun d => d.value = Number.finite false units fits
  let d := found.getD (exact units)
  strip (digitCount d.digits) d

/-- The least number of digits an exponent is written with. -/
def exponentWidth : Nat := 2

/-- Positional up to 16 digits before the point and four zeros behind it; otherwise one digit before
the point and an exponent with its sign. -/
def numeral (d : Decimal) : Numeral :=
  let digits := Nat.toDigits 10 d.digits
  let point : Int := digits.length + d.exponent
  if -4 < point ∧ point ≤ 0 then
    ⟨['0'], List.replicate (-point).toNat '0' ++ digits, none⟩
  else if 0 < point ∧ point < digits.length then
    ⟨digits.take point.toNat, digits.drop point.toNat, none⟩
  else if 0 < point ∧ point ≤ 16 then
    ⟨digits ++ List.replicate (point.toNat - digits.length) '0', ['0'], none⟩
  else
    let exponent := Nat.toDigits 10 (point - 1).natAbs
    let sign := if point - 1 < 0 then '-' else '+'
    ⟨digits.take 1, digits.drop 1,
      some ⟨'e', some sign, List.replicate (exponentWidth - exponent.length) '0' ++ exponent⟩⟩

end Decimal

namespace Number

/-- A minus sign in front of negative numbers. -/
def withSign (negative : Bool) (digits : List Char) : List Char :=
  if negative then '-' :: digits else digits

/-- The shortest text that reads back, always with a point or an exponent. -/
def textChars : Number → List Char
  | nan => ['n', 'a', 'n']
  | infinity negative => withSign negative ['i', 'n', 'f']
  | finite negative units fits =>
    withSign negative <|
      if units = 0 then ['0', '.', '0'] else (Decimal.shortest units fits).numeral.text

/-- A number the way programs write it: all digits of a whole number, and no point. -/
def displayChars : Number → List Char
  | x@(finite negative units _) =>
    if x.isWhole then withSign negative (Nat.toDigits 10 (units / unitsPerOne)) else x.textChars
  | x => x.textChars

/-- The shortest text that reads back, always with a point or an exponent. -/
def text (x : Number) : String := String.ofList x.textChars

/-- A number the way programs write it. -/
def display (x : Number) : String := String.ofList x.displayChars

end Number
end Quill
