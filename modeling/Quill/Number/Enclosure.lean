import Quill.Number.Basic

/-!
# Enclosures of real numbers

The elementary functions have no exact value in units, so their results are enclosed: an enclosure
at precision `p` stands for the real numbers from `lower / 2 ^ p` to `upper / 2 ^ p`, and every
operation rounds its ends outward. Once both ends round to the same double, that double is the
correctly rounded result; otherwise the computation starts again with twice the precision.

## Main definitions

* `Enclosure` and its operations at a precision `p`.
* `Enclosure.series` — a series whose terms at least halve.
* `Enclosure.artanh`, `Enclosure.arctan`, `Enclosure.halfPi` — the constants and reductions.
* `Enclosure.rounded?` — the double that an enclosure determines.
* `settle` — the first answer along growing precisions.
-/

namespace Quill

/-- The reals between `lower` and `upper`, both divided by a power of two. -/
structure Enclosure where
  lower : Int
  upper : Int
deriving DecidableEq

namespace Enclosure

/-- `num / den` at precision `p`. -/
def ofQuotient (p : Nat) (num : Int) (den : Nat) : Enclosure :=
  ⟨(num * Nat.pow 2 p) / den, -((-num * Nat.pow 2 p) / den)⟩

/-- The number one at precision `p`. -/
def one (p : Nat) : Enclosure := ⟨Nat.pow 2 p, Nat.pow 2 p⟩

def add (a b : Enclosure) : Enclosure := ⟨a.lower + b.lower, a.upper + b.upper⟩

def neg (a : Enclosure) : Enclosure := ⟨-a.upper, -a.lower⟩

/-- The product with a whole number. -/
def scale (a : Enclosure) (k : Int) : Enclosure :=
  ⟨min (a.lower * k) (a.upper * k), max (a.lower * k) (a.upper * k)⟩

/-- The quotient by a positive whole number. -/
def divide (a : Enclosure) (k : Nat) : Enclosure :=
  ⟨a.lower / k, -(-a.upper / k)⟩

/-- The product; the extreme products of the ends enclose it. -/
def mul (p : Nat) (a b : Enclosure) : Enclosure :=
  let ll := a.lower * b.lower
  let lu := a.lower * b.upper
  let ul := a.upper * b.lower
  let uu := a.upper * b.upper
  Enclosure.divide ⟨min (min ll lu) (min ul uu), max (max ll lu) (max ul uu)⟩ (Nat.pow 2 p)

/-- A bound on the magnitude of every member. -/
def bound (a : Enclosure) : Int := max a.upper (-a.lower)

/-- Both ends moved outward. -/
def widen (a : Enclosure) (by_ : Int) : Enclosure := ⟨a.lower - by_, a.upper + by_⟩

/-- The sum of a series: `next i` turns term `i` into term `i + 1`, and term `i` counts with
`weight i`. When no term is more than half of the one before, the omitted terms together are at
most twice the first of them. -/
def series (next weight : Nat → Enclosure → Enclosure) :
    Nat → Nat → Enclosure → Enclosure → Enclosure
  | 0, _, term, sum => sum.widen (2 * term.bound)
  | n + 1, i, term, sum => series next weight n (i + 1) (next i term) (sum.add (weight i term))

/-- `x + x³/3 + x⁵/5 + …` for `x` at most a half. -/
def artanh (p : Nat) (x : Enclosure) : Enclosure :=
  let square := mul p x x
  series (fun _ term => mul p term square) (fun i term => term.divide (2 * i + 1)) p 0 x ⟨0, 0⟩

/-- `x - x³/3 + x⁵/5 - …` for `x` at most a half. -/
def arctan (p : Nat) (x : Enclosure) : Enclosure :=
  let square := mul p x x
  series (fun _ term => (mul p term square).neg) (fun i term => term.divide (2 * i + 1)) p 0 x
    ⟨0, 0⟩

/-- `1 + x + x²/2 + x³/6 + …` for `x` at most a half. -/
def exponentialSeries (p : Nat) (x : Enclosure) : Enclosure :=
  series (fun i term => (mul p term x).divide (i + 1)) (fun _ term => term) p 0 (one p) ⟨0, 0⟩

/-- `x - x³/3! + x⁵/5! - …` for `x` below one. -/
def sineSeries (p : Nat) (x : Enclosure) : Enclosure :=
  let square := mul p x x
  series (fun i term => ((mul p term square).divide ((2 * i + 2) * (2 * i + 3))).neg)
    (fun _ term => term) p 0 x ⟨0, 0⟩

/-- `1 - x²/2! + x⁴/4! - …` for `x` below one. -/
def cosineSeries (p : Nat) (x : Enclosure) : Enclosure :=
  let square := mul p x x
  series (fun i term => ((mul p term square).divide ((2 * i + 1) * (2 * i + 2))).neg)
    (fun _ term => term) p 0 (one p) ⟨0, 0⟩

/-- A quarter turn, `π / 2 = 8 arctan (1/5) - 2 arctan (1/239)`. -/
def halfPi (p : Nat) : Enclosure :=
  ((arctan p (ofQuotient p 1 5)).scale 8).add ((arctan p (ofQuotient p 1 239)).scale (-2))

/-- The natural logarithm of `num / den` in the range from 1 to 2: with `z = (x - 1) / (x + 1)` it
is `2 artanh z`, and `z` is at most a third. -/
def logarithmNearOne (p : Nat) (num den : Nat) : Enclosure :=
  (artanh p (ofQuotient p (num - den) (num + den))).scale 2

/-- Squares `x` repeatedly. -/
def squared (p : Nat) : Nat → Enclosure → Enclosure
  | 0, x => x
  | n + 1, x => squared p n (mul p x x)

/-- The double nearest to `value / 2 ^ p`. -/
def endpoint (p : Nat) (value : Int) : Number :=
  Number.ofQuotient (value < 0) (value.natAbs * unitsPerOne) (Nat.pow 2 p)

/-- The double to which every member rounds, if there is one. -/
def rounded? (p : Nat) (a : Enclosure) : Option Number :=
  if endpoint p a.lower = endpoint p a.upper then some (endpoint p a.upper) else none

end Enclosure

/-- The first answer of `attempt` at `p`, `2 p`, `4 p`, … . Doubles of elementary functions are
settled long before the last precision; should none be, the answer is NaN. -/
def settle (attempt : Nat → Option Number) : Nat → Nat → Number
  | 0, _ => Number.nan
  | n + 1, p =>
    match attempt p with
    | some x => x
    | none => settle attempt n (2 * p)

/-- The correctly rounded result, from precision 128 on. -/
def correctlyRounded (attempt : Nat → Option Number) : Number := settle attempt 10 128

end Quill
