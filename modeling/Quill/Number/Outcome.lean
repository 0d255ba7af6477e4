import Quill.Number.Arithmetic
import Quill.Number.Power

/-!
# Outcomes of computations

Where folding divides, takes powers or applies a function, the host computes, and it may raise an
exception instead of an answer. Which number it answers is its own affair: the pass is written for
any arithmetic. The exact arithmetic never raises, and answers the double nearest to the exact
value.

## Main definitions

* `Exception`, `Outcome` — an answer, or what is raised instead.
* `Arithmetic` — the functions that folding relies on.
* `Arithmetic.IsTotal` — no function raises.
* `Arithmetic.exact` — the arithmetic in use.
-/

namespace Quill

/-- The exceptions that end a computation with numbers. -/
inductive Exception where
  /-- Division by zero. -/
  | zeroDivision
  /-- A finite result out of the range of doubles. -/
  | overflow
  /-- Arguments outside of the domain of a function. -/
  | domain
deriving DecidableEq

/-- The message of an exception. -/
def Exception.message : Exception → String
  | zeroDivision => "float division by zero"
  | overflow => "math range error"
  | domain => "math domain error"

/-- What comes of a computation. -/
inductive Outcome where
  | answer (x : Number)
  | raise (e : Exception)
deriving DecidableEq

namespace Outcome

/-- The number that is answered. An exception ends the computation, so that its number is of no
account. -/
def number : Outcome → Number
  | answer x => x
  | raise _ => .nan

/-- The exception that is raised. -/
def exception? : Outcome → Option Exception
  | answer _ => none
  | raise e => some e

end Outcome

/-- The functions that folding relies on. Sums, differences, products and comparisons never raise,
and are the same everywhere. -/
@[ext]
class Arithmetic where
  /-- The quotient. -/
  div : Number → Number → Outcome
  /-- The remainder, with the sign of the dividend. -/
  rem : Number → Number → Outcome
  /-- The power. -/
  pow : Number → Number → Outcome
  sqrt : Number → Outcome
  sin : Number → Outcome
  cos : Number → Outcome
  exp : Number → Outcome
  /-- The natural logarithm. -/
  ln : Number → Outcome
  /-- The Euclidean norm of any number of coordinates. -/
  hypot : List Number → Outcome

/-- No function of the arithmetic raises. -/
class Arithmetic.IsTotal (A : Arithmetic) : Prop where
  div : ∀ x y, (A.div x y).exception? = none
  rem : ∀ x y, (A.rem x y).exception? = none
  pow : ∀ x y, (A.pow x y).exception? = none
  sqrt : ∀ x, (A.sqrt x).exception? = none
  sin : ∀ x, (A.sin x).exception? = none
  cos : ∀ x, (A.cos x).exception? = none
  exp : ∀ x, (A.exp x).exception? = none
  ln : ∀ x, (A.ln x).exception? = none
  hypot : ∀ xs, (A.hypot xs).exception? = none

/-- The arithmetic in use: every function answers, with the double nearest to the exact value. -/
instance Arithmetic.exact : Arithmetic where
  div x y := .answer (x.div y)
  rem x y := .answer (x.rem y)
  pow x y := .answer (x.pow y)
  sqrt x := .answer x.sqrt
  sin x := .answer x.sin
  cos x := .answer x.cos
  exp x := .answer x.exp
  ln x := .answer x.ln
  hypot xs := .answer (Number.hypot xs)

namespace Arithmetic

instance isTotal_exact : exact.IsTotal where
  div _ _ := rfl
  rem _ _ := rfl
  pow _ _ := rfl
  sqrt _ := rfl
  sin _ := rfl
  cos _ := rfl
  exp _ := rfl
  ln _ := rfl
  hypot _ := rfl

@[simp] theorem number_div (x y : Number) : (Arithmetic.div x y).number = x.div y := rfl

@[simp] theorem number_pow (x y : Number) : (Arithmetic.pow x y).number = x.pow y := rfl

end Arithmetic

end Quill
