import Quill.Number.Basic

/-!
# Arithmetic on doubles

Each operation computes exactly in units and rounds once. The cases that have no finite exact
result follow IEEE 754: the quotient of zeros, the difference of equal infinities and any remainder
by zero are NaN, and a nonzero number divided by zero is an infinity.

## Main definitions

* `Number.add`, `Number.sub`, `Number.mul`, `Number.div`.
* `Number.rem` — the remainder of the division truncated toward zero, with the dividend's sign.
-/

namespace Quill.Number

/-- A magnitude with a sign as an integer. -/
def signed (negative : Bool) (units : Nat) : Int := if negative then -units else units

/-- The sum; an exact zero is negative only as the sum of two negative zeros. -/
def add : Number → Number → Number
  | nan, _ | _, nan => nan
  | infinity a, infinity b => if a = b then infinity a else nan
  | infinity a, finite _ _ _ | finite _ _ _, infinity a => infinity a
  | finite a m _, finite b n _ =>
    let sum := signed a m + signed b n
    if sum = 0 then signedZero (a && b) else ofQuotient (sum < 0) sum.natAbs 1

/-- The difference. -/
def sub (x y : Number) : Number := add x y.neg

/-- The product; zero times infinity is NaN. -/
def mul : Number → Number → Number
  | nan, _ | _, nan => nan
  | infinity a, infinity b => infinity (a != b)
  | infinity a, finite b n _ | finite b n _, infinity a => if n = 0 then nan else infinity (a != b)
  | finite a m _, finite b n _ => ofQuotient (a != b) (m * n) unitsPerOne

/-- The quotient; only a zero or a NaN divided by zero is NaN. -/
def div : Number → Number → Number
  | nan, _ | _, nan => nan
  | infinity _, infinity _ => nan
  | infinity a, finite b _ _ => infinity (a != b)
  | finite a _ _, infinity b => signedZero (a != b)
  | finite a m _, finite b n _ =>
    if n = 0 then if m = 0 then nan else infinity (a != b)
    else ofQuotient (a != b) (m * unitsPerOne) n

/-- The remainder of the division truncated toward zero. It has the sign of the dividend, and it is
exact, so the rounding changes nothing. -/
def rem : Number → Number → Number
  | nan, _ | _, nan => nan
  | infinity _, _ => nan
  | x@(finite _ _ _), infinity _ => x
  | finite a m _, finite _ n _ => if n = 0 then nan else ofQuotient a (m % n) 1

theorem add_comm (x y : Number) : add x y = add y x := by
  rcases x with _ | a | ⟨a, m, _⟩ <;> rcases y with _ | b | ⟨b, n, _⟩ <;> try rfl
  · cases a <;> cases b <;> rfl
  · simp [add, Int.add_comm, Bool.and_comm]

theorem mul_comm (x y : Number) : mul x y = mul y x := by
  cases x <;> cases y <;> simp [mul, Nat.mul_comm, bne_comm]

end Quill.Number
