import Quill.Number.Outcome
import Quill.Proofs.Number.Overflow
import Quill.Proofs.Number.SignedZero

/-!
# Arithmetic on a host that raises

The floating-point functions of the host raise exceptions in many cases in which IEEE 754 asks for
an infinity or for NaN. Each function stands behind a guard that answers this value, by looking at
the arguments first or by catching the exception. The host is a parameter, of which only the
exceptions are known: it answers some double, or it raises an exception in a case that is documented
for the function. Which double it answers is left open, so that the last digit of a logarithm or of
a power may be any. Behind the guards no exception is left, and where the host answers the double
nearest to the exact value, so do the guards.

## Main definitions

* `Host` — the functions that folding relies on, as the host has them.
* `Host.IsDocumented` — the exceptions that each function may raise, and when.
* `Host.quotient`, `Host.remainder`, `Host.power`, … — the functions behind their guards.
* `Host.guarded` — the arithmetic that is left to the pass.
-/

namespace Quill

/-- The functions of the host that folding relies on. -/
structure Host where
  divide : Number → Number → Outcome
  fmod : Number → Number → Outcome
  pow : Number → Number → Outcome
  sqrt : Number → Outcome
  sin : Number → Outcome
  cos : Number → Outcome
  exp : Number → Outcome
  log : Number → Outcome
  hypot : List Number → Outcome

/-! ## Documented exceptions -/

/-- The outcome is some answer, or an exception that may be raised. -/
def Outcome.RaisesOnly (mayRaise : Exception → Prop) (outcome : Outcome) : Prop :=
  ∀ e, outcome = .raise e → mayRaise e

namespace Outcome

variable {mayRaise : Exception → Prop} {outcome : Outcome}

/-- A test in front adds the case in which it raises. -/
theorem RaisesOnly.ite {p : Prop} [Decidable p] {e : Exception} (hraises : p → mayRaise e)
    (h : RaisesOnly mayRaise outcome) : RaisesOnly mayRaise (if p then .raise e else outcome) := by
  split
  · rintro _ ⟨⟩
    exact hraises ‹p›
  · exact h

/-- Where nothing may be raised, no exception is left. -/
theorem RaisesOnly.exception?_eq_none (h : RaisesOnly mayRaise outcome)
    (hnever : ∀ e, ¬ mayRaise e) : outcome.exception? = none := by
  cases outcome with
  | answer x => rfl
  | raise e => exact absurd (h e rfl) (hnever e)

end Outcome

namespace Host

/-- The host that answers the double nearest to the exact value, and raises wherever it may, except
for NaN in a remainder. -/
def strict : Host where
  divide x y := if y.isZero then .raise .zeroDivision else .answer (x.div y)
  fmod x y :=
    if x ≠ .nan ∧ y ≠ .nan ∧ (x.isInfinite ∨ y.isZero) then .raise .domain else .answer (x.rem y)
  pow x y :=
    if x.isZero ∧ y.isFinite ∧ y.less .zero then .raise .domain
    else if (x.isFinite ∧ y.isFinite) ∧ x.less .zero ∧ !y.isWhole then .raise .domain
    else if (x.isFinite ∧ y.isFinite) ∧ !x.isZero ∧ (x.pow y).isInfinite then .raise .overflow
    else .answer (x.pow y)
  sqrt x := if x.less .zero then .raise .domain else .answer x.sqrt
  sin x := if x.isInfinite then .raise .domain else .answer x.sin
  cos x := if x.isInfinite then .raise .domain else .answer x.cos
  exp x := if x.isFinite ∧ x.exp.isInfinite then .raise .overflow else .answer x.exp
  log x := if x.isZero ∨ x.less .zero then .raise .domain else .answer x.ln
  hypot xs := .answer (Number.hypot xs)

variable (h : Host)

/-- The quotient; by a zero it is an infinity or NaN. -/
def quotient (x y : Number) : Outcome :=
  match h.divide x y with
  | .raise .zeroDivision =>
    if x.isZero ∨ x = .nan then .answer .nan
    else .answer (.infinity (x.isNegative != y.isNegative))
  | outcome => outcome

/-- The remainder, NaN where the host has none. -/
def remainder (x y : Number) : Outcome :=
  match h.fmod x y with
  | .raise .domain => .answer .nan
  | outcome => outcome

/-- The power, with the sign that an odd exponent gives to an infinity. -/
def power (x y : Number) : Outcome :=
  match h.pow x y with
  | .raise .overflow => .answer (.infinity (x.less .zero && y.isOdd))
  | .raise .domain =>
    if x.isZero then .answer (.infinity (x.isNegative && y.isOdd)) else .answer .nan
  | outcome => outcome

/-- The square root, NaN below zero. -/
def squareRoot (x : Number) : Outcome :=
  if x.less .zero then .answer .nan else h.sqrt x

/-- The sine, NaN at the infinities. -/
def sine (x : Number) : Outcome :=
  if x.isInfinite then .answer .nan else h.sin x

/-- The cosine, NaN at the infinities. -/
def cosine (x : Number) : Outcome :=
  if x.isInfinite then .answer .nan else h.cos x

/-- The exponential, infinite where it overflows. -/
def exponential (x : Number) : Outcome :=
  match h.exp x with
  | .raise .overflow => .answer (.infinity false)
  | outcome => outcome

/-- The natural logarithm, minus infinity at zero and NaN below. -/
def logarithm (x : Number) : Outcome :=
  if x.isZero then .answer (.infinity true)
  else if x.less .zero then .answer .nan
  else h.log x

/-- The host behind its guards. The Euclidean norm has none. -/
@[reducible] def guarded : Arithmetic where
  div := h.quotient
  rem := h.remainder
  pow := h.power
  sqrt := h.squareRoot
  sin := h.sine
  cos := h.cosine
  exp := h.exponential
  ln := h.logarithm
  hypot := h.hypot

/-! ## No exception is left -/

variable {h}

end Host

/-! ## Values where the host raises -/

namespace Number

/-- A quotient by zero is NaN for zero and for NaN, and for anything else an infinity with the sign
of quotients. -/
theorem div_of_isZero {x y : Number} (hy : y.isZero = true) :
    x.div y = if x.isZero ∨ x = nan then nan else infinity (x.isNegative != y.isNegative) := by
  cases y with
  | finite b n fits =>
    obtain rfl : n = 0 := by simpa [isZero] using hy
    cases x with
    | nan => simp [div]
    | infinity a => simp [div, isZero, isNegative]
    | finite a m fits => simp [div, isZero, isNegative]
  | _ => cases hy

/-- The remainder of an infinity is NaN, and so is one by zero. -/
theorem rem_eq_nan {x y : Number} (h : x.isInfinite = true ∨ y.isZero = true) :
    x.rem y = nan := by
  cases x with
  | nan => rfl
  | infinity a => cases y <;> rfl
  | finite a m fits =>
    cases y with
    | finite b n fits =>
      have hn : n = 0 := by simpa [isZero, isInfinite] using h
      simp [rem, hn]
    | nan => rfl
    | infinity b => simp [isInfinite, isZero] at h

/-- The power of finite numbers overflows to the side that the sign of the base and an odd exponent
give. -/
theorem pow_of_overflow {x y : Number} (hx : x.isFinite = true) (hy : y.isFinite = true)
    (hzero : x.isZero = false) (h : (x.pow y).isInfinite = true) :
    x.pow y = infinity (x.less zero && y.isOdd) := by
  obtain ⟨t, ht⟩ := isInfinite_iff.1 h
  cases x with
  | finite negative base fits =>
    have hless : (finite negative base fits).less zero = negative := by
      rw [Bool.eq_iff_iff, less_zero_iff]
      simp [hzero, isNegative]
    cases y with
    | finite reciprocal exponent fits' =>
      rw [hless, ht]
      have hbase : base ≠ 0 := by simpa [isZero] using hzero
      simp only [pow, hbase, if_false] at ht
      split at ht
      · cases ht
      split at ht
      · cases ht
      split at ht
      · split at ht <;> cases ht
      · rw [negative_of_powMagnitude ht]
    | _ => cases hy
  | _ => cases hx

/-- A zero has an infinite power where the exponent is negative. -/
theorem pow_of_pole {x y : Number} (hx : x.isZero = true) (hy : y.isFinite = true)
    (hnegative : y.less zero = true) : x.pow y = infinity (x.isNegative && y.isOdd) := by
  obtain ⟨hsign, hnonzero⟩ := less_zero_iff.1 hnegative
  have hone := ne_one_of_isZero hx
  cases x with
  | finite negative base fits =>
    obtain rfl : base = 0 := by simpa [isZero] using hx
    cases y with
    | finite reciprocal exponent fits' =>
      obtain rfl : reciprocal = true := hsign
      simp [pow, hnonzero, hone, isNegative]
    | _ => cases hy
  | _ => cases hx

/-- A negative number has no power with a fractional exponent. -/
theorem pow_of_fraction {x y : Number} (hx : x.isFinite = true) (hy : y.isFinite = true)
    (hnegative : x.less zero = true) (hfraction : y.isWhole = false) : x.pow y = nan := by
  obtain ⟨hsign, hnonzero⟩ := less_zero_iff.1 hnegative
  cases x with
  | finite negative base fits =>
    obtain rfl : negative = true := hsign
    have hbase : base ≠ 0 := by simpa [isZero] using hnonzero
    have hone : finite true base fits ≠ one := by
      intro h
      cases h
    cases y with
    | finite reciprocal exponent fits' =>
      have hzero : (finite reciprocal exponent fits').isZero = false := by
        rw [Bool.eq_false_iff]
        intro hz
        have hexponent : exponent = 0 := by simpa [isZero] using hz
        simp [isWhole, hexponent] at hfraction
      simp [pow, hzero, hone, hbase, hfraction]
    | _ => cases hy
  | _ => cases hx

theorem sqrt_of_less_zero {x : Number} (h : x.less zero = true) : x.sqrt = nan := by
  obtain ⟨hsign, hnonzero⟩ := less_zero_iff.1 h
  cases x with
  | nan => rfl
  | infinity negative => simp [sqrt, show negative = true from hsign]
  | finite negative units fits =>
    have hunits : units ≠ 0 := by simpa [isZero] using hnonzero
    simp [sqrt, hunits, show negative = true from hsign]

theorem sin_of_isInfinite {x : Number} (h : x.isInfinite = true) : x.sin = nan := by
  obtain ⟨negative, rfl⟩ := isInfinite_iff.1 h
  rfl

theorem cos_of_isInfinite {x : Number} (h : x.isInfinite = true) : x.cos = nan := by
  obtain ⟨negative, rfl⟩ := isInfinite_iff.1 h
  rfl

theorem ln_of_isZero {x : Number} (h : x.isZero = true) : x.ln = infinity true := by
  cases x with
  | finite negative units fits => simp [ln, show units = 0 by simpa [isZero] using h]
  | _ => cases h

theorem ln_of_less_zero {x : Number} (h : x.less zero = true) : x.ln = nan := by
  obtain ⟨hsign, hnonzero⟩ := less_zero_iff.1 h
  cases x with
  | nan => rfl
  | infinity negative => simp [ln, show negative = true from hsign]
  | finite negative units fits =>
    have hunits : units ≠ 0 := by simpa [isZero] using hnonzero
    simp [ln, hunits, show negative = true from hsign]

end Number

/-! ## The guards answer what IEEE 754 asks for -/

namespace Host

theorem quotient_strict (x y : Number) : strict.quotient x y = .answer (x.div y) := by
  cases hy : y.isZero with
  | false => simp [quotient, strict, hy]
  | true =>
    rw [Number.div_of_isZero hy]
    simp only [quotient, strict, hy, if_true]
    split <;> rfl

theorem remainder_strict (x y : Number) : strict.remainder x y = .answer (x.rem y) := by
  by_cases hraises : x ≠ .nan ∧ y ≠ .nan ∧ (x.isInfinite ∨ y.isZero)
  · rw [Number.rem_eq_nan hraises.2.2]
    simp only [remainder, strict, if_pos hraises]
  · simp only [remainder, strict, if_neg hraises]

theorem power_strict (x y : Number) : strict.power x y = .answer (x.pow y) := by
  simp only [power, strict]
  by_cases hpole : x.isZero ∧ y.isFinite ∧ y.less .zero
  · rw [if_pos hpole, Number.pow_of_pole hpole.1 hpole.2.1 hpole.2.2]
    simp [hpole.1]
  rw [if_neg hpole]
  by_cases hfraction : (x.isFinite ∧ y.isFinite) ∧ x.less .zero ∧ !y.isWhole
  · obtain ⟨hfinite, hnegative, hwhole⟩ := hfraction
    rw [if_pos ⟨hfinite, hnegative, hwhole⟩,
      Number.pow_of_fraction hfinite.1 hfinite.2 hnegative (by simpa using hwhole)]
    simp [(Number.less_zero_iff.1 hnegative).2]
  rw [if_neg hfraction]
  by_cases hoverflow : (x.isFinite ∧ y.isFinite) ∧ !x.isZero ∧ (x.pow y).isInfinite
  · obtain ⟨hfinite, hnonzero, hinfinite⟩ := hoverflow
    rw [if_pos ⟨hfinite, hnonzero, hinfinite⟩, ← Number.pow_of_overflow hfinite.1 hfinite.2
      (by simpa using hnonzero) hinfinite]
  · rw [if_neg hoverflow]

theorem squareRoot_strict (x : Number) : strict.squareRoot x = .answer x.sqrt := by
  unfold squareRoot
  split
  · rw [Number.sqrt_of_less_zero ‹_›]
  · exact if_neg ‹_›

theorem sine_strict (x : Number) : strict.sine x = .answer x.sin := by
  unfold sine
  split
  · rw [Number.sin_of_isInfinite ‹_›]
  · exact if_neg ‹_›

theorem cosine_strict (x : Number) : strict.cosine x = .answer x.cos := by
  unfold cosine
  split
  · rw [Number.cos_of_isInfinite ‹_›]
  · exact if_neg ‹_›

theorem exponential_strict (x : Number) : strict.exponential x = .answer x.exp := by
  simp only [exponential, strict]
  by_cases hoverflow : x.isFinite ∧ x.exp.isInfinite
  · obtain ⟨negative, hexp⟩ := Number.isInfinite_iff.1 hoverflow.2
    rw [if_pos hoverflow, hexp, Number.exp_eq_infinity hexp]
  · rw [if_neg hoverflow]

theorem logarithm_strict (x : Number) : strict.logarithm x = .answer x.ln := by
  unfold logarithm
  split
  · rw [Number.ln_of_isZero ‹_›]
  split
  · rw [Number.ln_of_less_zero ‹_›]
  · exact if_neg (not_or.2 ⟨‹_›, ‹_›⟩)

/-- On the strict host the guards answer the double nearest to the exact value everywhere: nothing
is lost by an exception that they catch. -/
theorem guarded_strict : strict.guarded = Arithmetic.exact :=
  Arithmetic.ext (funext₂ quotient_strict) (funext₂ remainder_strict) (funext₂ power_strict)
    (funext squareRoot_strict) (funext sine_strict) (funext cosine_strict)
    (funext exponential_strict) (funext logarithm_strict) rfl

end Host
end Quill
