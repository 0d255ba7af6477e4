import Mathlib.Data.List.Forall2
import Quill.Library
import Quill.Proofs.Number.Exact
import Quill.Proofs.Number.Equality

/-!
# The sign of a zero

Operations on finite doubles may answer different doubles for the two zeros, but where the result is
finite they answer equal ones: a zero is neutral for sums, absorbs products, quotients and powers,
and a division by it is not finite.

## Main definitions

* `Number.RespectsEqual`, `Number.RespectsEqual₂` — equal finite arguments give equal results.
-/

namespace Quill

namespace Number

/-- Equal arguments give equal results, as long as they are finite. -/
def RespectsEqual (f : Number → Number) : Prop :=
  ∀ x x', x.isFinite = true → x.equal x' = true → (f x).isFinite = true →
    (f x).equal (f x') = true

/-- Equal arguments of two places give equal results, as long as they are finite. -/
def RespectsEqual₂ (f : Number → Number → Number) : Prop :=
  ∀ x x' y y', x.isFinite = true → y.isFinite = true → x.equal x' = true → y.equal y' = true →
    (f x y).isFinite = true → (f x y).equal (f x' y') = true

/-- Only the zeros can be confused. -/
theorem respectsEqual_of_zeros {f : Number → Number}
    (h : ∀ x x', x.isZero = true → x'.isZero = true → (f x).isFinite = true →
      (f x).equal (f x') = true) : RespectsEqual f := by
  intro x x' hx heq hf
  rcases eq_or_isZero_of_equal hx heq with rfl | ⟨hz, hz'⟩
  · exact equal_self (ne_nan_of_isFinite hf)
  · exact h x x' hz hz' hf

/-- Equal arguments may be put in one after the other. -/
theorem respectsEqual₂_of_sides {f : Number → Number → Number}
    (left : ∀ y, y.isFinite = true → RespectsEqual (f · y))
    (right : ∀ x, x.isFinite = true → RespectsEqual (f x)) : RespectsEqual₂ f := by
  intro x x' y y' hx hy heqx heqy hf
  have hleft := left y hy x x' hx heqx hf
  have hright := right x' (isFinite_of_equal heqx hx) y y' hy heqy (isFinite_of_equal hleft hf)
  exact equal_trans hleft hright

/-! ## Sums -/

@[simp] theorem signed_zero (negative : Bool) : signed negative 0 = 0 := by cases negative <;> rfl

theorem signed_lt_zero (negative : Bool) {units : Nat} (h : units ≠ 0) :
    decide (signed negative units < 0) = negative := by
  cases negative with
  | true =>
    simp only [signed, ↓reduceIte, decide_eq_true_eq]
    omega
  | false => simp [signed]

theorem natAbs_signed (negative : Bool) (units : Nat) : (signed negative units).natAbs = units := by
  cases negative <;> simp [signed]

/-- A zero is neutral for sums. -/
theorem add_equal_right {x y : Number} (hx : x.isZero = true) (hy : y ≠ nan) :
    (add x y).equal y = true := by
  cases x with
  | finite a m hm =>
    obtain rfl : m = 0 := by simpa [isZero] using hx
    cases y with
    | nan => exact (hy rfl).elim
    | infinity b => exact equal_self hy
    | finite b n hn =>
      by_cases h : n = 0
      · subst h
        refine equal_of_isZero ?_ rfl
        simp [add, signedZero, isZero]
      · have hne : signed b n ≠ 0 := by
          intro hzero
          have := natAbs_signed b n
          omega
        have hadd : add (finite a 0 hm) (finite b n hn) = finite b n hn := by
          simp only [add, signed_zero, Int.zero_add, if_neg hne, signed_lt_zero b h, natAbs_signed]
          exact ofQuotient_one hn b
        rw [hadd]
        exact equal_self hy
  | _ => exact Bool.noConfusion hx

theorem add_equal_left {x y : Number} (hx : x ≠ nan) (hy : y.isZero = true) :
    (add x y).equal x = true := by
  rw [add_comm]
  exact add_equal_right hy hx

theorem sub_equal_neg {x y : Number} (hx : x.isZero = true) (hy : y.isFinite = true) :
    (sub x y).equal y.neg = true :=
  add_equal_right hx (ne_nan_of_isFinite (by rw [isFinite_neg, hy]))

theorem sub_equal_left {x y : Number} (hx : x ≠ nan) (hy : y.isZero = true) :
    (sub x y).equal x = true :=
  add_equal_left hx (by rw [isZero_neg, hy])

theorem respectsEqual₂_add : RespectsEqual₂ add := by
  refine respectsEqual₂_of_sides ?_ ?_
  · intro y hy
    refine respectsEqual_of_zeros fun x x' hx hx' _ => ?_
    have hne := ne_nan_of_isFinite hy
    exact equal_trans (add_equal_right hx hne) (equal_symm (add_equal_right hx' hne))
  · intro x hx
    refine respectsEqual_of_zeros fun y y' hy hy' _ => ?_
    have hne := ne_nan_of_isFinite hx
    exact equal_trans (add_equal_left hne hy) (equal_symm (add_equal_left hne hy'))

theorem respectsEqual₂_sub : RespectsEqual₂ sub := by
  intro x x' y y' hx hy heqx heqy hf
  exact respectsEqual₂_add x x' y.neg y'.neg hx (by rw [isFinite_neg, hy]) heqx
    (neg_equal_neg heqy) hf

/-! ## Products, quotients and remainders -/

theorem isZero_mul {x y : Number} (hx : x.isZero = true) (hy : y.isFinite = true) :
    (mul x y).isZero = true := by
  cases x with
  | finite a m hm =>
    obtain rfl : m = 0 := by simpa [isZero] using hx
    cases y with
    | finite b n hn =>
      simp only [mul, Nat.zero_mul, ofQuotient_zero]
      rfl
    | _ => exact Bool.noConfusion hy
  | _ => exact Bool.noConfusion hx

theorem isZero_div {x y : Number} (hx : x.isZero = true) (hy : y.isFinite = true)
    (hne : y.isZero = false) : (div x y).isZero = true := by
  cases x with
  | finite a m hm =>
    obtain rfl : m = 0 := by simpa [isZero] using hx
    cases y with
    | finite b n hn =>
      have h : n ≠ 0 := by simpa [isZero] using hne
      simp only [div, if_neg h, Nat.zero_mul, ofQuotient_zero]
      rfl
    | _ => exact Bool.noConfusion hy
  | _ => exact Bool.noConfusion hx

theorem isZero_rem {x y : Number} (hx : x.isZero = true) (hy : y.isFinite = true)
    (hne : y.isZero = false) : (rem x y).isZero = true := by
  cases x with
  | finite a m hm =>
    obtain rfl : m = 0 := by simpa [isZero] using hx
    cases y with
    | finite b n hn =>
      have h : n ≠ 0 := by simpa [isZero] using hne
      simp only [rem, if_neg h, Nat.zero_mod, ofQuotient_zero]
      rfl
    | _ => exact Bool.noConfusion hy
  | _ => exact Bool.noConfusion hx

/-- A quotient by a zero is not finite. -/
theorem isZero_eq_false_of_div {x y : Number} (hf : (div x y).isFinite = true) :
    y.isZero = false := by
  cases y with
  | finite b n hn =>
    rw [isZero, decide_eq_false_iff_not]
    rintro rfl
    cases x with
    | nan | infinity a => exact Bool.noConfusion hf
    | finite a m hm => by_cases h : m = 0 <;> simp [div, h, isFinite] at hf
  | _ => rfl

/-- A remainder by a zero is not finite. -/
theorem isZero_eq_false_of_rem {x y : Number} (hf : (rem x y).isFinite = true) :
    y.isZero = false := by
  cases y with
  | finite b n hn =>
    rw [isZero, decide_eq_false_iff_not]
    rintro rfl
    cases x <;> exact Bool.noConfusion hf
  | _ => rfl

theorem respectsEqual₂_mul : RespectsEqual₂ mul := by
  refine respectsEqual₂_of_sides ?_ ?_
  · intro y hy
    exact respectsEqual_of_zeros fun x x' hx hx' _ =>
      equal_of_isZero (isZero_mul hx hy) (isZero_mul hx' hy)
  · intro x hx
    refine respectsEqual_of_zeros fun y y' hy hy' _ => ?_
    rw [mul_comm x, mul_comm x]
    exact equal_of_isZero (isZero_mul hy hx) (isZero_mul hy' hx)

/-- An operation that a zero on the left makes zero, and that is not finite with one on the
right. -/
theorem respectsEqual₂_of_division {f : Number → Number → Number}
    (left : ∀ {x y}, x.isZero = true → y.isFinite = true → y.isZero = false →
      (f x y).isZero = true)
    (right : ∀ {x y}, (f x y).isFinite = true → y.isZero = false) : RespectsEqual₂ f := by
  refine respectsEqual₂_of_sides ?_ ?_
  · intro y hy
    refine respectsEqual_of_zeros fun x x' hx hx' hf => ?_
    have hne : y.isZero = false := right hf
    exact equal_of_isZero (left hx hy hne) (left hx' hy hne)
  · intro x _
    refine respectsEqual_of_zeros fun y y' hy _ hf => ?_
    exact Bool.noConfusion (hy.symm.trans (right hf))

theorem respectsEqual₂_div : RespectsEqual₂ div :=
  respectsEqual₂_of_division isZero_div isZero_eq_false_of_div

theorem respectsEqual₂_rem : RespectsEqual₂ rem :=
  respectsEqual₂_of_division isZero_rem isZero_eq_false_of_rem

/-! ## Powers -/

theorem isZero_one : one.isZero = false := by decide +kernel

theorem ne_one_of_isZero {x : Number} (hx : x.isZero = true) : x ≠ one := by
  rintro rfl
  exact Bool.noConfusion (hx.symm.trans isZero_one)

/-- A power of zero with a nonzero exponent is a zero, or an infinity for a negative exponent. -/
theorem pow_of_isZero_base {x y : Number} (hx : x.isZero = true) (hy : y.isFinite = true)
    (hne : y.isZero = false) :
    ∃ negative, pow x y = if y.isNegative then infinity negative else signedZero negative := by
  have hone := ne_one_of_isZero hx
  cases x with
  | finite a m hm =>
    obtain rfl : m = 0 := by simpa [isZero] using hx
    cases y with
    | finite b n hn => exact ⟨_, by simp [pow, hne, hone, isNegative]; rfl⟩
    | _ => exact Bool.noConfusion hy
  | _ => exact Bool.noConfusion hx

theorem respectsEqual₂_pow : RespectsEqual₂ pow := by
  refine respectsEqual₂_of_sides ?_ ?_
  · intro y hy
    refine respectsEqual_of_zeros ?_
    intro x x' hx hx' hf
    by_cases hzero : y.isZero = true
    · rw [pow_of_isZero hzero, pow_of_isZero hzero]
      exact equal_self (by decide +kernel)
    · rw [Bool.not_eq_true] at hzero
      obtain ⟨a, ha⟩ := pow_of_isZero_base hx hy hzero
      obtain ⟨b, hb⟩ := pow_of_isZero_base hx' hy hzero
      rw [ha] at hf ⊢
      rw [hb]
      by_cases hneg : y.isNegative = true
      · rw [if_pos hneg] at hf
        exact Bool.noConfusion hf
      · rw [if_neg hneg, if_neg hneg]
        exact equal_of_isZero rfl rfl
  · intro x _
    refine respectsEqual_of_zeros ?_
    intro y y' hy hy' _
    rw [pow_of_isZero hy, pow_of_isZero hy']
    exact equal_self (by decide +kernel)

/-! ## Elementary functions -/

theorem eq_signedZero_of_isZero {x : Number} (hx : x.isZero = true) :
    ∃ negative, x = signedZero negative := by
  cases x with
  | finite negative units fits =>
    obtain rfl : units = 0 := by simpa [isZero] using hx
    exact ⟨negative, rfl⟩
  | _ => exact Bool.noConfusion hx

/-- A function respects equality if it answers both zeros alike. -/
theorem respectsEqual_of_signedZero {f : Number → Number}
    (h : ∀ a b, (f (signedZero a)).isFinite = true →
      (f (signedZero a)).equal (f (signedZero b)) = true) : RespectsEqual f := by
  refine respectsEqual_of_zeros ?_
  intro x x' hx hx' hf
  obtain ⟨a, rfl⟩ := eq_signedZero_of_isZero hx
  obtain ⟨b, rfl⟩ := eq_signedZero_of_isZero hx'
  exact h a b hf

theorem respectsEqual_sqrt : RespectsEqual sqrt :=
  respectsEqual_of_signedZero fun _ _ _ => equal_of_isZero rfl rfl

theorem respectsEqual_sin : RespectsEqual sin :=
  respectsEqual_of_signedZero fun _ _ _ => equal_of_isZero rfl rfl

theorem respectsEqual_cos : RespectsEqual cos := by
  have hone : ∀ a, cos (signedZero a) = one := fun a => by simp [cos, signedZero]
  apply respectsEqual_of_signedZero
  intro a b hf
  rw [hone a] at hf ⊢
  rw [hone b]
  exact equal_self (ne_nan_of_isFinite hf)

theorem respectsEqual_exp : RespectsEqual exp := by
  have hone : ∀ a, exp (signedZero a) = one := fun a => by simp [exp, signedZero]
  apply respectsEqual_of_signedZero
  intro a b hf
  rw [hone a] at hf ⊢
  rw [hone b]
  exact equal_self (ne_nan_of_isFinite hf)

theorem respectsEqual_ln : RespectsEqual ln :=
  respectsEqual_of_signedZero fun _ _ hf => Bool.noConfusion hf

theorem abs_eq_of_equal {x y : Number} (hx : x.isFinite = true) (h : x.equal y = true) :
    x.abs = y.abs := by
  rcases eq_or_isZero_of_equal hx h with rfl | ⟨hx, hy⟩
  · rfl
  · obtain ⟨a, rfl⟩ := eq_signedZero_of_isZero hx
    obtain ⟨b, rfl⟩ := eq_signedZero_of_isZero hy
    rfl

theorem abs_abs (x : Number) : x.abs.abs = x.abs := by cases x <;> rfl

theorem abs_eq_nan_iff {x : Number} : x.abs = nan ↔ x = nan := by cases x <;> simp [abs]

theorem map_abs_eq_of_equal {xs ys : List Number}
    (h : List.Forall₂ (fun x y => x.isFinite = true ∧ x.equal y = true) xs ys) :
    xs.map abs = ys.map abs := by
  induction h with
  | nil => rfl
  | cons hx _ ih => rw [List.map_cons, List.map_cons, abs_eq_of_equal hx.1 hx.2, ih]

theorem sumOfSquares_map_abs (xs : List Number) : sumOfSquares (xs.map abs) = sumOfSquares xs := by
  induction xs with
  | nil => rfl
  | cons x xs ih => cases x <;> simp [sumOfSquares, abs, ih]

/-- The norm does not depend on the signs. -/
theorem hypot_map_abs (xs : List Number) : hypot (xs.map abs) = hypot xs := by
  have hany : (xs.map abs).any (fun x => x.abs = infinity false) =
      xs.any (fun x => x.abs = infinity false) := by
    simp [List.any_map, Function.comp_def, abs_abs]
  have hnan : nan ∈ xs.map abs ↔ nan ∈ xs := by
    simp [List.mem_map, abs_eq_nan_iff]
  simp only [hypot, hany, hnan, sumOfSquares_map_abs]

end Number

namespace Builtin

theorem length_of_value? {b : Builtin} {xs : List Number} {x : Number} (h : b.value? xs = some x)
    (hb : b ≠ .hypot) : xs.length = 1 := by
  cases b with
  | hypot => exact (hb rfl).elim
  | pi | random => exact nomatch h
  | sqrt | sin | cos | exp | ln =>
    cases xs with
    | nil => exact nomatch h
    | cons y ys =>
      cases ys with
      | nil => rfl
      | cons => exact nomatch h

/-- An intrinsic function is a norm, or one function on one argument. -/
theorem value?_cases {b : Builtin} {xs : List Number} {x : Number} (h : b.value? xs = some x) :
    b = .hypot ∧ x = Number.hypot xs ∨
      ∃ f y, Number.RespectsEqual f ∧ xs = [y] ∧ x = f y ∧ ∀ z, b.value? [z] = some (f z) := by
  by_cases hb : b = .hypot
  · subst hb
    exact .inl ⟨rfl, (Option.some.inj h).symm⟩
  obtain ⟨y, rfl⟩ := List.length_eq_one_iff.1 (length_of_value? h hb)
  refine .inr ?_
  cases b with
  | hypot => exact (hb rfl).elim
  | pi | random => exact nomatch h
  | sqrt => exact ⟨_, y, Number.respectsEqual_sqrt, rfl, (Option.some.inj h).symm, fun _ => rfl⟩
  | sin => exact ⟨_, y, Number.respectsEqual_sin, rfl, (Option.some.inj h).symm, fun _ => rfl⟩
  | cos => exact ⟨_, y, Number.respectsEqual_cos, rfl, (Option.some.inj h).symm, fun _ => rfl⟩
  | exp => exact ⟨_, y, Number.respectsEqual_exp, rfl, (Option.some.inj h).symm, fun _ => rfl⟩
  | ln => exact ⟨_, y, Number.respectsEqual_ln, rfl, (Option.some.inj h).symm, fun _ => rfl⟩

/-- Equal finite arguments give an intrinsic function equal values, as long as they are finite. -/
theorem value?_equal {b : Builtin} {xs xs' : List Number} {x : Number}
    (h : List.Forall₂ (fun y y' => y.isFinite = true ∧ y.equal y' = true) xs xs')
    (hx : b.value? xs = some x) (hf : x.isFinite = true) :
    ∃ x', b.value? xs' = some x' ∧ x.equal x' = true := by
  rcases value?_cases hx with ⟨rfl, rfl⟩ | ⟨f, y, hrespects, rfl, rfl, hvalue⟩
  · refine ⟨Number.hypot xs', rfl, ?_⟩
    rw [← Number.hypot_map_abs xs', ← Number.map_abs_eq_of_equal h, Number.hypot_map_abs]
    exact Number.equal_self (Number.ne_nan_of_isFinite hf)
  · cases h with
    | cons hy h =>
      cases h with
      | nil => exact ⟨_, hvalue _, hrespects _ _ hy.1 hy.2 hf⟩

end Builtin
end Quill
