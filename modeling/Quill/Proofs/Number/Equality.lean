import Quill.Number.Basic

/-!
# Equal doubles

Doubles are equal when they have the same place on the line, so equality is an equivalence away from
NaN. Equal finite doubles are the same double, or both are zeros: only the sign of a zero can
differ.
-/

namespace Quill.Number

/-- Equal numbers are those at one place; NaN has none. -/
theorem equal_iff {x y : Number} : x.equal y = true ↔ ∃ p, x.place = some p ∧ y.place = some p := by
  unfold equal
  cases x.place <;> cases y.place <;> simp [eq_comm]

theorem equal_self {x : Number} (hx : x ≠ nan) : x.equal x = true := by
  obtain ⟨p, hp⟩ := Option.ne_none_iff_exists'.1 (mt place_eq_none_iff.1 hx)
  exact equal_iff.2 ⟨p, hp, hp⟩

theorem equal_symm {x y : Number} (h : x.equal y = true) : y.equal x = true := by
  rw [equal_comm, h]

theorem equal_trans {x y z : Number} (hxy : x.equal y = true) (hyz : y.equal z = true) :
    x.equal z = true := by
  obtain ⟨p, hx, hy⟩ := equal_iff.1 hxy
  obtain ⟨q, hy', hz⟩ := equal_iff.1 hyz
  obtain rfl : p = q := Option.some.inj (hy.symm.trans hy')
  exact equal_iff.2 ⟨p, hx, hz⟩

theorem place_eq_of_equal {x y : Number} (h : x.equal y = true) : x.place = y.place := by
  obtain ⟨p, hx, hy⟩ := equal_iff.1 h
  rw [hx, hy]

theorem ne_nan_of_isFinite {x : Number} (hx : x.isFinite = true) : x ≠ nan := by
  rintro rfl
  exact Bool.noConfusion hx

theorem natAbs_ite_neg (negative : Bool) (n : Nat) :
    (if negative then -(n : Int) else n).natAbs = n := by
  cases negative with
  | true => exact Int.natAbs_neg n
  | false => rfl

/-- A finite double lies strictly between the infinities. -/
theorem isFinite_iff_place {x : Number} :
    x.isFinite = true ↔ ∃ p : Int, x.place = some p ∧ p.natAbs < unitLimit := by
  constructor
  · intro hx
    cases x with
    | finite negative units fits =>
      refine ⟨_, rfl, ?_⟩
      rw [natAbs_ite_neg]
      exact fits.1
    | _ => exact Bool.noConfusion hx
  · rintro ⟨p, hp, hlt⟩
    cases x with
    | nan => exact nomatch hp
    | infinity negative =>
      obtain rfl := Option.some.inj hp
      rw [natAbs_ite_neg] at hlt
      exact absurd hlt (Nat.lt_irrefl _)
    | finite negative units fits => rfl

/-- What equals a finite number is finite. -/
theorem isFinite_of_equal {x y : Number} (h : x.equal y = true) (hx : x.isFinite = true) :
    y.isFinite = true := by
  rw [isFinite_iff_place] at hx ⊢
  rwa [← place_eq_of_equal h]

theorem isZero_iff_place {x : Number} : x.isZero = true ↔ x.place = some 0 := by
  rw [isZero_iff_equal_zero, equal_iff]
  simp [eq_comm]

theorem isZero_eq_of_equal {x y : Number} (h : x.equal y = true) : x.isZero = y.isZero := by
  rw [Bool.eq_iff_iff, isZero_iff_place, isZero_iff_place, place_eq_of_equal h]

/-- The zeros are equal. -/
theorem equal_of_isZero {x y : Number} (hx : x.isZero = true) (hy : y.isZero = true) :
    x.equal y = true :=
  equal_iff.2 ⟨0, isZero_iff_place.1 hx, isZero_iff_place.1 hy⟩

/-- Only the sign of a zero tells equal finite doubles apart. -/
theorem eq_or_isZero_of_equal {x y : Number} (hx : x.isFinite = true) (h : x.equal y = true) :
    x = y ∨ x.isZero = true ∧ y.isZero = true := by
  have hy := isFinite_of_equal h hx
  have hplace := place_eq_of_equal h
  cases x with
  | finite a m hm =>
    cases y with
    | finite b n hn =>
      simp only [place, Option.some.injEq] at hplace
      by_cases hm0 : m = 0
      · subst hm0
        refine .inr ⟨rfl, ?_⟩
        simp only [isZero, decide_eq_true_eq]
        cases b <;> simp at hplace <;> omega
      · refine .inl ?_
        obtain ⟨rfl, rfl⟩ : a = b ∧ m = n := by
          cases a <;> cases b <;> simp at hplace ⊢ <;> omega
        rfl
    | _ => exact Bool.noConfusion hy
  | _ => exact Bool.noConfusion hx

/-! ## Negation and order -/

@[simp] theorem isFinite_neg (x : Number) : x.neg.isFinite = x.isFinite := by cases x <;> rfl

@[simp] theorem isZero_neg (x : Number) : x.neg.isZero = x.isZero := by cases x <;> rfl

theorem ite_neg_not (negative : Bool) (n : Nat) :
    (if !negative then -(n : Int) else n) = -(if negative then -(n : Int) else n) := by
  cases negative <;> simp

theorem place_neg (x : Number) : x.neg.place = x.place.map (-·) := by
  cases x with
  | nan => rfl
  | infinity negative => exact congrArg some (ite_neg_not negative unitLimit)
  | finite negative units fits => exact congrArg some (ite_neg_not negative units)

theorem neg_equal_neg {x y : Number} (h : x.equal y = true) : x.neg.equal y.neg = true := by
  obtain ⟨p, hx, hy⟩ := equal_iff.1 h
  exact equal_iff.2 ⟨-p, by rw [place_neg, hx]; rfl, by rw [place_neg, hy]; rfl⟩

section
variable {x x' y y' : Number}

theorem equal_congr (hx : x.equal x' = true) (hy : y.equal y' = true) :
    x.equal y = x'.equal y' := by
  rw [equal, equal, place_eq_of_equal hx, place_eq_of_equal hy]

theorem less_congr (hx : x.equal x' = true) (hy : y.equal y' = true) : x.less y = x'.less y' := by
  rw [less, less, place_eq_of_equal hx, place_eq_of_equal hy]

theorem lessEqual_congr (hx : x.equal x' = true) (hy : y.equal y' = true) :
    x.lessEqual y = x'.lessEqual y' := by
  rw [lessEqual, lessEqual, place_eq_of_equal hx, place_eq_of_equal hy]

end

end Quill.Number
