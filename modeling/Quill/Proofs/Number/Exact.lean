import Quill.Number.Arithmetic

/-!
# Results that need no rounding

A magnitude that fits is its own rounding, in whatever fraction it is written. So an operation whose
exact result is a double answers that double: one is neutral for products and quotients, and a zero
is neutral for sums up to the sign of a zero.
-/

namespace Quill

theorem nearestEven_mul {den : Nat} (hden : 0 < den) (k : Nat) : nearestEven (k * den) den = k := by
  simp only [nearestEven, Nat.mul_div_cancel k hden, Nat.mul_mod_left]
  rw [if_pos]
  omega

theorem spacing_pos (num den : Nat) : 0 < spacing num den := Nat.two_pow_pos _

theorem spacing_mul {den : Nat} (hden : 0 < den) (units : Nat) :
    spacing (units * den) den = Nat.pow 2 (units.log2 + 1 - significandBits) := by
  rw [spacing, Nat.mul_div_cancel units hden]

/-- A magnitude that fits is its own rounding. -/
theorem roundQuotient_mul {units den : Nat} (hfits : Fits units) (hden : 0 < den) :
    roundQuotient (units * den) den = units := by
  have hspacing := spacing_pos (units * den) den
  obtain ⟨k, hk⟩ : spacing (units * den) den ∣ units := by
    rw [spacing_mul hden]
    exact Nat.dvd_of_mod_eq_zero hfits.2
  have hnum : units * den = k * (den * spacing (units * den) den) := by
    calc units * den = spacing (units * den) den * k * den := by rw [← hk]
      _ = k * (den * spacing (units * den) den) := by ac_rfl
  have hnearest : nearestEven (units * den) (den * spacing (units * den) den) = k := by
    have := nearestEven_mul (Nat.mul_pos hden hspacing) k
    rwa [← hnum] at this
  rw [roundQuotient, hnearest, Nat.mul_comm, ← hk]

theorem roundQuotient_zero (den : Nat) : roundQuotient 0 den = 0 := by
  have h : nearestEven 0 (den * spacing 0 den) = 0 := by
    generalize den * spacing 0 den = d
    simp only [nearestEven, Nat.zero_div, Nat.zero_mod, and_true]
    rw [if_pos]
    omega
  rw [roundQuotient, h, Nat.zero_mul]

theorem unitsPerOne_pos : 0 < unitsPerOne := by decide +kernel

theorem unitLimit_pos : 0 < unitLimit := by decide +kernel

namespace Number

/-- A quotient that is a double is not rounded. -/
theorem ofQuotient_mul {units den : Nat} (hfits : Fits units) (hden : 0 < den) (negative : Bool) :
    ofQuotient negative (units * den) den = finite negative units hfits := by
  have h := roundQuotient_mul hfits hden
  simp only [ofQuotient, h, hfits.1, ↓reduceDIte]

theorem ofQuotient_one {units : Nat} (hfits : Fits units) (negative : Bool) :
    ofQuotient negative units 1 = finite negative units hfits := by
  have h := ofQuotient_mul hfits Nat.one_pos negative
  rwa [Nat.mul_one] at h

theorem ofQuotient_zero (negative : Bool) (den : Nat) :
    ofQuotient negative 0 den = signedZero negative := by
  simp only [ofQuotient, roundQuotient_zero, unitLimit_pos, ↓reduceDIte, signedZero]

/-! ## One -/

/-- A product with one is the other factor, bit by bit. -/
theorem one_mul (x : Number) : mul one x = x := by
  cases x with
  | nan => rfl
  | infinity negative =>
    have h := Nat.ne_of_gt unitsPerOne_pos
    simp [mul, one, h]
  | finite negative units fits =>
    simp only [mul, one, Bool.false_bne]
    rw [Nat.mul_comm]
    exact ofQuotient_mul fits unitsPerOne_pos negative

theorem mul_one (x : Number) : mul x one = x := by rw [mul_comm, one_mul]

/-- A quotient by one is the dividend, bit by bit. -/
theorem div_one (x : Number) : div x one = x := by
  cases x with
  | nan => rfl
  | infinity negative => simp [div, one]
  | finite negative units fits =>
    have h := Nat.ne_of_gt unitsPerOne_pos
    simp only [div, one, Bool.bne_false, if_neg h]
    exact ofQuotient_mul fits unitsPerOne_pos negative

end Number
end Quill
