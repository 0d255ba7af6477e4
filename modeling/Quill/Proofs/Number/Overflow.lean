import Quill.Number.Power
import Quill.Proofs.Number.Equality
import Quill.Proofs.Number.Exact

/-!
# Signs of infinite results

A result that is too large for a double is an infinity on the side of the exact value. For
exponentials and powers this needs that an enclosure of a square reaches the positive numbers, so
that no rounding of it falls on the other side.
-/

namespace Quill

namespace Number

/-- Is the number an infinity of either sign? -/
def isInfinite : Number → Bool
  | infinity _ => true
  | _ => false

theorem isInfinite_iff {x : Number} : x.isInfinite = true ↔ ∃ negative, x = infinity negative := by
  cases x <;> simp [isInfinite]

theorem ite_neg_lt_zero (negative : Bool) (n : Nat) :
    (if negative then -(n : Int) else n) < 0 ↔ negative = true ∧ n ≠ 0 := by
  cases negative with
  | true =>
    rw [if_pos rfl, eq_self_iff_true, true_and]
    omega
  | false => simp

/-- Below zero is what has a sign and is no zero. -/
theorem less_zero_iff {x : Number} :
    x.less zero = true ↔ x.isNegative = true ∧ x.isZero = false := by
  have hplace : x.less zero = x.place.any (· < 0) := by
    unfold less
    rw [place_zero]
    cases x.place <;> rfl
  rw [hplace]
  cases x with
  | nan => simp [isNegative]
  | infinity negative =>
    refine decide_eq_true_iff.trans ((ite_neg_lt_zero negative unitLimit).trans ?_)
    exact and_congr_right fun _ => iff_of_true (Nat.pos_iff_ne_zero.1 unitLimit_pos) rfl
  | finite negative units fits =>
    refine decide_eq_true_iff.trans ((ite_neg_lt_zero negative units).trans ?_)
    exact and_congr_right fun _ => decide_eq_false_iff_not.symm

/-- A quotient overflows to the infinity of its sign. -/
theorem negative_of_ofQuotient {s t : Bool} {num den : Nat}
    (h : ofQuotient s num den = infinity t) : t = s := by
  unfold ofQuotient at h
  split at h
  · cases h
  · exact (Number.infinity.inj h).symm

end Number

namespace Enclosure

theorem upper_mul_self_nonneg (p : Nat) (a : Enclosure) : 0 ≤ (mul p a a).upper := by
  have hsquare : 0 ≤ a.lower * a.lower := by
    rw [← Int.natAbs_mul_self]
    exact Int.natCast_nonneg _
  have hmax : 0 ≤ max (max (a.lower * a.lower) (a.lower * a.upper))
      (max (a.upper * a.lower) (a.upper * a.upper)) :=
    Int.le_trans hsquare (Int.le_trans (Int.le_max_left _ _) (Int.le_max_left _ _))
  have hquotient := Int.ediv_nonpos_of_nonpos_of_neg (Int.neg_nonpos_of_nonneg hmax)
    (Int.natCast_pos.2 (Nat.two_pow_pos p))
  simpa [mul, divide] using hquotient

theorem upper_squared_nonneg (p n : Nat) {a : Enclosure} (ha : 0 ≤ a.upper) :
    0 ≤ (squared p n a).upper := by
  induction n generalizing a with
  | zero => exact ha
  | succ n ih => exact ih (upper_mul_self_nonneg p a)

/-- An enclosure that reaches the positive numbers rounds to no negative infinity. -/
theorem negative_of_rounded? {p : Nat} {a : Enclosure} (ha : 0 ≤ a.upper) {t : Bool}
    (h : a.rounded? p = some (Number.infinity t)) : t = false := by
  unfold rounded? endpoint at h
  split at h
  · have hsign := Number.negative_of_ofQuotient (Option.some.inj h)
    simpa [Int.not_lt.2 ha] using hsign
  · cases h

end Enclosure

/-- What is settled on is the answer of some attempt. -/
theorem exists_of_settle {attempt : Nat → Option Number} {n p : Nat} {x : Number}
    (h : settle attempt n p = x) (hx : x ≠ Number.nan) : ∃ p, attempt p = some x := by
  induction n generalizing p with
  | zero => exact absurd h.symm hx
  | succ n ih =>
    unfold settle at h
    split at h
    · exact ⟨p, h ▸ ‹_›⟩
    · exact ih h

namespace Number

/-- An exponential overflows to the side of its sign. -/
theorem negative_of_expAttempt {s t : Bool} {p : Nat} {x : Enclosure}
    (h : expAttempt s p x = some (infinity t)) : t = s := by
  unfold expAttempt at h
  split at h
  · exact (Number.infinity.inj (Option.some.inj h)).symm
  split at h
  · cases h
  split at h
  · cases h
  obtain ⟨y, hy, hsign⟩ := Option.map_eq_some_iff.1 h
  have hupper : 0 ≤ ((Enclosure.exponentialSeries p
      (x.divide (Nat.pow 2 squarings))).squared p squarings).upper :=
    Enclosure.upper_squared_nonneg p 10 (Enclosure.upper_mul_self_nonneg p _)
  cases y with
  | infinity u =>
    obtain rfl := Enclosure.negative_of_rounded? hupper hy
    cases s <;> cases hsign <;> rfl
  | nan => cases s <;> cases hsign
  | finite _ _ _ => cases s <;> cases hsign

/-- The exponential function overflows to the positive infinity only. -/
theorem exp_eq_infinity {x : Number} {t : Bool} (h : x.exp = infinity t) : t = false := by
  unfold exp at h
  split at h
  · cases h
  · split at h
    · cases h
    · exact (Number.infinity.inj h).symm
  · split at h
    · cases h
    · obtain ⟨p, hp⟩ := exists_of_settle h nofun
      exact negative_of_expAttempt hp

theorem negative_of_power? {s r t : Bool} {x : Dyadic} {n : Nat}
    (h : x.power? s r n = some (infinity t)) : t = s := by
  unfold Dyadic.power? at h
  dsimp only at h
  generalize (if r = true then (-1 : Int) else 1) * x.exponent * n = exponent at h
  split at h
  · split at h
    · exact (Number.infinity.inj (Option.some.inj h)).symm
    split at h
    · cases h
    · exact negative_of_ofQuotient (Option.some.inj h)
  · split at h
    · cases h
    · split at h <;> exact negative_of_ofQuotient (Option.some.inj h)

/-- A power overflows to the side of its sign. -/
theorem negative_of_powMagnitude {s r t : Bool} {base exponent : Nat}
    (h : powMagnitude s base r exponent = infinity t) : t = s := by
  unfold powMagnitude at h
  rcases Option.getD_eq_iff.1 h with hexact | ⟨-, hrounded⟩
  · obtain ⟨root, -, hpower⟩ := Option.bind_eq_some_iff.1 hexact
    exact negative_of_power? hpower
  · obtain ⟨p, hp⟩ := exists_of_settle hrounded nofun
    unfold powAttempt at hp
    exact negative_of_expAttempt hp

end Number
end Quill
