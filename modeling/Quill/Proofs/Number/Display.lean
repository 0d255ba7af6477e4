import Quill.Proofs.Number.Decimal

/-!
# Displayed numbers are told apart

The magnitude of a finite double is displayed as a numeral of its value: whole doubles with all
their digits, others as their shortest decimal. So the displayed text of a number determines the
number, and it holds no character but those of numerals and of the words for what is not finite.

## Main definitions

* `Number.magnitudeNumeral` — the numeral by which the magnitude of a finite double is displayed.
-/

namespace Quill

open Text

/-! ## Numerals of decimals -/

theorem isDigit_of_mem_zeros {n : Nat} {c : Char} (h : c ∈ List.replicate n '0') : isDigit c := by
  rw [(List.mem_replicate.1 h).2]
  decide

/-- What is written of a decimal is a numeral. -/
theorem Decimal.isWellFormed_numeral (d : Decimal) : d.numeral.IsWellFormed := by
  have hdigits : ∀ c ∈ Nat.toDigits 10 d.digits, isDigit c := fun _ => isDigit_of_mem_toDigits
  have hne : Nat.toDigits 10 d.digits ≠ [] := Nat.toDigits_ne_nil
  have hzero : ∀ c ∈ ['0'], isDigit c := by decide
  simp only [numeral]
  generalize Nat.toDigits 10 d.digits = digits at hdigits hne
  split
  · refine ⟨by simp, hzero, ?_, by simp⟩
    simp only [List.forall_mem_append]
    exact ⟨fun _ => isDigit_of_mem_zeros, hdigits⟩
  split
  · rename_i hpoint
    refine ⟨?_, fun c hc => hdigits c (List.mem_of_mem_take hc),
      fun c hc => hdigits c (List.mem_of_mem_drop hc), by simp⟩
    simp only [ne_eq, List.take_eq_nil_iff, hne, or_false]
    omega
  split
  · refine ⟨by simp [hne], ?_, hzero, by simp⟩
    simp only [List.forall_mem_append]
    exact ⟨hdigits, fun _ => isDigit_of_mem_zeros⟩
  · refine ⟨by simp [hne], fun c hc => hdigits c (List.mem_of_mem_take hc),
      fun c hc => hdigits c (List.mem_of_mem_drop hc), ?_⟩
    rintro _ ⟨⟩
    refine ⟨.inl rfl, ?_, by simp [Nat.toDigits_ne_nil], ?_⟩
    · dsimp only
      split <;> simp
    · simp only [List.forall_mem_append]
      exact ⟨fun _ => isDigit_of_mem_zeros, fun _ => isDigit_of_mem_toDigits⟩

namespace Numeral

/-- A numeral begins with a digit. -/
theorem exists_digit_of_isWellFormed {n : Numeral} (hn : n.IsWellFormed) :
    ∃ c ∈ n.text.head?, isDigit c := by
  obtain ⟨c, cs, hwhole⟩ := List.exists_cons_of_ne_nil hn.ne_nil
  refine ⟨c, ?_, hn.whole c (hwhole ▸ List.mem_cons_self)⟩
  rw [text, hwhole]
  rfl

/-- The characters of numerals. -/
theorem mem_text {n : Numeral} (hn : n.IsWellFormed) {c : Char} (hc : c ∈ n.text) :
    isDigit c ∨ c ∈ ['.', 'e', 'E', '+', '-'] := by
  simp only [text, List.mem_append] at hc
  rcases hc with (hc | hc) | hc
  · exact .inl (hn.whole c hc)
  · split at hc
    · cases hc
    · rcases List.mem_cons.1 hc with rfl | hc
      · exact .inr (by decide)
      · exact .inl (hn.fraction c hc)
  · cases hexponent : n.exponent with
    | none =>
      rw [hexponent] at hc
      cases hc
    | some e =>
      have he := hn.exponent e hexponent
      rw [hexponent] at hc
      simp only [Option.map_some, Option.getD_some, Exponent.text, List.cons_append, List.mem_cons,
        List.mem_append] at hc
      rcases hc with rfl | hc | hc
      · rcases he.mark with h | h <;> rw [h] <;> exact .inr (by decide)
      · rcases he.sign with h | h | h <;> rw [h] at hc
        · cases hc
        · exact .inr (by simp_all)
        · exact .inr (by simp_all)
      · exact .inl (he.isDigit c hc)

/-- The text of a numeral determines its parts. -/
theorem eq_of_text_eq {m n : Numeral} (hm : m.IsWellFormed) (hn : n.IsWellFormed)
    (h : m.text = n.text) : m = n := by
  have hscan : scan? (m.text ++ []) = some (m, []) := scan?_text_append hm (by simp)
  rw [h, scan?_text_append hn (by simp)] at hscan
  exact (Prod.mk.inj (Option.some.inj hscan)).1.symm

end Numeral

namespace Number

/-! ## Magnitudes -/

/-- The numeral by which the magnitude of a finite double is displayed. -/
def magnitudeNumeral (units : Nat) (fits : Fits units) : Numeral :=
  if units % unitsPerOne = 0 then ⟨Nat.toDigits 10 (units / unitsPerOne), [], none⟩
  else (Decimal.shortest units fits).numeral

theorem isWellFormed_magnitudeNumeral {units : Nat} (fits : Fits units) :
    (magnitudeNumeral units fits).IsWellFormed := by
  unfold magnitudeNumeral
  split
  · exact ⟨Nat.toDigits_ne_nil, fun _ => isDigit_of_mem_toDigits, by simp, by simp⟩
  · exact Decimal.isWellFormed_numeral _

/-- The digits of a whole double denote it. -/
theorem ofDecimal_whole {units : Nat} (fits : Fits units) (hwhole : units % unitsPerOne = 0) :
    ofDecimal false (units / unitsPerOne) 0 = finite false units fits := by
  have hunits : units / unitsPerOne * unitsPerOne = units :=
    Nat.div_mul_cancel (Nat.dvd_of_mod_eq_zero hwhole)
  by_cases hzero : units / unitsPerOne = 0
  · rw [hzero, Nat.zero_mul] at hunits
    subst hunits
    rw [hzero]
    rfl
  have hupper : digitCount (units / unitsPerOne) ≤ 309 := by
    rw [digitCount_le_iff (by decide)]
    refine Nat.div_lt_of_lt_mul (Nat.lt_of_lt_of_le fits.1 ?_)
    decide +kernel
  rw [ofDecimal_of_range false hzero (by omega) (by omega)]
  have hnum : units / unitsPerOne * Nat.pow 10 (0 : Int).toNat * unitsPerOne = units := by
    have hone : Nat.pow 10 (0 : Int).toNat = 1 := by decide
    rw [hone, Nat.mul_one, hunits]
  rw [hnum]
  exact ofQuotient_one fits false

/-- The displayed magnitude of a finite double reads back as the magnitude. -/
theorem value_magnitudeNumeral {units : Nat} (fits : Fits units) :
    (magnitudeNumeral units fits).value = finite false units fits := by
  unfold magnitudeNumeral
  split
  · rename_i hwhole
    rw [Numeral.value, List.append_nil, digitsValue_toDigits]
    exact ofDecimal_whole fits hwhole
  · rw [Decimal.value_numeral, Decimal.value_shortest]

/-- The displayed text of a number without its sign. -/
def magnitudeChars : Number → List Char
  | nan => ['n', 'a', 'n']
  | infinity _ => ['i', 'n', 'f']
  | finite _ units fits => (magnitudeNumeral units fits).text

/-! ## Displayed numbers -/

/-- A number is shown as its magnitude, behind a sign if it is negative. -/
theorem displayChars_eq (x : Number) :
    x.displayChars = withSign x.isNegative x.magnitudeChars := by
  cases x with
  | nan | infinity _ => rfl
  | finite negative units fits =>
    by_cases hwhole : units % unitsPerOne = 0
    · simp [displayChars, isWhole, isNegative, magnitudeChars, magnitudeNumeral, hwhole,
        Numeral.text]
    · have hne : units ≠ 0 := by
        rintro rfl
        exact hwhole (Nat.zero_mod _)
      simp [displayChars, isWhole, isNegative, magnitudeChars, magnitudeNumeral, hwhole, textChars,
        hne]

/-- Without its sign a number begins with a digit, or it is the word for an infinity or for NaN. -/
theorem magnitudeChars_cases (x : Number) :
    (∃ c ∈ x.magnitudeChars.head?, isDigit c) ∨
      (x.magnitudeChars = ['i', 'n', 'f'] ∧ ∃ negative, x = infinity negative) ∨
        (x.magnitudeChars = ['n', 'a', 'n'] ∧ x = nan) := by
  cases x with
  | nan => exact .inr (.inr ⟨rfl, rfl⟩)
  | infinity negative => exact .inr (.inl ⟨rfl, negative, rfl⟩)
  | finite negative units fits =>
    exact .inl (Numeral.exists_digit_of_isWellFormed (isWellFormed_magnitudeNumeral fits))

theorem head?_magnitudeChars_ne (x : Number) {c : Char} (hc : isDigit c = false) (hi : c ≠ 'i')
    (hn : c ≠ 'n') : x.magnitudeChars.head? ≠ some c := by
  intro h
  rcases magnitudeChars_cases x with ⟨d, hd, hdigit⟩ | ⟨hchars, -⟩ | ⟨hchars, -⟩
  · obtain rfl : c = d := Option.some.inj (h.symm.trans hd)
    exact absurd hdigit (by simp [hc])
  · exact hi (Option.some.inj (h.symm.trans (congrArg List.head? hchars)))
  · exact hn (Option.some.inj (h.symm.trans (congrArg List.head? hchars)))

/-- The magnitude of a finite double is not displayed as a word. -/
theorem text_magnitudeNumeral_ne {units : Nat} (fits : Fits units) {word : List Char}
    (hword : ∀ c ∈ word.head?, isDigit c = false) : word ≠ (magnitudeNumeral units fits).text := by
  rintro rfl
  obtain ⟨c, hc, hdigit⟩ :=
    Numeral.exists_digit_of_isWellFormed (isWellFormed_magnitudeNumeral fits)
  exact absurd hdigit (by simp [hword c hc])

/-- Numbers of one sign are told apart by how their magnitudes are shown. -/
theorem eq_of_magnitudeChars_eq {x y : Number} (hsign : x.isNegative = y.isNegative)
    (h : x.magnitudeChars = y.magnitudeChars) : x = y := by
  have hwords : ['n', 'a', 'n'] ≠ ['i', 'n', 'f'] := by decide
  have hnan : ∀ c ∈ ['n', 'a', 'n'].head?, isDigit c = false := by decide +kernel
  have hinfinity : ∀ c ∈ ['i', 'n', 'f'].head?, isDigit c = false := by decide +kernel
  cases x with
  | nan =>
    cases y with
    | nan => rfl
    | infinity _ => exact absurd h hwords
    | finite _ units fits => exact absurd h (text_magnitudeNumeral_ne fits hnan)
  | infinity a =>
    cases y with
    | nan => exact absurd h.symm hwords
    | infinity b => exact congrArg infinity hsign
    | finite _ units fits => exact absurd h (text_magnitudeNumeral_ne fits hinfinity)
  | finite a units fits =>
    cases y with
    | nan => exact absurd h.symm (text_magnitudeNumeral_ne fits hnan)
    | infinity _ => exact absurd h.symm (text_magnitudeNumeral_ne fits hinfinity)
    | finite b units' fits' =>
      have hnumeral := Numeral.eq_of_text_eq (isWellFormed_magnitudeNumeral fits)
        (isWellFormed_magnitudeNumeral fits') h
      have hvalue := congrArg Numeral.value hnumeral
      rw [value_magnitudeNumeral, value_magnitudeNumeral] at hvalue
      obtain ⟨-, rfl⟩ := finite.inj hvalue
      obtain rfl : a = b := hsign
      rfl

theorem withSign_inj {a b : Bool} {xs ys : List Char} (hxs : xs.head? ≠ some '-')
    (hys : ys.head? ≠ some '-') (h : withSign a xs = withSign b ys) : a = b ∧ xs = ys := by
  cases a <;> cases b
  · exact ⟨rfl, h⟩
  · exact absurd (congrArg List.head? h) hxs
  · exact absurd (congrArg List.head? h).symm hys
  · exact ⟨rfl, (List.cons.inj h).2⟩

/-- Numbers with the same displayed text are the same. -/
theorem display_injective : Function.Injective display := by
  intro x y h
  replace h : x.displayChars = y.displayChars := String.ofList_injective h
  rw [displayChars_eq, displayChars_eq] at h
  have hminus (z : Number) : z.magnitudeChars.head? ≠ some '-' :=
    head?_magnitudeChars_ne z (by decide +kernel) (by decide) (by decide)
  obtain ⟨hsign, hchars⟩ := withSign_inj (hminus x) (hminus y) h
  exact eq_of_magnitudeChars_eq hsign hchars

theorem displayChars_ne_nil (x : Number) : x.displayChars ≠ [] := by
  intro h
  have hmagnitude : x.magnitudeChars = [] := by
    rw [displayChars_eq, withSign] at h
    split at h
    · cases h
    · exact h
  rcases magnitudeChars_cases x with ⟨c, hc, -⟩ | ⟨hchars, -⟩ | ⟨hchars, -⟩
  · rw [hmagnitude] at hc
    cases hc
  all_goals
    rw [hmagnitude] at hchars
    cases hchars

/-- The characters of displayed numbers. -/
theorem mem_displayChars {x : Number} {c : Char} (hc : c ∈ x.displayChars) :
    isDigit c ∨ c ∈ ['.', 'e', 'E', '+', '-', 'n', 'a', 'i', 'f'] := by
  have hmagnitude : c ∈ x.magnitudeChars →
      isDigit c ∨ c ∈ ['.', 'e', 'E', '+', '-', 'n', 'a', 'i', 'f'] := by
    intro hc
    cases x with
    | nan | infinity _ =>
      simp only [magnitudeChars, List.mem_cons, List.not_mem_nil, or_false] at hc
      exact .inr (by simp only [List.mem_cons]; tauto)
    | finite negative units fits =>
      refine (Numeral.mem_text (isWellFormed_magnitudeNumeral fits) hc).imp_right fun h => ?_
      simp only [List.mem_cons, List.not_mem_nil, or_false] at h ⊢
      tauto
  rw [displayChars_eq, withSign] at hc
  split at hc
  · rcases List.mem_cons.1 hc with rfl | hc
    · exact .inr (by decide)
    · exact hmagnitude hc
  · exact hmagnitude hc

end Number
end Quill
