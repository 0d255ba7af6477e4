import Quill.Number.Basic
import Quill.Text.Digit
import Quill.Text.Blank

/-!
# Numerals

A numeral is written as digits, optionally with a fraction and an exponent. It denotes the double
nearest to its exact decimal value.

## Main definitions

* `Number.ofDecimal negative digits exponent` — the double nearest to `digits * 10 ^ exponent`.
* `Numeral` — the parts of a written numeral, with `Numeral.text` and `Numeral.value`.
* `Numeral.scan? cs` — the longest numeral at the start of `cs`, and the rest.
* `Number.ofText? cs` — any written number: signed, spaced, infinite or NaN.
-/

namespace Quill

open Text

/-! ## Decimal values -/

/-- The number of decimal digits of a whole number; zero has one. -/
def digitCount (n : Nat) : Nat := (Nat.toDigits 10 n).length

/-- The double nearest to `± digits * 10 ^ exponent`. Numbers from `10 ^ 310` on overflow and those
below `10 ^ -324` vanish, so their powers of ten are never computed. -/
def Number.ofDecimal (negative : Bool) (digits : Nat) (exponent : Int) : Number :=
  if digits = 0 then Number.signedZero negative
  else if 310 < digitCount digits + exponent then Number.infinity negative
  else if digitCount digits + exponent < -324 then Number.signedZero negative
  else
    Number.ofQuotient negative (digits * Nat.pow 10 exponent.toNat * unitsPerOne)
      (Nat.pow 10 (-exponent).toNat)

/-! ## Numerals -/

/-- The exponent of a numeral: its mark `e` or `E`, an optional sign, and digits. -/
structure Numeral.Exponent where
  mark : Char
  sign : Option Char
  digits : List Char
deriving DecidableEq

/-- The parts of a numeral; without a point the fraction is empty. -/
structure Numeral where
  whole : List Char
  fraction : List Char
  exponent : Option Numeral.Exponent
deriving DecidableEq

namespace Numeral

namespace Exponent

/-- The written exponent. -/
def text (e : Exponent) : List Char := e.mark :: e.sign.toList ++ e.digits

/-- The value of the exponent. -/
def value (e : Exponent) : Int :=
  if e.sign = some '-' then -(digitsValue e.digits : Int) else digitsValue e.digits

/-- The exponent at the start of a text. -/
def scan? : List Char → Option (Exponent × List Char)
  | [] => none
  | mark :: cs =>
    if mark = 'e' ∨ mark = 'E' then
      let (sign, cs) : Option Char × List Char :=
        match cs with
        | '+' :: rest => (some '+', rest)
        | '-' :: rest => (some '-', rest)
        | _ => (none, cs)
      let digits := cs.takeWhile isDigit
      if digits = [] then none else some (⟨mark, sign, digits⟩, cs.dropWhile isDigit)
    else none

end Exponent

/-- The written numeral. -/
def text (n : Numeral) : List Char :=
  n.whole ++ (if n.fraction = [] then [] else '.' :: n.fraction)
    ++ (n.exponent.map Exponent.text).getD []

/-- The double nearest to the numeral. -/
def value (n : Numeral) : Number :=
  Number.ofDecimal false (digitsValue (n.whole ++ n.fraction))
    ((n.exponent.map Exponent.value).getD 0 - n.fraction.length)

/-- A point with digits behind it; a point alone belongs to what follows. -/
def scanFraction (cs : List Char) : List Char × List Char :=
  match cs with
  | '.' :: rest =>
    if rest.takeWhile isDigit = [] then ([], cs)
    else (rest.takeWhile isDigit, rest.dropWhile isDigit)
  | _ => ([], cs)

/-- The longest numeral at the start of a text, and the rest. -/
def scan? (cs : List Char) : Option (Numeral × List Char) :=
  let whole := cs.takeWhile isDigit
  if whole = [] then none
  else
    let (fraction, cs) := scanFraction (cs.dropWhile isDigit)
    match Exponent.scan? cs with
    | some (exponent, cs) => some (⟨whole, fraction, some exponent⟩, cs)
    | none => some (⟨whole, fraction, none⟩, cs)

theorem Exponent.text_append_of_scan? {cs rest : List Char} {e : Exponent}
    (h : Exponent.scan? cs = some (e, rest)) : cs = e.text ++ rest := by
  cases cs with
  | nil => simp [Exponent.scan?] at h
  | cons mark cs =>
    simp only [Exponent.scan?] at h
    split at h
    · split at h
      all_goals
        split at h
        · simp at h
        · simp only [Option.some.injEq, Prod.mk.injEq] at h
          obtain ⟨rfl, rfl⟩ := h
          simp [Exponent.text, List.takeWhile_append_dropWhile]
    · simp at h

theorem scanFraction_append (cs : List Char) :
    cs = (if (scanFraction cs).1 = [] then [] else '.' :: (scanFraction cs).1)
      ++ (scanFraction cs).2 := by
  unfold scanFraction
  split
  · split <;> simp_all
  · simp

/-- Scanning neither loses nor invents characters. -/
theorem text_append_of_scan? {cs rest : List Char} {n : Numeral}
    (h : scan? cs = some (n, rest)) : cs = n.text ++ rest := by
  simp only [scan?] at h
  split at h
  · simp at h
  · have hcs := List.takeWhile_append_dropWhile (p := isDigit) (l := cs)
    have hfraction := scanFraction_append (cs.dropWhile isDigit)
    split at h
    · rename_i e rest' he
      have hexponent := Exponent.text_append_of_scan? he
      simp only [Option.some.injEq, Prod.mk.injEq] at h
      obtain ⟨rfl, rfl⟩ := h
      refine hcs.symm.trans ((congrArg _ (hfraction.trans (congrArg _ hexponent))).trans ?_)
      simp [text]
    · simp only [Option.some.injEq, Prod.mk.injEq] at h
      obtain ⟨rfl, rfl⟩ := h
      refine hcs.symm.trans ((congrArg _ hfraction).trans ?_)
      simp [text]

end Numeral

/-! ## Written numbers -/

/-- Removes the underscores of a text; each must stand between two digits. -/
def dropUnderscores? : Option Char → List Char → Option (List Char)
  | _, [] => some []
  | before, '_' :: cs =>
    if before.any isDigit && cs.head?.any isDigit then dropUnderscores? none cs else none
  | _, c :: cs => (dropUnderscores? (some c) cs).map (c :: ·)

/-- A decimal with digits before or behind its point, as `2`, `2.5`, `2.` or `.5`. -/
def Number.ofUnsigned? (negative : Bool) (cs : List Char) : Option Number :=
  let whole := cs.takeWhile isDigit
  let (fraction, cs) : List Char × List Char :=
    match cs.dropWhile isDigit with
    | '.' :: rest => (rest.takeWhile isDigit, rest.dropWhile isDigit)
    | cs => ([], cs)
  let value (exponent : Int) :=
    Number.ofDecimal negative (digitsValue (whole ++ fraction)) (exponent - fraction.length)
  if whole = [] ∧ fraction = [] then none
  else if cs = [] then some (value 0)
  else match Numeral.Exponent.scan? cs with
    | some (exponent, []) => some (value exponent.value)
    | _ => none

/-- Reads a written number. Blanks around it are dropped, letter case of the infinite and NaN words
does not matter, and an underscore may separate two digits. -/
def Number.ofText? (cs : List Char) : Option Number :=
  let (negative, cs) : Bool × List Char :=
    match trim cs with
    | '-' :: rest => (true, rest)
    | '+' :: rest => (false, rest)
    | cs => (false, cs)
  let word := String.ofList (cs.map Char.toLower)
  if word = "inf" ∨ word = "infinity" then some (Number.infinity negative)
  else if word = "nan" then some Number.nan
  else (dropUnderscores? none cs).bind (Number.ofUnsigned? negative)

end Quill
