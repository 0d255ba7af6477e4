import Quill.Optimize
import Quill.Proofs.Number.Display
import Quill.Proofs.Number.Overflow
import Quill.Proofs.Grammar.Layout

/-!
# Displayed numbers are read back

A finite double is displayed as the numeral of its magnitude, with a minus in front if its sign bit
is set. The language has no negative numerals: the minus is read as an operator, and the optimizer
takes it into the number again. So what is displayed becomes the same number again, the sign of a
zero included.

## Main definitions

* `Number.readBack` — the expression as which a displayed number is read.
-/

namespace Quill

open Text Quill.Tree

namespace Number

/-- The expression as which the displayed text of a finite number is read. -/
def readBack (x : Number) : Tree :=
  if x.isNegative then unary "-" (number x.abs) else number x

/-! ## Whole numbers -/

theorem toList_toString_int (n : Int) :
    (toString n).toList = withSign (n < 0) (Nat.toDigits 10 n.natAbs) := by
  cases n with
  | ofNat k =>
    have hsign : ¬ Int.ofNat k < 0 := Int.not_lt.2 (Int.natCast_nonneg k)
    rw [withSign, decide_eq_false hsign, if_neg Bool.false_ne_true]
    exact String.toList_ofList
  | negSucc k =>
    rw [withSign, decide_eq_true (Int.negSucc_lt_zero k), if_pos rfl]
    change ("-" ++ String.ofList (Nat.toDigits 10 (k + 1))).toList = '-' :: Nat.toDigits 10 (k + 1)
    rw [String.toList_append, String.toList_ofList, String.toList_ofList, List.singleton_append]

/-- A whole number is shown by all its digits. -/
theorem displayChars_whole (negative : Bool) {units n : Nat} (fits : Fits units)
    (h : units = n * unitsPerOne) :
    (finite negative units fits).displayChars = withSign negative (Nat.toDigits 10 n) := by
  have hwhole : (finite negative units fits).isWhole = true := by
    rw [isWhole, h, Nat.mul_mod_left]
    rfl
  rw [displayChars, if_pos hwhole, h, Nat.mul_div_cancel _ unitsPerOne_pos]

/-- Whole numbers are displayed with all their digits, and the negative zero with its sign. -/
theorem display_whole {x : Number} {n : Int} (hx : x.isFinite)
    (h : x.place = some (n * unitsPerOne)) :
    x.display = if x = signedZero true then "-0" else toString n := by
  cases x with
  | nan | infinity _ => cases hx
  | finite negative units fits =>
    have hplace : (if negative then -(units : Int) else units) = n * unitsPerOne :=
      Option.some.inj h
    have hnegative : n < 0 ↔ negative = true ∧ units ≠ 0 := by
      rw [← ite_neg_lt_zero, hplace,
        ← Int.mul_lt_mul_right (Int.natCast_pos.2 unitsPerOne_pos), Int.zero_mul]
    have hunits : units = n.natAbs * unitsPerOne := by
      have habs := congrArg Int.natAbs hplace
      rwa [natAbs_ite_neg, Int.natAbs_mul, Int.natAbs_natCast] at habs
    rw [display, displayChars_whole negative fits hunits]
    split
    · rename_i hzero
      obtain ⟨rfl, rfl⟩ := finite.inj hzero
      have hn : n.natAbs = 0 :=
        (Nat.mul_eq_zero.1 hunits.symm).resolve_right (Nat.ne_of_gt unitsPerOne_pos)
      rw [hn]
      rfl
    · rename_i hzero
      have hsign : negative = decide (n < 0) := by
        rw [Bool.eq_iff_iff, decide_eq_true_iff, hnegative]
        refine (and_iff_left_of_imp ?_).symm
        rintro rfl rfl
        exact hzero rfl
      rw [hsign, ← toList_toString_int, String.ofList_toList]

end Number

namespace Tree

variable {filename : String} {e : Tree} {d : Cursor}

/-! ## Reading -/

/-- What is read at a level up to the end of a text is the whole expression. -/
theorem ofExpression_of_readsAt {cs : List Char} {k : Nat} (hk : k ≤ topLevel) (htab : '\t' ∉ cs)
    (h : ∀ inner, ReadsAt filename inner k (Cursor.start cs) e d) (hd : d.skip.ahead = []) :
    ofExpression filename cs = .ok e := by
  have hspells : d.Spells [] := hd
  have htop := (h (readNested filename cs.length)).mono hk hspells (by simp [Ends])
  exact ofExpression_of_read htab htop hd

end Tree

/-- A numeral up to the end of a text is read at every level. -/
theorem Numeral.IsWellFormed.exists_readsAt {n : Numeral} (hn : n.IsWellFormed)
    (filename : String) {behind : List Char}
    (hbehind : behind.head?.any Cursor.touchesKeyword = false) :
    ∃ d : Cursor, d.skip.ahead = [] ∧
      ∀ inner k, ReadsAt filename inner k ⟨behind, n.text⟩ (.number n.value) d := by
  have hlexeme : ∀ w ∈ [String.ofList n.text], IsLexeme w :=
    fun w hw => List.mem_singleton.1 hw ▸ hn.isLexeme
  have hspells := (Separated.last (String.ofList n.text)).spells hlexeme .nil hbehind
  rw [String.toList_ofList, List.nil_append] at hspells
  obtain ⟨d, hshows, hd⟩ := hspells
  refine ⟨d, hd, fun inner k => ?_⟩
  exact (ReadsAt.numeral hshows hn).mono (Nat.zero_le k) hd (by simp [Ends])

namespace Number

variable {x : Number}

theorem noTab_displayChars (x : Number) : '\t' ∉ x.displayChars := by
  intro hmem
  have hchars := mem_displayChars hmem
  revert hchars
  decide +kernel

/-- The minus at the start of a text is read as an operator. -/
theorem firstSymbol?_minus (rest : List Char) :
    (Cursor.start ('-' :: rest)).firstSymbol? signSymbols = some ("-", ⟨['-'], rest⟩) := by
  have hskip : (Cursor.start ('-' :: rest)).skip = Cursor.start ('-' :: rest) :=
    Cursor.skip_eq_self (Cursor.stops_of_head rfl (by decide) (by decide))
  have hminus : (Cursor.start ('-' :: rest)).symbol? "-" = some ⟨['-'], rest⟩ := by
    rw [Cursor.symbol?_eq_some_iff, hskip]
    exact ⟨rfl, rfl⟩
  rw [Cursor.firstSymbol?, signSymbols, List.findSome?_cons, hminus]
  rfl

/-- A displayed number is read as its magnitude, with the minus as an operator in front. -/
theorem ofExpression_display (filename : String) (hx : x.isFinite) :
    ofExpression filename x.display.toList = .ok x.readBack := by
  cases x with
  | nan | infinity _ => cases hx
  | finite negative units fits =>
    have htab := noTab_displayChars (finite negative units fits)
    rw [displayChars_eq] at htab
    rw [display, String.toList_ofList, displayChars_eq]
    have hwellFormed := isWellFormed_magnitudeNumeral fits
    have hvalue := value_magnitudeNumeral fits
    cases negative with
    | false =>
      have hstart : ([] : List Char).head?.any Cursor.touchesKeyword = false := rfl
      obtain ⟨d, hd, hread⟩ := hwellFormed.exists_readsAt filename hstart
      rw [hvalue] at hread
      exact ofExpression_of_readsAt (Nat.le_refl topLevel) htab (fun inner => hread inner _) hd
    | true =>
      have hminus : ['-'].head?.any Cursor.touchesKeyword = false := by decide
      obtain ⟨d, hd, hread⟩ := hwellFormed.exists_readsAt filename hminus
      rw [hvalue] at hread
      refine ofExpression_of_readsAt (k := signLevel) (by decide) htab (fun inner => ?_) hd
      exact (hread inner signLevel).sign (firstSymbol?_minus _) (Nat.lt_succ_self _)

/-- Displayed and read back, every finite number is the same number again, and whole numbers are
displayed with all their digits. -/
theorem optimize?_display (filename : String) (hx : x.isFinite) :
    (∃ e, ofExpression filename x.display.toList = .ok e ∧ e.optimize? = .ok (number x)) ∧
      ∀ n : Int, x.place = some (n * unitsPerOne) →
        x.display = if x = signedZero true then "-0" else toString n := by
  refine ⟨⟨x.readBack, ofExpression_display filename hx, ?_⟩, fun n => display_whole hx⟩
  unfold readBack
  cases x with
  | nan | infinity _ => cases hx
  | finite negative units fits => cases negative <;> rfl

/-- The negative double next to zero. -/
def leastNegative : Number := finite true 1 (by decide +kernel)

/-- It is displayed with a minus and with a negative exponent. -/
theorem optimize?_display_leastNegative :
    leastNegative.isFinite ∧ leastNegative.display = "-5e-324" ∧
      (∃ e, ofExpression "number" "-5e-324".toList = .ok e ∧
        e.optimize? = .ok (number leastNegative)) ∧
      (signedZero true).place = some ((0 : Int) * unitsPerOne) ∧
      (signedZero true).display = "-0" := by
  have hdisplay : leastNegative.display = "-5e-324" := by decide +kernel
  obtain ⟨hread, -⟩ := optimize?_display "number" (x := leastNegative) rfl
  obtain ⟨-, hwhole⟩ := optimize?_display "number" (x := signedZero true) rfl
  have hplace : (signedZero true).place = some ((0 : Int) * unitsPerOne) := by
    rw [Int.zero_mul]
    rfl
  rw [hdisplay] at hread
  exact ⟨rfl, hdisplay, hread, hplace, hwhole 0 hplace⟩

end Number
end Quill
