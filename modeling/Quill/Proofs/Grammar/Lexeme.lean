import Quill.Proofs.Scope.Resolution
import Quill.Proofs.Grammar.Derivation
import Quill.Proofs.Grammar.Skip

/-!
# Single lexemes

What it means that a lexeme is read at a cursor, in terms of the characters that stand there, and
with which characters an expression begins.

## Main definitions

* `Cursor.Takes c w d` — the characters `w` stand ahead of `c`, and `d` is the place behind them.
* `opensOperand`, `opensExpression` — the characters that operands and expressions begin with.
* `Opens p r` — the reader `r` succeeds only where a character with `p` stands.
-/

namespace Quill

open Text

/-! ## Characters -/

theorem Cursor.noWordChar_of_isBlank {ch : Char} (h : isBlank ch) :
    isWordChar ch = false ∧ isDigit ch = false := by
  have hcodes : ∀ code ∈ blankRanges.flatMap fun r => List.range' r.1 (r.2 + 1 - r.1),
      codeInRanges letterRanges code = false ∧ digitCode? zeroCodes code = none ∧ code ≠ 0x5F := by
    decide +kernel
  obtain ⟨r, hr, hlow, hhigh⟩ := codeInRanges_sound h
  obtain ⟨hword, hdigit, hne⟩ := hcodes ch.toNat
    (List.mem_flatMap.2 ⟨r, hr, List.mem_range'_1.2 ⟨hlow, by omega⟩⟩)
  have hunderscore : ch ≠ '_' := by
    rintro rfl
    exact hne rfl
  exact ⟨by simp [isWordChar, inRanges, hword, hunderscore], by simp [isDigit, digitValue?, hdigit]⟩

/-- A property of ASCII characters is checked on all of them. -/
theorem forall_ascii {p : Char → Prop} (h : ∀ n < 128, p (Char.ofNat n)) {ch : Char}
    (hch : ch.toNat < 128) : p ch := by
  have hp := h ch.toNat hch
  rwa [Char.ofNat_toNat] at hp

namespace Cursor

/-- Only characters below 128 touch a keyword. -/
theorem ascii_of_touchesKeyword {ch : Char} (h : touchesKeyword ch) : ch.toNat < 128 := by
  have hle : ∀ top : Char, ch.val ≤ top.val → ch.toNat ≤ top.toNat :=
    fun _ => UInt32.le_iff_toNat_le.1
  have hupper (h : ch.isUpper) : ch.toNat < 128 :=
    Nat.lt_of_le_of_lt (hle 'Z' (of_decide_eq_true h).2) (by decide)
  have hlower (h : ch.isLower) : ch.toNat < 128 :=
    Nat.lt_of_le_of_lt (hle 'z' (of_decide_eq_true (Bool.and_eq_true_iff.1 h).2)) (by decide)
  have hdigit (h : ch.isDigit) : ch.toNat < 128 :=
    Nat.lt_of_le_of_lt (hle '9' (of_decide_eq_true (Bool.and_eq_true_iff.1 h).2)) (by decide)
  have hletter (h : ch.isAlpha) : ch.toNat < 128 := (Bool.or_eq_true_iff.1 h).elim hupper hlower
  simp only [touchesKeyword, Bool.or_eq_true, decide_eq_true_eq] at h
  rcases h with (h | rfl) | rfl
  · exact (Bool.or_eq_true_iff.1 h).elim hletter hdigit
  · decide
  · decide

/-- A keyword may not touch the characters of words in ASCII, nor a dollar sign. -/
theorem touchesKeyword_eq {ch : Char} (hch : ch.toNat < 128) :
    touchesKeyword ch = (isWordChar ch || ch = '$') :=
  forall_ascii (p := fun ch => touchesKeyword ch = (isWordChar ch || ch = '$')) (by decide +kernel)
    hch

theorem touchesKeyword_of_isWordChar {ch : Char} (h : isWordChar ch) (hch : ch.toNat < 128) :
    touchesKeyword ch := by
  simp [touchesKeyword_eq hch, h]

theorem isWordChar_of_touchesKeyword {ch : Char} (h : touchesKeyword ch) (hch : ch ≠ '$') :
    isWordChar ch := by
  simpa [touchesKeyword_eq (ascii_of_touchesKeyword h), hch] using h

theorem noTouch_of_isSeparator {ch : Char} (h : isSeparator ch) : touchesKeyword ch = false := by
  simp only [isSeparator, Bool.or_eq_true, decide_eq_true_eq] at h
  rcases h with ((rfl | rfl) | rfl) | rfl <;> decide

end Cursor

/-! ## Runs of characters -/

theorem takeWhile_eq_nil_of_head {p : Char → Bool} {cs : List Char}
    (h : ∀ ch ∈ cs.head?, p ch = false) : cs.takeWhile p = [] := by
  cases cs with
  | nil => rfl
  | cons ch cs => simp [h ch rfl]

theorem dropWhile_eq_self_of_head {p : Char → Bool} {cs : List Char}
    (h : ∀ ch ∈ cs.head?, p ch = false) : cs.dropWhile p = cs := by
  cases cs with
  | nil => rfl
  | cons ch cs => simp [h ch rfl]

/-- A run ends where a character stands that does not belong to it. -/
theorem takeWhile_run_append {p : Char → Bool} {run rest : List Char} (hrun : ∀ ch ∈ run, p ch)
    (hrest : ∀ ch ∈ rest.head?, p ch = false) : (run ++ rest).takeWhile p = run := by
  rw [List.takeWhile_append_of_pos hrun, takeWhile_eq_nil_of_head hrest, List.append_nil]

theorem dropWhile_run_append {p : Char → Bool} {run rest : List Char} (hrun : ∀ ch ∈ run, p ch)
    (hrest : ∀ ch ∈ rest.head?, p ch = false) : (run ++ rest).dropWhile p = rest := by
  rw [List.dropWhile_append_of_pos hrun, dropWhile_eq_self_of_head hrest]

theorem mem_of_takeWhile {p : Char → Bool} {cs : List Char} : ∀ ch ∈ cs.takeWhile p, p ch :=
  List.all_eq_true.1 List.all_takeWhile

theorem head_of_takeWhile {p : Char → Bool} {cs rest : List Char} {ch : Char}
    (h : cs.takeWhile p = ch :: rest) : ch ∈ cs.head? := by
  cases cs with
  | nil => cases h
  | cons x cs =>
    rw [List.takeWhile_cons] at h
    split at h
    · exact congrArg some (List.cons.inj h).1
    · cases h

theorem head_dropWhile {p : Char → Bool} {cs : List Char} :
    ∀ ch ∈ (cs.dropWhile p).head?, p ch = false := by
  intro ch hch
  have h := List.head?_dropWhile_not p cs
  rw [Option.mem_def.1 hch] at h
  exact h

/-! ## Numerals -/

namespace Numeral

theorem Exponent.isWellFormed_of_scan? {cs rest : List Char} {e : Exponent}
    (h : Exponent.scan? cs = some (e, rest)) : e.IsWellFormed := by
  cases cs with
  | nil => cases h
  | cons mark cs =>
    simp only [Exponent.scan?] at h
    split at h
    · rename_i hmark
      split at h
      all_goals
        split at h
        · cases h
        · rename_i hdigits
          obtain ⟨rfl, -⟩ := Prod.mk.inj (Option.some.inj h)
          exact ⟨hmark, by simp, hdigits, mem_of_takeWhile⟩
    · cases h

/-- Scanning finds the parts of numerals as they must be. -/
theorem isWellFormed_of_scan? {cs rest : List Char} {n : Numeral} (h : scan? cs = some (n, rest)) :
    n.IsWellFormed := by
  have hfraction : ∀ cs, ∀ ch ∈ (scanFraction cs).1, isDigit ch := by
    intro cs
    unfold scanFraction
    split
    · split
      · simp
      · exact mem_of_takeWhile
    · simp
  simp only [scan?] at h
  split at h
  · cases h
  · rename_i hwhole
    split at h
    · rename_i e rest' he
      obtain ⟨rfl, -⟩ := Prod.mk.inj (Option.some.inj h)
      refine ⟨hwhole, mem_of_takeWhile, hfraction _, ?_⟩
      intro e' he'
      obtain rfl := Option.some.inj he'
      exact Exponent.isWellFormed_of_scan? he
    · obtain ⟨rfl, -⟩ := Prod.mk.inj (Option.some.inj h)
      exact ⟨hwhole, mem_of_takeWhile, hfraction _, by simp⟩

/-- A well-formed exponent is scanned whole, if no digit follows it. -/
theorem Exponent.scan?_text_append {e : Exponent} (he : e.IsWellFormed) {rest : List Char}
    (hrest : ∀ ch ∈ rest.head?, isDigit ch = false) :
    Exponent.scan? (e.text ++ rest) = some (e, rest) := by
  obtain ⟨mark, sign, digits⟩ := e
  obtain ⟨hmark, hsign, hne, hdigits⟩ := he
  have htake := takeWhile_run_append hdigits hrest
  have hdrop := dropWhile_run_append hdigits hrest
  rcases hsign with rfl | rfl | rfl
  · obtain ⟨ch, digits, rfl⟩ := List.exists_cons_of_ne_nil hne
    have hdigit := hdigits ch List.mem_cons_self
    simp only [text, Option.toList_none, List.cons_append, List.nil_append, Exponent.scan?,
      if_pos hmark]
    split
    · obtain ⟨rfl, -⟩ := List.cons.inj ‹_›
      exact absurd hdigit (by decide)
    · obtain ⟨rfl, -⟩ := List.cons.inj ‹_›
      exact absurd hdigit (by decide)
    · simp only [List.cons_append] at htake hdrop
      simp [htake, hdrop]
  all_goals
    simp only [text, Option.toList_some, List.cons_append, List.nil_append, Exponent.scan?,
      if_pos hmark, htake, hdrop]
    exact if_neg hne

theorem Exponent.scan?_eq_none {cs : List Char} (h : ∀ ch ∈ cs.head?, ch ≠ 'e' ∧ ch ≠ 'E') :
    Exponent.scan? cs = none := by
  cases cs with
  | nil => rfl
  | cons ch cs =>
    obtain ⟨he, hE⟩ := h ch rfl
    simp [Exponent.scan?, he, hE]

theorem scanFraction_text_append {fraction tail : List Char} (hf : ∀ ch ∈ fraction, isDigit ch)
    (htail : ∀ ch ∈ tail.head?, isDigit ch = false ∧ ch ≠ '.') :
    scanFraction ((if fraction = [] then [] else '.' :: fraction) ++ tail) = (fraction, tail) := by
  by_cases hnil : fraction = []
  · subst hnil
    simp only [if_true, List.nil_append, scanFraction]
    split
    · exact absurd rfl (htail '.' rfl).2
    · rfl
  · have hdigit : ∀ ch ∈ tail.head?, isDigit ch = false := fun ch hch => (htail ch hch).1
    simp only [if_neg hnil, List.cons_append, scanFraction, takeWhile_run_append hf hdigit,
      dropWhile_run_append hf hdigit]

/-- A numeral is scanned as a whole, if nothing follows that could belong to it. -/
theorem scan?_text_append {n : Numeral} (hn : n.IsWellFormed) {rest : List Char}
    (hrest : ∀ ch ∈ rest.head?, isDigit ch = false ∧ ch ≠ '.' ∧ ch ≠ 'e' ∧ ch ≠ 'E') :
    scan? (n.text ++ rest) = some (n, rest) := by
  obtain ⟨whole, fraction, exponent⟩ := n
  obtain ⟨hne, hwhole, hfraction, hexponent⟩ := hn
  let tail := (exponent.map Exponent.text).getD [] ++ rest
  have htail : ∀ ch ∈ tail.head?, isDigit ch = false ∧ ch ≠ '.' := by
    cases exponent with
    | none => exact fun ch hch => ⟨(hrest ch hch).1, (hrest ch hch).2.1⟩
    | some e =>
      intro ch hch
      obtain rfl := Option.some.inj hch
      rcases (hexponent e rfl).mark with h | h <;> rw [h] <;> decide
  have hscan : Exponent.scan? tail = exponent.map (·, rest) := by
    cases exponent with
    | none => exact Exponent.scan?_eq_none fun ch hch => (hrest ch hch).2.2
    | some e => exact Exponent.scan?_text_append (hexponent e rfl) fun ch hch => (hrest ch hch).1
  let point := (if fraction = [] then [] else '.' :: fraction) ++ tail
  have hpoint : ∀ ch ∈ point.head?, isDigit ch = false := by
    intro ch hch
    by_cases hf : fraction = []
    · exact (htail ch (by simpa [point, hf] using hch)).1
    · obtain rfl : '.' = ch := by simpa [point, hf] using hch
      decide
  have htext : text ⟨whole, fraction, exponent⟩ ++ rest = whole ++ point := by
    simp [text, point, tail]
  rw [htext]
  simp only [scan?, takeWhile_run_append hwhole hpoint, dropWhile_run_append hwhole hpoint,
    if_neg hne, point, scanFraction_text_append hfraction htail, hscan]
  cases exponent <;> rfl

/-- Nothing is scanned where no digit stands. -/
theorem scan?_eq_none {cs : List Char} (h : ∀ ch ∈ cs.head?, isDigit ch = false) :
    scan? cs = none := by
  simp [scan?, takeWhile_eq_nil_of_head h]

theorem exists_digit_of_scan? {cs rest : List Char} {n : Numeral} (h : scan? cs = some (n, rest)) :
    ∃ ch ∈ cs.head?, isDigit ch := by
  cases cs with
  | nil => cases h
  | cons ch cs =>
    refine ⟨ch, rfl, ?_⟩
    cases hch : isDigit ch with
    | true => rfl
    | false =>
      rw [scan?_eq_none (by simpa using hch)] at h
      cases h

end Numeral

/-! ## Lexemes at a cursor -/

namespace Cursor

/-- The characters stand ahead, and the other cursor is behind them. -/
structure Takes (c : Cursor) (w : List Char) (d : Cursor) : Prop where
  ahead : c.ahead = w ++ d.ahead
  behind : d.behind = w.reverse ++ c.behind

theorem takes_iff {c d : Cursor} {w : List Char} :
    c.Takes w d ↔ w <+: c.ahead ∧ d = c.advance w.length := by
  obtain ⟨behind, ahead⟩ := c
  constructor
  · rintro ⟨rfl, hbehind⟩
    refine ⟨List.prefix_append _ _, ?_⟩
    rw [advance_length_append, ← hbehind]
  · rintro ⟨⟨rest, rfl⟩, rfl⟩
    rw [advance_length_append]
    exact ⟨rfl, rfl⟩

theorem Takes.length {c d : Cursor} {w : List Char} (h : c.Takes w d) :
    c.ahead.length = w.length + d.ahead.length := by
  rw [h.ahead, List.length_append]

theorem Takes.head {c d : Cursor} {ch : Char} {w : List Char} (h : c.Takes (ch :: w) d) :
    ch ∈ c.ahead.head? := by
  rw [h.ahead]
  rfl

/-- A symbol is found exactly where it stands behind blanks and comments. -/
theorem symbol?_eq_some_iff {c d : Cursor} {s : String} :
    c.symbol? s = some d ↔ c.skip.Takes s.toList d := by
  simp only [symbol?, takes_iff, ← List.isPrefixOf_iff_prefix]
  cases s.toList.isPrefixOf c.skip.ahead <;> simp [eq_comm]

theorem symbol?_eq_none_iff {c : Cursor} {s : String} :
    c.symbol? s = none ↔ ¬ s.toList <+: c.skip.ahead := by
  simp [symbol?]

/-- A keyword is found exactly where it stands and nothing touches it on either side. -/
theorem keyword?_eq_some_iff {c d : Cursor} {k : String} :
    c.keyword? k = some d ↔ c.Takes k.toList d ∧ c.behind.head?.any touchesKeyword = false ∧
      d.ahead.head?.any touchesKeyword = false := by
  simp only [keyword?, takes_iff, ← List.isPrefixOf_iff_prefix, Option.ite_none_right_eq_some,
    Bool.and_eq_true, Bool.not_eq_true', Option.some.injEq]
  constructor
  · rintro ⟨⟨⟨hpre, hbehind⟩, hnext⟩, rfl⟩
    exact ⟨⟨hpre, rfl⟩, hbehind, hnext⟩
  · rintro ⟨⟨hpre, rfl⟩, hbehind, hnext⟩
    exact ⟨⟨⟨hpre, hbehind⟩, hnext⟩, rfl⟩

/-- Where a keyword stands that is not seen, a character follows that it may not touch. -/
theorem touches_of_keyword?_eq_none {c : Cursor} {k : String} {rest : List Char}
    (h : c.keyword? k = none) (hahead : c.ahead = k.toList ++ rest)
    (hbehind : c.behind.head?.any touchesKeyword = false) : rest.head?.any touchesKeyword := by
  rw [← Bool.not_eq_false]
  intro hnext
  have htakes : c.Takes k.toList (c.advance k.toList.length) :=
    takes_iff.2 ⟨⟨rest, hahead.symm⟩, rfl⟩
  have hrest : (c.advance k.toList.length).ahead = rest := by
    rw [ahead_advance, hahead, List.drop_left]
  rw [keyword?_eq_some_iff.2 ⟨htakes, hbehind, hrest ▸ hnext⟩] at h
  cases h

/-- A numeral is found exactly where the scanner finds one, and it takes its text. -/
theorem numeral?_eq_some_iff {c d : Cursor} {n : Numeral} :
    c.numeral? = some (n, d) ↔ Numeral.scan? c.ahead = some (n, d.ahead) ∧ c.Takes n.text d := by
  simp only [numeral?, takes_iff, Option.map_eq_some_iff, Prod.mk.injEq, Prod.exists]
  constructor
  · rintro ⟨n', rest, hscan, rfl, rfl⟩
    have hahead := Numeral.text_append_of_scan? hscan
    refine ⟨?_, ⟨rest, hahead.symm⟩, rfl⟩
    rw [hscan, ahead_advance, hahead, List.drop_left]
  · rintro ⟨hscan, -, rfl⟩
    exact ⟨n, _, hscan, rfl, rfl⟩

theorem atKeyword_eq_false_iff {c : Cursor} :
    c.atKeyword = false ↔ ∀ k ∈ keywords, c.keyword? k = none := by
  simp [atKeyword]

/-- A word is found where no keyword stands, as long as it can be, and does not begin with a
digit. -/
theorem word?_eq_some_iff {c d : Cursor} {w : List Char} :
    c.word? = some (w, d) ↔ c.atKeyword = false ∧ w ≠ [] ∧ w.head?.any isDigit = false ∧
      w = c.ahead.takeWhile isWordChar ∧ c.Takes w d := by
  simp only [word?, Option.ite_none_left_eq_some, Option.some.injEq, Prod.mk.injEq, takes_iff,
    Bool.or_eq_true, decide_eq_true_eq, not_or, Bool.not_eq_true]
  constructor
  · rintro ⟨⟨⟨hkeyword, hne⟩, hdigit⟩, rfl, rfl⟩
    exact ⟨hkeyword, hne, hdigit, rfl, List.takeWhile_prefix _, rfl⟩
  · rintro ⟨hkeyword, hne, hdigit, rfl, -, rfl⟩
    exact ⟨⟨⟨hkeyword, hne⟩, hdigit⟩, rfl, rfl⟩

/-- A name is read as its word, wherever it stands. -/
theorem name?_eq_some_iff {c d : Cursor} {filename : String} {t : Token} :
    c.name? filename = some (t, d) ↔
      ∃ w, c.skip.word? = some (w, d) ∧ t = c.skip.token filename w := by
  simp only [name?, Option.map_eq_some_iff, Prod.mk.injEq, Prod.exists]
  constructor
  · rintro ⟨w, d', hw, rfl, rfl⟩
    exact ⟨w, hw, rfl⟩
  · rintro ⟨w, hw, rfl⟩
    exact ⟨w, d, hw, rfl, rfl⟩

theorem firstSymbol?_eq_none_iff {c : Cursor} {symbols : List String} :
    c.firstSymbol? symbols = none ↔ ∀ s ∈ symbols, ¬ s.toList <+: c.skip.ahead := by
  simp [firstSymbol?, symbol?_eq_none_iff]

theorem exists_of_firstSymbol? {c d : Cursor} {symbols : List String} {s : String}
    (h : c.firstSymbol? symbols = some (s, d)) : s ∈ symbols ∧ c.symbol? s = some d := by
  obtain ⟨s', hs', h⟩ := List.exists_of_findSome?_eq_some h
  obtain ⟨d', hd', h⟩ := Option.map_eq_some_iff.1 h
  obtain ⟨rfl, rfl⟩ := Prod.mk.inj h
  exact ⟨hs', hd'⟩

end Cursor

/-! ## What expressions begin with -/

/-- The characters that an operand may begin with. -/
def opensOperand (ch : Char) : Bool := isDigit ch || isWordChar ch || ch = '('

/-- The characters that an expression may begin with. -/
def opensExpression (ch : Char) : Bool := opensOperand ch || ch = '-' || ch = '!'

/-- The reader succeeds only where such a character stands behind blanks and comments. -/
def Opens (p : Char → Bool) (r : Reader Tree) : Prop :=
  ∀ c e d, r c = .ok (e, d) → ∃ ch ∈ c.skip.ahead.head?, p ch

theorem Opens.mono {p q : Char → Bool} {r : Reader Tree} (h : Opens p r)
    (hpq : ∀ ch, p ch → q ch) : Opens q r := by
  intro c e d hr
  obtain ⟨ch, hch, hp⟩ := h c e d hr
  exact ⟨ch, hch, hpq ch hp⟩

/-- A reader that starts with another one begins alike. -/
theorem Opens.of_first {p : Char → Bool} {first r : Reader Tree} (h : Opens p first)
    (hr : ∀ c e d, r c = .ok (e, d) → ∃ e' d', first c = .ok (e', d')) : Opens p r := by
  intro c e d hc
  obtain ⟨e', d', hfirst⟩ := hr c e d hc
  exact h c e' d' hfirst

/-- The ways to read an operand. -/
inductive OperandAt (filename : String) (inner : Reader Tree) (c : Cursor) : Tree → Cursor → Prop
  | numeral {n : Numeral} {d : Cursor} (h : c.skip.numeral? = some (n, d)) :
    OperandAt filename inner c (.number n.value) d
  | truth {d : Cursor} (h : c.skip.keyword? "true" = some d) :
    OperandAt filename inner c (.boolean true) d
  | falsehood {d : Cursor} (h : c.skip.keyword? "false" = some d) :
    OperandAt filename inner c (.boolean false) d
  | call {t : Token} {next d : Cursor} {args : List Tree} (h : c.name? filename = some (t, next))
    (hcall : readCall? inner next = some (args, d)) :
    OperandAt filename inner c (.call (.token t) args) d
  | name {t : Token} {d : Cursor} (h : c.name? filename = some (t, d)) :
    OperandAt filename inner c (.token t) d
  | parentheses {e : Tree} {next last d : Cursor} (h : c.symbol? "(" = some next)
    (he : inner next = .ok (e, last)) (hlast : last.symbol? ")" = some d) :
    OperandAt filename inner c e d

theorem toOption_eq_some_iff {ε α : Type} {x : Except ε α} {a : α} :
    x.toOption = some a ↔ x = .ok a := by
  cases x <;> simp [Except.toOption]

theorem expectSymbol_eq_ok_iff {s : String} {c d : Cursor} :
    expectSymbol s c = .ok d ↔ c.symbol? s = some d := by
  unfold expectSymbol
  cases c.symbol? s <;> simp

/-- An operand is read in one of these ways. -/
theorem operandAt_of_readOperand {filename : String} {inner : Reader Tree} {behindSign : Bool}
    {c d : Cursor} {e : Tree} (h : readOperand filename inner behindSign c = .ok (e, d)) :
    OperandAt filename inner c e d := by
  simp only [readOperand] at h
  split at h
  · obtain ⟨rfl, rfl⟩ := Prod.mk.inj (Except.ok.inj h)
    exact .numeral ‹_›
  · obtain ⟨rfl, rfl⟩ := Prod.mk.inj (Except.ok.inj h)
    exact .truth ‹_›
  · obtain ⟨rfl, rfl⟩ := Prod.mk.inj (Except.ok.inj h)
    exact .falsehood ‹_›
  · split at h
    · obtain ⟨rfl, rfl⟩ := Prod.mk.inj (Except.ok.inj h)
      exact .call ‹_› ‹_›
    · obtain ⟨rfl, rfl⟩ := Prod.mk.inj (Except.ok.inj h)
      exact .name ‹_›
  · split at h
    · obtain ⟨⟨e', last⟩, he, h⟩ := bind_eq_ok_iff.1 h
      obtain ⟨d', hlast, h⟩ := bind_eq_ok_iff.1 h
      obtain ⟨rfl, rfl⟩ := Prod.mk.inj (Except.ok.inj h)
      exact .parentheses ‹_› he (expectSymbol_eq_ok_iff.1 hlast)
    · cases h

theorem Cursor.exists_wordChar_of_name? {c d : Cursor} {filename : String} {t : Token}
    (h : c.name? filename = some (t, d)) : ∃ ch ∈ c.skip.ahead.head?, isWordChar ch := by
  obtain ⟨w, hw, -⟩ := name?_eq_some_iff.1 h
  obtain ⟨-, hne, -, hrun, htakes⟩ := word?_eq_some_iff.1 hw
  obtain ⟨ch, w, rfl⟩ := List.exists_cons_of_ne_nil hne
  exact ⟨ch, htakes.head, mem_of_takeWhile ch (hrun ▸ List.mem_cons_self)⟩

theorem Cursor.length_pos_of_mem_keywords : ∀ k ∈ keywords, 0 < k.toList.length := by decide

/-- Neither a keyword nor a name stands at the end of the text. -/
theorem Cursor.keyword?_of_end {c : Cursor} {k : String} (h : c.ahead = []) (hk : k ∈ keywords) :
    c.keyword? k = none := by
  rw [Option.eq_none_iff_forall_ne_some]
  intro d hd
  have hpos := length_pos_of_mem_keywords k hk
  have hlength := (keyword?_eq_some_iff.1 hd).1.length
  rw [h, List.length_nil] at hlength
  omega

theorem Cursor.name?_of_end {c : Cursor} (h : c.skip.ahead = []) (filename : String) :
    c.name? filename = none := by
  rw [Option.eq_none_iff_forall_ne_some]
  rintro ⟨t, d⟩ ht
  obtain ⟨ch, hch, -⟩ := exists_wordChar_of_name? ht
  rw [h] at hch
  cases hch

theorem opens_readOperand (filename : String) (inner : Reader Tree) (behindSign : Bool) :
    Opens opensOperand (readOperand filename inner behindSign) := by
  intro c e d h
  cases operandAt_of_readOperand h with
  | numeral hn =>
    obtain ⟨ch, hch, hdigit⟩ :=
      Numeral.exists_digit_of_scan? (Cursor.numeral?_eq_some_iff.1 hn).1
    exact ⟨ch, hch, by simp [opensOperand, hdigit]⟩
  | truth hk => exact ⟨'t', (Cursor.keyword?_eq_some_iff.1 hk).1.head, by decide⟩
  | falsehood hk => exact ⟨'f', (Cursor.keyword?_eq_some_iff.1 hk).1.head, by decide⟩
  | call ht _ | name ht =>
    obtain ⟨ch, hch, hword⟩ := Cursor.exists_wordChar_of_name? ht
    exact ⟨ch, hch, by simp [opensOperand, hword]⟩
  | parentheses hnext _ _ => exact ⟨'(', (Cursor.symbol?_eq_some_iff.1 hnext).head, by decide⟩

theorem opens_readPower {p : Char → Bool} {operand : Reader Tree} (h : Opens p operand) (n : Nat) :
    Opens p (readPower operand n) := by
  refine h.of_first ?_
  intro c e d hc
  cases n with
  | zero => exact ⟨e, d, hc⟩
  | succ n =>
    obtain ⟨⟨base, next⟩, hbase, -⟩ := bind_eq_ok_iff.1 hc
    exact ⟨base, next, hbase⟩

/-- A signed expression begins with a sign or as an operand does. -/
theorem opens_readSigned {lower : Bool → Reader Tree} (h : ∀ s, Opens opensOperand (lower s))
    (n : Nat) (behindSign : Bool) : Opens opensExpression (readSigned lower n behindSign) := by
  have hlower : ∀ s, Opens opensExpression (lower s) := by
    refine fun s => (h s).mono ?_
    intro ch hch
    simp [opensExpression, hch]
  cases n with
  | zero => exact hlower behindSign
  | succ n =>
    intro c e d hc
    simp only [readSigned] at hc
    split at hc
    · exact hlower behindSign c e d hc
    · rename_i s next hs
      obtain ⟨hmem, hnext⟩ := Cursor.exists_of_firstSymbol? hs
      have htakes := Cursor.symbol?_eq_some_iff.1 hnext
      simp only [signSymbols, List.mem_cons, List.not_mem_nil, or_false] at hmem
      rcases hmem with rfl | rfl
      · exact ⟨'-', htakes.head, by decide⟩
      · exact ⟨'!', htakes.head, by decide⟩

theorem opens_readChain {p : Char → Bool} {lower : Reader Tree} (h : Opens p lower)
    (symbols : List String) : Opens p (readChain lower symbols) := by
  refine h.of_first ?_
  intro c e d hc
  obtain ⟨⟨left, next⟩, hleft, -⟩ := bind_eq_ok_iff.1 hc
  exact ⟨left, next, hleft⟩

/-- No factor begins with another character. -/
theorem opens_readFactor (filename : String) (inner : Reader Tree) :
    Opens opensExpression (readFactor filename inner) := by
  intro c
  refine opens_readSigned ?_ _ _ c
  intro s c
  exact opens_readPower (opens_readOperand filename inner s) _ c

/-! ## Levels of operators that group to the left -/

/-- The reader of signed expressions joined by the operators of the first chains. -/
def chainReader (filename : String) (inner : Reader Tree) : Nat → Reader Tree
  | 0 => readFactor filename inner
  | j + 1 => readChain (chainReader filename inner j) (chainSymbols.getD j [])

theorem readLevels_eq (filename : String) (inner : Reader Tree) :
    readLevels filename inner = readConditional inner (chainReader filename inner 5) := rfl

theorem opens_chainReader (filename : String) (inner : Reader Tree) (j : Nat) :
    Opens opensExpression (chainReader filename inner j) := by
  induction j with
  | zero => exact opens_readFactor filename inner
  | succ j ih => exact opens_readChain ih _

/-- An expression begins with a digit, with the first character of a name, with a parenthesis or
with a sign. -/
theorem opens_readNested (filename : String) (n : Nat) :
    Opens opensExpression (readNested filename n) := by
  cases n with
  | zero =>
    intro c e d h
    cases h
  | succ n =>
    refine (opens_chainReader filename (readNested filename n) 5).of_first ?_
    intro c e d h
    rw [readNested, readLevels_eq] at h
    obtain ⟨⟨test, next⟩, htest, -⟩ := bind_eq_ok_iff.1 h
    exact ⟨test, next, htest⟩

end Quill
