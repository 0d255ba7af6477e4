import Quill.Proofs.Grammar.Lexeme

/-!
# The tokens of a text

The reports on errors split a text into tokens by themselves. Here their tokenizer is run over a
whole text, and each lexeme that the reader takes is shown to be the token that stands there. A
symbol that begins a longer one is a token only if the longer one does not stand there, so where an
operator is read, it matters that an expression follows. A keyword is a token only if no letter
beyond ASCII follows, since the reader takes `letπ` for a keyword and a name.

## Main definitions

* `Report.tokens cs` — the tokens of a text, from its start on.
* `KeywordsEnd ts` — no keyword runs on with a character beyond ASCII.
* `Cursor.Lexes c w d`, `Cursor.Passes c ts d` — from `c` to `d` stand one token, several tokens.
* `Cursor.Finds c w d`, `Cursor.Spans c ts d` — the reader finds one token, several tokens there.
-/

namespace Quill

open Text

namespace Report

/-- At most `n` tokens of a text, each looked for behind the one before. -/
def someTokens : Nat → List Char → List String
  | 0, _ => []
  | n + 1, cs =>
    match nextToken? cs with
    | none => []
    | some w => String.ofList w :: someTokens n ((dropSkipped cs).drop w.length)

/-- The tokens of a text. Each has a character, so there are no more tokens than characters. -/
def tokens (cs : List Char) : List String := someTokens cs.length cs

/-! ## Leading tokens -/

/-- A leading token stands at the start of the text, and it does not begin with a blank. -/
theorem prefix_of_leadingToken? {cs w : List Char} (h : leadingToken? cs = some w) :
    w <+: cs ∧ ∃ ch ∈ w.head?, isBlank ch = false := by
  have hnoBlank : ∀ ch, isWordChar ch ∨ isDigit ch → isBlank ch = false := by
    intro ch hch
    rw [Bool.eq_false_iff]
    intro hblank
    obtain ⟨hword, hdigit⟩ := Cursor.noWordChar_of_isBlank hblank
    simp [hword, hdigit] at hch
  simp only [leadingToken?] at h
  split at h
  · rename_i n rest hn
    obtain rfl := Option.some.inj h
    obtain ⟨hne, hwhole, -, -⟩ := Numeral.isWellFormed_of_scan? hn
    obtain ⟨ch, whole, hcons⟩ := List.exists_cons_of_ne_nil hne
    have hdigit := hwhole ch (hcons ▸ List.mem_cons_self)
    exact ⟨⟨rest, (Numeral.text_append_of_scan? hn).symm⟩, ch, by simp [Numeral.text, hcons],
      hnoBlank ch (.inr hdigit)⟩
  · split at h
    · rename_i hword
      obtain rfl := Option.some.inj h
      obtain ⟨ch, word, hcons⟩ := List.exists_cons_of_ne_nil hword.1
      have hch : isWordChar ch := mem_of_takeWhile ch (hcons ▸ List.mem_cons_self)
      exact ⟨List.takeWhile_prefix _, ch, by rw [hcons]; rfl, hnoBlank ch (.inl hch)⟩
    · split at h
      · rename_i l hl
        obtain rfl := Option.some.inj h
        have hlong : ∀ l ∈ longSymbols, ∃ ch ∈ l.toList.head?, isBlank ch = false := by decide
        have hpre := List.find?_some hl
        exact ⟨List.isPrefixOf_iff_prefix.1 hpre, hlong l (List.mem_of_find?_eq_some hl)⟩
      · split at h
        · cases h
        · rename_i hblank
          cases cs with
          | nil => cases h
          | cons ch cs =>
            obtain rfl := Option.some.inj h
            exact ⟨⟨cs, rfl⟩, ch, rfl, by simpa using hblank⟩

theorem ne_nil_of_leadingToken? {cs w : List Char} (h : leadingToken? cs = some w) : w ≠ [] := by
  obtain ⟨-, ch, hch, -⟩ := prefix_of_leadingToken? h
  rintro rfl
  cases hch

/-- Where a blank stands, no token leads. -/
theorem noBlank_of_leadingToken? {cs w : List Char} (h : leadingToken? cs = some w) :
    ∀ ch ∈ cs.head?, isBlank ch = false := by
  obtain ⟨⟨rest, rfl⟩, ch, hch, hblank⟩ := prefix_of_leadingToken? h
  intro ch' hch'
  rw [List.head?_append, Option.mem_def.1 hch] at hch'
  obtain rfl := Option.some.inj hch'
  exact hblank

/-! ## All tokens -/

theorem length_dropSomeSkipped_le (n : Nat) (cs : List Char) :
    (dropSomeSkipped n cs).length ≤ cs.length := by
  induction n generalizing cs with
  | zero => exact Nat.le_refl _
  | succ n ih =>
    simp only [dropSomeSkipped]
    split
    · rename_i rest
      have := ih (rest.dropWhile (· ≠ '\n'))
      have := (List.dropWhile_sublist (l := rest) (· ≠ '\n')).length_le
      simp only [List.length_cons]
      omega
    · split
      · exact Nat.le_succ_of_le (ih _)
      · exact Nat.le_refl _
    · exact Nat.le_refl _

/-- Behind a token there is less text than before it. -/
theorem length_behind_token_lt {cs w : List Char} (h : nextToken? cs = some w) :
    ((dropSkipped cs).drop w.length).length < cs.length := by
  obtain ⟨rest, hrest⟩ := (prefix_of_leadingToken? h).1
  have hlength := length_dropSomeSkipped_le cs.length cs
  have hpos := List.length_pos_iff.2 (ne_nil_of_leadingToken? h)
  rw [← dropSkipped, ← hrest, List.length_append] at hlength
  rw [← hrest, List.drop_left]
  omega

/-- As many steps as there are characters are enough to find all tokens. -/
theorem someTokens_eq {n m : Nat} {cs : List Char} (hn : cs.length ≤ n) (hm : cs.length ≤ m) :
    someTokens n cs = someTokens m cs := by
  induction n generalizing m cs with
  | zero =>
    obtain rfl := List.eq_nil_of_length_eq_zero (Nat.le_zero.1 hn)
    cases m <;> rfl
  | succ n ih =>
    cases m with
    | zero =>
      obtain rfl := List.eq_nil_of_length_eq_zero (Nat.le_zero.1 hm)
      rfl
    | succ m =>
      simp only [someTokens]
      split
      · rfl
      · rename_i w hw
        have hlt := length_behind_token_lt hw
        exact congrArg _ (ih (Nat.le_of_lt_succ (Nat.lt_of_lt_of_le hlt hn))
          (Nat.le_of_lt_succ (Nat.lt_of_lt_of_le hlt hm)))

theorem tokens_of_nextToken? {cs w : List Char} (h : nextToken? cs = some w) :
    tokens cs = String.ofList w :: tokens ((dropSkipped cs).drop w.length) := by
  have hlt := length_behind_token_lt h
  rw [tokens, someTokens_eq (Nat.le_refl _) (Nat.le_succ _)]
  simp only [someTokens, h, tokens]
  rw [someTokens_eq (Nat.le_of_lt hlt) (Nat.le_refl _)]

theorem tokens_eq_nil {cs : List Char} (h : nextToken? cs = none) : tokens cs = [] := by
  rw [tokens, someTokens_eq (Nat.le_refl _) (Nat.le_succ _)]
  simp only [someTokens, h]

end Report

/-! ## Symbols -/

/-- The symbols that are no operators and begin no longer symbol. -/
def punctuation : List String := ["(", ")", "\x7b", "\x7d", ",", ";", "?", ":"]

/-- The symbols that stand before an expression, all with a part in some longer symbol or none. -/
def operatorSymbols : List String := "=" :: (powerSymbols ++ signSymbols ++ chainSymbols.flatten)

/-- A character of symbols: it belongs to no other lexeme. -/
def IsSymbolChar (ch : Char) : Prop :=
  isDigit ch = false ∧ isWordChar ch = false ∧ isBlank ch = false ∧
    Cursor.touchesKeyword ch = false

instance (ch : Char) : Decidable (IsSymbolChar ch) :=
  inferInstanceAs (Decidable (_ ∧ _ ∧ _ ∧ _))

theorem isSymbolChar_of_mem : ∀ s ∈ punctuation ++ operatorSymbols,
    s.toList ≠ [] ∧ ∀ ch ∈ s.toList, IsSymbolChar ch := by
  decide +kernel

theorem isSymbolChar_of_singleton (ch : Char)
    (h : String.singleton ch ∈ punctuation ++ operatorSymbols) : IsSymbolChar ch :=
  (isSymbolChar_of_mem _ h).2 ch (by simp)

/-- No operand begins with a symbol, but one in parentheses. -/
theorem IsSymbolChar.noOperand {ch : Char} (h : IsSymbolChar ch) (hch : ch ≠ '(') :
    opensOperand ch = false := by
  simp [opensOperand, h.1, h.2.1, hch]

theorem IsSymbolChar.noExpression {ch : Char} (h : IsSymbolChar ch) (hch : ch ≠ '(')
    (hsign : ch ≠ '-' ∧ ch ≠ '!') : opensExpression ch = false := by
  simp [opensExpression, h.noOperand hch, hsign]

namespace Report

theorem leadingToken?_cons {ch : Char} {cs : List Char} (hch : IsSymbolChar ch) :
    leadingToken? (ch :: cs) = some (((longSymbols.find? fun l =>
      l.toList.isPrefixOf (ch :: cs)).map String.toList).getD [ch]) := by
  obtain ⟨hdigit, hword, hblank, -⟩ := hch
  have hscan : Numeral.scan? (ch :: cs) = none := Numeral.scan?_eq_none (by simpa using hdigit)
  simp only [leadingToken?, hscan, List.takeWhile_cons, hword]
  cases longSymbols.find? fun l => l.toList.isPrefixOf (ch :: cs) <;> simp [hblank]

/-- All long symbols have the same length, so no other one is found where one stands. -/
theorem find?_longSymbols_self {s : String} (hs : s ∈ longSymbols) (rest : List Char) :
    (longSymbols.find? fun l => l.toList.isPrefixOf (s.toList ++ rest)) = some s := by
  simp only [longSymbols, List.mem_cons, List.not_mem_nil, or_false] at hs
  rcases hs with rfl | rfl | rfl | rfl | rfl | rfl | rfl <;> simp [longSymbols, List.isPrefixOf]

theorem find?_longSymbols_eq_none {ch : Char} {cs : List Char}
    (h : ∀ l ∈ longSymbols, ∀ x ∈ cs.head?, l.toList ≠ [ch, x]) :
    (longSymbols.find? fun l => l.toList.isPrefixOf (ch :: cs)) = none := by
  refine List.find?_eq_none.2 ?_
  intro l hl hpre
  obtain ⟨a, b, hab⟩ : ∃ a b, l.toList = [a, b] := by
    simp only [longSymbols, List.mem_cons, List.not_mem_nil, or_false] at hl
    rcases hl with rfl | rfl | rfl | rfl | rfl | rfl | rfl <;> exact ⟨_, _, rfl⟩
  rw [List.isPrefixOf_iff_prefix, hab] at hpre
  obtain ⟨rest, hrest⟩ := hpre
  obtain ⟨rfl, rfl⟩ := List.cons.inj hrest
  exact h l hl b rfl hab

/-- A symbol is the leading token unless the next character makes it a longer one. -/
theorem leadingToken?_symbol {s : String} (hs : s ∈ punctuation ++ operatorSymbols)
    {rest : List Char} (h : ∀ l ∈ longSymbols, ∀ x ∈ rest.head?, l.toList ≠ s.toList ++ [x]) :
    leadingToken? (s.toList ++ rest) = some s.toList := by
  have hshape : ∀ s ∈ punctuation ++ operatorSymbols, s ∈ longSymbols ∨ s.toList.length = 1 := by
    decide
  obtain ⟨hne, hchars⟩ := isSymbolChar_of_mem s hs
  obtain ⟨ch, cs, hcs⟩ := List.exists_cons_of_ne_nil hne
  have hch : IsSymbolChar ch := hchars ch (hcs ▸ List.mem_cons_self)
  rcases hshape s hs with hlong | hone
  · have hfind := find?_longSymbols_self hlong rest
    rw [hcs, List.cons_append] at hfind ⊢
    rw [leadingToken?_cons hch, hfind, Option.map_some, Option.getD_some, hcs]
  · obtain rfl : cs = [] := by
      rw [hcs, List.length_cons] at hone
      exact List.eq_nil_of_length_eq_zero (by omega)
    rw [hcs] at h
    rw [hcs, List.cons_append, List.nil_append, leadingToken?_cons hch,
      find?_longSymbols_eq_none h]
    rfl

/-- A mark of punctuation is a token, whatever follows it. -/
theorem leadingToken?_punctuation {s : String} (hs : s ∈ punctuation) (rest : List Char) :
    leadingToken? (s.toList ++ rest) = some s.toList := by
  refine leadingToken?_symbol (List.mem_append_left _ hs) ?_
  intro l hl x _ hlx
  have hhead : ∀ s ∈ punctuation, ∀ l ∈ longSymbols, l.toList.take s.toList.length ≠ s.toList := by
    decide
  refine hhead s hs l hl ?_
  rw [hlx, List.take_left]

/-- Only two characters make a symbol longer. -/
theorem leadingToken?_operator {s : String} (hs : s ∈ operatorSymbols) {rest : List Char}
    (h : ∀ x ∈ rest.head?, x ≠ '=' ∧ x ≠ '*') :
    leadingToken? (s.toList ++ rest) = some s.toList := by
  refine leadingToken?_symbol (List.mem_append_right _ hs) ?_
  intro l hl x hx hlx
  have hlast : ∀ s ∈ operatorSymbols, ∀ l ∈ longSymbols,
      l.toList.take s.toList.length = s.toList →
        ∀ x ∈ l.toList.drop s.toList.length, x = '=' ∨ x = '*' := by
    decide
  have hdrop : x ∈ l.toList.drop s.toList.length := by
    rw [hlx, List.drop_left]
    exact List.mem_cons_self
  rcases hlast s hs l hl (by rw [hlx, List.take_left]) x hdrop with hx' | hx'
  · exact (h x hx).1 hx'
  · exact (h x hx).2 hx'

end Report

/-! ## Tokens between two places -/

/-- Where a token begins with a keyword, a word character directly behind that is one of ASCII. -/
def KeywordsEnd (ts : List String) : Prop :=
  ∀ w ∈ ts, ∀ k ∈ Cursor.keywords, ∀ ch rest, w.toList = k.toList ++ ch :: rest →
    isWordChar ch → ch.toNat < 128

/-- Tokens are parts of the text. -/
theorem Report.infix_of_mem_tokens {cs : List Char} {w : String} (h : w ∈ Report.tokens cs) :
    w.toList <:+: cs := by
  have hsuffix : ∀ n cs, Report.dropSomeSkipped n cs <:+ cs := by
    intro n
    induction n with
    | zero => exact fun cs => List.suffix_refl cs
    | succ n ih =>
      intro cs
      simp only [Report.dropSomeSkipped]
      split
      · exact (ih _).trans ((List.dropWhile_suffix _).trans
          ((List.suffix_cons _ _).trans (List.suffix_cons _ _)))
      · split
        · exact (ih _).trans (List.suffix_cons _ _)
        · exact List.suffix_refl _
      · exact List.suffix_refl _
  have hsome : ∀ n cs, w ∈ Report.someTokens n cs → w.toList <:+: cs := by
    intro n
    induction n with
    | zero => exact fun cs h => absurd h List.not_mem_nil
    | succ n ih =>
      intro cs h
      have hskip : Report.dropSkipped cs <:+: cs := (hsuffix _ cs).isInfix
      simp only [Report.someTokens] at h
      split at h
      · cases h
      · rename_i v hv
        rcases List.mem_cons.1 h with rfl | h
        · rw [String.toList_ofList]
          exact (Report.prefix_of_leadingToken? hv).1.isInfix.trans hskip
        · exact (ih _ h).trans ((List.drop_suffix _ _).isInfix.trans hskip)
  exact hsome _ cs h

/-- The keywords of a text end if none of them, wherever it stands, is directly followed by a word
character beyond ASCII. -/
theorem keywordsEnd_of_text {cs : List Char}
    (h : ∀ k ∈ Cursor.keywords, ∀ before ch after, cs = before ++ k.toList ++ ch :: after →
      isWordChar ch → ch.toNat < 128) : KeywordsEnd (Report.tokens cs) := by
  intro w hw k hk ch rest hrest
  obtain ⟨before, after, hcs⟩ := Report.infix_of_mem_tokens hw
  refine h k hk before ch (rest ++ after) ?_
  rw [← hcs, hrest]
  simp

namespace Cursor

/-- The first token of the text ahead is `w`, and `d` is the place behind it. -/
structure Lexes (c : Cursor) (w : String) (d : Cursor) : Prop where
  token : Report.leadingToken? c.skip.ahead = some w.toList
  takes : c.skip.Takes w.toList d

/-- The first tokens of the text ahead are `ts`, and `d` is the place behind them. -/
inductive Passes : Cursor → List String → Cursor → Prop
  | stay (c : Cursor) : Passes c [] c
  | token {c d e : Cursor} {w : String} {ts : List String} (h : c.Lexes w d) (hs : Passes d ts e) :
    Passes c (w :: ts) e

theorem Lexes.passes {c d : Cursor} {w : String} (h : c.Lexes w d) : c.Passes [w] d :=
  .token h (.stay d)

theorem Lexes.tokens {c d : Cursor} {w : String} (h : c.Lexes w d) :
    Report.tokens c.ahead = w :: Report.tokens d.ahead := by
  have hskip := dropSkipped_ahead (Report.noBlank_of_leadingToken? h.token)
  have hnext : Report.nextToken? c.ahead = some w.toList := by
    rw [Report.nextToken?, hskip, h.token]
  rw [Report.tokens_of_nextToken? hnext, hskip, h.takes.ahead, List.drop_left, String.ofList_toList]

/-- The tokens that are passed are the first ones of the text ahead. -/
theorem Passes.tokens {c d : Cursor} {ts : List String} (h : c.Passes ts d) :
    Report.tokens c.ahead = ts ++ Report.tokens d.ahead := by
  induction h with
  | stay c => rfl
  | token hw _ ih => rw [hw.tokens, ih, List.cons_append]

theorem Passes.keywordsEnd {c d : Cursor} {ts : List String} (hts : c.Passes ts d)
    (h : KeywordsEnd (Report.tokens c.ahead)) : KeywordsEnd (Report.tokens d.ahead) := by
  intro w hw
  exact h w (by rw [hts.tokens]; exact List.mem_append_right _ hw)

/-! ## What is read is a token -/

theorem lexes_of_numeral? {c d : Cursor} {n : Numeral} (h : c.skip.numeral? = some (n, d)) :
    n.IsWellFormed ∧ c.Lexes (String.ofList n.text) d := by
  obtain ⟨hscan, htakes⟩ := numeral?_eq_some_iff.1 h
  refine ⟨Numeral.isWellFormed_of_scan? hscan, ?_, ?_⟩
  · rw [Report.leadingToken?, hscan, String.toList_ofList]
  · rwa [String.toList_ofList]

theorem lexes_of_punctuation {c d : Cursor} {s : String} (hs : s ∈ punctuation)
    (h : c.symbol? s = some d) : c.Lexes s d := by
  have htakes := symbol?_eq_some_iff.1 h
  refine ⟨?_, htakes⟩
  rw [htakes.ahead, Report.leadingToken?_punctuation hs]

/-- An operator is a token if an expression can begin behind it. -/
theorem lexes_of_operator {c d : Cursor} {s : String} (hs : s ∈ operatorSymbols)
    (h : c.symbol? s = some d) (hd : ∃ ch ∈ d.skip.ahead.head?, opensExpression ch) :
    c.Lexes s d := by
  have htakes := symbol?_eq_some_iff.1 h
  refine ⟨?_, htakes⟩
  rw [htakes.ahead]
  refine Report.leadingToken?_operator hs ?_
  have hopens : ∀ x, isSeparator x = false → x ≠ '/' → opensExpression x = false →
      x ∉ d.ahead.head? := by
    intro x hsep hslash hx hhead
    obtain ⟨ch, hch, hopen⟩ := hd
    rw [skip_eq_self (stops_of_head hhead hsep hslash)] at hch
    rw [Option.mem_unique hch hhead, hx] at hopen
    cases hopen
  intro x hx
  refine ⟨?_, ?_⟩
  · rintro rfl
    have hequal := isSymbolChar_of_singleton '=' (by decide)
    exact hopens '=' (by decide) (by decide) (hequal.noExpression (by decide) (by decide)) hx
  · rintro rfl
    have hstar := isSymbolChar_of_singleton '*' (by decide)
    exact hopens '*' (by decide) (by decide) (hstar.noExpression (by decide) (by decide)) hx

/-- Is the place not directly behind a word, or not directly before one? -/
def IsFresh (c : Cursor) : Prop :=
  c.behind.head?.any touchesKeyword = false ∨ c.ahead.head?.any touchesKeyword = false

theorem isFresh_of_symbol? {c d : Cursor} {s : String} (hs : s ∈ punctuation ++ operatorSymbols)
    (h : c.symbol? s = some d) : d.IsFresh := by
  obtain ⟨hne, hchars⟩ := isSymbolChar_of_mem s hs
  refine .inl ?_
  rw [(symbol?_eq_some_iff.1 h).behind]
  cases hrev : s.toList.reverse with
  | nil => exact absurd (List.reverse_eq_nil_iff.1 hrev) hne
  | cons ch cs =>
    have hmem : ch ∈ s.toList := List.mem_reverse.1 (hrev ▸ List.mem_cons_self)
    exact (hchars ch hmem).2.2.2

/-- A symbol is not read where a dollar sign stands. -/
theorem noDollar_of_symbol? {c d : Cursor} {s : String} (hs : s ∈ punctuation ++ operatorSymbols)
    (h : c.symbol? s = some d) : '$' ∉ c.ahead.head? := by
  intro hdollar
  have hstops : Stops c.ahead := stops_of_head hdollar (by decide) (by decide)
  obtain ⟨hne, hchars⟩ := isSymbolChar_of_mem s hs
  obtain ⟨ch, cs, hcs⟩ := List.exists_cons_of_ne_nil hne
  have htakes := symbol?_eq_some_iff.1 h
  rw [skip_eq_self hstops, hcs] at htakes
  rw [Option.mem_def.1 htakes.head] at hdollar
  obtain rfl := Option.some.inj hdollar
  have htouch := (hchars '$' (hcs ▸ List.mem_cons_self)).2.2.2
  revert htouch
  decide

theorem isWordChar_of_mem_keywords : ∀ k ∈ keywords, k.toList ≠ [] ∧
    ∀ ch ∈ k.toList, isWordChar ch ∧ isDigit ch = false ∧ touchesKeyword ch := by
  decide +kernel

theorem leadingToken?_word {cs : List Char} (hne : cs.takeWhile isWordChar ≠ [])
    (hdigit : ∀ ch ∈ cs.head?, isDigit ch = false) :
    Report.leadingToken? cs = some (cs.takeWhile isWordChar) := by
  have hhead : ((cs.takeWhile isWordChar).head?.any isDigit) = false := by
    cases cs with
    | nil => rfl
    | cons ch cs =>
      rw [List.takeWhile_cons]
      split
      · exact hdigit ch rfl
      · rfl
  simp only [Report.leadingToken?, Numeral.scan?_eq_none hdigit]
  rw [if_pos ⟨hne, by simpa using hhead⟩]

/-- Where a keyword stands, the leading token is the whole word that begins with it. -/
theorem leadingToken?_keyword {c d : Cursor} {k : String} (hk : k ∈ keywords)
    (h : c.Takes k.toList d) :
    Report.leadingToken? c.ahead = some (k.toList ++ d.ahead.takeWhile isWordChar) := by
  obtain ⟨hne, hchars⟩ := isWordChar_of_mem_keywords k hk
  have hrun : c.ahead.takeWhile isWordChar = k.toList ++ d.ahead.takeWhile isWordChar := by
    rw [h.ahead, List.takeWhile_append_of_pos fun ch hch => (hchars ch hch).1]
  rw [← hrun]
  refine leadingToken?_word (by simp [hrun, hne]) ?_
  obtain ⟨ch, cs, hcs⟩ := List.exists_cons_of_ne_nil hne
  intro ch' hch'
  rw [h.ahead, hcs] at hch'
  obtain rfl := Option.some.inj hch'
  exact (hchars ch (hcs ▸ List.mem_cons_self)).2.1

theorem mem_tokens_of_leadingToken? {c : Cursor} {w : List Char}
    (h : Report.leadingToken? c.skip.ahead = some w) :
    String.ofList w ∈ Report.tokens c.ahead := by
  have hlexes : c.Lexes (String.ofList w) (c.skip.advance w.length) := by
    refine ⟨by rw [h, String.toList_ofList], ?_⟩
    rw [String.toList_ofList]
    exact takes_iff.2 ⟨(Report.prefix_of_leadingToken? h).1, rfl⟩
  rw [hlexes.tokens]
  exact List.mem_cons_self

/-- A keyword is a token if no word runs on behind it. -/
theorem lexes_of_keyword? {c d : Cursor} {k : String} (hk : k ∈ keywords)
    (h : c.skip.keyword? k = some d) (hc : KeywordsEnd (Report.tokens c.ahead)) :
    c.Lexes k d := by
  obtain ⟨htakes, -, hnext⟩ := keyword?_eq_some_iff.1 h
  have htoken := leadingToken?_keyword hk htakes
  -- a word that runs on does so with a letter of ASCII, which the keyword may not touch
  have hend : d.ahead.takeWhile isWordChar = [] := by
    cases hword : d.ahead.takeWhile isWordChar with
    | nil => rfl
    | cons ch rest =>
      rw [hword] at htoken
      have hch : isWordChar ch := mem_of_takeWhile ch (hword ▸ List.mem_cons_self)
      have hascii := hc _ (mem_tokens_of_leadingToken? htoken) k hk ch rest String.toList_ofList hch
      rw [Option.mem_def.1 (head_of_takeWhile hword), Option.any_some,
        touchesKeyword_of_isWordChar hch hascii] at hnext
      cases hnext
  rw [hend, List.append_nil] at htoken
  exact ⟨htoken, htakes⟩

/-- A name that the reader finds is the token that the report finds. -/
theorem lexes_of_name? {c d : Cursor} {filename : String} {t : Token}
    (h : c.name? filename = some (t, d)) : c.Lexes t.value d := by
  obtain ⟨w, hw, rfl⟩ := name?_eq_some_iff.1 h
  obtain ⟨-, hne, hdigit, hrun, htakes⟩ := word?_eq_some_iff.1 hw
  obtain ⟨ch, w, rfl⟩ := List.exists_cons_of_ne_nil hne
  have hvalue : (c.skip.token filename (ch :: w)).value.toList = ch :: w := String.toList_ofList
  refine ⟨?_, by rwa [hvalue]⟩
  rw [hvalue, hrun]
  refine leadingToken?_word (hrun ▸ hne) ?_
  intro ch' hch'
  rw [Option.mem_def.1 htakes.head] at hch'
  rw [← Option.some.inj hch']
  exact hdigit

/-- At a fresh place, the word that follows is not the rest of another one. -/
theorem IsFresh.noTouch_behind {c : Cursor} (hc : c.IsFresh) {ch : Char}
    (hch : ch ∈ c.skip.ahead.head?) (htouch : touchesKeyword ch) :
    c.skip.behind.head?.any touchesKeyword = false := by
  rcases (skips_skip c).behind_of_stops (stops_skip c) with heq | ⟨ch', hch', hsep⟩ | hnil
  · rw [heq] at hch ⊢
    refine hc.resolve_right ?_
    simp [Option.mem_def.1 hch, htouch]
  · rw [Option.mem_def.1 hch', Option.any_some]
    exact noTouch_of_isSeparator hsep
  · rw [hnil] at hch
    cases hch

/-- A word is read up to its end. -/
theorem noWordChar_of_word? {c d : Cursor} {w : List Char} (h : c.word? = some (w, d)) :
    ∀ ch ∈ d.ahead.head?, isWordChar ch = false := by
  obtain ⟨-, -, -, hrun, htakes⟩ := word?_eq_some_iff.1 h
  have hsplit := List.takeWhile_append_dropWhile (p := isWordChar) (l := c.ahead)
  have hdrop : c.ahead.dropWhile isWordChar = d.ahead := by
    rw [← hrun, htakes.ahead] at hsplit
    exact htakes.ahead ▸ List.append_cancel_left hsplit
  rw [← hdrop]
  exact head_dropWhile

/-- At a fresh place, what is read as a name may be one, if no dollar sign follows: a keyword at its
start would have been seen. -/
theorem isName_of_name? {c d : Cursor} {filename : String} {t : Token}
    (h : c.name? filename = some (t, d)) (hc : c.IsFresh) (hd : '$' ∉ d.ahead.head?) :
    IsName t.value := by
  obtain ⟨w, hw, rfl⟩ := name?_eq_some_iff.1 h
  obtain ⟨hkeyword, hne, hdigit, hrun, htakes⟩ := word?_eq_some_iff.1 hw
  have hvalue : (c.skip.token filename w).value.toList = w := String.toList_ofList
  have hall : ∀ ch ∈ w, isWordChar ch := by
    rw [hrun]
    exact mem_of_takeWhile
  refine ⟨by rwa [hvalue], by rwa [hvalue], ?_, ?_⟩
  · intro ch hch
    rw [hvalue] at hch
    rwa [Option.mem_def.1 hch] at hdigit
  · intro k hk rest hrest
    rw [hvalue] at hrest
    obtain ⟨hkne, hkchars⟩ := isWordChar_of_mem_keywords k hk
    obtain ⟨ch, cs, hcs⟩ := List.exists_cons_of_ne_nil hkne
    have hahead : c.skip.ahead = k.toList ++ (rest ++ d.ahead) := by
      rw [htakes.ahead, hrest, List.append_assoc]
    have hhead : ch ∈ c.skip.ahead.head? := by
      rw [hahead, hcs]
      rfl
    have hbehind := hc.noTouch_behind hhead (hkchars ch (hcs ▸ List.mem_cons_self)).2.2
    have hnone := atKeyword_eq_false_iff.1 hkeyword k hk
    have hnext := touches_of_keyword?_eq_none hnone hahead hbehind
    cases rest with
    | cons ch rest => exact hnext
    | nil =>
      rw [List.nil_append] at hnext
      obtain ⟨ch, hch, htouch⟩ := (Option.any_eq_true _ _).1 hnext
      have hword : isWordChar ch := by
        refine isWordChar_of_touchesKeyword htouch ?_
        rintro rfl
        exact hd hch
      rw [noWordChar_of_word? hw ch hch] at hword
      cases hword

/-! ## Tokens as the reader finds them -/

/-- The reader finds the token `w`, and `d` is the place behind it. A name may be one, and behind an
operator an expression can begin. -/
inductive Finds (c : Cursor) : String → Cursor → Prop
  | numeral {n : Numeral} {d : Cursor} (h : c.skip.numeral? = some (n, d)) :
    Finds c (String.ofList n.text) d
  | keyword {k : String} {d : Cursor} (hk : k ∈ keywords) (h : c.skip.keyword? k = some d) :
    Finds c k d
  | name {filename : String} {t : Token} {d : Cursor} (h : c.name? filename = some (t, d))
    (ht : IsName t.value) : Finds c t.value d
  | punctuation {s : String} {d : Cursor} (hs : s ∈ punctuation) (h : c.symbol? s = some d) :
    Finds c s d
  | operator {s : String} {d : Cursor} (hs : s ∈ operatorSymbols) (h : c.symbol? s = some d)
    (hd : ∃ ch ∈ d.skip.ahead.head?, opensExpression ch) : Finds c s d

/-- From `c` on the reader finds the tokens `ts`, and `d` is the place behind them. -/
inductive Spans : Cursor → List String → Cursor → Prop
  | stay (c : Cursor) : Spans c [] c
  | token {c d e : Cursor} {w : String} {ts : List String} (h : c.Finds w d) (hs : Spans d ts e) :
    Spans c (w :: ts) e

theorem Finds.spans {c d : Cursor} {w : String} (h : c.Finds w d) : c.Spans [w] d :=
  .token h (.stay d)

theorem Spans.append {c d e : Cursor} {ts us : List String} (h : c.Spans ts d)
    (h' : d.Spans us e) : c.Spans (ts ++ us) e := by
  induction h with
  | stay c => exact h'
  | token hw _ ih => exact .token hw (ih h')

theorem Spans.append_cons {c d e : Cursor} {ts us : List String} {w : String}
    (h : c.Spans (ts ++ [w]) d) (h' : d.Spans us e) : c.Spans (ts ++ w :: us) e := by
  rw [List.append_cons]
  exact h.append h'

/-- A token that the reader finds stands behind blanks and comments. -/
theorem Finds.takes {c d : Cursor} {w : String} (h : c.Finds w d) : c.skip.Takes w.toList d := by
  cases h with
  | numeral h =>
    rw [String.toList_ofList]
    exact (numeral?_eq_some_iff.1 h).2
  | keyword _ h => exact (keyword?_eq_some_iff.1 h).1
  | name h _ => exact (lexes_of_name? h).takes
  | punctuation _ h => exact symbol?_eq_some_iff.1 h
  | operator _ h _ => exact symbol?_eq_some_iff.1 h

/-- Behind the first of some tokens stand the others. -/
theorem Spans.of_append {c e : Cursor} {ts us : List String} (h : c.Spans (ts ++ us) e) :
    ∃ d, c.Spans ts d ∧ d.Spans us e := by
  induction ts generalizing c with
  | nil => exact ⟨c, .stay c, h⟩
  | cons w ts ih =>
    cases h with
    | token hw hs =>
      obtain ⟨d, hts, hus⟩ := ih hs
      exact ⟨d, .token hw hts, hus⟩

/-- Where no keyword runs on, what the reader finds is a token of the reports. -/
theorem Finds.lexes {c d : Cursor} {w : String} (h : c.Finds w d)
    (hc : KeywordsEnd (Report.tokens c.ahead)) : c.Lexes w d := by
  cases h with
  | numeral h => exact (lexes_of_numeral? h).2
  | keyword hk h => exact lexes_of_keyword? hk h hc
  | name h _ => exact lexes_of_name? h
  | punctuation hs h => exact lexes_of_punctuation hs h
  | operator hs h hd => exact lexes_of_operator hs h hd

/-- Tokens that stand in the text are those that the report finds there, where every keyword
ends. -/
theorem Spans.passes {c d : Cursor} {ts : List String} (h : c.Spans ts d)
    (hc : KeywordsEnd (Report.tokens c.ahead)) : c.Passes ts d := by
  induction h with
  | stay c => exact .stay c
  | token hw _ ih =>
    have hlexes := hw.lexes hc
    exact .token hlexes (ih (hlexes.passes.keywordsEnd hc))

/-- Behind a keyword another word may follow directly. -/
theorem isFresh_of_keyword? {c d : Cursor} {k : String} (h : c.keyword? k = some d) : d.IsFresh :=
  .inr (keyword?_eq_some_iff.1 h).2.2

theorem noDollar_of_punctuation {c d : Cursor} {s : String} (hs : s ∈ Quill.punctuation)
    (h : c.symbol? s = some d) : '$' ∉ c.ahead.head? :=
  noDollar_of_symbol? (List.mem_append_left _ hs) h

theorem noDollar_of_operator {c d : Cursor} {s : String} (hs : s ∈ operatorSymbols)
    (h : c.symbol? s = some d) : '$' ∉ c.ahead.head? :=
  noDollar_of_symbol? (List.mem_append_right _ hs) h

theorem isFresh_of_punctuation {c d : Cursor} {s : String} (hs : s ∈ Quill.punctuation)
    (h : c.symbol? s = some d) : d.IsFresh :=
  isFresh_of_symbol? (List.mem_append_left _ hs) h

theorem isFresh_of_operator {c d : Cursor} {s : String} (hs : s ∈ operatorSymbols)
    (h : c.symbol? s = some d) : d.IsFresh :=
  isFresh_of_symbol? (List.mem_append_right _ hs) h

end Cursor
end Quill
