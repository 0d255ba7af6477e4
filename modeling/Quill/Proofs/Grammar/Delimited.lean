import Quill.Proofs.Grammar.Tokens

/-!
# Tokens that stand apart

In a text whose tokens stand apart, what is read at a place depends on the next token alone. So the
text ahead can be replaced by its list of tokens, and each lexeme is read exactly if it is the next
token, except that a symbol is also found at the start of a longer one.

## Main definitions

* `Cursor.Shows c w d` — the next token is `w`, with separators around it, and `d` is behind it.
* `Cursor.Spells c ts` — the tokens `ts` are ahead, and nothing else.
-/

namespace Quill

open Text

namespace Cursor

/-- The next token is `w`, and `d` is the place behind it; no character of a word touches it before,
and a separator or the end of the text follows. -/
structure Shows (c : Cursor) (w : String) (d : Cursor) : Prop where
  ne_nil : w.toList ≠ []
  takes : c.skip.Takes w.toList d
  behind : c.skip.behind.head?.any touchesKeyword = false
  delimited : ∀ ch ∈ d.ahead.head?, isSeparator ch

/-- The tokens of the text ahead are `ts`, and all stand apart. -/
def Spells : Cursor → List String → Prop
  | c, [] => c.skip.ahead = []
  | c, w :: ts => ∃ d, c.Shows w d ∧ d.Spells ts

theorem noSeparator_of_isSymbolChar {ch : Char} (h : IsSymbolChar ch) : isSeparator ch = false := by
  rw [Bool.eq_false_iff]
  intro hsep
  have hblank := isBlank_of_isSeparator hsep
  rw [h.2.2.1] at hblank
  cases hblank

theorem noSeparator_of_symbol {s : String} (hs : s ∈ punctuation ++ operatorSymbols) :
    ∀ ch ∈ s.toList, isSeparator ch = false :=
  fun ch hch => noSeparator_of_isSymbolChar ((isSymbolChar_of_mem s hs).2 ch hch)

theorem noWordChar_of_isSeparator {ch : Char} (h : isSeparator ch) :
    isWordChar ch = false ∧ isDigit ch = false :=
  noWordChar_of_isBlank (isBlank_of_isSeparator h)

/-- A run without separators stands at the start of a delimited token or not at all. -/
theorem prefix_of_prefix_append {s w rest : List Char} (hs : ∀ ch ∈ s, isSeparator ch = false)
    (hrest : ∀ ch ∈ rest.head?, isSeparator ch) (h : s <+: w ++ rest) : s <+: w := by
  induction s generalizing w with
  | nil => exact List.nil_prefix
  | cons x s ih =>
    cases w with
    | nil =>
      obtain ⟨t, rfl⟩ := h
      have hx := hs x List.mem_cons_self
      rw [hrest x rfl] at hx
      cases hx
    | cons y w =>
      rw [List.cons_append, List.cons_prefix_cons] at h
      exact List.cons_prefix_cons.2
        ⟨h.1, ih (fun ch hch => hs ch (List.mem_cons_of_mem _ hch)) h.2⟩

namespace Shows

variable {c d : Cursor} {w : String}

theorem length_lt (h : c.Shows w d) : d.ahead.length < c.ahead.length := by
  have hlength := h.takes.length
  have hpos := List.length_pos_iff.2 h.ne_nil
  have hskip := length_skip_le c
  omega

theorem prefix_iff (h : c.Shows w d) {s : List Char} (hs : ∀ ch ∈ s, isSeparator ch = false) :
    s <+: c.skip.ahead ↔ s <+: w.toList := by
  rw [h.takes.ahead]
  exact ⟨prefix_of_prefix_append hs h.delimited, fun hpre => hpre.trans (List.prefix_append _ _)⟩

theorem head_iff (h : c.Shows w d) {ch : Char} : ch ∈ c.skip.ahead.head? ↔ ch ∈ w.toList.head? := by
  obtain ⟨x, xs, hx⟩ := List.exists_cons_of_ne_nil h.ne_nil
  rw [h.takes.ahead, hx]
  rfl

/-! ## Symbols and keywords -/

theorem symbol?_self (h : c.Shows w d) : c.symbol? w = some d := symbol?_eq_some_iff.2 h.takes

theorem symbol?_eq_none (h : c.Shows w d) {s : String} (hs : s ∈ punctuation ++ operatorSymbols)
    (hne : ¬ s.toList <+: w.toList) : c.symbol? s = none := by
  rw [symbol?_eq_none_iff, h.prefix_iff (noSeparator_of_symbol hs)]
  exact hne

/-- The first symbol that stands at the start of the token is found, if it is the token itself. -/
theorem firstSymbol?_self (h : c.Shows w d) {symbols : List String}
    (hsymbols : ∀ s ∈ symbols, s ∈ punctuation ++ operatorSymbols)
    (hfind : (symbols.find? fun s => s.toList.isPrefixOf w.toList) = some w) :
    c.firstSymbol? symbols = some (w, d) := by
  induction symbols with
  | nil => cases hfind
  | cons s symbols ih =>
    rw [List.find?_cons] at hfind
    split at hfind
    · obtain rfl := Option.some.inj hfind
      simp [firstSymbol?, h.symbol?_self]
    · rename_i hne
      rw [← Bool.not_eq_true, List.isPrefixOf_iff_prefix] at hne
      simp only [firstSymbol?, List.findSome?_cons,
        h.symbol?_eq_none (hsymbols s List.mem_cons_self) hne]
      exact ih (fun s hs => hsymbols s (List.mem_cons_of_mem _ hs)) hfind

/-- A keyword that stands apart is found. -/
theorem keyword?_self (h : c.Shows w d) : c.skip.keyword? w = some d := by
  refine keyword?_eq_some_iff.2 ⟨h.takes, h.behind, ?_⟩
  cases hd : d.ahead.head? with
  | none => rfl
  | some ch => exact noTouch_of_isSeparator (h.delimited ch hd)

theorem keyword?_eq_none (h : c.Shows w d) {k : String} (hk : k ∈ keywords)
    (hne : ¬ k.toList <+: w.toList) : c.skip.keyword? k = none := by
  rw [Option.eq_none_iff_forall_ne_some]
  intro e he
  have hletters : ∀ k ∈ keywords, ∀ ch ∈ k.toList, isSeparator ch = false := by decide
  refine hne ((h.prefix_iff (hletters k hk)).1 ?_)
  exact ⟨_, (keyword?_eq_some_iff.1 he).1.ahead.symm⟩

/-! ## Numerals and names -/

/-- A numeral that stands apart is read to its end. -/
theorem numeral?_of_isWellFormed {n : Numeral} (h : c.Shows (String.ofList n.text) d)
    (hn : n.IsWellFormed) : c.skip.numeral? = some (n, d) := by
  have htakes := h.takes
  rw [String.toList_ofList] at htakes
  refine numeral?_eq_some_iff.2 ⟨?_, htakes⟩
  rw [htakes.ahead]
  refine Numeral.scan?_text_append hn ?_
  intro ch hch
  have hsep := h.delimited ch hch
  refine ⟨(noWordChar_of_isSeparator hsep).2, ?_, ?_, ?_⟩ <;> rintro rfl <;> cases hsep

theorem numeral?_eq_none (h : c.Shows w d) (hw : ∀ ch ∈ w.toList.head?, isDigit ch = false) :
    c.skip.numeral? = none := by
  have hhead : ∀ ch ∈ c.skip.ahead.head?, isDigit ch = false :=
    fun ch hch => hw ch (h.head_iff.1 hch)
  rw [numeral?, Numeral.scan?_eq_none hhead]
  rfl

theorem name?_eq_none (h : c.Shows w d) (hw : ∀ ch ∈ w.toList.head?, isWordChar ch = false)
    (filename : String) : c.name? filename = none := by
  rw [Option.eq_none_iff_forall_ne_some]
  rintro ⟨t, e⟩ ht
  obtain ⟨ch, hch, hword⟩ := exists_wordChar_of_name? ht
  rw [hw ch (h.head_iff.1 hch)] at hword
  cases hword

theorem numeral?_of_mem_keywords (h : c.Shows w d) (hw : w ∈ keywords) :
    c.skip.numeral? = none :=
  h.numeral?_eq_none fun ch hch =>
    ((isWordChar_of_mem_keywords w hw).2 ch (List.mem_of_head? hch)).2.1

/-- Neither a numeral nor a name is read where a symbol is the next token. -/
theorem numeral?_of_symbol (h : c.Shows w d) (hw : w ∈ punctuation ++ operatorSymbols) :
    c.skip.numeral? = none :=
  h.numeral?_eq_none fun ch hch => ((isSymbolChar_of_mem w hw).2 ch (List.mem_of_head? hch)).1

theorem name?_of_symbol (h : c.Shows w d) (hw : w ∈ punctuation ++ operatorSymbols)
    (filename : String) : c.name? filename = none :=
  h.name?_eq_none (fun ch hch => ((isSymbolChar_of_mem w hw).2 ch (List.mem_of_head? hch)).2.1)
    filename

/-- A name is no keyword, and begins with none that would be cut off. -/
theorem keyword?_of_isName (h : c.Shows w d) (hw : IsName w) {k : String} (hk : k ∈ keywords) :
    c.skip.keyword? k = none := by
  rw [Option.eq_none_iff_forall_ne_some]
  intro e he
  obtain ⟨htakes, -, hnext⟩ := keyword?_eq_some_iff.1 he
  obtain ⟨rest, hrest⟩ : k.toList <+: w.toList := by
    have hletters : ∀ k ∈ keywords, ∀ ch ∈ k.toList, isSeparator ch = false := by decide
    exact (h.prefix_iff (hletters k hk)).1 ⟨_, htakes.ahead.symm⟩
  have htouch := hw.noKeyword k hk rest hrest.symm
  have hahead : e.ahead = rest ++ d.ahead := by
    have heq := htakes.ahead
    rw [h.takes.ahead, ← hrest, List.append_assoc] at heq
    exact (List.append_cancel_left heq).symm
  cases rest with
  | nil => cases htouch
  | cons ch rest =>
    rw [hahead, List.cons_append, List.head?_cons] at hnext
    rw [List.head?_cons, hnext] at htouch
    cases htouch

/-- A name is read as a token of that name. -/
theorem name?_of_isName (h : c.Shows w d) (hw : IsName w) (filename : String) :
    ∃ t : Token, t.value = w ∧ c.name? filename = some (t, d) := by
  refine ⟨c.skip.token filename w.toList, String.ofList_toList, ?_⟩
  refine name?_eq_some_iff.2 ⟨w.toList, word?_eq_some_iff.2 ⟨?_, h.ne_nil, ?_, ?_, h.takes⟩, rfl⟩
  · exact atKeyword_eq_false_iff.2 fun k hk => h.keyword?_of_isName hw hk
  · obtain ⟨ch, cs, hcs⟩ := List.exists_cons_of_ne_nil h.ne_nil
    rw [hcs]
    exact hw.noDigit ch (by rw [hcs]; rfl)
  · rw [h.takes.ahead, takeWhile_run_append hw.isWordChar fun ch hch =>
      (noWordChar_of_isSeparator (h.delimited ch hch)).1]

end Shows

/-! ## The text ahead as a list of tokens -/

namespace Spells

variable {c : Cursor} {ts : List String}

theorem symbol?_eq_none (h : c.Spells ts) {s : String} (hs : s ∈ punctuation ++ operatorSymbols)
    (hne : ∀ w ∈ ts.head?, ¬ s.toList <+: w.toList) : c.symbol? s = none := by
  cases ts with
  | nil =>
    rw [symbol?_eq_none_iff, h]
    intro hpre
    exact (isSymbolChar_of_mem s hs).1 (List.prefix_nil.1 hpre)
  | cons w ts =>
    obtain ⟨d, hd, -⟩ := h
    exact hd.symbol?_eq_none hs (hne w rfl)

theorem firstSymbol?_eq_none (h : c.Spells ts) {symbols : List String}
    (hsymbols : ∀ s ∈ symbols, s ∈ punctuation ++ operatorSymbols)
    (hne : ∀ s ∈ symbols, ∀ w ∈ ts.head?, ¬ s.toList <+: w.toList) :
    c.firstSymbol? symbols = none := by
  refine firstSymbol?_eq_none_iff.2 ?_
  intro s hs
  exact symbol?_eq_none_iff.1 (h.symbol?_eq_none (hsymbols s hs) (hne s hs))

/-- No expression is read where the next token cannot begin one. -/
theorem error_of_opens {w : String} (h : c.Spells (w :: ts)) {r : Reader Tree}
    (hr : Opens opensExpression r) (hw : ∀ ch ∈ w.toList.head?, opensExpression ch = false) :
    ∃ failure, r c = .error failure := by
  obtain ⟨d, hd, -⟩ := h
  cases hc : r c with
  | error failure => exact ⟨failure, rfl⟩
  | ok ed =>
    obtain ⟨ch, hch, hopens⟩ := hr c ed.1 ed.2 hc
    rw [hw ch (hd.head_iff.1 hch)] at hopens
    cases hopens

/-- Neither a keyword nor a name is read at the end of the text or of a block. -/
theorem noWord_of_end (h : c.Spells ts) (hts : ∀ w ∈ ts.head?, w = "\x7d") :
    (∀ k ∈ keywords, c.skip.keyword? k = none) ∧ ∀ filename, c.name? filename = none := by
  cases ts with
  | nil =>
    have hnil : c.skip.ahead = [] := h
    exact ⟨fun k hk => keyword?_of_end hnil hk, name?_of_end hnil⟩
  | cons w ts =>
    obtain rfl := hts w rfl
    obtain ⟨d, hd, -⟩ := h
    refine ⟨?_, hd.name?_of_symbol (by decide)⟩
    intro k hk
    exact hd.keyword?_eq_none hk
      ((by decide : ∀ k ∈ keywords, ¬ k.toList <+: "\x7d".toList) k hk)

end Spells
end Cursor
end Quill
