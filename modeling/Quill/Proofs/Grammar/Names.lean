import Quill.Proofs.Node
import Quill.Proofs.Grammar.Layout
import Quill.Proofs.Grammar.Soundness
import Quill.Proofs.Grammar.Sequence

/-!
# Words as names

A word is read as a name if it may be one. No keyword may, and no other word may either that begins
with a keyword and goes on with a letter beyond ASCII: there the keyword is seen, as if the word
ended, and `letπ` is no name although `letter` is. All other words are names, in expressions and in
declarations; and in whatever is accepted, all names are such words.

## Main definitions

* `IsWord w` — `w` is made of word characters and does not begin with a digit.
* `Phrase.leaves` — the leaves of the trees of a phrase.
-/

namespace Quill

open Text Quill.Tree

/-! ## Words -/

/-- A word, which may be a keyword. -/
structure IsWord (w : String) : Prop where
  ne_nil : w.toList ≠ []
  isWordChar : ∀ ch ∈ w.toList, isWordChar ch
  noDigit : ∀ ch ∈ w.toList.head?, isDigit ch = false

theorem IsName.notMem_keywords {w : String} (h : IsName w) : w ∉ Cursor.keywords := by
  intro hw
  have htouch := h.noKeyword w hw [] (List.append_nil _).symm
  cases htouch

/-- Behind a keyword, a name goes on with ASCII. -/
theorem IsName.keywordsEnd {w : String} (h : IsName w) : KeywordsEnd [w] := by
  intro v hv k hk ch rest hrest _
  rw [List.mem_singleton.1 hv] at hrest
  exact Cursor.ascii_of_touchesKeyword (h.noKeyword k hk (ch :: rest) hrest)

/-- The words that may be names. -/
theorem IsWord.isName_iff {w : String} (hw : IsWord w) :
    IsName w ↔ w ∉ Cursor.keywords ∧ KeywordsEnd [w] := by
  refine ⟨fun h => ⟨h.notMem_keywords, h.keywordsEnd⟩, ?_⟩
  rintro ⟨hkeyword, hends⟩
  refine ⟨hw.ne_nil, hw.isWordChar, hw.noDigit, ?_⟩
  intro k hk rest hrest
  cases rest with
  | nil =>
    rw [List.append_nil] at hrest
    exact absurd (String.toList_injective hrest ▸ hk) hkeyword
  | cons ch rest =>
    have hch : Text.isWordChar ch := hw.isWordChar ch (by simp [hrest])
    exact Cursor.touchesKeyword_of_isWordChar hch
      (hends w List.mem_cons_self k hk ch rest hrest hch)

/-! ## Names that are read -/

/-- The leaves of the trees of a phrase. -/
def Phrase.leaves : Phrase → List Tree
  | expression _ e => e.leaves
  | arguments es => leavesOfAll es
  | moreArguments es => leavesOfAll es
  | parameters ps => leavesOfAll ps
  | moreParameters ps => leavesOfAll ps
  | statement s => s.leaves
  | statements ss => leavesOfAll ss

/-- All names of what is derived may be names. -/
theorem Derives.isName_of_mem_leaves {p : Phrase} {ts : List String} (h : Derives p ts) :
    ∀ t, .token t ∈ p.leaves → IsName t.value := by
  have one {t : Token} (ht : IsName t.value) :
      ∀ t', .token t' ∈ [Tree.token t] → IsName t'.value := by
    intro t' ht'
    rwa [Tree.token.inj (List.mem_singleton.1 ht')]
  have append {as bs : List Tree} (h : ∀ t, .token t ∈ as → IsName t.value)
      (h' : ∀ t, .token t ∈ bs → IsName t.value) : ∀ t, .token t ∈ as ++ bs → IsName t.value :=
    fun t ht => (List.mem_append.1 ht).elim (h t) (h' t)
  induction h with
  | numeral | truth | falsehood => simp [Phrase.leaves, leaves]
  | noArguments | noMoreArguments | noParameters | noMoreParameters | noStatements =>
    simp [Phrase.leaves, leavesOfAll]
  | name ht => exact one ht
  | call ht _ ihes => exact append (one ht) ihes
  | parentheses _ ih | sign _ _ _ ih | print _ ih => exact ih
  | binary _ _ _ ihl ihr => exact append ihl ihr
  | conditional _ _ _ _ ihe iha ihb => exact append (append ihe iha) ihb
  | arguments _ _ ih ihs | moreArguments _ _ ih ihs | whileLoop _ _ ih ihs
  | statements _ _ ih ihs => exact append ih ihs
  | parameters ht _ ih | moreParameters ht _ ih | variableDeclaration ht _ ih
  | assignment ht _ ih => exact append (one ht) ih
  | functionDeclaration ht _ _ ihps ihe => exact append (append (one ht) ihps) ihe

theorem noDollar_of_end {d : Cursor} (h : d.skip.ahead = []) : '$' ∉ d.ahead.head? := by
  intro hdollar
  rw [Cursor.skip_eq_self (Cursor.stops_of_head hdollar (by decide) (by decide))] at h
  rw [h] at hdollar
  cases hdollar

section
variable {filename : String} {cs : List Char}

theorem isName_of_ofExpression {e : Tree} (h : ofExpression filename cs = .ok e) :
    ∀ t, .token t ∈ e.leaves → IsName t.value := by
  obtain ⟨⟨e', d⟩, he, h⟩ := bind_eq_ok_iff.1 h
  obtain ⟨u, hend, h⟩ := bind_eq_ok_iff.1 h
  obtain rfl := Except.ok.inj h
  obtain ⟨ts, hts, -⟩ := sound_readExpression filename _ _ _ (.inl rfl) he
    (noDollar_of_end (ahead_of_expectEnd hend))
  exact hts.isName_of_mem_leaves

/-- All tokens in a program that is read are names. -/
theorem isName_of_ofProgram {r : Tree} (h : ofProgram filename cs = .ok r) :
    ∀ t, .token t ∈ r.leaves → IsName t.value := by
  obtain ⟨⟨ss, d⟩, hss, h⟩ := bind_eq_ok_iff.1 h
  obtain ⟨u, -, h⟩ := bind_eq_ok_iff.1 h
  obtain rfl := Except.ok.inj h
  obtain ⟨-, ts, hts, -⟩ :=
    fills_repeatStatements (soundStatement_readStatement filename _) (.inl rfl) hss
  exact hts.isName_of_mem_leaves

end

/-! ## Words that are read -/

/-- An operand is read as a whole expression, where neither a sign stands before it nor a symbol
behind it that continues an expression. -/
theorem readLevels_of_operand {filename : String} {inner : Reader Tree} {c d : Cursor} {e : Tree}
    (h : readOperand filename inner false c = .ok (e, d))
    (hsign : c.firstSymbol? signSymbols = none)
    (hd : ∀ s ∈ continuations topLevel, ¬ s.toList <+: d.skip.ahead) :
    readLevels filename inner c = .ok (e, d) := by
  have hnone {symbols : List String} (hsymbols : symbols ⊆ continuations topLevel) :
      d.firstSymbol? symbols = none :=
    Cursor.firstSymbol?_eq_none_iff.2 fun s hs => hd s (hsymbols hs)
  have hpower : powerReader filename inner false c = .ok (e, d) := by
    unfold powerReader
    cases c.ahead.length with
    | zero => exact h
    | succ n =>
      have hsymbol : d.firstSymbol? powerSymbols = none := hnone (by decide)
      simp only [readPower, h, ok_bind, hsymbol]
      rfl
  have hfactor : readFactor filename inner c = .ok (e, d) := by
    unfold readFactor
    cases c.ahead.length with
    | zero => exact hpower
    | succ n =>
      simp only [readSigned, hsign]
      exact hpower
  have hchain : ∀ j ≤ 5, chainReader filename inner j c = .ok (e, d) := by
    intro j
    induction j with
    | zero => exact fun _ => hfactor
    | succ j ih =>
      intro hj
      refine (Reaches.of_lower (ih (Nat.le_of_lt hj))).readChain (hnone ?_)
      exact List.Subset.trans (chainSymbols_getElem? hj).2
        (continuations_subset (by unfold topLevel; omega))
  have hquestion : d.symbol? "?" = none := Cursor.symbol?_eq_none_iff.2 (hd "?" (by decide))
  have harms : readArms? inner d = none := by simp [readArms?, hquestion]
  rw [readLevels_eq, readConditional, hchain 5 (Nat.le_refl _), ok_bind]
  simp only [harms]
  rfl

/-- A definition as one, up to the end of the text. -/
theorem readDefinition_one (filename : String) {c : Cursor} (h : c.skip.ahead = "= 1;".toList) :
    ∃ d, d.ahead = [] ∧ readDefinition filename c = .ok (.number .one, d) := by
  let behind := c.skip.behind
  have hequal : expectSymbol "=" c = .ok ⟨'=' :: behind, " 1;".toList⟩ := by
    rw [expectSymbol_eq_ok_iff, Cursor.symbol?_eq_some_iff]
    exact ⟨h, rfl⟩
  have hone : Number.one = Numeral.value ⟨['1'], [], none⟩ := by decide +kernel
  have hsemicolon : ∀ s ∈ continuations topLevel, ¬ s.toList <+: [';'] := by decide
  have hexpression : readExpression filename ⟨'=' :: behind, " 1;".toList⟩ =
      .ok (.number .one, ⟨"= 1".toList.reverse ++ behind, [';']⟩) := by
    rw [hone]
    exact readLevels_of_operand rfl rfl hsemicolon
  refine ⟨⟨"= 1;".toList.reverse ++ behind, []⟩, rfl, ?_⟩
  rw [readDefinition, hequal, ok_bind, hexpression]
  rfl

/-- Blanks that keep tokens apart. -/
structure IsGap (b : List Char) : Prop where
  ne_nil : b ≠ []
  isSeparator : ∀ ch ∈ b, Cursor.isSeparator ch

namespace IsGap

variable {b : List Char}

theorem isLayout (h : IsGap b) : IsLayout b := by
  have hall : ∀ b : List Char, (∀ ch ∈ b, Cursor.isSeparator ch) → IsLayout b := by
    intro b
    induction b with
    | nil => exact fun _ => .nil
    | cons ch b ih =>
      intro h
      obtain ⟨hch, hb⟩ := List.forall_mem_cons.1 h
      exact .blank hch (ih hb)
  exact hall b h.isSeparator

theorem head (h : IsGap b) (rest : List Char) :
    ∀ ch ∈ (b ++ rest).head?, Cursor.isSeparator ch := by
  obtain ⟨x, b, rfl⟩ := List.exists_cons_of_ne_nil h.ne_nil
  intro ch hch
  rw [← Option.some.inj hch]
  exact h.isSeparator x List.mem_cons_self

theorem expands (h : IsGap b) {ds : List Char} (hds : Expands b ds) : IsGap ds := by
  refine ⟨?_, fun ch hch => ?_⟩
  · rintro rfl
    cases hds with
    | nil => exact h.ne_nil rfl
  · rcases (hds.mem ch hch).2 with rfl | hmem
    · decide
    · exact h.isSeparator ch hmem

end IsGap

namespace Tree

variable {filename w : String}

theorem exists_token_of_unplaced {e : Tree} (h : e.unplaced = token ⟨w, none⟩) :
    ∃ t : Token, t.value = w ∧ e = token t := by
  cases e <;> simp [unplaced] at h
  exact ⟨_, h, rfl⟩

/-- What may be a name is one as an expression. -/
theorem ofExpression_of_isName (filename : String) (hw : IsName w) :
    ∃ t : Token, t.value = w ∧ ofExpression filename w.toList = .ok (token t) := by
  have hspells : (Cursor.start w.toList).Spells ([w] ++ []) :=
    (Separated.last w).spells (fun v hv => List.mem_singleton.1 hv ▸ hw.isLexeme) .nil rfl
  have hname : (Phrase.expression topLevel (token ⟨w, none⟩)).IsRead filename [w] := .name hw
  obtain ⟨e, d, hread, hsame, hd, -⟩ :=
    hname.nested (Nat.lt_succ_self _) hspells (by simp [Ends])
  obtain ⟨t, ht, rfl⟩ := exists_token_of_unplaced hsame
  exact ⟨t, ht, ofExpression_of_read hw.isLexeme.noTab hread hd⟩

/-- The text `let w = 1;` with these blanks around the word. -/
def letOne (b₁ : List Char) (w : String) (b₂ : List Char) : List Char :=
  "let".toList ++ (b₁ ++ (w.toList ++ (b₂ ++ "= 1;".toList)))

/-- The expansion of tabs changes the gaps around a word only. -/
theorem expandTabs_letOne (hw : IsName w) {b₁ b₂ : List Char} (h₁ : IsGap b₁) (h₂ : IsGap b₂) :
    ∃ b₁' b₂', IsGap b₁' ∧ IsGap b₂' ∧ expandTabs (letOne b₁ w b₂) = letOne b₁' w b₂' := by
  obtain ⟨ds₁, hds, hexpand₁⟩ :=
    (expands_expandTabs (letOne b₁ w b₂)).of_append_left (by decide)
  obtain ⟨b₁', ds₂, rfl, hb₁, hexpand₂⟩ := hexpand₁.of_append
  obtain ⟨ds₃, rfl, hexpand₃⟩ := hexpand₂.of_append_left hw.isLexeme.noTab
  obtain ⟨b₂', ds₄, rfl, hb₂, hexpand₄⟩ := hexpand₃.of_append
  obtain rfl := hexpand₄.eq_of_noTab (by decide)
  exact ⟨b₁', b₂', h₁.expands hb₁, h₂.expands hb₂, hds⟩

/-- A declaration of a name is read, whatever gaps stand around the name. -/
theorem nextStatement_letOne (filename : String) (hw : IsName w) {b₁ b₂ : List Char}
    (h₁ : IsGap b₁) (h₂ : IsGap b₂) : ∃ (t : Token) (d : Cursor), t.value = w ∧ d.ahead = [] ∧
      nextStatement filename (Cursor.start (letOne b₁ w b₂)) =
        .ok (some (variableDeclaration (token t) (.number .one)), d) := by
  let c₁ : Cursor := ⟨"let".toList.reverse, b₁ ++ (w.toList ++ (b₂ ++ "= 1;".toList))⟩
  let c₂ : Cursor := ⟨w.toList.reverse ++ (b₁.reverse ++ c₁.behind), b₂ ++ "= 1;".toList⟩
  have hlet : (Cursor.start (letOne b₁ w b₂)).Shows "let" c₁ :=
    (isLexeme_of_mem (w := "let") (by decide)).shows .nil rfl (h₁.head _)
  have hname : c₁.Shows w c₂ :=
    hw.isLexeme.shows h₁.isLayout (h₁.isLayout.noTouch_behind h₁.ne_nil _) (h₂.head _)
  have hskip : c₂.skip = ⟨b₂.reverse ++ c₂.behind, "= 1;".toList⟩ :=
    Cursor.skip_eq_of_skips (h₂.isLayout.skips _ _)
      (Cursor.stops_of_head (rfl : '=' ∈ "= 1;".toList.head?) (by decide) (by decide))
  obtain ⟨t, ht, -, hexpect⟩ := Phrase.IsRead.expectName_of_isName filename hname hw
  obtain ⟨d, hd, hdefinition⟩ := readDefinition_one filename (congrArg Cursor.ahead hskip)
  refine ⟨t, d, ht, hd, ?_⟩
  simp only [nextStatement, readStatement, hlet.keyword?_self, readCommitted, readVariable,
    hexpect, ok_bind, hdefinition]
  rfl

/-- What may be a name is declared. -/
theorem ofProgram_letOne (filename : String) (hw : IsName w) {b₁ b₂ : List Char}
    (h₁ : IsGap b₁) (h₂ : IsGap b₂) : ∃ t : Token, t.value = w ∧
      ofProgram filename (letOne b₁ w b₂) =
        .ok (program [variableDeclaration (token t) (.number .one)]) := by
  obtain ⟨b₁', b₂', h₁', h₂', hexpand⟩ := expandTabs_letOne hw h₁ h₂
  obtain ⟨t, d, ht, hd, hstatement⟩ := nextStatement_letOne filename hw h₁' h₂'
  have hskip := Cursor.ahead_skip_of_end hd
  have hread : readStatements filename (Cursor.start (letOne b₁' w b₂')) =
      .ok ([variableDeclaration (token t) (.number .one)], d) := by
    rw [readStatements_of_some hstatement, readStatements_of_none (nextStatement_of_end hskip)]
    rfl
  have hend : expectEnd d = .ok () := if_pos hskip
  refine ⟨t, ht, ?_⟩
  rw [ofProgram, hexpand, hread, ok_bind]
  simp only [hend]
  rfl

/-- A word is read as a name, and declared, exactly if it is no keyword and does not go on behind
one with a letter beyond ASCII. No name of a text that is accepted is a keyword. -/
theorem reads_word_iff (filename : String) {w : String} (hw : IsWord w) :
    ((∃ t : Token, t.value = w ∧ ofExpression filename w.toList = .ok (token t)) ↔
      w ∉ Cursor.keywords ∧ KeywordsEnd [w]) ∧
    (∀ b₁ b₂, IsGap b₁ → IsGap b₂ →
      ((∃ t : Token, t.value = w ∧ ofProgram filename (letOne b₁ w b₂) =
          .ok (program [variableDeclaration (token t) (.number .one)])) ↔
        w ∉ Cursor.keywords ∧ KeywordsEnd [w])) ∧
    ∀ (cs : List Char) (t : Token),
      (∀ e, ofExpression filename cs = .ok e → token t ∈ e.leaves → t.value ∉ Cursor.keywords) ∧
      ∀ r, ofProgram filename cs = .ok r → token t ∈ r.leaves → t.value ∉ Cursor.keywords := by
  refine ⟨⟨?_, ?_⟩, fun b₁ b₂ h₁ h₂ => ⟨?_, ?_⟩, fun cs t => ⟨?_, ?_⟩⟩
  · rintro ⟨t, rfl, hread⟩
    exact hw.isName_iff.1 (isName_of_ofExpression hread t List.mem_cons_self)
  · exact fun h => ofExpression_of_isName filename (hw.isName_iff.2 h)
  · rintro ⟨t, rfl, hread⟩
    exact hw.isName_iff.1 (isName_of_ofProgram hread t List.mem_cons_self)
  · exact fun h => ofProgram_letOne filename (hw.isName_iff.2 h) h₁ h₂
  · exact fun e hread ht => (isName_of_ofExpression hread t ht).notMem_keywords
  · exact fun r hread ht => (isName_of_ofProgram hread t ht).notMem_keywords

theorem reads_letter : IsWord "letter" ∧
    (∃ t : Token, t.value = "letter" ∧ ofExpression "word" "letter".toList = .ok (token t)) ∧
    IsGap "\t".toList ∧ IsGap "\n ".toList ∧
    ∃ t : Token, t.value = "letter" ∧ ofProgram "word" (letOne "\t".toList "letter" "\n ".toList) =
      .ok (program [variableDeclaration (token t) (.number .one)]) := by
  have hword : IsWord "letter" := ⟨by decide, by decide +kernel, by decide +kernel⟩
  have hgap : IsGap "\t".toList ∧ IsGap "\n ".toList :=
    ⟨⟨by decide, by decide⟩, by decide, by decide⟩
  have hends : "letter" ∉ Cursor.keywords ∧ KeywordsEnd ["letter"] := by
    refine ⟨by decide, ?_⟩
    intro v hv k _ ch rest hrest _
    have hascii : ∀ ch ∈ "letter".toList, ch.toNat < 128 := by decide
    rw [List.mem_singleton.1 hv] at hrest
    exact hascii ch (hrest ▸ by simp)
  obtain ⟨hexpression, hdeclaration, -⟩ := reads_word_iff "word" hword
  exact ⟨hword, hexpression.2 hends, hgap.1, hgap.2, (hdeclaration _ _ hgap.1 hgap.2).2 hends⟩

/-- A word that begins with the letters of a keyword, and is none. -/
theorem not_reads_letPi : IsWord "letπ" ∧ "letπ" ∉ Cursor.keywords ∧
    (∀ t, ofExpression "word" "letπ".toList ≠ .ok (token t)) ∧
    ∀ r, ofProgram "word" (letOne " ".toList "letπ" " ".toList) ≠ .ok r := by
  have hexpression : (ofExpression "word" "letπ".toList).isOk = false := by decide +kernel
  have hprogram : (ofProgram "word" (letOne " ".toList "letπ" " ".toList)).isOk = false := by
    decide +kernel
  refine ⟨⟨by decide, by decide +kernel, by decide +kernel⟩, by decide, ?_, ?_⟩
  · intro t ht
    rw [ht] at hexpression
    cases hexpression
  · intro r hr
    rw [hr] at hprogram
    cases hprogram

end Tree
end Quill
