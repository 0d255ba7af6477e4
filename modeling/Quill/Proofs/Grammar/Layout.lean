import Quill.Proofs.Grammar.Tabs
import Quill.Proofs.Grammar.Completeness

/-!
# Programs as texts

A program may be written with any layout: a blank between each two tokens, and as many further
blanks and comments as one likes. Whatever the layout, and whichever parentheses are set beyond
those that precedence asks for, the text is accepted, and the tree that is read is the one that was
written.

## Main definitions

* `IsLayout cs` — `cs` is made of blanks and of comments with their line feeds.
* `Separated ts cs` — `cs` is made of the tokens `ts` with a blank and layout between them.
-/

namespace Quill

open Text

/-- Blanks, and comments each with the line feed that ends it. -/
inductive IsLayout : List Char → Prop
  | nil : IsLayout []
  | blank {ch : Char} {cs : List Char} (hch : Cursor.isSeparator ch) (h : IsLayout cs) :
    IsLayout (ch :: cs)
  | comment {body cs : List Char} (hbody : '\n' ∉ body) (h : IsLayout cs) :
    IsLayout ('/' :: '/' :: (body ++ '\n' :: cs))

/-- Tokens in order, with a blank and any layout behind each, but perhaps not behind the last. -/
inductive Separated : List String → List Char → Prop
  | nil : Separated [] []
  | last (w : String) : Separated [w] w.toList
  | token (w : String) {ts : List String} {ch : Char} {layout cs : List Char}
    (hch : Cursor.isSeparator ch) (hlayout : IsLayout layout) (h : Separated ts cs) :
    Separated (w :: ts) (w.toList ++ ch :: (layout ++ cs))

/-! ## Tokens -/

/-- A text without separators that begins no comment. -/
structure IsLexeme (w : String) : Prop where
  ne_nil : w.toList ≠ []
  noSeparator : ∀ ch ∈ w.toList, Cursor.isSeparator ch = false
  noComment : w.toList.take 2 ≠ ['/', '/']

theorem IsLexeme.noTab {w : String} (h : IsLexeme w) : '\t' ∉ w.toList := by
  intro hmem
  have hsep := h.noSeparator '\t' hmem
  revert hsep
  decide

/-- The tokens that are always written alike. -/
def fixedTokens : List String := Cursor.keywords ++ (punctuation ++ operatorSymbols)

/-- Keywords, marks of punctuation and operators are lexemes. -/
theorem isLexeme_of_mem {w : String} (hw : w ∈ fixedTokens) : IsLexeme w := by
  have hall : ∀ w ∈ fixedTokens, w.toList ≠ [] ∧
      (∀ ch ∈ w.toList, Cursor.isSeparator ch = false) ∧ w.toList.take 2 ≠ ['/', '/'] := by
    decide
  obtain ⟨hne, hsep, hcomment⟩ := hall w hw
  exact ⟨hne, hsep, hcomment⟩

/-- A token that does not begin with a stroke begins no comment. -/
theorem isLexeme_of_head {w : String} (hne : w.toList ≠ [])
    (hsep : ∀ ch ∈ w.toList, Cursor.isSeparator ch = false) (hhead : '/' ∉ w.toList.head?) :
    IsLexeme w := by
  refine ⟨hne, hsep, ?_⟩
  obtain ⟨ch, cs, hcs⟩ := List.exists_cons_of_ne_nil hne
  rw [hcs] at hhead ⊢
  rintro htake
  exact hhead (congrArg some (List.cons.inj htake).1)

theorem noSeparator_of_isWordChar {ch : Char} (h : isWordChar ch ∨ isDigit ch) :
    Cursor.isSeparator ch = false := by
  rw [Bool.eq_false_iff]
  intro hsep
  obtain ⟨hword, hdigit⟩ := Cursor.noWordChar_of_isSeparator hsep
  simp [hword, hdigit] at h

theorem isSymbolChar_stroke : IsSymbolChar '/' :=
  isSymbolChar_of_singleton '/' (by decide)

theorem IsName.isLexeme {w : String} (h : IsName w) : IsLexeme w := by
  have hsep : ∀ ch ∈ w.toList, Cursor.isSeparator ch = false :=
    fun ch hch => noSeparator_of_isWordChar (.inl (h.isWordChar ch hch))
  refine isLexeme_of_head h.ne_nil hsep ?_
  intro hslash
  have hword := h.isWordChar '/' (List.mem_of_head? hslash)
  rw [isSymbolChar_stroke.2.1] at hword
  cases hword

theorem Numeral.Exponent.IsWellFormed.forall_mem_text {p : Char → Prop} {e : Numeral.Exponent}
    (h : e.IsWellFormed) (hdigit : ∀ ch, Text.isDigit ch → p ch)
    (hmark : ∀ ch ∈ ['e', 'E', '+', '-'], p ch) : ∀ ch ∈ e.text, p ch := by
  obtain ⟨he, hsign, -, hdigits⟩ := h
  intro ch hch
  simp only [text, List.cons_append, List.mem_cons, List.mem_append] at hch
  rcases hch with rfl | hch | hch
  · rcases he with he | he <;> exact hmark _ (by simp [he])
  · rcases hsign with hsign | hsign | hsign <;> rw [hsign] at hch
    · cases hch
    · exact hmark _ (by simp [List.mem_singleton.1 hch])
    · exact hmark _ (by simp [List.mem_singleton.1 hch])
  · exact hdigit ch (hdigits ch hch)

/-- What holds of digits and marks holds of all characters of a numeral. -/
theorem Numeral.IsWellFormed.forall_mem_text {p : Char → Prop} {n : Numeral} (h : n.IsWellFormed)
    (hdigit : ∀ ch, Text.isDigit ch → p ch) (hmark : ∀ ch ∈ ['e', 'E', '+', '-'], p ch)
    (hpoint : p '.') : ∀ ch ∈ n.text, p ch := by
  intro ch hch
  simp only [text, List.mem_append] at hch
  rcases hch with (hch | hch) | hch
  · exact hdigit ch (h.whole ch hch)
  · split at hch
    · cases hch
    · rcases List.mem_cons.1 hch with rfl | hch
      · exact hpoint
      · exact hdigit ch (h.fraction ch hch)
  · cases he : n.exponent with
    | none =>
      rw [he] at hch
      cases hch
    | some e =>
      rw [he] at hch
      exact (h.exponent e he).forall_mem_text hdigit hmark ch hch

theorem Numeral.IsWellFormed.noSeparator {n : Numeral} (h : n.IsWellFormed) :
    ∀ ch ∈ n.text, Cursor.isSeparator ch = false :=
  h.forall_mem_text (fun _ hch => noSeparator_of_isWordChar (.inr hch)) (by decide) (by decide)

theorem Numeral.IsWellFormed.isLexeme {n : Numeral} (h : n.IsWellFormed) :
    IsLexeme (String.ofList n.text) := by
  obtain ⟨digit, whole, hwhole⟩ := List.exists_cons_of_ne_nil h.ne_nil
  have hhead : n.text.head? = some digit := by simp [text, hwhole]
  refine isLexeme_of_head ?_ ?_ ?_
  · rw [String.toList_ofList]
    rintro hnil
    rw [hnil] at hhead
    cases hhead
  · rw [String.toList_ofList]
    exact h.noSeparator
  · rw [String.toList_ofList, hhead]
    rintro hslash
    have hdigit := h.whole digit (hwhole ▸ List.mem_cons_self)
    rw [Option.some.inj hslash, isSymbolChar_stroke.1] at hdigit
    cases hdigit

/-- All tokens of a derivation are lexemes. -/
theorem Derives.isLexeme {p : Phrase} {ts : List String} (h : Derives p ts) :
    ∀ w ∈ ts, IsLexeme w := by
  have hsymbol : ∀ op : Operator, op.symbol ∈ fixedTokens := by
    intro op
    cases op <;> decide
  have hsign : ∀ s ∈ signSymbols, s ∈ fixedTokens := by decide
  have hfixed : ∀ {w}, w ∈ fixedTokens → IsLexeme w := isLexeme_of_mem
  have hone : ∀ {w}, IsLexeme w → ∀ v ∈ [w], IsLexeme v := by
    intro w hw v hv
    rwa [List.mem_singleton.1 hv]
  induction h with
  | numeral hn => exact hone hn.isLexeme
  | truth | falsehood => exact hone (hfixed (by decide))
  | name ht => exact hone ht.isLexeme
  | call ht _ ih =>
    simp only [List.forall_mem_cons, List.forall_mem_append]
    exact ⟨ht.isLexeme, hfixed (by decide), ih, hfixed (by decide), List.forall_mem_nil _⟩
  | parentheses _ ih =>
    simp only [List.forall_mem_cons, List.forall_mem_append]
    exact ⟨hfixed (by decide), ih, hfixed (by decide), List.forall_mem_nil _⟩
  | binary _ _ _ ihl ihr =>
    simp only [List.forall_mem_cons, List.forall_mem_append]
    exact ⟨ihl, hfixed (hsymbol _), ihr⟩
  | sign _ hs _ ih => exact List.forall_mem_cons.2 ⟨hfixed (hsign _ hs), ih⟩
  | conditional _ _ _ _ ihe iha ihb =>
    simp only [List.forall_mem_cons, List.forall_mem_append]
    exact ⟨ihe, hfixed (by decide), iha, hfixed (by decide), ihb⟩
  | noArguments | noMoreArguments | noParameters | noMoreParameters | noStatements => simp
  | arguments _ _ ihe ihes => exact List.forall_mem_append.2 ⟨ihe, ihes⟩
  | moreArguments _ _ ihe ihes =>
    simp only [List.forall_mem_cons, List.forall_mem_append]
    exact ⟨hfixed (by decide), ihe, ihes⟩
  | parameters ht _ ih => exact List.forall_mem_cons.2 ⟨ht.isLexeme, ih⟩
  | moreParameters ht _ ih =>
    simp only [List.forall_mem_cons]
    exact ⟨hfixed (by decide), ht.isLexeme, ih⟩
  | variableDeclaration ht _ ih =>
    simp only [List.forall_mem_cons, List.forall_mem_append]
    exact ⟨hfixed (by decide), ht.isLexeme, hfixed (by decide), ih, hfixed (by decide),
      List.forall_mem_nil _⟩
  | functionDeclaration ht _ _ ihps ihe =>
    simp only [List.forall_mem_cons, List.forall_mem_append]
    exact ⟨hfixed (by decide), ht.isLexeme, hfixed (by decide), ihps, hfixed (by decide),
      hfixed (by decide), ihe, hfixed (by decide), List.forall_mem_nil _⟩
  | assignment ht _ ih =>
    simp only [List.forall_mem_cons, List.forall_mem_append]
    exact ⟨ht.isLexeme, hfixed (by decide), ih, hfixed (by decide), List.forall_mem_nil _⟩
  | print _ ih =>
    simp only [List.forall_mem_cons, List.forall_mem_append]
    exact ⟨hfixed (by decide), ih, hfixed (by decide), List.forall_mem_nil _⟩
  | whileLoop _ _ ihe ihbody =>
    simp only [List.forall_mem_cons, List.forall_mem_append]
    exact ⟨hfixed (by decide), ihe, hfixed (by decide), ihbody, hfixed (by decide),
      List.forall_mem_nil _⟩
  | statements _ _ ihs ihss => exact List.forall_mem_append.2 ⟨ihs, ihss⟩

/-- Where a lexeme stands by itself, nothing is passed. -/
theorem IsLexeme.stops {w : String} (h : IsLexeme w) {rest : List Char}
    (hrest : ∀ ch ∈ rest.head?, Cursor.isSeparator ch) : Cursor.Stops (w.toList ++ rest) := by
  obtain ⟨ch, cs, hcs⟩ := List.exists_cons_of_ne_nil h.ne_nil
  refine ⟨?_, ?_⟩
  · intro ch' hch'
    rw [hcs] at hch'
    rw [← Option.some.inj hch']
    exact h.noSeparator ch (hcs ▸ List.mem_cons_self)
  · intro tail htail
    have hpre : ['/', '/'] <+: w.toList :=
      Cursor.prefix_of_prefix_append (by decide) hrest ⟨tail, htail.symm⟩
    obtain ⟨tail', htail'⟩ := hpre
    exact h.noComment (by rw [← htail']; rfl)

/-! ## Layout -/

namespace IsLayout

/-- Layout is passed. -/
theorem skips {layout : List Char} (h : IsLayout layout) (behind rest : List Char) :
    Cursor.Skips ⟨behind, layout ++ rest⟩ ⟨layout.reverse ++ behind, rest⟩ := by
  induction h generalizing behind with
  | nil => exact .stay _
  | @blank ch cs hch _ ih =>
    rw [List.reverse_cons, List.append_assoc]
    exact .blank hch (ih _)
  | @comment body cs hbody _ ih =>
    have hstop : ∀ ch ∈ body, decide (ch ≠ '\n') = true := by
      intro ch hch
      refine decide_eq_true ?_
      rintro rfl
      exact hbody hch
    have hcomment : Cursor.comment? ⟨behind, '/' :: '/' :: (body ++ '\n' :: cs) ++ rest⟩ =
        some ⟨body.reverse ++ '/' :: '/' :: behind, '\n' :: cs ++ rest⟩ := by
      refine Cursor.comment?_eq_some_iff.2 ⟨body ++ '\n' :: (cs ++ rest), by simp, ?_⟩
      rw [takeWhile_run_append hstop (by simp), dropWhile_run_append hstop (by simp)]
      rfl
    have hrest := Cursor.Skips.blank (by decide : Cursor.isSeparator '\n' = true)
      (ih ('\n' :: (body.reverse ++ '/' :: '/' :: behind)))
    simpa using Cursor.Skips.comment hcomment hrest

/-- Layout ends in a separator. -/
theorem isSeparator_last {layout : List Char} (h : IsLayout layout) :
    ∀ ch ∈ layout.getLast?, Cursor.isSeparator ch := by
  induction h with
  | nil => simp
  | @blank ch cs hch _ ih =>
    rw [List.getLast?_cons]
    intro ch' hch'
    cases hcs : cs.getLast? with
    | none =>
      rw [hcs] at hch'
      rwa [← Option.some.inj hch']
    | some last =>
      rw [hcs] at hch'
      exact ih ch' (hcs.trans hch')
  | @comment body cs _ _ ih =>
    have hlast : ('/' :: '/' :: (body ++ '\n' :: cs)).getLast? =
        some (cs.getLast?.getD '\n') := by
      simp [List.getLast?_cons, List.getLast?_append]
    rw [hlast]
    intro ch hch
    obtain rfl := Option.some.inj hch
    cases hcs : cs.getLast? with
    | none => decide
    | some last => exact ih last hcs

/-- Behind layout a keyword may stand. -/
theorem noTouch_behind {layout : List Char} (h : IsLayout layout) (hne : layout ≠ [])
    (behind : List Char) :
    (layout.reverse ++ behind).head?.any Cursor.touchesKeyword = false := by
  have hlast := List.getLast?_eq_some_getLast hne
  rw [List.head?_append, List.head?_reverse, hlast]
  exact Cursor.noTouch_of_isSeparator (h.isSeparator_last _ hlast)

/-- Layout stays layout when its tabs become spaces. -/
theorem expands {layout ds : List Char} (h : IsLayout layout) (hds : Expands layout ds) :
    IsLayout ds := by
  have hspaces : ∀ n {cs}, IsLayout cs → IsLayout (List.replicate n ' ' ++ cs) := by
    intro n cs hcs
    induction n with
    | zero => exact hcs
    | succ n ih => exact .blank (by decide) ih
  induction h generalizing ds with
  | nil =>
    cases hds
    exact .nil
  | blank hch _ ih =>
    cases hds with
    | tab n hds => exact hspaces _ (ih hds)
    | char _ hds => exact .blank hch (ih hds)
  | @comment body cs hbody _ ih =>
    obtain ⟨ds, rfl, hline⟩ := hds.of_append_left (w := ['/', '/']) (by decide)
    obtain ⟨body', ds, rfl, hbody', hend⟩ := hline.of_append
    obtain ⟨ds, rfl, hrest⟩ := hend.of_append_left (w := ['\n']) (by decide)
    refine .comment ?_ (ih hrest)
    intro hmem
    rcases (hbody'.mem '\n' hmem).2 with hspace | hmem
    · revert hspace
      decide
    · exact hbody hmem

end IsLayout

/-- Behind layout, a lexeme with a separator behind it is the next token. -/
theorem IsLexeme.shows {w : String} (h : IsLexeme w) {layout behind rest : List Char}
    (hlayout : IsLayout layout)
    (hbehind : (layout.reverse ++ behind).head?.any Cursor.touchesKeyword = false)
    (hrest : ∀ ch ∈ rest.head?, Cursor.isSeparator ch) :
    Cursor.Shows ⟨behind, layout ++ (w.toList ++ rest)⟩ w
      ⟨w.toList.reverse ++ (layout.reverse ++ behind), rest⟩ := by
  have hskip := Cursor.skip_eq_of_skips (hlayout.skips behind (w.toList ++ rest)) (h.stops hrest)
  refine ⟨h.ne_nil, ?_, ?_, hrest⟩
  · rw [hskip]
    exact ⟨rfl, rfl⟩
  · rw [hskip]
    exact hbehind

/-! ## Separated tokens -/

namespace Separated

/-- Tokens stay apart when tabs become spaces. -/
theorem expands {ts : List String} {cs ds : List Char} (h : Separated ts cs)
    (hts : ∀ w ∈ ts, IsLexeme w) (hds : Expands cs ds) : Separated ts ds := by
  induction h generalizing ds with
  | nil =>
    cases hds
    exact .nil
  | last w =>
    rw [hds.eq_of_noTab (hts w List.mem_cons_self).noTab]
    exact .last w
  | @token w ts ch layout cs hch hlayout _ ih =>
    obtain ⟨ds, rfl, hbehind⟩ := hds.of_append_left (hts w List.mem_cons_self).noTab
    rw [← List.cons_append] at hbehind
    obtain ⟨gap, ds, rfl, hgap, hds⟩ := hbehind.of_append
    have hrest := ih (fun w hw => hts w (List.mem_cons_of_mem _ hw)) hds
    cases hgap with
    | tab n hgap =>
      have htab : Cursor.isSeparator '\t' := by decide
      have hspaces := (hlayout.blank htab).expands (hgap.tab n)
      rw [List.replicate_succ, List.cons_append] at hspaces ⊢
      cases hspaces with
      | blank _ hspaces => exact .token w (by decide) hspaces hrest
    | char _ hgap => exact .token w hch (hlayout.expands hgap) hrest

/-- Where separated tokens stand behind layout, the text ahead spells them. -/
theorem spells {ts : List String} {cs : List Char} (h : Separated ts cs)
    (hts : ∀ w ∈ ts, IsLexeme w) {layout behind : List Char} (hlayout : IsLayout layout)
    (hbehind : (layout.reverse ++ behind).head?.any Cursor.touchesKeyword = false) :
    Cursor.Spells ⟨behind, layout ++ cs⟩ ts := by
  induction h generalizing layout behind with
  | nil =>
    exact congrArg Cursor.ahead
      (Cursor.skip_eq_of_skips (hlayout.skips behind []) ⟨by simp, by simp⟩)
  | last w =>
    have hend : ∀ ch ∈ ([] : List Char).head?, Cursor.isSeparator ch := by simp
    have hshows := (hts w List.mem_cons_self).shows hlayout hbehind hend
    rw [List.append_nil] at hshows
    exact ⟨_, hshows, rfl⟩
  | @token w ts ch layout' cs hch hlayout' hrest ih =>
    have hgap : IsLayout (ch :: layout') := .blank hch hlayout'
    refine ⟨_, (hts w List.mem_cons_self).shows hlayout hbehind ?_, ?_⟩
    · intro ch' hch'
      rwa [← Option.some.inj hch']
    · exact ih (fun v hv => hts v (List.mem_cons_of_mem _ hv)) hgap
        (hgap.noTouch_behind (List.cons_ne_nil _ _) _)

end Separated

/-- Tokens with a space behind each. -/
def spaced : List String → List Char
  | [] => []
  | w :: ts => w.toList ++ ' ' :: spaced ts

/-- Tokens with a blank behind each stand apart. -/
theorem separated_spaced (ts : List String) : Separated ts (spaced ts) := by
  induction ts with
  | nil => exact .nil
  | cons w ts ih => exact .token w (by decide) .nil ih

/-! ## Programs -/

/-- Tokens with a space behind each are spelt as they stand, since none holds a tab. -/
theorem Derives.spells_spaced {p : Phrase} {ts : List String} (h : Derives p ts) :
    (Cursor.start (expandTabs (spaced ts))).Spells ts := by
  have hlexeme := h.isLexeme
  have htab : '\t' ∉ spaced ts := by
    clear h
    induction ts with
    | nil => simp [spaced]
    | cons w ts ih =>
      obtain ⟨hw, hts⟩ := List.forall_mem_cons.1 hlexeme
      simp [spaced, hw.noTab, ih hts]
  rw [(expands_expandTabs _).eq_of_noTab htab]
  exact (separated_spaced ts).spells hlexeme .nil rfl

/-- The grammar is unambiguous: tokens derive one program at most, up to places. -/
theorem Derives.unplacedAll_eq {ss ss' : List Tree} {ts : List String}
    (h : Derives (.statements ss) ts) (h' : Derives (.statements ss') ts) :
    Tree.unplacedAll ss = Tree.unplacedAll ss' := by
  -- both are what is read from one text
  have hspells := h.spells_spaced
  rw [← List.append_nil ts] at hspells
  obtain ⟨read, d, hread, hsame, -⟩ := h.isRead "" _ _ _ [] (Nat.lt_succ_self _) (Nat.le_refl _)
    hspells (by simp)
  obtain ⟨read', d', hread', hsame', -⟩ := h'.isRead "" _ _ _ [] (Nat.lt_succ_self _)
    (Nat.le_refl _) hspells (by simp)
  rw [hread] at hread'
  obtain ⟨rfl, -⟩ := Prod.mk.inj (Except.ok.inj hread')
  rw [← hsame, hsame']

namespace Tree

/-- A text without tabs is the expression that is read from it up to its end. -/
theorem ofExpression_of_read {filename : String} {cs : List Char} {e : Tree} {d : Cursor}
    (htab : '\t' ∉ cs) (hread : readExpression filename (Cursor.start cs) = .ok (e, d))
    (hd : d.skip.ahead = []) : ofExpression filename cs = .ok e := by
  have hdone : expectEnd d = .ok () := if_pos hd
  rw [ofExpression, (expands_expandTabs cs).eq_of_noTab htab, hread, ok_bind]
  simp only [hdone]
  rfl

/-- A text that spells the tokens of a program, once its tabs are expanded, is read as that program
up to places. -/
theorem exists_ofProgram_of_spells {ss : List Tree} {ts : List String} {cs : List Char}
    (h : Derives (.statements ss) ts) (hcs : (Cursor.start (expandTabs cs)).Spells ts)
    (filename : String) :
    ∃ r, ofProgram filename cs = .ok r ∧ r.unplaced = (program ss).unplaced := by
  rw [← List.append_nil ts] at hcs
  obtain ⟨ss', d, hread, hsame, hd, -⟩ := h.isRead filename _ _ _ [] (Nat.lt_succ_self _)
    (Nat.le_refl _) hcs (by simp)
  have hdone : expectEnd d = .ok () := if_pos hd
  refine ⟨program ss', ?_, by rw [unplaced, unplaced, hsame]⟩
  rw [ofProgram]
  simp only [readStatements, hread, ok_bind, hdone]
  rfl

/-- Every program whose names, numbers and operators can be written has a text: some tokens with a
space behind each are read as it up to places, and they are no derivation of another program. -/
theorem exists_ofProgram_of_areWritable {ss : List Tree} (h : AreWritableStatements ss) :
    ∃ ts, Derives (.statements ss) ts ∧
      (∀ filename, ∃ r, ofProgram filename (spaced ts) = .ok r ∧
        r.unplaced = (program ss).unplaced) ∧
      ∀ ss', Derives (.statements ss') ts → unplacedAll ss' = unplacedAll ss := by
  obtain ⟨ts, hts⟩ := exists_derives_statements ss h
  refine ⟨ts, hts, exists_ofProgram_of_spells hts (hts.spells_spaced), fun ss' h' => ?_⟩
  exact h'.unplacedAll_eq hts

/-- Every text that writes the tokens of a program apart, whatever the layout between them and
whichever parentheses are set, is accepted and read as that program up to places. -/
theorem ofProgram_of_derives {ss : List Tree} {ts : List String} {layout cs : List Char}
    (h : Derives (.statements ss) ts) (hlayout : IsLayout layout) (hcs : Separated ts cs)
    (filename : String) : ∃ r, ofProgram filename (layout ++ cs) = .ok r ∧
      r.unplaced = (program ss).unplaced := by
  obtain ⟨layout', cs', hexpand, hlayout', hcs'⟩ := (expands_expandTabs (layout ++ cs)).of_append
  have hlexeme := h.isLexeme
  have hend := hlayout.expands hlayout'
  have hbehind : (layout'.reverse ++ []).head?.any Cursor.touchesKeyword = false := by
    rw [List.append_nil, List.head?_reverse]
    cases hlast : layout'.getLast? with
    | none => rfl
    | some last => exact Cursor.noTouch_of_isSeparator (hend.isSeparator_last last hlast)
  refine exists_ofProgram_of_spells h ?_ filename
  rw [hexpand]
  exact (hcs.expands hlexeme hcs').spells hlexeme hend hbehind

/-- `x = -(a) ** 2;`, where the power is negated and the parentheses are not needed. -/
def negatedPower : Tree :=
  let name (x : String) := token ⟨x, none⟩
  assignment (name "x")
    (unary "-" (binary "**" (name "a") (number (Numeral.value ⟨['2'], [], none⟩))))

theorem ofProgram_negatedPower :
    Derives (.statements [negatedPower]) ["x", "=", "-", "(", "a", ")", "**", "2", ";"] ∧
      IsLayout "// power\n".toList ∧
      Separated ["x", "=", "-", "(", "a", ")", "**", "2", ";"]
        "x = -\t( a ) ** 2 // two\n;".toList ∧
      ∃ r, ofProgram "power" ("// power\n".toList ++ "x = -\t( a ) ** 2 // two\n;".toList) = .ok r ∧
        r.unplaced = (program [negatedPower]).unplaced := by
  have hx : IsName "x" :=
    isName_of_noPrefix (by decide) (by decide +kernel) (by decide +kernel) (by decide)
  have ha : IsName "a" :=
    isName_of_noPrefix (by decide) (by decide +kernel) (by decide +kernel) (by decide)
  have htwo : Numeral.IsWellFormed ⟨['2'], [], none⟩ :=
    ⟨by decide, by decide +kernel, by decide, by simp⟩
  have hpower : Derives (.expression signLevel (.binary Operator.pow.symbol (.token ⟨"a", none⟩)
      (.number (Numeral.value ⟨['2'], [], none⟩)))) ["(", "a", ")", "**", "2"] :=
    .binary (by decide) (.parentheses (.name ha)) (.numeral htwo)
  have hderives : Derives (.statements [negatedPower])
      ["x", "=", "-", "(", "a", ")", "**", "2", ";"] :=
    .statements (.assignment hx (.sign (by decide) (by decide) hpower)) .noStatements
  have hcomment : ∀ {body : List Char}, '\n' ∉ body →
      IsLayout ('/' :: '/' :: (body ++ '\n' :: [])) := fun hbody => .comment hbody .nil
  have hlayout : IsLayout "// power\n".toList := hcomment (by decide : '\n' ∉ " power".toList)
  have hseparated : Separated ["x", "=", "-", "(", "a", ")", "**", "2", ";"]
      "x = -\t( a ) ** 2 // two\n;".toList :=
    .token "x" (by decide) .nil (.token "=" (by decide) .nil (.token "-" (by decide) .nil
      (.token "(" (by decide) .nil (.token "a" (by decide) .nil (.token ")" (by decide) .nil
        (.token "**" (by decide) .nil (.token "2" (by decide)
          (hcomment (by decide : '\n' ∉ " two".toList)) (.last ";"))))))))
  exact ⟨hderives, hlayout, hseparated, ofProgram_of_derives hderives hlayout hseparated "power"⟩

end Tree
end Quill
