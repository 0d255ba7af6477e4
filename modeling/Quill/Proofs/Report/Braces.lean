import Quill.Proofs.Grammar.Layout
import Quill.Proofs.Grammar.Soundness
import Quill.Proofs.Text.Place
import Quill.Report.Suggestion

/-!
# Braces and blocks

To name the block that is not closed, reports scan the text for braces by themselves, skipping
comments, while the reader nests statements. Both see the same braces: those that the reader passes
between tokens stand in comments, and of its tokens only the braces themselves have any. So whatever
is derived closes the braces that it opens, and the braces still open are those of the blocks that
the reader has entered.

## Main definitions

* `Report.lineBraces line cs` — the braces of a text with their lines.
* `Cursor.openLines stack c` — the lines of the braces that are open at the end of the text, if
  those of the stack are open at the place.
* `Closes ts` — the tokens close the braces that they open.
-/

namespace Quill

open Text

namespace Report

/-! ## The lines of braces -/

/-- The braces of a text with their lines, counted from `line`, without those in comments. -/
def lineBraces : Nat → List Char → List (Char × Nat)
  | _, [] => []
  | line, ch :: cs =>
    if ch = '/' ∧ cs.head? = some '/' then lineBracesInComment line cs
    else if ch = '\x7b' ∨ ch = '\x7d' then (ch, line) :: lineBraces line cs
    else lineBraces (line + countBreaks [ch]) cs
where
  /-- The braces behind the end of a comment. -/
  lineBracesInComment : Nat → List Char → List (Char × Nat)
    | _, [] => []
    | line, ch :: cs =>
      if ch = '\n' then lineBraces (line + 1) cs else lineBracesInComment line cs

theorem lineBracesInComment_eq (line : Nat) (cs : List Char) :
    lineBraces.lineBracesInComment line cs = lineBraces line (cs.dropWhile (· ≠ '\n')) := by
  induction cs with
  | nil => rfl
  | cons ch cs ih =>
    by_cases hch : ch = '\n'
    · subst hch
      simp [lineBraces.lineBracesInComment, lineBraces, countBreaks]
    · simp [lineBraces.lineBracesInComment, hch, ih]

theorem lineAt_append_length (before rest : List Char) :
    lineAt (before ++ rest) before.length = countBreaks before + 1 := by
  simp [lineAt, upTo_natCast]

/-- The braces of a text are found at their lines. -/
theorem map_braces (before cs : List Char) :
    (braces before.length cs).map (fun b => (b.1, lineAt (before ++ cs) b.2)) =
      lineBraces (countBreaks before + 1) cs := by
  -- a comment may begin with each character, so both scans are followed
  suffices h : (braces before.length cs).map (fun b => (b.1, lineAt (before ++ cs) b.2)) =
      lineBraces (countBreaks before + 1) cs ∧
        (braces.bracesInComment before.length cs).map (fun b => (b.1, lineAt (before ++ cs) b.2)) =
          lineBraces.lineBracesInComment (countBreaks before + 1) cs from h.1
  induction cs generalizing before with
  | nil => exact ⟨rfl, rfl⟩
  | cons ch cs ih =>
    obtain ⟨hbraces, hcomment⟩ := ih (before ++ [ch])
    rw [List.append_assoc, List.singleton_append, List.length_append, List.length_singleton]
      at hbraces hcomment
    have hbreaks : countBreaks (before ++ [ch]) = countBreaks before + countBreaks [ch] :=
      List.count_append
    rw [hbreaks] at hbraces hcomment
    refine ⟨?_, ?_⟩
    · unfold braces lineBraces
      split
      · rename_i hstrokes
        rw [hcomment, hstrokes.1]
        rfl
      · split
        · rename_i hbrace
          have hnoBreak : countBreaks [ch] = 0 := by rcases hbrace with rfl | rfl <;> rfl
          rw [hnoBreak] at hbraces
          rw [List.map_cons, lineAt_append_length, hbraces]
        · rw [hbraces, Nat.add_right_comm]
    · unfold braces.bracesInComment lineBraces.lineBracesInComment
      split
      · rename_i hbreak
        rw [hbraces, hbreak]
        rfl
      · rename_i hbreak
        have hnoBreak : countBreaks [ch] = 0 := by simp [countBreaks, hbreak]
        rw [hcomment, hnoBreak]

/-- Which braces stay open does not depend on what is noted of them. -/
theorem map_openAfter (f : Nat → Nat) (stack : List Nat) (bs : List (Char × Nat)) :
    (openAfter stack bs).map f = openAfter (stack.map f) (bs.map fun b => (b.1, f b.2)) := by
  induction bs generalizing stack with
  | nil => rfl
  | cons b bs ih =>
    obtain ⟨ch, n⟩ := b
    simp only [openAfter, List.map_cons]
    split <;> simp [ih]

end Report

/-- Tabs stand neither for braces nor in their way. -/
theorem Expands.lineBraces {cs ds : List Char} (h : Expands cs ds) (line : Nat) :
    Report.lineBraces line cs = Report.lineBraces line ds := by
  have hspaces : ∀ line n ds, Report.lineBraces line (List.replicate n ' ' ++ ds) =
      Report.lineBraces line ds ∧
        Report.lineBraces.lineBracesInComment line (List.replicate n ' ' ++ ds) =
          Report.lineBraces.lineBracesInComment line ds := by
    intro line n ds
    induction n with
    | zero => exact ⟨rfl, rfl⟩
    | succ n ih => exact ih
  suffices h : Report.lineBraces line cs = Report.lineBraces line ds ∧
      Report.lineBraces.lineBracesInComment line cs =
        Report.lineBraces.lineBracesInComment line ds from h.1
  induction h generalizing line with
  | nil => exact ⟨rfl, rfl⟩
  | tab n h ih =>
    obtain ⟨hbraces, hcomment⟩ := hspaces line (n + 1) _
    rw [hbraces, hcomment]
    exact ih line
  | @char ch cs ds hch h ih =>
    have hhead : cs.head? = some '/' ↔ ds.head? = some '/' := h.head? (by decide) (by decide)
    have hbraces := fun line => (ih line).1
    have hcomment := fun line => (ih line).2
    simp only [Report.lineBraces, Report.lineBraces.lineBracesInComment, hhead, hbraces, hcomment,
      and_self]

/-! ## Braces at a cursor -/

/-- A character that is neither a brace nor a stroke of a comment. -/
def IsNeutral (ch : Char) : Prop := ch ≠ '\x7b' ∧ ch ≠ '\x7d' ∧ ch ≠ '/'

instance (ch : Char) : Decidable (IsNeutral ch) := inferInstanceAs (Decidable (_ ∧ _ ∧ _))

/-- Words and numerals have neither braces nor strokes. -/
theorem isNeutral_of_isWordChar {ch : Char} (h : isWordChar ch ∨ isDigit ch) : IsNeutral ch := by
  have hsymbol {x : Char} (hx : IsSymbolChar x) : ch ≠ x := by
    rintro rfl
    simp [hx.1, hx.2.1] at h
  exact ⟨hsymbol (isSymbolChar_of_singleton _ (by decide)),
    hsymbol (isSymbolChar_of_singleton _ (by decide)), hsymbol isSymbolChar_stroke⟩

/-- A token that is a brace. -/
def IsBrace (w : String) : Prop := w = "\x7b" ∨ w = "\x7d"

instance (w : String) : Decidable (IsBrace w) := inferInstanceAs (Decidable (_ ∨ _))

theorem notBrace_of_isNeutral {w : String} (h : ∀ ch ∈ w.toList, IsNeutral ch) : ¬ IsBrace w := by
  rintro (rfl | rfl)
  · exact (h '\x7b' (by decide)).1 rfl
  · exact (h '\x7d' (by decide)).2.1 rfl

theorem IsName.isNeutral {w : String} (h : IsName w) : ∀ ch ∈ w.toList, IsNeutral ch :=
  fun ch hch => isNeutral_of_isWordChar (.inl (h.isWordChar ch hch))

theorem Numeral.IsWellFormed.isNeutral {n : Numeral} (h : n.IsWellFormed) :
    ∀ ch ∈ (String.ofList n.text).toList, IsNeutral ch := by
  rw [String.toList_ofList]
  exact h.forall_mem_text (fun _ hch => isNeutral_of_isWordChar (.inr hch)) (by decide) (by decide)

namespace Cursor

/-- The lines of the braces that are open at the end of the text, innermost first, if those of the
stack are open here. -/
def openLines (c : Cursor) (stack : List Nat) : List Nat :=
  Report.openAfter stack (Report.lineBraces c.line c.ahead)

/-- Tabs do not matter. -/
theorem openLines_of_expands {cs ds : List Char} (h : Expands cs ds) (stack : List Nat) :
    (start cs).openLines stack = (start ds).openLines stack :=
  congrArg (Report.openAfter stack) (h.lineBraces 1)

/-- A character that is no brace and begins no comment is passed. -/
theorem Takes.openLines_singleton {c d : Cursor} {ch : Char} (h : c.Takes [ch] d)
    (hopen : ch ≠ '\x7b') (hclose : ch ≠ '\x7d') (hstroke : ch = '/' → '/' ∉ d.ahead.head?)
    (stack : List Nat) : c.openLines stack = d.openLines stack := by
  have hcomment : ¬ (ch = '/' ∧ d.ahead.head? = some '/') := fun h => hstroke h.1 h.2
  rw [openLines, openLines, h.ahead, h.line, List.singleton_append, Report.lineBraces,
    if_neg hcomment, if_neg (not_or.2 ⟨hopen, hclose⟩)]

/-- Characters that are neither braces nor strokes are passed. -/
theorem Takes.openLines_eq {c d : Cursor} {w : List Char} (h : c.Takes w d)
    (hw : ∀ ch ∈ w, IsNeutral ch) (stack : List Nat) : c.openLines stack = d.openLines stack := by
  induction w generalizing c with
  | nil => rw [openLines, openLines, h.ahead, h.line]; rfl
  | cons ch w ih =>
    obtain ⟨⟨hopen, hclose, hstroke⟩, hw⟩ := List.forall_mem_cons.1 hw
    let e : Cursor := ⟨ch :: c.behind, w ++ d.ahead⟩
    have hfirst : c.Takes [ch] e := ⟨h.ahead, rfl⟩
    have hrest : e.Takes w d := ⟨rfl, by rw [h.behind]; simp [e]⟩
    rw [hfirst.openLines_singleton hopen hclose (fun h => absurd h hstroke), ih hrest hw]

/-- Braces in a comment are not counted. -/
theorem openLines_of_comment? {c d : Cursor} (h : c.comment? = some d) (stack : List Nat) :
    c.openLines stack = d.openLines stack := by
  obtain ⟨rest, hrest, rfl⟩ := comment?_eq_some_iff.1 h
  have htakes : c.Takes ('/' :: '/' :: rest.takeWhile (· ≠ '\n'))
      ⟨(rest.takeWhile (· ≠ '\n')).reverse ++ '/' :: '/' :: c.behind, rest.dropWhile (· ≠ '\n')⟩ :=
    ⟨by simp [hrest], by simp⟩
  have hnoBreak : countBreaks ('/' :: '/' :: rest.takeWhile (· ≠ '\n')) = 0 := by
    have hnone : '\n' ∉ rest.takeWhile (· ≠ '\n') := fun hmem => by
      simpa using mem_of_takeWhile _ hmem
    exact List.count_eq_zero.2 (by simpa using hnone)
  have hbraces : Report.lineBraces c.line ('/' :: '/' :: rest) =
      Report.lineBraces c.line (rest.dropWhile (· ≠ '\n')) :=
    Report.lineBracesInComment_eq c.line rest
  rw [openLines, openLines, htakes.line, hnoBreak, hrest, hbraces]
  rfl

/-- Blanks and comments are passed. -/
theorem Skips.openLines_eq {c d : Cursor} (h : c.Skips d) (stack : List Nat) :
    c.openLines stack = d.openLines stack := by
  have hneutral : ∀ {ch}, isSeparator ch → IsNeutral ch := by
    intro ch hch
    refine ⟨?_, ?_, ?_⟩ <;> rintro rfl <;> cases hch
  induction h with
  | stay c => rfl
  | @blank behind ch ahead d hch _ ih =>
    have htakes : Takes ⟨behind, ch :: ahead⟩ [ch] ⟨ch :: behind, ahead⟩ := ⟨rfl, rfl⟩
    rw [htakes.openLines_eq (by simpa using hneutral hch), ih]
  | comment he _ ih => rw [openLines_of_comment? he, ih]

/-- Blanks and comments open and close nothing. -/
theorem openLines_skip (c : Cursor) (stack : List Nat) :
    c.skip.openLines stack = c.openLines stack :=
  ((skips_skip c).openLines_eq stack).symm

theorem openLines_of_end {c : Cursor} (h : c.skip.ahead = []) (stack : List Nat) :
    c.openLines stack = stack := by
  rw [← openLines_skip, openLines, h]
  rfl

/-! ## Braces of tokens -/

/-- The tokens of the reader have neither braces nor strokes, but the braces themselves and the
operator of division. -/
theorem Finds.isNeutral {c d : Cursor} {w : String} (h : c.Finds w d) (hw : ¬ IsBrace w) :
    (∀ ch ∈ w.toList, IsNeutral ch) ∨ w = "/" := by
  have hkeywords : ∀ k ∈ keywords, ∀ ch ∈ k.toList, IsNeutral ch := by decide
  have hpunctuation : ∀ s ∈ Quill.punctuation, IsBrace s ∨ ∀ ch ∈ s.toList, IsNeutral ch := by
    decide
  have hoperators : ∀ s ∈ operatorSymbols, (∀ ch ∈ s.toList, IsNeutral ch) ∨ s = "/" := by decide
  cases h with
  | numeral h => exact .inl (Numeral.isWellFormed_of_scan? (numeral?_eq_some_iff.1 h).1).isNeutral
  | keyword hk _ => exact .inl (hkeywords _ hk)
  | name _ ht => exact .inl ht.isNeutral
  | punctuation hs _ => exact .inl ((hpunctuation _ hs).resolve_left hw)
  | operator hs _ _ => exact hoperators _ hs

/-- A token that is no brace opens and closes nothing. -/
theorem Finds.openLines_eq {c d : Cursor} {w : String} (h : c.Finds w d) (hw : ¬ IsBrace w)
    (stack : List Nat) : c.openLines stack = d.openLines stack := by
  rw [← openLines_skip]
  rcases h.isNeutral hw with hneutral | rfl
  · exact h.takes.openLines_eq hneutral stack
  · refine h.takes.openLines_singleton (by decide) (by decide) ?_ stack
    rintro - hstroke
    -- two strokes would have been passed as a comment
    obtain ⟨rest, hrest⟩ := List.head?_eq_some_iff.1 hstroke
    exact c.stops_skip.noComment rest (by rw [h.takes.ahead, hrest]; rfl)

/-- An opening brace opens a block on its line. -/
theorem Finds.openLines_open {c d : Cursor} (h : c.Finds "\x7b" d) (stack : List Nat) :
    c.openLines stack = d.openLines (c.skip.line :: stack) := by
  rw [← openLines_skip, openLines, openLines, h.takes.line, h.takes.ahead]
  rfl

/-- A closing brace closes the innermost block. -/
theorem Finds.openLines_close {c d : Cursor} (h : c.Finds "\x7d" d) (stack : List Nat) :
    c.openLines stack = d.openLines stack.tail := by
  rw [← openLines_skip, openLines, openLines, h.takes.line, h.takes.ahead]
  rfl

end Cursor

/-! ## Braces of phrases -/

/-- The tokens close the braces that they open. -/
def Closes (ts : List String) : Prop :=
  ∀ (c d : Cursor) (stack : List Nat), c.Spans ts d → c.openLines stack = d.openLines stack

namespace Closes

variable {ts us : List String} {w : String}

theorem nil : Closes [] := by
  rintro c d stack ⟨⟩
  rfl

theorem cons (hw : ¬ IsBrace w) (h : Closes ts) : Closes (w :: ts) := by
  rintro c d stack (_ | ⟨hfinds, hs⟩)
  rw [hfinds.openLines_eq hw, h _ _ _ hs]

theorem append (h : Closes ts) (h' : Closes us) : Closes (ts ++ us) := by
  intro c d stack hs
  obtain ⟨b, hts, hus⟩ := hs.of_append
  rw [h _ _ _ hts, h' _ _ _ hus]

/-- What closes all it opens does so inside of braces, and in front of more such tokens. -/
theorem block (h : Closes ts) (h' : Closes us) : Closes ("\x7b" :: (ts ++ "\x7d" :: us)) := by
  rintro c d stack (_ | ⟨hopen, hs⟩)
  obtain ⟨b, hts, hus⟩ := hs.of_append
  cases hus with
  | token hclose hus =>
    rw [hopen.openLines_open, h _ _ _ hts, hclose.openLines_close, List.tail_cons, h' _ _ _ hus]

end Closes

/-- Whatever is derived closes the braces that it opens. -/
theorem Derives.closes {p : Phrase} {ts : List String} (h : Derives p ts) : Closes ts := by
  have hsymbol : ∀ op : Operator, ¬ IsBrace op.symbol := by
    intro op
    cases op <;> decide
  have hsign : ∀ s ∈ signSymbols, ¬ IsBrace s := by decide
  have hname {w : String} (hw : IsName w) : ¬ IsBrace w := notBrace_of_isNeutral hw.isNeutral
  have hnil := Closes.nil
  have hsemicolon : Closes [";"] := .cons (by decide) hnil
  induction h with
  | numeral hn => exact .cons (notBrace_of_isNeutral hn.isNeutral) hnil
  | truth | falsehood => exact .cons (by decide) hnil
  | name ht => exact .cons (hname ht) hnil
  | call ht _ ih =>
    exact .cons (hname ht) (.cons (by decide) (ih.append (.cons (by decide) hnil)))
  | parentheses _ ih => exact .cons (by decide) (ih.append (.cons (by decide) hnil))
  | binary _ _ _ ihl ihr => exact ihl.append (.cons (hsymbol _) ihr)
  | sign _ hs _ ih => exact .cons (hsign _ hs) ih
  | conditional _ _ _ _ ihe iha ihb =>
    exact ihe.append (.cons (by decide) (iha.append (.cons (by decide) ihb)))
  | noArguments | noMoreArguments | noParameters | noMoreParameters | noStatements => exact hnil
  | arguments _ _ ihe ihes => exact ihe.append ihes
  | moreArguments _ _ ihe ihes => exact .cons (by decide) (ihe.append ihes)
  | parameters ht _ ih => exact .cons (hname ht) ih
  | moreParameters ht _ ih => exact .cons (by decide) (.cons (hname ht) ih)
  | variableDeclaration ht _ ih =>
    exact .cons (by decide) (.cons (hname ht) (.cons (by decide) (ih.append hsemicolon)))
  | functionDeclaration ht _ _ ihps ihe =>
    exact .cons (by decide) (.cons (hname ht) (.cons (by decide) (ihps.append
      (.cons (by decide) (.cons (by decide) (ihe.append hsemicolon))))))
  | assignment ht _ ih => exact .cons (hname ht) (.cons (by decide) (ih.append hsemicolon))
  | print _ ih => exact .cons (by decide) (ih.append hsemicolon)
  | whileLoop _ _ ihe ihbody => exact .cons (by decide) (ihe.append (ihbody.block hnil))
  | statements _ _ ihs ihss => exact ihs.append ihss

end Quill
