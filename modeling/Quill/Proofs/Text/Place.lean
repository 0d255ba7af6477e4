import Mathlib.Data.List.Forall2
import Quill.Proofs.Grammar.Tabs
import Quill.Report.Context

/-!
# Lines and places

The line and the column of a cursor are those of its offset, and the line they name is made of the
rest of the line behind the cursor and the rest of the line ahead of it. Replacing tabs works line
by line, and leaves what stands before the first tab of a line where it is.

## Main definitions

* `Span.charsIn? s cs` — the characters that a span covers in a text.
-/

namespace Quill

open Text

namespace Text

/-! ## Lines -/

theorem lines_break (cs : List Char) : lines ('\n' :: cs) = [] :: lines cs := by
  simp [lines]

/-- A text without line feeds goes in front of the first line. -/
theorem lines_append_of_noBreak {w cs l : List Char} {ls : List (List Char)} (hw : '\n' ∉ w)
    (h : lines cs = l :: ls) : lines (w ++ cs) = (w ++ l) :: ls := by
  induction w with
  | nil => exact h
  | cons c w ih =>
    rw [List.mem_cons, not_or] at hw
    simp [lines, ih hw.2, Ne.symm hw.1]

theorem lines_cons {c : Char} {cs l : List Char} {ls : List (List Char)} (hc : c ≠ '\n')
    (h : lines cs = l :: ls) : lines (c :: cs) = (c :: l) :: ls :=
  lines_append_of_noBreak (w := [c]) (by simpa using Ne.symm hc) h

/-- A text has one line more than line breaks. -/
theorem length_lines (cs : List Char) : (lines cs).length = countBreaks cs + 1 := by
  induction cs with
  | nil => rfl
  | cons c cs ih =>
    by_cases hc : c = '\n'
    · subst hc
      simp [lines_break, ih, countBreaks]
    · obtain ⟨l, ls, hlines⟩ := List.exists_cons_of_ne_nil (lines_ne_nil cs)
      rw [lines_cons hc hlines]
      rw [hlines] at ih
      simpa [countBreaks, hc] using ih

theorem head?_lines (cs : List Char) : (lines cs).head? = some (cs.takeWhile (· ≠ '\n')) := by
  induction cs with
  | nil => rfl
  | cons c cs ih =>
    by_cases hc : c = '\n'
    · subst hc
      simp [lines_break]
    · obtain ⟨l, ls, hlines⟩ := List.exists_cons_of_ne_nil (lines_ne_nil cs)
      rw [lines_cons hc hlines]
      rw [hlines] at ih
      simpa [hc] using ih

/-- A line break ends a line. -/
theorem lines_append_break (cs ds : List Char) :
    lines (cs ++ '\n' :: ds) = lines cs ++ lines ds := by
  induction cs with
  | nil => exact lines_break ds
  | cons c cs ih =>
    obtain ⟨l, ls, hlines⟩ := List.exists_cons_of_ne_nil (lines_ne_nil cs)
    by_cases hc : c = '\n'
    · simp [lines, hc, ih]
    · simp [lines, hc, ih, hlines]

theorem noBreak_of_mem_lines (cs : List Char) : ∀ l ∈ lines cs, '\n' ∉ l := by
  induction cs with
  | nil => simp [lines]
  | cons c cs ih =>
    obtain ⟨l, ls, hlines⟩ := List.exists_cons_of_ne_nil (lines_ne_nil cs)
    by_cases hc : c = '\n'
    · subst hc
      rw [lines_break, List.forall_mem_cons]
      exact ⟨List.not_mem_nil, ih⟩
    · rw [hlines, List.forall_mem_cons] at ih
      rw [lines_cons hc hlines, List.forall_mem_cons, List.mem_cons, not_or]
      exact ⟨⟨Ne.symm hc, ih.1⟩, ih.2⟩

/-- Lines of one piece are found again in the text that they are joined to. -/
theorem lines_intercalate {ls : List (List Char)} (hne : ls ≠ [])
    (hls : ∀ l ∈ ls, '\n' ∉ l) : lines (['\n'].intercalate ls) = ls := by
  induction ls with
  | nil => exact absurd rfl hne
  | cons l ls ih =>
    rw [List.forall_mem_cons] at hls
    have hempty : lines [] = [[]] := rfl
    have hfirst : lines l = [l] := by simpa using lines_append_of_noBreak hls.1 hempty
    cases ls with
    | nil => simpa using hfirst
    | cons l' ls =>
      rw [List.intercalate_cons_cons, List.append_assoc, List.singleton_append,
        lines_append_break, hfirst, ih (List.cons_ne_nil _ _) hls.2]
      rfl

/-! ## Offsets -/

theorem upTo_natCast (cs : List Char) (n : Nat) : upTo cs n = cs.take n := by
  rw [upTo, clampOffset, if_pos (Int.natCast_nonneg n), Int.toNat_natCast, ← List.take_eq_take_min]

end Text

/-- What stands before the first tab stays where it is. -/
theorem Expands.drop {cs ds : List Char} (h : Expands cs ds) {n : Nat} (htab : '\t' ∉ cs.take n) :
    Expands (cs.drop n) (ds.drop n) := by
  rw [← List.take_append_drop n cs] at h
  obtain ⟨rest, rfl, hrest⟩ := h.of_append_left htab
  rcases Nat.le_total n cs.length with hle | hle
  · rwa [List.drop_left' (List.length_take_of_le hle)]
  · rw [List.drop_of_length_le hle] at hrest ⊢
    cases hrest
    rw [List.append_nil, List.drop_of_length_le (List.length_take_le n cs)]
    exact .nil

/-- Tabs are replaced line by line. -/
theorem Expands.lines {cs ds : List Char} (h : Expands cs ds) :
    List.Forall₂ Expands (Text.lines cs) (Text.lines ds) := by
  induction h with
  | nil => exact .cons .nil .nil
  | @tab n cs ds h ih =>
    obtain ⟨l, ls, hl⟩ := List.exists_cons_of_ne_nil (lines_ne_nil cs)
    obtain ⟨l', ls', hl'⟩ := List.exists_cons_of_ne_nil (lines_ne_nil ds)
    rw [hl, hl', List.forall₂_cons] at ih
    rw [lines_cons (by decide) hl, lines_append_of_noBreak (by simp) hl']
    exact .cons (.tab n ih.1) ih.2
  | @char ch cs ds hch h ih =>
    by_cases hbreak : ch = '\n'
    · subst hbreak
      rw [lines_break, lines_break]
      exact .cons .nil ih
    · obtain ⟨l, ls, hl⟩ := List.exists_cons_of_ne_nil (lines_ne_nil cs)
      obtain ⟨l', ls', hl'⟩ := List.exists_cons_of_ne_nil (lines_ne_nil ds)
      rw [hl, hl', List.forall₂_cons] at ih
      rw [lines_cons hbreak hl, lines_cons hbreak hl']
      exact .cons (.char hch ih.1) ih.2

theorem Expands.length_le {cs ds : List Char} (h : Expands cs ds) : cs.length ≤ ds.length := by
  induction h with
  | nil => exact Nat.le_refl _
  | tab n _ ih =>
    rw [List.length_append, List.length_replicate, List.length_cons]
    omega
  | char _ _ ih => exact Nat.succ_le_succ ih

/-- The expansion of tabs keeps line breaks. -/
theorem Expands.countBreaks {cs ds : List Char} (h : Expands cs ds) :
    Text.countBreaks cs = Text.countBreaks ds := by
  have hlength := h.lines.length_eq
  rw [length_lines, length_lines] at hlength
  omega

/-- A character that is no space stands where it stands when tabs are replaced. -/
theorem exists_of_expandTabsFrom {column : Nat} {cs w rest : List Char} {ch : Char} (hch : ch ≠ ' ')
    (h : expandTabsFrom column cs = w ++ ch :: rest) :
    ∃ before after, cs = before ++ ch :: after ∧ expandTabsFrom column before = w := by
  induction cs generalizing column w with
  | nil =>
    rw [expandTabsFrom] at h
    simp at h
  | cons x cs ih =>
    simp only [expandTabsFrom] at h
    split at h
    · rename_i htab
      obtain ⟨w, rfl⟩ : ∃ w', w = List.replicate (tabWidth - column % tabWidth) ' ' ++ w' := by
        rcases List.append_eq_append_iff.1 h with ⟨w', hw, -⟩ | ⟨spaces, hspaces, hrest⟩
        · exact ⟨w', hw⟩
        · cases spaces with
          | nil => exact ⟨[], by rw [hspaces, List.append_nil, List.append_nil]⟩
          | cons y spaces =>
            have hmem : y ∈ List.replicate (tabWidth - column % tabWidth) ' ' := by simp [hspaces]
            rw [List.cons_append] at hrest
            rw [(List.cons.inj hrest).1, List.eq_of_mem_replicate hmem] at hch
            exact absurd rfl hch
      rw [List.append_assoc] at h
      obtain ⟨before, after, rfl, hbefore⟩ := ih (List.append_cancel_left h)
      refine ⟨x :: before, after, rfl, ?_⟩
      simp only [expandTabsFrom, if_pos htab, hbefore]
    · rename_i htab
      cases w with
      | nil => exact ⟨[], cs, by rw [(List.cons.inj h).1]; rfl, rfl⟩
      | cons y w =>
        obtain ⟨rfl, hrest⟩ := List.cons.inj h
        obtain ⟨before, after, rfl, hbefore⟩ := ih hrest
        refine ⟨x :: before, after, rfl, ?_⟩
        simp only [expandTabsFrom, if_neg htab, hbefore]

namespace Cursor

/-! ## The place of a cursor -/

theorem upTo_offset (c : Cursor) : upTo c.text c.offset = c.behind.reverse := by
  simp [upTo_natCast, text, offset]

theorem drop_offset (c : Cursor) : c.text.drop c.offset = c.ahead := by
  rw [text, offset, ← List.length_reverse, List.drop_left]

/-- The line of a place is the line at its offset. -/
theorem lineAt_offset (c : Cursor) : lineAt c.text c.offset = c.line := by
  rw [lineAt, upTo_offset, countBreaks, List.count_reverse, line]

/-- The column of a place is the column at its offset. -/
theorem columnAt_offset (c : Cursor) : columnAt c.text c.offset = c.column := by
  rw [columnAt, upTo_offset, List.reverse_reverse, List.length_reverse, offset, column]
  omega

/-- The end of the text with its tabs replaced is not before the end of the text. -/
theorem length_le_offset {c : Cursor} {cs : List Char} (hc : c.text = expandTabs cs)
    (hend : c.ahead = []) : cs.length ≤ c.offset := by
  rw [text, hend, List.append_nil] at hc
  have hlength := congrArg List.length hc
  rw [List.length_reverse] at hlength
  calc cs.length ≤ (expandTabs cs).length := (expands_expandTabs cs).length_le
    _ = c.offset := hlength.symm

/-- A character that is read, and is no space, stands in the text as it was given on the same
line. -/
theorem exists_of_expandTabs {c : Cursor} {cs : List Char} {ch : Char} (hc : c.text = expandTabs cs)
    (hhead : ch ∈ c.ahead.head?) (hch : ch ≠ ' ') :
    ∃ before after, cs = before ++ ch :: after ∧ expandTabs before = c.behind.reverse ∧
      c.line = before.count '\n' + 1 := by
  obtain ⟨rest, hahead⟩ := List.head?_eq_some_iff.1 hhead
  rw [text, hahead] at hc
  obtain ⟨before, after, hsplit, hbefore⟩ := exists_of_expandTabsFrom hch hc.symm
  refine ⟨before, after, hsplit, hbefore, ?_⟩
  have hbreaks := (expands_expandTabs before).countBreaks
  rw [expandTabs, hbefore, countBreaks, countBreaks, List.count_reverse] at hbreaks
  rw [line, hbreaks]

/-- The line of a cursor is what of it stands behind the cursor, and what stands ahead. -/
theorem getElem?_lines (c : Cursor) :
    (lines c.text)[c.line - 1]? =
      some ((c.behind.takeWhile (· ≠ '\n')).reverse ++ c.ahead.takeWhile (· ≠ '\n')) := by
  obtain ⟨behind, ahead⟩ := c
  induction behind generalizing ahead with
  | nil => simp [text, line, ← List.head?_eq_getElem?, head?_lines]
  | cons ch behind ih =>
    have htext : text ⟨ch :: behind, ahead⟩ = behind.reverse ++ ch :: ahead := by simp [text]
    by_cases hch : ch = '\n'
    · subst hch
      have hindex : line ⟨'\n' :: behind, ahead⟩ - 1 = (lines behind.reverse).length := by
        simp [line, length_lines, countBreaks]
      rw [htext, hindex, lines_append_break, List.getElem?_append_right (Nat.le_refl _),
        Nat.sub_self, ← List.head?_eq_getElem?, head?_lines]
      simp
    · have hprevious := ih (ch :: ahead)
      simpa [text, line, hch] using hprevious

theorem Takes.line {c d : Cursor} {w : List Char} (h : c.Takes w d) :
    d.line = c.line + countBreaks w := by
  rw [Cursor.line, Cursor.line, h.behind, List.count_append, List.count_reverse, countBreaks]
  omega

/-- A name has word characters only. -/
theorem notMem_of_word? {c d : Cursor} {w : List Char} (h : c.word? = some (w, d)) {ch : Char}
    (hch : isWordChar ch = false) : ch ∉ w := by
  obtain ⟨-, -, -, hrun, -⟩ := word?_eq_some_iff.1 h
  intro hmem
  rw [hrun] at hmem
  rw [mem_of_takeWhile ch hmem] at hch
  cases hch

end Cursor

/-! ## Characters of a span -/

/-- The characters that a span covers in a text: as many as it has columns, from its first column
on, of the line it begins in. -/
def Span.charsIn? (s : Span) (cs : List Char) : Option (List Char) :=
  (lines cs)[(s.startLine - 1).toNat]?.map fun line =>
    (line.drop (s.startColumn - 1).toNat).take s.width.toNat

/-- The token of a word covers the word in the text it is read in. -/
theorem Cursor.charsIn?_token {c d : Cursor} {w : List Char} (h : c.Takes w d) (hw : '\n' ∉ w)
    (filename : String) : ∀ s ∈ (c.token filename w).span, s.charsIn? c.text = some w := by
  rintro s ⟨⟩
  have hline : ((c.line : Int) - 1).toNat = c.line - 1 := by omega
  have hcolumn : ((c.column : Int) - 1).toNat = (c.behind.takeWhile (· ≠ '\n')).reverse.length := by
    simp [column]
  have hwidth : ((c.column + w.length : Int) - c.column).toNat = w.length := by omega
  have hrun : c.ahead.takeWhile (· ≠ '\n') = w ++ d.ahead.takeWhile (· ≠ '\n') := by
    rw [h.1, List.takeWhile_append_of_pos]
    simpa using fun ch hch => ne_of_mem_of_not_mem hch hw
  simp only [Span.charsIn?, Span.width, hline, hcolumn, hwidth, getElem?_lines, hrun,
    Option.map_some, List.drop_left, List.take_left]

/-- What a span covers behind a part of its line without tabs, it covers with the tabs in place. -/
theorem Span.charsIn?_of_noTab {s : Span} {cs w : List Char}
    (h : s.charsIn? (expandTabs cs) = some w) (hw : ' ' ∉ w) (hwidth : w.length = s.width.toNat)
    (htab : ∀ line ∈ (lines cs)[(s.startLine - 1).toNat]?,
      '\t' ∉ line.take (s.startColumn - 1).toNat) :
    s.charsIn? cs = some w := by
  obtain ⟨line', hline', hchars⟩ := Option.map_eq_some_iff.1 h
  have hlines := List.forall₂_drop (s.startLine - 1).toNat (expands_expandTabs cs).lines
  rw [← List.head?_drop] at hline' htab
  rw [charsIn?, ← List.head?_drop]
  generalize (lines cs).drop (s.startLine - 1).toNat = before at *
  generalize (lines (expandTabs cs)).drop (s.startLine - 1).toNat = after at *
  cases hlines with
  | nil => cases hline'
  | @cons line _ _ _ hexpands _ =>
    rw [Option.some.inj hline'] at hexpands
    -- no tab comes before the span, so the line goes on there as it does with its tabs replaced
    have hdrop := hexpands.drop (htab line rfl)
    have hrest : line'.drop (s.startColumn - 1).toNat =
        w ++ (line'.drop (s.startColumn - 1).toNat).drop s.width.toNat := by
      rw [← hchars, List.take_append_drop]
    rw [hrest] at hdrop
    obtain ⟨rest, hline, -⟩ := hdrop.of_append_right hw
    rw [List.head?_cons, Option.map_some, hline, ← hwidth, List.take_left]

end Quill
