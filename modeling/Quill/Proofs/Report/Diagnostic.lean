import Quill.Proofs.Grammar.Course
import Quill.Proofs.Grammar.Shape
import Quill.Proofs.Report.Window
import Quill.Proofs.Scope.Resolution
import Quill.Compile

/-!
# The place of a violation

A violation is found at a token that was read, and so its span covers the name of the token in the
text with its tabs replaced. The report marks the same columns of the same line in the text as it
was given. The name stands there if no tab comes before it on its line.

## Main definitions

* `Span.Marks s t cs` — a span marks a token in a text.
-/

namespace Quill

open Text Report

/-! ## Occurrences and leaves -/

namespace Tree

theorem token_mem_of_asName {role : Role} {s : Surroundings} {t : Tree} :
    ∀ o ∈ t.asName role s, token o.token ∈ t.leaves := by
  intro o ho
  cases t with
  | token t =>
    rw [List.mem_singleton.1 ho]
    exact List.mem_singleton_self _
  | _ => cases ho

/-- The occurrences in a list of parameters are tokens of the list. -/
theorem token_mem_of_parameterOccurrences {s : Surroundings} (ps : List Tree) :
    ∀ earlier, ∀ o ∈ parameterOccurrences s earlier ps, token o.token ∈ leavesOfAll ps := by
  induction ps with
  | nil => simp [parameterOccurrences]
  | cons p ps ih =>
    intro earlier o ho
    rcases List.mem_append.1 ho with ho | ho
    · exact List.mem_append_left _ (token_mem_of_asName o ho)
    · exact List.mem_append_right _ (ih _ o ho)

mutual

/-- The names used in an expression are leaves of it. -/
theorem token_mem_of_uses (s : Surroundings) :
    ∀ t : Tree, ∀ o ∈ t.uses s, token o.token ∈ t.leaves
  | token _, o, ho => token_mem_of_asName o ho
  | call callee args, o, ho => by
    simp only [uses, leaves, List.mem_append] at ho ⊢
    rcases ho with ho | ho | ho
    · exact .inl (token_mem_of_asName o ho)
    · exact .inr (token_mem_of_usesInAll s args o ho)
    · exact .inl (token_mem_of_asName o ho)
  | conditional test consequent alternate, o, ho => by
    simp only [uses, leaves, List.mem_append] at ho ⊢
    rcases ho with ho | ho | ho
    · exact .inl (.inl (token_mem_of_uses s test o ho))
    · exact .inl (.inr (token_mem_of_uses s consequent o ho))
    · exact .inr (token_mem_of_uses s alternate o ho)
  | binary _ left right, o, ho => by
    simp only [uses, leaves, List.mem_append] at ho ⊢
    exact ho.imp (token_mem_of_uses s left o) (token_mem_of_uses s right o)
  | unary _ operand, o, ho => token_mem_of_uses s operand o ho
  | absent, _, ho | literal _, _, ho | text _, _, ho | list _, _, ho | entity _, _, ho
  | program _, _, ho | variableDeclaration _ _, _, ho | functionDeclaration _ _ _, _, ho
  | assignment _ _, _, ho | whileLoop _ _, _, ho | print _, _, ho => nomatch ho

theorem token_mem_of_usesInAll (s : Surroundings) :
    ∀ ts : List Tree, ∀ o ∈ usesInAll s ts, token o.token ∈ leavesOfAll ts
  | [], _, ho => nomatch ho
  | t :: ts, o, ho =>
    List.mem_append.2 ((List.mem_append.1 ho).imp (token_mem_of_uses s t o)
      (token_mem_of_usesInAll s ts o))

end

mutual

/-- The names that a statement mentions are leaves of it. -/
theorem token_mem_of_mentions :
    ∀ (t : Tree) (s : Surroundings), ∀ o ∈ t.mentions s, token o.token ∈ t.leaves
  | variableDeclaration name initializer, s, o, ho => by
    simp only [mentions, leaves, List.mem_append] at ho ⊢
    exact ho.symm.imp (token_mem_of_asName o) (token_mem_of_uses s initializer o)
  | functionDeclaration name params body, s, o, ho => by
    simp only [mentions, leaves, List.mem_append] at ho ⊢
    rcases ho with ho | ho | ho
    · exact .inl (.inl (token_mem_of_asName o ho))
    · exact .inl (.inr (token_mem_of_parameterOccurrences params [] o ho))
    · exact .inr (token_mem_of_uses _ body o ho)
  | assignment target source, s, o, ho => by
    simp only [mentions, leaves, List.mem_append] at ho ⊢
    exact ho.imp (token_mem_of_asName o) (token_mem_of_uses s source o)
  | whileLoop test body, s, o, ho => by
    simp only [mentions, leaves, List.mem_append] at ho ⊢
    exact ho.imp (token_mem_of_uses s test o) (token_mem_of_mentionsInAll body s o)
  | print argument, s, o, ho => token_mem_of_uses s argument o ho
  | absent, _, _, ho | literal _, _, _, ho | text _, _, _, ho | list _, _, _, ho
  | token _, _, _, ho | entity _, _, _, ho | program _, _, _, ho | call _ _, _, _, ho
  | conditional _ _ _, _, _, ho | binary _ _ _, _, _, ho | unary _ _, _, _, ho => nomatch ho

/-- The occurrences in statements are tokens of the statements. -/
theorem token_mem_of_mentionsInAll :
    ∀ (ts : List Tree) (s : Surroundings), ∀ o ∈ mentionsInAll ts s, token o.token ∈ leavesOfAll ts
  | [], _, _, ho => nomatch ho
  | t :: ts, s, o, ho =>
    List.mem_append.2 ((List.mem_append.1 ho).imp (token_mem_of_mentions t s o)
      (token_mem_of_mentionsInAll ts (t.after s) o))

end

/-- The names that a program mentions are leaves of it. -/
theorem token_mem_of_occurrences (p : Tree) :
    ∀ o ∈ p.occurrences, token o.token ∈ p.leaves := by
  cases p with
  | program statements => exact token_mem_of_mentionsInAll statements _
  | _ => simp [occurrences]

end Tree

/-! ## Violations in a text -/

/-- A span marks a token: in the text as it is read it covers the name of the token, also with its
tabs in place if none comes before on the line, and the report puts its marker below this line. -/
structure Span.Marks (s : Span) (t : Token) (cs : List Char) : Prop where
  oneLine : s.startLine = s.endLine
  width : s.width = t.value.toList.length
  covers : s.charsIn? (expandTabs cs) = some t.value.toList
  coversSource : (∀ line ∈ (lines cs)[(s.startLine - 1).toNat]?,
    '\t' ∉ line.take (s.startColumn - 1).toNat) → s.charsIn? cs = some t.value.toList
  rows : ∃ line before after, (lines cs)[(s.startLine - 1).toNat]? = some line ∧
    contextRows cs s.startLine s.startColumn diagnosticContextLines s.width =
      before ++ numberedLine s.startLine.toNat line :: markerRow s.startColumn s.width :: after

/-- The span of a name that is read marks the name. -/
theorem Cursor.marks_token {c d : Cursor} {w cs : List Char} (hw : c.word? = some (w, d))
    (hcs : c.text = expandTabs cs) (filename : String) :
    ∃ s, (c.token filename w).span = some s ∧ s.Marks (c.token filename w) cs := by
  obtain ⟨-, -, -, -, htakes⟩ := word?_eq_some_iff.1 hw
  have hvalue : (c.token filename w).value.toList = w := String.toList_ofList
  have hcovers := charsIn?_token htakes (notMem_of_word? hw (by decide +kernel)) filename _ rfl
  rw [hcs] at hcovers
  have hwidth : (c.column + w.length : Int) - c.column = w.length := by omega
  have hlength : w.length = ((c.column + w.length : Int) - c.column).toNat := by omega
  refine ⟨_, rfl, rfl, ?_, ?_, ?_, ?_⟩
  · rw [hvalue]
    exact hwidth
  · rw [hvalue]
    exact hcovers
  · rw [hvalue]
    exact Span.charsIn?_of_noTab hcovers (notMem_of_word? hw (by decide +kernel)) hlength
  · -- the lines of the text are as many as those of the text that is read
    have hlt : c.line - 1 < (lines cs).length := by
      rw [(expands_expandTabs cs).lines.length_eq, ← hcs]
      exact (List.getElem?_eq_some_iff.1 c.getElem?_lines).1
    have hline : ((c.line : Int) - 1).toNat = c.line - 1 := by omega
    have hrows := contextRows_eq (List.getElem?_eq_getElem hlt) 1 c.column
      (c.column + w.length - c.column)
    refine ⟨_, _, _, ?_, hrows⟩
    rw [hline, List.getElem?_eq_getElem hlt]

namespace Tree

/-- What is read of a text is the program in it. -/
theorem ofProgram_of_read {filename source : String} {p : Tree}
    (h : Tree.read filename source = .ok p) : ofProgram filename source.toList = .ok p := by
  unfold Tree.read at h
  cases hread : ofProgram filename source.toList with
  | ok q =>
    rw [hread] at h
    exact congrArg Except.ok (Except.ok.inj h)
  | error f =>
    rw [hread] at h
    cases h

/-- Every token of a program that is read is marked by its span. -/
theorem exists_marks_of_read {filename source : String} {p : Tree}
    (h : Tree.read filename source = .ok p) {t : Token} (ht : token t ∈ p.leaves) :
    ∃ s, t.span = some s ∧ s.Marks t source.toList := by
  obtain ⟨d, hbears⟩ := bears_of_ofProgram (ofProgram_of_read h)
  obtain ⟨b, e, hleads, hholds⟩ := hbears.exists_holds _ ht
  cases hholds with
  | name hw => exact Cursor.marks_token hw hleads.text_eq filename

/-- A program that is read and then rejected breaks a rule at one of its names, and the diagnostic
marks this name. -/
theorem marks_of_resolve_error {filename source : String} {p : Tree} {e : ResolveError}
    (h : Tree.read filename source = .ok p) (he : p.resolve = .error e) :
    ∃ v o s, e = .violation v ∧ o ∈ p.occurrences ∧ o.violation? = some v ∧
      v.diagnostic.span = some s ∧ s.Marks o.token source.toList := by
  rw [resolve_eq (isProgram_of_ofProgram (ofProgram_of_read h))] at he
  obtain hcheck | ⟨_, -, he⟩ := bind_eq_error_iff.1 he
  · obtain ⟨v, o, rfl, ho, hv⟩ := Occurrence.exists_violation_of_check hcheck
    obtain ⟨s, hs, hmarks⟩ := exists_marks_of_read h (token_mem_of_occurrences p o ho)
    obtain ⟨cause, -, rfl⟩ := Option.map_eq_some_iff.1 hv
    exact ⟨_, o, s, rfl, ho, hv, hs, hmarks⟩
  · cases he

/-- A text with a tab on another line than the name that is not declared. -/
def undeclared : String := "let x = 1;\t// one\n while x < π \x7bprint y;\x7d"

theorem marks_undeclared :
    ∃ p v, Tree.read "undeclared" undeclared = .ok p ∧ p.resolve = .error (.violation v) ∧
      ∃ o s, o ∈ p.occurrences ∧ o.violation? = some v ∧ v.diagnostic.span = some s ∧
        s.Marks o.token undeclared.toList ∧
        s.charsIn? undeclared.toList = some o.token.value.toList := by
  obtain ⟨p, hread, he⟩ : ∃ p, Tree.read "undeclared" undeclared = .ok p ∧
      p.resolve = .error (.violation
        ⟨.notDeclared "y", some ⟨"undeclared", 2, 21, 2, 22, "y"⟩⟩) := ⟨_, rfl, rfl⟩
  obtain ⟨v, o, s, hv, ho, hov, hs, hmarks⟩ := marks_of_resolve_error hread he
  obtain rfl := ResolveError.violation.inj hv
  obtain rfl := Option.some.inj hs
  exact ⟨p, _, hread, he, o, _, ho, hov, rfl, hmarks, hmarks.coversSource (by decide +kernel)⟩

/-- Behind a tab the columns of a name are those that it has with spaces in place of the tab. -/
theorem marked_behind_tab :
    ∃ p v o s, Tree.read "tab" "\tprint x;" = .ok p ∧ p.resolve = .error (.violation v) ∧
      o ∈ p.occurrences ∧ o.violation? = some v ∧ v.span = some s ∧
      o.token.value.toList = ['x'] ∧ s.charsIn? "\tprint x;".toList = some [] :=
  ⟨_, _, ⟨.value, ⟨"x", some ⟨"tab", 1, 15, 1, 16, "x"⟩⟩, .initial⟩, ⟨"tab", 1, 15, 1, 16, "x"⟩,
    rfl, rfl, List.mem_singleton_self _, rfl, rfl, rfl, by decide +kernel⟩

end Tree
end Quill
