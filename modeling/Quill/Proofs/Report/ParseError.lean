import Quill.Proofs.Grammar.Course
import Quill.Proofs.Text.Place
import Quill.Compile

/-!
# The place of an error of reading

An error of reading has one place in the text with its tabs replaced: its location, its line, its
column and the text that its message shows are all of this place. The token that is reported is
looked for in the text as it was given, by rules of its own. It is the token at the place as long as
no tab comes before, since with a tab the same location lies further on in the given text, and as
long as the next character is no blank that only reports pass over.

## Main definitions

* `ParseError.Describes` — an error speaks of one place of a text.
-/

namespace Quill

open Text Report

/-- A text that does not begin with a blank begins with a token. -/
theorem Report.exists_leadingToken? {ch : Char} (hch : isBlank ch = false) (rest : List Char) :
    ∃ w, leadingToken? (ch :: rest) = some w := by
  simp only [leadingToken?]
  split
  · exact ⟨_, rfl⟩
  · split
    · exact ⟨_, rfl⟩
    · split
      · exact ⟨_, rfl⟩
      · simp [hch]

/-- What a message shows at a character that is no line feed begins with the character. -/
theorem Text.head?_foundAt {cs rest : List Char} {offset : Int} {ch : Char}
    (h : cs.drop offset.toNat = ch :: rest) (hch : ch ≠ '\n') :
    (foundAt cs offset).head? = some ch := by
  simp only [foundAt, h]
  by_cases hletter : isMessageLetter ch
  · simp [hletter, foundWidth]
  · simp [hletter]

namespace Cursor

/-- The token that a report names at a cursor with no tab before it is the one that the cursor
comes to. -/
theorem tokenAt?_offset {c : Cursor} {cs : List Char} (hc : c.text = expandTabs cs)
    (htab : '\t' ∉ cs.take c.offset) (hblank : ∀ ch ∈ c.skip.ahead.head?, isBlank ch = false) :
    tokenAt? cs c.offset = leadingToken? c.skip.ahead := by
  have hexpands := (expands_expandTabs cs).drop htab
  rw [← hc, c.drop_offset] at hexpands
  rw [tokenAt?, nextToken?, Int.toNat_natCast, hexpands.dropSkipped.leadingToken?,
    dropSkipped_ahead hblank]

end Cursor

/-- The error describes one place of a text: location, line, column, message and, where no tab comes
before, the token are of this place. -/
structure ParseError.Describes (error : ParseError) (cs : List Char) (expectation : Expectation)
    (here : Cursor) : Prop where
  text : here.text = expandTabs cs
  location : error.location = here.offset
  line : error.line = lineAt here.text error.location
  column : error.column = columnAt here.text error.location
  message : error.message = Failure.messageAt expectation.head here.text error.location
  /-- No blank and no comment follows, but in front of a keyword in place of a name. -/
  settled : here.skip = here ∨ expectation = .noKeyword ∧ here.skip.atKeyword = true
  /-- The message shows what begins at the place. -/
  found : here.skip = here →
    ∀ ch ∈ here.ahead.head?, (foundAt here.text error.location).head? = some ch
  endOfInput : '\t' ∉ cs.take here.offset → here.skip.ahead = [] → error.got = some "end of input"
  /-- The token begins at the first character behind blanks and comments. -/
  token : '\t' ∉ cs.take here.offset →
    ∀ ch rest, here.skip.ahead = ch :: rest → isBlank ch = false →
      ∃ token, token ≠ [] ∧ token <+: ch :: rest ∧ leadingToken? (ch :: rest) = some token ∧
        error.got = some ("'" ++ String.ofList token ++ "'")

/-- The error of a failure in a text describes the place where reading failed. -/
theorem Failure.describes_toParseError {f : Failure} {cs : List Char}
    (htext : f.cursor.text = expandTabs cs) (hsettled : f.IsSettled) :
    (f.toParseError cs).Describes cs f.expectation f.cursor where
  text := htext
  location := rfl
  line := congrArg Int.ofNat f.cursor.lineAt_offset.symm
  column := f.cursor.columnAt_offset.symm
  message := rfl
  settled := hsettled
  found hskip ch hch := by
    obtain ⟨rest, hahead⟩ := List.head?_eq_some_iff.1 hch
    have hdrop : f.cursor.text.drop (f.cursor.offset : Int).toNat = ch :: rest := by
      rw [Int.toNat_natCast, f.cursor.drop_offset, hahead]
    have hsep := f.cursor.stops_skip.noSeparator ch (by rw [hskip, hahead]; rfl)
    refine head?_foundAt hdrop ?_
    rintro rfl
    exact absurd hsep (by decide)
  endOfInput htab hend := by
    have htoken := Cursor.tokenAt?_offset htext htab (by simp [hend])
    simp only [toParseError, describeToken, htoken, hend]
    rfl
  token htab ch rest hahead hblank := by
    obtain ⟨w, hw⟩ := exists_leadingToken? hblank rest
    have htoken := Cursor.tokenAt?_offset htext htab (by simp [hahead, hblank])
    rw [hahead, hw] at htoken
    refine ⟨w, ne_nil_of_leadingToken? hw, (prefix_of_leadingToken? hw).1, hw, ?_⟩
    simp only [toParseError, describeToken, htoken]

namespace Tree

/-- A text that cannot be read is reported for one failure. -/
theorem exists_failure_of_read {filename source : String} {error : ParseError}
    (h : Tree.read filename source = .error (.parse error)) :
    ∃ f, ofProgram filename source.toList = .error f ∧ f.toParseError source.toList = error := by
  unfold Tree.read at h
  cases hread : ofProgram filename source.toList with
  | ok p =>
    rw [hread] at h
    cases h
  | error f =>
    rw [hread] at h
    exact ⟨f, rfl, CompileError.parse.inj (Except.error.inj h)⟩

/-- A text that cannot be read has an error that describes one place of it. -/
theorem describes_of_read_error {filename source : String} {error : ParseError}
    (h : Tree.read filename source = .error (.parse error)) :
    ∃ expectation here, error.Describes source.toList expectation here := by
  obtain ⟨f, hread, rfl⟩ := exists_failure_of_read h
  obtain ⟨hleads, hsettled⟩ := isSettled_of_ofProgram hread
  exact ⟨f.expectation, f.cursor, f.describes_toParseError hleads.text_eq hsettled⟩

theorem describes_unfinished :
    ∃ error, Tree.read "unfinished" "let x = 1 // one\n print x;" = .error (.parse error) ∧
      (∃ expectation here, error.Describes "let x = 1 // one\n print x;".toList expectation here) ∧
      error.got = some "'print'" := by
  obtain ⟨error, hread, hgot⟩ : ∃ error,
      Tree.read "unfinished" "let x = 1 // one\n print x;" = .error (.parse error) ∧
        error.got = some "'print'" := ⟨_, rfl, by decide +kernel⟩
  exact ⟨error, hread, describes_of_read_error hread, hgot⟩

/-- Behind a tab the token is looked for further on than the place is. -/
theorem got_behind_tab :
    ∃ error, Tree.read "tab" "\tprint 1 2;" = .error (.parse error) ∧ error.location = 16 ∧
      (expandTabs "\tprint 1 2;".toList).drop 16 = ['2', ';'] ∧
      error.got = some "end of input" :=
  ⟨_, rfl, rfl, by decide, by decide +kernel⟩

end Tree
end Quill
