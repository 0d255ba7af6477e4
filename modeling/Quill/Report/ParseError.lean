import Quill.Grammar.Failure
import Quill.Report.Context
import Quill.Report.Expected
import Quill.Report.Suggestion

/-!
# Reports on texts that cannot be read

A failure of reading becomes an error with everything that helps to mend the text: its place, what
was expected and found, the lines around it, and suggestions. The place is one of the text with its
tabs replaced; the lines and the token are taken from the text as it was given.

## Main definitions

* `ParseError` — the error, with `ParseError.report`.
* `Failure.toParseError` — the error of a failure.
-/

namespace Quill

open Report

/-- An error of reading and what is known about it. -/
structure ParseError where
  message : String
  location : Int
  line : Int
  column : Int
  expected : List String
  got : Option String
  context : Option String
  suggestions : List String
deriving DecidableEq

namespace ParseError

/-- An error without a place. -/
def ofMessage (message : String) : ParseError := ⟨message, 0, 0, 0, [], none, none, []⟩

/-- A part of a report that is left out when there is nothing to show. -/
def section? (text : Option String) (layout : String → String) : String :=
  match text with
  | none => ""
  | some text => if text = "" then "" else layout text

/-- The error as a text of several lines, each ended. -/
def report (e : ParseError) : String :=
  let heading := s!"Parse error at line {e.line}, column {e.column}:\n  {e.message}\n"
  let expected :=
    if e.expected = [] then ""
    else "  Expected: " ++ String.intercalate ", " e.expected ++ "\n"
  let got := section? e.got fun got => "  Got: " ++ got ++ "\n"
  let context := section? e.context fun context => "  Context:\n" ++ context ++ "\n"
  let suggestions :=
    if e.suggestions = [] then ""
    else "  Suggestions:\n" ++ String.join (e.suggestions.map fun s => "    - " ++ s ++ "\n")
  heading ++ expected ++ got ++ context ++ suggestions

end ParseError

/-- The lines shown before and behind the line of an error of reading. -/
def parseContextLines : Int := 2

/-- The error of a failure, for the text as it was given. -/
def Failure.toParseError (f : Failure) (cs : List Char) : ParseError :=
  let message := f.message
  let location : Int := f.cursor.offset
  let line : Int := f.cursor.line
  let column : Int := f.cursor.column
  let width : Int := ((tokenAt? cs location).getD [' ']).length
  let expected := expectedTexts message
  let got := describeToken cs location
  { message, location, line, column, expected
    got := some got
    context := some (contextText cs line column parseContextLines width)
    suggestions := (suggestions got expected cs location).map Suggestion.text }

end Quill
