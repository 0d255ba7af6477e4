import Quill.Grammar.Cursor
import Quill.Text.FoundWord

/-!
# Failures of reading

Reading fails at one place, where something else was expected than was found.

## Main definitions

* `Expectation` — what was expected, with its wording.
* `Failure` — an expectation at a cursor, with `Failure.message`.
* `Failure.messageAt` — the message of any head at any offset of a text.
-/

namespace Quill

open Text

/-- What the text should have gone on with. -/
inductive Expectation where
  /-- A symbol such as a semicolon. -/
  | symbol (text : String)
  /-- Nothing more. -/
  | endOfText
  /-- A name to declare. -/
  | name
  /-- A name to declare, where a keyword stands. -/
  | noKeyword
  /-- An expression. -/
  | operand
  /-- An expression, directly behind a sign. -/
  | signedOperand
  /-- An expression, behind a blank. -/
  | spacedOperand
deriving DecidableEq

/-- The wording of an expectation. -/
def Expectation.head : Expectation → String
  | symbol s => "Expected '" ++ s ++ "'"
  | endOfText => "Expected end of text"
  | name => "Expected Re:('[^\\W\\d]\\w*')"
  | noKeyword =>
    let words := Cursor.keywords.map fun word => "'" ++ word ++ "'"
    "Found unwanted token, \x7b" ++ String.intercalate " | " words ++ "\x7d"
  | operand => "Expected ?: operations"
  | signedOperand => "Expected '-' | '!' operations"
  | spacedOperand => "Expected '-' | '!'"

/-- What was expected, and where. -/
structure Failure where
  expectation : Expectation
  cursor : Cursor
deriving DecidableEq

namespace Failure

/-- The message of a failure with this head at an offset of a text. An empty text has nothing to be
found. -/
def messageAt (head : String) (cs : List Char) (offset : Int) : String :=
  let found := if cs = [] then "" else ", found " ++ describeFound cs offset
  s!"{head}{found}  (at char {offset}), (line:{lineAt cs offset}, col:{columnAt cs offset})"

/-- The message of a failure. -/
def message (f : Failure) : String :=
  messageAt f.expectation.head f.cursor.text f.cursor.offset

end Failure
end Quill
