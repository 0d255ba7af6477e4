import Quill.Text.Word
import Quill.Text.Digit
import Quill.Text.Blank
import Quill.Text.Place
import Quill.Number.Numeral

/-!
# Looking at the text around an error

Reports name the token at the place of an error and the blocks that are open there. They look at the
text by themselves, with all blanks of Unicode between tokens.

## Main definitions

* `nextToken? cs` — the first token of a text.
* `tokenAt? cs offset`, `describeToken cs offset` — the token at an offset.
* `openBraces cs`, `openBlocks cs offset` — the braces that are not closed before an offset.
-/

namespace Quill.Report

open Text

/-! ## Tokens -/

/-- Drops at most `n` runs of blanks and comments. -/
def dropSomeSkipped : Nat → List Char → List Char
  | 0, cs => cs
  | n + 1, cs =>
    match cs with
    | '/' :: '/' :: rest => dropSomeSkipped n (rest.dropWhile (· ≠ '\n'))
    | c :: rest => if isBlank c then dropSomeSkipped n rest else cs
    | [] => []

/-- Drops the blanks and comments at the start of a text. -/
def dropSkipped (cs : List Char) : List Char := dropSomeSkipped cs.length cs

/-- The operators of more than one character. -/
def longSymbols : List String := ["**", "&&", "||", "<=", ">=", "==", "!="]

/-- The first token of a text that begins with neither blank nor comment: a numeral, a word, a long
operator, or one character. -/
def leadingToken? (cs : List Char) : Option (List Char) :=
  match Numeral.scan? cs with
  | some (n, _) => some n.text
  | none =>
    let word := cs.takeWhile isWordChar
    if word ≠ [] ∧ !word.head?.any isDigit then some word
    else
      match longSymbols.find? fun symbol => symbol.toList.isPrefixOf cs with
      | some symbol => some symbol.toList
      | none => if cs.head?.any isBlank then none else cs.head?.map ([·])

/-- The first token of a text. -/
def nextToken? (cs : List Char) : Option (List Char) := leadingToken? (dropSkipped cs)

/-- The token at an offset; one before the start is looked for at the start. -/
def tokenAt? (cs : List Char) (offset : Int) : Option (List Char) :=
  nextToken? (cs.drop offset.toNat)

/-- The token at an offset between apostrophes, or the end of the input. -/
def describeToken (cs : List Char) (offset : Int) : String :=
  match tokenAt? cs offset with
  | some token => "'" ++ String.ofList token ++ "'"
  | none => "end of input"

/-! ## Blocks -/

/-- The braces of a text with their offsets, counted from `offset`, without those in comments. -/
def braces : Nat → List Char → List (Char × Nat)
  | _, [] => []
  | offset, c :: cs =>
    if c = '/' ∧ cs.head? = some '/' then bracesInComment (offset + 1) cs
    else if c = '\x7b' ∨ c = '\x7d' then (c, offset) :: braces (offset + 1) cs
    else braces (offset + 1) cs
where
  /-- The braces behind the end of a comment. -/
  bracesInComment : Nat → List Char → List (Char × Nat)
    | _, [] => []
    | offset, c :: cs =>
      if c = '\n' then braces (offset + 1) cs else bracesInComment (offset + 1) cs

/-- The offsets of the braces still open, innermost first. A closing brace without an open one
counts for nothing. -/
def openAfter : List Nat → List (Char × Nat) → List Nat
  | stack, [] => stack
  | stack, (c, offset) :: rest =>
    if c = '\x7b' then openAfter (offset :: stack) rest else openAfter stack.tail rest

/-- The offsets of the opening braces that a text does not close, in order. -/
def openBraces (cs : List Char) : List Nat := (openAfter [] (braces 0 cs)).reverse

/-- The offsets of the opening braces not closed before an offset, in order. -/
def openBlocks (cs : List Char) (offset : Int) : List Nat := openBraces (upTo cs offset)

end Quill.Report
