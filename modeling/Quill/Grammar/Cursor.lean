import Quill.Text.Word
import Quill.Text.Digit
import Quill.Number.Numeral
import Quill.Span

/-!
# Reading lexemes

A cursor splits the text being read into what is behind it, nearest first, and what is ahead. Every
lexeme is looked for behind blanks and comments.

## Main definitions

* `Cursor` — a place in the text, with its offset, line and column.
* `Cursor.skip` — passes blanks and comments.
* `Cursor.keyword?`, `Cursor.word?`, `Cursor.numeral?`, `Cursor.symbol?` — one lexeme each.
-/

namespace Quill

open Text

/-- A place in a text. -/
structure Cursor where
  behind : List Char
  ahead : List Char
deriving DecidableEq

namespace Cursor

/-- The start of a text. -/
def start (cs : List Char) : Cursor := ⟨[], cs⟩

/-- The whole text. -/
def text (c : Cursor) : List Char := c.behind.reverse ++ c.ahead

/-- The number of characters behind. -/
def offset (c : Cursor) : Nat := c.behind.length

/-- The line, counted from one. -/
def line (c : Cursor) : Nat := c.behind.count '\n' + 1

/-- The column, counted from one. -/
def column (c : Cursor) : Nat := (c.behind.takeWhile (· ≠ '\n')).length + 1

/-- Passes the next characters. -/
def advance (c : Cursor) (n : Nat) : Cursor :=
  ⟨(c.ahead.take n).reverse ++ c.behind, c.ahead.drop n⟩

@[simp] theorem ahead_advance (c : Cursor) (n : Nat) : (c.advance n).ahead = c.ahead.drop n := rfl

/-! ## Blanks and comments -/

/-- The characters that may separate lexemes. -/
def isSeparator (c : Char) : Bool := c = ' ' || c = '\n' || c = '\t' || c = '\r'

/-- Passes separators. -/
def skipBlanks (c : Cursor) : Cursor := c.advance (c.ahead.takeWhile isSeparator).length

/-- The end of the comment that starts here; a comment runs to the end of its line. -/
def comment? (c : Cursor) : Option Cursor :=
  match c.ahead with
  | '/' :: '/' :: rest => some (c.advance ((rest.takeWhile (· ≠ '\n')).length + 2))
  | _ => none

/-- Passes up to `n` comments with the blanks before them. -/
def skipSomeComments : Nat → Cursor → Cursor
  | 0, c => c
  | n + 1, c =>
    match c.skipBlanks.comment? with
    | some behindComment => skipSomeComments n behindComment
    | none => c

/-- Passes all comments with the blanks before them, and stops before the blanks after the last. -/
def skipComments (c : Cursor) : Cursor := skipSomeComments c.ahead.length c

/-- Passes all blanks and comments. -/
def skip (c : Cursor) : Cursor := c.skipComments.skipBlanks

/-! ## Lexemes -/

/-- The words that are never names. -/
def keywords : List String := ["let", "function", "while", "print", "true", "false"]

/-- Characters that a keyword may not touch: ASCII letters and digits, the underscore, the dollar
sign. -/
def touchesKeyword (c : Char) : Bool := c.isAlphanum || c = '_' || c = '$'

/-- The end of a keyword that stands exactly here. -/
def keyword? (c : Cursor) (word : String) : Option Cursor :=
  let word := word.toList
  if word.isPrefixOf c.ahead && !c.behind.head?.any touchesKeyword
      && !(c.ahead.drop word.length).head?.any touchesKeyword then
    some (c.advance word.length)
  else none

/-- Does any keyword stand exactly here? -/
def atKeyword (c : Cursor) : Bool := keywords.any fun word => (c.keyword? word).isSome

/-- The name that stands exactly here, and its end: a word that neither starts with a digit nor with
a keyword. -/
def word? (c : Cursor) : Option (List Char × Cursor) :=
  let word := c.ahead.takeWhile isWordChar
  if c.atKeyword || word = [] || word.head?.any isDigit then none
  else some (word, c.advance word.length)

/-- The numeral that stands exactly here, and its end. -/
def numeral? (c : Cursor) : Option (Numeral × Cursor) :=
  (Numeral.scan? c.ahead).map fun (n, _) => (n, c.advance n.text.length)

/-- The end of a symbol behind blanks and comments. -/
def symbol? (c : Cursor) (symbol : String) : Option Cursor :=
  let symbol := symbol.toList
  let c := c.skip
  if symbol.isPrefixOf c.ahead then some (c.advance symbol.length) else none

/-- The first of several symbols that stands behind blanks and comments, and its end. -/
def firstSymbol? (c : Cursor) (symbols : List String) : Option (String × Cursor) :=
  symbols.findSome? fun symbol => (c.symbol? symbol).map fun c => (symbol, c)

/-- The token of a name that starts at the cursor. -/
def token (c : Cursor) (filename : String) (word : List Char) : Token :=
  let name := String.ofList word
  ⟨name, some ⟨filename, c.line, c.column, c.line, c.column + word.length, name⟩⟩

/-- The name behind blanks and comments as a token, and its end. -/
def name? (c : Cursor) (filename : String) : Option (Token × Cursor) :=
  c.skip.word?.map fun (word, next) => (c.skip.token filename word, next)

end Cursor
end Quill
