/-!
# Spans and tokens

A token is a word of the source with the place it was read at. Lines and columns count from one,
and the end column is the one behind the last character.

## Main definitions

* `Span` — a place in a named source, with `Span.text`.
* `Token` — an identifier as written, with `Token.text`.
-/

namespace Quill

/-- A place in a source. Hand-made spans may hold any integers. -/
structure Span where
  filename : String
  startLine : Int
  startColumn : Int
  endLine : Int
  endColumn : Int
  content : String
deriving DecidableEq

/-- The place as `file:line:start-end`, with the end line where it differs. -/
def Span.text (s : Span) : String :=
  let start := s!"{s.filename}:{s.startLine}:{s.startColumn}-"
  if s.startLine = s.endLine then start ++ toString s.endColumn
  else s!"{start}{s.endLine}:{s.endColumn}"

/-- The columns a span covers on its line. -/
def Span.width (s : Span) : Int := s.endColumn - s.startColumn

/-- An identifier as written. -/
structure Token where
  value : String
  span : Option Span
deriving DecidableEq

/-- The name of the one kind of token. -/
def Token.kindName : String := "IDENTIFIER"

/-- The token as `KIND(value)`. -/
def Token.text (t : Token) : String := s!"{Token.kindName}({t.value})"

end Quill
