import Quill.Report.Lookahead
import Quill.Grammar.Cursor
import Quill.Text.Quoted

/-!
# Suggestions

A report on a text that cannot be read suggests what may be wrong, from the token that was found,
what was expected instead, and the blocks that are open.

## Main definitions

* `Suggestion` — a suggestion, with its wording.
* `suggestions got expected cs offset` — the suggestions for an error, in order.
-/

namespace Quill.Report

open Text

/-- What may be wrong with a text. -/
inductive Suggestion where
  /-- The statement before a token has no semicolon. -/
  | unfinishedStatement (token : String)
  | semicolon
  | keywordAsName
  | loopBody
  /-- A block that begins on a line is not closed. -/
  | unclosedBlock (line : Nat)
  | strayClosingBrace
  | strayOpeningBrace
  | callAsStatement
deriving DecidableEq

/-- The wording of a suggestion. -/
def Suggestion.text : Suggestion → String
  | unfinishedStatement token => "The statement before '" ++ token ++ "' is missing its ';'"
  | semicolon => "Every statement except 'while' ends with a semicolon"
  | keywordAsName => "Keywords can not be used as identifiers"
  | loopBody => "A while loop body is a block in braces: while x < 3 \x7b ... \x7d"
  | unclosedBlock line =>
    "The while block opened at line " ++ toString line ++ " is missing its closing '\x7d'"
  | strayClosingBrace => "This '\x7d' does not close any while block"
  | strayOpeningBrace => "Braces are only used for while loop bodies"
  | callAsStatement => "Calls are expressions: use them inside 'print' or an assignment"

/-- The keywords that begin a statement. -/
def statementKeywords : List String := ["let", "function", "while", "print"]

/-- Is the first text part of the second? -/
def isPart (part : List Char) : List Char → Bool
  | [] => part = []
  | c :: cs => part.isPrefixOf (c :: cs) || isPart part cs

/-- The token that was found, without the apostrophes around it; nothing at the end of the input. -/
def tokenOf? (got : String) : Option String :=
  let isQuote : Char → Bool := (· = '\'')
  let cs := got.toList
  if cs.head?.any isQuote then
    some (String.ofList ((cs.dropWhile isQuote).reverse.dropWhile isQuote).reverse)
  else none

/-- Does a text begin with a name and an opening parenthesis? -/
def beginsWithCall (cs : List Char) : Bool :=
  let cs := cs.dropWhile isBlank
  cs.head?.any (fun c => isWordChar c && !isDigit c)
    && ((cs.dropWhile isWordChar).dropWhile isBlank).head? = some '('

/-- The suggestions for an error. -/
def suggestions (got : String) (expected : List String) (cs : List Char) (offset : Int) :
    List Suggestion :=
  let wanted := (quotedList expected).toList
  let token := tokenOf? got
  let isOneOf (words : List String) : Bool := token.any fun word => word ∈ words
  let blocks := openBlocks cs offset
  let statement :=
    if isPart "';'".toList wanted then
      match token with
      | some word =>
        if word ∈ statementKeywords ∨ word = "\x7d" then [.unfinishedStatement word]
        else [.semicolon]
      | none => [.semicolon]
    else if isOneOf Cursor.keywords then [.keywordAsName]
    else []
  let body := if isPart "'\x7b'".toList wanted then [.loopBody] else []
  let unclosed :=
    match token, blocks.getLast? with
    | none, some block => [.unclosedBlock (lineAt cs block)]
    | _, _ => []
  let brace :=
    if token = some "\x7d" ∧ blocks = [] then [.strayClosingBrace]
    else if token = some "\x7b" ∧ blocks = [] then [.strayOpeningBrace]
    else []
  let call :=
    if isPart "end of text".toList wanted ∧ !isOneOf Cursor.keywords
        ∧ beginsWithCall (startingAt cs offset) then [.callAsStatement]
    else []
  statement ++ body ++ unclosed ++ brace ++ call

end Quill.Report
