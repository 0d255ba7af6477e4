import Quill.Grammar.Expression
import Quill.Text.Place

/-!
# Reading programs

A statement begins with a keyword or with the name it assigns to. Behind a keyword the statement is
committed, so a failure in it is the failure of the whole program. An assignment that cannot be read
is no statement: the list of statements ends before it, and what must follow the list is reported.

## Main definitions

* `readStatement` — a statement, or nothing where none begins.
* `readStatements` — as many statements as can be read.
* `Tree.ofProgram`, `Tree.ofExpression` — a whole text.
-/

namespace Quill

open Text

/-- Requires the end of the text. -/
def expectEnd (c : Cursor) : Except Failure Unit :=
  if c.skip.ahead = [] then .ok () else .error ⟨.endOfText, c.skip⟩

/-- Requires a name to declare. A keyword in its place is reported directly behind what comes
before, without passing blanks. -/
def expectName (filename : String) : Reader Token :=
  fun c =>
    match c.name? filename with
    | some found => .ok found
    | none =>
      if c.skip.atKeyword then .error ⟨.noKeyword, c⟩ else .error ⟨.name, c.skip⟩

/-- Reads further parameters, each behind a comma. A comma without a name is left. -/
def readMoreParameters (filename : String) : Nat → Cursor → List Tree × Cursor
  | 0, c => ([], c)
  | n + 1, c =>
    match (c.symbol? ",").bind fun next => next.name? filename with
    | none => ([], c)
    | some (name, next) =>
      let (params, last) := readMoreParameters filename n next
      (.token name :: params, last)

/-- Reads parameters separated by commas, possibly none. -/
def readParameters (filename : String) (c : Cursor) : List Tree × Cursor :=
  match c.name? filename with
  | none => ([], c)
  | some (name, next) =>
    let (params, last) := readMoreParameters filename next.ahead.length next
    (.token name :: params, last)

/-- Reads what follows the sign of equality: an expression and a semicolon. -/
def readDefinition (filename : String) : Reader Tree :=
  fun c => do
    let c ← expectSymbol "=" c
    let (e, c) ← readExpression filename c
    let c ← expectSymbol ";" c
    return (e, c)

/-- Reads a variable behind its keyword. -/
def readVariable (filename : String) : Reader Tree :=
  fun c => do
    let (name, c) ← expectName filename c
    let (initializer, c) ← readDefinition filename c
    return (.variableDeclaration (.token name) initializer, c)

/-- Reads a function behind its keyword. -/
def readFunction (filename : String) : Reader Tree :=
  fun c => do
    let (name, c) ← expectName filename c
    let c ← expectSymbol "(" c
    let (params, c) := readParameters filename c
    let c ← expectSymbol ")" c
    let (body, c) ← readDefinition filename c
    return (.functionDeclaration (.token name) params body, c)

/-- Reads a print statement behind its keyword. -/
def readPrint (filename : String) : Reader Tree :=
  fun c => do
    let (argument, c) ← readExpression filename c
    let c ← expectSymbol ";" c
    return (.print argument, c)

/-- Reads an assignment. -/
def readAssignment (filename : String) (c : Cursor) : Option (Tree × Cursor) := do
  let (name, c) ← c.name? filename
  let (source, c) ← (readDefinition filename c).toOption
  return (.assignment (.token name) source, c)

/-- Reads at most `n` statements with a reader for one. -/
def repeatStatements (one : Reader (Option Tree)) : Nat → Reader (List Tree)
  | 0, c => .ok ([], c)
  | n + 1, c => do
    match ← one c with
    | (none, _) => return ([], c)
    | (some statement, c) =>
      let (statements, c) ← repeatStatements one n c
      return (statement :: statements, c)

/-- Reads a loop behind its keyword with a reader for the statements of its body. -/
def readLoop (filename : String) (statement : Reader (Option Tree)) : Reader Tree :=
  fun c => do
    let (test, c) ← readExpression filename c
    let c ← expectSymbol "\x7b" c
    let (body, c) ← repeatStatements statement c.ahead.length c
    let c ← expectSymbol "\x7d" c
    return (.whileLoop test body, c)

/-- What is read behind a statement keyword. -/
def readCommitted (read : Reader Tree) : Reader (Option Tree) :=
  fun c => do
    let (statement, c) ← read c
    return (some statement, c)

/-- Reads a statement with loops nested at most `n` deep, or nothing where no statement begins. -/
def readStatement (filename : String) : Nat → Reader (Option Tree)
  | 0, c => .ok (none, c)
  | n + 1, c =>
    let here := c.skip
    match here.keyword? "let", here.keyword? "function", here.keyword? "while",
      here.keyword? "print" with
    | some next, _, _, _ => readCommitted (readVariable filename) next
    | none, some next, _, _ => readCommitted (readFunction filename) next
    | none, none, some next, _ =>
      readCommitted (readLoop filename (readStatement filename n)) next
    | none, none, none, some next => readCommitted (readPrint filename) next
    | none, none, none, none =>
      match readAssignment filename c with
      | some (statement, next) => .ok (some statement, next)
      | none => .ok (none, c)

/-- Reads statements until none begins. -/
def readStatements (filename : String) : Reader (List Tree) :=
  fun c => repeatStatements (readStatement filename (c.ahead.length + 1)) c.ahead.length c

namespace Tree

/-- Reads a whole text as a program. Tabs count as the spaces up to the next tab stop. -/
def ofProgram (filename : String) (cs : List Char) : Except Failure Tree := do
  let (statements, c) ← readStatements filename (Cursor.start (expandTabs cs))
  expectEnd c
  return program statements

/-- Reads a whole text as an expression. -/
def ofExpression (filename : String) (cs : List Char) : Except Failure Tree := do
  let (e, c) ← readExpression filename (Cursor.start (expandTabs cs))
  expectEnd c
  return e

end Tree
end Quill
