import Quill.Tree
import Quill.Grammar.Failure

/-!
# Reading expressions

An expression is read by precedence, from the tightest level to the loosest. Reading is greedy: a
level consumes an operator exactly when the operands behind it can be read too, and otherwise ends
in front of it. So an expression fails only at its first operand, or where a parenthesis that opens
it is not closed.

Loops run as often as characters are ahead, and nested expressions as deep; each round and each
nesting consumes a character, so neither limit is met.

## Main definitions

* `Reader α` — reads an `α` at a cursor, or fails.
* `readOperand`, `readPower`, `readSigned`, `readChain`, `readConditional` — the levels.
* `readExpression` — an expression.
-/

namespace Quill

/-- Reads at a cursor and answers what is read with the cursor behind it. -/
abbrev Reader (α : Type) := Cursor → Except Failure (α × Cursor)

/-- Fails at the cursor for want of an operand. The wording tells whether the operand should follow
a sign, and whether a blank stands directly before the place. -/
def failOperand (behindSign : Bool) (c : Cursor) : Failure :=
  let expectation : Expectation :=
    if c.skipComments ≠ c.skip then .spacedOperand
    else if behindSign then .signedOperand
    else .operand
  ⟨expectation, c.skip⟩

/-- Requires a symbol. -/
def expectSymbol (symbol : String) (c : Cursor) : Except Failure Cursor :=
  match c.symbol? symbol with
  | some next => .ok next
  | none => .error ⟨.symbol symbol, c.skip⟩

/-! ## Operands -/

/-- Reads further arguments, each behind a comma. A comma without an argument is left. -/
def readMoreArguments (inner : Reader Tree) : Nat → Cursor → List Tree × Cursor
  | 0, c => ([], c)
  | n + 1, c =>
    match c.symbol? "," with
    | none => ([], c)
    | some next =>
      match inner next with
      | .error _ => ([], c)
      | .ok (arg, next) =>
        let (args, last) := readMoreArguments inner n next
        (arg :: args, last)

/-- Reads arguments separated by commas, possibly none. -/
def readArguments (inner : Reader Tree) (c : Cursor) : List Tree × Cursor :=
  match inner c with
  | .error _ => ([], c)
  | .ok (arg, next) =>
    let (args, last) := readMoreArguments inner next.ahead.length next
    (arg :: args, last)

/-- Reads arguments in parentheses. -/
def readCall? (inner : Reader Tree) (c : Cursor) : Option (List Tree × Cursor) := do
  let c ← c.symbol? "("
  let (args, c) := readArguments inner c
  let c ← c.symbol? ")"
  return (args, c)

/-- Reads an operand: a numeral, a boolean, a call, a name, or an expression in parentheses. A name
whose arguments cannot be read is only a name. -/
def readOperand (filename : String) (inner : Reader Tree) (behindSign : Bool) : Reader Tree :=
  fun c =>
    let here := c.skip
    match here.numeral?, here.keyword? "true", here.keyword? "false", c.name? filename with
    | some (n, next), _, _, _ => .ok (.number n.value, next)
    | none, some next, _, _ => .ok (.boolean true, next)
    | none, none, some next, _ => .ok (.boolean false, next)
    | none, none, none, some (name, next) =>
      match readCall? inner next with
      | some (args, next) => .ok (.call (.token name) args, next)
      | none => .ok (.token name, next)
    | none, none, none, none =>
      match c.symbol? "(" with
      | some next => do
        let (e, next) ← inner next
        let next ← expectSymbol ")" next
        return (e, next)
      | none => .error (failOperand behindSign c)

/-! ## Levels -/

/-- The operator of the tightest level. -/
def powerSymbols : List String := ["**"]

/-- The signs in front of an operand. -/
def signSymbols : List String := ["-", "!"]

/-- The operators of the levels that group to the left, from the tightest to the loosest. -/
def chainSymbols : List (List String) :=
  [["*", "/", "%"], ["+", "-"], ["<=", ">=", "==", "!=", "<", ">"], ["&&"], ["||"]]

/-- Reads a power of at most `n` exponents, grouped to the right. -/
def readPower (operand : Reader Tree) : Nat → Reader Tree
  | 0, c => operand c
  | n + 1, c => do
    let (base, c) ← operand c
    match c.firstSymbol? powerSymbols with
    | none => return (base, c)
    | some (symbol, next) =>
      match readPower operand n next with
      | .ok (exponent, next) => return (.binary symbol base exponent, next)
      | .error _ => return (base, c)

/-- Reads at most `n` signs and what they stand in front of. -/
def readSigned (lower : Bool → Reader Tree) : Nat → Bool → Reader Tree
  | 0, behindSign, c => lower behindSign c
  | n + 1, behindSign, c =>
    match c.firstSymbol? signSymbols with
    | none => lower behindSign c
    | some (symbol, next) => do
      let (operand, next) ← readSigned lower n true next
      return (.unary symbol operand, next)

/-- Extends a left operand by at most `n` operators with their right operands. -/
def readMoreOperands (lower : Reader Tree) (symbols : List String) :
    Nat → Tree → Cursor → Tree × Cursor
  | 0, left, c => (left, c)
  | n + 1, left, c =>
    match c.firstSymbol? symbols with
    | none => (left, c)
    | some (symbol, next) =>
      match lower next with
      | .error _ => (left, c)
      | .ok (right, next) => readMoreOperands lower symbols n (.binary symbol left right) next

/-- Reads operands joined by the operators of one level, grouped to the left. -/
def readChain (lower : Reader Tree) (symbols : List String) : Reader Tree :=
  fun c => do
    let (left, c) ← lower c
    return readMoreOperands lower symbols c.ahead.length left c

/-- Reads the arms of a conditional. -/
def readArms? (inner : Reader Tree) (c : Cursor) : Option ((Tree × Tree) × Cursor) := do
  let c ← c.symbol? "?"
  let (consequent, c) ← (inner c).toOption
  let c ← c.symbol? ":"
  let (alternate, c) ← (inner c).toOption
  return ((consequent, alternate), c)

/-- Reads a test and the arms behind it, if there are any. -/
def readConditional (inner lower : Reader Tree) : Reader Tree :=
  fun c => do
    let (test, c) ← lower c
    match readArms? inner c with
    | some ((consequent, alternate), c) => return (.conditional test consequent alternate, c)
    | none => return (test, c)

/-- Reads signs and powers. -/
def readFactor (filename : String) (inner : Reader Tree) : Reader Tree :=
  fun c =>
    let power (behindSign : Bool) : Reader Tree :=
      fun c => readPower (readOperand filename inner behindSign) c.ahead.length c
    readSigned power c.ahead.length false c

/-- Reads an expression around an inner reader for the expressions nested in it. -/
def readLevels (filename : String) (inner : Reader Tree) : Reader Tree :=
  readConditional inner (chainSymbols.foldl readChain (readFactor filename inner))

/-- Reads an expression nested at most `n` deep. -/
def readNested (filename : String) : Nat → Reader Tree
  | 0 => fun c => .error (failOperand false c)
  | n + 1 => readLevels filename (readNested filename n)

/-- Reads an expression. -/
def readExpression (filename : String) : Reader Tree :=
  fun c => readNested filename (c.ahead.length + 1) c

end Quill
