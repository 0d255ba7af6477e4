import Quill.Tree
import Quill.Number.Outcome

/-!
# Operators on literals

The value of an operator on two literals, where it has one. Arithmetic and order take numbers,
equality takes two literals of one kind, and the connectives take booleans. Zero to the power zero
has no value here, so that it stays as written. Quotients, remainders and powers are left to the
arithmetic, which may raise an exception.

## Main definitions

* `Operator` — the fourteen binary operators, with `Operator.symbol` and `Operator.ofSymbol?`.
* `Operator.fold?` — the value of an operator on two literals.
* `Operator.raised?` — the exception that an operator raises on two numbers.
-/

namespace Quill

/-- The binary operators. -/
inductive Operator where
  | add | sub | mul | div | rem | pow
  | less | lessEqual | equal | notEqual | greaterEqual | greater
  | and | or
deriving DecidableEq

namespace Operator

/-- How an operator is written. -/
def symbol : Operator → String
  | add => "+"
  | sub => "-"
  | mul => "*"
  | div => "/"
  | rem => "%"
  | pow => "**"
  | less => "<"
  | lessEqual => "<="
  | equal => "=="
  | notEqual => "!="
  | greaterEqual => ">="
  | greater => ">"
  | and => "&&"
  | or => "||"

/-- All binary operators. -/
def all : List Operator :=
  [add, sub, mul, div, rem, pow, less, lessEqual, equal, notEqual, greaterEqual, greater, and, or]

/-- The operator that is written so. -/
def ofSymbol? (symbol : String) : Option Operator :=
  all.find? fun op => op.symbol = symbol

theorem ofSymbol?_symbol (op : Operator) : ofSymbol? op.symbol = some op := by
  cases op <;> decide

theorem symbol_of_ofSymbol? {s : String} {op : Operator} (h : ofSymbol? s = some op) :
    op.symbol = s := by
  simpa using List.find?_some h

section Folding

variable [Arithmetic]

/-- The value of an operator on two numbers. -/
def foldNumbers? (x y : Number) : Operator → Option Literal
  | add => some (.number (x.add y))
  | sub => some (.number (x.sub y))
  | mul => some (.number (x.mul y))
  | div => some (.number (Arithmetic.div x y).number)
  | rem => some (.number (Arithmetic.rem x y).number)
  | pow => if x.isZero && y.isZero then none else some (.number (Arithmetic.pow x y).number)
  | less => some (.boolean (x.less y))
  | lessEqual => some (.boolean (x.lessEqual y))
  | equal => some (.boolean (x.equal y))
  | notEqual => some (.boolean !(x.equal y))
  | greaterEqual => some (.boolean (y.lessEqual x))
  | greater => some (.boolean (y.less x))
  | and | or => none

/-- The exception that an operator raises on two numbers. Zero to the power zero is not computed. -/
def raised? (x y : Number) : Operator → Option Exception
  | div => (Arithmetic.div x y).exception?
  | rem => (Arithmetic.rem x y).exception?
  | pow => if x.isZero && y.isZero then none else (Arithmetic.pow x y).exception?
  | _ => none

/-- The value of an operator on two booleans. -/
def foldBooleans? (x y : Bool) : Operator → Option Literal
  | equal => some (.boolean (x == y))
  | notEqual => some (.boolean (x != y))
  | and => some (.boolean (x && y))
  | or => some (.boolean (x || y))
  | _ => none

/-- The value of an operator on two literals. -/
def fold? (op : Operator) : Literal → Literal → Option Literal
  | .number x, .number y => foldNumbers? x y op
  | .boolean x, .boolean y => foldBooleans? x y op
  | _, _ => none

/-- The value of an operator, as written, on two literals; unknown operators have none. -/
def foldSymbol? (symbol : String) (left right : Literal) : Option Literal :=
  (ofSymbol? symbol).bind fun op => op.fold? left right

end Folding

end Operator
end Quill
