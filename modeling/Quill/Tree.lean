import Quill.Number.Basic
import Quill.Span
import Quill.Entity

/-!
# Program trees

One type of tree holds a program before and after its names are resolved: reading puts tokens where
names stand, and resolution puts entities there. A tree may also be made by hand, with a text, a
list or nothing where a part is expected; such trees are rejected when they are used.

All numbers are doubles, as those that are read are; whole numbers of any size are not among the
leaves. Nodes have no identity of their own: a node in two places is two equal nodes, and only
entities are shared.

## Main definitions

* `Literal` — numbers and booleans.
* `Tree` — programs, statements, expressions and their leaves.
-/

namespace Quill

/-- The values written in programs. -/
inductive Literal where
  | number (value : Number)
  | boolean (value : Bool)
deriving DecidableEq

namespace Literal

/-- Is the literal a number? -/
def isNumber : Literal → Bool
  | number _ => true
  | boolean _ => false

/-- Is the literal a boolean? -/
def isBoolean : Literal → Bool
  | number _ => false
  | boolean _ => true

/-- The number that a literal counts as: `true` is one and `false` is zero. -/
def toNumber : Literal → Number
  | number value => value
  | boolean value => if value then .one else .zero

/-- Everything but `false`, the zeros and NaN counts as true. -/
def isTruthy : Literal → Bool
  | boolean value => value
  | number value => !value.isZero && value != Number.nan

end Literal

/-- A program or a part of one. Operators are kept as they are written. -/
inductive Tree where
  /-- Nothing, where a part is missing. -/
  | absent
  | literal (value : Literal)
  /-- A text that is no part of a program. -/
  | text (value : String)
  | list (items : List Tree)
  /-- A name before resolution. -/
  | token (token : Token)
  /-- A name after resolution. -/
  | entity (entity : Entity)
  | program (statements : List Tree)
  | variableDeclaration (name initializer : Tree)
  | functionDeclaration (name : Tree) (params : List Tree) (body : Tree)
  | assignment (target source : Tree)
  | whileLoop (test : Tree) (body : List Tree)
  | print (argument : Tree)
  | call (callee : Tree) (args : List Tree)
  | conditional (test consequent alternate : Tree)
  | binary (operator : String) (left right : Tree)
  | unary (operator : String) (operand : Tree)

namespace Tree

instance : Inhabited Tree := ⟨absent⟩

/-- A number as a tree. -/
abbrev number (value : Number) : Tree := literal (.number value)

/-- A boolean as a tree. -/
abbrev boolean (value : Bool) : Tree := literal (.boolean value)

/-- The literal that a tree is. -/
def literal? : Tree → Option Literal
  | literal value => some value
  | _ => none

/-- The number that a tree is. -/
def number? : Tree → Option Number
  | literal (.number value) => some value
  | _ => none

/-- The entity that a tree is. -/
def entity? : Tree → Option Entity
  | entity e => some e
  | _ => none

@[simp] theorem literal?_literal (v : Literal) : (literal v).literal? = some v := rfl

@[simp] theorem number?_number (x : Number) : (number x).number? = some x := rfl

end Tree
end Quill
