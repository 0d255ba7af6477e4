import Quill.Library
import Quill.Operator

/-!
# Optimization of resolved trees

One pass from the leaves to the root replaces parts whose value or effect is known: operators and
intrinsic functions on literals, identities of arithmetic such as `x + 0`, conditionals with a
literal test, and assignments of a variable to itself. Nothing else is added, dropped or moved.

The pass is written for any arithmetic. What it makes of a tree and why it cannot go on are told
apart: an exception of the arithmetic is a fault like any other.

## Main definitions

* `Tree.leftIdentity?`, `Tree.rightIdentity?` — identities with one number.
* `Tree.foldBinary`, `Tree.foldUnary`, `Tree.foldCall`, `Tree.foldConditional`,
  `Tree.foldAssignment` — one node whose parts are optimized.
* `Tree.optimize` — the pass.
* `Tree.fault?`, `Tree.optimize?` — trees that hold a part without a meaning are refused, and so are
  those on which the arithmetic raises an exception.
-/

namespace Quill.Tree

/-! ## One node -/

/-- What `x op e` is for any `e`, where the number `x` alone decides. -/
def leftIdentity? (x : Number) (e : Tree) : Operator → Option Tree
  | .add => if x.isZero then some e else none
  | .sub => if x.isZero then some (unary "-" e) else none
  | .mul => if x = .one then some e else if x.isZero then some (number .zero) else none
  | .div | .rem => if x.isZero then some (number .zero) else none
  | .pow => if x = .one then some (number .one) else none
  | _ => none

/-- What `e op y` is for any `e`, where the number `y` alone decides. -/
def rightIdentity? (e : Tree) (y : Number) : Operator → Option Tree
  | .add | .sub => if y.isZero then some e else none
  | .mul => if y = .one then some e else if y.isZero then some (number .zero) else none
  | .div => if y = .one then some e else none
  | .pow => if y.isZero then some (number .one) else none
  | _ => none

section Pass

variable [Arithmetic]

/-- A binary node with optimized operands. -/
def foldBinary (operator : String) (left right : Tree) : Tree :=
  let identity :=
    match left, right with
    | literal a, literal b => (Operator.foldSymbol? operator a b).map literal
    | literal (.number x), e => (Operator.ofSymbol? operator).bind (leftIdentity? x e)
    | e, literal (.number y) => (Operator.ofSymbol? operator).bind (rightIdentity? e y)
    | _, _ => none
  identity.getD (binary operator left right)

/-- A unary node with an optimized operand. -/
def foldUnary (operator : String) (operand : Tree) : Tree :=
  match operand with
  | literal (.number x) => if operator = "-" then number x.neg else unary operator operand
  | literal (.boolean b) => if operator = "!" then boolean !b else unary operator operand
  | _ => unary operator operand

/-- The numbers that all arguments are. -/
def numbers? (args : List Tree) : Option (List Number) := args.mapM number?

/-- The intrinsic function that a callee is. -/
def intrinsic? (callee : Tree) : Option Builtin :=
  callee.entity?.bind Entity.builtin?

/-- A call with optimized arguments. -/
def foldCall (callee : Tree) (args : List Tree) : Tree :=
  let value := do
    let builtin ← callee.intrinsic?
    let xs ← numbers? args
    builtin.value? xs
  (value.map number).getD (call callee args)

/-- A conditional with optimized parts. -/
def foldConditional (test consequent alternate : Tree) : Tree :=
  match test with
  | literal value => if value.isTruthy then consequent else alternate
  | _ => conditional test consequent alternate

/-- Are the trees one and the same object? Entities are by identity, and of each boolean there is
one. -/
def isSame : Tree → Tree → Bool
  | entity a, entity b => a.id = b.id
  | literal (.boolean a), literal (.boolean b) => a = b
  | _, _ => false

/-- An assignment with an optimized source. One that changes nothing leaves no statement. -/
def foldAssignment (target source : Tree) : Tree :=
  if isSame source target then list [] else assignment target source

/-- Puts an optimized item before others; a list is put there item by item. -/
def splice (item : Tree) (items : List Tree) : List Tree :=
  match item with
  | list parts => parts ++ items
  | item => item :: items

/-! ## The pass -/

mutual

/-- Optimizes a tree. -/
def optimize : Tree → Tree
  | program statements => program (optimizeAll statements)
  | variableDeclaration name initializer => variableDeclaration name initializer.optimize
  | functionDeclaration name params body =>
    functionDeclaration name (optimizeAll params) body.optimize
  | assignment target source => foldAssignment target source.optimize
  | whileLoop test body => whileLoop test.optimize (optimizeAll body)
  | print argument => print argument.optimize
  | call callee args => foldCall callee (optimizeAll args)
  | conditional test consequent alternate =>
    foldConditional test.optimize consequent.optimize alternate.optimize
  | binary operator left right => foldBinary operator left.optimize right.optimize
  | unary operator operand => foldUnary operator operand.optimize
  | list items => list (optimizeAll items)
  | literal value => literal value
  | entity e => entity e
  | token t => token t
  | text value => text value
  | absent => absent

/-- Optimizes the items of a list. -/
def optimizeAll : List Tree → List Tree
  | [] => []
  | item :: items => splice item.optimize (optimizeAll items)

end

/-! ## Faults -/

/-- Why the pass cannot go on. -/
inductive Fault where
  /-- A token, a text or nothing stands where a part should be optimized. -/
  | foreign (part : Tree)
  /-- An intrinsic function is applied to numbers, but not to as many as it takes. -/
  | arguments (builtin : Builtin) (count : Nat)
  /-- The arithmetic raises an exception. -/
  | raised (exception : Exception)

/-- The fault of a binary node with optimized operands. -/
def operandFault? (operator : String) (left right : Tree) : Option Fault := do
  let x ← left.number?
  let y ← right.number?
  let op ← Operator.ofSymbol? operator
  let e ← op.raised? x y
  return .raised e

/-- The fault of a call with optimized arguments. -/
def argumentFault? (callee : Tree) (args : List Tree) : Option Fault := do
  let builtin ← callee.intrinsic?
  let xs ← numbers? args
  if builtin.isIntrinsic then
    match builtin.outcome? xs with
    | some outcome => outcome.exception?.map .raised
    | none => some (.arguments builtin xs.length)
  else none

mutual

/-- The first fault that the pass comes to. Names that are declared, assigned or called are not
looked at. -/
def fault? : Tree → Option Fault
  | program statements => faultIn? statements
  | variableDeclaration _ initializer => initializer.fault?
  | functionDeclaration _ params body => (faultIn? params).or body.fault?
  | assignment _ source => source.fault?
  | whileLoop test body => test.fault?.or (faultIn? body)
  | print argument => argument.fault?
  | call callee args => (faultIn? args).or (argumentFault? callee (optimizeAll args))
  | conditional test consequent alternate =>
    (test.fault?.or consequent.fault?).or alternate.fault?
  | binary operator left right =>
    (left.fault?.or right.fault?).or (operandFault? operator left.optimize right.optimize)
  | unary _ operand => operand.fault?
  | list items => faultIn? items
  | literal _ | entity _ => none
  | token t => some (.foreign (token t))
  | text value => some (.foreign (text value))
  | absent => some (.foreign absent)

/-- The first fault in a list. -/
def faultIn? : List Tree → Option Fault
  | [] => none
  | item :: items => item.fault?.or (faultIn? items)

end

/-- Optimizes a tree, or answers the fault that prevents it. -/
def optimize? (t : Tree) : Except Fault Tree :=
  match t.fault? with
  | some fault => .error fault
  | none => .ok t.optimize

end Pass

end Quill.Tree
