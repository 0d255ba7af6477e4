import Mathlib.Data.List.Forall2
import Quill.Optimize

/-!
# Values of expressions

What an expression stands for once its variables have values and the functions that are not computed
have graphs. Operators have the values that folding gives them, intrinsic functions those of the
library, and a conditional evaluates the chosen arm only. What the language gives no meaning has no
value.

## Main definitions

* `Literal.IsFinite`, `Literal.Agrees` — finite values, and equality of values up to the sign of a
  zero.
* `Valuation`, `Valuation.RespectsEqual` — values of variables and graphs of functions.
* `Tree.eval?` — the value of an expression.
* `Tree.met` — the values met on the way.
-/

namespace Quill

namespace Literal

/-- A boolean, or a number that is neither infinite nor NaN. -/
def IsFinite : Literal → Prop
  | number x => x.isFinite = true
  | boolean _ => True

/-- The same boolean, or equal numbers. -/
def Agrees : Literal → Literal → Prop
  | number x, number y => x.equal y = true
  | boolean a, boolean b => a = b
  | _, _ => False

instance (v : Literal) : Decidable v.IsFinite := by
  cases v <;> unfold IsFinite <;> infer_instance

end Literal

/-- Values for the variables, and partial functions for the functions that are not computed. -/
structure Valuation where
  value : Entity → Literal
  apply : Entity → List Literal → Option Literal

namespace Valuation

/-- Equal arguments give equal results, as far as these are finite. -/
def RespectsEqual (ν : Valuation) : Prop :=
  ∀ e args args' v, List.Forall₂ Literal.Agrees args args' → ν.apply e args = some v →
    v.IsFinite → ∃ v', ν.apply e args' = some v' ∧ v.Agrees v'

/-- The value of a call. An intrinsic function counts booleans as numbers; a variable cannot be
called. -/
def call? (ν : Valuation) (e : Entity) (args : List Literal) : Option Literal :=
  match e.builtin?.filter Builtin.isIntrinsic with
  | some b => (b.value? (args.map Literal.toNumber)).map .number
  | none => if e.isVariable then none else ν.apply e args

end Valuation

/-- The value of a unary operator, as written, on a literal. -/
def unaryValue? (symbol : String) : Literal → Option Literal
  | .number x => if symbol = "-" then some (.number x.neg) else none
  | .boolean b => if symbol = "!" then some (.boolean !b) else none

namespace Tree

variable (ν : Valuation)

mutual

/-- The value of an expression. -/
def eval? : Tree → Option Literal
  | literal v => some v
  | entity e => if e.isVariable then some (ν.value e) else none
  | call callee args => callee.entity?.bind fun e => (evalAll? args).bind (ν.call? e)
  | conditional test consequent alternate =>
    test.eval?.bind fun v => if v.isTruthy then consequent.eval? else alternate.eval?
  | binary operator left right =>
    left.eval?.bind fun a => right.eval?.bind (Operator.foldSymbol? operator a)
  | unary operator operand => operand.eval?.bind (unaryValue? operator)
  | _ => none

/-- The values of expressions. -/
def evalAll? : List Tree → Option (List Literal)
  | [] => some []
  | t :: ts => t.eval?.bind fun v => (evalAll? ts).map (v :: ·)

end

mutual

/-- The values met while an expression is evaluated, its own included. -/
def met : Tree → List Literal
  | call callee args => metInAll args ++ (eval? ν (call callee args)).toList
  | conditional test consequent alternate =>
    test.met ++
      match test.eval? ν with
      | some v => if v.isTruthy then consequent.met else alternate.met
      | none => []
  | binary operator left right =>
    left.met ++ right.met ++ (eval? ν (binary operator left right)).toList
  | unary operator operand => operand.met ++ (eval? ν (unary operator operand)).toList
  | t => (t.eval? ν).toList

/-- The values met while expressions are evaluated. -/
def metInAll : List Tree → List Literal
  | [] => []
  | t :: ts => t.met ++ metInAll ts

end

/-- Evaluation meets booleans and finite numbers only. -/
def MeetsFinite (t : Tree) : Prop := ∀ v ∈ t.met ν, v.IsFinite

instance (t : Tree) : Decidable (t.MeetsFinite ν) :=
  inferInstanceAs (Decidable (∀ v ∈ t.met ν, v.IsFinite))

end Tree
end Quill
