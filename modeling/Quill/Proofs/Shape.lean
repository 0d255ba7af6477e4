import Quill.Tree
import Quill.Library

/-!
# The shape of programs

A tree is a program when statements, expressions and names stand where they belong. Reading puts
tokens where names stand and resolution puts entities there, so the shape is stated once, over what
may stand for a name: `Naming.raw` asks for tokens, and `Naming.resolved` for entities that are fit
for their place.

## Main definitions

* `Naming` — what may stand where a name is expected.
* `Tree.IsExpression`, `Tree.IsStatement`, `Tree.IsProgram` — the shape over a naming.
* `Naming.raw`, `Naming.resolved` — the namings before and after resolution.
-/

namespace Quill

/-- What may stand where a name is expected. A called name comes with the number of arguments, and
the name of a declared function with the number of parameters. -/
structure Naming where
  value : Tree → Prop
  callee : Nat → Tree → Prop
  target : Tree → Prop
  variableName : Tree → Prop
  functionName : Nat → Tree → Prop
  parameter : Tree → Prop

namespace Tree

variable (N : Naming)

/-! ## Expressions and statements -/

mutual

/-- Is the tree an expression? -/
def IsExpression : Tree → Prop
  | literal _ => True
  | token t => N.value (token t)
  | entity e => N.value (entity e)
  | call callee args => N.callee args.length callee ∧ AreExpressions args
  | conditional test consequent alternate =>
    test.IsExpression ∧ consequent.IsExpression ∧ alternate.IsExpression
  | binary _ left right => left.IsExpression ∧ right.IsExpression
  | unary _ operand => operand.IsExpression
  | _ => False

/-- Are all trees expressions? -/
def AreExpressions : List Tree → Prop
  | [] => True
  | t :: ts => t.IsExpression ∧ AreExpressions ts

end

mutual

/-- Is the tree a statement? -/
def IsStatement : Tree → Prop
  | variableDeclaration name initializer => N.variableName name ∧ initializer.IsExpression N
  | functionDeclaration name params body =>
    N.functionName params.length name ∧ (∀ p ∈ params, N.parameter p) ∧ body.IsExpression N
  | assignment target source => N.target target ∧ source.IsExpression N
  | whileLoop test body => test.IsExpression N ∧ AreStatements body
  | print argument => argument.IsExpression N
  | _ => False

/-- Are all trees statements? -/
def AreStatements : List Tree → Prop
  | [] => True
  | t :: ts => t.IsStatement ∧ AreStatements ts

end

/-- Is the tree a program? -/
def IsProgram : Tree → Prop
  | program statements => AreStatements N statements
  | _ => False

/-! ## Names -/

/-- A name before resolution. -/
def IsToken : Tree → Prop
  | token _ => True
  | _ => False

/-- A name after resolution, for an entity with this property. -/
def IsEntity (P : Entity → Prop) : Tree → Prop
  | entity e => P e
  | _ => False

theorem isToken_iff {t : Tree} : t.IsToken ↔ ∃ name, t = token name := by
  cases t <;> simp [IsToken]

theorem isEntity_iff {P : Entity → Prop} {t : Tree} : t.IsEntity P ↔ ∃ e, t = entity e ∧ P e := by
  cases t <;> simp [IsEntity]

end Tree

/-- Variables are what has no number of parameters. -/
theorem Entity.isVariable_eq (e : Entity) : e.isVariable = e.paramCount?.isNone := by
  unfold isVariable paramCount?
  cases e.kind <;> rfl

/-- An entity with the identity of a library entity is that entity. -/
def Entity.IsGenuine (e : Entity) : Prop := ∀ b, e.builtin? = some b → e = b.entity

theorem Builtin.isGenuine_entity (b : Builtin) : b.entity.IsGenuine := by
  intro b' h
  rw [builtin?_entity] at h
  rw [Option.some.inj h]

theorem Entity.isGenuine_of_builtin?_eq_none {e : Entity} (h : e.builtin? = none) :
    e.IsGenuine := by
  intro b hb
  simp [h] at hb

namespace Naming

/-- Before resolution every name is a token. -/
def raw : Naming where
  value := Tree.IsToken
  callee _ := Tree.IsToken
  target := Tree.IsToken
  variableName := Tree.IsToken
  functionName _ := Tree.IsToken
  parameter := Tree.IsToken

/-- After resolution every name is an entity fit for its place: values are variables, functions are
called with as many arguments as they take, and what is assigned is no constant. -/
def resolved : Naming where
  value := Tree.IsEntity fun e => e.isVariable ∧ e.IsGenuine
  callee n := Tree.IsEntity fun e => e.paramCount? = some (n : Int) ∧ e.IsGenuine
  target := Tree.IsEntity fun e => e.kind = .variable ∧ e.readOnly = false ∧ e.builtin? = none
  variableName := Tree.IsEntity fun e =>
    e.kind = .variable ∧ e.readOnly = false ∧ e.builtin? = none
  functionName n := Tree.IsEntity fun e =>
    e.kind = .function n ∧ e.readOnly = true ∧ e.builtin? = none
  parameter := Tree.IsEntity fun e => e.kind = .variable ∧ e.readOnly = true ∧ e.builtin? = none

end Naming
end Quill
