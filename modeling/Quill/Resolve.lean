import Quill.Tree
import Quill.Scope
import Quill.Violation

/-!
# Resolution of names

Resolution walks a program in order and puts, in place of every token, the entity that it denotes.
Declarations bind new entities in the current frame; a function opens a frame for its parameters and
a loop opens none. The first violation ends the walk.

## Main definitions

* `ResolveError` — a violation, or a part that cannot stand where it does.
* `Tree.resolveExpression scope` — expressions change nothing in the scope.
* `Tree.resolveStatement` — statements hand the declarations on.
* `Tree.resolve` — a whole program below the standard library.
-/

namespace Quill

/-- Why resolution fails. All but the first arise from hand-made trees only. -/
inductive ResolveError where
  | violation (violation : Violation)
  | notAStatement (part : Tree)
  | notAnExpression (part : Tree)
  | notAToken (part : Tree)
  | notAProgram (part : Tree)

/-- The scope at a point of a program, and the number of the next entity. -/
structure Declarations where
  scope : Scope
  next : Nat
deriving DecidableEq

/-- Before any program. -/
def Declarations.initial : Declarations := ⟨Scope.root, 0⟩

/-! ## Rules -/

/-- The violation with this cause at a token. -/
def Token.reject (t : Token) (cause : Violation.Cause) : ResolveError :=
  .violation ⟨cause, t.span⟩

namespace Scope

/-- A declared name must be new in its frame. -/
def requireNew (s : Scope) (t : Token) : Except ResolveError Unit :=
  if s.declares t.value then .error (t.reject (.alreadyDeclared t.value)) else .ok ()

/-- A used name must be bound. -/
def denoted (s : Scope) (t : Token) : Except ResolveError Entity :=
  match s.lookup? t.value with
  | some e => .ok e
  | none => .error (t.reject (.notDeclared t.value))

end Scope

namespace Entity

/-- The target of an assignment must not be read only. -/
def requireWritable (e : Entity) (t : Token) : Except ResolveError Unit :=
  if e.readOnly then .error (t.reject (.readOnly e.name)) else .ok ()

/-- A name in value position must denote a variable. -/
def requireVariable (e : Entity) (t : Token) : Except ResolveError Unit :=
  if e.isVariable then .ok () else .error (t.reject .functionAsValue)

/-- A called name must denote a function; the answer is its number of parameters. -/
def requireFunction (e : Entity) (t : Token) : Except ResolveError Int :=
  match e.paramCount? with
  | some paramCount => .ok paramCount
  | none => .error (t.reject (.notAFunction e.name))

end Entity

/-- A call must pass as many arguments as the function has parameters. -/
def Token.requireArity (t : Token) (required : Int) (passed : Nat) : Except ResolveError Unit :=
  if passed = required then .ok () else .error (t.reject (.arity required passed))

namespace Tree

/-- The token of a name that is declared, assigned or called. -/
def asToken : Tree → Except ResolveError Token
  | token t => .ok t
  | part => .error (.notAToken part)

/-- The function that is called, with its token and number of parameters. -/
def resolveCallee (s : Scope) (callee : Tree) : Except ResolveError (Token × Entity × Int) := do
  let t ← callee.asToken
  let e ← s.denoted t
  let required ← e.requireFunction t
  return (t, e, required)

/-- The variable that is assigned. -/
def resolveTarget (s : Scope) (target : Tree) : Except ResolveError Entity := do
  let t ← target.asToken
  let e ← s.denoted t
  e.requireWritable t
  e.requireVariable t
  return e

/-! ## Expressions -/

mutual

/-- Resolves an expression. -/
def resolveExpression (s : Scope) : Tree → Except ResolveError Tree
  | literal value => .ok (literal value)
  | token t => do
    let e ← s.denoted t
    e.requireVariable t
    return entity e
  | call callee args => do
    let (t, e, required) ← resolveCallee s callee
    let args ← resolveExpressions s args
    t.requireArity required args.length
    return call (entity e) args
  | conditional test consequent alternate => do
    let test ← resolveExpression s test
    let consequent ← resolveExpression s consequent
    let alternate ← resolveExpression s alternate
    return conditional test consequent alternate
  | binary operator left right => do
    let left ← resolveExpression s left
    let right ← resolveExpression s right
    return binary operator left right
  | unary operator operand => do
    let operand ← resolveExpression s operand
    return unary operator operand
  | part => .error (.notAnExpression part)

/-- Resolves expressions from left to right. -/
def resolveExpressions (s : Scope) : List Tree → Except ResolveError (List Tree)
  | [] => .ok []
  | part :: parts => do
    let part ← resolveExpression s part
    let parts ← resolveExpressions s parts
    return part :: parts

end

/-! ## Statements -/

/-- Declares parameters in the innermost frame, from left to right. -/
def declareParameters :
    List Tree → Declarations → Except ResolveError (List Tree × Declarations)
  | [], d => .ok ([], d)
  | param :: params, d => do
    let t ← param.asToken
    d.scope.requireNew t
    let e := Entity.parameter d.next t.value
    let (params, d) ← declareParameters params ⟨d.scope.bind t.value e, d.next + 1⟩
    return (entity e :: params, d)

/-- A declared function: its entity and parameters, the scope behind it, and the declarations that
its body sees. -/
structure FunctionHead where
  entity : Entity
  params : List Tree
  scope : Scope
  inner : Declarations

/-- Declares a function in the current frame, and its parameters in a frame of their own. -/
def resolveHead (name : Tree) (params : List Tree) (d : Declarations) :
    Except ResolveError FunctionHead := do
  let t ← name.asToken
  d.scope.requireNew t
  let e := Entity.declaredFunction d.next t.value params.length
  let scope := d.scope.bind t.value e
  let (params, inner) ← declareParameters params ⟨scope.enter, d.next + 1⟩
  return ⟨e, params, scope, inner⟩

mutual

/-- Resolves a statement. The initializer of a variable does not see the variable, and the body of a
function sees the function. -/
def resolveStatement : Tree → Declarations → Except ResolveError (Tree × Declarations)
  | variableDeclaration name initializer, d => do
    let initializer ← initializer.resolveExpression d.scope
    let t ← name.asToken
    d.scope.requireNew t
    let e := Entity.declaredVariable d.next t.value
    return (variableDeclaration (entity e) initializer, ⟨d.scope.bind t.value e, d.next + 1⟩)
  | functionDeclaration name params body, d => do
    let head ← resolveHead name params d
    let body ← body.resolveExpression head.inner.scope
    return (functionDeclaration (entity head.entity) head.params body,
      ⟨head.scope, head.inner.next⟩)
  | assignment target source, d => do
    let e ← resolveTarget d.scope target
    let source ← source.resolveExpression d.scope
    return (assignment (entity e) source, d)
  | whileLoop test body, d => do
    let test ← test.resolveExpression d.scope
    let (body, d) ← resolveStatements body d
    return (whileLoop test body, d)
  | print argument, d => do
    let argument ← argument.resolveExpression d.scope
    return (print argument, d)
  | part, _ => .error (.notAStatement part)

/-- Resolves statements in order. -/
def resolveStatements : List Tree → Declarations → Except ResolveError (List Tree × Declarations)
  | [], d => .ok ([], d)
  | statement :: statements, d => do
    let (statement, d) ← resolveStatement statement d
    let (statements, d) ← resolveStatements statements d
    return (statement :: statements, d)

end

/-- Resolves a program on top of earlier declarations. -/
def resolveProgram : Tree → Declarations → Except ResolveError (Tree × Declarations)
  | program statements, d => do
    let (statements, d) ← resolveStatements statements d
    return (program statements, d)
  | part, _ => .error (.notAProgram part)

/-- Resolves a program below the standard library. -/
def resolve (t : Tree) : Except ResolveError Tree :=
  (·.1) <$> t.resolveProgram Declarations.initial

end Tree
end Quill
