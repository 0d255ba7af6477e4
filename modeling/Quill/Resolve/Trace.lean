import Quill.Resolve
import Quill.Tree.Record

/-!
# Traces of resolution

Resolution can report every statement and expression it comes to, before looking into it. The trace
ends where resolution fails.

## Main definitions

* `Tree.traceProgram` — the lines reported while a program is resolved.
-/

namespace Quill

/-- What follows a step, if the step succeeds. -/
def Except.continuing {ε α : Type} (step : Except ε α) (rest : α → List String) : List String :=
  match step with
  | .ok value => rest value
  | .error _ => []

namespace Tree

mutual

/-- The lines reported for an expression. -/
def traceExpression (s : Scope) (t : Tree) : List String :=
  s!"Analyzing expression: {t.kindName}" ::
    match t with
    | call callee args =>
      Except.continuing (resolveCallee s callee) fun _ => traceExpressions s args
    | conditional test consequent alternate =>
      traceExpression s test
        ++ Except.continuing (resolveExpression s test) fun _ => traceExpression s consequent
          ++ Except.continuing (resolveExpression s consequent) fun _ => traceExpression s alternate
    | binary _ left right =>
      traceExpression s left
        ++ Except.continuing (resolveExpression s left) fun _ => traceExpression s right
    | unary _ operand => traceExpression s operand
    | _ => []

/-- The lines reported for expressions from left to right. -/
def traceExpressions (s : Scope) : List Tree → List String
  | [] => []
  | part :: parts =>
    traceExpression s part
      ++ Except.continuing (resolveExpression s part) fun _ => traceExpressions s parts

end

mutual

/-- The lines reported for a statement. -/
def traceStatement (t : Tree) (d : Declarations) : List String :=
  s!"Analyzing statement: {t.kindName}" ::
    match t with
    | variableDeclaration _ initializer => initializer.traceExpression d.scope
    | functionDeclaration name params body =>
      Except.continuing (resolveHead name params d) fun head =>
        body.traceExpression head.inner.scope
    | assignment target source =>
      Except.continuing (resolveTarget d.scope target) fun _ => source.traceExpression d.scope
    | whileLoop test body =>
      test.traceExpression d.scope
        ++ Except.continuing (test.resolveExpression d.scope) fun _ => traceStatements body d
    | print argument => argument.traceExpression d.scope
    | _ => []

/-- The lines reported for statements in order. -/
def traceStatements : List Tree → Declarations → List String
  | [], _ => []
  | statement :: statements, d =>
    traceStatement statement d
      ++ Except.continuing (resolveStatement statement d) fun (_, d) => traceStatements statements d

end

/-- The lines reported for a program. -/
def traceProgram (t : Tree) (d : Declarations) : List String :=
  match t with
  | program statements => traceStatements statements d
  | _ => []

end Tree
end Quill
