import Quill.Tree
import Quill.Text.Quoted
import Quill.Number.Shortest

/-!
# Trees as records

The record form of a tree names the kind of each part and its fields in order, as in
`PrintStatement(argument=1.0)`. Errors about a misplaced part show it in this form.

## Main definitions

* `Tree.kindName` — the name of the kind of a part.
* `Entity.record`, `Tree.record` — the record forms.
-/

namespace Quill

open Text

/-- `true` and `false` as shown in records and graphs. -/
def booleanName (value : Bool) : String := if value then "True" else "False"

/-- A kind with its fields. -/
def recordOf (kind : String) (fields : List (String × String)) : String :=
  let shown := fields.map fun (name, value) => name ++ "=" ++ value
  kind ++ "(" ++ String.intercalate ", " shown ++ ")"

namespace Entity

/-- The name of the kind of an entity. -/
def kindName (e : Entity) : String :=
  match e.kind with
  | .variable => "Variable"
  | .function _ => "Function"

/-- The fields of an entity in order. -/
def fields (e : Entity) : List (String × String) :=
  let paramCount :=
    match e.kind with
    | .variable => []
    | .function paramCount => [("param_count", toString paramCount)]
  ("name", quoted e.name) :: paramCount ++ [("read_only", booleanName e.readOnly)]

/-- The record form of an entity. -/
def record (e : Entity) : String := recordOf e.kindName e.fields

end Entity

/-- The record form of a span. -/
def Span.record (s : Span) : String :=
  recordOf "SourceSpan"
    [("filename", quoted s.filename), ("start_line", toString s.startLine),
      ("start_col", toString s.startColumn), ("end_line", toString s.endLine),
      ("end_col", toString s.endColumn), ("text", quoted s.content)]

/-- The record form of a token. -/
def Token.record (t : Token) : String :=
  recordOf "Token"
    [("type", quoted Token.kindName), ("value", quoted t.value),
      ("span", (t.span.map Span.record).getD "None")]

/-- The record form of a literal. -/
def Literal.record : Literal → String
  | .number value => value.text
  | .boolean value => booleanName value

namespace Tree

/-- The name of the kind of a part. -/
def kindName : Tree → String
  | absent => "NoneType"
  | literal (.number _) => "float"
  | literal (.boolean _) => "bool"
  | text _ => "str"
  | list _ => "list"
  | token _ => "Token"
  | entity e => e.kindName
  | program _ => "Program"
  | variableDeclaration _ _ => "VariableDeclaration"
  | functionDeclaration _ _ _ => "FunctionDeclaration"
  | assignment _ _ => "Assignment"
  | whileLoop _ _ => "WhileStatement"
  | print _ => "PrintStatement"
  | call _ _ => "Call"
  | conditional _ _ _ => "Conditional"
  | binary _ _ _ => "BinaryExpression"
  | unary _ _ => "UnaryExpression"

mutual

/-- The record form of a tree. -/
def record : Tree → String
  | absent => "None"
  | literal value => value.record
  | text value => quoted value
  | list items => listRecord items
  | token t => t.record
  | entity e => e.record
  | program statements => recordOf "Program" [("statements", listRecord statements)]
  | variableDeclaration name initializer =>
    recordOf "VariableDeclaration"
      [("variable", name.record), ("initializer", initializer.record)]
  | functionDeclaration name params body =>
    recordOf "FunctionDeclaration"
      [("fun", name.record), ("params", listRecord params), ("body", body.record)]
  | assignment target source =>
    recordOf "Assignment" [("target", target.record), ("source", source.record)]
  | whileLoop test body =>
    recordOf "WhileStatement" [("test", test.record), ("body", listRecord body)]
  | print argument => recordOf "PrintStatement" [("argument", argument.record)]
  | call callee args => recordOf "Call" [("callee", callee.record), ("args", listRecord args)]
  | conditional test consequent alternate =>
    recordOf "Conditional"
      [("test", test.record), ("consequent", consequent.record), ("alternate", alternate.record)]
  | binary operator left right =>
    recordOf "BinaryExpression"
      [("op", quoted operator), ("left", left.record), ("right", right.record)]
  | unary operator operand =>
    recordOf "UnaryExpression" [("op", quoted operator), ("operand", operand.record)]

/-- The record form of a list of trees. -/
def listRecord (items : List Tree) : String :=
  "[" ++ String.intercalate ", " (recordEach items) ++ "]"

/-- The record forms of the trees in a list. -/
def recordEach : List Tree → List String
  | [] => []
  | item :: items => item.record :: recordEach items

end

end Tree
end Quill
