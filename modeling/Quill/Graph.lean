import Quill.Tree.Record

/-!
# Graphs of trees

A graph shows a tree one object a line. Nodes and entities are objects; they are numbered in the
order in which a walk from the root first meets them, a node before its fields and fields from left
to right. Another reference to an entity shows its number again, so a shared entity has one line.
Tokens and literals are shown where they stand. A node is an object wherever it stands, so nodes
that are alike have a line each; no stage of compilation puts one node in two places.

## Main definitions

* `Numbering` — the numbers given so far.
* `Rendering` — how a part is shown, the lines of the objects it brings, and the numbering after it.
* `Tree.render` — the walk.
* `Tree.graph` — the lines of a tree.
-/

namespace Quill

/-- How many objects have a number, and which entities are among them. -/
structure Numbering where
  count : Nat
  entities : List (Entity.Id × Nat)
deriving DecidableEq

namespace Numbering

/-- Before the walk. -/
def empty : Numbering := ⟨0, []⟩

/-- The number of the next object. -/
def next (n : Numbering) : Nat := n.count + 1

/-- Gives a node the next number. -/
def addNode (n : Numbering) : Numbering := ⟨n.next, n.entities⟩

/-- Gives an entity the next number. -/
def addEntity (n : Numbering) (id : Entity.Id) : Numbering :=
  ⟨n.next, n.entities ++ [(id, n.next)]⟩

end Numbering

/-- A part of a graph. -/
structure Rendering where
  view : String
  lines : List String
  numbering : Numbering

/-- The parts of a list. -/
structure ListRendering where
  views : List String
  lines : List String
  numbering : Numbering

namespace Graph

/-- The width to which object numbers are padded. -/
def numberWidth : Nat := 4

/-- Pads a number with spaces in front. -/
def padNumber (n : Nat) : String :=
  let digits := toString n
  String.ofList (List.replicate (numberWidth - digits.length) ' ') ++ digits

/-- A reference to an object. -/
def reference (n : Nat) : String := "#" ++ toString n

/-- The line of an object. -/
def line (n : Nat) (kind : String) (fields : List (String × String)) : String :=
  let shown := fields.map fun (name, view) => " " ++ name ++ "=" ++ view
  padNumber n ++ " | " ++ kind ++ String.join shown

/-- Items in brackets. -/
def bracketed (views : List String) : String :=
  "[" ++ String.intercalate "," views ++ "]"

end Graph

open Quill.Graph Text

/-- Numbers are shown as programs write them, booleans by their names. -/
def Literal.view : Literal → String
  | .number value => value.display
  | .boolean value => booleanName value

/-- An entity is shown by its number; its line is brought by the first reference. -/
def Entity.render (e : Entity) (n : Numbering) : Rendering :=
  match n.entities.lookup e.id with
  | some number => ⟨reference number, [], n⟩
  | none => ⟨reference n.next, [line n.next e.kindName e.fields], n.addEntity e.id⟩

/-- A node whose fields have been shown. -/
def Numbering.node (n : Numbering) (kind : String) (fields : List (String × String))
    (lines : List String) (after : Numbering) : Rendering :=
  ⟨reference n.next, line n.next kind fields :: lines, after⟩

namespace Tree

mutual

/-- Shows a tree. -/
def render : Tree → Numbering → Rendering
  | absent, n => ⟨"None", [], n⟩
  | literal value, n => ⟨value.view, [], n⟩
  | text value, n => ⟨quoted value, [], n⟩
  | token t, n => ⟨t.value, [], n⟩
  | entity e, n => e.render n
  | list items, n =>
    let items := renderAll items n
    ⟨bracketed items.views, items.lines, items.numbering⟩
  | program statements, n =>
    let statements := renderAll statements n.addNode
    n.node "Program" [("statements", bracketed statements.views)] statements.lines
      statements.numbering
  | variableDeclaration name initializer, n =>
    let name := name.render n.addNode
    let initializer := initializer.render name.numbering
    n.node "VariableDeclaration" [("variable", name.view), ("initializer", initializer.view)]
      (name.lines ++ initializer.lines) initializer.numbering
  | functionDeclaration name params body, n =>
    let name := name.render n.addNode
    let params := renderAll params name.numbering
    let body := body.render params.numbering
    n.node "FunctionDeclaration"
      [("fun", name.view), ("params", bracketed params.views), ("body", body.view)]
      (name.lines ++ params.lines ++ body.lines) body.numbering
  | assignment target source, n =>
    let target := target.render n.addNode
    let source := source.render target.numbering
    n.node "Assignment" [("target", target.view), ("source", source.view)]
      (target.lines ++ source.lines) source.numbering
  | whileLoop test body, n =>
    let test := test.render n.addNode
    let body := renderAll body test.numbering
    n.node "WhileStatement" [("test", test.view), ("body", bracketed body.views)]
      (test.lines ++ body.lines) body.numbering
  | print argument, n =>
    let argument := argument.render n.addNode
    n.node "PrintStatement" [("argument", argument.view)] argument.lines argument.numbering
  | call callee args, n =>
    let callee := callee.render n.addNode
    let args := renderAll args callee.numbering
    n.node "Call" [("callee", callee.view), ("args", bracketed args.views)]
      (callee.lines ++ args.lines) args.numbering
  | conditional test consequent alternate, n =>
    let test := test.render n.addNode
    let consequent := consequent.render test.numbering
    let alternate := alternate.render consequent.numbering
    n.node "Conditional"
      [("test", test.view), ("consequent", consequent.view), ("alternate", alternate.view)]
      (test.lines ++ consequent.lines ++ alternate.lines) alternate.numbering
  | binary operator left right, n =>
    let left := left.render n.addNode
    let right := right.render left.numbering
    n.node "BinaryExpression" [("op", quoted operator), ("left", left.view), ("right", right.view)]
      (left.lines ++ right.lines) right.numbering
  | unary operator operand, n =>
    let operand := operand.render n.addNode
    n.node "UnaryExpression" [("op", quoted operator), ("operand", operand.view)]
      operand.lines operand.numbering

/-- Shows the trees in a list. -/
def renderAll : List Tree → Numbering → ListRendering
  | [], n => ⟨[], [], n⟩
  | item :: items, n =>
    let item := item.render n
    let items := renderAll items item.numbering
    ⟨item.view :: items.views, item.lines ++ items.lines, items.numbering⟩

end

/-- The lines of the graph below a tree. A leaf has none. -/
def graph (t : Tree) : List String := (t.render Numbering.empty).lines

/-- The lines of a graph as one text. -/
def graphText (t : Tree) : String := String.intercalate "\n" t.graph

end Tree
end Quill
