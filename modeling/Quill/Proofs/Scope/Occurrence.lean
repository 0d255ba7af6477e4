import Quill.Resolve

/-!
# Occurrences of names

The scoping rules, stated at each place where a program mentions a name. A walk through the program
in its order collects these places together with what has been declared before them: the body of a
loop continues the scope around it, and the body of a function sees the parameters on top of all
that is declared, the function included. Whether a name may stand where it does is then a question
about its occurrence alone.

## Main definitions

* `Origin` — where an entity comes from.
* `Surroundings` — what is declared at a point of a program, with `Surroundings.denotes?`.
* `Occurrence` — a name at a place, with its `Role` there.
* `Occurrence.IsAllowed`, `Tree.IsWellScoped` — the rules.
* `Tree.linked` — the program with an entity in place of every name.
* `Occurrence.violation?` — the rule that an occurrence breaks.
-/

namespace Quill

/-! ## Origins of entities -/

/-- Where an entity comes from. What a program declares is numbered in the order of the walk. -/
inductive Origin where
  | library (builtin : Builtin)
  | declaredVariable (index : Nat) (name : String)
  | declaredFunction (index : Nat) (name : String) (paramCount : Nat)
  | parameter (index : Nat) (name : String)
deriving DecidableEq

namespace Origin

/-- The entity of a declaration, or of the library. -/
def entity : Origin → Entity
  | library builtin => builtin.entity
  | declaredVariable index name => .declaredVariable index name
  | declaredFunction index name paramCount => .declaredFunction index name paramCount
  | parameter index name => .parameter index name

/-- The name that is declared. -/
def name (o : Origin) : String := o.entity.name

@[simp] theorem name_declaredVariable (index : Nat) (name : String) :
    (declaredVariable index name).name = name := rfl

@[simp] theorem name_declaredFunction (index : Nat) (name : String) (n : Nat) :
    (declaredFunction index name n).name = name := rfl

@[simp] theorem name_parameter (index : Nat) (name : String) :
    (parameter index name).name = name := rfl

/-- The library in order. -/
def ofLibrary : List Origin := Builtin.all.map library

/-- The first with a name. -/
def find? (name : String) (os : List Origin) : Option Origin := os.find? fun o => o.name = name

end Origin

/-- What is declared at a point of a program. -/
structure Surroundings where
  /-- By `let` and `function` before this point, in order. -/
  declared : List Origin
  /-- The parameters of the function around this point. -/
  params : List Origin
  /-- The number of declarations before this point, parameters included. -/
  count : Nat

namespace Surroundings

/-- Before any program. -/
def initial : Surroundings := ⟨[], [], 0⟩

/-- What a name denotes: a parameter of the function around it, or else what is declared before, or
else what the library calls so. -/
def denotes? (s : Surroundings) (name : String) : Option Origin :=
  (Origin.find? name s.params).or
    ((Origin.find? name s.declared).or (Origin.find? name Origin.ofLibrary))

/-- Is the name one of the library, or declared before? -/
def isTaken (s : Surroundings) (name : String) : Bool :=
  ((Origin.find? name Origin.ofLibrary).or (Origin.find? name s.declared)).isSome

end Surroundings

namespace Tree

/-- A name as it is spelled. -/
def spelling : Tree → String
  | token t => t.value
  | entity e => e.name
  | _ => ""

/-- Parameters, numbered from `n` on. -/
def parametersFrom : Nat → List Tree → List Origin
  | _, [] => []
  | n, p :: ps => .parameter n p.spelling :: parametersFrom (n + 1) ps

end Tree

namespace Surroundings

/-- Behind the declaration of a variable. -/
def afterVariable (s : Surroundings) (name : Tree) : Surroundings :=
  ⟨s.declared ++ [.declaredVariable s.count name.spelling], s.params, s.count + 1⟩

/-- Behind the declaration of a function, whose parameters are no longer seen. -/
def afterFunction (s : Surroundings) (name : Tree) (params : List Tree) : Surroundings :=
  ⟨s.declared ++ [.declaredFunction s.count name.spelling params.length], s.params,
    s.count + 1 + params.length⟩

/-- In the body of a function, which sees the function and its parameters. -/
def insideFunction (s : Surroundings) (name : Tree) (params : List Tree) : Surroundings :=
  { s.afterFunction name params with params := Tree.parametersFrom (s.count + 1) params }

end Surroundings

/-! ## The walk -/

/-- The way in which a name is used. -/
inductive Role where
  /-- As a value. -/
  | value
  /-- As the function that is called. -/
  | callee
  /-- As the function that takes this many arguments, once they have been looked at. -/
  | arity (args : Nat)
  /-- As what is assigned. -/
  | target
  /-- As what `let` or `function` declares. -/
  | declaration
  /-- As a parameter behind others of the same function. -/
  | parameter (earlier : List String)

/-- A name at a place of a program. -/
structure Occurrence where
  role : Role
  token : Token
  surroundings : Surroundings

namespace Tree

/-- The occurrence of a name in a role. -/
def asName (role : Role) (s : Surroundings) : Tree → List Occurrence
  | token t => [⟨role, t, s⟩]
  | _ => []

/-- The occurrences of parameters behind others. -/
def parameterOccurrences (s : Surroundings) : List String → List Tree → List Occurrence
  | _, [] => []
  | earlier, p :: ps =>
    p.asName (.parameter earlier) s ++ parameterOccurrences s (earlier ++ [p.spelling]) ps

variable (s : Surroundings)

mutual

/-- The names used in an expression. -/
def uses : Tree → List Occurrence
  | token t => (token t).asName .value s
  | call callee args =>
    callee.asName .callee s ++ (usesInAll args ++ callee.asName (.arity args.length) s)
  | conditional test consequent alternate => test.uses ++ (consequent.uses ++ alternate.uses)
  | binary _ left right => left.uses ++ right.uses
  | unary _ operand => operand.uses
  | _ => []

/-- The names used in expressions. -/
def usesInAll : List Tree → List Occurrence
  | [] => []
  | t :: ts => t.uses ++ usesInAll ts

end

mutual

/-- What is declared behind a statement. -/
def after : Tree → Surroundings → Surroundings
  | variableDeclaration name _, s => s.afterVariable name
  | functionDeclaration name params _, s => s.afterFunction name params
  | whileLoop _ body, s => afterAll body s
  | _, s => s

/-- What is declared behind statements. -/
def afterAll : List Tree → Surroundings → Surroundings
  | [], s => s
  | t :: ts, s => afterAll ts (t.after s)

end

mutual

/-- The names that a statement mentions. -/
def mentions : Tree → Surroundings → List Occurrence
  | variableDeclaration name initializer, s => initializer.uses s ++ name.asName .declaration s
  | functionDeclaration name params body, s =>
    name.asName .declaration s
      ++ (parameterOccurrences s [] params ++ body.uses (s.insideFunction name params))
  | assignment target source, s => target.asName .target s ++ source.uses s
  | whileLoop test body, s => test.uses s ++ mentionsInAll body s
  | print argument, s => argument.uses s
  | _, _ => []

/-- The names that statements mention. -/
def mentionsInAll : List Tree → Surroundings → List Occurrence
  | [], _ => []
  | t :: ts, s => t.mentions s ++ mentionsInAll ts (t.after s)

end

/-- The names that a program mentions, in its order. -/
def occurrences : Tree → List Occurrence
  | program statements => mentionsInAll statements .initial
  | _ => []

/-! ## The entities denoted -/

/-- A name with the entity it denotes in its place. -/
def linkName (s : Surroundings) : Tree → Tree
  | token t =>
    match s.denotes? t.value with
    | some o => entity o.entity
    | none => token t
  | part => part

mutual

/-- An expression with entities in place of its names. -/
def linkExpression : Tree → Tree
  | token t => (token t).linkName s
  | call callee args => call (callee.linkName s) (linkExpressions args)
  | conditional test consequent alternate =>
    conditional test.linkExpression consequent.linkExpression alternate.linkExpression
  | binary operator left right => binary operator left.linkExpression right.linkExpression
  | unary operator operand => unary operator operand.linkExpression
  | part => part

/-- Expressions with entities in place of their names. -/
def linkExpressions : List Tree → List Tree
  | [] => []
  | t :: ts => t.linkExpression :: linkExpressions ts

end

mutual

/-- A statement with entities in place of its names. -/
def linkStatement : Tree → Surroundings → Tree
  | variableDeclaration name initializer, s =>
    variableDeclaration (entity (Origin.declaredVariable s.count name.spelling).entity)
      (initializer.linkExpression s)
  | functionDeclaration name params body, s =>
    functionDeclaration
      (entity (Origin.declaredFunction s.count name.spelling params.length).entity)
      ((parametersFrom (s.count + 1) params).map fun o => entity o.entity)
      (body.linkExpression (s.insideFunction name params))
  | assignment target source, s => assignment (target.linkName s) (source.linkExpression s)
  | whileLoop test body, s => whileLoop (test.linkExpression s) (linkStatements body s)
  | print argument, s => print (argument.linkExpression s)
  | part, _ => part

/-- Statements with entities in place of their names. -/
def linkStatements : List Tree → Surroundings → List Tree
  | [], _ => []
  | t :: ts, s => t.linkStatement s :: linkStatements ts (t.after s)

end

/-- A program with the entity that is denoted in place of every name. -/
def linked : Tree → Tree
  | program statements => program (linkStatements statements .initial)
  | part => part

end Tree

/-! ## The rules -/

namespace Occurrence

/-- What the name denotes at its place. -/
def denotes? (o : Occurrence) : Option Origin := o.surroundings.denotes? o.token.value

/-- May the name stand in its role at its place? -/
def IsAllowed (o : Occurrence) : Prop :=
  match o.role with
  | .value => ∃ d, o.denotes? = some d ∧ d.entity.isVariable = true
  | .callee => ∃ d, o.denotes? = some d ∧ d.entity.isVariable = false
  | .arity args => ∃ d, o.denotes? = some d ∧ d.entity.paramCount? = some (args : Int)
  | .target => ∃ index name, o.denotes? = some (.declaredVariable index name)
  | .declaration =>
    (∀ b : Builtin, o.token.value ≠ b.name) ∧ ∀ d ∈ o.surroundings.declared, o.token.value ≠ d.name
  | .parameter earlier => o.token.value ∉ earlier

/-- Why the name may not stand there, if so. -/
def cause? (o : Occurrence) : Option Violation.Cause :=
  match o.role, o.denotes? with
  | .declaration, _ =>
    if o.surroundings.isTaken o.token.value then some (.alreadyDeclared o.token.value) else none
  | .parameter earlier, _ =>
    if o.token.value ∈ earlier then some (.alreadyDeclared o.token.value) else none
  | _, none => some (.notDeclared o.token.value)
  | .value, some d => if d.entity.isVariable then none else some .functionAsValue
  | .callee, some d => if d.entity.isVariable then some (.notAFunction d.name) else none
  | .arity args, some d =>
    match d.entity.paramCount? with
    | none => some (.notAFunction d.name)
    | some required => if args = required then none else some (.arity required args)
  | .target, some (.declaredVariable _ _) => none
  | .target, some d => some (.readOnly d.name)

/-- The violation at the name. -/
def violation? (o : Occurrence) : Option Violation :=
  o.cause?.map fun cause => ⟨cause, o.token.span⟩

end Occurrence

/-- Does every name stand where it may? -/
def Tree.IsWellScoped (t : Tree) : Prop := ∀ o ∈ t.occurrences, o.IsAllowed

end Quill
