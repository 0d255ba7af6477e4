import Quill.Compile

/-!
# Compilation on a stack

Reading calls itself on nested parts, and so do the later stages and the one that shows a graph; the
stack of the host may give out before they are done. How much of it a text takes is the affair of
the host and of the tools that read for it, so that a stack is known here by what it holds alone.
When it gives out no stage reports an error of its own: the failure is one that nothing foresees,
whether the text is well-formed or not. Of the lines reported along the way, those of a stage in
which the stack gives out are left out.

Everything else in this library is about texts that the stack holds, and without bound it holds all.

## Main definitions

* `Stack` — what the stack of the host holds.
* `Stack.unbounded`, `Stack.ofDepth` — a stack that never gives out, and one for texts that open so
  many brackets at once.
* `Stack.compileAt`, `Stack.compile`, `Stack.compileNamed` — the stages of a source on a stack.
* `Stack.graphText`, `Stack.graphAt` — the text of a graph, and that of a source with the
  declarations behind it.
* `Stack.compileTrace` — the lines reported along the way.
-/

namespace Quill

/-- What the stack of the host holds. -/
structure Stack where
  /-- Does it hold while a text is read? -/
  reads : List Char → Bool
  /-- Does it hold while a program that has been read is resolved, below declarations? -/
  resolves : Declarations → Tree → Bool
  /-- Does it hold while a resolved program is optimized? -/
  optimizes : Tree → Bool
  /-- Does it hold while the graph of a program is shown? -/
  shows : Tree → Bool
  /-- What is reported when it gives out. -/
  message : String

namespace Stack

/-- A stack that never gives out. -/
def unbounded : Stack := ⟨fun _ => true, fun _ _ => true, fun _ => true, fun _ => true, ""⟩

/-- The greatest number of brackets of a text that are open at once, beyond those open before it.
Brackets in comments do not count. -/
def nesting (opened : Nat) (comment : Bool) : List Char → Nat
  | [] => opened
  | c :: cs =>
    if comment then nesting opened (c ≠ '\n') cs
    else if c = '/' ∧ cs.head? = some '/' then nesting opened true cs
    else if c = '(' ∨ c = '\x7b' then nesting (opened + 1) false cs
    else if c = ')' ∨ c = '\x7d' then max opened (nesting (opened - 1) false cs)
    else nesting opened false cs

/-- A stack that holds texts which open at most so many brackets at once. -/
def ofDepth (depth : Nat) (message : String) : Stack :=
  { unbounded with reads := fun cs => nesting 0 false cs ≤ depth, message }

/-- What a stage answers if the stack holds. -/
def within {α : Type} (k : Stack) (holds : Bool) (x : Except CompileError α) :
    Except CompileError α :=
  if holds then x else .error (.exhausted k.message)

@[simp] theorem within_true {α : Type} (k : Stack) (x : Except CompileError α) :
    k.within true x = x := rfl

/-! ## Stages -/

/-- Reads a source as a program. -/
def read (k : Stack) (filename source : String) : Except CompileError Tree :=
  k.within (k.reads source.toList) (Tree.read filename source)

/-- Resolves a program below the given declarations. -/
def resolve (k : Stack) (d : Declarations) (t : Tree) : Except CompileError (Tree × Declarations) :=
  k.within (k.resolves d t) ((t.resolveProgram d).mapError .resolve)

/-- Optimizes a resolved program. -/
def optimize (k : Stack) (t : Tree) : Except CompileError Tree :=
  k.within (k.optimizes t) (t.optimize?.mapError .optimize)

/-- The text of the graph of a program. -/
def graphText (k : Stack) (t : Tree) : Except CompileError String :=
  k.within (k.shows t) (.ok t.graphText)

/-- Carries a program that has been read on to a stage, below the given declarations. -/
def compileTo (k : Stack) (d : Declarations) (t : Tree) :
    Stage → Except CompileError (Tree × Declarations)
  | .parsed => .ok (t, d)
  | .analyzed => k.resolve d t
  | .optimized => do
    let (t, d) ← k.resolve d t
    let t ← k.optimize t
    return (t, d)

/-- Compiles a source up to a stage, below the given declarations. -/
def compileAt (k : Stack) (d : Declarations) (stage : Stage) (filename source : String) :
    Except CompileError (Tree × Declarations) := do
  let t ← k.read filename source
  k.compileTo d t stage

/-- Compiles a source up to a stage. -/
def compile (k : Stack) (stage : Stage) (filename source : String) : Except CompileError Tree :=
  (·.1) <$> k.compileAt Declarations.initial stage filename source

/-- Compiles a source up to the stage with a name. -/
def compileNamed (k : Stack) (stage filename source : String) : Except CompileError Tree :=
  match Stage.ofName? stage with
  | some stage => k.compile stage filename source
  | none => .error .stage

/-- The text of the graph of a program that has been read at a stage, and the declarations behind
it. What is resolved advances them, whether or not it is carried on. -/
def graphTo (k : Stack) (d : Declarations) (t : Tree) (stage : Stage) :
    Except CompileError String × Declarations :=
  if stage = .parsed then (k.graphText t, d)
  else
    match k.resolve d t with
    | .error e => (.error e, d)
    | .ok (t, d) => (if stage = .optimized then k.optimize t >>= k.graphText else k.graphText t, d)

/-- The text of the graph of a source at a stage, and the declarations behind it. -/
def graphAt (k : Stack) (d : Declarations) (stage : Stage) (filename source : String) :
    Except CompileError String × Declarations :=
  match k.read filename source with
  | .error e => (.error e, d)
  | .ok t => k.graphTo d t stage

/-- The lines reported while a source is compiled below the given declarations. -/
def compileTraceAt (k : Stack) (d : Declarations) (stage : Stage) (filename source : String) :
    List String :=
  if k.reads source.toList then
    Except.continuing (Tree.read filename source) fun t =>
      readTrace filename t ++
        if stage = .parsed ∨ !k.resolves d t then [] else t.traceProgram d
  else []

/-- The lines reported while a source is compiled up to the stage with a name. -/
def compileTrace (k : Stack) (stage filename source : String) : List String :=
  match Stage.ofName? stage with
  | some stage => k.compileTraceAt Declarations.initial stage filename source
  | none => []

end Stack
end Quill
