import Quill.Grammar.Program
import Quill.Resolve.Trace
import Quill.Optimize
import Quill.Graph
import Quill.Report.ParseError
import Quill.Report.Diagnostic

/-!
# Compilation

A source is read, resolved and optimized, up to a stage. Every stage has a trace that can be shown
beside its result. The stack of the host is taken to hold all of this; on one that gives out the
same stages are in `Quill.Stack`.

## Main definitions

* `Stage` — how far to go.
* `CompileError` — why there is no result.
* `Tree.read`, `compile` — the stages of a source.
* `readTrace` — the line reported when a program has been read.
-/

namespace Quill

/-- The stages of compilation. -/
inductive Stage where
  | parsed
  | analyzed
  | optimized
deriving DecidableEq

/-- The name of a stage. -/
def Stage.name : Stage → String
  | parsed => "parsed"
  | analyzed => "analyzed"
  | optimized => "optimized"

/-- The stage of a name. -/
def Stage.ofName? (name : String) : Option Stage :=
  [parsed, analyzed, optimized].find? fun stage => stage.name = name

/-- Why compilation has no result. -/
inductive CompileError where
  | parse (error : ParseError)
  | resolve (error : ResolveError)
  | optimize (fault : Tree.Fault)
  /-- The stage has no such name. -/
  | stage
  /-- The stack of the host has given out, with what it reports then. -/
  | exhausted (message : String)

/-- The message of an error, without its place. -/
def CompileError.message : CompileError → String
  | parse e => e.message
  | resolve e => e.message
  | optimize fault => fault.message
  | stage => "Unknown output type"
  | exhausted message => message

/-- Reads a source as a program. -/
def Tree.read (filename source : String) : Except CompileError Tree :=
  (Tree.ofProgram filename source.toList).mapError fun f => .parse (f.toParseError source.toList)

/-- Reads a source as an expression. -/
def Tree.readExpression (filename source : String) : Except CompileError Tree :=
  (Tree.ofExpression filename source.toList).mapError fun f => .parse (f.toParseError source.toList)

/-- Carries a program that has been read on to a stage, below the given declarations. -/
def Tree.compileTo (d : Declarations) (t : Tree) : Stage → Except CompileError (Tree × Declarations)
  | .parsed => .ok (t, d)
  | .analyzed => (t.resolveProgram d).mapError .resolve
  | .optimized => do
    let (t, d) ← (t.resolveProgram d).mapError .resolve
    let t ← t.optimize?.mapError .optimize
    return (t, d)

/-- Compiles a source up to a stage, below the given declarations. -/
def compileAt (d : Declarations) (stage : Stage) (filename source : String) :
    Except CompileError (Tree × Declarations) := do
  let t ← Tree.read filename source
  t.compileTo d stage

/-- Compiles a source up to a stage. -/
def compile (stage : Stage) (filename source : String) : Except CompileError Tree :=
  (·.1) <$> compileAt Declarations.initial stage filename source

/-- The line reported when a program has been read. -/
def readTrace (filename : String) : Tree → List String
  | .program statements =>
    [s!"Parsed {statements.length} top-level statements from {filename}"]
  | _ => []

end Quill
