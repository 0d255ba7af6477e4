import Quill.Violation
import Quill.Resolve
import Quill.Optimize
import Quill.Report.Context
import Quill.Tree.Record

/-!
# Reports on violations

A violation is reported by its kind and message, with the source line that it stands on.

## Main definitions

* `Diagnostic` — a kind, a message and a place, with `Diagnostic.text` and `Diagnostic.report`.
* `Violation.diagnostic` — the diagnostic of a violation.
* `ResolveError.message`, `Tree.Fault.message` — the messages of a failed resolution and of a
  failed optimization.
* `Tree.truthMessage` — the message where a literal is missing.
-/

namespace Quill

open Report

/-- What is said about a token. The kind is the name of one of the kinds of violation. -/
structure Diagnostic where
  kind : String
  message : String
  span : Option Span
deriving DecidableEq

/-- The lines shown before and behind the line of a violation. -/
def diagnosticContextLines : Int := 1

namespace Diagnostic

/-- The message behind its place. -/
def text (d : Diagnostic) : String :=
  match d.span with
  | some span => s!"Line {span.startLine}, Column {span.startColumn}: {d.message}"
  | none => d.message

/-- The message with its kind, and the source around it when both are known. -/
def report (d : Diagnostic) (source : String) : String :=
  let heading := s!"Semantic error ({d.kind}): {d.text}"
  match d.span with
  | some span =>
    if source = "" then heading
    else heading ++ "\n" ++
      contextText source.toList span.startLine span.startColumn diagnosticContextLines span.width
  | none => heading

end Diagnostic

/-- The diagnostic of a violation. -/
def Violation.diagnostic (v : Violation) : Diagnostic :=
  ⟨v.cause.kind.name, v.cause.message, v.span⟩

namespace ResolveError

/-- The message about a part that cannot stand where it does. -/
def message : ResolveError → String
  | violation v => v.diagnostic.text
  | notAStatement part => "Unable to analyze statement: " ++ part.record
  | notAnExpression part => "Unable to analyze expression: " ++ part.record
  | notAToken part => "'" ++ part.kindName ++ "' object has no attribute 'value'"
  | notAProgram part => "'" ++ part.kindName ++ "' object has no attribute 'statements'"

end ResolveError

/-- The message about a part that is no literal where its truth is asked for. -/
def Tree.truthMessage (part : Tree) : String := "must be real number, not " ++ part.kindName

/-- The message about a fault of optimization. -/
def Tree.Fault.message : Tree.Fault → String
  | foreign part => "Unable to optimize: " ++ part.record
  | arguments builtin 0 =>
    s!"ieee_{builtin.name}() missing 1 required positional argument: 'x'"
  | arguments builtin count =>
    s!"ieee_{builtin.name}() takes 1 positional argument but {count} were given"
  | raised e => e.message

end Quill
