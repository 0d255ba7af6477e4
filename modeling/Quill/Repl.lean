import Quill.Session
import Quill.Stack
import Quill.Text.Blank

/-!
# The interactive mode

The interactive mode reads a line at a time. A line is a command, or statements that are compiled
below the declarations of earlier lines. Its output is a function of the lines alone. Line editing,
the history between runs and interrupts belong to the terminal and are left out.

## Main definitions

* `Repl` — the state between lines.
* `Repl.Command` — what a line asks for.
* `Repl.step` — the lines printed for an input line, and whether to go on.
* `Repl.run`, `Repl.runOn` — everything printed for a list of lines and the end of the input.
* `completions` — the words offered for a beginning.
-/

namespace Quill

open Text

/-- The name and version of the program. -/
def versionLine : String := "Quill v0.3.0"

/-- The state of the interactive mode. -/
structure Repl where
  debug : Bool
  stack : Stack
  declarations : Declarations

namespace Repl

/-- Before the first line, on a stack. -/
def initialOn (k : Stack) (debug : Bool) : Repl := ⟨debug, k, Declarations.initial⟩

/-- Before the first line, on a stack that never gives out. -/
def initial (debug : Bool) : Repl := initialOn .unbounded debug

/-- What is printed in front of an input line. -/
def prompt : String := "quill> "

/-- The lines printed at the start. -/
def banner (debug : Bool) : List String :=
  [versionLine ++ " - Interactive Mode", "Type 'exit' to quit, ':help' for commands"]
    ++ (if debug then ["Debug mode enabled"] else []) ++ [""]

/-- The lines printed at the end of the input. -/
def farewell : List String := ["", "Goodbye!"]

/-- The lines printed for help. -/
def helpLines : List String :=
  ["REPL Commands:",
    "  :parse <statements>    - Show the raw tree",
    "  :analyze <statements>  - Show the resolved graph without optimizing",
    "  :env                   - Show session bindings",
    "  :help                  - Show this help",
    "  exit                   - Exit REPL"]

/-- What an input line asks for. -/
inductive Command where
  | exit
  | nothing
  | help
  | showBindings
  | compile (stage : Stage) (source : String)
deriving DecidableEq

/-- What stands behind a word and a space at the start of a line. -/
def argumentOf? (word : String) (line : List Char) : Option (List Char) :=
  let start := word.toList ++ [' ']
  if start.isPrefixOf line then some (line.drop start.length) else none

/-- The command of an input line. Blanks around a line do not count. -/
def Command.ofLine (line : String) : Command :=
  let line := trim line.toList
  let word := String.ofList line
  if word = "exit" then .exit
  else if line = [] then .nothing
  else if word = ":help" then .help
  else if word = ":env" then .showBindings
  else
    match argumentOf? ":parse" line, argumentOf? ":analyze" line with
    | some source, _ => .compile .parsed (String.ofList source)
    | none, some source => .compile .analyzed (String.ofList source)
    | none, none => .compile .optimized word

/-- What is printed about an error. Errors of hand-made trees are unexpected, and so is a stack that
gives out. -/
def errorText (source : String) : CompileError → String
  | .parse e => e.report
  | .resolve (.violation v) => v.diagnostic.report source
  | e => "Unexpected error: " ++ e.message

/-- Compiles the statements of a line and shows them. Only what is resolved advances the
declarations. -/
def compileLine (r : Repl) (stage : Stage) (source : String) : List String × Repl :=
  let trace :=
    if r.debug then r.stack.compileTraceAt r.declarations stage Session.filename source else []
  match r.stack.graphAt r.declarations stage Session.filename source with
  | (.ok text, d) => (trace ++ [text], { r with declarations := d })
  | (.error e, d) => (trace ++ [errorText source e], { r with declarations := d })

/-- The lines printed for an input line, and the state after it unless the line ends the mode. -/
def step (r : Repl) (line : String) : List String × Option Repl :=
  match Command.ofLine line with
  | .exit => ([], none)
  | .nothing => ([], some r)
  | .help => (helpLines, some r)
  | .showBindings =>
    ("Current environment:" :: r.declarations.scope.describe, some r)
  | .compile stage source =>
    let (printed, r) := r.compileLine stage source
    (printed, some r)

/-- The lines printed for input lines up to the end of the input. -/
def continueWith (r : Repl) : List String → List String
  | [] => farewell
  | line :: rest =>
    match r.step line with
    | (printed, some r) => printed ++ continueWith r rest
    | (printed, none) => printed

/-- Everything printed in the interactive mode on a stack. -/
def runOn (k : Stack) (debug : Bool) (lines : List String) : List String :=
  banner debug ++ continueWith (initialOn k debug) lines

/-- Everything printed in the interactive mode on a stack that never gives out. -/
def run (debug : Bool) (lines : List String) : List String := runOn .unbounded debug lines

end Repl

/-- All words that can be completed, in the order they are offered. -/
def completionWords : List String :=
  Cursor.keywords ++ Library.entries.map (·.1) ++ [":parse", ":analyze", ":env", ":help", "exit"]

/-- The words offered for a beginning. -/
def completions (beginning : String) : List String :=
  completionWords.filter fun word => beginning.toList.isPrefixOf word.toList

/-- Printed lines as one text. -/
def printed (lines : List String) : String := String.join (lines.map fun line => line ++ "\n")

end Quill
