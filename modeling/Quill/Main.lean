import Quill.CommandLine

/-!
# The program

Reads the command line, the script and the standard input, and prints what the library answers.
-/

namespace Quill

/-- The stack in use. A text that nests deeper is given up before the stack of the machine is. -/
def mainStack : Stack := .ofDepth 1000 "maximum recursion depth exceeded"

/-- The content at a path. -/
def readPath (path : String) : IO (Except ReadError String) := do
  try
    let bytes ← IO.FS.readBinFile (simplifiedPath path)
    return Directory.read [("script", .file bytes.toList)] "script"
  catch e =>
    match e with
    | .noFileOrDirectory .. => return .error .missing
    | .inappropriateType _ 20 _ => return .error .notADirectory
    | _ => return .error .isDirectory

/-- Prints lines to the standard output. -/
def printLines (lines : List String) : IO Unit := do
  IO.print (printed lines)
  (← IO.getStdout).flush

/-- Reads and answers lines until the mode ends. -/
partial def interact (r : Repl) : IO Unit := do
  IO.print Repl.prompt
  (← IO.getStdout).flush
  let line ← (← IO.getStdin).getLine
  if line = "" then
    printLines Repl.farewell
  else
    let (answer, next) := r.step line
    printLines answer
    match next with
    | some r => interact r
    | none => return

/-- Runs the program with its arguments. -/
def runMain (arguments : List String) : IO UInt32 := do
  match Invocation.ofArguments arguments with
  | .run settings =>
    match settings.task with
    | .script path =>
      let content ← readPath path
      let (lines, status) :=
        compileRead mainStack path content settings.stage.name settings.debug
      printLines lines
      return status.toUInt32
    | .interactive =>
      printLines (Repl.banner settings.debug)
      interact (.initialOn mainStack settings.debug)
      return 0
    | .overview =>
      printLines (helpLines ++ [""] ++ languageLines)
      return 0
  | .help =>
    printLines helpLines
    return 0
  | .version =>
    printLines [versionLine]
    return 0
  | .misuse e =>
    IO.eprint (printed e.lines)
    return 2

end Quill

/-- Entry point. -/
def main (arguments : List String) : IO UInt32 := Quill.runMain arguments
