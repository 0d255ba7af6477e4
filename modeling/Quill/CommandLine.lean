import Quill.Repl
import Quill.SourceFile
import Quill.Text.Quoted

/-!
# The command line

The arguments of the program are options and at most one script. Long options may be abbreviated and
short ones joined; two dashes end the options. Options act from left to right, so help and version
come before any error behind them.

## Main definitions

* `Flag` — the options.
* `Argument` — an argument by its form.
* `Settings` — what the options ask for.
* `Invocation` — what a command line asks for, and `Invocation.ofArguments`.
* `usageLine`, `helpLines`, `languageLines` — the texts of the program.
-/

namespace Quill

open Text

/-- The options. -/
inductive Flag where
  | help | interactive | parse | analyze | debug | version
deriving DecidableEq

namespace Flag

/-- How options are written, in the order they are declared. -/
def spellings : List (String × Flag) :=
  [("-h", help), ("--help", help), ("-i", interactive), ("--interactive", interactive),
    ("--parse", parse), ("--analyze", analyze), ("--debug", debug), ("--version", version)]

/-- All spellings of an option. -/
def name (f : Flag) : String :=
  String.intercalate "/" ((spellings.filter fun (_, flag) => flag = f).map (·.1))

/-- The option with exactly this spelling. -/
def ofSpelling? (cs : List Char) : Option Flag := spellings.lookup (String.ofList cs)

end Flag

/-- A usage error. -/
inductive UsageError where
  | ambiguous (argument : String) (spellings : List String)
  /-- An option is given a value that it does not take. -/
  | ignoredValue (flag : Flag) (value : String)
  /-- Two options exclude each other. -/
  | conflict (flag other : Flag)
  | unrecognized (arguments : List String)
deriving DecidableEq

/-- The wording of a usage error. -/
def UsageError.message : UsageError → String
  | ambiguous argument spellings =>
    s!"ambiguous option: {argument} could match " ++ String.intercalate ", " spellings
  | ignoredValue flag value =>
    s!"argument {flag.name}: ignored explicit argument " ++ quoted value
  | conflict flag other => s!"argument {flag.name}: not allowed with argument {other.name}"
  | unrecognized arguments => "unrecognized arguments: " ++ String.intercalate " " arguments

/-- An argument by its form. -/
inductive Argument where
  /-- A script. -/
  | positional (text : String)
  /-- The two dashes that end the options. -/
  | separator
  /-- An option, in its long form or not, with a value that is joined to it. -/
  | option (flag : Flag) (long : Bool) (value : Option (List Char))
  /-- A dash before something that is no option. -/
  | unknown (text : String)
deriving DecidableEq

namespace Argument

/-- Splits at the first sign of equality. -/
def splitValue (cs : List Char) : List Char × Option (List Char) :=
  match cs.dropWhile (· ≠ '=') with
  | [] => (cs, none)
  | _ :: value => (cs.takeWhile (· ≠ '='), some value)

/-- Does a spelling begin with two dashes? -/
def isLong (cs : List Char) : Bool := ['-', '-'].isPrefixOf cs

/-- The options that an argument abbreviates: long ones by their beginning, short ones joined to a
value. -/
def matching (cs : List Char) : List (String × Flag × Option (List Char)) :=
  if isLong cs then
    let (start, value) := splitValue cs
    (Flag.spellings.filter fun (spelling, _) => start.isPrefixOf spelling.toList).map
      fun (spelling, flag) => (spelling, flag, value)
  else
    (Flag.spellings.filter fun (spelling, _) => spelling.toList = cs.take 2).map
      fun (spelling, flag) => (spelling, flag, some (cs.drop 2))

/-- A dash before a number, which is no option. -/
def isNegativeNumber (cs : List Char) : Bool :=
  let cs := if cs.getLast? = some '\n' then cs.dropLast else cs
  match cs with
  | '-' :: digits =>
    let whole := digits.takeWhile isDigit
    match digits.dropWhile isDigit with
    | [] => whole ≠ []
    | '.' :: fraction => fraction ≠ [] ∧ fraction.all isDigit
    | _ => false
  | _ => false

/-- The form of an argument before the end of the options. -/
def classify (text : String) : Except UsageError Argument :=
  let cs := text.toList
  let exact (spelling : List Char) (value : Option (List Char)) : Option Argument :=
    (Flag.ofSpelling? spelling).map fun flag => option flag (isLong spelling) value
  let (spelling, value) := splitValue cs
  if text = "--" then .ok separator
  else if cs.head? ≠ some '-' then .ok (positional text)
  else
    match (exact cs none).or (if value.isSome then exact spelling value else none) with
    | some argument => .ok argument
    | none =>
      if cs.length = 1 then .ok (positional text)
      else
        match matching cs with
        | [(spelling, flag, value)] => .ok (option flag (isLong spelling.toList) value)
        | [] =>
          if isNegativeNumber cs ∨ ' ' ∈ cs then .ok (positional text) else .ok (unknown text)
        | several => .error (.ambiguous text (several.map (·.1)))

/-- The forms of all arguments. Behind the separator every argument is a script. -/
def classifyAll : List String → Except UsageError (List Argument)
  | [] => .ok []
  | text :: texts => do
    match ← classify text with
    | separator => return separator :: texts.map positional
    | argument =>
      let arguments ← classifyAll texts
      return argument :: arguments

/-- The options in a group of short ones: the characters of the value are further options. -/
def expand (flag : Flag) (long : Bool) : List Char → Except UsageError (List Flag)
  | [] => .ok [flag]
  | c :: cs =>
    match if long then none else Flag.ofSpelling? ['-', c] with
    | none => .error (.ignoredValue flag (String.ofList (c :: cs)))
    | some next => do
      let flags ← expand next false cs
      return flag :: flags

/-- The options that an option with a value stands for. -/
def flags (flag : Flag) (long : Bool) : Option (List Char) → Except UsageError (List Flag)
  | none => .ok [flag]
  | some [] => .error (.ignoredValue flag "")
  | some value => expand flag long value

end Argument

/-- What the options ask for. -/
structure Settings where
  script : Option String
  interactive : Bool
  parse : Bool
  analyze : Bool
  debug : Bool
deriving DecidableEq

namespace Settings

/-- Without any argument. -/
def none : Settings := ⟨Option.none, false, false, false, false⟩

/-- The stage that the options ask for. -/
def stage (s : Settings) : Stage :=
  if s.parse then .parsed else if s.analyze then .analyzed else .optimized

end Settings

/-- What a command line asks for. -/
inductive Invocation where
  | run (settings : Settings)
  | help
  | version
  | misuse (error : UsageError)
deriving DecidableEq

namespace Invocation

/-- The arguments read so far: the settings, whether the place of the script is taken, and what has
no place. -/
structure Progress where
  settings : Settings
  placed : Bool
  extras : List String

namespace Progress

/-- Before the first argument. -/
def initial : Progress := ⟨Settings.none, false, []⟩

/-- Puts an argument where it has no place. -/
def reject (p : Progress) (text : String) : Progress := { p with extras := p.extras ++ [text] }

/-- Takes the place of the script. -/
def place (p : Progress) (script : Option String) : Progress :=
  { p with settings := { p.settings with script }, placed := true }

/-- Lets an option act; the answer may be final. -/
def act (p : Progress) : Flag → Except Invocation Progress
  | .help => .error help
  | .version => .error version
  | .interactive => .ok { p with settings := { p.settings with interactive := true } }
  | .debug => .ok { p with settings := { p.settings with debug := true } }
  | .parse =>
    if p.settings.analyze then .error (misuse (.conflict .parse .analyze))
    else .ok { p with settings := { p.settings with parse := true } }
  | .analyze =>
    if p.settings.parse then .error (misuse (.conflict .analyze .parse))
    else .ok { p with settings := { p.settings with analyze := true } }

/-- Lets the options of a group act from left to right. -/
def actAll (p : Progress) : List Flag → Except Invocation Progress
  | [] => .ok p
  | flag :: flags => do
    let p ← p.act flag
    actAll p flags

/-- At the end of the arguments, those without a place are an error. -/
def finish (p : Progress) : Invocation :=
  if p.extras = [] then run p.settings else misuse (.unrecognized p.extras)

/-- Reads arguments in order. The script takes the first place; a separator beside it is dropped. -/
def read (p : Progress) : List Argument → Invocation
  | [] => p.finish
  | .option flag long value :: rest =>
    match Argument.flags flag long value with
    | .error e => misuse e
    | .ok flags =>
      match p.actAll flags with
      | .error answer => answer
      | .ok p => read p rest
  | .unknown text :: rest => read (p.reject text) rest
  | .positional text :: .separator :: rest =>
    if p.placed then read ((p.reject text).reject "--") rest else read (p.place (some text)) rest
  | .positional text :: rest =>
    if p.placed then read (p.reject text) rest else read (p.place (some text)) rest
  | .separator :: .positional text :: rest =>
    if p.placed then read ((p.reject "--").reject text) rest else read (p.place (some text)) rest
  | .separator :: rest =>
    if p.placed then read (p.reject "--") rest else read (p.place none) rest

end Progress

/-- What the arguments ask for. An ambiguous argument is reported before anything else. -/
def ofArguments (arguments : List String) : Invocation :=
  match Argument.classifyAll arguments with
  | .error e => misuse e
  | .ok arguments => Progress.initial.read arguments

end Invocation

/-! ## Texts -/

/-- The short usage of the program. -/
def usageLine : String :=
  "usage: quill [-h] [-i] [--parse | --analyze] [--debug] [--version] [script]"

/-- The lines of the help text. -/
def helpLines : List String :=
  [usageLine,
    "",
    "Quill - semantic analysis and optimization of Quill programs",
    "",
    "positional arguments:",
    "  script             Quill source file to compile",
    "",
    "options:",
    "  -h, --help         show this help message and exit",
    "  -i, --interactive  Start interactive mode",
    "  --parse            Stop after parsing",
    "  --analyze          Stop after semantic analysis",
    "  --debug            Enable debug output for all stages",
    "  --version          show program's version number and exit",
    "",
    "Examples:",
    "  quill script.ql              # Show the optimized program graph",
    "  quill --parse script.ql      # Show the raw tree from the parser",
    "  quill --analyze script.ql    # Show the resolved (unoptimized) graph",
    "  quill --debug script.ql      # Trace every stage",
    "  quill -i                     # Interactive mode",
    "        "]

/-- The lines about the language. -/
def languageLines : List String :=
  ["Quill Programming Language",
    String.ofList (List.replicate 50 '='),
    "An expression-oriented imperative language with:",
    "• let declarations, assignment, while and print",
    "• single-expression functions with recursion",
    "• numbers, booleans and conditional expressions",
    "",
    "Standard library:"]
    ++ Library.signatures.map (fun (name, signature) => s!"  {name}: {signature}") ++ [""]

/-- The lines printed on a usage error. -/
def UsageError.lines (e : UsageError) : List String := [usageLine, "quill: error: " ++ e.message]

/-! ## Running -/

/-- What a run of the program leaves. -/
structure RunResult where
  status : Nat
  output : List String
  errors : List String
deriving DecidableEq

/-- What the settings ask for. An empty script counts as none, and a script goes before the
interactive mode. -/
inductive Task where
  | script (path : String)
  | interactive
  | overview
deriving DecidableEq

/-- The task of the settings. -/
def Settings.task (s : Settings) : Task :=
  match s.script with
  | some path =>
    if path = "" then if s.interactive then .interactive else .overview else .script path
  | Option.none => if s.interactive then .interactive else .overview

/-- Runs the program on a stack and in a directory, with the lines of its input. -/
def runProgram (k : Stack) (arguments : List String) (dir : Directory) (input : List String) :
    RunResult :=
  match Invocation.ofArguments arguments with
  | .help => ⟨0, helpLines, []⟩
  | .version => ⟨0, [versionLine], []⟩
  | .misuse e => ⟨2, [], e.lines⟩
  | .run settings =>
    match settings.task with
    | .script path =>
      let (output, status) := compileFile k dir path settings.stage.name settings.debug
      ⟨status, output, []⟩
    | .interactive => ⟨0, Repl.runOn k settings.debug input, []⟩
    | .overview => ⟨0, helpLines ++ [""] ++ languageLines, []⟩

end Quill
