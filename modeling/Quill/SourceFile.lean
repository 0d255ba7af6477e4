import Quill.Stack
import Quill.Text.Utf8

/-!
# Source files

A source file is found by its path below a directory and decoded as UTF-8, with every line end as a
line feed. What is printed about a file depends on the directory alone; every file in it may be
read.

## Main definitions

* `Directory` — files and directories by name.
* `ReadError` — why a file has no text.
* `Directory.read` — the text of a file.
* `compileFile` — what is printed for a file, and the exit status.
* `parseFile` — the program in a file.
-/

namespace Quill

open Text

/-- What a name in a directory stands for. -/
inductive DirectoryEntry where
  | file (bytes : List UInt8)
  | directory
deriving DecidableEq

/-- The entries below a directory by their relative paths. -/
abbrev Directory := List (String × DirectoryEntry)

/-- Why a file has no text. -/
inductive ReadError where
  | missing
  | isDirectory
  /-- The path goes on behind a file. -/
  | notADirectory
  | undecodable (fault : Utf8.Fault)
deriving DecidableEq

/-- The names along a path. -/
def pathNames (path : String) : List (List Char) :=
  splitAt '/' path.toList
where
  /-- The parts of a text between separators. -/
  splitAt (separator : Char) : List Char → List (List Char)
    | [] => [[]]
    | c :: cs =>
      if c = separator then [] :: splitAt separator cs
      else
        match splitAt separator cs with
        | [] => [[c]]
        | name :: names => (c :: name) :: names

/-- Empty names and single dots lead nowhere. -/
def staysInPlace (name : List Char) : Bool := name = [] || name = ['.']

/-- Does a path begin outside the directory? -/
def isAbsolute (path : String) : Bool := path.toList.head? = some '/'

/-- The slashes in front of a path: none, one, or exactly two. More than two count as one. -/
def leadingSlashes (path : String) : String :=
  match (path.toList.takeWhile (· = '/')).length with
  | 0 => ""
  | 2 => "//"
  | _ => "/"

/-- A path without the names that lead nowhere. The directory itself is a dot. -/
def simplifiedPath (path : String) : String :=
  let names := (pathNames path).filter fun name => !staysInPlace name
  if isAbsolute path ∨ names ≠ [] then
    leadingSlashes path ++ String.intercalate "/" (names.map String.ofList)
  else "."

namespace Directory

/-- What stands at the end of some names. Whatever has an entry below it is a directory. -/
def entry? (dir : Directory) (names : List (List Char)) : Option DirectoryEntry :=
  if names = [] then some .directory
  else
    match dir.find? fun (name, _) => pathNames name = names with
    | some (_, entry) => some entry
    | none =>
      if dir.any fun (name, _) => names.isPrefixOf (pathNames name) then some .directory else none

/-- A place on the way along a path: outside the directory, or at the end of some names below it. -/
inductive Place where
  | outside
  | below (names : List (List Char))

/-- What stands at a place. All that is known outside is that there are directories. -/
def at? (dir : Directory) : Place → Option DirectoryEntry
  | .outside => some .directory
  | .below names => dir.entry? names

/-- The place that a name leads to; no name leads back from outside. -/
def stepTo? (name : List Char) : Place → Option Place
  | .outside => if staysInPlace name || name = ['.', '.'] then some .outside else none
  | .below names =>
    if staysInPlace name then some (.below names)
    else if name ≠ ['.', '.'] then some (.below (names ++ [name]))
    else if names = [] then some .outside
    else some (.below names.dropLast)

/-- Follows names from a place. Only directories are passed through. -/
def follow (dir : Directory) (here : Place) : List (List Char) → Except ReadError DirectoryEntry
  | [] =>
    match dir.at? here with
    | some entry => .ok entry
    | none => .error .missing
  | name :: names =>
    match dir.at? here, stepTo? name here with
    | some .directory, some there => follow dir there names
    | some (.file _), _ => .error .notADirectory
    | _, _ => .error .missing

/-- The text of the file at a path. -/
def read (dir : Directory) (path : String) : Except ReadError String :=
  if path = "" then .error .missing
  else
    match dir.follow (if isAbsolute path then .outside else .below []) (pathNames path) with
    | .error e => .error e
    | .ok .directory => .error .isDirectory
    | .ok (.file bytes) =>
      match Utf8.decode? bytes with
      | .ok cs => .ok (String.ofList (foldLineEnds cs))
      | .error fault => .error (.undecodable fault)

end Directory

/-- The message about a path that is a directory. -/
def directoryMessage (path : String) : String :=
  "[Errno 21] Is a directory: " ++ quoted path

/-- The message about a path that goes on behind a file. -/
def noDirectoryMessage (path : String) : String :=
  "[Errno 20] Not a directory: " ++ quoted path

/-- The line printed for an error that has no wording of its own. -/
def unexpectedLine (path message : String) : String :=
  s!"Unexpected error while processing '{path}': {message}"

/-- The lines printed when a file has no text. -/
def ReadError.lines (path : String) : ReadError → List String
  | missing =>
    [s!"Error: Script file '{path}' not found",
      "  Hint: Check the file path and make sure the file exists"]
  | isDirectory => [unexpectedLine path (directoryMessage (simplifiedPath path))]
  | notADirectory => [unexpectedLine path (noDirectoryMessage (simplifiedPath path))]
  | undecodable fault =>
    [s!"Error: Cannot decode file '{path}': {fault.message}",
      "  Hint: Make sure the file is a text file with UTF-8 encoding"]

/-- The lines printed when a file does not compile. -/
def CompileError.lines (path source : String) : CompileError → List String
  | parse e => [s!"Parse error in '{path}':", e.report]
  | resolve (.violation v) => [s!"In '{path}':", v.diagnostic.report source]
  | e => [unexpectedLine path e.message]

/-- The lines printed for the text of a file, and whether it is compiled and shown. -/
def compileText (k : Stack) (path source stage : String) (debug : Bool) : List String × Bool :=
  let trace :=
    if debug then
      s!"Compiling {path} to the {stage} stage..." :: k.compileTrace stage path source
    else []
  match k.compileNamed stage path source >>= k.graphText with
  | .ok text => (trace ++ [text], true)
  | .error e => (trace ++ e.lines path source, false)

/-- The lines printed for what was read at a path, and the exit status. -/
def compileRead (k : Stack) (path : String) (content : Except ReadError String) (stage : String)
    (debug : Bool) : List String × Nat :=
  match content with
  | .error e => (e.lines path, 1)
  | .ok source =>
    let (lines, compiled) := compileText k path source stage debug
    (lines, if compiled then 0 else 1)

/-- The lines printed for a file, and the exit status. -/
def compileFile (k : Stack) (dir : Directory) (path stage : String) (debug : Bool) :
    List String × Nat :=
  compileRead k path (dir.read (simplifiedPath path)) stage debug

/-- Why the program in a file cannot be read. -/
inductive ParseFileError where
  | parse (error : ParseError)
  | isDirectory (path : String)
  | notADirectory (path : String)

/-- The program in a file. A file without a text is an error without a place. -/
def parseFile (dir : Directory) (path : String) : Except ParseFileError Tree :=
  let fail (message : String) := .error (.parse (ParseError.ofMessage message))
  match dir.read path with
  | .error .missing => fail s!"File not found: {path}"
  | .error .isDirectory => .error (.isDirectory path)
  | .error .notADirectory => .error (.notADirectory path)
  | .error (.undecodable fault) => fail s!"Cannot decode file {path}: {fault.message}"
  | .ok source =>
    (Tree.ofProgram path source.toList).mapError fun f => .parse (f.toParseError source.toList)

end Quill
