import Quill.Compile

/-!
# Sessions

A session compiles fragments of a program one after another. The declarations of a fragment hold for
all later ones, once the whole fragment has been resolved; a fragment that is rejected leaves the
session as it was. The programs of a session are kept and share their entities.

## Main definitions

* `Session` — the declarations so far and the kept programs.
* `Session.Action` — what a step does.
* `Session.step` — the answer to a step and the session after it.
* `Scope.describe` — the declarations of a scope as lines.
-/

namespace Quill

/-- The bindings of a program's names, as lines. -/
def Scope.describe (s : Scope) : List String :=
  match s.userBindings with
  | [] => ["  (no user-defined bindings)"]
  | bindings => bindings.map fun (name, e) => s!"  {name}: {e.record}"

/-- The state of a session. -/
structure Session where
  declarations : Declarations
  kept : List Tree

namespace Session

/-- A new session. -/
def initial : Session := ⟨Declarations.initial, []⟩

/-- The name under which fragments are read. -/
def filename : String := "<stdin>"

/-- What a step of a session does. -/
inductive Action where
  /-- Resolves a fragment and keeps it. -/
  | analyze (source : String)
  /-- Resolves a fragment, optimizes it and keeps it. -/
  | optimize (source : String)
  /-- Resolves a program apart from the session. -/
  | fresh (source : String)
  /-- Shows all kept programs. -/
  | history
  /-- Optimizes all kept programs and shows them. -/
  | reoptimize

/-- Keeps a program, with the declarations after it. -/
def keep (s : Session) (t : Tree) (d : Declarations) : Session := ⟨d, s.kept ++ [t]⟩

/-- Resolves a fragment below the declarations of the session. -/
def resolve (s : Session) (source : String) : Except CompileError (Tree × Declarations) :=
  compileAt s.declarations .analyzed filename source

/-- Optimizes trees in order, up to the first that cannot be. -/
def optimizeEach : List Tree → Except CompileError (List Tree)
  | [] => .ok []
  | t :: ts => do
    let t ← t.optimize?.mapError .optimize
    let ts ← optimizeEach ts
    return t :: ts

/-- The answer to a step, and the session after it. -/
def step (s : Session) : Action → Except CompileError Tree × Session
  | .analyze source =>
    match s.resolve source with
    | .ok (t, d) => (.ok t, s.keep t d)
    | .error e => (.error e, s)
  | .optimize source =>
    match s.resolve source with
    | .ok (t, d) =>
      match t.optimize? with
      | .ok optimized => (.ok optimized, s.keep optimized d)
      | .error fault => (.error (.optimize fault), s.keep t d)
    | .error e => (.error e, s)
  | .fresh source => (compile .analyzed filename source, s)
  | .history => (.ok (.list s.kept), s)
  | .reoptimize =>
    match optimizeEach s.kept with
    | .ok kept => (.ok (.list kept), { s with kept })
    | .error e => (.error e, s)

/-- The declarations of the session as lines. -/
def describe (s : Session) : List String := s.declarations.scope.describe

end Session
end Quill
