import Quill.Session

/-!
# Fragments of a program one after another

A session resolves fragments of a program in order, each on top of the declarations that those
before it have left behind. A fragment is accepted as a whole or leaves no trace.

## Main definitions

* `Declarations.accept` — the answer to a fragment, and the declarations behind it.
* `Declarations.answers`, `Declarations.behind` — the same for fragments in order.
* `Declarations.accepted` — the fragments that are accepted, with their answers.
-/

namespace Quill

namespace Declarations

/-- The answer to a fragment, and the declarations behind it. A fragment that is rejected leaves the
declarations as they were. -/
def accept (d : Declarations) (fragment : Tree) : Except ResolveError Tree × Declarations :=
  match fragment.resolveProgram d with
  | .ok (t, after) => (.ok t, after)
  | .error e => (.error e, d)

/-- The answers to fragments in order. -/
def answers : Declarations → List Tree → List (Except ResolveError Tree)
  | _, [] => []
  | d, p :: ps => (d.accept p).1 :: answers (d.accept p).2 ps

/-- The declarations behind fragments. -/
def behind : Declarations → List Tree → Declarations
  | d, [] => d
  | d, p :: ps => behind (d.accept p).2 ps

/-- The fragments that are accepted, with their answers. -/
def accepted : Declarations → List Tree → List (Tree × Tree)
  | _, [] => []
  | d, p :: ps =>
    match (d.accept p).1 with
    | .ok t => (p, t) :: accepted (d.accept p).2 ps
    | .error _ => accepted (d.accept p).2 ps

variable {d : Declarations} {p t : Tree} {e : ResolveError}

theorem accept_of_ok {after : Declarations} (h : p.resolveProgram d = .ok (t, after)) :
    d.accept p = (.ok t, after) := by
  simp [accept, h]

theorem accept_of_error (h : p.resolveProgram d = .error e) : d.accept p = (.error e, d) := by
  simp [accept, h]

theorem resolveProgram_of_accept (h : (d.accept p).1 = .ok t) :
    p.resolveProgram d = .ok (t, (d.accept p).2) := by
  cases hp : p.resolveProgram d with
  | ok result =>
    obtain ⟨u, after⟩ := result
    rw [accept_of_ok hp] at h ⊢
    obtain rfl : u = t := Except.ok.inj h
    rfl
  | error e =>
    rw [accept_of_error hp] at h
    cases h

/-- A rejected fragment leaves no trace, however far its resolution got. -/
theorem accept_rejected (h : (d.accept p).1 = .error e) : (d.accept p).2 = d := by
  cases hp : p.resolveProgram d with
  | ok result =>
    obtain ⟨u, after⟩ := result
    rw [accept_of_ok hp] at h
    cases h
  | error e => rw [accept_of_error hp]

/-- A session behind some programs goes on with the others. -/
theorem behind_append (ps qs : List Tree) : d.behind (ps ++ qs) = (d.behind ps).behind qs := by
  induction ps generalizing d with
  | nil => rfl
  | cons p ps ih => exact ih

end Declarations

namespace Session

/-- A step of a session accepts the fragment that is read. -/
theorem step_analyze (s : Session) {source : String} {p : Tree}
    (h : Tree.read filename source = .ok p) :
    (s.step (.analyze source)).1 = (s.declarations.accept p).1.mapError .resolve ∧
      (s.step (.analyze source)).2.declarations = (s.declarations.accept p).2 := by
  simp only [step, resolve, compileAt, h, bind, Except.bind, Tree.compileTo]
  cases hp : p.resolveProgram s.declarations with
  | ok result =>
    obtain ⟨t, after⟩ := result
    rw [Declarations.accept_of_ok hp]
    exact ⟨rfl, rfl⟩
  | error e =>
    rw [Declarations.accept_of_error hp]
    exact ⟨rfl, rfl⟩

/-- The declarations of a session that has analyzed sources in order are those behind the fragments
that are read from them. -/
theorem declarations_foldl_analyze (s : Session) {fragments : List (String × Tree)}
    (h : ∀ f ∈ fragments, Tree.read filename f.1 = .ok f.2) :
    (fragments.foldl (fun s f => (s.step (.analyze f.1)).2) s).declarations =
      s.declarations.behind (fragments.map Prod.snd) := by
  induction fragments generalizing s with
  | nil => rfl
  | cons f fragments ih =>
    obtain ⟨hread, hrest⟩ := List.forall_mem_cons.1 h
    rw [List.foldl_cons, ih _ hrest, (s.step_analyze hread).2]
    rfl

end Session

end Quill
