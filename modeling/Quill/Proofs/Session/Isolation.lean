import Quill.Proofs.Optimize.Replacement
import Quill.Proofs.Graph.Renumbering
import Quill.Proofs.Session.Safety

/-!
# Lines that leave no trace

A blank line, a line that only shows something and a line that does not compile leave the
interactive mode as it was, however far the compilation of the line got. So such a line may be left
out: nothing else is printed for any other line, and the session ends with the same bindings. Not
even the numbers matter that a rejected line may have used for its declarations, since nothing that
is printed shows them. The stack is taken to hold every line.

## Main definitions

* `Repl.IsInert` — lines that leave no trace.
* `Repl.shift` — a session whose entities are numbered from a later number on.
-/

namespace Quill

/-! ## Sessions with later numbers -/

theorem add_injective (m : Nat) : Function.Injective (· + m) := fun _ _ h => Nat.add_right_cancel h

namespace Scope

variable (σ : Nat → Nat)

theorem isStandard_renumber (e : Entity) : (e.renumber σ).isStandard = e.isStandard := by
  simp only [Entity.isStandard, Entity.builtin?, Entity.renumber]
  cases e.id <;> rfl

theorem firstBindings_renumber (found frame : Frame) :
    firstBindings (Frame.renumber σ found) (Frame.renumber σ frame) =
      Frame.renumber σ (firstBindings found frame) := by
  induction frame generalizing found with
  | nil => rfl
  | cons b frame ih =>
    obtain ⟨name, e⟩ := b
    have hadd : Frame.renumber σ found ++ [(name, e.renumber σ)] =
        Frame.renumber σ (found ++ [(name, e)]) := by simp [Frame.renumber]
    have hcons : Frame.renumber σ ((name, e) :: frame) =
        (name, e.renumber σ) :: Frame.renumber σ frame := rfl
    rw [hcons, firstBindings, firstBindings, Frame.lookup_renumber, Option.isSome_map,
      isStandard_renumber, hadd, ih, ih]
    split <;> rfl

/-- What is listed is the same, under other numbers. -/
theorem userBindings_renumber (s : Scope) :
    (s.renumber σ).userBindings = Frame.renumber σ s.userBindings := by
  have hframes : (s.renumber σ).frames.flatten = Frame.renumber σ s.frames.flatten := by
    rw [Frame.renumber, List.map_flatten]
    rfl
  rw [userBindings, hframes]
  exact firstBindings_renumber σ [] s.frames.flatten

/-- The bindings are shown without the numbers of their entities. -/
theorem describe_renumber (s : Scope) : (s.renumber σ).describe = s.describe := by
  rw [describe, describe, userBindings_renumber]
  cases s.userBindings with
  | nil => rfl
  | cons b bindings =>
    have hrecord : ∀ e : Entity, (e.renumber σ).record = e.record := fun _ => rfl
    simp [Frame.renumber, hrecord]

end Scope

namespace Stack

section
variable (m : Nat) (d : Declarations)

theorem graphText_renumber (t : Tree) :
    unbounded.graphText (t.renumber (· + m)) = unbounded.graphText t :=
  congrArg Except.ok (Tree.graphText_renumber (add_injective m) t)

theorem resolve_shift (p : Tree) :
    unbounded.resolve (d.shift m) p =
      Prod.map (Tree.renumber (· + m)) (Declarations.shift m) <$> unbounded.resolve d p := by
  have hbound (d : Declarations) :
      unbounded.resolve d p = (p.resolveProgram d).mapError .resolve := rfl
  rw [hbound, hbound, Tree.resolveProgram_shift]
  cases p.resolveProgram d <;> rfl

theorem optimize_renumber (t : Tree) :
    unbounded.optimize (t.renumber (· + m)) =
      Tree.renumber (· + m) <$> unbounded.optimize t := by
  have hbound (t : Tree) : unbounded.optimize t = t.optimize?.mapError .optimize := rfl
  rw [hbound, hbound, Tree.optimize?_renumber (add_injective m)]
  cases t.optimize? <;> rfl

/-- From a later number on, a stage shows the same or fails with the same error. -/
theorem graphTo_shift (p : Tree) (stage : Stage) :
    unbounded.graphTo (d.shift m) p stage =
      Prod.map id (Declarations.shift m) (unbounded.graphTo d p stage) := by
  rw [graphTo, graphTo, resolve_shift]
  split
  · rfl
  cases unbounded.resolve d p with
  | error e => rfl
  | ok result =>
    obtain ⟨t, after⟩ := result
    have hoptimized : (unbounded.optimize (t.renumber (· + m)) >>= unbounded.graphText) =
        unbounded.optimize t >>= unbounded.graphText := by
      rw [optimize_renumber]
      cases unbounded.optimize t with
      | error e => rfl
      | ok r => exact graphText_renumber m r
    exact Prod.ext (congrArg₂ (fun optimized resolved => if stage = .optimized then optimized
      else resolved) hoptimized (graphText_renumber m t)) rfl

/-- What is shown of a source does not depend on the numbers of entities. -/
theorem graphAt_shift (stage : Stage) (filename source : String) :
    unbounded.graphAt (d.shift m) stage filename source =
      Prod.map id (Declarations.shift m) (unbounded.graphAt d stage filename source) := by
  rw [graphAt, graphAt]
  cases unbounded.read filename source with
  | error e => rfl
  | ok p => exact graphTo_shift m d p stage

end

end Stack

namespace Repl

variable {r r' : Repl} {line : String} {lines : List String}

/-- A session whose entities are numbered from a later number on. -/
def shift (m : Nat) (r : Repl) : Repl := { r with declarations := r.declarations.shift m }

/-- The lines of a session are compiled without traces and without bound. -/
structure IsPlain (r : Repl) : Prop where
  debug : r.debug = false
  stack : r.stack = .unbounded

/-- From a later number on, a line prints the same. -/
theorem step_shift (m : Nat) (hr : r.IsPlain) (line : String) :
    (r.shift m).step line = Prod.map id (Option.map (shift m)) (r.step line) := by
  obtain ⟨debug, k, d⟩ := r
  obtain rfl : debug = false := hr.debug
  obtain rfl : k = .unbounded := hr.stack
  simp only [step]
  cases Command.ofLine line with
  | exit | nothing | help => rfl
  | showBindings =>
    simp only [shift, Declarations.scope_shift, Scope.describe_renumber]
    rfl
  | compile stage source =>
    simp only [shift, compileLine, Stack.graphAt_shift]
    rcases Stack.unbounded.graphAt d stage Session.filename source with ⟨_ | _, _⟩ <;> rfl

theorem IsPlain.of_step (hr : r.IsPlain) (h : (r.step line).2 = some r') : r'.IsPlain := by
  rcases step_cases h with rfl | ⟨_, _, _, _, -, -, -, rfl⟩
  · exact hr
  · exact ⟨hr.debug, hr.stack⟩

/-- From a later number on, a session prints the same. -/
theorem answers_shift (m : Nat) (hr : r.IsPlain) (lines : List String) :
    (r.shift m).answers lines = r.answers lines ∧
      (r.shift m).behind lines = (r.behind lines).map (shift m) := by
  induction lines generalizing r with
  | nil => exact ⟨rfl, rfl⟩
  | cons line lines ih =>
    rw [answers, answers, behind, behind, step_shift m hr]
    cases hstep : (r.step line).2 with
    | none => simp [hstep]
    | some next =>
      obtain ⟨hanswers, hbehind⟩ := ih (hr.of_step hstep)
      simp [hstep, hanswers, hbehind]

/-! ## Lines that may be left out -/

/-- Is the line blank, one that only shows something, or one that does not compile? -/
def IsInert (r : Repl) (line : String) : Prop :=
  match Command.ofLine line with
  | .exit => False
  | .nothing | .help | .showBindings | .compile .parsed _ => True
  | .compile stage source =>
    ∃ e, r.stack.compileAt r.declarations stage Session.filename source = .error e

/-- Behind any lines of a session that starts with the library, an inert line leaves the session as
it was: a line that resolves compiles, since the pass adds no failure. -/
theorem step_of_isInert (hplain : r.IsPlain) (hr : r.declarations.AreOutermost)
    (h : r.IsInert line) : (r.step line).2 = some r := by
  have hopen : Command.ofLine line ≠ .exit := fun hexit => by simp [IsInert, hexit] at h
  obtain ⟨printed, r', hstep⟩ := exists_step hopen r
  have hnext : (r.step line).2 = some r' := by rw [hstep]
  rcases step_cases hnext with rfl | ⟨stage, source, t, d, hcommand, hstage, hresolved, rfl⟩
  · exact hnext
  · simp only [IsInert, hcommand] at h
    rw [hplain.stack, Stack.compileAt_unbounded] at hresolved
    obtain ⟨result, hcompile⟩ := exists_compileAt_of_analyzed hr hresolved stage
    cases stage with
    | parsed => exact (hstage rfl).elim
    | analyzed | optimized => simp [hplain.stack, Stack.compileAt_unbounded, hcompile] at h

/-- A line that leaves the session as it was may be left out of the lines before. -/
theorem behind_without {start : Repl} {before : List String}
    (hr : start.behind before = some r) (hline : (r.step line).2 = some r) (rest : List String) :
    start.behind (before ++ line :: rest) = start.behind (before ++ rest) := by
  rw [behind_append hr, behind_append hr, behind_cons hline]

/-- Without a line that leaves the session as it was the other lines are answered as before. -/
theorem answers_without {start : Repl} {before : List String}
    (hr : start.behind before = some r) (hline : (r.step line).2 = some r) (rest : List String) :
    start.answers (before ++ rest) =
      (start.answers (before ++ line :: rest)).eraseIdx before.length := by
  have hlength := length_answers hr
  rw [answers_append hr, answers_append hr, answers_cons hline, ← hlength,
    List.eraseIdx_append_of_length_le (Nat.le_refl _), Nat.sub_self, List.eraseIdx_cons_zero]

/-- An inert line may be left out of the lines of a session: what is printed for any other line
stays the same, and so do the state and the bindings at the end. The lines behind it would print the
same even if it used up the numbers of further declarations. -/
theorem run_without_inert_line {before rest : List String} {line : String}
    (h : StaysOpen (before ++ line :: rest)) :
    ∃ r, (initial false).behind before = some r ∧ (r.IsInert line →
      ∃ r', (initial false).behind (before ++ line :: rest) = some r' ∧
        (initial false).behind (before ++ rest) = some r' ∧
        (initial false).answers (before ++ rest) =
          ((initial false).answers (before ++ line :: rest)).eraseIdx before.length ∧
        run false (before ++ line :: rest) = banner false ++
          (((initial false).answers (before ++ line :: rest)).flatten ++ farewell) ∧
        run false (before ++ rest) = banner false ++
          (((initial false).answers (before ++ rest)).flatten ++ farewell) ∧
        ∀ m, (r.shift m).answers rest = r.answers rest ∧
          (r.shift m).behind rest = some (r'.shift m) ∧
          (r'.shift m).declarations.scope.describe = r'.declarations.scope.describe) := by
  obtain ⟨r, hr⟩ := exists_behind (fun l hl => h l (List.mem_append_left _ hl)) (initial false)
  obtain ⟨r', hr'⟩ := exists_behind h (initial false)
  have hplain : r.IsPlain :=
    invariant_behind (I := IsPlain) (fun _ _ _ h hstep => h.of_step hstep) ⟨rfl, rfl⟩ hr
  refine ⟨r, hr, fun hinert => ?_⟩
  have hline := step_of_isInert hplain (areOutermost_behind hr).1 hinert
  have hwithout : (initial false).behind (before ++ rest) = some r' := by
    rw [← behind_without hr hline, hr']
  refine ⟨r', hr', hwithout, answers_without hr hline rest, run_eq hr', run_eq hwithout, ?_⟩
  intro m
  obtain ⟨hanswers, hbehind⟩ := answers_shift m hplain rest
  refine ⟨hanswers, ?_, Scope.describe_renumber _ _⟩
  rw [behind_append hr] at hwithout
  rw [hbehind, hwithout]
  rfl

/-- A session with a rejected line that gets as far as its second statement. -/
theorem run_without_rejected_line :
    StaysOpen (["let x = 1;"] ++ "let y = 2; print z;" :: ["let y = x; print y;", ":env"]) ∧
    ∃ r, (initial false).behind ["let x = 1;"] = some r ∧ r.IsInert "let y = 2; print z;" ∧
      (initial false).answers ["let x = 1;", "let y = x; print y;", ":env"] =
        ((initial false).answers
          ["let x = 1;", "let y = 2; print z;", "let y = x; print y;", ":env"]).eraseIdx 1 := by
  have hopen :
      StaysOpen (["let x = 1;"] ++ "let y = 2; print z;" :: ["let y = x; print y;", ":env"]) := by
    unfold StaysOpen
    decide +kernel
  obtain ⟨r, hr, h⟩ := run_without_inert_line hopen
  have hcommand : Command.ofLine "let y = 2; print z;" =
      .compile .optimized "let y = 2; print z;" := by decide +kernel
  have hrejected : ((initial false).behind ["let x = 1;"]).all (fun r =>
      !(r.stack.compileAt r.declarations .optimized Session.filename "let y = 2; print z;").isOk) =
        true := by
    decide +kernel
  have hinert : r.IsInert "let y = 2; print z;" := by
    simp only [IsInert, hcommand]
    rw [hr] at hrejected
    cases hc :
      r.stack.compileAt r.declarations .optimized Session.filename "let y = 2; print z;" with
    | error e => exact ⟨e, rfl⟩
    | ok result => simp [hc, Except.isOk, Except.toBool] at hrejected
  obtain ⟨r', -, -, hanswers, -⟩ := h hinert
  exact ⟨hopen, r, hr, hinert, hanswers⟩

end Repl

end Quill
