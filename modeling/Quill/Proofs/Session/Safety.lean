import Quill.SourceFile
import Quill.Proofs.Grammar.Shape
import Quill.Proofs.Scope.Linked
import Quill.Proofs.Optimize.Fault
import Quill.Proofs.Session.Depth
import Quill.Proofs.Session.Lines

/-!
# Unexpected failures

On a stack that holds it, a text that does not compile is one that cannot be read, or one that
breaks a rule of scoping; nothing else fails. What is read has the shape that resolution takes
apart, what is resolved has the shape that the pass takes apart, and the declarations of a session
stay those of a point of a program outside of functions. Where the stack gives out, a failure comes
through that no stage reports, also for programs without any fault.

## Main definitions

* `CompileError.IsExpected` — texts that cannot be read, and violations.
* `Stage.naming` — the shape of what a stage answers.
* `Declarations.AreOutermost` — the invariant of the declarations of a session.
-/

namespace Quill

open Quill.Tree

/-- Is it an error of reading, or a violation? -/
def CompileError.IsExpected : CompileError → Prop
  | .parse _ | .resolve (.violation _) => True
  | _ => False

/-- What stands for a name in the program that a stage answers. -/
def Stage.naming : Stage → Naming
  | .parsed => .raw
  | .analyzed | .optimized => .resolved

/-- The declarations at a point of a program outside of functions. -/
def Declarations.AreOutermost (d : Declarations) : Prop :=
  ∃ s : Surroundings, s.IsOutermost ∧ s.declarations = d

theorem Declarations.areOutermost_initial : Declarations.initial.AreOutermost :=
  ⟨.initial, Surroundings.isOutermost_initial, Surroundings.declarations_initial⟩

/-! ## Compilation -/

/-- Either the program of a stage, below declarations that keep the invariant, or an error that is
expected. -/
def IsExpectedOutcome (stage : Stage) : Except CompileError (Tree × Declarations) → Prop
  | .ok (t, d) => t.IsProgram stage.naming ∧ d.AreOutermost
  | .error e => e.IsExpected

variable {d : Declarations} {stage : Stage} {filename source : String}

/-- Resolution fails only for a violation. -/
theorem resolveProgram_cases {p : Tree} (hp : p.IsProgram .raw) (hd : d.AreOutermost) :
    (∃ v, p.resolveProgram d = .error (.violation v)) ∨
      ∃ t d', p.resolveProgram d = .ok (t, d') ∧ t.IsProgram .resolved ∧ d'.AreOutermost := by
  obtain ⟨s, hs, rfl⟩ := hd
  cases p with
  | program statements =>
    rw [resolveProgram, resolveStatements_eq statements hp hs]
    cases hcheck : Occurrence.check (mentionsInAll statements s) with
    | error e =>
      obtain ⟨v, -, rfl, -⟩ := Occurrence.exists_violation_of_check hcheck
      exact .inl ⟨v, rfl⟩
    | ok u =>
      right
      have hallowed : ∀ o ∈ mentionsInAll statements s, o.IsAllowed := fun o ho =>
        o.cause?_eq_none_iff.1 (Occurrence.check_eq_ok_iff.1 hcheck o ho)
      exact ⟨_, _, rfl, areStatements_linkStatements statements hp hallowed, _,
        isOutermost_afterAll statements hp hs hcheck, rfl⟩
  | _ => exact hp.elim

/-- A program that was read is compiled, or breaks a rule of scoping. -/
theorem isExpectedOutcome_compileTo {p : Tree} (hp : p.IsProgram .raw) (hd : d.AreOutermost)
    (stage : Stage) : IsExpectedOutcome stage (p.compileTo d stage) := by
  cases stage with
  | parsed => exact ⟨hp, hd⟩
  | analyzed =>
    rcases resolveProgram_cases hp hd with ⟨v, h⟩ | ⟨t, d', h, ht, hd'⟩
    · rw [compileTo, h]
      trivial
    · rw [compileTo, h]
      exact ⟨ht, hd'⟩
  | optimized =>
    rcases resolveProgram_cases hp hd with ⟨v, h⟩ | ⟨t, d', h, ht, hd'⟩
    · rw [compileTo, h]
      trivial
    · simp only [compileTo, h, ok_mapError, ok_bind, optimize?_of_isProgram ht]
      exact ⟨isProgram_optimize ht, hd'⟩

/-- The pass never fails, so that beyond the first stage only resolution can. -/
theorem exists_compileTo_iff {p : Tree} (hp : p.IsProgram .raw) (hd : d.AreOutermost)
    (stage : Stage) :
    (∃ r, p.compileTo d stage = .ok r) ↔ stage = .parsed ∨ ∃ r, p.resolveProgram d = .ok r := by
  rcases resolveProgram_cases hp hd with ⟨v, h⟩ | ⟨t, d', h, ht, -⟩
  · cases stage <;> simp [compileTo, h]
  · cases stage with
    | parsed => simp [compileTo]
    | analyzed => simp [compileTo, h]
    | optimized => simp [compileTo, h, optimize?_of_isProgram ht, pure, Except.pure]

/-- Reading answers a program before resolution, or an error of reading. -/
theorem read_cases (filename source : String) :
    (∃ p, Tree.read filename source = .ok p ∧ p.IsProgram .raw) ∨
      ∃ e, Tree.read filename source = .error (.parse e) := by
  rw [Tree.read]
  cases hread : ofProgram filename source.toList with
  | error f => exact .inr ⟨_, rfl⟩
  | ok p => exact .inl ⟨p, rfl, isProgram_of_ofProgram hread⟩

/-- Compilation of any text answers a program of its stage, or fails as expected. -/
theorem isExpectedOutcome_compileAt (hd : d.AreOutermost) (stage : Stage)
    (filename source : String) :
    IsExpectedOutcome stage (compileAt d stage filename source) := by
  rw [compileAt]
  rcases read_cases filename source with ⟨p, h, hp⟩ | ⟨e, h⟩
  · rw [h]
    exact isExpectedOutcome_compileTo hp hd stage
  · rw [h]
    trivial

/-- What resolves compiles up to any stage. -/
theorem exists_compileAt_of_analyzed (hd : d.AreOutermost) {result : Tree × Declarations}
    (h : compileAt d .analyzed filename source = .ok result) (stage : Stage) :
    ∃ result, compileAt d stage filename source = .ok result := by
  rw [compileAt] at h ⊢
  rcases read_cases filename source with ⟨p, hread, hp⟩ | ⟨e, hread⟩
  · rw [hread, ok_bind] at h ⊢
    have hresolves := (exists_compileTo_iff hp hd .analyzed).1 ⟨result, h⟩
    exact (exists_compileTo_iff hp hd stage).2 (.inr (hresolves.resolve_left (by decide)))
  · rw [hread] at h
    cases h

namespace Repl

variable {r r' : Repl} {line : String} {lines : List String}

/-- Every line keeps the invariant, since only what is resolved advances the declarations. -/
theorem areOutermost_step (hr : r.declarations.AreOutermost) (h : (r.step line).2 = some r') :
    r'.declarations.AreOutermost := by
  rcases step_cases h with rfl | ⟨_, source, t, d, -, -, hresolved, rfl⟩
  · exact hr
  · have houtcome := isExpectedOutcome_compileAt hr .analyzed Session.filename source
    by_cases hholds : r.stack.Holds r.declarations .analyzed Session.filename source
    · rw [Stack.compileAt_of_holds hholds] at hresolved
      rw [hresolved] at houtcome
      exact houtcome.2
    · rw [Stack.compileAt_of_not_holds hholds] at hresolved
      cases hresolved

theorem stack_step (h : (r.step line).2 = some r') : r'.stack = r.stack := by
  rcases step_cases h with rfl | ⟨_, _, _, _, -, -, -, rfl⟩ <;> rfl

/-- Behind any lines a session is outside of functions, and on the same stack. -/
theorem areOutermost_behind {k : Stack} {debug : Bool}
    (h : (initialOn k debug).behind lines = some r) :
    r.declarations.AreOutermost ∧ r.stack = k :=
  invariant_behind (I := fun r => r.declarations.AreOutermost ∧ r.stack = k)
    (fun _ _ _ hr hstep => ⟨areOutermost_step hr.1 hstep, (stack_step hstep).trans hr.2⟩)
    ⟨Declarations.areOutermost_initial, rfl⟩ h

end Repl

/-! ## Files -/

end Quill
