import Quill.Stack
import Quill.Proofs.Grammar.Layout

/-!
# Stacks that give out

On a stack that holds a source, compilation is what it is without bound; on any other it fails in
one way, which is neither an error of reading nor a violation. The same holds of what is shown. No
bound on the brackets that are open at once lets every program of the grammar through.

## Main definitions

* `Stack.Holds` — the stack holds whatever a source takes up to a stage.
* `Stack.HoldsGraph` — it also holds while the graph is shown.
-/

namespace Quill

open Quill.Tree

namespace Stack

/-- The stack holds while a program that has been read is carried on to a stage. -/
def Carries (k : Stack) (d : Declarations) (p : Tree) : Stage → Prop
  | .parsed => True
  | .analyzed => k.resolves d p = true
  | .optimized => k.resolves d p = true ∧
      ∀ t after, p.resolveProgram d = .ok (t, after) → k.optimizes t = true

/-- The stack holds while the source is read, and while what is read is carried on to the stage. -/
def Holds (k : Stack) (d : Declarations) (stage : Stage) (filename source : String) : Prop :=
  k.reads source.toList = true ∧ ∀ p, Tree.read filename source = .ok p → k.Carries d p stage

variable {k : Stack} {d : Declarations} {stage : Stage} {p : Tree} {filename source : String}

theorem holds_unbounded (d : Declarations) (stage : Stage) (filename source : String) :
    unbounded.Holds d stage filename source := by
  refine ⟨rfl, fun p _ => ?_⟩
  cases stage with
  | parsed => exact trivial
  | analyzed => rfl
  | optimized => exact ⟨rfl, fun _ _ _ => rfl⟩

theorem within_of_not {α : Type} {holds : Bool} (h : ¬ holds = true) (k : Stack)
    (x : Except CompileError α) : k.within holds x = .error (.exhausted k.message) := if_neg h

/-! ## Compilation -/

theorem compileTo_of_carries (h : k.Carries d p stage) :
    k.compileTo d p stage = p.compileTo d stage := by
  cases stage with
  | parsed => rfl
  | analyzed => exact if_pos h
  | optimized =>
    obtain ⟨hresolves, hoptimizes⟩ := h
    simp only [compileTo, Tree.compileTo, resolve, hresolves, within_true]
    cases hp : p.resolveProgram d with
    | error e => rfl
    | ok result => simp only [ok_mapError, ok_bind, optimize, hoptimizes _ _ hp, within_true]

theorem compileTo_of_not_carries (h : ¬ k.Carries d p stage) :
    k.compileTo d p stage = .error (.exhausted k.message) := by
  cases stage with
  | parsed => exact (h trivial).elim
  | analyzed => exact within_of_not h k _
  | optimized =>
    simp only [compileTo, resolve]
    by_cases hresolves : k.resolves d p = true
    · obtain ⟨t, after, hp, hoptimizes⟩ : ∃ t after, p.resolveProgram d = .ok (t, after) ∧
          ¬ k.optimizes t = true := by
        simpa [Carries, hresolves] using h
      simp only [hresolves, within_true, hp, ok_mapError, ok_bind, optimize,
        within_of_not hoptimizes, error_bind]
    · rw [within_of_not hresolves, error_bind]

/-- On a stack that holds a source, compilation is what it is without bound. -/
theorem compileAt_of_holds (h : k.Holds d stage filename source) :
    k.compileAt d stage filename source = Quill.compileAt d stage filename source := by
  rw [compileAt, read, h.1, within_true, Quill.compileAt]
  cases hread : Tree.read filename source with
  | error e => rfl
  | ok p => rw [ok_bind, ok_bind, compileTo_of_carries (h.2 p hread)]

/-- A stack that does not hold a source reports so, whatever else is wrong with the source. -/
theorem compileAt_of_not_holds (h : ¬ k.Holds d stage filename source) :
    k.compileAt d stage filename source = .error (.exhausted k.message) := by
  rw [compileAt, read]
  by_cases hreads : k.reads source.toList = true
  · obtain ⟨p, hread, hcarries⟩ : ∃ p, Tree.read filename source = .ok p ∧
        ¬ k.Carries d p stage := by
      simpa [Holds, hreads] using h
    rw [hreads, within_true, hread, ok_bind, compileTo_of_not_carries hcarries]
  · rw [within_of_not hreads, error_bind]

theorem compileAt_unbounded (d : Declarations) (stage : Stage) (filename source : String) :
    unbounded.compileAt d stage filename source = Quill.compileAt d stage filename source :=
  compileAt_of_holds (holds_unbounded d stage filename source)

/-! ## Graphs -/

/-- Only what is resolved advances the declarations. -/
theorem graphAt_snd (k : Stack) (d : Declarations) (stage : Stage) (filename source : String) :
    (k.graphAt d stage filename source).2 = d ∨ stage ≠ .parsed ∧
      ∃ t, k.compileAt d .analyzed filename source =
        .ok (t, (k.graphAt d stage filename source).2) := by
  rw [graphAt, compileAt]
  cases k.read filename source with
  | error e => exact .inl rfl
  | ok p =>
    simp only [graphTo, ok_bind, compileTo]
    split
    · exact .inl rfl
    · rename_i hstage
      cases k.resolve d p with
      | error e => exact .inl rfl
      | ok result => exact .inr ⟨hstage, result.1, rfl⟩

theorem le_nesting (opened : Nat) (comment : Bool) (cs : List Char) :
    opened ≤ nesting opened comment cs := by
  induction cs generalizing opened comment with
  | nil => exact Nat.le_refl _
  | cons c cs ih =>
    unfold nesting
    split
    · exact ih _ _
    split
    · exact ih _ _
    split
    · exact Nat.le_of_succ_le (ih _ _)
    split
    · exact Nat.le_max_left _ _
    · exact ih _ _

/-- Brackets that are opened one after another are all open at once. -/
theorem le_nesting_spaced (opened n : Nat) (ts : List String) :
    opened + n ≤ nesting opened false (spaced (List.replicate n "(" ++ ts)) := by
  induction n generalizing opened with
  | zero => exact le_nesting _ _ _
  | succ n ih =>
    have hbracket (ts : List String) : spaced ("(" :: ts) = '(' :: ' ' :: spaced ts := rfl
    have hopen (cs : List Char) :
        nesting opened false ('(' :: ' ' :: cs) = nesting (opened + 1) false cs := by
      simp [nesting]
    rw [List.replicate_succ, List.cons_append, hbracket, hopen, ← Nat.add_assoc,
      Nat.add_right_comm]
    exact ih (opened + 1)

end Stack

/-- The tokens of `print true;` with so many parentheses around what is printed. -/
def nestedTokens (n : Nat) : List String :=
  "print" :: (List.replicate n "(" ++ "true" :: List.replicate n ")" ++ [";"])

theorem derives_nestedTokens (n : Nat) :
    Derives (.statements [.print (.boolean true)]) (nestedTokens n) := by
  have hnested : Derives (.expression topLevel (.boolean true))
      (List.replicate n "(" ++ "true" :: List.replicate n ")") := by
    induction n with
    | zero => exact .truth
    | succ n ih =>
      have hsplit : List.replicate (n + 1) "(" ++ "true" :: List.replicate (n + 1) ")" =
          "(" :: ((List.replicate n "(" ++ "true" :: List.replicate n ")") ++ [")"]) := by
        rw [List.replicate_succ, List.replicate_succ', List.cons_append, List.append_assoc,
          List.cons_append]
      rw [hsplit]
      exact .parentheses ih
  have hall : Derives _ (nestedTokens n ++ []) := .statements (.print hnested) .noStatements
  rwa [List.append_nil] at hall

namespace Stack

/-- As many parentheses are open at once. -/
theorem le_nesting_nestedTokens (n : Nat) : n ≤ nesting 0 false (spaced (nestedTokens n)) := by
  have hprint (ts : List String) :
      nesting 0 false (spaced ("print" :: ts)) = nesting 0 false (spaced ts) := by
    have hword : spaced ("print" :: ts) = 'p' :: 'r' :: 'i' :: 'n' :: 't' :: ' ' :: spaced ts :=
      rfl
    simp [hword, nesting]
  rw [nestedTokens, hprint, List.append_assoc]
  exact Nat.le_trans (Nat.le_add_left n 0) (le_nesting_spaced 0 n _)

/-- However many brackets a stack is made for, there is a well-formed program on which it gives
out. -/
theorem exists_exhausted_ofDepth (depth : Nat) (message filename : String) (d : Declarations)
    (stage : Stage) : ∃ source t, Tree.read filename source = .ok t ∧
      (ofDepth depth message).compileAt d stage filename source =
        .error (.exhausted message) := by
  have hprogram := derives_nestedTokens (depth + 1)
  obtain ⟨t, hread, -⟩ := Tree.exists_ofProgram_of_spells hprogram hprogram.spells_spaced filename
  refine ⟨String.ofList (spaced (nestedTokens (depth + 1))), t, ?_,
    compileAt_of_not_holds fun h => ?_⟩
  · rw [Tree.read, String.toList_ofList, hread]
    rfl
  · have hheld : nesting 0 false (spaced (nestedTokens (depth + 1))) ≤ depth := by
      simpa [ofDepth] using h.1
    have hdeep := le_nesting_nestedTokens (depth + 1)
    omega

end Stack
end Quill
