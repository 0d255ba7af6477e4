import Quill.Proofs.Scope.Renumbering
import Quill.Proofs.Session.Fragments

/-!
# Fragments one after another are one program

Fragments resolved one after another give what the program of all their statements gives: the same
trees up to the numbers of the entities, or the first error among the answers. Resolution only hands
declarations on from one statement to the next, and does not see where a fragment ends.

## Main definitions

* `Tree.statements` — the statements of a program.
* `Declarations.joined` — the answers to fragments as one answer, up to the first error.
-/

namespace Quill

namespace Tree

/-- The statements of a program. -/
def statements : Tree → List Tree
  | program statements => statements
  | _ => []

@[simp] theorem statements_program (ts : List Tree) : (program ts).statements = ts := rfl

theorem resolveProgram_program (ts : List Tree) (d : Declarations) :
    (program ts).resolveProgram d = Prod.map program id <$> resolveStatements ts d := by
  simp only [resolveProgram, map_eq_pure_bind]
  rfl

/-- Statements behind others are resolved below what those before declare. -/
theorem resolveStatements_append (ts us : List Tree) (d : Declarations) :
    resolveStatements (ts ++ us) d =
      (resolveStatements ts d >>= fun a =>
        (fun b => (a.1 ++ b.1, b.2)) <$> resolveStatements us a.2) := by
  induction ts generalizing d with
  | nil =>
    simp only [List.nil_append, resolveStatements, ok_bind]
    exact (id_map' _).symm
  | cons t ts ih =>
    simp only [List.cons_append, resolveStatements, ih, bind_assoc, pure_bind, map_eq_pure_bind]

end Tree

namespace Declarations

open Quill.Tree

/-- The answers to fragments as one answer: all of them in order, or the first error. -/
def joined (d : Declarations) (ps : List Tree) : Except ResolveError (List Tree) :=
  (d.answers ps).mapM id

theorem joined_cons_of_ok {d after : Declarations} {p r : Tree} (h : d.accept p = (.ok r, after))
    (ps : List Tree) : d.joined (p :: ps) = (r :: ·) <$> after.joined ps := by
  simp only [joined, answers, List.mapM_cons, h, id, ok_bind]
  rfl

theorem joined_cons_of_error {d after : Declarations} {p : Tree} {e : ResolveError}
    (h : d.accept p = (.error e, after)) (ps : List Tree) : d.joined (p :: ps) = .error e := by
  simp only [joined, answers, List.mapM_cons, h, id, error_bind]

/-- The statements of all fragments together give the answers one after another. -/
theorem resolveStatements_flatten (d : Declarations) (fs : List (List Tree)) :
    resolveStatements fs.flatten d =
      (fun rs => (rs.flatMap statements, d.behind (fs.map program))) <$>
        d.joined (fs.map program) := by
  induction fs generalizing d with
  | nil => rfl
  | cons f fs ih =>
    rw [List.flatten_cons, resolveStatements_append, List.map_cons]
    cases hf : resolveStatements f d with
    | error e =>
      have hstep : d.accept (program f) = (.error e, d) :=
        accept_of_error (by rw [resolveProgram_program, hf]; rfl)
      rw [joined_cons_of_error hstep]
      rfl
    | ok result =>
      obtain ⟨rs, after⟩ := result
      have hstep : d.accept (program f) = (.ok (program rs), after) :=
        accept_of_ok (by rw [resolveProgram_program, hf]; rfl)
      rw [joined_cons_of_ok hstep, ok_bind, ih, behind, hstep]
      simp only [Functor.map_map, List.flatMap_cons, statements_program]

/-! ## Answers as one answer -/

section
variable {ε α β : Type} {as : List (Except ε α)}

theorem mapM_id_eq_ok_iff {rs : List α} : as.mapM id = .ok rs ↔ as = rs.map .ok := by
  induction as generalizing rs with
  | nil => cases rs <;> simp [pure, Except.pure]
  | cons a as ih =>
    simp only [List.mapM_cons, id, bind_eq_ok_iff, ih]
    constructor
    · rintro ⟨r, rfl, rest, rfl, h⟩
      obtain rfl := Except.ok.inj h
      rfl
    · intro h
      cases rs with
      | nil => cases h
      | cons r rs =>
        obtain ⟨rfl, rfl⟩ := List.cons.inj h
        exact ⟨r, rfl, rs, rfl, rfl⟩

theorem mapM_id_of_error {e : ε} (h : ∀ a ∈ as, a.isOk) (rest : List (Except ε α)) :
    (as ++ .error e :: rest).mapM id = .error e := by
  induction as with
  | nil => rfl
  | cons a as ih =>
    have hrest := ih fun a ha => h a (List.mem_cons_of_mem _ ha)
    cases a with
    | error e => cases h _ List.mem_cons_self
    | ok r => simp only [List.cons_append, List.mapM_cons, id, ok_bind, hrest, error_bind]

theorem isOk_map (f : α → β) (a : Except ε α) : (f <$> a).isOk = a.isOk := by
  cases a <;> rfl

end

theorem answers_take (d : Declarations) (ps : List Tree) (k : Nat) :
    d.answers (ps.take k) = (d.answers ps).take k := by
  induction ps generalizing d k with
  | nil => simp [answers]
  | cons p ps ih =>
    cases k with
    | zero => rfl
    | succ k => simp only [List.take_succ_cons, answers, ih]

/-! ## Numbering from a later number on -/

theorem accept_shift (m : Nat) (d : Declarations) (p : Tree) :
    (d.shift m).accept p = Prod.map (renumber (· + m) <$> ·) (shift m) (d.accept p) := by
  simp only [accept, resolveProgram_shift]
  cases p.resolveProgram d <;> rfl

/-- A session that counts from a later number answers with renumbered entities. -/
theorem answers_shift (m : Nat) (d : Declarations) (ps : List Tree) :
    (d.shift m).answers ps = (d.answers ps).map (renumber (· + m) <$> ·) := by
  induction ps generalizing d with
  | nil => rfl
  | cons p ps ih => simp only [answers, accept_shift, Prod.map, ih, List.map_cons]

/-- All fragments together are rejected for the first error among the answers, and otherwise give
all answers. -/
theorem resolve_flatten (fs : List (List Tree)) :
    (program fs.flatten).resolve =
      (fun rs => program (rs.flatMap statements)) <$> initial.joined (fs.map program) := by
  rw [resolve, resolveProgram_program, resolveStatements_flatten]
  simp only [Functor.map_map, Prod.map]

/-- Where all fragments are accepted, each answer is a program. -/
theorem exists_answers_eq {d : Declarations} {fs : List (List Tree)}
    (h : ∀ a ∈ d.answers (fs.map program), a.isOk) :
    ∃ rs : List (List Tree), d.answers (fs.map program) = rs.map fun ss => .ok (program ss) := by
  induction fs generalizing d with
  | nil => exact ⟨[], rfl⟩
  | cons f fs ih =>
    obtain ⟨rs, hrs⟩ := ih fun a ha => h a (List.mem_cons_of_mem _ ha)
    have hf := h _ List.mem_cons_self
    cases hstep : resolveStatements f d with
    | error e =>
      rw [accept_of_error (by rw [resolveProgram_program, hstep]; rfl)] at hf
      cases hf
    | ok result =>
      have haccept : (d.accept (program f)).1 = .ok (program result.1) := by
        rw [accept_of_ok (by rw [resolveProgram_program, hstep]; rfl)]
      refine ⟨result.1 :: rs, ?_⟩
      rw [List.map_cons, answers, haccept, hrs, List.map_cons]

/-- Fragments that are accepted one by one make a program that is accepted, with the same
answers. -/
theorem resolve_flatten_of_accepted {fs rs : List (List Tree)}
    (h : initial.answers (fs.map program) = rs.map fun ss => .ok (program ss)) :
    (program fs.flatten).resolve = .ok (program rs.flatten) := by
  have hjoined : initial.joined (fs.map program) = .ok (rs.map program) := by
    rw [joined, mapM_id_eq_ok_iff, h, List.map_map]
    rfl
  have hstatements : (rs.map program).flatMap statements = rs.flatten := by
    rw [List.flatMap_map, List.flatMap_def]
    exact congrArg _ (List.map_id rs)
  rw [resolve_flatten, hjoined, ← hstatements]
  rfl

/-- The fragments of a program that is accepted are accepted one by one. -/
theorem accepted_of_resolve_flatten {fs : List (List Tree)} {r : Tree}
    (h : (program fs.flatten).resolve = .ok r) :
    ∀ a ∈ initial.answers (fs.map program), a.isOk := by
  rw [resolve_flatten] at h
  cases hjoined : initial.joined (fs.map program) with
  | error e =>
    rw [hjoined] at h
    cases h
  | ok rs =>
    rw [mapM_id_eq_ok_iff.1 hjoined]
    simp [Except.isOk, Except.toBool]

/-- The first fragment that is rejected is what the program is rejected for. -/
theorem resolve_flatten_of_rejected {fs : List (List Tree)} {k : Nat} {e : ResolveError}
    (hbefore : ∀ a ∈ (initial.answers (fs.map program)).take k, a.isOk)
    (herror : (initial.answers (fs.map program))[k]? = some (.error e)) :
    (program (fs.take (k + 1)).flatten).resolve = .error e := by
  have hanswers : initial.answers ((fs.take (k + 1)).map program) =
      (initial.answers (fs.map program)).take k ++ [.error e] := by
    rw [List.map_take, answers_take, List.take_add_one, herror]
    rfl
  rw [resolve_flatten, joined, hanswers, mapM_id_of_error hbefore]
  rfl

/-- Fragments of a session, whose entities may be numbered from any number on, are all accepted
exactly when the program of all their statements is. Then the answers together are that program's,
up to the numbers of entities; and the first rejected fragment is rejected for the error of the
program up to its end. -/
theorem fragments_eq_program (n : Nat) (fs : List (List Tree)) :
    let answers := (⟨Scope.root, n⟩ : Declarations).answers (fs.map program)
    ((∀ a ∈ answers, a.isOk) ↔ ∃ r, (program fs.flatten).resolve = .ok r) ∧
      ((∀ a ∈ answers, a.isOk) →
        ∃ rs : List (List Tree), answers = (rs.map fun ss => .ok (program ss)) ∧
          ∃ r, (program fs.flatten).resolve = .ok r ∧ r.IsIsomorphic (program rs.flatten)) ∧
      ∀ k e, (∀ a ∈ answers.take k, a.isOk) → answers[k]? = some (.error e) →
        (program (fs.take (k + 1)).flatten).resolve = .error e := by
  have hn : (⟨Scope.root, n⟩ : Declarations) = initial.shift n := by simp [shift, initial]
  have hok (as : List (Except ResolveError Tree)) :
      (∀ a ∈ as.map (renumber (· + n) <$> ·), a.isOk) ↔ ∀ a ∈ as, a.isOk := by
    simp only [List.forall_mem_map, isOk_map]
  simp only [hn, answers_shift, hok, ← List.map_take]
  refine ⟨⟨?_, ?_⟩, ?_, ?_⟩
  · intro h
    obtain ⟨rs, hrs⟩ := exists_answers_eq h
    exact ⟨_, resolve_flatten_of_accepted hrs⟩
  · rintro ⟨r, hr⟩
    exact accepted_of_resolve_flatten hr
  · intro h
    obtain ⟨rs, hrs⟩ := exists_answers_eq h
    refine ⟨rs.map (renumberAll (· + n)), ?_, _, resolve_flatten_of_accepted hrs, (· + n), ?_, ?_⟩
    · rw [hrs, List.map_map, List.map_map]
      rfl
    · intro i j hij
      exact Nat.add_right_cancel hij
    · rw [renumber, renumberAll_flatten]
  · intro k e hbefore herror
    refine resolve_flatten_of_rejected hbefore ?_
    rw [List.getElem?_map, Option.map_eq_some_iff] at herror
    obtain ⟨a, ha, hrenumber⟩ := herror
    cases a with
    | ok r => cases hrenumber
    | error e' =>
      obtain rfl := Except.error.inj hrenumber
      exact ha

end Declarations
end Quill
