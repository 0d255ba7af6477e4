import Quill.Proofs.Optimize.Fault

/-!
# What becomes of statements

Of a list of statements the pass deletes the assignments of a variable to itself and no other ones,
in the bodies of loops as well. Every other statement keeps its place and its kind, and the names
that it declares or assigns; its expressions are optimized. A loop stays whatever becomes of its
test and its body.

## Main definitions

* `Tree.isSelfAssignment` — assignments of a variable to itself, once the source is optimized.
* `Tree.revised`, `Tree.trimmed` — what is left of a statement, and of a list of statements.
* `Tree.blocks` — the lists of statements in a program, at every level.
-/

namespace Quill.Tree

/-- Is the source nothing but the target, once it is optimized? -/
def isSelfAssignment : Tree → Bool
  | assignment (entity x) source => source.optimize.entity?.any fun y => y.id = x.id
  | _ => false

/-- Is the tree an assignment? -/
def isAssignment : Tree → Bool
  | assignment _ _ => true
  | _ => false

mutual

/-- A statement with its expressions optimized, and without self-assignments in the bodies of
loops. -/
def revised : Tree → Tree
  | program statements => program (trimmed statements)
  | variableDeclaration name initializer => variableDeclaration name initializer.optimize
  | functionDeclaration name params body => functionDeclaration name params body.optimize
  | assignment target source => assignment target source.optimize
  | whileLoop test body => whileLoop test.optimize (trimmed body)
  | print argument => print argument.optimize
  | t => t

/-- The revised statements of a list without its self-assignments. -/
def trimmed : List Tree → List Tree
  | [] => []
  | t :: ts => if t.isSelfAssignment then trimmed ts else t.revised :: trimmed ts

end

mutual

/-- The lists of statements in a program or a statement: its own one, and behind each statement
those within the statement. -/
def blocks : Tree → List (List Tree)
  | program statements => statements :: blocksWithin statements
  | whileLoop _ body => body :: blocksWithin body
  | _ => []

/-- The lists of statements within statements. -/
def blocksWithin : List Tree → List (List Tree)
  | [] => []
  | t :: ts => t.blocks ++ blocksWithin ts

end

/-! ## Lists of statements -/

/-- Trimming drops the assignments of a variable to itself and revises the other statements. -/
theorem trimmed_eq (ts : List Tree) :
    trimmed ts = (ts.filter fun t => !t.isSelfAssignment).map revised := by
  induction ts with
  | nil => rfl
  | cons t ts ih => cases h : t.isSelfAssignment <;> simp [trimmed, h, ih]

theorem isAssignment_of_isSelfAssignment {t : Tree} (h : t.isSelfAssignment = true) :
    t.isAssignment = true := by
  cases t <;> first | rfl | cases h

@[simp] theorem isAssignment_revised (t : Tree) : t.revised.isAssignment = t.isAssignment := by
  cases t <;> rfl

/-- Apart from assignments all statements stay, in order. -/
theorem filter_trimmed (ts : List Tree) :
    (trimmed ts).filter (fun t => !t.isAssignment) =
      (ts.filter fun t => !t.isAssignment).map revised := by
  induction ts with
  | nil => rfl
  | cons t ts ih =>
    rw [trimmed]
    split
    · rw [ih, List.filter_cons_of_neg]
      simp [isAssignment_of_isSelfAssignment ‹_›]
    · cases h : t.isAssignment <;> simp [h, ih]

mutual

/-- Every list of statements is trimmed, and none is dropped. -/
theorem blocks_revised : ∀ t : Tree, t.revised.blocks = t.blocks.map trimmed
  | program statements => congrArg (trimmed statements :: ·) (blocksWithin_trimmed statements)
  | whileLoop _ body => congrArg (trimmed body :: ·) (blocksWithin_trimmed body)
  | absent | literal _ | text _ | list _ | token _ | entity _ | variableDeclaration _ _
  | functionDeclaration _ _ _ | assignment _ _ | print _ | call _ _ | conditional _ _ _
  | binary _ _ _ | unary _ _ => rfl

theorem blocksWithin_trimmed : ∀ ts : List Tree,
    blocksWithin (trimmed ts) = (blocksWithin ts).map trimmed
  | [] => rfl
  | t :: ts => by
    rw [trimmed, blocksWithin, List.map_append, ← blocksWithin_trimmed ts]
    split
    · -- A self-assignment has no statements of its own, so nothing of theirs is lost.
      have hnone : t.blocks = [] := by
        cases t <;> first | rfl | contradiction
      rw [hnone, List.map_nil, List.nil_append]
    · rw [blocksWithin, blocks_revised t]

end

/-! ## The pass -/

theorem isSame_entity (s : Tree) (x : Entity) :
    isSame s (entity x) = s.entity?.any fun y => y.id = x.id := by
  cases s with
  | literal v => cases v <;> rfl
  | _ => rfl

mutual

/-- A self-assignment leaves nothing in front of what follows, any other statement what it is
revised to. -/
theorem splice_optimize : ∀ t : Tree, t.IsStatement Naming.resolved → ∀ us : List Tree,
    splice t.optimize us = if t.isSelfAssignment then us else t.revised :: us
  | variableDeclaration _ _, _, _ | print _, _, _ => rfl
  | functionDeclaration name params body, ht, us => by
    rw [optimize, optimizeAll_params ht.2.1]
    rfl
  | assignment target source, ht, us => by
    obtain ⟨x, rfl, -⟩ := isEntity_iff.1 ht.1
    rw [optimize, foldAssignment, isSame_entity, isSelfAssignment]
    split <;> rfl
  | whileLoop test body, ht, us => by
    rw [optimize, optimizeAll_eq_trimmed body ht.2]
    rfl
  | absent, ht, _ | literal _, ht, _ | text _, ht, _ | list _, ht, _ | token _, ht, _
  | entity _, ht, _ | program _, ht, _ | call _ _, ht, _ | conditional _ _ _, ht, _
  | binary _ _ _, ht, _ | unary _ _, ht, _ => ht.elim

/-- The pass trims a list of statements. -/
theorem optimizeAll_eq_trimmed : ∀ ts : List Tree, AreStatements Naming.resolved ts →
    optimizeAll ts = trimmed ts
  | [], _ => rfl
  | t :: ts, hts => by
    rw [optimizeAll, optimizeAll_eq_trimmed ts hts.2, splice_optimize t hts.1, trimmed]

end

/-- The pass revises a resolved program. -/
theorem optimize_eq_revised {t : Tree} (ht : t.IsProgram Naming.resolved) :
    t.optimize = t.revised := by
  cases t with
  | program statements => exact congrArg program (optimizeAll_eq_trimmed statements ht)
  | _ => exact ht.elim

/-- Only self-assignments disappear. The pass revises a resolved program: at every level the list of
statements is the one before without its self-assignments, each statement revised; and whatever is
no assignment stays, once and in order. -/
theorem only_self_assignments_disappear {t : Tree} (ht : t.IsProgram Naming.resolved) :
    t.optimize? = .ok t.revised ∧
      (t.revised.blocks =
        t.blocks.map fun ts => (ts.filter fun s => !s.isSelfAssignment).map revised) ∧
      (t.revised.blocks.map (List.filter fun s => !s.isAssignment)) =
        t.blocks.map fun ts => (ts.filter fun s => !s.isAssignment).map revised := by
  refine ⟨?_, ?_, ?_⟩
  · rw [optimize?_of_isProgram ht, optimize_eq_revised ht]
  · rw [blocks_revised]
    exact List.map_congr_left fun ts _ => trimmed_eq ts
  · rw [blocks_revised, List.map_map]
    exact List.map_congr_left fun ts _ => filter_trimmed ts

/-- A loop that is never entered, and a loop in it whose only statement goes. -/
def idle : Tree :=
  let x := entity (Entity.declaredVariable 0 "x")
  program [
    variableDeclaration x (number .one),
    whileLoop (unary "!" (boolean true))
      [whileLoop x [assignment x (binary "+" x (number .zero))], print x, assignment x x],
    assignment x (binary "+" (number .one) (number .zero))]

theorem optimize_idle :
    idle.IsProgram Naming.resolved ∧ idle.optimize? = .ok idle.revised ∧
      (idle.revised.blocks =
        idle.blocks.map fun ts => (ts.filter fun s => !s.isSelfAssignment).map revised) ∧
      (idle.revised.blocks.map (List.filter fun s => !s.isAssignment)) =
        idle.blocks.map fun ts => (ts.filter fun s => !s.isAssignment).map revised := by
  have hx : (Entity.declaredVariable 0 "x").IsGenuine := Entity.isGenuine_of_builtin?_eq_none rfl
  have hvalue : (entity (Entity.declaredVariable 0 "x")).IsExpression Naming.resolved := ⟨rfl, hx⟩
  have htarget : Naming.resolved.target (entity (Entity.declaredVariable 0 "x")) :=
    ⟨rfl, rfl, rfl⟩
  have h : idle.IsProgram Naming.resolved :=
    ⟨⟨htarget, trivial⟩,
      ⟨trivial, ⟨hvalue, ⟨htarget, hvalue, trivial⟩, trivial⟩, hvalue, ⟨htarget, hvalue⟩, trivial⟩,
      ⟨htarget, trivial, trivial⟩, trivial⟩
  exact ⟨h, only_self_assignments_disappear h⟩

end Quill.Tree
