import Quill.Proofs.Shape
import Quill.Proofs.Optimize.Node

/-!
# The pass keeps the shape of programs

An optimized expression is an expression, whatever stands for its names. So no expression ever turns
into a list, and a call keeps its number of arguments. An optimized program is a program.
-/

namespace Quill.Tree

attribute [simp] optimize optimizeAll

theorem splice_of_isExpression {N : Naming} {t : Tree} (ht : t.IsExpression N) (ts : List Tree) :
    splice t ts = t :: ts := by
  cases t with
  | list items => exact ht.elim
  | _ => rfl

theorem splice_of_isStatement {N : Naming} {t : Tree} (ht : t.IsStatement N) (ts : List Tree) :
    splice t ts = t :: ts := by
  cases t with
  | list items => exact ht.elim
  | _ => rfl

theorem isExpression_foldUnary {N : Naming} {s : String} {e : Tree} (he : e.IsExpression N) :
    (foldUnary s e).IsExpression N := by
  rcases foldUnary_cases s e with ⟨v, h⟩ | ⟨h, -⟩ <;> rw [h]
  · trivial
  · exact he

theorem isExpression_foldConditional {N : Naming} {test consequent alternate : Tree}
    (ht : test.IsExpression N) (hc : consequent.IsExpression N) (ha : alternate.IsExpression N) :
    (foldConditional test consequent alternate).IsExpression N := by
  rcases foldConditional_cases test consequent alternate with h | h | ⟨h, -⟩ <;> rw [h]
  · exact hc
  · exact ha
  · exact ⟨ht, hc, ha⟩

section Pass

variable [Arithmetic]

/-- Of expressions the rules for an operation make an expression. -/
theorem isExpression_foldBinary {N : Naming} {s : String} {l r : Tree} (hl : l.IsExpression N)
    (hr : r.IsExpression N) : (foldBinary s l r).IsExpression N := by
  have hstep := binaryStep_foldBinary s l r
  generalize foldBinary s l r = t at hstep
  cases hstep with
  | folded value => trivial
  | left other symbol identity =>
    rcases identity.result with rfl | rfl | ⟨y, rfl⟩
    · exact hr
    · exact hr
    · trivial
  | right other symbol identity =>
    rcases identity.result with rfl | ⟨y, rfl⟩
    · exact hl
    · trivial
  | kept stays => exact ⟨hl, hr⟩

theorem isExpression_foldCall {N : Naming} {callee : Tree} {args : List Tree}
    (hc : N.callee args.length callee) (ha : AreExpressions N args) :
    (foldCall callee args).IsExpression N := by
  rcases foldCall_cases callee args with ⟨e, b, xs, x, -, -, -, -, h⟩ | ⟨h, -⟩ <;> rw [h]
  · trivial
  · exact ⟨hc, ha⟩

mutual

/-- The pass makes an expression of an expression. -/
theorem isExpression_optimize {N : Naming} : ∀ t : Tree,
    t.IsExpression N → t.optimize.IsExpression N
  | literal v, _ => trivial
  | token t, ht => ht
  | entity e, ht => ht
  | call callee args, ht => by
    obtain ⟨hargs, hlength⟩ := areExpressions_optimizeAll args ht.2
    refine isExpression_foldCall ?_ hargs
    rw [hlength]
    exact ht.1
  | conditional test consequent alternate, ht =>
    isExpression_foldConditional (isExpression_optimize test ht.1)
      (isExpression_optimize consequent ht.2.1) (isExpression_optimize alternate ht.2.2)
  | binary operator left right, ht =>
    isExpression_foldBinary (isExpression_optimize left ht.1) (isExpression_optimize right ht.2)
  | unary operator operand, ht => isExpression_foldUnary (isExpression_optimize operand ht)
  | absent, ht | text _, ht | list _, ht | program _, ht | variableDeclaration _ _, ht
  | functionDeclaration _ _ _, ht | assignment _ _, ht | whileLoop _ _, ht | print _, ht => ht.elim

/-- The pass makes as many expressions of expressions. -/
theorem areExpressions_optimizeAll {N : Naming} : ∀ ts : List Tree, AreExpressions N ts →
    AreExpressions N (optimizeAll ts) ∧ (optimizeAll ts).length = ts.length
  | [], _ => ⟨trivial, rfl⟩
  | t :: ts, hts => by
    have ht := isExpression_optimize t hts.1
    obtain ⟨hrest, hlength⟩ := areExpressions_optimizeAll ts hts.2
    rw [optimizeAll, splice_of_isExpression ht]
    exact ⟨⟨ht, hrest⟩, by rw [List.length_cons, List.length_cons, hlength]⟩

end

/-! ## Resolved programs -/

theorem optimizeAll_params {params : List Tree} (h : ∀ p ∈ params, Naming.resolved.parameter p) :
    optimizeAll params = params := by
  induction params with
  | nil => rfl
  | cons p ps ih =>
    obtain ⟨e, rfl, -⟩ := isEntity_iff.1 (h p List.mem_cons_self)
    rw [optimizeAll, ih fun q hq => h q (List.mem_cons_of_mem _ hq)]
    rfl

/-- Optimized statements are statements; an assignment that changes nothing leaves none. -/
theorem areStatements_optimizeAll : ∀ ts : List Tree, AreStatements Naming.resolved ts →
    AreStatements Naming.resolved (optimizeAll ts)
  | [], _ => trivial
  | variableDeclaration name initializer :: ts, h =>
    ⟨⟨h.1.1, isExpression_optimize initializer h.1.2⟩, areStatements_optimizeAll ts h.2⟩
  | functionDeclaration name params body :: ts, h => by
    simp only [optimizeAll, optimize, optimizeAll_params h.1.2.1]
    exact ⟨⟨h.1.1, h.1.2.1, isExpression_optimize body h.1.2.2⟩, areStatements_optimizeAll ts h.2⟩
  | assignment target source :: ts, h => by
    have hrest := areStatements_optimizeAll ts h.2
    rw [optimizeAll, optimize]
    rcases foldAssignment_cases target source.optimize with hfold | ⟨hfold, -⟩
    · rw [hfold]
      exact hrest
    · rw [hfold]
      exact ⟨⟨h.1.1, isExpression_optimize source h.1.2⟩, hrest⟩
  | whileLoop test body :: ts, h =>
    ⟨⟨isExpression_optimize test h.1.1, areStatements_optimizeAll body h.1.2⟩,
      areStatements_optimizeAll ts h.2⟩
  | print argument :: ts, h => by
    have hargument := isExpression_optimize argument h.1
    exact ⟨hargument, areStatements_optimizeAll ts h.2⟩
  | absent :: _, h | literal _ :: _, h | text _ :: _, h | list _ :: _, h | token _ :: _, h
  | entity _ :: _, h | program _ :: _, h | call _ _ :: _, h | conditional _ _ _ :: _, h
  | binary _ _ _ :: _, h | unary _ _ :: _, h => h.1.elim

/-- An optimized program is a program. -/
theorem isProgram_optimize {t : Tree} (ht : t.IsProgram Naming.resolved) :
    t.optimize.IsProgram Naming.resolved := by
  cases t with
  | program statements => exact areStatements_optimizeAll statements ht
  | _ => exact ht.elim

end Pass

end Quill.Tree
