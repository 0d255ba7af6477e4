import Quill.Proofs.Optimize.Shape

/-!
# The pass leaves no redex

One pass from the leaves to the root leaves no redex behind, at any depth, and it changes nothing in
a tree without one. A rule answers an operand, an arm, a literal or a negation of an operand that is
no literal; each of these is normal when the parts are, so a rewriting below never makes room for
another one above that is missed.

## Main definitions

* `Tree.parts` — a tree and all parts of it.
* `Tree.IsNormal` — no part is a redex.
-/

namespace Quill

namespace Tree

/-! ## Parts -/

mutual

/-- A tree and all parts of it. -/
@[simp] def parts : Tree → List Tree
  | list items => list items :: partsOfAll items
  | program statements => program statements :: partsOfAll statements
  | variableDeclaration name initializer =>
    variableDeclaration name initializer :: (name.parts ++ initializer.parts)
  | functionDeclaration name params body =>
    functionDeclaration name params body :: (name.parts ++ (partsOfAll params ++ body.parts))
  | assignment target source => assignment target source :: (target.parts ++ source.parts)
  | whileLoop test body => whileLoop test body :: (test.parts ++ partsOfAll body)
  | print argument => print argument :: argument.parts
  | call callee args => call callee args :: (callee.parts ++ partsOfAll args)
  | conditional test consequent alternate =>
    conditional test consequent alternate :: (test.parts ++ (consequent.parts ++ alternate.parts))
  | binary operator left right => binary operator left right :: (left.parts ++ right.parts)
  | unary operator operand => unary operator operand :: operand.parts
  | absent => [absent]
  | literal value => [literal value]
  | text value => [text value]
  | token t => [token t]
  | entity e => [entity e]

/-- Trees and all parts of them. -/
@[simp] def partsOfAll : List Tree → List Tree
  | [] => []
  | t :: ts => t.parts ++ partsOfAll ts

end

/-- No part is a redex. -/
def IsNormal (t : Tree) : Prop := ∀ s ∈ t.parts, ¬ IsRedex s

/-- No part of any of the trees is a redex. -/
def AreNormal (ts : List Tree) : Prop := ∀ s ∈ partsOfAll ts, ¬ IsRedex s

@[simp] theorem areNormal_nil : AreNormal [] := by simp [AreNormal]

@[simp] theorem areNormal_cons {t : Tree} {ts : List Tree} :
    AreNormal (t :: ts) ↔ t.IsNormal ∧ AreNormal ts := by
  simp [AreNormal, IsNormal, or_imp, forall_and]

theorem areNormal_append {ts us : List Tree} :
    AreNormal (ts ++ us) ↔ AreNormal ts ∧ AreNormal us := by
  induction ts with
  | nil => simp
  | cons t ts ih => simp [ih, and_assoc]

section
variable {s : String} {l r e test consequent alternate callee name target source : Tree}
  {args params body statements items : List Tree}

@[simp] theorem isNormal_literal (v : Literal) : (literal v).IsNormal := by
  simp only [IsNormal, parts, List.mem_singleton, forall_eq]
  rintro ⟨⟩

@[simp] theorem isNormal_entity (e : Entity) : (entity e).IsNormal := by
  simp only [IsNormal, parts, List.mem_singleton, forall_eq]
  rintro ⟨⟩

theorem isNormal_binary :
    (binary s l r).IsNormal ↔ ¬ IsRedex (binary s l r) ∧ l.IsNormal ∧ r.IsNormal := by
  simp [IsNormal, or_imp, forall_and]

theorem isNormal_unary : (unary s e).IsNormal ↔ ¬ IsRedex (unary s e) ∧ e.IsNormal := by
  simp [IsNormal]

theorem isNormal_conditional :
    (conditional test consequent alternate).IsNormal ↔
      ¬ IsRedex (conditional test consequent alternate) ∧ test.IsNormal ∧ consequent.IsNormal ∧
        alternate.IsNormal := by
  simp [IsNormal, or_imp, forall_and]

theorem isNormal_call :
    (call callee args).IsNormal ↔
      ¬ IsRedex (call callee args) ∧ callee.IsNormal ∧ AreNormal args := by
  simp [IsNormal, AreNormal, or_imp, forall_and]

theorem isNormal_assignment :
    (assignment target source).IsNormal ↔
      ¬ IsRedex (assignment target source) ∧ target.IsNormal ∧ source.IsNormal := by
  simp [IsNormal, or_imp, forall_and]

theorem isNormal_list : (list items).IsNormal ↔ AreNormal items := by
  have h : ¬ IsRedex (list items) := by rintro ⟨⟩
  simp [IsNormal, AreNormal, h]

theorem isNormal_program : (program statements).IsNormal ↔ AreNormal statements := by
  have h : ¬ IsRedex (program statements) := by rintro ⟨⟩
  simp [IsNormal, AreNormal, h]

theorem isNormal_variableDeclaration :
    (variableDeclaration name e).IsNormal ↔ name.IsNormal ∧ e.IsNormal := by
  have h : ¬ IsRedex (variableDeclaration name e) := by rintro ⟨⟩
  simp [IsNormal, or_imp, forall_and, h]

theorem isNormal_functionDeclaration :
    (functionDeclaration name params e).IsNormal ↔
      name.IsNormal ∧ AreNormal params ∧ e.IsNormal := by
  have h : ¬ IsRedex (functionDeclaration name params e) := by rintro ⟨⟩
  simp [IsNormal, AreNormal, or_imp, forall_and, h]

theorem isNormal_whileLoop :
    (whileLoop test body).IsNormal ↔ test.IsNormal ∧ AreNormal body := by
  have h : ¬ IsRedex (whileLoop test body) := by rintro ⟨⟩
  simp [IsNormal, AreNormal, or_imp, forall_and, h]

theorem isNormal_print : (print e).IsNormal ↔ e.IsNormal := by
  have h : ¬ IsRedex (print e) := by rintro ⟨⟩
  simp [IsNormal, h]

end

/-! ## One node -/

/-- The negation of what is no literal is no redex. -/
theorem isNormal_negation {e : Tree} (he : e.IsNormal) (hlit : e.literal? = none) :
    (unary "-" e).IsNormal := by
  refine isNormal_unary.2 ⟨?_, he⟩
  intro h
  exact h.literal?_ne_none hlit

/-- Of normal operands the rules for an operation make a normal tree. -/
theorem isNormal_foldBinary {s : String} {l r : Tree} (hl : l.IsNormal) (hr : r.IsNormal) :
    (foldBinary s l r).IsNormal := by
  have hstep := binaryStep_foldBinary s l r
  generalize foldBinary s l r = t at hstep
  cases hstep with
  | folded value => exact isNormal_literal _
  | left other symbol identity =>
    rcases identity.result with rfl | rfl | ⟨y, rfl⟩
    · exact hr
    · exact isNormal_negation hr other
    · exact isNormal_literal _
  | right other symbol identity =>
    rcases identity.result with rfl | ⟨y, rfl⟩
    · exact hl
    · exact isNormal_literal _
  | kept stays => exact isNormal_binary.2 ⟨stays, hl, hr⟩

theorem isNormal_foldUnary {s : String} {e : Tree} (he : e.IsNormal) :
    (foldUnary s e).IsNormal := by
  rcases foldUnary_cases s e with ⟨v, h⟩ | ⟨h, hstays⟩ <;> rw [h]
  · exact isNormal_literal v
  · exact isNormal_unary.2 ⟨hstays, he⟩

theorem isNormal_foldConditional {test consequent alternate : Tree} (ht : test.IsNormal)
    (hc : consequent.IsNormal) (ha : alternate.IsNormal) :
    (foldConditional test consequent alternate).IsNormal := by
  rcases foldConditional_cases test consequent alternate with h | h | ⟨h, hstays⟩ <;> rw [h]
  · exact hc
  · exact ha
  · exact isNormal_conditional.2 ⟨hstays, ht, hc, ha⟩

theorem isNormal_foldAssignment {e : Entity} {source : Tree} (hs : source.IsNormal) :
    (foldAssignment (entity e) source).IsNormal := by
  rcases foldAssignment_cases (entity e) source with h | ⟨h, hstays⟩ <;> rw [h]
  · exact isNormal_list.2 areNormal_nil
  · exact isNormal_assignment.2 ⟨hstays, isNormal_entity e, hs⟩

/-- A call that stays is no redex: an intrinsic function takes as many numbers as are passed. -/
theorem isNormal_foldCall {e : Entity} {args : List Tree}
    (hcount : e.paramCount? = some (args.length : Int)) (hgenuine : e.IsGenuine)
    (hargs : AreNormal args) : (foldCall (entity e) args).IsNormal := by
  rcases foldCall_cases (entity e) args with ⟨-, -, -, x, -, -, -, -, h⟩ | ⟨h, hnone⟩ <;> rw [h]
  · exact isNormal_literal _
  refine isNormal_call.2 ⟨?_, isNormal_entity e, hargs⟩
  intro hredex
  cases hredex with
  | @intrinsic _ b _ callee computed numbers =>
    obtain ⟨xs, rfl⟩ := exists_numbers numbers
    have hvalue := hnone e b xs rfl callee rfl
    rw [hgenuine b callee, List.length_map] at hcount
    have hsome := Builtin.isSome_value? computed hcount
    rw [hvalue] at hsome
    exact Bool.noConfusion hsome

/-! ## The pass -/

mutual

/-- What the pass makes of an expression is normal. -/
theorem isNormal_optimize : ∀ t : Tree, t.IsExpression Naming.resolved → t.optimize.IsNormal
  | literal v, _ => isNormal_literal v
  | entity e, _ => isNormal_entity e
  | call callee args, ht => by
    obtain ⟨e, rfl, hcount, hgenuine⟩ := isEntity_iff.1 ht.1
    have hlength := (areExpressions_optimizeAll args ht.2).2
    exact isNormal_foldCall (hlength ▸ hcount) hgenuine (areNormal_optimizeAll args ht.2)
  | conditional test consequent alternate, ht =>
    isNormal_foldConditional (isNormal_optimize test ht.1) (isNormal_optimize consequent ht.2.1)
      (isNormal_optimize alternate ht.2.2)
  | binary operator left right, ht =>
    isNormal_foldBinary (isNormal_optimize left ht.1) (isNormal_optimize right ht.2)
  | unary operator operand, ht => isNormal_foldUnary (isNormal_optimize operand ht)
  | absent, ht | text _, ht | list _, ht | token _, ht | program _, ht | variableDeclaration _ _, ht
  | functionDeclaration _ _ _, ht | assignment _ _, ht | whileLoop _ _, ht | print _, ht => ht.elim

theorem areNormal_optimizeAll : ∀ ts : List Tree, AreExpressions Naming.resolved ts →
    AreNormal (optimizeAll ts)
  | [], _ => areNormal_nil
  | t :: ts, hts => by
    rw [optimizeAll, splice_of_isExpression (isExpression_optimize t hts.1), areNormal_cons]
    exact ⟨isNormal_optimize t hts.1, areNormal_optimizeAll ts hts.2⟩

end

/-- Items that are spliced into a list bring their own parts only. -/
theorem areNormal_splice {t : Tree} {ts : List Tree} (ht : t.IsNormal) (hts : AreNormal ts) :
    AreNormal (splice t ts) := by
  cases t with
  | list items => exact areNormal_append.2 ⟨isNormal_list.1 ht, hts⟩
  | _ => exact areNormal_cons.2 ⟨ht, hts⟩

/-- Parameters are entities, which the pass does not change. -/
theorem areNormal_params {params : List Tree} (h : ∀ p ∈ params, Naming.resolved.parameter p) :
    AreNormal params := by
  induction params with
  | nil => exact areNormal_nil
  | cons p ps ih =>
    obtain ⟨e, rfl, -⟩ := isEntity_iff.1 (h p List.mem_cons_self)
    exact areNormal_cons.2 ⟨isNormal_entity e, ih fun q hq => h q (List.mem_cons_of_mem _ hq)⟩

mutual

/-- What the pass makes of a statement is normal. -/
theorem isNormal_optimize_statement : ∀ t : Tree, t.IsStatement Naming.resolved →
    t.optimize.IsNormal
  | variableDeclaration name initializer, ht => by
    obtain ⟨e, rfl, -⟩ := isEntity_iff.1 ht.1
    exact isNormal_variableDeclaration.2 ⟨isNormal_entity e, isNormal_optimize initializer ht.2⟩
  | functionDeclaration name params body, ht => by
    obtain ⟨e, rfl, -⟩ := isEntity_iff.1 ht.1
    refine isNormal_functionDeclaration.2 ⟨isNormal_entity e, ?_, isNormal_optimize body ht.2.2⟩
    rw [optimizeAll_params ht.2.1]
    exact areNormal_params ht.2.1
  | assignment target source, ht => by
    obtain ⟨e, rfl, -⟩ := isEntity_iff.1 ht.1
    exact isNormal_foldAssignment (isNormal_optimize source ht.2)
  | whileLoop test body, ht =>
    isNormal_whileLoop.2 ⟨isNormal_optimize test ht.1, areNormal_optimizeAll_statements body ht.2⟩
  | print argument, ht => isNormal_print.2 (isNormal_optimize argument ht)
  | absent, ht | literal _, ht | text _, ht | list _, ht | token _, ht | entity _, ht
  | program _, ht | call _ _, ht | conditional _ _ _, ht | binary _ _ _, ht | unary _ _, ht =>
    ht.elim

theorem areNormal_optimizeAll_statements : ∀ ts : List Tree, AreStatements Naming.resolved ts →
    AreNormal (optimizeAll ts)
  | [], _ => areNormal_nil
  | t :: ts, hts =>
    areNormal_splice (isNormal_optimize_statement t hts.1)
      (areNormal_optimizeAll_statements ts hts.2)

end

/-! ## Trees that stay -/

mutual

/-- The pass leaves a normal expression as it is. -/
theorem optimize_eq_self : ∀ t : Tree, t.IsExpression Naming.resolved → t.IsNormal → t.optimize = t
  | literal v, _, _ => rfl
  | entity e, _, _ => rfl
  | call callee args, ht, hn => by
    obtain ⟨hredex, -, hargs⟩ := isNormal_call.1 hn
    obtain ⟨e, rfl, -⟩ := isEntity_iff.1 ht.1
    rw [optimize, optimizeAll_eq_self args ht.2 hargs, foldCall_of_not_isRedex hredex]
  | conditional test consequent alternate, ht, hn => by
    obtain ⟨hredex, htest, hconsequent, halternate⟩ := isNormal_conditional.1 hn
    rw [optimize, optimize_eq_self test ht.1 htest, optimize_eq_self consequent ht.2.1 hconsequent,
      optimize_eq_self alternate ht.2.2 halternate, foldConditional_of_not_isRedex hredex]
  | binary operator left right, ht, hn => by
    obtain ⟨hredex, hleft, hright⟩ := isNormal_binary.1 hn
    rw [optimize, optimize_eq_self left ht.1 hleft, optimize_eq_self right ht.2 hright,
      foldBinary_of_not_isRedex hredex]
  | unary operator operand, ht, hn => by
    obtain ⟨hredex, hoperand⟩ := isNormal_unary.1 hn
    rw [optimize, optimize_eq_self operand ht hoperand, foldUnary_of_not_isRedex hredex]
  | absent, ht, _ | text _, ht, _ | list _, ht, _ | token _, ht, _ | program _, ht, _
  | variableDeclaration _ _, ht, _ | functionDeclaration _ _ _, ht, _ | assignment _ _, ht, _
  | whileLoop _ _, ht, _ | print _, ht, _ => ht.elim

theorem optimizeAll_eq_self : ∀ ts : List Tree, AreExpressions Naming.resolved ts → AreNormal ts →
    optimizeAll ts = ts
  | [], _, _ => rfl
  | t :: ts, hts, hn => by
    obtain ⟨ht, hrest⟩ := areNormal_cons.1 hn
    rw [optimizeAll, optimize_eq_self t hts.1 ht, optimizeAll_eq_self ts hts.2 hrest,
      splice_of_isExpression hts.1]

end

mutual

/-- The pass leaves a normal statement as it is. -/
theorem optimize_eq_self_statement : ∀ t : Tree, t.IsStatement Naming.resolved → t.IsNormal →
    t.optimize = t
  | variableDeclaration name initializer, ht, hn => by
    rw [optimize, optimize_eq_self initializer ht.2 (isNormal_variableDeclaration.1 hn).2]
  | functionDeclaration name params body, ht, hn => by
    obtain ⟨-, -, hbody⟩ := isNormal_functionDeclaration.1 hn
    rw [optimize, optimizeAll_params ht.2.1, optimize_eq_self body ht.2.2 hbody]
  | assignment target source, ht, hn => by
    obtain ⟨hredex, -, hsource⟩ := isNormal_assignment.1 hn
    obtain ⟨e, rfl, -⟩ := isEntity_iff.1 ht.1
    rw [optimize, optimize_eq_self source ht.2 hsource, foldAssignment_of_not_isRedex hredex]
  | whileLoop test body, ht, hn => by
    obtain ⟨htest, hbody⟩ := isNormal_whileLoop.1 hn
    rw [optimize, optimize_eq_self test ht.1 htest, optimizeAll_eq_self_statements body ht.2 hbody]
  | print argument, ht, hn => by rw [optimize, optimize_eq_self argument ht (isNormal_print.1 hn)]
  | absent, ht, _ | literal _, ht, _ | text _, ht, _ | list _, ht, _ | token _, ht, _
  | entity _, ht, _ | program _, ht, _ | call _ _, ht, _ | conditional _ _ _, ht, _
  | binary _ _ _, ht, _ | unary _ _, ht, _ => ht.elim

theorem optimizeAll_eq_self_statements : ∀ ts : List Tree, AreStatements Naming.resolved ts →
    AreNormal ts → optimizeAll ts = ts
  | [], _, _ => rfl
  | t :: ts, hts, hn => by
    obtain ⟨ht, hrest⟩ := areNormal_cons.1 hn
    rw [optimizeAll, optimize_eq_self_statement t hts.1 ht,
      optimizeAll_eq_self_statements ts hts.2 hrest, splice_of_isStatement hts.1]

end

/-- The pass leaves no redex in a resolved program, and changes exactly those that have one. -/
theorem optimize_leaves_no_redex {t : Tree} (ht : t.IsProgram Naming.resolved) :
    t.optimize.IsNormal ∧ (t.optimize = t ↔ t.IsNormal) := by
  cases t with
  | program statements =>
    have hnormal : (program statements).optimize.IsNormal :=
      isNormal_program.2 (areNormal_optimizeAll_statements statements ht)
    refine ⟨hnormal, ?_, ?_⟩
    · intro h
      rwa [h] at hnormal
    · intro hn
      rw [optimize, optimizeAll_eq_self_statements statements ht (isNormal_program.1 hn)]
  | _ => exact ht.elim

/-- A loop around an assignment that only its optimized source shows to change nothing. -/
def redundant : Tree :=
  let x := entity (Entity.declaredVariable 0 "x")
  program [
    variableDeclaration x (number .one),
    whileLoop x
      [assignment x (binary "+" x (number .zero)),
        print (binary "-" (number .zero)
          (call (entity Builtin.sqrt.entity) [binary "*" (number .one) x]))]]

theorem optimize_redundant :
    redundant.IsProgram Naming.resolved ∧ redundant.optimize.IsNormal ∧
      (redundant.optimize = redundant ↔ redundant.IsNormal) := by
  have hx : (Entity.declaredVariable 0 "x").IsGenuine := Entity.isGenuine_of_builtin?_eq_none rfl
  have h : redundant.IsProgram Naming.resolved :=
    ⟨⟨⟨rfl, rfl, rfl⟩, trivial⟩,
      ⟨⟨rfl, hx⟩,
        ⟨⟨rfl, rfl, rfl⟩, ⟨rfl, hx⟩, trivial⟩,
        ⟨trivial, ⟨rfl, Builtin.isGenuine_entity .sqrt⟩, ⟨trivial, rfl, hx⟩, trivial⟩, trivial⟩,
      trivial⟩
  exact ⟨h, optimize_leaves_no_redex h⟩

end Tree
end Quill
