import Quill.Proofs.Scope.Resolution

/-!
# Accepted trees are programs

Resolution looks at every part of a tree, so it answers only trees in which statements, expressions
and names stand where they belong, also of trees that were made by hand.
-/

namespace Quill.Tree

theorem isToken_of_asToken {t : Tree} {name : Token} (h : t.asToken = .ok name) : t.IsToken := by
  cases t with
  | token t => trivial
  | _ => cases h

mutual

/-- Only expressions are resolved as expressions. -/
theorem isExpression_of_resolveExpression {s : Scope} : ∀ {t u : Tree},
    t.resolveExpression s = .ok u → t.IsExpression Naming.raw
  | literal _, _, _ => trivial
  | token _, _, _ => trivial
  | call callee args, _, h => by
    obtain ⟨_, hcallee, h⟩ := bind_eq_ok_iff.1 h
    obtain ⟨_, hargs, -⟩ := bind_eq_ok_iff.1 h
    obtain ⟨_, htoken, -⟩ := bind_eq_ok_iff.1 hcallee
    exact ⟨isToken_of_asToken htoken, areExpressions_of_resolveExpressions hargs⟩
  | conditional test consequent alternate, _, h => by
    obtain ⟨_, htest, h⟩ := bind_eq_ok_iff.1 h
    obtain ⟨_, hconsequent, h⟩ := bind_eq_ok_iff.1 h
    obtain ⟨_, halternate, -⟩ := bind_eq_ok_iff.1 h
    exact ⟨isExpression_of_resolveExpression htest, isExpression_of_resolveExpression hconsequent,
      isExpression_of_resolveExpression halternate⟩
  | binary _ left right, _, h => by
    obtain ⟨_, hleft, h⟩ := bind_eq_ok_iff.1 h
    obtain ⟨_, hright, -⟩ := bind_eq_ok_iff.1 h
    exact ⟨isExpression_of_resolveExpression hleft, isExpression_of_resolveExpression hright⟩
  | unary _ operand, _, h => by
    obtain ⟨_, hoperand, -⟩ := bind_eq_ok_iff.1 h
    have hshape := isExpression_of_resolveExpression hoperand
    exact hshape
  | absent, _, h | text _, _, h | list _, _, h | entity _, _, h | program _, _, h
  | variableDeclaration _ _, _, h | functionDeclaration _ _ _, _, h | assignment _ _, _, h
  | whileLoop _ _, _, h | print _, _, h => nomatch h

theorem areExpressions_of_resolveExpressions {s : Scope} : ∀ {ts us : List Tree},
    resolveExpressions s ts = .ok us → AreExpressions Naming.raw ts
  | [], _, _ => trivial
  | t :: ts, _, h => by
    obtain ⟨_, ht, h⟩ := bind_eq_ok_iff.1 h
    obtain ⟨_, hts, -⟩ := bind_eq_ok_iff.1 h
    exact ⟨isExpression_of_resolveExpression ht, areExpressions_of_resolveExpressions hts⟩

end

theorem areTokens_of_declareParameters {params : List Tree} {d : Declarations}
    {x : List Tree × Declarations} (h : declareParameters params d = .ok x) :
    ∀ p ∈ params, p.IsToken := by
  induction params generalizing d x with
  | nil => simp
  | cons p ps ih =>
    obtain ⟨_, hp, h⟩ := bind_eq_ok_iff.1 h
    obtain ⟨_, -, h⟩ := bind_eq_ok_iff.1 h
    obtain ⟨_, hps, -⟩ := bind_eq_ok_iff.1 h
    exact List.forall_mem_cons.2 ⟨isToken_of_asToken hp, ih hps⟩

mutual

/-- Only statements are resolved as statements. -/
theorem isStatement_of_resolveStatement : ∀ {t : Tree} {d : Declarations} {x : Tree × Declarations},
    resolveStatement t d = .ok x → t.IsStatement Naming.raw
  | variableDeclaration name initializer, _, _, h => by
    obtain ⟨_, hinitializer, h⟩ := bind_eq_ok_iff.1 h
    obtain ⟨_, hname, -⟩ := bind_eq_ok_iff.1 h
    exact ⟨isToken_of_asToken hname, isExpression_of_resolveExpression hinitializer⟩
  | functionDeclaration name params body, _, _, h => by
    obtain ⟨_, hhead, h⟩ := bind_eq_ok_iff.1 h
    obtain ⟨_, hbody, -⟩ := bind_eq_ok_iff.1 h
    obtain ⟨_, hname, hhead⟩ := bind_eq_ok_iff.1 hhead
    obtain ⟨_, -, hhead⟩ := bind_eq_ok_iff.1 hhead
    obtain ⟨_, hparams, -⟩ := bind_eq_ok_iff.1 hhead
    exact ⟨isToken_of_asToken hname, areTokens_of_declareParameters hparams,
      isExpression_of_resolveExpression hbody⟩
  | assignment target source, _, _, h => by
    obtain ⟨_, htarget, h⟩ := bind_eq_ok_iff.1 h
    obtain ⟨_, hsource, -⟩ := bind_eq_ok_iff.1 h
    obtain ⟨_, hname, -⟩ := bind_eq_ok_iff.1 htarget
    exact ⟨isToken_of_asToken hname, isExpression_of_resolveExpression hsource⟩
  | whileLoop test body, _, _, h => by
    obtain ⟨_, htest, h⟩ := bind_eq_ok_iff.1 h
    obtain ⟨_, hbody, -⟩ := bind_eq_ok_iff.1 h
    exact ⟨isExpression_of_resolveExpression htest, areStatements_of_resolveStatements hbody⟩
  | print argument, _, _, h => by
    obtain ⟨_, hargument, -⟩ := bind_eq_ok_iff.1 h
    have hshape := isExpression_of_resolveExpression hargument
    exact hshape
  | absent, _, _, h | literal _, _, _, h | text _, _, _, h | list _, _, _, h | token _, _, _, h
  | entity _, _, _, h | program _, _, _, h | call _ _, _, _, h | conditional _ _ _, _, _, h
  | binary _ _ _, _, _, h | unary _ _, _, _, h => nomatch h

theorem areStatements_of_resolveStatements : ∀ {ts : List Tree} {d : Declarations}
    {x : List Tree × Declarations},
    resolveStatements ts d = .ok x → AreStatements Naming.raw ts
  | [], _, _, _ => trivial
  | t :: ts, _, _, h => by
    obtain ⟨_, ht, h⟩ := bind_eq_ok_iff.1 h
    obtain ⟨_, hts, -⟩ := bind_eq_ok_iff.1 h
    exact ⟨isStatement_of_resolveStatement ht, areStatements_of_resolveStatements hts⟩

end

/-- Resolution accepts no tree but programs before resolution. -/
theorem isProgram_of_resolveProgram {p : Tree} {d : Declarations} {x : Tree × Declarations}
    (h : p.resolveProgram d = .ok x) : p.IsProgram Naming.raw := by
  cases p with
  | program statements =>
    obtain ⟨_, hstatements, -⟩ := bind_eq_ok_iff.1 h
    exact areStatements_of_resolveStatements hstatements
  | _ => cases h

end Quill.Tree
