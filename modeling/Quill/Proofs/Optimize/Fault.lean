import Quill.Proofs.Optimize.Shape

/-!
# Resolved programs are optimized without fault

The pass refuses a token, a text or nothing in place of a part, an intrinsic function on a wrong
number of numbers, and an exception of the arithmetic. In a resolved program no name is a token any
more and every call has as many arguments as its function takes, also once they are optimized. So
arithmetic that never raises leaves no fault.
-/

namespace Quill

section Total

variable [A : Arithmetic] [A.IsTotal]

/-- No operator raises on any two numbers. -/
theorem Operator.raised?_eq_none (x y : Number) (op : Operator) : op.raised? x y = none := by
  cases op with
  | div => exact Arithmetic.IsTotal.div x y
  | rem => exact Arithmetic.IsTotal.rem x y
  | pow =>
    rw [raised?]
    split
    · rfl
    · exact Arithmetic.IsTotal.pow x y
  | _ => rfl

/-- No intrinsic function raises on any numbers. -/
theorem Builtin.exception?_eq_none {b : Builtin} {xs : List Number} {outcome : Outcome}
    (h : b.outcome? xs = some outcome) : outcome.exception? = none := by
  unfold outcome? at h
  split at h <;> cases h
  · exact Arithmetic.IsTotal.sqrt _
  · exact Arithmetic.IsTotal.sin _
  · exact Arithmetic.IsTotal.cos _
  · exact Arithmetic.IsTotal.exp _
  · exact Arithmetic.IsTotal.ln _
  · exact Arithmetic.IsTotal.hypot _

/-- No operation on numbers is a fault where the arithmetic always answers. -/
theorem Tree.operandFault?_eq_none (operator : String) (left right : Tree) :
    operandFault? operator left right = none := by
  rw [Option.eq_none_iff_forall_ne_some]
  intro fault h
  obtain ⟨x, -, h⟩ := Option.bind_eq_some_iff.1 h
  obtain ⟨y, -, h⟩ := Option.bind_eq_some_iff.1 h
  obtain ⟨op, -, h⟩ := Option.bind_eq_some_iff.1 h
  simp [Operator.raised?_eq_none] at h

/-- A call of a fit function has no fault: on numbers, an intrinsic function has a value. -/
theorem Tree.argumentFault?_eq_none {callee : Tree} {args : List Tree}
    (hc : Naming.resolved.callee args.length callee) : argumentFault? callee args = none := by
  obtain ⟨e, rfl, harity, hgenuine⟩ := Tree.isEntity_iff.1 hc
  rw [Option.eq_none_iff_forall_ne_some]
  intro fault h
  obtain ⟨b, hb, hnumbers⟩ := Option.bind_eq_some_iff.1 h
  obtain ⟨xs, hxs, hfault⟩ := Option.bind_eq_some_iff.1 hnumbers
  obtain rfl := hgenuine b hb
  obtain rfl := Tree.numbers?_eq_some_iff.1 hxs
  rw [List.length_map] at harity
  cases hi : b.isIntrinsic with
  | false => simp [hi] at hfault
  | true =>
    obtain ⟨outcome, houtcome⟩ := Option.isSome_iff_exists.1 (Builtin.isSome_outcome? hi harity)
    simp [hi, houtcome, Builtin.exception?_eq_none houtcome] at hfault

end Total

namespace Tree

mutual

/-- The pass finds no fault in a resolved expression. -/
theorem fault?_of_isExpression [A : Arithmetic] [A.IsTotal] : ∀ t : Tree,
    t.IsExpression Naming.resolved → t.fault? = none
  | literal _, _ | entity _, _ => rfl
  | call callee args, ht => by
    obtain ⟨-, hlength⟩ := areExpressions_optimizeAll args ht.2
    have hcallee : Naming.resolved.callee (optimizeAll args).length callee := hlength ▸ ht.1
    rw [fault?, faultIn?_of_areExpressions args ht.2, argumentFault?_eq_none hcallee]
    rfl
  | conditional test consequent alternate, ht => by
    rw [fault?, fault?_of_isExpression test ht.1, fault?_of_isExpression consequent ht.2.1,
      fault?_of_isExpression alternate ht.2.2]
    rfl
  | binary operator left right, ht => by
    rw [fault?, fault?_of_isExpression left ht.1, fault?_of_isExpression right ht.2,
      operandFault?_eq_none]
    rfl
  | unary operator operand, ht => fault?_of_isExpression operand ht
  | absent, ht | text _, ht | list _, ht | token _, ht | program _, ht | variableDeclaration _ _, ht
  | functionDeclaration _ _ _, ht | assignment _ _, ht | whileLoop _ _, ht | print _, ht => ht.elim

theorem faultIn?_of_areExpressions [A : Arithmetic] [A.IsTotal] : ∀ ts : List Tree,
    AreExpressions Naming.resolved ts → faultIn? ts = none
  | [], _ => rfl
  | t :: ts, hts => by
    rw [faultIn?, fault?_of_isExpression t hts.1, faultIn?_of_areExpressions ts hts.2]
    rfl

end

theorem faultIn?_params [Arithmetic] {params : List Tree}
    (h : ∀ p ∈ params, Naming.resolved.parameter p) : faultIn? params = none := by
  induction params with
  | nil => rfl
  | cons p ps ih =>
    obtain ⟨e, rfl, -⟩ := isEntity_iff.1 (h p List.mem_cons_self)
    rw [faultIn?, ih fun q hq => h q (List.mem_cons_of_mem _ hq)]
    rfl

mutual

theorem fault?_of_isStatement [A : Arithmetic] [A.IsTotal] : ∀ t : Tree,
    t.IsStatement Naming.resolved → t.fault? = none
  | variableDeclaration _ initializer, ht => fault?_of_isExpression initializer ht.2
  | functionDeclaration _ params body, ht => by
    rw [fault?, faultIn?_params ht.2.1, fault?_of_isExpression body ht.2.2]
    rfl
  | assignment _ source, ht => fault?_of_isExpression source ht.2
  | whileLoop test body, ht => by
    rw [fault?, fault?_of_isExpression test ht.1, faultIn?_of_areStatements body ht.2]
    rfl
  | print argument, ht => fault?_of_isExpression argument ht
  | absent, ht | literal _, ht | text _, ht | list _, ht | token _, ht | entity _, ht
  | program _, ht | call _ _, ht | conditional _ _ _, ht | binary _ _ _, ht | unary _ _, ht =>
    ht.elim

theorem faultIn?_of_areStatements [A : Arithmetic] [A.IsTotal] : ∀ ts : List Tree,
    AreStatements Naming.resolved ts → faultIn? ts = none
  | [], _ => rfl
  | t :: ts, hts => by
    rw [faultIn?, fault?_of_isStatement t hts.1, faultIn?_of_areStatements ts hts.2]
    rfl

end

/-- The pass goes through every resolved program. -/
theorem optimize?_of_isProgram [A : Arithmetic] [A.IsTotal] {t : Tree}
    (ht : t.IsProgram Naming.resolved) : t.optimize? = .ok t.optimize := by
  cases t with
  | program statements =>
    have hnone : (program statements).fault? = none := faultIn?_of_areStatements statements ht
    rw [optimize?, hnone]
  | _ => exact ht.elim

end Tree
end Quill
