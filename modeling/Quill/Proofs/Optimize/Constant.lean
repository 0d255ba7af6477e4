import Quill.Proofs.Optimize.Evaluation
import Quill.Proofs.Optimize.Fault

/-!
# Constant expressions

An expression without names has at most one value, worked out from its literals: operands and
arguments first, and of a conditional the chosen arm only. Where there is a value the pass leaves
nothing but this very literal. No identity comes in between, since the operands of an operator are
literals by the time the pass looks at it, and an arm that is not chosen is dropped whether it has a
value or not.

## Main definitions

* `Tree.constant?` — the value of an expression without names.
-/

namespace Quill.Tree

mutual

/-- The value of an expression without names. Intrinsic functions take numbers only. -/
def constant? : Tree → Option Literal
  | literal v => some v
  | call callee args =>
    callee.intrinsic?.bind fun b => (constantNumbers? args).bind fun xs => (b.value? xs).map .number
  | conditional test consequent alternate =>
    test.constant?.bind fun v => if v.isTruthy then consequent.constant? else alternate.constant?
  | binary operator left right =>
    left.constant?.bind fun a => right.constant?.bind (Operator.foldSymbol? operator a)
  | unary operator operand => operand.constant?.bind (unaryValue? operator)
  | _ => none

/-- The numbers that expressions without names stand for. -/
def constantNumbers? : List Tree → Option (List Number)
  | [] => some []
  | t :: ts => t.constant?.bind fun
    | .number x => (constantNumbers? ts).map (x :: ·)
    | .boolean _ => none

end

theorem constantNumbers?_cons_eq_some_iff {t : Tree} {ts : List Tree} {xs : List Number} :
    constantNumbers? (t :: ts) = some xs ↔
      ∃ y ys, t.constant? = some (.number y) ∧ constantNumbers? ts = some ys ∧ y :: ys = xs := by
  rw [constantNumbers?]
  rcases t.constant? with - | y | b <;> simp

/-! ## Constants have their value under every valuation -/

section
variable {ν : Valuation}

mutual

/-- Whatever the variables stand for, a constant expression has its value. -/
theorem eval?_of_constant? : ∀ (t : Tree) {v : Literal}, t.constant? = some v → t.eval? ν = some v
  | literal _, _, h => h
  | call callee args, v, h => by
    obtain ⟨b, hb, h⟩ := Option.bind_eq_some_iff.1 h
    obtain ⟨xs, hxs, h⟩ := Option.bind_eq_some_iff.1 h
    obtain ⟨x, hx, rfl⟩ := Option.map_eq_some_iff.1 h
    obtain ⟨e, he, hbuiltin⟩ := Option.bind_eq_some_iff.1 hb
    have hintrinsic : e.builtin?.filter Builtin.isIntrinsic = some b :=
      Option.filter_eq_some_iff.2 ⟨hbuiltin, Builtin.isIntrinsic_of_value? hx⟩
    have hargs : (xs.map Literal.number).map Literal.toNumber = xs := by
      rw [List.map_map]
      exact List.map_id xs
    simp [eval?, Valuation.call?, he, hintrinsic, evalAll?_of_constantNumbers? args hxs, hargs, hx]
  | conditional test consequent alternate, v, h => by
    obtain ⟨a, ha, h⟩ := Option.bind_eq_some_iff.1 h
    rw [eval?, eval?_of_constant? test ha, Option.bind_some]
    split at h
    · rw [if_pos ‹_›, eval?_of_constant? consequent h]
    · rw [if_neg ‹_›, eval?_of_constant? alternate h]
  | binary operator left right, v, h => by
    obtain ⟨a, ha, h⟩ := Option.bind_eq_some_iff.1 h
    obtain ⟨b, hb, h⟩ := Option.bind_eq_some_iff.1 h
    rw [eval?, eval?_of_constant? left ha, eval?_of_constant? right hb]
    exact h
  | unary operator operand, v, h => by
    obtain ⟨a, ha, h⟩ := Option.bind_eq_some_iff.1 h
    rw [eval?, eval?_of_constant? operand ha]
    exact h
  | absent, _, h | text _, _, h | list _, _, h | token _, _, h | entity _, _, h | program _, _, h
  | variableDeclaration _ _, _, h | functionDeclaration _ _ _, _, h | assignment _ _, _, h
  | whileLoop _ _, _, h | print _, _, h => nomatch h

/-- Constant arguments have their values under every valuation. -/
theorem evalAll?_of_constantNumbers? : ∀ (ts : List Tree) {xs : List Number},
    constantNumbers? ts = some xs → evalAll? ν ts = some (xs.map .number)
  | [], _, h => Option.some.inj h ▸ rfl
  | t :: ts, xs, h => by
    obtain ⟨y, ys, ht, hts, rfl⟩ := constantNumbers?_cons_eq_some_iff.1 h
    rw [evalAll?, eval?_of_constant? t ht, evalAll?_of_constantNumbers? ts hts]
    rfl

end

end

/-! ## The pass -/

theorem foldUnary_of_unaryValue? {s : String} {a v : Literal} (h : unaryValue? s a = some v) :
    foldUnary s (literal a) = literal v := by
  cases a with
  | number x =>
    obtain ⟨hs, rfl⟩ : s = "-" ∧ Literal.number x.neg = v := by simpa [unaryValue?] using h
    simp [foldUnary, hs]
  | boolean b =>
    obtain ⟨hs, rfl⟩ : s = "!" ∧ Literal.boolean (!b) = v := by simpa [unaryValue?] using h
    simp [foldUnary, hs]

mutual

/-- The pass makes a constant expression a literal of its value. -/
theorem optimize_of_constant? : ∀ (t : Tree) {v : Literal}, t.constant? = some v →
    t.optimize = literal v
  | literal _, _, h => congrArg literal (Option.some.inj h)
  | call callee args, v, h => by
    obtain ⟨b, hb, h⟩ := Option.bind_eq_some_iff.1 h
    obtain ⟨xs, hxs, h⟩ := Option.bind_eq_some_iff.1 h
    obtain ⟨x, hx, rfl⟩ := Option.map_eq_some_iff.1 h
    have hnumbers : numbers? (optimizeAll args) = some xs :=
      numbers?_eq_some_iff.2 (optimizeAll_of_constantNumbers? args hxs)
    simp [optimize, foldCall, hb, hnumbers, hx]
  | conditional test consequent alternate, v, h => by
    obtain ⟨a, ha, h⟩ := Option.bind_eq_some_iff.1 h
    rw [optimize, optimize_of_constant? test ha, foldConditional]
    split at h
    · rw [if_pos ‹_›, optimize_of_constant? consequent h]
    · rw [if_neg ‹_›, optimize_of_constant? alternate h]
  | binary operator left right, v, h => by
    obtain ⟨a, ha, h⟩ := Option.bind_eq_some_iff.1 h
    obtain ⟨b, hb, h⟩ := Option.bind_eq_some_iff.1 h
    -- Both operands are literals, so the exact value is looked for before any identity.
    rw [optimize, optimize_of_constant? left ha, optimize_of_constant? right hb]
    simp [foldBinary, h]
  | unary operator operand, v, h => by
    obtain ⟨a, ha, h⟩ := Option.bind_eq_some_iff.1 h
    rw [optimize, optimize_of_constant? operand ha, foldUnary_of_unaryValue? h]
  | absent, _, h | text _, _, h | list _, _, h | token _, _, h | entity _, _, h | program _, _, h
  | variableDeclaration _ _, _, h | functionDeclaration _ _ _, _, h | assignment _ _, _, h
  | whileLoop _ _, _, h | print _, _, h => nomatch h

theorem optimizeAll_of_constantNumbers? : ∀ (ts : List Tree) {xs : List Number},
    constantNumbers? ts = some xs → optimizeAll ts = xs.map number
  | [], _, h => Option.some.inj h ▸ rfl
  | t :: ts, xs, h => by
    obtain ⟨y, ys, ht, hts, rfl⟩ := constantNumbers?_cons_eq_some_iff.1 h
    rw [optimizeAll, optimize_of_constant? t ht, optimizeAll_of_constantNumbers? ts hts]
    rfl

end

/-- Folding is complete and exact: a resolved expression that has a value without names is replaced
by this value, with its sign, also where an arm that is not chosen has none. -/
theorem optimize_yields_constant {e : Tree} {v : Literal} (he : e.IsExpression Naming.resolved)
    (h : e.constant? = some v) : e.optimize? = .ok (literal v) := by
  rw [optimize?, fault?_of_isExpression e he, optimize_of_constant? e h]

/-- A negative zero beside an arm without a value: a power that is kept, and a sum of a number and a
boolean. -/
def guardedZero : Tree :=
  conditional (binary "<" (number .zero) (number .one))
    (binary "*" (unary "-" (number .one))
      (call (entity Builtin.hypot.entity) [number .zero, number .zero]))
    (binary "+" (binary "**" (number .zero) (number .zero)) (boolean true))

theorem optimize_guardedZero :
    guardedZero.IsExpression Naming.resolved ∧
      guardedZero.constant? = some (.number (.signedZero true)) ∧
      guardedZero.optimize? = .ok (number (.signedZero true)) := by
  have hcallee : Naming.resolved.callee 2 (entity Builtin.hypot.entity) :=
    ⟨rfl, Builtin.isGenuine_entity .hypot⟩
  have hshape : guardedZero.IsExpression Naming.resolved := by
    simpa [guardedZero, IsExpression, AreExpressions] using hcallee
  have hvalue : guardedZero.constant? = some (.number (.signedZero true)) := by decide +kernel
  exact ⟨hshape, hvalue, optimize_yields_constant hshape hvalue⟩

end Quill.Tree
