import Quill.Proofs.Number.SignedZero
import Quill.Proofs.Optimize.Evaluation
import Quill.Proofs.Optimize.Node

/-!
# The pass keeps the values of expressions

Where evaluation meets booleans and finite numbers only, an optimized expression has a value equal
to the one before. Each rule is sound on operands that agree with the original ones, so the rules
compose from the leaves to the root; only the sign of a zero may differ.
-/

namespace Quill

namespace Literal

theorem agrees_self {v : Literal} (hv : v.IsFinite) : v.Agrees v := by
  cases v with
  | number x => exact Number.equal_self (Number.ne_nan_of_isFinite hv)
  | boolean b => rfl

theorem Agrees.trans {u v w : Literal} (huv : u.Agrees v) (hvw : v.Agrees w) : u.Agrees w := by
  cases u <;> cases v <;> cases w
  all_goals try exact huv.elim
  all_goals try exact hvw.elim
  · exact Number.equal_trans huv hvw
  · exact Eq.trans huv hvw

theorem Agrees.isFinite {v w : Literal} (h : v.Agrees w) (hv : v.IsFinite) : w.IsFinite := by
  cases v <;> cases w
  · exact Number.isFinite_of_equal h hv
  · exact h.elim
  · exact h.elim
  · trivial

theorem isTruthy_eq_of_agrees {v w : Literal} (h : v.Agrees w) (hv : v.IsFinite) :
    v.isTruthy = w.isTruthy := by
  have hw := h.isFinite hv
  cases v with
  | number x =>
    cases w with
    | number y =>
      have hx : (x != Number.nan) = true := bne_iff_ne.2 (Number.ne_nan_of_isFinite hv)
      have hy : (y != Number.nan) = true := bne_iff_ne.2 (Number.ne_nan_of_isFinite hw)
      simp [isTruthy, Number.isZero_eq_of_equal h, hx, hy]
    | boolean b => exact h.elim
  | boolean a =>
    cases w with
    | number y => exact h.elim
    | boolean b => exact h

theorem isFinite_toNumber {v : Literal} (hv : v.IsFinite) : v.toNumber.isFinite = true := by
  cases v with
  | number x => exact hv
  | boolean b => cases b <;> rfl

theorem toNumber_equal {v w : Literal} (h : v.Agrees w) : v.toNumber.equal w.toNumber = true := by
  cases v with
  | number x =>
    cases w with
    | number y => exact h
    | boolean b => exact h.elim
  | boolean a =>
    cases w with
    | number y => exact h.elim
    | boolean b =>
      obtain rfl : a = b := h
      exact Number.equal_self
        (Number.ne_nan_of_isFinite (isFinite_toNumber (v := boolean a) trivial))

end Literal

/-! ## Operators respect agreement -/

namespace Operator

/-- Operations on numbers that agree have values that agree, where they are finite. -/
theorem foldNumbers?_agrees {op : Operator} {x x' y y' : Number} {v : Literal}
    (hx : x.isFinite = true) (hy : y.isFinite = true) (heqx : x.equal x' = true)
    (heqy : y.equal y' = true) (h : foldNumbers? x y op = some v) (hv : v.IsFinite) :
    ∃ w, foldNumbers? x' y' op = some w ∧ v.Agrees w := by
  have arithmetic : ∀ {f : Number → Number → Number}, Number.RespectsEqual₂ f →
      some (Literal.number (f x y)) = some v →
        ∃ w, some (Literal.number (f x' y')) = some w ∧ v.Agrees w := by
    intro f hf h
    obtain rfl := Option.some.inj h
    exact ⟨_, rfl, hf x x' y y' hx hy heqx heqy hv⟩
  have comparison : ∀ {p q : Bool}, p = q → some (Literal.boolean p) = some v →
      ∃ w, some (Literal.boolean q) = some w ∧ v.Agrees w := by
    intro p q hpq h
    obtain rfl := Option.some.inj h
    exact ⟨_, rfl, hpq⟩
  cases op with
  | add => exact arithmetic Number.respectsEqual₂_add h
  | sub => exact arithmetic Number.respectsEqual₂_sub h
  | mul => exact arithmetic Number.respectsEqual₂_mul h
  | div => exact arithmetic Number.respectsEqual₂_div h
  | rem => exact arithmetic Number.respectsEqual₂_rem h
  | pow =>
    have hzero : (x.isZero && y.isZero) = (x'.isZero && y'.isZero) := by
      rw [Number.isZero_eq_of_equal heqx, Number.isZero_eq_of_equal heqy]
    rw [foldNumbers?] at h ⊢
    rw [← hzero]
    by_cases hpowers : (x.isZero && y.isZero) = true
    · rw [if_pos hpowers] at h
      cases h
    · rw [if_neg hpowers] at h ⊢
      exact arithmetic Number.respectsEqual₂_pow h
  | less => exact comparison (Number.less_congr heqx heqy) h
  | lessEqual => exact comparison (Number.lessEqual_congr heqx heqy) h
  | equal => exact comparison (Number.equal_congr heqx heqy) h
  | notEqual => exact comparison (congrArg (!·) (Number.equal_congr heqx heqy)) h
  | greaterEqual => exact comparison (Number.lessEqual_congr heqy heqx) h
  | greater => exact comparison (Number.less_congr heqy heqx) h
  | and | or => cases h

/-- Operations on literals that agree have values that agree, where they are finite. -/
theorem foldSymbol?_agrees {s : String} {a a' b b' v : Literal} (ha : a.IsFinite) (hb : b.IsFinite)
    (haa' : a.Agrees a') (hbb' : b.Agrees b') (h : foldSymbol? s a b = some v) (hv : v.IsFinite) :
    ∃ w, foldSymbol? s a' b' = some w ∧ v.Agrees w := by
  obtain ⟨op, hop, h⟩ := Option.bind_eq_some_iff.1 h
  cases a with
  | number x =>
    cases b with
    | number y =>
      cases a' with
      | number x' =>
        cases b' with
        | number y' =>
          obtain ⟨w, hw, hvw⟩ := foldNumbers?_agrees ha hb haa' hbb' h hv
          exact ⟨w, Option.bind_eq_some_iff.2 ⟨op, hop, hw⟩, hvw⟩
        | boolean _ => exact hbb'.elim
      | boolean _ => exact haa'.elim
    | boolean _ => exact nomatch h
  | boolean x =>
    cases b with
    | number _ => exact nomatch h
    | boolean y =>
      cases a' with
      | number _ => exact haa'.elim
      | boolean x' =>
        cases b' with
        | number _ => exact hbb'.elim
        | boolean y' =>
          obtain rfl : x = x' := haa'
          obtain rfl : y = y' := hbb'
          exact ⟨v, Option.bind_eq_some_iff.2 ⟨op, hop, h⟩, Literal.agrees_self hv⟩

end Operator

theorem unaryValue?_agrees {s : String} {a a' v : Literal} (haa' : a.Agrees a')
    (h : unaryValue? s a = some v) : ∃ w, unaryValue? s a' = some w ∧ v.Agrees w := by
  cases a with
  | number x =>
    cases a' with
    | number x' =>
      rw [unaryValue?] at h ⊢
      split at h
      · obtain rfl := Option.some.inj h
        exact ⟨_, if_pos ‹_›, Number.neg_equal_neg haa'⟩
      · exact nomatch h
    | boolean _ => exact haa'.elim
  | boolean b =>
    cases a' with
    | number _ => exact haa'.elim
    | boolean b' =>
      obtain rfl : b = b' := haa'
      rw [unaryValue?] at h ⊢
      split at h
      · obtain rfl := Option.some.inj h
        exact ⟨_, if_pos ‹_›, rfl⟩
      · exact nomatch h

/-- Calls on arguments that agree have values that agree, where they are finite. -/
theorem Valuation.call?_agrees {ν : Valuation} (hν : ν.RespectsEqual) {e : Entity}
    {args args' : List Literal} {v : Literal}
    (hargs : List.Forall₂ (fun a a' => a.IsFinite ∧ a.Agrees a') args args')
    (h : ν.call? e args = some v) (hv : v.IsFinite) :
    ∃ w, ν.call? e args' = some w ∧ v.Agrees w := by
  rw [call?] at h ⊢
  cases hb : e.builtin?.filter Builtin.isIntrinsic with
  | some b =>
    rw [hb] at h
    obtain ⟨x, hx, rfl⟩ := Option.map_eq_some_iff.1 h
    have hnumbers : List.Forall₂ (fun x x' : Number => x.isFinite = true ∧ x.equal x' = true)
        (args.map Literal.toNumber) (args'.map Literal.toNumber) := by
      rw [List.forall₂_map_left_iff, List.forall₂_map_right_iff]
      exact hargs.imp fun a a' ha =>
        ⟨Literal.isFinite_toNumber ha.1, Literal.toNumber_equal ha.2⟩
    obtain ⟨y, hy, hxy⟩ := Builtin.value?_equal hnumbers hx hv
    exact ⟨.number y, Option.map_eq_some_iff.2 ⟨y, hy, rfl⟩, hxy⟩
  | none =>
    rw [hb] at h
    by_cases hvar : e.isVariable = true
    · simp [hvar] at h
    · simp only [hvar] at h ⊢
      exact hν e args args' v (hargs.imp fun _ _ ha => ha.2) h hv

namespace Tree

variable {ν : Valuation}

/-! ## One node -/

/-- An identity with a number on the left keeps the value. -/
theorem LeftIdentity.eval? {op : Operator} {x : Number} {e t : Tree} {b v : Literal}
    (h : LeftIdentity x e op t) (he : e.eval? ν = some b) (hb : b.IsFinite)
    (hfold : op.fold? (.number x) b = some v) (hv : v.IsFinite) :
    ∃ w, t.eval? ν = some w ∧ v.Agrees w := by
  cases b with
  | boolean b => exact nomatch hfold
  | number y =>
    have hy : y ≠ Number.nan := Number.ne_nan_of_isFinite hb
    cases h with
    | add zero =>
      obtain rfl := Option.some.inj hfold
      exact ⟨_, he, Number.add_equal_right zero hy⟩
    | sub zero =>
      obtain rfl := Option.some.inj hfold
      refine ⟨.number y.neg, ?_, Number.sub_equal_neg zero hb⟩
      rw [Tree.eval?, he]
      rfl
    | one one =>
      obtain rfl := Option.some.inj hfold
      refine ⟨_, he, ?_⟩
      rw [one, Number.one_mul]
      exact Number.equal_self hy
    | mul zero =>
      obtain rfl := Option.some.inj hfold
      exact ⟨_, rfl, Number.equal_of_isZero (Number.isZero_mul zero hb) rfl⟩
    | div zero =>
      obtain rfl := Option.some.inj hfold
      have hne := Number.isZero_eq_false_of_div hv
      exact ⟨_, rfl, Number.equal_of_isZero (Number.isZero_div zero hb hne) rfl⟩
    | rem zero =>
      obtain rfl := Option.some.inj hfold
      have hne := Number.isZero_eq_false_of_rem hv
      exact ⟨_, rfl, Number.equal_of_isZero (Number.isZero_rem zero hb hne) rfl⟩
    | pow one =>
      obtain ⟨-, hpow⟩ := Option.ite_none_left_eq_some.1 hfold
      obtain rfl := Option.some.inj hpow
      refine ⟨_, rfl, ?_⟩
      rw [one, Arithmetic.number_pow, Number.one_pow]
      exact Number.equal_self (Number.ne_nan_of_isFinite rfl)

/-- An identity with a number on the right keeps the value. -/
theorem RightIdentity.eval? {op : Operator} {e t : Tree} {y : Number} {a v : Literal}
    (h : RightIdentity e y op t) (he : e.eval? ν = some a) (ha : a.IsFinite)
    (hfold : op.fold? a (.number y) = some v) : ∃ w, t.eval? ν = some w ∧ v.Agrees w := by
  cases a with
  | boolean a => exact nomatch hfold
  | number x =>
    have hx : x ≠ Number.nan := Number.ne_nan_of_isFinite ha
    cases h with
    | add zero =>
      obtain rfl := Option.some.inj hfold
      exact ⟨_, he, Number.add_equal_left hx zero⟩
    | sub zero =>
      obtain rfl := Option.some.inj hfold
      exact ⟨_, he, Number.sub_equal_left hx zero⟩
    | one one =>
      obtain rfl := Option.some.inj hfold
      refine ⟨_, he, ?_⟩
      rw [one, Number.mul_one]
      exact Number.equal_self hx
    | mul zero =>
      obtain rfl := Option.some.inj hfold
      refine ⟨_, rfl, ?_⟩
      rw [Number.mul_comm]
      exact Number.equal_of_isZero (Number.isZero_mul zero ha) rfl
    | div one =>
      obtain rfl := Option.some.inj hfold
      refine ⟨_, he, ?_⟩
      rw [one, Arithmetic.number_div, Number.div_one]
      exact Number.equal_self hx
    | pow zero =>
      obtain ⟨-, hpow⟩ := Option.ite_none_left_eq_some.1 hfold
      obtain rfl := Option.some.inj hpow
      refine ⟨_, rfl, ?_⟩
      rw [Arithmetic.number_pow, Number.pow_of_isZero zero]
      exact Number.equal_self (Number.ne_nan_of_isFinite rfl)

/-- The rules for an operation keep its value. -/
theorem eval?_foldBinary {s : String} {l r : Tree} {a b v : Literal} (hl : l.eval? ν = some a)
    (hr : r.eval? ν = some b) (ha : a.IsFinite) (hb : b.IsFinite)
    (h : Operator.foldSymbol? s a b = some v) (hv : v.IsFinite) :
    ∃ w, (foldBinary s l r).eval? ν = some w ∧ v.Agrees w := by
  have hstep := binaryStep_foldBinary s l r
  generalize foldBinary s l r = t at hstep
  cases hstep with
  | folded value =>
    obtain rfl := Option.some.inj hl
    obtain rfl := Option.some.inj hr
    obtain rfl := Option.some.inj (value.symm.trans h)
    exact ⟨_, rfl, Literal.agrees_self hv⟩
  | left other symbol identity =>
    obtain rfl := Option.some.inj hl
    obtain ⟨op, hop, hfold⟩ := Option.bind_eq_some_iff.1 h
    rw [symbol, Operator.ofSymbol?_symbol, Option.some.injEq] at hop
    subst hop
    exact identity.eval? hr hb hfold hv
  | right other symbol identity =>
    obtain rfl := Option.some.inj hr
    obtain ⟨op, hop, hfold⟩ := Option.bind_eq_some_iff.1 h
    rw [symbol, Operator.ofSymbol?_symbol, Option.some.injEq] at hop
    subst hop
    exact identity.eval? hl ha hfold
  | kept stays =>
    refine ⟨v, ?_, Literal.agrees_self hv⟩
    rw [eval?, hl, Option.bind_some, hr, Option.bind_some, h]

theorem eval?_foldUnary {s : String} {e : Tree} {a v : Literal} (he : e.eval? ν = some a)
    (h : unaryValue? s a = some v) : (foldUnary s e).eval? ν = some v := by
  have hkept : (unary s e).eval? ν = some v := by rw [eval?, he, Option.bind_some, h]
  cases e with
  | literal u =>
    obtain rfl := Option.some.inj he
    cases u with
    | number x =>
      obtain ⟨hs, hv⟩ := Option.ite_none_right_eq_some.1 h
      rw [foldUnary, if_pos hs, ← hv, eval?]
    | boolean b =>
      obtain ⟨hs, hv⟩ := Option.ite_none_right_eq_some.1 h
      rw [foldUnary, if_pos hs, ← hv, eval?]
  | _ => exact hkept

/-- The rule for a conditional expression keeps its value. -/
theorem eval?_foldConditional {test consequent alternate : Tree} {a v : Literal}
    (ht : test.eval? ν = some a)
    (h : (if a.isTruthy then consequent.eval? ν else alternate.eval? ν) = some v) :
    (foldConditional test consequent alternate).eval? ν = some v := by
  have hkept : (conditional test consequent alternate).eval? ν = some v := by
    rw [eval?, ht, Option.bind_some, h]
  cases test with
  | literal u =>
    obtain rfl := Option.some.inj ht
    rw [foldConditional]
    by_cases htruthy : u.isTruthy = true
    · rwa [if_pos htruthy] at h ⊢
    · rwa [if_neg htruthy] at h ⊢
  | _ => exact hkept

theorem evalAll?_numbers (xs : List Number) :
    evalAll? ν (xs.map number) = some (xs.map Literal.number) := by
  induction xs with
  | nil => rfl
  | cons x xs ih => rw [List.map_cons, evalAll?, ih]; rfl

theorem eval?_foldCall {e : Entity} {args : List Tree} {vs : List Literal} {v : Literal}
    (hargs : evalAll? ν args = some vs) (h : ν.call? e vs = some v) :
    (foldCall (entity e) args).eval? ν = some v := by
  rcases foldCall_cases (entity e) args with ⟨f, b, xs, x, hf, hb, rfl, hx, hfold⟩ | ⟨hfold, -⟩
  · obtain rfl : e = f := by simpa using hf
    obtain rfl := Option.some.inj ((evalAll?_numbers xs).symm.trans hargs)
    have hfilter : e.builtin?.filter Builtin.isIntrinsic = some b := by
      rw [hb, Option.filter_some, if_pos (Builtin.isIntrinsic_of_value? hx)]
    have hnumbers : (xs.map Literal.number).map Literal.toNumber = xs := by
      rw [List.map_map]
      exact List.map_id xs
    rw [Valuation.call?, hfilter] at h
    simp only [hnumbers, hx, Option.map_some] at h
    rw [hfold, eval?, h]
  · rw [hfold, eval?, entity?, Option.bind_some, hargs, Option.bind_some, h]

/-! ## The pass -/

/-- The value of an expression is one of the values met. -/
theorem mem_met_of_eval? : ∀ (t : Tree) {v : Literal}, t.eval? ν = some v → v ∈ t.met ν
  | conditional test consequent alternate, v, h => by
    rw [eval?] at h
    obtain ⟨a, ha, h⟩ := Option.bind_eq_some_iff.1 h
    rw [met, ha]
    refine List.mem_append_right _ ?_
    by_cases htruthy : a.isTruthy = true
    · rw [if_pos htruthy] at h
      simp only [if_pos htruthy]
      exact mem_met_of_eval? consequent h
    · rw [if_neg htruthy] at h
      simp only [if_neg htruthy]
      exact mem_met_of_eval? alternate h
  | call _ _, v, h | binary _ _ _, v, h | unary _ _, v, h | literal _, v, h | entity _, v, h => by
    simp [met, h]
  | absent, v, h | text _, v, h | list _, v, h | token _, v, h | program _, v, h
  | variableDeclaration _ _, v, h | functionDeclaration _ _ _, v, h | assignment _ _, v, h
  | whileLoop _ _, v, h | print _, v, h => by simp [eval?] at h

/-- An expression with a value is not spliced. -/
theorem splice_of_eval? {t : Tree} {v : Literal} (h : t.eval? ν = some v) (ts : List Tree) :
    splice t ts = t :: ts := by
  cases t with
  | list items => simp [eval?] at h
  | _ => rfl

mutual

/-- The pass keeps the value of an expression that meets finite values only. -/
theorem eval?_optimize_agrees (hν : ν.RespectsEqual) : ∀ (t : Tree) {v : Literal},
    t.eval? ν = some v → t.MeetsFinite ν → ∃ w, t.optimize.eval? ν = some w ∧ v.Agrees w
  | literal u, v, h, hm => ⟨v, h, Literal.agrees_self (hm v (mem_met_of_eval? _ h))⟩
  | entity e, v, h, hm => ⟨v, h, Literal.agrees_self (hm v (mem_met_of_eval? _ h))⟩
  | binary operator left right, v, h, hm => by
    have hv := hm v (mem_met_of_eval? _ h)
    obtain ⟨hleft, hright⟩ : left.MeetsFinite ν ∧ right.MeetsFinite ν := by
      constructor
      · exact fun u hu => hm u (List.mem_append_left _ (List.mem_append_left _ hu))
      · exact fun u hu => hm u (List.mem_append_left _ (List.mem_append_right _ hu))
    rw [eval?] at h
    obtain ⟨a, ha, h⟩ := Option.bind_eq_some_iff.1 h
    obtain ⟨b, hb, h⟩ := Option.bind_eq_some_iff.1 h
    have hafin := hleft a (mem_met_of_eval? _ ha)
    have hbfin := hright b (mem_met_of_eval? _ hb)
    obtain ⟨a', ha', haa'⟩ := eval?_optimize_agrees hν left ha hleft
    obtain ⟨b', hb', hbb'⟩ := eval?_optimize_agrees hν right hb hright
    obtain ⟨u, hu, hvu⟩ := Operator.foldSymbol?_agrees hafin hbfin haa' hbb' h hv
    obtain ⟨w, hw, huw⟩ := eval?_foldBinary ha' hb' (haa'.isFinite hafin) (hbb'.isFinite hbfin) hu
      (hvu.isFinite hv)
    exact ⟨w, hw, hvu.trans huw⟩
  | unary operator operand, v, h, hm => by
    have hoperand : operand.MeetsFinite ν := fun u hu => hm u (List.mem_append_left _ hu)
    rw [eval?] at h
    obtain ⟨a, ha, h⟩ := Option.bind_eq_some_iff.1 h
    obtain ⟨a', ha', haa'⟩ := eval?_optimize_agrees hν operand ha hoperand
    obtain ⟨w, hw, hvw⟩ := unaryValue?_agrees haa' h
    exact ⟨w, eval?_foldUnary ha' hw, hvw⟩
  | conditional test consequent alternate, v, h, hm => by
    rw [eval?] at h
    obtain ⟨a, ha, h⟩ := Option.bind_eq_some_iff.1 h
    rw [MeetsFinite, met, ha] at hm
    have htest : test.MeetsFinite ν := fun u hu => hm u (List.mem_append_left _ hu)
    obtain ⟨a', ha', haa'⟩ := eval?_optimize_agrees hν test ha htest
    have htruthy := Literal.isTruthy_eq_of_agrees haa' (htest a (mem_met_of_eval? _ ha))
    -- Only the chosen arm has a value, so only its values are known to be finite.
    by_cases hchosen : a.isTruthy = true
    · rw [if_pos hchosen] at h
      simp only [if_pos hchosen] at hm
      obtain ⟨w, hw, hvw⟩ := eval?_optimize_agrees hν consequent h fun u hu =>
        hm u (List.mem_append_right _ hu)
      refine ⟨w, eval?_foldConditional ha' ?_, hvw⟩
      rw [← htruthy, if_pos hchosen, hw]
    · rw [if_neg hchosen] at h
      simp only [if_neg hchosen] at hm
      obtain ⟨w, hw, hvw⟩ := eval?_optimize_agrees hν alternate h fun u hu =>
        hm u (List.mem_append_right _ hu)
      refine ⟨w, eval?_foldConditional ha' ?_, hvw⟩
      rw [← htruthy, if_neg hchosen, hw]
  | call callee args, v, h, hm => by
    have hv := hm v (mem_met_of_eval? _ h)
    have hargs : ∀ u ∈ metInAll ν args, u.IsFinite := fun u hu => hm u (List.mem_append_left _ hu)
    rw [eval?] at h
    obtain ⟨e, he, hcall⟩ := Option.bind_eq_some_iff.1 h
    obtain ⟨vs, hvs, hvalue⟩ := Option.bind_eq_some_iff.1 hcall
    obtain rfl : callee = entity e := by
      cases callee <;> simp [entity?] at he
      rw [he]
    obtain ⟨ws, hws, hagree⟩ := evalAll?_optimizeAll_agrees hν args hvs hargs
    obtain ⟨w, hw, hvw⟩ := Valuation.call?_agrees hν hagree hvalue hv
    exact ⟨w, eval?_foldCall hws hw, hvw⟩
  | absent, v, h, _ | text _, v, h, _ | list _, v, h, _ | token _, v, h, _ | program _, v, h, _
  | variableDeclaration _ _, v, h, _ | functionDeclaration _ _ _, v, h, _
  | assignment _ _, v, h, _ | whileLoop _ _, v, h, _ | print _, v, h, _ => by simp [eval?] at h

theorem evalAll?_optimizeAll_agrees (hν : ν.RespectsEqual) : ∀ (ts : List Tree) {vs : List Literal},
    evalAll? ν ts = some vs → (∀ v ∈ metInAll ν ts, v.IsFinite) →
      ∃ ws, evalAll? ν (optimizeAll ts) = some ws ∧
        List.Forall₂ (fun v w => v.IsFinite ∧ v.Agrees w) vs ws
  | [], vs, h, _ => by
    obtain rfl := Option.some.inj h
    exact ⟨[], rfl, .nil⟩
  | t :: ts, vs, h, hm => by
    rw [evalAll?] at h
    obtain ⟨v, hv, h⟩ := Option.bind_eq_some_iff.1 h
    obtain ⟨us, hus, rfl⟩ := Option.map_eq_some_iff.1 h
    have ht : t.MeetsFinite ν := fun u hu => hm u (List.mem_append_left _ hu)
    obtain ⟨w, hw, hvw⟩ := eval?_optimize_agrees hν t hv ht
    obtain ⟨ws, hws, hagree⟩ := evalAll?_optimizeAll_agrees hν ts hus fun u hu =>
      hm u (List.mem_append_right _ hu)
    refine ⟨w :: ws, ?_, .cons ⟨ht v (mem_met_of_eval? _ hv), hvw⟩ hagree⟩
    rw [optimizeAll, splice_of_eval? hw, evalAll?, hw, hws]
    rfl

end

/-- Where evaluation meets booleans and finite numbers only, the pass keeps the value of an
expression up to the sign of a zero. -/
theorem optimize_preserves_value (hν : ν.RespectsEqual) {e : Tree} {v : Literal}
    (h : e.eval? ν = some v) (hm : e.MeetsFinite ν) :
    ∃ w, e.optimize.eval? ν = some w ∧ v.Agrees w :=
  eval?_optimize_agrees hν e h hm

/-- Every variable is the negative zero, and every function answers its first argument. -/
def echo : Valuation where
  value _ := .number (.signedZero true)
  apply _ args := args.head?

theorem respectsEqual_echo : echo.RespectsEqual := by
  intro e args args' v hargs h _
  cases hargs with
  | nil => exact nomatch h
  | cons hhead =>
    obtain rfl := Option.some.inj h
    exact ⟨_, rfl, hhead⟩

/-- A call of a sum that loses the sign of its zero, which the optimized call keeps. -/
def neutralSum : Tree :=
  call (entity (Entity.declaredFunction 0 "f" 1))
    [binary "+" (entity (Entity.declaredVariable 1 "x")) (number .zero)]

theorem eval?_optimize_neutralSum :
    neutralSum.eval? echo = some (.number .zero) ∧ neutralSum.MeetsFinite echo ∧
      ∃ w, neutralSum.optimize.eval? echo = some w ∧ (Literal.number .zero).Agrees w := by
  have hvalue : neutralSum.eval? echo = some (.number .zero) := by decide +kernel
  have hmet : neutralSum.MeetsFinite echo := by decide +kernel
  exact ⟨hvalue, hmet, optimize_preserves_value respectsEqual_echo hvalue hmet⟩

end Tree
end Quill
