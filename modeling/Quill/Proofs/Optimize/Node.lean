import Quill.Optimize

/-!
# One node of the pass

What the pass makes of a node whose parts are optimized. A redex is a node that is always replaced,
stated by its shape alone; every rule of the pass is then one case of a step, and a node that is no
redex stays.

## Main definitions

* `Tree.IsRedex` — the nodes that are replaced.
* `Tree.LeftIdentity`, `Tree.RightIdentity` — the identities, one constructor each.
* `Tree.BinaryStep` — the ways in which a binary node is rewritten.
-/

namespace Quill

namespace Operator

/-- Arithmetic and comparisons have a value on numbers. -/
def foldsNumbers : Operator → Bool
  | and | or => false
  | _ => true

/-- Equality and the connectives have a value on booleans. -/
def foldsBooleans : Operator → Bool
  | equal | notEqual | and | or => true
  | _ => false

/-- Does a number on the left decide what the operator does to any other operand? -/
def hasLeftIdentity (x : Number) : Operator → Bool
  | add | sub | div | rem => x.isZero
  | mul => x.isZero || x = .one
  | pow => x = .one
  | _ => false

/-- Does a number on the right decide what the operator does to any other operand? -/
def hasRightIdentity (y : Number) : Operator → Bool
  | add | sub | pow => y.isZero
  | mul => y.isZero || y = .one
  | div => y = .one
  | _ => false

/-- Each symbol is that of one operator. -/
theorem ofSymbol?_eq_some_iff {s : String} {op : Operator} :
    ofSymbol? s = some op ↔ s = op.symbol := by
  constructor
  · intro h
    exact (symbol_of_ofSymbol? h).symm
  · rintro rfl
    exact ofSymbol?_symbol op

/-- Only zero to the power zero has no value among the numbers that an operator takes. -/
theorem isSome_foldNumbers? [Arithmetic] (x y : Number) (op : Operator) :
    (foldNumbers? x y op).isSome =
      (op.foldsNumbers && !(op = .pow && x.isZero && y.isZero)) := by
  cases op with
  | pow => cases hx : x.isZero <;> cases hy : y.isZero <;> simp [foldNumbers?, foldsNumbers, hx, hy]
  | _ => simp [foldNumbers?, foldsNumbers]

theorem isSome_foldBooleans? (x y : Bool) (op : Operator) :
    (foldBooleans? x y op).isSome = op.foldsBooleans := by
  cases op <;> rfl

end Operator

namespace Builtin

section Values

variable [Arithmetic] {b : Builtin} {xs : List Number}

theorem value?_eq_some_iff {x : Number} :
    b.value? xs = some x ↔ ∃ outcome, b.outcome? xs = some outcome ∧ outcome.number = x :=
  Option.map_eq_some_iff

/-- Only the intrinsic functions have values. -/
theorem isIntrinsic_of_value? {x : Number} (h : b.value? xs = some x) : b.isIntrinsic = true := by
  obtain ⟨outcome, h, -⟩ := value?_eq_some_iff.1 h
  cases b with
  | pi | random => cases h
  | _ => rfl

/-- An intrinsic function has an outcome on as many numbers as it takes. -/
theorem isSome_outcome? (hb : b.isIntrinsic = true)
    (h : b.entity.paramCount? = some (xs.length : Int)) : (b.outcome? xs).isSome = true := by
  cases b with
  | pi | random => simp [isIntrinsic] at hb
  | hypot => rfl
  | sqrt | sin | cos | exp | ln =>
    have hlength : xs.length = 1 := by
      have := Option.some.inj h
      omega
    obtain ⟨x, rfl⟩ := List.length_eq_one_iff.1 hlength
    rfl

/-- An intrinsic function has a value on as many numbers as it takes. -/
theorem isSome_value? (hb : b.isIntrinsic = true)
    (h : b.entity.paramCount? = some (xs.length : Int)) : (b.value? xs).isSome = true := by
  rw [value?, Option.isSome_map, isSome_outcome? hb h]

end Values

end Builtin

namespace Tree

/-! ## Redexes -/

/-- The nodes that the pass replaces. -/
inductive IsRedex : Tree → Prop where
  | numbers {op : Operator} {x y : Number} (folds : op.foldsNumbers = true)
      (powers : ¬(op = .pow ∧ x.isZero = true ∧ y.isZero = true)) :
      IsRedex (binary op.symbol (number x) (number y))
  | booleans {op : Operator} {a b : Bool} (folds : op.foldsBooleans = true) :
      IsRedex (binary op.symbol (boolean a) (boolean b))
  | leftIdentity {op : Operator} {x : Number} {e : Tree} (other : e.literal? = none)
      (identity : op.hasLeftIdentity x = true) : IsRedex (binary op.symbol (number x) e)
  | rightIdentity {op : Operator} {e : Tree} {y : Number} (other : e.literal? = none)
      (identity : op.hasRightIdentity y = true) : IsRedex (binary op.symbol e (number y))
  | negation {x : Number} : IsRedex (unary "-" (number x))
  | complement {b : Bool} : IsRedex (unary "!" (boolean b))
  | decided {v : Literal} {consequent alternate : Tree} :
      IsRedex (conditional (literal v) consequent alternate)
  | intrinsic {e : Entity} {b : Builtin} {args : List Tree} (callee : e.builtin? = some b)
      (computed : b.isIntrinsic = true) (numbers : ∀ a ∈ args, ∃ x, a = number x) :
      IsRedex (call (entity e) args)
  | selfAssignment {e f : Entity} (same : e.id = f.id) : IsRedex (assignment (entity e) (entity f))

theorem literal?_eq_some_iff {t : Tree} {v : Literal} : t.literal? = some v ↔ t = literal v := by
  cases t <;> simp [literal?]

theorem number?_eq_some_iff {t : Tree} {x : Number} : t.number? = some x ↔ t = number x := by
  cases t with
  | literal v => cases v <;> simp [number?]
  | _ => simp [number?]

/-! ## Binary nodes -/

theorem isSome_leftIdentity? (x : Number) (e : Tree) (op : Operator) :
    (leftIdentity? x e op).isSome = op.hasLeftIdentity x := by
  cases op <;> simp only [leftIdentity?, Operator.hasLeftIdentity] <;>
    (try by_cases h : x = .one) <;> cases hz : x.isZero <;> simp_all

theorem isSome_rightIdentity? (e : Tree) (y : Number) (op : Operator) :
    (rightIdentity? e y op).isSome = op.hasRightIdentity y := by
  cases op <;> simp only [rightIdentity?, Operator.hasRightIdentity] <;>
    (try by_cases h : y = .one) <;> cases hz : y.isZero <;> simp_all

/-- The identities with a number on the left. -/
inductive LeftIdentity (x : Number) (e : Tree) : Operator → Tree → Prop where
  | add (zero : x.isZero = true) : LeftIdentity x e .add e
  | sub (zero : x.isZero = true) : LeftIdentity x e .sub (unary "-" e)
  | one (one : x = .one) : LeftIdentity x e .mul e
  | mul (zero : x.isZero = true) : LeftIdentity x e .mul (number .zero)
  | div (zero : x.isZero = true) : LeftIdentity x e .div (number .zero)
  | rem (zero : x.isZero = true) : LeftIdentity x e .rem (number .zero)
  | pow (one : x = .one) : LeftIdentity x e .pow (number .one)

/-- The identities with a number on the right. -/
inductive RightIdentity (e : Tree) (y : Number) : Operator → Tree → Prop where
  | add (zero : y.isZero = true) : RightIdentity e y .add e
  | sub (zero : y.isZero = true) : RightIdentity e y .sub e
  | one (one : y = .one) : RightIdentity e y .mul e
  | mul (zero : y.isZero = true) : RightIdentity e y .mul (number .zero)
  | div (one : y = .one) : RightIdentity e y .div e
  | pow (zero : y.isZero = true) : RightIdentity e y .pow (number .one)

theorem LeftIdentity.of_eq_some {x : Number} {e t : Tree} {op : Operator}
    (h : leftIdentity? x e op = some t) : LeftIdentity x e op t := by
  cases op <;> simp only [leftIdentity?] at h <;> grind [LeftIdentity]

theorem RightIdentity.of_eq_some {e t : Tree} {y : Number} {op : Operator}
    (h : rightIdentity? e y op = some t) : RightIdentity e y op t := by
  cases op <;> simp only [rightIdentity?] at h <;> grind [RightIdentity]

theorem LeftIdentity.hasLeftIdentity {x : Number} {e t : Tree} {op : Operator}
    (h : LeftIdentity x e op t) : op.hasLeftIdentity x = true := by
  cases h <;> simp [Operator.hasLeftIdentity, *]

theorem RightIdentity.hasRightIdentity {e t : Tree} {y : Number} {op : Operator}
    (h : RightIdentity e y op t) : op.hasRightIdentity y = true := by
  cases h <;> simp [Operator.hasRightIdentity, *]

/-- An identity answers the other operand, its negation or a number. -/
theorem LeftIdentity.result {x : Number} {e t : Tree} {op : Operator}
    (h : LeftIdentity x e op t) : t = e ∨ t = unary "-" e ∨ ∃ y, t = number y := by
  cases h with
  | add | one => exact .inl rfl
  | sub => exact .inr (.inl rfl)
  | mul | div | rem | pow => exact .inr (.inr ⟨_, rfl⟩)

/-- An identity answers the other operand or a number. -/
theorem RightIdentity.result {e t : Tree} {y : Number} {op : Operator}
    (h : RightIdentity e y op t) : t = e ∨ ∃ z, t = number z := by
  cases h with
  | add | sub | one | div => exact .inl rfl
  | mul | pow => exact .inr ⟨_, rfl⟩

theorem IsRedex.isSome_leftIdentity? {s : String} {x : Number} {e : Tree}
    (he : e.literal? = none) (h : IsRedex (binary s (number x) e)) :
    ((Operator.ofSymbol? s).bind (leftIdentity? x e)).isSome = true := by
  cases h with
  | numbers _ _ => simp at he
  | leftIdentity _ identity =>
    rw [Operator.ofSymbol?_symbol, Option.bind_some, Tree.isSome_leftIdentity?, identity]
  | rightIdentity other _ => simp at other

theorem IsRedex.isSome_rightIdentity? {s : String} {e : Tree} {y : Number}
    (he : e.literal? = none) (h : IsRedex (binary s e (number y))) :
    ((Operator.ofSymbol? s).bind (rightIdentity? e y)).isSome = true := by
  cases h with
  | numbers _ _ => simp at he
  | leftIdentity other _ => simp at other
  | rightIdentity _ identity =>
    rw [Operator.ofSymbol?_symbol, Option.bind_some, Tree.isSome_rightIdentity?, identity]

/-- Without a number among the operands, or with a boolean beside another tree, nothing is known. -/
theorem not_isRedex_binary {s : String} {l r : Tree} (hl : l.number? = none) (hr : r.number? = none)
    (h : l.literal? = none ∨ r.literal? = none) : ¬ IsRedex (binary s l r) := by
  intro hredex
  cases hredex with
  | numbers => simp at hl
  | booleans => simp at h
  | leftIdentity => simp at hl
  | rightIdentity => simp at hr

section Folding

variable [Arithmetic]

/-- The ways in which a binary node is rewritten. -/
inductive BinaryStep (s : String) : Tree → Tree → Tree → Prop where
  | folded {a b v : Literal} (value : Operator.foldSymbol? s a b = some v) :
      BinaryStep s (literal a) (literal b) (literal v)
  | left {op : Operator} {x : Number} {e t : Tree} (other : e.literal? = none)
      (symbol : s = op.symbol) (identity : LeftIdentity x e op t) :
      BinaryStep s (number x) e t
  | right {op : Operator} {e t : Tree} {y : Number} (other : e.literal? = none)
      (symbol : s = op.symbol) (identity : RightIdentity e y op t) :
      BinaryStep s e (number y) t
  | kept {left right : Tree} (stays : ¬ IsRedex (binary s left right)) :
      BinaryStep s left right (binary s left right)

/-- With a number on the left an operation is kept, unless the number is neutral there. -/
theorem foldBinary_left {s : String} {x : Number} {e : Tree} (he : e.literal? = none) :
    foldBinary s (number x) e =
      ((Operator.ofSymbol? s).bind (leftIdentity? x e)).getD (binary s (number x) e) := by
  cases e with
  | literal v => simp at he
  | _ => rfl

theorem foldBinary_right {s : String} {e : Tree} {y : Number} (he : e.literal? = none) :
    foldBinary s e (number y) =
      ((Operator.ofSymbol? s).bind (rightIdentity? e y)).getD (binary s e (number y)) := by
  cases e with
  | literal v => simp at he
  | _ => rfl

theorem IsRedex.isSome_foldSymbol? {s : String} {a b : Literal}
    (h : IsRedex (binary s (literal a) (literal b))) :
    (Operator.foldSymbol? s a b).isSome = true := by
  cases h with
  | @numbers op x y folds powers =>
    rw [Operator.foldSymbol?, Operator.ofSymbol?_symbol, Option.bind_some, Operator.fold?,
      Operator.isSome_foldNumbers?, folds]
    have hpow : (op = .pow && x.isZero && y.isZero) = false := by
      rw [Bool.eq_false_iff]
      simpa [and_assoc] using powers
    rw [hpow]
    rfl
  | @booleans op a b folds =>
    rw [Operator.foldSymbol?, Operator.ofSymbol?_symbol, Option.bind_some, Operator.fold?,
      Operator.isSome_foldBooleans?, folds]
  | leftIdentity other _ => simp at other
  | rightIdentity other _ => simp at other

theorem foldBinary_other {s : String} {l r : Tree} (hl : l.number? = none) (hr : r.number? = none)
    (h : l.literal? = none ∨ r.literal? = none) : foldBinary s l r = binary s l r := by
  unfold foldBinary
  split
  · simp at h
  · simp at hl
  · simp at hr
  · rfl

/-- Every rewriting of a binary node is one of the ways. -/
theorem binaryStep_foldBinary (s : String) (l r : Tree) : BinaryStep s l r (foldBinary s l r) := by
  by_cases hlit : ∃ a b, l = literal a ∧ r = literal b
  · obtain ⟨a, b, rfl, rfl⟩ := hlit
    cases h : Operator.foldSymbol? s a b with
    | some v =>
      have hfold : foldBinary s (literal a) (literal b) = literal v := by simp [foldBinary, h]
      exact hfold ▸ .folded h
    | none =>
      have hfold : foldBinary s (literal a) (literal b) = binary s (literal a) (literal b) := by
        simp [foldBinary, h]
      rw [hfold]
      exact .kept fun hr => by simpa [h] using hr.isSome_foldSymbol?
  · have hnone : ∀ {v : Literal}, (l = literal v → r.literal? = none) ∧
        (r = literal v → l.literal? = none) := by
      intro v
      constructor
      · rintro rfl
        rw [Option.eq_none_iff_forall_ne_some]
        exact fun b hb => hlit ⟨v, b, rfl, literal?_eq_some_iff.1 hb⟩
      · rintro rfl
        rw [Option.eq_none_iff_forall_ne_some]
        exact fun a ha => hlit ⟨a, v, literal?_eq_some_iff.1 ha, rfl⟩
    cases hl : l.number? with
    | some x =>
      obtain rfl := number?_eq_some_iff.1 hl
      have hr := hnone.1 rfl
      rw [foldBinary_left hr]
      cases h : (Operator.ofSymbol? s).bind (leftIdentity? x r) with
      | some t =>
        obtain ⟨op, hop, ht⟩ := Option.bind_eq_some_iff.1 h
        exact .left hr (Operator.ofSymbol?_eq_some_iff.1 hop) (.of_eq_some ht)
      | none => exact .kept fun hredex => by simpa [h] using hredex.isSome_leftIdentity? hr
    | none =>
      cases hr : r.number? with
      | some y =>
        obtain rfl := number?_eq_some_iff.1 hr
        have hl := hnone.2 rfl
        rw [foldBinary_right hl]
        cases h : (Operator.ofSymbol? s).bind (rightIdentity? l y) with
        | some t =>
          obtain ⟨op, hop, ht⟩ := Option.bind_eq_some_iff.1 h
          exact .right hl (Operator.ofSymbol?_eq_some_iff.1 hop) (.of_eq_some ht)
        | none => exact .kept fun hredex => by simpa [h] using hredex.isSome_rightIdentity? hl
      | none =>
        have hother : l.literal? = none ∨ r.literal? = none := by
          cases h : l.literal? with
          | none => exact .inl rfl
          | some v => exact .inr (hnone.1 (literal?_eq_some_iff.1 h))
        rw [foldBinary_other hl hr hother]
        exact .kept (not_isRedex_binary hl hr hother)

/-- Operations on literals that have a value can be rewritten. -/
theorem isRedex_of_foldSymbol? {s : String} {a b v : Literal}
    (h : Operator.foldSymbol? s a b = some v) : IsRedex (binary s (literal a) (literal b)) := by
  obtain ⟨op, hop, hv⟩ := Option.bind_eq_some_iff.1 h
  obtain rfl := Operator.ofSymbol?_eq_some_iff.1 hop
  cases a with
  | number x =>
    cases b with
    | number y =>
      have hsome := Operator.isSome_foldNumbers? x y op
      rw [show op.foldNumbers? x y = some v from hv, Option.isSome_some, eq_comm,
        Bool.and_eq_true, Bool.not_eq_true'] at hsome
      refine .numbers hsome.1 ?_
      rintro ⟨rfl, hx, hy⟩
      simp [hx, hy] at hsome
    | boolean b => simp [Operator.fold?] at hv
  | boolean a =>
    cases b with
    | number y => simp [Operator.fold?] at hv
    | boolean b =>
      have hsome := Operator.isSome_foldBooleans? a b op
      rw [show op.foldBooleans? a b = some v from hv] at hsome
      exact .booleans hsome.symm

/-- An operation that cannot be rewritten is kept. -/
theorem foldBinary_of_not_isRedex {s : String} {l r : Tree} (h : ¬ IsRedex (binary s l r)) :
    foldBinary s l r = binary s l r := by
  have hstep := binaryStep_foldBinary s l r
  generalize foldBinary s l r = t at hstep
  cases hstep with
  | folded value => exact (h (isRedex_of_foldSymbol? value)).elim
  | @left op x _ _ other symbol identity =>
    subst symbol
    exact (h (.leftIdentity other identity.hasLeftIdentity)).elim
  | @right op _ _ y other symbol identity =>
    subst symbol
    exact (h (.rightIdentity other identity.hasRightIdentity)).elim
  | kept _ => rfl

end Folding

/-! ## Other nodes -/

/-- A unary redex has a literal as its operand. -/
theorem IsRedex.literal?_ne_none {s : String} {e : Tree} (h : IsRedex (unary s e)) :
    e.literal? ≠ none := by
  cases h <;> simp

/-- A sign on a literal makes a literal, or the expression is kept and cannot be rewritten. -/
theorem foldUnary_cases (s : String) (e : Tree) :
    (∃ v, foldUnary s e = literal v) ∨
      (foldUnary s e = unary s e ∧ ¬ IsRedex (unary s e)) := by
  cases e with
  | literal v =>
    cases v with
    | number x =>
      by_cases hs : s = "-"
      · exact .inl ⟨.number x.neg, by simp [foldUnary, hs]⟩
      · refine .inr ⟨by simp [foldUnary, hs], ?_⟩
        rintro ⟨⟩
        exact hs rfl
    | boolean b =>
      by_cases hs : s = "!"
      · exact .inl ⟨.boolean !b, by simp [foldUnary, hs]⟩
      · refine .inr ⟨by simp [foldUnary, hs], ?_⟩
        rintro ⟨⟩
        exact hs rfl
  | _ => exact .inr ⟨rfl, by rintro ⟨⟩⟩

theorem foldUnary_of_not_isRedex {s : String} {e : Tree} (h : ¬ IsRedex (unary s e)) :
    foldUnary s e = unary s e := by
  unfold foldUnary
  split
  · split
    · rename_i hs
      exact (h (hs ▸ .negation)).elim
    · rfl
  · split
    · rename_i hs
      exact (h (hs ▸ .complement)).elim
    · rfl
  · rfl

/-- A literal test leaves one arm, or the expression is kept and cannot be rewritten. -/
theorem foldConditional_cases (test consequent alternate : Tree) :
    foldConditional test consequent alternate = consequent ∨
      foldConditional test consequent alternate = alternate ∨
      (foldConditional test consequent alternate = conditional test consequent alternate ∧
        ¬ IsRedex (conditional test consequent alternate)) := by
  cases test with
  | literal v =>
    cases hv : v.isTruthy with
    | true => exact .inl (by simp [foldConditional, hv])
    | false => exact .inr (.inl (by simp [foldConditional, hv]))
  | _ => exact .inr (.inr ⟨rfl, by rintro ⟨⟩⟩)

theorem foldConditional_of_not_isRedex {test consequent alternate : Tree}
    (h : ¬ IsRedex (conditional test consequent alternate)) :
    foldConditional test consequent alternate = conditional test consequent alternate := by
  cases test with
  | literal v => exact (h .decided).elim
  | _ => rfl

/-- An assignment to itself disappears, or the assignment is kept and cannot be rewritten. -/
theorem foldAssignment_cases (target source : Tree) :
    foldAssignment target source = list [] ∨
      (foldAssignment target source = assignment target source ∧
        ¬ IsRedex (assignment target source)) := by
  by_cases h : isSame source target = true
  · exact .inl (by simp [foldAssignment, h])
  · refine .inr ⟨by simp [foldAssignment, h], ?_⟩
    rintro ⟨⟩
    rename_i same
    exact h (by simp [isSame, same])

theorem foldAssignment_of_not_isRedex {e : Entity} {source : Tree}
    (h : ¬ IsRedex (assignment (entity e) source)) :
    foldAssignment (entity e) source = assignment (entity e) source := by
  cases source with
  | entity f =>
    have hne : f.id ≠ e.id := fun same => h (.selfAssignment same.symm)
    simp [foldAssignment, isSame, hne]
  | literal v => cases v <;> rfl
  | _ => rfl

/-! ## Calls -/

theorem intrinsic?_eq_some_iff {callee : Tree} {b : Builtin} :
    callee.intrinsic? = some b ↔ ∃ e, callee = entity e ∧ e.builtin? = some b := by
  cases callee <;> simp [intrinsic?, entity?]

theorem numbers?_cons (a : Tree) (args : List Tree) :
    numbers? (a :: args) = a.number?.bind fun x => (numbers? args).map (x :: ·) := by
  simp only [numbers?, List.mapM_cons, Option.map_eq_bind]
  rfl

theorem numbers?_eq_some_iff {args : List Tree} {xs : List Number} :
    numbers? args = some xs ↔ args = xs.map number := by
  induction args generalizing xs with
  | nil => cases xs <;> simp [numbers?]
  | cons a args ih =>
    simp only [numbers?_cons, Option.bind_eq_some_iff, Option.map_eq_some_iff, number?_eq_some_iff,
      ih]
    cases xs <;> simp

theorem exists_numbers {args : List Tree} (h : ∀ a ∈ args, ∃ x, a = number x) :
    ∃ xs : List Number, args = xs.map number := by
  induction args with
  | nil => exact ⟨[], rfl⟩
  | cons a args ih =>
    obtain ⟨x, rfl⟩ := h a List.mem_cons_self
    obtain ⟨xs, rfl⟩ := ih fun b hb => h b (List.mem_cons_of_mem _ hb)
    exact ⟨x :: xs, rfl⟩

section Folding

variable [Arithmetic]

/-- A call is computed when an intrinsic function has a value on numbers. -/
theorem foldCall_cases (callee : Tree) (args : List Tree) :
    (∃ e b xs x, callee = entity e ∧ e.builtin? = some b ∧ args = xs.map number ∧
        b.value? xs = some x ∧ foldCall callee args = number x) ∨
      (foldCall callee args = call callee args ∧
        ∀ e b xs, callee = entity e → e.builtin? = some b → args = xs.map number →
          b.value? xs = none) := by
  cases h : (do
      let builtin ← callee.intrinsic?
      let xs ← numbers? args
      builtin.value? xs) with
  | some x =>
    obtain ⟨b, hb, h'⟩ := Option.bind_eq_some_iff.1 h
    obtain ⟨xs, hxs, hx⟩ := Option.bind_eq_some_iff.1 h'
    obtain ⟨e, rfl, he⟩ := intrinsic?_eq_some_iff.1 hb
    refine .inl ⟨e, b, xs, x, rfl, he, numbers?_eq_some_iff.1 hxs, hx, ?_⟩
    rw [foldCall, h]
    rfl
  | none =>
    refine .inr ⟨by rw [foldCall, h]; rfl, ?_⟩
    intro e b xs hcallee he hargs
    have hb : callee.intrinsic? = some b := intrinsic?_eq_some_iff.2 ⟨e, hcallee, he⟩
    rw [hb, numbers?_eq_some_iff.2 hargs] at h
    exact h

theorem foldCall_of_not_isRedex {e : Entity} {args : List Tree}
    (h : ¬ IsRedex (call (entity e) args)) : foldCall (entity e) args = call (entity e) args := by
  rcases foldCall_cases (entity e) args with ⟨f, b, xs, x, hf, hb, rfl, hx, -⟩ | ⟨hkept, -⟩
  · obtain rfl : e = f := by simpa using hf
    refine (h (.intrinsic hb (Builtin.isIntrinsic_of_value? hx) ?_)).elim
    intro a ha
    obtain ⟨y, -, rfl⟩ := List.mem_map.1 ha
    exact ⟨y, rfl⟩
  · exact hkept

end Folding

end Tree
end Quill
