import Quill.Proofs.Optimize.Node
import Quill.Proofs.Scope.Renumbering

/-!
# The pass looks at entities by identity only

Where entities are replaced by others, the pass makes the same replacements in its answer. All that
it asks of an entity is whether it is the same as another one, and which library entity it is; a
replacement that keeps these two keeps every rewriting. Other numbers for declared entities are such
a replacement.

## Main definitions

* `Tree.mapEntities` — a tree with its entities replaced.
* `Entity.KeepsIdentity` — replacements that keep identities apart, and the library in place.
-/

namespace Quill

/-- Replacements by which the same entities stay the same, others stay apart, and those of the
library keep their identity. -/
structure Entity.KeepsIdentity (f : Entity → Entity) : Prop where
  id_eq_iff : ∀ a b : Entity, (f a).id = (f b).id ↔ a.id = b.id
  builtin?_eq : ∀ e : Entity, (f e).builtin? = e.builtin?

namespace Tree

section
variable {f : Entity → Entity}

@[simp] theorem literal?_mapEntities (t : Tree) : (t.mapEntities f).literal? = t.literal? := by
  cases t <;> rfl

@[simp] theorem number?_mapEntities (t : Tree) : (t.mapEntities f).number? = t.number? := by
  cases t <;> rfl

theorem number?_eq_none {t : Tree} (h : t.literal? = none) : t.number? = none := by
  cases t with
  | literal v => simp at h
  | _ => rfl

@[simp] theorem mapEntities_literal (v : Literal) : (literal v).mapEntities f = literal v := rfl

theorem mapEntitiesInAll_append (ts us : List Tree) :
    mapEntitiesInAll f (ts ++ us) = mapEntitiesInAll f ts ++ mapEntitiesInAll f us := by
  induction ts with
  | nil => rfl
  | cons t ts ih => simp only [List.cons_append, mapEntitiesInAll, ih]

/-! ## One node -/

theorem leftIdentity?_mapEntities (x : Number) (e : Tree) (op : Operator) :
    leftIdentity? x (e.mapEntities f) op = (leftIdentity? x e op).map (mapEntities f) := by
  cases op <;> simp only [leftIdentity?] <;> grind [mapEntities]

theorem rightIdentity?_mapEntities (e : Tree) (y : Number) (op : Operator) :
    rightIdentity? (e.mapEntities f) y op = (rightIdentity? e y op).map (mapEntities f) := by
  cases op <;> simp only [rightIdentity?] <;> grind [mapEntities]

theorem getD_mapEntities (t? : Option Tree) (t : Tree) :
    (t?.map (mapEntities f)).getD (t.mapEntities f) = (t?.getD t).mapEntities f := by
  cases t? <;> rfl

/-- The rules for an operation look at literals and at entities alike. -/
theorem foldBinary_mapEntities (s : String) (l r : Tree) :
    foldBinary s (l.mapEntities f) (r.mapEntities f) = (foldBinary s l r).mapEntities f := by
  cases hl : l.literal? with
  | some a =>
    obtain rfl := literal?_eq_some_iff.1 hl
    cases hr : r.literal? with
    | some b =>
      obtain rfl := literal?_eq_some_iff.1 hr
      simp only [mapEntities_literal, foldBinary]
      cases Operator.foldSymbol? s a b <;> rfl
    | none =>
      have hr' : (r.mapEntities f).literal? = none := by rwa [literal?_mapEntities]
      cases a with
      | number x =>
        rw [mapEntities_literal, foldBinary_left hr, foldBinary_left hr', ← getD_mapEntities]
        congr 1
        cases Operator.ofSymbol? s with
        | none => rfl
        | some op => exact leftIdentity?_mapEntities x r op
      | boolean b =>
        rw [mapEntities_literal, foldBinary_other rfl (number?_eq_none hr) (.inr hr),
          foldBinary_other rfl (number?_eq_none hr') (.inr hr')]
        rfl
  | none =>
    have hl' : (l.mapEntities f).literal? = none := by rwa [literal?_mapEntities]
    cases hr : r.number? with
    | some y =>
      obtain rfl := number?_eq_some_iff.1 hr
      rw [mapEntities_literal, foldBinary_right hl, foldBinary_right hl', ← getD_mapEntities]
      congr 1
      cases Operator.ofSymbol? s with
      | none => rfl
      | some op => exact rightIdentity?_mapEntities l y op
    | none =>
      have hr' : (r.mapEntities f).number? = none := by rwa [number?_mapEntities]
      rw [foldBinary_other (number?_eq_none hl) hr (.inl hl),
        foldBinary_other (number?_eq_none hl') hr' (.inl hl')]
      rfl

theorem foldUnary_mapEntities (s : String) (e : Tree) :
    foldUnary s (e.mapEntities f) = (foldUnary s e).mapEntities f := by
  cases e with
  | literal v =>
    cases v with
    | number x =>
      simp only [mapEntities_literal, foldUnary]
      split <;> rfl
    | boolean b =>
      simp only [mapEntities_literal, foldUnary]
      split <;> rfl
  | _ => rfl

theorem foldConditional_mapEntities (test consequent alternate : Tree) :
    foldConditional (test.mapEntities f) (consequent.mapEntities f) (alternate.mapEntities f) =
      (foldConditional test consequent alternate).mapEntities f := by
  cases test with
  | literal v =>
    simp only [mapEntities_literal, foldConditional]
    split <;> rfl
  | _ => rfl

theorem numbers?_mapEntitiesInAll (args : List Tree) :
    numbers? (mapEntitiesInAll f args) = numbers? args := by
  induction args with
  | nil => rfl
  | cons a args ih => rw [mapEntitiesInAll, numbers?_cons, numbers?_cons, number?_mapEntities, ih]

theorem splice_mapEntities (item : Tree) (items : List Tree) :
    splice (item.mapEntities f) (mapEntitiesInAll f items) =
      mapEntitiesInAll f (splice item items) := by
  cases item with
  | list parts => exact (mapEntitiesInAll_append parts items).symm
  | _ => rfl

theorem intrinsic?_mapEntities (hf : Entity.KeepsIdentity f) (callee : Tree) :
    (callee.mapEntities f).intrinsic? = callee.intrinsic? := by
  cases callee with
  | entity e => exact hf.builtin?_eq e
  | _ => rfl

/-- A call is folded for the library function it is of, whatever else its entity says. -/
theorem foldCall_mapEntities (hf : Entity.KeepsIdentity f) (callee : Tree) (args : List Tree) :
    foldCall (callee.mapEntities f) (mapEntitiesInAll f args) =
      (foldCall callee args).mapEntities f := by
  simp only [foldCall, intrinsic?_mapEntities hf, numbers?_mapEntitiesInAll]
  generalize (do
    let builtin ← callee.intrinsic?
    let xs ← numbers? args
    builtin.value? xs) = value
  cases value <;> rfl

/-- The same parts stay the same, and different ones stay different. -/
theorem isSame_mapEntities (hf : Entity.KeepsIdentity f) (a b : Tree) :
    isSame (a.mapEntities f) (b.mapEntities f) = isSame a b := by
  cases a with
  | entity e =>
    cases b with
    | entity e' => simp only [mapEntities, isSame, hf.id_eq_iff]
    | _ => rfl
  | literal v =>
    cases b with
    | literal w => rfl
    | _ => cases v <;> rfl
  | _ => rfl

theorem foldAssignment_mapEntities (hf : Entity.KeepsIdentity f) (target source : Tree) :
    foldAssignment (target.mapEntities f) (source.mapEntities f) =
      (foldAssignment target source).mapEntities f := by
  simp only [foldAssignment, isSame_mapEntities hf]
  split <;> rfl

/-! ## The pass -/

mutual

/-- The pass makes the same replacements in what it answers. -/
theorem optimize_mapEntities (hf : Entity.KeepsIdentity f) : ∀ t : Tree,
    (t.mapEntities f).optimize = t.optimize.mapEntities f
  | program statements => by
    simp only [mapEntities, optimize, optimizeAll_mapEntities hf statements]
  | variableDeclaration name initializer => by
    simp only [mapEntities, optimize, optimize_mapEntities hf initializer]
  | functionDeclaration name params body => by
    simp only [mapEntities, optimize, optimizeAll_mapEntities hf params,
      optimize_mapEntities hf body]
  | assignment target source => by
    simp only [mapEntities, optimize, optimize_mapEntities hf source, foldAssignment_mapEntities hf]
  | whileLoop test body => by
    simp only [mapEntities, optimize, optimize_mapEntities hf test, optimizeAll_mapEntities hf body]
  | print argument => by
    simp only [mapEntities, optimize, optimize_mapEntities hf argument]
  | call callee args => by
    simp only [mapEntities, optimize, optimizeAll_mapEntities hf args, foldCall_mapEntities hf]
  | conditional test consequent alternate => by
    simp only [mapEntities, optimize, optimize_mapEntities hf test,
      optimize_mapEntities hf consequent, optimize_mapEntities hf alternate,
      foldConditional_mapEntities]
  | binary operator left right => by
    simp only [mapEntities, optimize, optimize_mapEntities hf left, optimize_mapEntities hf right,
      foldBinary_mapEntities]
  | unary operator operand => by
    simp only [mapEntities, optimize, optimize_mapEntities hf operand, foldUnary_mapEntities]
  | list items => by
    simp only [mapEntities, optimize, optimizeAll_mapEntities hf items]
  | literal _ | entity _ | token _ | text _ | absent => rfl

theorem optimizeAll_mapEntities (hf : Entity.KeepsIdentity f) : ∀ ts : List Tree,
    optimizeAll (mapEntitiesInAll f ts) = mapEntitiesInAll f (optimizeAll ts)
  | [] => rfl
  | t :: ts => by
    simp only [mapEntitiesInAll, optimizeAll, optimize_mapEntities hf t,
      optimizeAll_mapEntities hf ts, splice_mapEntities]

end

mutual

/-- The pass finds the same fault under a replacement. -/
theorem fault?_mapEntities (hf : Entity.KeepsIdentity f) : ∀ t : Tree,
    (t.mapEntities f).fault? = t.fault?
  | program statements => faultIn?_mapEntities hf statements
  | variableDeclaration _ initializer => fault?_mapEntities hf initializer
  | functionDeclaration _ params body => by
    simp only [mapEntities, fault?, faultIn?_mapEntities hf params, fault?_mapEntities hf body]
  | assignment _ source => fault?_mapEntities hf source
  | whileLoop test body => by
    simp only [mapEntities, fault?, fault?_mapEntities hf test, faultIn?_mapEntities hf body]
  | print argument => fault?_mapEntities hf argument
  | call callee args => by
    simp only [mapEntities, fault?, faultIn?_mapEntities hf args, argumentFault?,
      intrinsic?_mapEntities hf, optimizeAll_mapEntities hf, numbers?_mapEntitiesInAll]
  | conditional test consequent alternate => by
    simp only [mapEntities, fault?, fault?_mapEntities hf test, fault?_mapEntities hf consequent,
      fault?_mapEntities hf alternate]
  | binary _ left right => by
    simp only [mapEntities, fault?, fault?_mapEntities hf left, fault?_mapEntities hf right,
      operandFault?, optimize_mapEntities hf, number?_mapEntities]
  | unary _ operand => fault?_mapEntities hf operand
  | list items => faultIn?_mapEntities hf items
  | literal _ | entity _ | token _ | text _ | absent => rfl

theorem faultIn?_mapEntities (hf : Entity.KeepsIdentity f) : ∀ ts : List Tree,
    faultIn? (mapEntitiesInAll f ts) = faultIn? ts
  | [] => rfl
  | t :: ts => by
    simp only [mapEntitiesInAll, faultIn?, fault?_mapEntities hf t, faultIn?_mapEntities hf ts]

end

/-- The pass answers the tree with the same entities replaced, or refuses it for the same fault. -/
theorem optimize?_mapEntities (hf : Entity.KeepsIdentity f) (t : Tree) :
    (t.mapEntities f).optimize? = mapEntities f <$> t.optimize? := by
  simp only [optimize?, fault?_mapEntities hf, optimize_mapEntities hf]
  cases t.fault? <;> rfl

end

/-! ## Other numbers -/

/-- Other numbers are such a replacement, as long as they stay apart. -/
theorem keepsIdentity_renumber {σ : Nat → Nat} (hσ : σ.Injective) :
    Entity.KeepsIdentity (Entity.renumber σ) where
  id_eq_iff a b := by
    simp only [Entity.renumber]
    cases a.id <;> cases b.id <;> simp [Entity.Id.renumber, hσ.eq_iff]
  builtin?_eq e := by
    simp only [Entity.builtin?, Entity.renumber]
    cases e.id <;> rfl

/-- The pass does not depend on the numbers of entities. -/
theorem optimize?_renumber {σ : Nat → Nat} (hσ : σ.Injective) (t : Tree) :
    (t.renumber σ).optimize? = renumber σ <$> t.optimize? := by
  have hmap : renumber σ = mapEntities (Entity.renumber σ) :=
    funext (renumber_eq_mapEntities σ)
  rw [hmap]
  exact optimize?_mapEntities (keepsIdentity_renumber hσ) t

end Tree
end Quill
