import Mathlib.Data.List.Nodup
import Quill.Proofs.Optimize.Scoping
import Quill.Proofs.Scope.Acceptance
import Quill.Proofs.Graph.Faithful
import Quill.Proofs.Graph.Renumbering
import Quill.Proofs.Optimize.Replacement

/-!
# Graphs of compiled programs

A graph shows the names of entities and the places where the same entity stands again, but not what
an entity is. For compiled programs the names suffice: such a program is what its own names resolve
to, so a parameter called like a library constant is told from the constant by where it stands. Two
compiled programs have the same graph exactly if they differ in nothing but the numbers of their
entities.

## Main definitions

* `Tree.IsOutcome` — what the compiler makes of accepted programs, optimized or not.
-/

namespace Quill

open Text Quill.Graph

/-! ## The leaves of programs -/

/-- Different literals are shown differently. -/
theorem Literal.view_injective : Function.Injective view := by
  have hword (x : Number) (b : Bool) : x.display ≠ booleanName b := by
    intro h
    have hletter : ∃ c ∈ (booleanName b).toList, ¬ (isDigit c ∨
        c ∈ ['.', 'e', 'E', '+', '-', 'n', 'a', 'i', 'f']) := by
      cases b
      · exact ⟨'F', by decide, by decide +kernel⟩
      · exact ⟨'T', by decide, by decide +kernel⟩
    obtain ⟨c, hc, hnot⟩ := hletter
    rw [← h, Number.display, String.toList_ofList] at hc
    exact hnot (Number.mem_displayChars hc)
  intro v w h
  cases v with
  | number x =>
    cases w with
    | number y => exact congrArg number (Number.display_injective h)
    | boolean b => exact absurd h (hword x b)
  | boolean b =>
    cases w with
    | number x => exact absurd h.symm (hword x b)
    | boolean c => cases b <;> cases c <;> first | rfl | exact absurd h (by decide)

/-- A property of leaves that literals have, and what stands for a name in an expression. -/
structure Naming.Ensures (N : Naming) (Q : Tree → Prop) : Prop where
  literal : ∀ v, Q (.literal v)
  value : ∀ t, N.value t → Q t
  callee : ∀ n t, N.callee n t → t.leaves = [t] ∧ Q t

namespace Tree

mutual

/-- What holds of literals and of the names of an expression holds of all its leaves. -/
theorem forall_leaves_of_isExpression {N : Naming} {Q : Tree → Prop} (hN : N.Ensures Q) :
    ∀ t : Tree, t.IsExpression N → ∀ a ∈ t.leaves, Q a
  | literal v, _ => List.forall_mem_singleton.2 (hN.literal v)
  | token t, ht => List.forall_mem_singleton.2 (hN.value _ ht)
  | entity e, ht => List.forall_mem_singleton.2 (hN.value _ ht)
  | call callee args, ht => by
    obtain ⟨hleaf, hname⟩ := hN.callee _ _ ht.1
    simp only [leaves, hleaf, List.forall_mem_append, List.forall_mem_singleton]
    exact ⟨hname, forall_leaves_of_areExpressions hN args ht.2⟩
  | conditional test consequent alternate, ht => by
    simp only [leaves, List.forall_mem_append]
    exact ⟨⟨forall_leaves_of_isExpression hN test ht.1,
      forall_leaves_of_isExpression hN consequent ht.2.1⟩,
      forall_leaves_of_isExpression hN alternate ht.2.2⟩
  | binary _ left right, ht => by
    simp only [leaves, List.forall_mem_append]
    exact ⟨forall_leaves_of_isExpression hN left ht.1, forall_leaves_of_isExpression hN right ht.2⟩
  | unary _ operand, ht => forall_leaves_of_isExpression hN operand ht
  | absent, ht | text _, ht | list _, ht | program _, ht | variableDeclaration _ _, ht
  | functionDeclaration _ _ _, ht | assignment _ _, ht | whileLoop _ _, ht | print _, ht => ht.elim

/-- What a naming ensures of the names in expressions holds of all their leaves. -/
theorem forall_leaves_of_areExpressions {N : Naming} {Q : Tree → Prop} (hN : N.Ensures Q) :
    ∀ ts : List Tree, AreExpressions N ts → ∀ a ∈ leavesOfAll ts, Q a
  | [], _ => by simp [leavesOfAll]
  | t :: ts, hts => by
    simp only [leavesOfAll, List.forall_mem_append]
    exact ⟨forall_leaves_of_isExpression hN t hts.1, forall_leaves_of_areExpressions hN ts hts.2⟩

end

/-- A literal, or an entity with this property. -/
def IsLiteralOrEntity (P : Entity → Prop) : Tree → Prop
  | literal _ => True
  | entity e => P e
  | _ => False

theorem IsLiteralOrEntity.isLegible {P : Entity → Prop} {a : Tree} (h : a.IsLiteralOrEntity P) :
    a.IsLegible P := by
  cases a <;> first | exact h | exact h.elim

/-- Literals that are shown alike are the same. -/
theorem IsLiteralOrEntity.eq_of_view? {P P' : Entity → Prop} {a b : Tree} {view : String}
    (ha : a.IsLiteralOrEntity P) (hb : b.IsLiteralOrEntity P') (hav : a.view? = some view)
    (hbv : b.view? = some view) : a = b := by
  cases a with
  | literal v =>
    cases b with
    | literal w =>
      exact congrArg literal (Literal.view_injective (Option.some.inj (hav.trans hbv.symm)))
    | token _ => exact hb.elim
    | _ => cases hbv
  | token _ => exact ha.elim
  | _ => cases hav

end Tree

/-! ## The leaves of resolved programs -/

/-- All that can be denoted at a point has a property. -/
structure Surroundings.Have (s : Surroundings) (P : Entity → Prop) : Prop where
  library : ∀ b : Builtin, P b.entity
  declared : ∀ o ∈ s.declared, P o.entity
  params : ∀ o ∈ s.params, P o.entity

variable {s : Surroundings} {P : Entity → Prop}

theorem Surroundings.Have.of_denotes {e : Entity} (hs : s.Have P) (he : s.Denotes e) : P e := by
  obtain ⟨o, ho, rfl⟩ := he
  rcases Option.or_eq_some_iff.1 ho with h | ⟨-, h⟩
  · exact hs.params o (List.mem_of_find?_eq_some h)
  rcases Option.or_eq_some_iff.1 h with h | ⟨-, h⟩
  · exact hs.declared o (List.mem_of_find?_eq_some h)
  · obtain ⟨b, -, rfl⟩ := List.mem_map.1 (List.mem_of_find?_eq_some h)
    exact hs.library b

theorem Naming.ensures_denoted (hs : s.Have P) :
    (Naming.denoted s).Ensures (Tree.IsLiteralOrEntity P) where
  literal _ := trivial
  value t ht := by
    obtain ⟨e, rfl, he, -⟩ := Tree.isEntity_iff.1 ht
    exact hs.of_denotes he
  callee n t ht := by
    obtain ⟨e, rfl, he, -⟩ := Tree.isEntity_iff.1 ht
    exact ⟨rfl, hs.of_denotes he⟩

namespace Tree

mutual

/-- The leaves of a resolved statement are literals, and entities declared before, in it, or in the
library. -/
theorem leaves_of_isResolvedIn : ∀ (t : Tree) {s : Surroundings}, t.IsResolvedIn s → s.Have P →
    (∀ e ∈ t.declaredIn, P e) → (∀ a ∈ t.leaves, a.IsLiteralOrEntity P) ∧ (t.after s).Have P
  | variableDeclaration name initializer, s, ht, hs, hd => by
    obtain ⟨e, rfl, he, -⟩ := isEntity_iff.1 ht.2
    have hname : P e := hd e List.mem_cons_self
    refine ⟨List.forall_mem_append.2 ⟨List.forall_mem_singleton.2 hname, ?_⟩, hs.library, ?_,
      hs.params⟩
    · exact forall_leaves_of_isExpression (Naming.ensures_denoted hs) initializer ht.1
    · refine List.forall_mem_append.2 ⟨hs.declared, List.forall_mem_singleton.2 ?_⟩
      rw [he] at hname
      exact hname
  | functionDeclaration name params body, s, ht, hs, hd => by
    obtain ⟨hname, hparams, hbody⟩ := ht
    obtain ⟨e, rfl, he, -⟩ := isEntity_iff.1 hname
    obtain ⟨hdName, hdParams⟩ := List.forall_mem_append.1 hd
    replace hdName : P e := hdName e List.mem_cons_self
    have horigins : ∀ o ∈ parametersFrom (s.count + 1) params, P o.entity := by
      intro o ho
      refine hdParams o.entity (List.mem_filterMap.2 ⟨entity o.entity, ?_, rfl⟩)
      rw [hparams.eq_entities]
      exact List.mem_map_of_mem ho
    have hleaves : ∀ a ∈ leavesOfAll params, a.IsLiteralOrEntity P := by
      intro a ha
      rw [hparams.eq_entities, leavesOfAll_eq, List.flatMap_map] at ha
      obtain ⟨o, ho, ha⟩ := List.mem_flatMap.1 ha
      rw [List.mem_singleton.1 ha]
      exact horigins o ho
    have hafter : (s.afterFunction (entity e) params).Have P := by
      refine ⟨hs.library, ?_, hs.params⟩
      refine List.forall_mem_append.2 ⟨hs.declared, List.forall_mem_singleton.2 ?_⟩
      rw [he] at hdName
      exact hdName
    have hinside : (s.insideFunction (entity e) params).Have P :=
      ⟨hs.library, hafter.declared, horigins⟩
    simp only [leaves, List.forall_mem_append, List.forall_mem_singleton]
    exact ⟨⟨⟨hdName, hleaves⟩,
      forall_leaves_of_isExpression (Naming.ensures_denoted hinside) body hbody⟩, hafter⟩
  | assignment target source, s, ht, hs, _ => by
    obtain ⟨e, rfl, he, -⟩ := isEntity_iff.1 ht.1
    refine ⟨List.forall_mem_append.2 ⟨List.forall_mem_singleton.2 (hs.of_denotes he), ?_⟩, hs⟩
    exact forall_leaves_of_isExpression (Naming.ensures_denoted hs) source ht.2
  | whileLoop test body, s, ht, hs, hd => by
    obtain ⟨hbody, hafter⟩ := leaves_of_areResolvedIn body ht.2 hs hd
    refine ⟨List.forall_mem_append.2 ⟨?_, hbody⟩, hafter⟩
    exact forall_leaves_of_isExpression (Naming.ensures_denoted hs) test ht.1
  | print argument, s, ht, hs, _ =>
    ⟨forall_leaves_of_isExpression (Naming.ensures_denoted hs) argument ht, hs⟩
  | absent, _, ht, _, _ | literal _, _, ht, _, _ | text _, _, ht, _, _ | list _, _, ht, _, _
  | token _, _, ht, _, _ | entity _, _, ht, _, _ | program _, _, ht, _, _ | call _ _, _, ht, _, _
  | conditional _ _ _, _, ht, _, _ | binary _ _ _, _, ht, _, _ | unary _ _, _, ht, _, _ => ht.elim

theorem leaves_of_areResolvedIn : ∀ (ts : List Tree) {s : Surroundings}, AreResolvedIn ts s →
    s.Have P → (∀ e ∈ declaredInAll ts, P e) →
      (∀ a ∈ leavesOfAll ts, a.IsLiteralOrEntity P) ∧ (afterAll ts s).Have P
  | [], _, _, hs, _ => ⟨by simp [leavesOfAll], hs⟩
  | t :: ts, s, hts, hs, hd => by
    obtain ⟨hd, hds⟩ := List.forall_mem_append.1 hd
    obtain ⟨ht, hafter⟩ := leaves_of_isResolvedIn t hts.1 hs hd
    obtain ⟨hts, hafters⟩ := leaves_of_areResolvedIn ts hts.2 hafter hds
    exact ⟨List.forall_mem_append.2 ⟨ht, hts⟩, hafters⟩

end

/-! ## Entities of a resolved program -/

/-- An entity of the library, or one that the program declares. -/
def Has (r : Tree) (e : Entity) : Prop := (∃ b : Builtin, e = b.entity) ∨ e ∈ r.declaredEntities

/-- The leaves of a resolved program are literals and entities that it declares or the library
holds. -/
theorem leaves_of_isResolvedProgram {r : Tree} (hr : r.IsResolvedProgram) :
    ∀ a ∈ r.leaves, a.IsLiteralOrEntity r.Has := by
  cases r with
  | program statements =>
    have hs : Surroundings.initial.Have (Has (program statements)) :=
      ⟨fun b => .inl ⟨b, rfl⟩, by simp [Surroundings.initial], by simp [Surroundings.initial]⟩
    exact (leaves_of_areResolvedIn statements hr hs fun e he => .inr he).1
  | _ => exact hr.elim

/-- The identity of an entity of a resolved program tells which it is. -/
theorem eq_of_id_eq {r : Tree} (hr : r.IsResolvedProgram) :
    ∀ e e', r.Has e → r.Has e' → e.id = e'.id → e = e' := by
  obtain ⟨hraw, hresolve⟩ := resolve_spelled hr
  obtain ⟨hscoped, hlinked⟩ := (resolve_eq_ok_iff hraw).1 hresolve
  have hresolution := isResolutionOf_linked hraw hscoped
  rw [hlinked] at hresolution
  have hstandard {b : Builtin} {e : Entity} (he : e ∈ r.declaredEntities) :
      b.entity.id ≠ e.id := by
    intro hid
    have hnot := hresolution.not_standard e he
    rw [Entity.isStandard, Entity.builtin?, ← hid, ← Entity.builtin?, Builtin.builtin?_entity]
      at hnot
    cases hnot
  rintro e e' (⟨b, rfl⟩ | he) (⟨b', rfl⟩ | he') hid
  · have hbuiltin : b.entity.builtin? = b'.entity.builtin? := by
      rw [Entity.builtin?, Entity.builtin?, hid]
    rw [Builtin.builtin?_entity, Builtin.builtin?_entity] at hbuiltin
    rw [Option.some.inj hbuiltin]
  · exact absurd hid (hstandard he')
  · exact absurd hid.symm (hstandard he)
  · exact List.inj_on_of_nodup_map hresolution.nodup_ids he he' hid

/-! ## Names and numbers of entities -/

theorem isLeafwise_spelled : IsLeafwise spelled := by
  have hall := eq_map_of_cons (F := spelled) (G := spelledAll) rfl fun _ _ => rfl
  intro t kind fields h
  cases t <;> cases h <;> simp [spelled, node?, Fields.map, Field.map, hall]

theorem isLeafwise_renumber (σ : Nat → Nat) : IsLeafwise (renumber σ) := by
  have hall := eq_map_of_cons (F := renumber σ) (G := renumberAll σ) rfl fun _ _ => rfl
  intro t kind fields h
  cases t <;> cases h <;> simp [renumber, node?, Fields.map, Field.map, hall]

/-- A resolved program is determined by its graph. -/
theorem eq_of_graphText_eq_of_isResolvedProgram {r s : Tree} (hr : r.IsResolvedProgram)
    (hs : s.IsResolvedProgram) (h : r.graphText = s.graphText) : r = s := by
  have hleaves := leaves_of_isResolvedProgram hr
  have hleaves' := leaves_of_isResolvedProgram hs
  have hnode : ∀ {t : Tree}, t.IsResolvedProgram → ∃ x, t.node? = some x := by
    intro t ht
    cases t with
    | program statements => exact ⟨_, rfl⟩
    | _ => exact ht.elim
  obtain ⟨x, hx⟩ := hnode hr
  obtain ⟨y, hy⟩ := hnode hs
  have hspelled : r.spelled = s.spelled := by
    refine eq_of_graphText_eq (eq_of_id_eq hr) (eq_of_id_eq hs) isLeafwise_spelled ?_ hx hy
      (fun a ha => (hleaves a ha).isLegible) (fun a ha => (hleaves' a ha).isLegible) ?_ h
    · intro e e' _ _ hname
      rw [spelled, spelled, hname]
    · intro a ha b hb view hav hbv
      exact congrArg spelled ((hleaves a ha).eq_of_view? (hleaves' b hb) hav hbv)
  have hback := (resolve_spelled hr).2
  rw [hspelled, (resolve_spelled hs).2] at hback
  exact (Except.ok.inj hback).symm

/-! ## Outcomes -/

/-- What the compiler makes of an accepted program, with its entities numbered from anywhere on: the
resolved program, or what the pass makes of it. -/
def IsOutcome (r : Tree) : Prop :=
  ∃ (p : Tree) (n : Nat) (t : Tree) (d : Declarations),
    p.resolveProgram ⟨Scope.root, n⟩ = .ok (t, d) ∧ (r = t ∨ t.optimize? = .ok r)

/-- An outcome is a resolved program with other numbers. -/
theorem exists_of_isOutcome {r : Tree} (hr : r.IsOutcome) :
    ∃ (r₀ : Tree) (n : Nat), r₀.IsResolvedProgram ∧ r = r₀.renumber (· + n) := by
  obtain ⟨p, n, t, d, ht, hr⟩ := hr
  have hp := isProgram_of_resolveProgram ht
  have hshift := resolveProgram_shift n p .initial
  have hinitial : Declarations.initial.shift n = ⟨Scope.root, n⟩ := by
    simp [Declarations.shift, Declarations.initial]
  rw [hinitial, ht] at hshift
  cases hresolve : p.resolveProgram .initial with
  | error e =>
    rw [hresolve] at hshift
    cases hshift
  | ok x =>
    obtain ⟨t₀, d₀⟩ := x
    rw [hresolve] at hshift
    obtain ⟨rfl, -⟩ := Prod.mk.inj (Except.ok.inj hshift)
    have hresolve : p.resolve = .ok t₀ := by rw [resolve, hresolve]; rfl
    obtain ⟨r₀, hoptimize, -, -, hresolved, -⟩ := resolve_spelled_optimize hp hresolve
    rcases hr with rfl | hr
    · obtain ⟨hscoped, rfl⟩ := (resolve_eq_ok_iff hp).1 hresolve
      exact ⟨_, n, isResolvedProgram_linked hp hscoped, rfl⟩
    · have hinjective : Function.Injective fun i => i + n := fun a b h => Nat.add_right_cancel h
      rw [optimize?_renumber hinjective, hoptimize] at hr
      exact ⟨r₀, n, hresolved, (Except.ok.inj hr).symm⟩

theorem exists_bound (es : List Entity) : ∃ bound, ∀ e ∈ es, ∀ i, e.id = .user i → i < bound := by
  induction es with
  | nil => exact ⟨0, by simp⟩
  | cons e es ih =>
    obtain ⟨bound, hbound⟩ := ih
    obtain ⟨top, htop⟩ : ∃ top, ∀ i, e.id = .user i → i < top := by
      cases e.id with
      | library b => exact ⟨0, nofun⟩
      | user index => exact ⟨index + 1, fun i h => by rw [← Entity.Id.user.inj h]; omega⟩
    refine ⟨max top bound, List.forall_mem_cons.2 ⟨fun i hi => ?_, fun e he i hi => ?_⟩⟩
    · exact Nat.lt_of_lt_of_le (htop i hi) (Nat.le_max_left _ _)
    · exact Nat.lt_of_lt_of_le (hbound e he i hi) (Nat.le_max_right _ _)

/-- Numbers from `n` on, below a bound, in place of those from `m` on. The others go out of the way,
so that different numbers stay different. -/
def moved (n m bound i : Nat) : Nat := if n ≤ i ∧ i < n + bound then i - n + m else i + m + bound

/-- Moved numbers stay apart. -/
theorem moved_injective (n m bound : Nat) : Function.Injective (moved n m bound) := by
  intro i j h
  simp only [moved] at h
  split at h <;> split at h <;> omega

/-- A resolved program numbered from anywhere on is isomorphic to itself numbered from elsewhere. -/
theorem isIsomorphic_renumber {r : Tree} (hr : r.IsResolvedProgram) (n m : Nat) :
    (r.renumber (· + n)).IsIsomorphic (r.renumber (· + m)) := by
  obtain ⟨bound, hbound⟩ := exists_bound r.declaredEntities
  refine ⟨moved n m bound, moved_injective n m bound, ?_⟩
  refine ((isLeafwise_renumber (moved n m bound)).comp (isLeafwise_renumber (· + n))).congr
    (isLeafwise_renumber (· + m)) r fun a ha => ?_
  have hleaf := leaves_of_isResolvedProgram hr a ha
  cases a with
  | literal v => rfl
  | entity e =>
    suffices hid : (e.id.renumber (· + n)).renumber (moved n m bound) = e.id.renumber (· + m) by
      simp only [renumber, Entity.renumber, hid]
    rcases hleaf with ⟨b, rfl⟩ | he
    · rfl
    · cases hid : e.id with
      | library b => rfl
      | user i =>
        have hi := hbound e he i hid
        refine congrArg Entity.Id.user ?_
        simp only [moved]
        rw [if_pos (by omega)]
        omega
  | _ => exact hleaf.elim

/-- Two compiled programs have the same graph exactly if they are isomorphic. -/
theorem graphText_eq_iff_isIsomorphic {r s : Tree} (hr : r.IsOutcome) (hs : s.IsOutcome) :
    r.graphText = s.graphText ↔ r.IsIsomorphic s := by
  constructor
  · intro h
    obtain ⟨r₀, n, hr₀, rfl⟩ := exists_of_isOutcome hr
    obtain ⟨s₀, m, hs₀, rfl⟩ := exists_of_isOutcome hs
    have hinjective (k : Nat) : Function.Injective fun i => i + k :=
      fun a b h => Nat.add_right_cancel h
    rw [graphText_renumber (hinjective n), graphText_renumber (hinjective m)] at h
    obtain rfl := eq_of_graphText_eq_of_isResolvedProgram hr₀ hs₀ h
    exact isIsomorphic_renumber hr₀ n m
  · rintro ⟨σ, hσ, rfl⟩
    exact (graphText_renumber hσ r).symm

/-- A program whose parameter hides a library constant, resolved at two times. -/
def shadowing : Tree :=
  let name (x : String) := token ⟨x, none⟩
  program [functionDeclaration (name "f") [name "π"] (name "π"), print (name "π")]

theorem graphText_shadowing_eq_iff :
    shadowing.linked.IsOutcome ∧ (shadowing.linked.renumber (· + 3)).IsOutcome ∧
      (shadowing.linked.graphText = (shadowing.linked.renumber (· + 3)).graphText ↔
        shadowing.linked.IsIsomorphic (shadowing.linked.renumber (· + 3))) := by
  have hfirst : shadowing.linked.IsOutcome := ⟨shadowing, 0, _, _, rfl, .inl rfl⟩
  have hsecond : (shadowing.linked.renumber (· + 3)).IsOutcome :=
    ⟨shadowing, 3, _, _, rfl, .inl rfl⟩
  exact ⟨hfirst, hsecond, graphText_eq_iff_isIsomorphic hfirst hsecond⟩

end Tree
end Quill
