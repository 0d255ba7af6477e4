import Quill.Proofs.Scope.Relabeling

/-!
# Resolution does not depend on the numbers of entities

Which numbers the declared entities get is of no account: where they are counted from a later number
on, resolution answers the same tree with its entities renumbered, and reports the same errors.

## Main definitions

* `Entity.renumber`, `Tree.renumber` — other numbers for the entities that programs declare.
* `Tree.IsIsomorphic` — equality up to the numbers of declared entities.
* `Relabeling.numbers` — other numbers as a case of other names and identities.
* `Declarations.shift` — declarations whose entities are numbered from a later number on.
-/

namespace Quill

/-- Another number for a declared entity. -/
def Entity.Id.renumber (σ : Nat → Nat) : Entity.Id → Entity.Id
  | library builtin => .library builtin
  | user index => .user (σ index)

/-- A declared entity under another number; library entities stay. -/
def Entity.renumber (σ : Nat → Nat) (e : Entity) : Entity := { e with id := e.id.renumber σ }

/-- The bindings of a frame under other numbers. -/
def Frame.renumber (σ : Nat → Nat) (frame : Frame) : Frame :=
  frame.map fun b => (b.1, b.2.renumber σ)

/-- The bindings of a scope under other numbers. -/
def Scope.renumber (σ : Nat → Nat) (s : Scope) : Scope :=
  ⟨Frame.renumber σ s.frame, s.outer.map (Frame.renumber σ)⟩

namespace Tree

mutual

/-- A tree with its declared entities under other numbers. -/
def renumber (σ : Nat → Nat) : Tree → Tree
  | entity e => entity (e.renumber σ)
  | list items => list (renumberAll σ items)
  | program statements => program (renumberAll σ statements)
  | variableDeclaration name initializer =>
    variableDeclaration (name.renumber σ) (initializer.renumber σ)
  | functionDeclaration name params body =>
    functionDeclaration (name.renumber σ) (renumberAll σ params) (body.renumber σ)
  | assignment target source => assignment (target.renumber σ) (source.renumber σ)
  | whileLoop test body => whileLoop (test.renumber σ) (renumberAll σ body)
  | print argument => print (argument.renumber σ)
  | call callee args => call (callee.renumber σ) (renumberAll σ args)
  | conditional test consequent alternate =>
    conditional (test.renumber σ) (consequent.renumber σ) (alternate.renumber σ)
  | binary operator left right => binary operator (left.renumber σ) (right.renumber σ)
  | unary operator operand => unary operator (operand.renumber σ)
  | absent => absent
  | literal value => literal value
  | text value => text value
  | token t => token t

/-- Trees with their declared entities under other numbers. -/
def renumberAll (σ : Nat → Nat) : List Tree → List Tree
  | [] => []
  | t :: ts => t.renumber σ :: renumberAll σ ts

end

/-- Equality up to the numbers of declared entities: different entities stay different, and those of
the library stay what they are. -/
def IsIsomorphic (t u : Tree) : Prop := ∃ σ : Nat → Nat, σ.Injective ∧ t.renumber σ = u

theorem renumberAll_append (σ : Nat → Nat) (ts us : List Tree) :
    renumberAll σ (ts ++ us) = renumberAll σ ts ++ renumberAll σ us := by
  induction ts with
  | nil => rfl
  | cons t ts ih => simp only [List.cons_append, renumberAll, ih]

theorem renumberAll_flatten (σ : Nat → Nat) (tss : List (List Tree)) :
    renumberAll σ tss.flatten = (tss.map (renumberAll σ)).flatten := by
  induction tss with
  | nil => rfl
  | cons ts tss ih =>
    rw [List.flatten_cons, renumberAll_append, ih, List.map_cons, List.flatten_cons]

/-! ## Other numbers as other identities -/

mutual

/-- Other numbers are a replacement of entities. -/
theorem renumber_eq_mapEntities (σ : Nat → Nat) : ∀ t : Tree,
    t.renumber σ = t.mapEntities (Entity.renumber σ)
  | list items => by simp only [renumber, mapEntities, renumberAll_eq_mapEntitiesInAll σ items]
  | program statements => by
    simp only [renumber, mapEntities, renumberAll_eq_mapEntitiesInAll σ statements]
  | variableDeclaration name initializer => by
    simp only [renumber, mapEntities, renumber_eq_mapEntities σ name,
      renumber_eq_mapEntities σ initializer]
  | functionDeclaration name params body => by
    simp only [renumber, mapEntities, renumber_eq_mapEntities σ name,
      renumberAll_eq_mapEntitiesInAll σ params, renumber_eq_mapEntities σ body]
  | assignment target source => by
    simp only [renumber, mapEntities, renumber_eq_mapEntities σ target,
      renumber_eq_mapEntities σ source]
  | whileLoop test body => by
    simp only [renumber, mapEntities, renumber_eq_mapEntities σ test,
      renumberAll_eq_mapEntitiesInAll σ body]
  | print argument => by simp only [renumber, mapEntities, renumber_eq_mapEntities σ argument]
  | call callee args => by
    simp only [renumber, mapEntities, renumber_eq_mapEntities σ callee,
      renumberAll_eq_mapEntitiesInAll σ args]
  | conditional test consequent alternate => by
    simp only [renumber, mapEntities, renumber_eq_mapEntities σ test,
      renumber_eq_mapEntities σ consequent, renumber_eq_mapEntities σ alternate]
  | binary operator left right => by
    simp only [renumber, mapEntities, renumber_eq_mapEntities σ left,
      renumber_eq_mapEntities σ right]
  | unary operator operand => by
    simp only [renumber, mapEntities, renumber_eq_mapEntities σ operand]
  | literal _ | entity _ | token _ | text _ | absent => rfl

theorem renumberAll_eq_mapEntitiesInAll (σ : Nat → Nat) : ∀ ts : List Tree,
    renumberAll σ ts = mapEntitiesInAll (Entity.renumber σ) ts
  | [] => rfl
  | t :: ts => by
    simp only [renumberAll, mapEntitiesInAll, renumber_eq_mapEntities σ t,
      renumberAll_eq_mapEntitiesInAll σ ts]

end

end Tree

/-- Other numbers for declared entities, and the same names. -/
def Relabeling.numbers (σ : Nat → Nat) : Relabeling :=
  ⟨id, Function.injective_id, Entity.Id.renumber σ⟩

section
variable (σ : Nat → Nat)

theorem Relabeling.numbers_name : (numbers σ).name = id := rfl

theorem Tree.mapEntities_numbers : mapEntities (Entity.relabel (.numbers σ)) = renumber σ :=
  (funext (renumber_eq_mapEntities σ)).symm

/-! ## Scopes -/

theorem Frame.lookup_renumber (frame : Frame) (name : String) :
    (renumber σ frame).lookup name = (frame.lookup name).map (Entity.renumber σ) :=
  lookup_relabel (ρ := .numbers σ) frame name

namespace Scope

/-- A name denotes its entity under the other number. -/
theorem lookup?_renumber (s : Scope) (name : String) :
    (s.renumber σ).lookup? name = (s.lookup? name).map (Entity.renumber σ) :=
  lookup?_relabel (ρ := .numbers σ) s name

@[simp] theorem declares_renumber (s : Scope) (name : String) :
    (s.renumber σ).declares name = s.declares name :=
  declares_relabel (ρ := .numbers σ) s name

@[simp] theorem renumber_bind (s : Scope) (name : String) (e : Entity) :
    (s.bind name e).renumber σ = (s.renumber σ).bind name (e.renumber σ) :=
  relabel_bind (ρ := .numbers σ) s name e

@[simp] theorem renumber_root : root.renumber σ = root := rfl

/-- Which names are new does not depend on numbers. -/
theorem requireNew_renumber (s : Scope) (t : Token) :
    (s.renumber σ).requireNew t = s.requireNew t := by
  simp only [requireNew, declares_renumber]

end Scope

/-! ## Resolution -/

namespace Tree

theorem resolveTarget_renumber (s : Scope) (target : Tree) :
    resolveTarget (s.renumber σ) target = Entity.renumber σ <$> resolveTarget s target := by
  have h := (RunAlike.resolveTarget (ρ := .numbers σ) s target).eq_map
  rwa [Relabeling.numbers_name, rename_id] at h

/-- Expressions are resolved to the renumbered entities, or rejected for the same reason. -/
theorem resolveExpression_renumber (s : Scope) (t : Tree) :
    t.resolveExpression (s.renumber σ) = renumber σ <$> t.resolveExpression s := by
  have h := (resolveExpression_relabel (ρ := .numbers σ) s t).eq_map
  rwa [Relabeling.numbers_name, rename_id, mapEntities_numbers] at h

end Tree

end

/-- The same declarations with their entities numbered from a later number on. -/
def Declarations.shift (m : Nat) (d : Declarations) : Declarations :=
  ⟨d.scope.renumber (· + m), d.next + m⟩

@[simp] theorem Declarations.scope_shift (m : Nat) (d : Declarations) :
    (d.shift m).scope = d.scope.renumber (· + m) := rfl

/-- Where entities are numbered from a later number on, resolution answers the renumbered program,
or the same error. -/
theorem Tree.resolveProgram_shift (m : Nat) (p : Tree) (d : Declarations) :
    p.resolveProgram (d.shift m) =
      Prod.map (renumber (· + m)) (Declarations.shift m) <$> p.resolveProgram d := by
  have h := (resolveProgram_relabel (ρ := .numbers (· + m)) (fun _ => rfl) p d).eq_map
  rwa [Relabeling.numbers_name, rename_id, mapEntities_numbers] at h

end Quill
