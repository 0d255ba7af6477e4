import Quill.Graph
import Quill.Proofs.Scope.Renumbering

/-!
# Graphs do not show the numbers of entities

A graph numbers the objects of a tree by itself, in the order of its walk. The numbers that entities
got at their declaration only tell them apart, so a tree whose declared entities have other numbers
has the same graph.

## Main definitions

* `Numbering.renumber` — a numbering that has met the same entities under other numbers.
-/

namespace Quill

section
variable (σ : Nat → Nat)

/-- A numbering that has met the same entities under other numbers. -/
def Numbering.renumber (n : Numbering) : Numbering :=
  ⟨n.count, n.entities.map fun (id, number) => (id.renumber σ, number)⟩

/-- A part of a graph behind which entities have other numbers. -/
def Rendering.renumber (r : Rendering) : Rendering := { r with numbering := r.numbering.renumber σ }

/-- Parts of a graph behind which entities have other numbers. -/
def ListRendering.renumber (r : ListRendering) : ListRendering :=
  { r with numbering := r.numbering.renumber σ }

end

variable {σ : Nat → Nat}

/-- Other numbers, as long as they stay apart, keep identities apart. -/
theorem Entity.Id.renumber_injective (hσ : σ.Injective) {a b : Entity.Id}
    (h : a.renumber σ = b.renumber σ) : a = b := by
  cases a <;> cases b <;> simp_all [renumber, hσ.eq_iff]

/-- An entity that was met is found under its other number. -/
theorem lookup_renumber_id (hσ : σ.Injective) (entities : List (Entity.Id × Nat))
    (id : Entity.Id) :
    (entities.map fun (id, number) => (id.renumber σ, number)).lookup (id.renumber σ) =
      entities.lookup id := by
  induction entities with
  | nil => rfl
  | cons entry entities ih =>
    obtain ⟨other, number⟩ := entry
    have heq : (id.renumber σ == other.renumber σ) = (id == other) := by
      rw [Bool.eq_iff_iff, beq_iff_eq, beq_iff_eq]
      exact ⟨Entity.Id.renumber_injective hσ, congrArg _⟩
    rw [List.map_cons, List.lookup_cons, List.lookup_cons, heq, ih]

theorem Numbering.addNode_renumber (n : Numbering) :
    (n.renumber σ).addNode = n.addNode.renumber σ := rfl

theorem Numbering.addEntity_renumber (n : Numbering) (id : Entity.Id) :
    (n.renumber σ).addEntity (id.renumber σ) = (n.addEntity id).renumber σ := by
  simp [addEntity, renumber, next]

/-- An entity is met again exactly when it is met again under its other number. -/
theorem Entity.render_renumber (hσ : σ.Injective) (e : Entity) (n : Numbering) :
    (e.renumber σ).render (n.renumber σ) = (e.render n).renumber σ := by
  have hlookup := lookup_renumber_id hσ n.entities e.id
  have hadd := n.addEntity_renumber e.id (σ := σ)
  simp only [render, Entity.renumber, Numbering.renumber] at hlookup hadd ⊢
  rw [hlookup]
  cases n.entities.lookup e.id with
  | some number => rfl
  | none =>
    dsimp only
    rw [hadd]
    rfl

namespace Tree

mutual

/-- The walk through a tree with other numbers shows the same. -/
theorem render_renumber (hσ : σ.Injective) : ∀ (t : Tree) (n : Numbering),
    (t.renumber σ).render (n.renumber σ) = (t.render n).renumber σ
  | entity e, n => e.render_renumber hσ n
  | list items, n => by
    simp only [Tree.renumber, render, renderAll_renumber hσ items]
    rfl
  | program statements, n => by
    simp only [Tree.renumber, render, Numbering.addNode_renumber, renderAll_renumber hσ statements]
    rfl
  | variableDeclaration name initializer, n => by
    simp only [Tree.renumber, render, Numbering.addNode_renumber, render_renumber hσ name,
      Rendering.renumber, render_renumber hσ initializer]
    rfl
  | functionDeclaration name params body, n => by
    simp only [Tree.renumber, render, Numbering.addNode_renumber, render_renumber hσ name,
      Rendering.renumber, renderAll_renumber hσ params, ListRendering.renumber,
      render_renumber hσ body]
    rfl
  | assignment target source, n => by
    simp only [Tree.renumber, render, Numbering.addNode_renumber, render_renumber hσ target,
      Rendering.renumber, render_renumber hσ source]
    rfl
  | whileLoop test body, n => by
    simp only [Tree.renumber, render, Numbering.addNode_renumber, render_renumber hσ test,
      Rendering.renumber, renderAll_renumber hσ body]
    rfl
  | print argument, n => by
    simp only [Tree.renumber, render, Numbering.addNode_renumber, render_renumber hσ argument]
    rfl
  | call callee args, n => by
    simp only [Tree.renumber, render, Numbering.addNode_renumber, render_renumber hσ callee,
      Rendering.renumber, renderAll_renumber hσ args]
    rfl
  | conditional test consequent alternate, n => by
    simp only [Tree.renumber, render, Numbering.addNode_renumber, render_renumber hσ test,
      Rendering.renumber, render_renumber hσ consequent, render_renumber hσ alternate]
    rfl
  | binary operator left right, n => by
    simp only [Tree.renumber, render, Numbering.addNode_renumber, render_renumber hσ left,
      Rendering.renumber, render_renumber hσ right]
    rfl
  | unary operator operand, n => by
    simp only [Tree.renumber, render, Numbering.addNode_renumber, render_renumber hσ operand]
    rfl
  | absent, _ | literal _, _ | text _, _ | token _, _ => rfl

theorem renderAll_renumber (hσ : σ.Injective) : ∀ (ts : List Tree) (n : Numbering),
    renderAll (renumberAll σ ts) (n.renumber σ) = (renderAll ts n).renumber σ
  | [], _ => rfl
  | t :: ts, n => by
    simp only [renumberAll, renderAll, render_renumber hσ t, Rendering.renumber,
      renderAll_renumber hσ ts]
    rfl

end

/-- A tree with other numbers has the same graph. -/
theorem graphText_renumber (hσ : σ.Injective) (t : Tree) :
    (t.renumber σ).graphText = t.graphText := by
  have h := render_renumber hσ t .empty
  rw [graphText, graphText, graph, graph]
  exact congrArg (fun r => String.intercalate "\n" r.lines) h

end Tree
end Quill
