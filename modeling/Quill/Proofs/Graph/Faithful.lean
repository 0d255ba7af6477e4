import Mathlib.Data.List.Forall2
import Quill.Proofs.Graph.Walk

/-!
# Graphs determine trees

What is shown of a tree can be followed through the lines of its graph: a node by the line with its
number, part by part, and an entity by the line that its first reference brought. Two trees of which
the same is shown, in the same lines, are the same but for what their leaves do not show.

## Main definitions

* `Fields.Rel` — fields of which the parts are related.
* `Tree.IsShownIn` — what is shown of a tree, with the lines of its objects, in a graph.
-/

namespace Quill

open Text Quill.Graph

variable {L : List String} {E : Entity → Prop}

/-! ## Shown trees -/

/-- Fields of which the parts are related. -/
def Field.Rel {α β : Type} (R : α → β → Prop) : Field α → Field β → Prop
  | text value, text value' => value = value'
  | part a, part b => R a b
  | parts as, parts bs => List.Forall₂ R as bs
  | _, _ => False

/-- Fields of the same names of which the parts are related. -/
def Fields.Rel {α β : Type} (R : α → β → Prop) : Fields α → Fields β → Prop :=
  List.Forall₂ fun f g => f.1 = g.1 ∧ f.2.Rel R g.2

section
variable {α β γ : Type} {R R' : α → β → Prop} {F : α → γ}

theorem map_eq_of_forall₂ {as bs : List α} {vs : List β} (h : List.Forall₂ R as vs)
    (h' : List.Forall₂ R' bs vs) (hF : ∀ a ∈ as, ∀ b ∈ bs, ∀ v, R a v → R' b v → F a = F b) :
    as.map F = bs.map F := by
  induction h generalizing bs with
  | nil =>
    cases h'
    rfl
  | cons ha has ih =>
    cases h' with
    | cons hb hbs =>
      rw [List.map_cons, List.map_cons]
      congr 1
      · exact hF _ List.mem_cons_self _ List.mem_cons_self _ ha hb
      · exact ih hbs fun a ha' b hb' => hF a (List.mem_cons_of_mem _ ha') b
          (List.mem_cons_of_mem _ hb')

/-- Fields related to the same are the same, where their parts are. -/
theorem Field.map_eq_of_rel {f g : Field α} {v : Field β} (h : f.Rel R v) (h' : g.Rel R' v)
    (hF : ∀ a ∈ f.elements, ∀ b ∈ g.elements, ∀ v, R a v → R' b v → F a = F b) :
    f.map F = g.map F := by
  cases v with
  | text value =>
    cases f <;> cases h
    cases g <;> cases h'
    rfl
  | part v =>
    cases f with
    | part a =>
      cases g with
      | part b =>
        exact congrArg part (hF a (List.mem_singleton_self a) b (List.mem_singleton_self b) v h h')
      | text _ | parts _ => cases h'
    | text _ | parts _ => cases h
  | parts vs =>
    cases f with
    | parts as =>
      cases g with
      | parts bs => exact congrArg parts (map_eq_of_forall₂ h h' hF)
      | text _ | part _ => cases h'
    | text _ | part _ => cases h

theorem Fields.map_eq_of_rel {fs gs : Fields α} {vs : Fields β} (h : fs.Rel R vs)
    (h' : gs.Rel R' vs)
    (hF : ∀ f ∈ fs, ∀ g ∈ gs, ∀ a ∈ f.2.elements, ∀ b ∈ g.2.elements, ∀ v, R a v → R' b v →
      F a = F b) : fs.map F = gs.map F := by
  refine map_eq_of_forall₂ h h' fun f hf g hg v hfv hgv => ?_
  obtain ⟨name, f⟩ := f
  obtain ⟨name', g⟩ := g
  obtain rfl : name = name' := hfv.1.trans hgv.1.symm
  exact congrArg (name, ·) (Field.map_eq_of_rel hfv.2 hgv.2 (hF _ hf _ hg))

end

namespace Tree

/-- In the graph stand, behind the entities met before, the lines that the tree brings; this is what
is shown of the tree. -/
def IsShownIn (L : List String) (E : Entity → Prop) (t : Tree) (view : String) : Prop :=
  ∃ n : Numbering, n.IsRecorded L E ∧ (t.render n).lines <+: L.drop n.count ∧
    (t.render n).view = view

variable (hE : ∀ e e', E e → E e' → e.id = e'.id → e = e')
include hE

/-- Trees of a list are shown in it in order, where their lines stand in the graph. -/
theorem shown_list {ts : List Tree} (hleaves : ∀ t ∈ ts, ∀ a ∈ t.leaves, a.IsLegible E)
    {n : Numbering} (hn : n.IsRecorded L E) (hlines : (renderAll ts n).lines <+: L.drop n.count) :
    List.Forall₂ (IsShownIn L E) ts (renderAll ts n).views := by
  induction ts generalizing n with
  | nil => exact .nil
  | cons t ts ih =>
    rw [List.forall_mem_cons] at hleaves
    obtain ⟨hfirst, hrest⟩ := prefix_of_append_prefix_drop hlines
    have hstep := (isWalkedBy (isKept_advances (L := L) hE) t hleaves.1 n).2
    rw [← hstep.count_eq] at hrest
    exact .cons ⟨n, hn, hfirst, rfl⟩ (ih hleaves.2 (hstep.isRecorded hfirst hn) hrest)

/-- The fields of a node show their parts in order, where the lines of these stand in the graph. -/
theorem shown_fields {fields : Fields Tree}
    (hleaves : ∀ f ∈ fields, f.2.All fun t => ∀ a ∈ t.leaves, a.IsLegible E)
    {n : Numbering} (hn : n.IsRecorded L E)
    (hlines : (renderFields fields n).lines <+: L.drop n.count) :
    fields.Rel (IsShownIn L E) (renderFields fields n).views := by
  induction fields generalizing n with
  | nil => exact .nil
  | cons f fields ih =>
    obtain ⟨name, f⟩ := f
    rw [List.forall_mem_cons] at hleaves
    obtain ⟨hfirst, hrest⟩ := prefix_of_append_prefix_drop hlines
    have hkept := isKept_advances (L := L) hE
    have hstep :=
      (walked_field hkept (Field.all_iff.2 fun t _ => isWalkedBy hkept t) hleaves.1 n).2
    rw [← hstep.count_eq] at hrest
    refine .cons ⟨rfl, ?_⟩ (ih hleaves.2 (hstep.isRecorded hfirst hn) hrest)
    cases f with
    | text value => rfl
    | part t => exact ⟨n, hn, hfirst, rfl⟩
    | parts ts => exact shown_list hE hleaves.1 hn hfirst

/-- Of a node its number is shown, and the line with this number shows the parts. -/
theorem IsShownIn.node {t : Tree} {kind : String} {fields : Fields Tree} {view : String}
    (ht : t.node? = some (kind, fields)) (hleaves : ∀ a ∈ t.leaves, a.IsLegible E)
    (h : t.IsShownIn L E view) :
    ∃ number views, view = reference number ∧ HasObject L number kind views ∧
      (∀ f ∈ views, f.2.All IsPlain) ∧ views.signature = fields.signature ∧
        fields.Rel (IsShownIn L E) views := by
  obtain ⟨n, hn, hlines, rfl⟩ := h
  have hparts : ∀ f ∈ fields, f.2.All fun u => ∀ a ∈ u.leaves, a.IsLegible E := by
    intro f hf
    refine Field.all_iff.2 fun u hu a ha => hleaves a ?_
    exact Field.all_iff.1 (mem_leaves_of_node? ht hf) u hu a ha
  have hkept := isKept_advances (L := L) hE
  have hplain := (walked_fields hkept
    (fun f _ => Field.all_iff.2 fun t _ => isWalkedBy hkept t) hparts n.addNode).1
  rw [render_of_node? ht] at hlines ⊢
  obtain ⟨hhead, hrest⟩ := prefix_of_cons_prefix_drop hlines
  exact ⟨n.next, _, rfl, ⟨n.count, rfl, hhead⟩, hplain,
    signature_views_renderFields _ _, shown_fields hE hparts (n := n.addNode) hn hrest⟩

omit hE in
/-- Of an entity its number is shown, and the line with this number shows the entity. -/
theorem IsShownIn.entity {e : Entity} {view : String} (he : E e)
    (h : (Tree.entity e).IsShownIn L E view) :
    ∃ number, view = reference number ∧ HasObject L number e.kindName e.shownFields := by
  obtain ⟨n, hn, hlines, rfl⟩ := h
  simp only [render, Entity.render] at hlines ⊢
  split at hlines
  · exact ⟨_, rfl, hn e.id _ ‹_› e he rfl⟩
  · refine ⟨n.next, rfl, n.count, rfl, ?_⟩
    rw [e.views_shownFields]
    exact (prefix_of_cons_prefix_drop hlines).1

omit hE in
/-- Of a leaf is shown what stands in its place, or it is an entity. -/
theorem IsShownIn.leaf {a : Tree} {view : String} (ha : a.node? = none)
    (hlegible : a.IsLegible E) (h : a.IsShownIn L E view) :
    (a.view? = some view ∧ view.toList.head? ≠ some '#') ∨ ∃ e, a = Tree.entity e ∧ E e := by
  obtain ⟨n, -, -, rfl⟩ := h
  cases a with
  | literal v => exact .inl ⟨rfl, v.isPlain_view.2⟩
  | token t => exact .inl ⟨rfl, hlegible.2⟩
  | entity e => exact .inr ⟨e, rfl, hlegible⟩
  | absent | text _ | list _ => exact hlegible.elim
  | _ => cases ha

/-- Of a node is not shown what is shown of a leaf. -/
theorem node_ne_leaf {E' : Entity → Prop} {t a : Tree} {view : String} {x : String × Fields Tree}
    (ht : t.node? = some x) (hleaves : ∀ b ∈ t.leaves, b.IsLegible E) (ha : a.node? = none)
    (hlegible : a.IsLegible E') (h : t.IsShownIn L E view) : ¬ a.IsShownIn L E' view := by
  intro h'
  obtain ⟨kind, fields⟩ := x
  obtain ⟨number, views, rfl, hobject, -⟩ := h.node hE ht hleaves
  rcases h'.leaf ha hlegible with ⟨-, hne⟩ | ⟨e, rfl, he⟩
  · exact hne (head?_reference number)
  · obtain ⟨number', hnumber, hobject'⟩ := h'.entity he
    obtain rfl := reference_injective hnumber
    obtain ⟨heq, -⟩ := hobject.eq (List.mem_append_left _ (kind_mem_of_node? ht))
      (List.mem_append_right _ e.kindName_mem) hobject'
    exact kind_ne_kindName (kind_mem_of_node? ht) e heq

omit hE in
/-- The graph of a node is not empty, and shows the node as its first object. -/
theorem isShownIn_graph {t : Tree} {x : String × Fields Tree} (ht : t.node? = some x) :
    t.graph ≠ [] ∧ t.IsShownIn t.graph E (reference 1) := by
  obtain ⟨kind, fields⟩ := x
  refine ⟨?_, .empty, ?_, List.prefix_rfl, ?_⟩
  · rw [graph, render_of_node? ht]
    exact List.cons_ne_nil _ _
  · intro id number h
    cases h
  · rw [render_of_node? ht]
    rfl

/-- A line of a graph is one line. -/
theorem noBreak_graph {t : Tree} (hleaves : ∀ a ∈ t.leaves, a.IsLegible E) :
    ∀ l ∈ t.graph, '\n' ∉ l.toList :=
  (isWalkedBy (isKept_advances (L := []) hE) t hleaves .empty).2.noBreak

section
variable {E' : Entity → Prop} (hE' : ∀ e e', E' e → E' e' → e.id = e'.id → e = e')
  {F : Tree → Tree} (hF : IsLeafwise F)
  (hentity : ∀ e e' : Entity, E e → E' e' → e.name = e'.name →
    F (Tree.entity e) = F (Tree.entity e'))
include hentity

omit hE in
/-- Leaves of which the same is shown are the same, up to what cannot be told from them. -/
theorem eq_of_isShownIn_leaf {a b : Tree} {view : String} (ha : a.node? = none)
    (hb : b.node? = none) (hlegible : a.IsLegible E) (hlegible' : b.IsLegible E')
    (hview : a.view? = some view → b.view? = some view → F a = F b)
    (h : a.IsShownIn L E view) (h' : b.IsShownIn L E' view) : F a = F b := by
  rcases h.leaf ha hlegible with ⟨hav, hne⟩ | ⟨e, rfl, he⟩ <;>
    rcases h'.leaf hb hlegible' with ⟨hbv, hne'⟩ | ⟨e', rfl, he'⟩
  · exact hview hav hbv
  · obtain ⟨number, rfl, -⟩ := h'.entity he'
    exact absurd (head?_reference number) hne
  · obtain ⟨number, rfl, -⟩ := h.entity he
    exact absurd (head?_reference number) hne'
  · obtain ⟨number, rfl, hobject⟩ := h.entity he
    obtain ⟨number', hnumber, hobject'⟩ := h'.entity he'
    obtain rfl := reference_injective hnumber
    obtain ⟨-, hchars⟩ := hobject.eq (List.mem_append_right _ e.kindName_mem)
      (List.mem_append_right _ e'.kindName_mem) hobject'
    exact hentity e e' he he' (Entity.name_eq_of_fieldChars_eq hchars)

include hE' hF

/-- Trees of which the same is shown in a graph are the same, up to what cannot be told from their
leaves. -/
theorem eq_of_isShownIn : ∀ t u : Tree, ∀ view : String,
    (∀ a ∈ t.leaves, a.IsLegible E) → (∀ b ∈ u.leaves, b.IsLegible E') →
    (∀ a ∈ t.leaves, ∀ b ∈ u.leaves, ∀ v, a.view? = some v → b.view? = some v → F a = F b) →
    t.IsShownIn L E view → u.IsShownIn L E' view → F t = F u := by
  refine node_induction ?_ ?_
  · intro a ha u view hleaves hleaves' hviews h h'
    have hmem : a ∈ a.leaves := by rw [leaves_of_leaf ha]; exact List.mem_singleton_self a
    cases hu : u.node? with
    | some x => exact absurd h (node_ne_leaf hE' hu hleaves' ha (hleaves a hmem) h')
    | none =>
      have hmem' : u ∈ u.leaves := by rw [leaves_of_leaf hu]; exact List.mem_singleton_self u
      exact eq_of_isShownIn_leaf hentity ha hu (hleaves a hmem) (hleaves' u hmem')
        (hviews a hmem u hmem' view) h h'
  · intro t kind fs ht ih u view hleaves hleaves' hviews h h'
    cases hu : u.node? with
    | none =>
      have hmem : u ∈ u.leaves := by rw [leaves_of_leaf hu]; exact List.mem_singleton_self u
      exact absurd h' (node_ne_leaf hE ht hleaves hu (hleaves' u hmem) h)
    | some x =>
      -- both are nodes, and the line with the number that is shown is the line of both
      obtain ⟨kind', gs⟩ := x
      obtain ⟨number, vs, rfl, hobject, hplain, hsignature, hrel⟩ := h.node hE ht hleaves
      obtain ⟨number', vs', hnumber, hobject', hplain', hsignature', hrel'⟩ :=
        h'.node hE' hu hleaves'
      obtain rfl := reference_injective hnumber
      obtain ⟨rfl, hchars⟩ := hobject.eq (List.mem_append_left _ (kind_mem_of_node? ht))
        (List.mem_append_left _ (kind_mem_of_node? hu)) hobject'
      have hsame : vs.signature = vs'.signature := by
        rw [hsignature, hsignature', signature_eq_of_node? ht hu]
      obtain rfl := fieldChars_inj hsame hplain hplain' hchars
      have hfields : fs.map F = gs.map F := by
        refine Fields.map_eq_of_rel hrel hrel' ?_
        intro f hf g hg a ha b hb v hav hbv
        have hleft := Field.all_iff.1 (mem_leaves_of_node? ht hf) a ha
        have hright := Field.all_iff.1 (mem_leaves_of_node? hu hg) b hb
        exact Field.all_iff.1 (ih f hf) a ha b v (fun x hx => hleaves x (hleft x hx))
          (fun x hx => hleaves' x (hright x hx))
          (fun x hx y hy => hviews x (hleft x hx) y (hright y hy)) hav hbv
      exact node?_inj (hF t kind fs ht) (hfields ▸ hF u kind gs hu)

/-- Trees with the same graph are the same, up to what cannot be told from their leaves. -/
theorem eq_of_graphText_eq {t u : Tree} {x y : String × Fields Tree} (ht : t.node? = some x)
    (hu : u.node? = some y) (hleaves : ∀ a ∈ t.leaves, a.IsLegible E)
    (hleaves' : ∀ b ∈ u.leaves, b.IsLegible E')
    (hviews : ∀ a ∈ t.leaves, ∀ b ∈ u.leaves, ∀ v, a.view? = some v → b.view? = some v → F a = F b)
    (h : t.graphText = u.graphText) : F t = F u := by
  obtain ⟨hne, hshown⟩ := isShownIn_graph (E := E) ht
  obtain ⟨hne', hshown'⟩ := isShownIn_graph (E := E') hu
  have hlines : t.graph = u.graph :=
    join_lines_inj hne hne' (noBreak_graph hE hleaves) (noBreak_graph hE' hleaves') h
  rw [← hlines] at hshown'
  exact eq_of_isShownIn hE hE' hF hentity t u _ hleaves hleaves' hviews hshown hshown'

end

end Tree
end Quill
