import Mathlib.Data.List.Dedup
import Mathlib.Data.List.Perm.Subperm
import Quill.Proofs.Graph.Faithful
import Quill.Proofs.Optimize.Calls
import Quill.Proofs.Optimize.Fault
import Quill.Proofs.Text.Place

/-!
# The size of a graph

A graph has one line for every node of the tree, and one for every entity, however often the tree
refers to it. The pass leaves no more nodes and refers to no other entities, so the graph of a
program has no more lines behind it, although a shared entity does not count more than once in
either graph.

## Main definitions

* `Tree.referredIds` — the identities of the entities that trees refer to.
* `Counts` — what the walk has counted from one numbering to another one.
-/

namespace Quill

open Text Quill.Graph

/-- The identities that have a number. -/
def Numbering.ids (n : Numbering) : List Entity.Id := n.entities.map Prod.fst

/-- An entity has no number exactly if it was not met. -/
theorem Numbering.lookup_eq_none_iff (n : Numbering) {id : Entity.Id} :
    n.entities.lookup id = none ↔ id ∉ n.ids := by
  rw [List.lookup_eq_none_iff]
  constructor
  · intro h hid
    obtain ⟨entry, hentry, rfl⟩ := List.mem_map.1 hid
    simpa using h entry hentry
  · intro h entry hentry
    rw [bne_iff_ne]
    rintro rfl
    exact h (List.mem_map_of_mem hentry)

namespace Tree

/-- The identities of the entities that trees refer to, one for each reference. -/
def referredIds (ts : List Tree) : List Entity.Id :=
  ((partsOfAll ts).filterMap entity?).map Entity.id

theorem referredIds_append (ts us : List Tree) :
    referredIds (ts ++ us) = referredIds ts ++ referredIds us := by
  simp [referredIds, partsOfAll_append]

theorem mem_referredIds_iff {t : Tree} {id : Entity.Id} :
    id ∈ referredIds [t] ↔ ∃ e, entity e ∈ t.parts ∧ e.id = id := by
  have hentity : ∀ s : Tree, ∀ e, s.entity? = some e ↔ s = entity e := by
    intro s e
    cases s <;> simp [entity?]
  simp [referredIds, hentity]

theorem entity?_of_node? {t : Tree} {x : String × Fields Tree} (h : t.node? = some x) :
    t.entity? = none := by
  cases t <;> first | rfl | cases h

end Tree

open Quill.Tree

/-! ## Counting along the walk -/

/-- The walk has numbered the entities that the trees refer to, each of them once, and has brought a
line for each of those that had no number and for each node. -/
structure Counts (n : Numbering) (ts : List Tree) (ls : List String) (n' : Numbering) : Prop where
  noBreak : ∀ l ∈ ls, '\n' ∉ l.toList
  nodup : n.ids.Nodup → n'.ids.Nodup
  mem_ids : ∀ id, id ∈ n'.ids ↔ id ∈ n.ids ∨ id ∈ referredIds ts
  length_eq : ls.length + n.ids.length = (partsOfAll ts).countP isNode + n'.ids.length

namespace Counts

variable {n n' n'' : Numbering} {ts us : List Tree} {ls ls' : List String}

theorem nil (n : Numbering) : Counts n [] [] n := ⟨by simp, id, by simp [referredIds], by simp⟩

theorem append (h : Counts n ts ls n') (h' : Counts n' us ls' n'') :
    Counts n (ts ++ us) (ls ++ ls') n'' where
  noBreak := List.forall_mem_append.2 ⟨h.noBreak, h'.noBreak⟩
  nodup hn := h'.nodup (h.nodup hn)
  mem_ids id := by rw [h'.mem_ids, h.mem_ids, referredIds_append, List.mem_append, or_assoc]
  length_eq := by
    have hfirst := h.length_eq
    have hsecond := h'.length_eq
    rw [partsOfAll_append, List.countP_append, List.length_append]
    omega

/-- Tokens and literals bring no line. -/
theorem shown {a : Tree} (ha : a.view?.isSome) (n : Numbering) : Counts n [a] [] n := by
  cases a with
  | literal _ | token _ =>
    exact ⟨by simp, id, by simp [referredIds, entity?], by simp [isNode, node?]⟩
  | _ => cases ha

/-- An entity brings a line where it is met first. -/
theorem entity (e : Entity) (n : Numbering) :
    Counts n [.entity e] (e.render n).lines (e.render n).numbering := by
  have hreferred : referredIds [.entity e] = [e.id] := rfl
  unfold Entity.render
  split
  · rename_i number hlookup
    have hold : e.id ∈ n.ids := by
      by_contra hnew
      simp [n.lookup_eq_none_iff.2 hnew] at hlookup
    refine ⟨by simp, id, ?_, by simp [isNode, node?]⟩
    intro id
    rw [hreferred, List.mem_singleton]
    exact ⟨.inl, fun h => h.elim (fun h => h) (fun h => h ▸ hold)⟩
  · rename_i hlookup
    have hnew := n.lookup_eq_none_iff.1 hlookup
    have hids : (n.addEntity e.id).ids = n.ids ++ [e.id] := by
      simp [Numbering.ids, Numbering.addEntity]
    refine ⟨by simpa using noBreak_entity _ e, ?_, ?_, ?_⟩
    · intro hn
      rw [hids]
      simpa using hn.concat hnew
    · intro id
      rw [hids, hreferred, List.mem_append]
    · simp [hids, isNode, node?, Nat.add_comm]

/-- A node brings its line before those of its parts. -/
theorem node {t : Tree} {kind : String} {fields : Fields Tree} {l : String}
    (ht : t.node? = some (kind, fields)) (hl : '\n' ∉ l.toList)
    (h : Counts n.addNode (fields.flatMap fun f => f.2.elements) ls n') :
    Counts n [t] (l :: ls) n' where
  noBreak := List.forall_mem_cons.2 ⟨hl, h.noBreak⟩
  nodup := h.nodup
  mem_ids id := by
    rw [h.mem_ids, referredIds, referredIds, partsOfAll, partsOfAll, List.append_nil,
      parts_of_node? ht, List.filterMap_cons_none (entity?_of_node? ht)]
    rfl
  length_eq := by
    have hfields : ls.length + n.ids.length = _ := h.length_eq
    have hnode : t.isNode = true := by rw [isNode, ht]; rfl
    rw [partsOfAll, partsOfAll, List.append_nil, parts_of_node? ht, List.countP_cons, hnode,
      List.length_cons, if_pos rfl]
    omega

end Counts

theorem isKept_counts (E : Entity → Prop) : IsKept E Counts where
  nil := .nil
  append := .append
  shown := .shown
  entity {e} _ := .entity e
  node := .node

/-! ## The lines of a graph -/

namespace Tree

/-- The lines of a graph are counted by the nodes of the tree and the entities that it refers to. -/
theorem counts_graph {t : Tree} {E : Entity → Prop} (hleaves : ∀ a ∈ t.leaves, a.IsLegible E) :
    Counts .empty [t] t.graph (t.render .empty).numbering :=
  (isWalkedBy (isKept_counts E) t hleaves .empty).2

/-- A graph has a line for each node, and one for each entity that is referred to. -/
theorem length_graph {t : Tree} {E : Entity → Prop} (hleaves : ∀ a ∈ t.leaves, a.IsLegible E) :
    t.graph.length = t.parts.countP isNode + (referredIds [t]).dedup.length := by
  have h := counts_graph hleaves
  have hperm : (t.render .empty).numbering.ids.Perm (referredIds [t]).dedup := by
    refine (List.perm_ext_iff_of_nodup (h.nodup List.nodup_nil) (List.nodup_dedup _)).2 ?_
    intro id
    rw [h.mem_ids, List.mem_dedup]
    exact or_iff_right List.not_mem_nil
  rw [← hperm.length_eq]
  simpa [Numbering.ids, Numbering.empty] using h.length_eq

/-- The text of a graph has its lines. -/
theorem lines_graphText {t : Tree} {x : String × Fields Tree} {E : Entity → Prop}
    (ht : t.node? = some x) (hleaves : ∀ a ∈ t.leaves, a.IsLegible E) :
    lines t.graphText.toList = t.graph.map String.toList := by
  have hne := (isShownIn_graph (E := E) ht).1
  have hbreak := (counts_graph hleaves).noBreak
  rw [graphText, String.toList_intercalate]
  exact lines_intercalate (by simpa using hne) (by simpa using hbreak)

/-- A node that refers to no entity beyond those of another node, and has no more nodes in it, has a
graph with no more lines. -/
theorem length_lines_graphText_le {t u : Tree} {x y : String × Fields Tree} {E : Entity → Prop}
    (ht : t.node? = some x) (hu : u.node? = some y) (hleaves : ∀ a ∈ t.leaves, a.IsLegible E)
    (hleaves' : ∀ a ∈ u.leaves, a.IsLegible E)
    (hnodes : u.parts.countP isNode ≤ t.parts.countP isNode)
    (hentities : ∀ e, entity e ∈ u.parts → entity e ∈ t.parts) :
    (lines u.graphText.toList).length ≤ (lines t.graphText.toList).length := by
  have hsubset : (referredIds [u]).dedup ⊆ (referredIds [t]).dedup := by
    intro id hid
    rw [List.mem_dedup, mem_referredIds_iff] at hid ⊢
    obtain ⟨e, he, rfl⟩ := hid
    exact ⟨e, hentities e he, rfl⟩
  have hle := (List.Nodup.subperm (List.nodup_dedup _) hsubset).length_le
  rw [lines_graphText ht hleaves, lines_graphText hu hleaves', List.length_map, List.length_map,
    length_graph hleaves, length_graph hleaves']
  omega

/-! ## Resolved programs -/

theorem mem_parts_of_mem_leaves : ∀ t : Tree, ∀ a ∈ t.leaves, a ∈ t.parts ∧ a.node? = none := by
  refine node_induction ?_ ?_
  · intro t ht a ha
    obtain rfl : a = t := by simpa [leaves_of_leaf ht] using ha
    exact ⟨a.self_mem_parts, ht⟩
  · intro t kind fields ht ih a ha
    rw [leaves_of_node? ht] at ha
    obtain ⟨f, hf, ha⟩ := List.mem_flatMap.1 ha
    obtain ⟨u, hu, ha⟩ := List.mem_flatMap.1 ha
    obtain ⟨hpart, hleaf⟩ := Field.all_iff.1 (ih f hf) u hu a ha
    exact ⟨parts_subset t (Field.all_iff.1 (mem_parts_of_node? ht hf) u hu) hpart, hleaf⟩

/-- A resolved program is a node, and its leaves are literals and entities. -/
theorem isLegible_of_isProgram {t : Tree} (ht : t.IsProgram Naming.resolved) :
    (∃ x, t.node? = some x) ∧ ∀ a ∈ t.leaves, a.IsLegible fun _ => True := by
  refine ⟨?_, ?_⟩
  · cases t with
    | program statements => exact ⟨_, rfl⟩
    | _ => exact ht.elim
  · intro a ha
    obtain ⟨hpart, hleaf⟩ := mem_parts_of_mem_leaves t a ha
    have hfit := isFit_of_isProgram ht a hpart
    cases a with
    | literal _ | entity _ => trivial
    | absent | text _ | list _ | token _ => exact hfit.elim
    | _ => cases hleaf

theorem mem_mentioned_entity_iff {t : Tree} {e : Entity} :
    Mention.entity e ∈ mentioned [t] ↔ entity e ∈ t.parts := by
  rw [mentioned, partsOfAll, partsOfAll, List.append_nil, List.mem_filterMap]
  constructor
  · rintro ⟨s, hs, hmention⟩
    cases s with
    | entity e' =>
      obtain rfl := Mention.entity.inj (Option.some.inj hmention)
      exact hs
    | _ => cases hmention
  · exact fun h => ⟨_, h, rfl⟩

/-- The pass never enlarges a resolved program. It leaves the program alone or leaves fewer
nodes, literals and references; it refers to no other entity; and the text of the graph has no
more lines. -/
theorem optimize_never_enlarges {t : Tree} (ht : t.IsProgram Naming.resolved) :
    t.optimize? = .ok t.optimize ∧
      (t.optimize = t ∨ t.optimize.parts.length < t.parts.length) ∧
      (∀ e, entity e ∈ t.optimize.parts → entity e ∈ t.parts) ∧
      (lines t.optimize.graphText.toList).length ≤ (lines t.graphText.toList).length := by
  have h := shrinks_program ht
  have hentities : ∀ e, entity e ∈ t.optimize.parts → entity e ∈ t.parts := by
    intro e he
    exact mem_mentioned_entity_iff.1 (h.mentioned _ (mem_mentioned_entity_iff.2 he))
  obtain ⟨⟨x, hnode⟩, hleaves⟩ := isLegible_of_isProgram ht
  obtain ⟨⟨y, hnode'⟩, hleaves'⟩ := isLegible_of_isProgram (isProgram_optimize ht)
  refine ⟨optimize?_of_isProgram ht, ?_, hentities, ?_⟩
  · simpa using h.smaller
  · exact length_lines_graphText_le hnode hnode' hleaves hleaves' (by simpa using h.nodes)
      hentities

/-- A negation in place of a difference, and an arm that takes its entity along. -/
def lavish : Tree :=
  let x := entity (Entity.declaredVariable 0 "x")
  program [
    variableDeclaration x (number .one),
    print (conditional (boolean true) (binary "-" (number .zero) x) (entity Builtin.pi.entity))]

theorem optimize_lavish :
    lavish.IsProgram Naming.resolved ∧ lavish.optimize? = .ok lavish.optimize ∧
      (lavish.optimize = lavish ∨ lavish.optimize.parts.length < lavish.parts.length) ∧
      (∀ e, entity e ∈ lavish.optimize.parts → entity e ∈ lavish.parts) ∧
      (lines lavish.optimize.graphText.toList).length ≤ (lines lavish.graphText.toList).length := by
  have hx : (Entity.declaredVariable 0 "x").IsGenuine := Entity.isGenuine_of_builtin?_eq_none rfl
  have h : lavish.IsProgram Naming.resolved :=
    ⟨⟨⟨rfl, rfl, rfl⟩, trivial⟩,
      ⟨trivial, ⟨trivial, rfl, hx⟩, ⟨rfl, Builtin.isGenuine_entity .pi⟩⟩, trivial⟩
  exact ⟨h, optimize_never_enlarges h⟩

end Tree
end Quill
