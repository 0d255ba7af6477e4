import Quill.Proofs.Graph.Numbering
import Quill.Proofs.Text.Place

/-!
# The objects of a graph

A graph has one line for every node of a tree and for every entity in it, in the order of their
first visits. A reference shows the number of the line of its object, and each object but the root
is referred to in a line before its own.

## Main definitions

* `Tree.firsts`, `Tree.objects` — the first visits of a tree, and its objects in their order.
* `Tree.IsNumberedIn t ls` — lines that number the objects of a tree.
-/

namespace Quill

open Text Quill.Graph

namespace Tree

/-! ## Objects in order -/

/-- The first visits of the objects of a tree, in order. -/
def firsts (t : Tree) : List Visit := firstVisits [] (visitsFrom 0 [t])

/-- The objects of a tree in the order of their first visits. -/
def objects (t : Tree) : List Object := t.firsts.map Visit.object

theorem mem_objects {t : Tree} {o : Object} :
    o ∈ t.objects ↔ o ∈ (visitsFrom 0 [t]).map Visit.object :=
  (@mem_firstVisits_iff o [] (visitsFrom 0 [t])).trans (or_iff_right List.not_mem_nil)

/-- Every node and entity of a tree is among its objects. -/
theorem mem_objects_iff {t : Tree} {o : Object} :
    o ∈ t.objects ↔
      ∃ (place : Nat) (part : Tree), t.parts[place]? = some part ∧ part.object? place = some o := by
  rw [mem_objects, List.mem_map]
  constructor
  · rintro ⟨v, hv, rfl⟩
    obtain ⟨-, hpart, hobject⟩ := mem_visitsFrom_iff.1 hv
    exact ⟨v.place, v.part, by simpa using hpart, hobject⟩
  · rintro ⟨place, part, hpart, hobject⟩
    have hvisit : (⟨o, place, part⟩ : Visit) ∈ visitsFrom 0 [t] :=
      mem_visitsFrom_iff.2 ⟨Nat.zero_le _, by simpa using hpart, hobject⟩
    exact ⟨_, hvisit, rfl⟩

/-- No object is numbered twice. -/
theorem nodup_objects (t : Tree) : t.objects.Nodup :=
  nodup_firstVisits List.nodup_nil _

/-- Objects are numbered in the order of their first visits. -/
theorem pairwise_firsts (t : Tree) : t.firsts.Pairwise fun v w => v.place < w.place :=
  (pairwise_visitsFrom 0 [t]).sublist (sublist_firstVisits _ _)

/-- The lines of a graph are those of the first visits. -/
theorem graph_eq (t : Tree) : t.graph = linesOf t.objects t.firsts 1 :=
  (t.followsVisits [] 0 .empty .empty).1.lines_eq t.objects (List.prefix_refl _)

theorem mem_visits_of_mem_firsts {t : Tree} {v : Visit} (hv : v ∈ t.firsts) :
    v ∈ visitsFrom 0 [t] :=
  (sublist_firstVisits _ _).subset hv

/-- A node has its line where it is visited. -/
theorem mem_firsts_of_isNode {t : Tree} {v : Visit} (hv : v ∈ visitsFrom 0 [t])
    (hnode : v.part.isNode) : v ∈ t.firsts := by
  obtain ⟨w, hw, hsame⟩ := List.mem_map.1 (mem_objects.2 (List.mem_map_of_mem hv))
  exact eq_of_node_of_mem_visitsFrom hv (mem_visits_of_mem_firsts hw) hnode hsame ▸ hw

theorem lt_of_place_lt {t : Tree} {i j : Nat} (hi : i < t.firsts.length) (hj : j < t.firsts.length)
    (h : t.firsts[i].place < t.firsts[j].place) : i < j := by
  rcases Nat.lt_trichotomy i j with hlt | rfl | hgt
  · exact hlt
  · exact absurd h (Nat.lt_irrefl _)
  · have hafter := List.pairwise_iff_getElem.1 t.pairwise_firsts j i hj hi hgt
    omega

/-- What is shown of a node or an entity is a reference to itself. -/
theorem place_eq_zero_of_shown {t : Tree} {v : Visit} (ht : t.isNode ∨ t.entity?.isSome)
    (hv : v ∈ visitsFrom 0 [t]) (hshown : .reference v.object ∈ t.pieces 0) : v.place = 0 := by
  rcases ht with hnode | hentity
  · obtain ⟨x, hx⟩ := Option.isSome_iff_exists.1 hnode
    rw [pieces_of_node? hx, List.mem_singleton, Piece.reference.injEq] at hshown
    obtain ⟨-, -, hobject⟩ := mem_visitsFrom_iff.1 hv
    rw [hshown] at hobject
    exact (place_of_object? hobject).symm
  · obtain ⟨e, rfl⟩ : ∃ e, t = entity e := by
      cases t with
      | entity e => exact ⟨e, rfl⟩
      | _ => cases hentity
    simpa using (place_of_mem_visitsFrom hv).2

/-- Each object but the root is referred to in the line of a node before its own line. -/
theorem exists_referring {t : Tree} {k : Nat} {v : Visit} (ht : t.isNode ∨ t.entity?.isSome)
    (hv : t.firsts[k + 1]? = some v) :
    ∃ j u, j ≤ k ∧ t.firsts[j]? = some u ∧ .reference v.object ∈ u.pieces := by
  obtain ⟨hk, rfl⟩ := List.getElem?_eq_some_iff.1 hv
  have hvisit := mem_visits_of_mem_firsts (List.getElem_mem hk)
  rcases (t.isClosed 0).reached _ hvisit with ⟨item, hitem, hshown⟩ | ⟨u, hu, hnode, hlt, hline⟩
  · -- only the root is shown, and it has the first line
    obtain rfl : item = t.pieces 0 := by simpa [piecesOfAll] using hitem
    have hfirst := List.pairwise_iff_getElem.1 t.pairwise_firsts 0 (k + 1) (by omega) hk (by omega)
    rw [place_eq_zero_of_shown ht hvisit hshown] at hfirst
    exact absurd hfirst (Nat.not_lt_zero _)
  · obtain ⟨j, hj, rfl⟩ := List.getElem_of_mem (mem_firsts_of_isNode hu hnode)
    exact ⟨j, _, Nat.le_of_lt_succ (lt_of_place_lt hj hk hlt), List.getElem?_eq_getElem hj, hline⟩

end Tree

/-! ## Lines of one piece -/

namespace Piece

/-- No text among the pieces holds a line feed. -/
def AreUnbroken (ps : List Piece) : Prop := ∀ s, plain s ∈ ps → '\n' ∉ s.toList

theorem noBreak_textOf {ps : List Piece} (h : AreUnbroken ps) (order : List Object) :
    '\n' ∉ (textOf order ps).toList := by
  rw [textOf, String.toList_join, List.mem_flatMap]
  rintro ⟨_, hview, hbreak⟩
  obtain ⟨p, hp, rfl⟩ := List.mem_map.1 hview
  cases p with
  | plain s => exact h s hp hbreak
  | reference o => exact (isPlain_reference _).noBreak hbreak

theorem areUnbroken_bracketed {items : List (List Piece)} (h : ∀ item ∈ items, AreUnbroken item) :
    AreUnbroken (bracketed items) := by
  intro s hs
  rcases mem_bracketed hs with hs | ⟨item, hitem, hs⟩
  · simp only [List.mem_cons, plain.injEq, List.not_mem_nil, or_false] at hs
    rcases hs with rfl | rfl | rfl <;> decide
  · exact h item hitem s hs

end Piece

namespace Tree

theorem areUnbroken_piecesOfAll {ts : List Tree}
    (h : ∀ t ∈ ts, ∀ place, Piece.AreUnbroken (t.pieces place)) (place : Nat) :
    ∀ item ∈ piecesOfAll ts place, Piece.AreUnbroken item := by
  induction ts generalizing place with
  | nil => simp [piecesOfAll]
  | cons t ts ih =>
    rw [List.forall_mem_cons] at h
    exact List.forall_mem_cons.2 ⟨h.1 place, ih h.2 _⟩

theorem areUnbroken_quoted (value : String) : Piece.AreUnbroken [.plain (quoted value)] := by
  intro s hs
  obtain rfl := Piece.plain.inj (List.mem_singleton.1 hs)
  simpa [quoted] using noBreak_quotedChars value.toList

theorem areUnbroken_fieldsPieces {fields : Fields Tree}
    (hnames : ∀ x ∈ fields.signature, '\n' ∉ x.1.toList)
    (h : ∀ f ∈ fields, f.2.All fun t => ∀ place, Piece.AreUnbroken (t.pieces place)) (place : Nat) :
    Piece.AreUnbroken (fieldsPieces fields place) := by
  induction fields generalizing place with
  | nil => simp [fieldsPieces, Piece.AreUnbroken]
  | cons f fields ih =>
    obtain ⟨name, field⟩ := f
    rw [Fields.signature, List.map_cons, List.forall_mem_cons] at hnames
    rw [List.forall_mem_cons] at h
    have hfield : Piece.AreUnbroken (fieldPieces field place) := by
      cases field with
      | text value => exact areUnbroken_quoted value
      | part t => exact h.1 place
      | parts ts => exact Piece.areUnbroken_bracketed (areUnbroken_piecesOfAll h.1 place)
    intro s hs
    rcases List.mem_cons.1 hs with hs | hs
    · rw [Piece.plain.inj hs]
      simpa using hnames.1
    · exact (List.mem_append.1 hs).elim (hfield s) (ih hnames.2 h.2 _ s)

/-- Of the texts that are shown of a tree, only those of tokens can hold a line feed. -/
theorem areUnbroken_pieces : ∀ t : Tree, (∀ x, token x ∈ t.parts → '\n' ∉ x.value.toList) →
    ∀ place, Piece.AreUnbroken (t.pieces place) := by
  refine part_induction ?_ ?_ ?_
  · intro t ht hitems htokens place s hs
    cases t with
    | list items => exact absurd rfl (hitems items)
    | entity e => simp [pieces] at hs
    | absent =>
      rw [Piece.plain.inj (List.mem_singleton.1 hs)]
      decide
    | literal v =>
      rw [Piece.plain.inj (List.mem_singleton.1 hs)]
      exact v.isPlain_view.1.noBreak
    | text value => exact areUnbroken_quoted value s hs
    | token x =>
      rw [Piece.plain.inj (List.mem_singleton.1 hs)]
      exact htokens x (List.mem_singleton_self _)
    | _ => cases ht
  · intro items ih htokens place
    refine Piece.areUnbroken_bracketed (areUnbroken_piecesOfAll ?_ _)
    intro t ht
    exact ih t ht fun x hx => htokens x (parts_subset _ (mem_parts_of_mem ht) hx)
  · intro t kind fields ht _ _ place s hs
    rw [pieces_of_node? ht] at hs
    simp at hs

/-- What is shown of a node stands on one line. -/
theorem areUnbroken_visit {t : Tree} (htokens : ∀ x, token x ∈ t.parts → '\n' ∉ x.value.toList)
    {v : Visit} (hv : v ∈ visitsFrom 0 [t]) : Piece.AreUnbroken v.pieces := by
  obtain ⟨o, place, s⟩ := v
  obtain ⟨-, hpart, hobject⟩ := mem_visitsFrom_iff.1 hv
  have hs : s ∈ t.parts := by simpa using List.mem_of_getElem? hpart
  cases hnode : s.node? with
  | some x =>
    obtain ⟨kind, fields⟩ := x
    have hparts : ∀ f ∈ fields, f.2.All fun u => ∀ place, Piece.AreUnbroken (u.pieces place) := by
      intro f hf
      refine Field.all_iff.2 fun u hu => areUnbroken_pieces u fun x hx => htokens x ?_
      have hpart := Field.all_iff.1 (mem_parts_of_node? hnode hf) u hu
      exact parts_subset t hs (parts_subset s hpart hx)
    have hkind := (isPlain_kind kind (List.mem_append_left _ (kind_mem_of_node? hnode))).noBreak
    rw [pieces_visit_node hnode]
    intro text htext
    rcases List.mem_cons.1 htext with htext | htext
    · rw [Piece.plain.inj htext]
      exact hkind
    · exact areUnbroken_fieldsPieces (noBreak_of_node? hnode) hparts _ text htext
  | none =>
    obtain ⟨e, rfl⟩ : ∃ e, s = entity e := by
      cases s with
      | entity e => exact ⟨e, rfl⟩
      | absent | literal _ | text _ | token _ | list _ => cases hobject
      | _ => cases hnode
    intro text htext
    rw [Piece.plain.inj (List.mem_singleton.1 htext)]
    have hline := noBreak_entity 0 e
    simp only [line, String.toList_append, List.mem_append, not_or] at hline ⊢
    exact ⟨hline.1.2, hline.2⟩

/-- Where no token holds a line feed, the text of a graph has its lines. -/
theorem lines_graphText_of_objects {t : Tree} (hne : t.objects ≠ [])
    (htokens : ∀ x, token x ∈ t.parts → '\n' ∉ x.value.toList) :
    lines t.graphText.toList = t.graph.map String.toList := by
  have hlines : t.graph.map String.toList ≠ [] := by
    rw [graph_eq, linesOf]
    simpa [objects] using hne
  rw [graphText, String.toList_intercalate]
  refine lines_intercalate hlines ?_
  rw [graph_eq, linesOf, List.map_map, List.forall_mem_map]
  rintro ⟨v, number⟩ hv
  have hvisit := mem_visits_of_mem_firsts (List.fst_mem_of_mem_zipIdx hv)
  have htext := Piece.noBreak_textOf (areUnbroken_visit htokens hvisit) t.objects
  have hnumber := noBreak_padNumber number
  simp [Visit.line, htext, hnumber]

/-! ## Numbered objects -/

/-- Lines that number the objects of a tree. -/
structure IsNumberedIn (t : Tree) (ls : List String) : Prop where
  /-- The objects are the nodes and the entities of the tree, each of them once. -/
  objects : t.objects.Nodup ∧ ∀ o, o ∈ t.objects ↔
    ∃ (place : Nat) (part : Tree), t.parts[place]? = some part ∧ part.object? place = some o
  /-- They come in the order in which they are first met among the parts of the tree. -/
  order : t.firsts.Pairwise (fun v w => v.place < w.place) ∧ ∀ v ∈ t.firsts,
    t.parts[v.place]? = some v.part ∧ v.part.object? v.place = some v.object ∧
      ∀ (place : Nat) (part : Tree), t.parts[place]? = some part →
        part.object? place = some v.object → v.place ≤ place
  /-- There is one line for each of them, with its number in this order. -/
  lines : ls.length = t.objects.length ∧ ∀ k v, t.firsts[k]? = some v →
    v.object.number t.objects = k + 1 ∧ ls[k]? = some (v.line t.objects (k + 1))
  /-- A reference shows the number of a line, and no other object has this number. -/
  references : ∀ v ∈ t.firsts, ∀ o, .reference o ∈ v.pieces →
    1 ≤ o.number t.objects ∧ o.number t.objects ≤ ls.length ∧
      ∀ o', o'.number t.objects = o.number t.objects ↔ o' = o
  /-- Each line but the first is referred to in a line before it. -/
  referred : t.isNode ∨ t.entity?.isSome → ∀ k v, t.firsts[k + 1]? = some v →
    ∃ j u, j ≤ k ∧ t.firsts[j]? = some u ∧ .reference v.object ∈ u.pieces

/-- A graph has a line for each object of the tree. -/
theorem length_graph_eq (t : Tree) : t.graph.length = t.objects.length := by
  rw [graph_eq, linesOf, List.length_map, List.length_zipIdx, objects, List.length_map]

/-- The object of a line has its number. -/
theorem number_of_getElem? {t : Tree} {k : Nat} {v : Visit} (hv : t.firsts[k]? = some v) :
    v.object.number t.objects = k + 1 := by
  have hobject : t.objects[k]? = some v.object := by rw [objects, List.getElem?_map, hv]; rfl
  obtain ⟨hk, hget⟩ := List.getElem?_eq_some_iff.1 hobject
  rw [Object.number, ← hget, t.nodup_objects.idxOf_getElem k hk]

/-- The line with a number shows the object that has this number. -/
theorem getElem?_graph {t : Tree} {k : Nat} {v : Visit} (hv : t.firsts[k]? = some v) :
    t.graph[k]? = some (v.line t.objects (k + 1)) := by
  rw [graph_eq, linesOf, List.getElem?_map, List.getElem?_zipIdx, hv, Nat.add_comm]
  rfl

/-- The graph of any tree numbers its objects, and its text has one line for each of them. -/
theorem isNumberedIn_graph (t : Tree) : t.IsNumberedIn t.graph ∧
    (t.objects ≠ [] → (∀ x, token x ∈ t.parts → '\n' ∉ x.value.toList) →
      lines t.graphText.toList = t.graph.map String.toList) := by
  refine ⟨⟨⟨t.nodup_objects, fun o => mem_objects_iff⟩, ⟨t.pairwise_firsts, ?_⟩,
    ⟨t.length_graph_eq, fun k v hv => ⟨number_of_getElem? hv, getElem?_graph hv⟩⟩, ?_,
    fun ht k v hv => exists_referring ht hv⟩, lines_graphText_of_objects⟩
  · intro v hv
    obtain ⟨-, hpart, hobject⟩ := mem_visitsFrom_iff.1 (mem_visits_of_mem_firsts hv)
    refine ⟨by simpa using hpart, hobject, ?_⟩
    intro place part hpart' hobject'
    have hvisit : (⟨v.object, place, part⟩ : Visit) ∈ visitsFrom 0 [t] :=
      mem_visitsFrom_iff.2 ⟨Nat.zero_le _, by simpa using hpart', hobject'⟩
    exact place_le_of_mem_firstVisits (pairwise_visitsFrom 0 [t]) hv hvisit rfl
  · intro v hv o ho
    have hmem : o ∈ t.objects :=
      mem_objects.2 ((t.isClosed 0).lines v (mem_visits_of_mem_firsts hv) o ho)
    have hlt := List.idxOf_lt_length_of_mem hmem
    refine ⟨Nat.succ_pos _, ?_, ?_⟩
    · rw [length_graph_eq]
      exact hlt
    · intro o'
      constructor
      · intro h
        exact ((List.idxOf_inj hmem).1 (Nat.succ.inj h).symm).symm
      · rintro rfl
        rfl

/-- A program that refers to a variable from three statements. -/
def echoing : Tree :=
  let x := entity (Entity.declaredVariable 0 "x")
  program [variableDeclaration x (boolean true), print x, whileLoop x [print x]]

theorem isNumberedIn_echoing :
    echoing.IsNumberedIn echoing.graph ∧
      lines echoing.graphText.toList = echoing.graph.map String.toList ∧
      (∀ k v, echoing.firsts[k + 1]? = some v →
        ∃ j u, j ≤ k ∧ echoing.firsts[j]? = some u ∧ .reference v.object ∈ u.pieces) := by
  obtain ⟨hnumbered, hlines⟩ := isNumberedIn_graph echoing
  refine ⟨hnumbered, hlines (by decide) ?_, hnumbered.referred (.inl rfl)⟩
  simp [echoing]

example : echoing.graph =
    ["   1 | Program statements=[#2,#4,#5]",
      "   2 | VariableDeclaration variable=#3 initializer=True",
      "   3 | Variable name='x' read_only=False",
      "   4 | PrintStatement argument=#3",
      "   5 | WhileStatement test=#3 body=[#6]",
      "   6 | PrintStatement argument=#3"] := by decide +kernel

end Tree

end Quill
