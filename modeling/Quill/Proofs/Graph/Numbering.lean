import Quill.Proofs.Graph.Visit

/-!
# The numbers of a graph

The walk numbers the objects of a tree in the order of their first visits, and so the lines that it
brings are those of these objects. While the walk goes on, the numbering knows the objects that were
met so far; what it shows of an object does not depend on those that are still to be met.

## Main definitions

* `Numbering.Tallies` — a numbering of the objects that were met so far.
* `Brings` — the walk over trees brings the lines of the objects that are met in them first.
* `Tree.FollowsVisits` — what is shown of a tree goes by the numbers of its objects.
-/

namespace Quill

open Text Quill.Graph Quill.Tree

/-! ## Numbers -/

namespace Object

variable {met order : List Object} {o : Object}

/-- An object that is met keeps its number when others are met. -/
theorem number_of_mem (ho : o ∈ met) (h : met <+: order) : o.number order = o.number met := by
  obtain ⟨rest, rfl⟩ := h
  rw [number, number, List.idxOf_append_of_mem ho]

/-- The next object has the next number. -/
theorem number_of_notMem (ho : o ∉ met) (h : met ++ [o] <+: order) :
    o.number order = met.length + 1 := by
  rw [number_of_mem (List.mem_append_right _ (List.mem_singleton_self o)) h, number,
    List.idxOf_append_of_notMem ho, List.idxOf_cons_self, Nat.add_zero]

end Object

/-- The line of a visited object with its number. -/
def Visit.line (order : List Object) (v : Visit) (number : Nat) : String :=
  padNumber number ++ " | " ++ Piece.textOf order v.pieces

/-- The lines of visited objects in order, the first of which has a number. -/
def linesOf (order : List Object) (vs : List Visit) (first : Nat) : List String :=
  (vs.zipIdx first).map fun (v, number) => v.line order number

/-- The objects that were not met before, in the order of their first visits in trees. -/
def objectsFrom (met : List Object) (place : Nat) (ts : List Tree) : List Object :=
  (firstVisits met (visitsFrom place ts)).map Visit.object

/-- What is first met in two lists of trees: what is in the first, and then what is in the
second. -/
theorem objectsFrom_append (met : List Object) (place : Nat) (ts us : List Tree) :
    objectsFrom met place (ts ++ us) = objectsFrom met place ts ++
      objectsFrom (met ++ objectsFrom met place ts) (place + (partsOfAll ts).length) us := by
  rw [objectsFrom, visitsFrom_append, firstVisits_append, List.map_append]
  rfl

theorem objectsFrom_node {t : Tree} {kind : String} {fields : Fields Tree} {met : List Object}
    {place : Nat} (ht : t.node? = some (kind, fields)) (hnew : .node place ∉ met) :
    objectsFrom met place [t] = .node place ::
      objectsFrom (met ++ [.node place]) (place + 1) (fields.flatMap fun f => f.2.elements) := by
  rw [objectsFrom, visitsFrom_node ht, firstVisits, if_neg hnew, List.map_cons]
  rfl

/-! ## The walk -/

/-- The numbering gives the objects that were met before a place their numbers. -/
structure Numbering.Tallies (met : List Object) (place : Nat) (n : Numbering) : Prop where
  count_eq : n.count = met.length
  lookup_eq : ∀ id, n.entities.lookup id =
    if .entity id ∈ met then some (Object.number met (.entity id)) else none
  place_lt : ∀ i, .node i ∈ met → i < place

namespace Numbering.Tallies

variable {met : List Object} {place : Nat} {n : Numbering}

theorem empty : Tallies [] 0 Numbering.empty := ⟨rfl, fun _ => rfl, by simp⟩

theorem mono (h : n.Tallies met place) {place' : Nat} (hle : place ≤ place') :
    n.Tallies met place' :=
  ⟨h.count_eq, h.lookup_eq, fun i hi => Nat.lt_of_lt_of_le (h.place_lt i hi) hle⟩

theorem addNode (h : n.Tallies met place) :
    n.addNode.Tallies (met ++ [.node place]) (place + 1) where
  count_eq := by simp [Numbering.addNode, Numbering.next, h.count_eq]
  lookup_eq id := by
    have hmem : Object.entity id ∈ met ++ [.node place] ↔ .entity id ∈ met := by simp
    rw [Numbering.addNode, h.lookup_eq]
    simp only [hmem]
    split
    · rename_i hid
      rw [Object.number_of_mem hid (List.prefix_append _ _)]
    · rfl
  place_lt i hi := by
    rcases List.mem_append.1 hi with hi | hi
    · exact Nat.lt_succ_of_lt (h.place_lt i hi)
    · cases List.mem_singleton.1 hi
      exact Nat.lt_succ_self place

/-- An entity is met where it first stands. -/
theorem addEntity (h : n.Tallies met place) {id : Entity.Id} (hid : .entity id ∉ met) :
    (n.addEntity id).Tallies (met ++ [.entity id]) place where
  count_eq := by simp [Numbering.addEntity, Numbering.next, h.count_eq]
  lookup_eq id' := by
    rw [Numbering.addEntity, List.lookup_append, h.lookup_eq]
    by_cases hsame : id' = id
    · subst hsame
      have hnumber := Object.number_of_notMem hid (List.prefix_refl _)
      rw [if_neg hid, if_pos (List.mem_append_right _ (List.mem_singleton_self _)), hnumber]
      simp [Numbering.next, h.count_eq]
    · have hmem : Object.entity id' ∈ met ++ [.entity id] ↔ .entity id' ∈ met := by simp [hsame]
      simp only [hmem]
      split
      · rename_i hid'
        rw [Object.number_of_mem hid' (List.prefix_append _ _)]
        rfl
      · simp [hsame]
  place_lt i hi := by
    rcases List.mem_append.1 hi with hi | hi
    · exact h.place_lt i hi
    · cases List.mem_singleton.1 hi

end Numbering.Tallies

/-- The walk over trees, the first of which is at a place, leads to the numbering and brings the
lines of the objects that are met in them first. -/
structure Brings (met : List Object) (place : Nat) (ts : List Tree) (ls : List String)
    (n : Numbering) : Prop where
  tallies : n.Tallies (met ++ objectsFrom met place ts) (place + (partsOfAll ts).length)
  lines_eq : ∀ order, met ++ objectsFrom met place ts <+: order →
    ls = linesOf order (firstVisits met (visitsFrom place ts)) (met.length + 1)

namespace Brings

variable {met : List Object} {place : Nat} {ts us : List Tree} {ls ls' : List String}
  {n n' : Numbering}

theorem nil (h : n.Tallies met place) : Brings met place [] [] n := by
  have hnone : objectsFrom met place [] = [] := rfl
  refine ⟨?_, fun _ _ => rfl⟩
  rw [hnone, List.append_nil]
  exact h

theorem append (h : Brings met place ts ls n)
    (h' : Brings (met ++ objectsFrom met place ts) (place + (partsOfAll ts).length) us ls' n') :
    Brings met place (ts ++ us) (ls ++ ls') n' where
  tallies := by
    rw [objectsFrom_append, ← List.append_assoc, partsOfAll_append, List.length_append,
      ← Nat.add_assoc]
    exact h'.tallies
  lines_eq order horder := by
    rw [objectsFrom_append, ← List.append_assoc] at horder
    have hlength : met.length + 1 + (firstVisits met (visitsFrom place ts)).length =
        (met ++ objectsFrom met place ts).length + 1 := by
      rw [List.length_append, objectsFrom, List.length_map]
      omega
    rw [h.lines_eq order ((List.prefix_append _ _).trans horder), h'.lines_eq order horder,
      visitsFrom_append, firstVisits_append, linesOf, linesOf, linesOf, List.zipIdx_append, hlength,
      List.map_append]
    rfl

/-- Leaves other than lists and entities bring no line. -/
theorem shown {t : Tree} (ht : t.object? place = none) (hparts : t.parts = [t])
    (h : n.Tallies met place) : Brings met place [t] [] n := by
  have hvisits : visitsFrom place [t] = [] := by simp [visitsFrom, partsOfAll, hparts, ht]
  refine ⟨?_, fun _ _ => by rw [hvisits]; rfl⟩
  rw [objectsFrom, hvisits, firstVisits, List.map_nil, List.append_nil]
  exact h.mono (Nat.le_add_right _ _)

/-- The items of a list stand behind the list. -/
theorem items {items : List Tree} (h : Brings met (place + 1) items ls n) :
    Brings met place [list items] ls n := by
  have hobjects : objectsFrom met place [list items] = objectsFrom met (place + 1) items := by
    rw [objectsFrom, visitsFrom_list, objectsFrom]
  refine ⟨?_, ?_⟩
  · rw [hobjects]
    refine h.tallies.mono ?_
    simp
    omega
  · rw [hobjects, visitsFrom_list]
    exact h.lines_eq

/-- The line of a node stands before those of its fields. -/
theorem node {t : Tree} {kind : String} {fields : Fields Tree} {l : String}
    (ht : t.node? = some (kind, fields)) (hnew : .node place ∉ met)
    (hl : ∀ order, met ++ objectsFrom met place [t] <+: order →
      l = (⟨.node place, place, t⟩ : Visit).line order (met.length + 1))
    (h : Brings (met ++ [.node place]) (place + 1) (fields.flatMap fun f => f.2.elements) ls n) :
    Brings met place [t] (l :: ls) n where
  tallies := by
    have hlength : place + (partsOfAll [t]).length =
        place + 1 + (partsOfAll (fields.flatMap fun f => f.2.elements)).length := by
      rw [partsOfAll, partsOfAll, List.append_nil, parts_of_node? ht, List.length_cons]
      omega
    rw [objectsFrom_node ht hnew, List.append_cons, hlength]
    exact h.tallies
  lines_eq order horder := by
    have hl := hl order horder
    rw [objectsFrom_node ht hnew, List.append_cons] at horder
    rw [hl, h.lines_eq order horder, visitsFrom_node ht, firstVisits, if_neg hnew, linesOf, linesOf,
      List.zipIdx_cons, List.map_cons, List.length_append, List.length_singleton]

end Brings

namespace Tree

/-- The walk over a tree follows its visits, and shows the tree by the numbers of its objects. -/
def FollowsVisits (t : Tree) : Prop :=
  ∀ met place n, n.Tallies met place →
    Brings met place [t] (t.render n).lines (t.render n).numbering ∧
      ∀ order, met ++ objectsFrom met place [t] <+: order →
        (t.render n).view = Piece.textOf order (t.pieces place)

section
variable {met : List Object} {place : Nat} {n : Numbering}

/-- A list of trees brings the lines of what is first met in them, and shows the trees in order. -/
theorem followsVisits_list {ts : List Tree} (hts : ∀ t ∈ ts, t.FollowsVisits)
    (h : n.Tallies met place) :
    Brings met place ts (renderAll ts n).lines (renderAll ts n).numbering ∧
      ∀ order, met ++ objectsFrom met place ts <+: order →
        (renderAll ts n).views = (piecesOfAll ts place).map (Piece.textOf order) := by
  induction ts generalizing met place n with
  | nil => exact ⟨.nil h, fun _ _ => rfl⟩
  | cons t ts ih =>
    rw [List.forall_mem_cons] at hts
    obtain ⟨hfirst, hview⟩ := hts.1 met place n h
    obtain ⟨hrest, hviews⟩ := ih hts.2 hfirst.tallies
    refine ⟨hfirst.append hrest, ?_⟩
    intro order horder
    rw [← List.singleton_append, objectsFrom_append, ← List.append_assoc] at horder
    rw [renderAll, piecesOfAll, List.map_cons, hview order ((List.prefix_append _ _).trans horder),
      hviews order horder]
    simp

theorem followsVisits_field {f : Field Tree} (hf : f.All FollowsVisits) (h : n.Tallies met place) :
    Brings met place f.elements (renderField f n).lines (renderField f n).numbering ∧
      ∀ order, met ++ objectsFrom met place f.elements <+: order →
        (renderField f n).view.view = Piece.textOf order (fieldPieces f place) := by
  cases f with
  | text value =>
    exact ⟨.nil h, fun _ _ => by simp [renderField, Field.view, fieldPieces, Piece.text]⟩
  | part t => exact hf met place n h
  | parts ts =>
    obtain ⟨hlines, hviews⟩ := followsVisits_list hf h
    refine ⟨hlines, fun order horder => ?_⟩
    rw [renderField, Field.view, hviews order horder, fieldPieces, Piece.textOf_bracketed]

/-- The fields of a node bring the lines of what is first met in them, and show their parts in
order. -/
theorem followsVisits_fields {fields : Fields Tree} (hfields : ∀ f ∈ fields, f.2.All FollowsVisits)
    (h : n.Tallies met place) :
    Brings met place (fields.flatMap fun f => f.2.elements) (renderFields fields n).lines
        (renderFields fields n).numbering ∧
      ∀ order, met ++ objectsFrom met place (fields.flatMap fun f => f.2.elements) <+: order →
        String.join ((renderFields fields n).views.views.map fun (name, view) =>
          " " ++ name ++ "=" ++ view) = Piece.textOf order (fieldsPieces fields place) := by
  induction fields generalizing met place n with
  | nil => exact ⟨.nil h, fun _ _ => rfl⟩
  | cons f fields ih =>
    obtain ⟨name, f⟩ := f
    rw [List.forall_mem_cons] at hfields
    obtain ⟨hfirst, hview⟩ := followsVisits_field hfields.1 h
    obtain ⟨hrest, hviews⟩ := ih hfields.2 hfirst.tallies
    refine ⟨hfirst.append hrest, ?_⟩
    intro order horder
    rw [List.flatMap_cons, objectsFrom_append, ← List.append_assoc] at horder
    have hfield := hview order ((List.prefix_append _ _).trans horder)
    have hfields := hviews order horder
    rw [fieldsPieces, Piece.textOf_cons, Piece.textOf_append, ← hfield, ← hfields]
    apply String.toList_inj.1
    simp [renderFields, Fields.views, Piece.text]

end

/-- An entity brings a line where it is met for the first time, and a reference afterwards. -/
theorem followsVisits_entity (e : Entity) : (entity e).FollowsVisits := by
  intro met place n h
  have hvisits : visitsFrom place [entity e] = [⟨.entity e.id, place, entity e⟩] := by
    simp [visitsFrom, object?]
  have hlookup := h.lookup_eq e.id
  by_cases hold : .entity e.id ∈ met
  · rw [if_pos hold] at hlookup
    have hrender : (entity e).render n =
        ⟨reference (Object.number met (.entity e.id)), [], n⟩ := by
      rw [render, Entity.render, hlookup]
    have hnone : firstVisits met (visitsFrom place [entity e]) = [] := by
      rw [hvisits, firstVisits, if_pos hold, firstVisits]
    have hobjects : objectsFrom met place [entity e] = [] := by
      rw [objectsFrom, hnone, List.map_nil]
    rw [hrender, hobjects, List.append_nil]
    refine ⟨⟨?_, ?_⟩, ?_⟩
    · rw [hobjects, List.append_nil]
      exact h.mono (Nat.le_add_right _ _)
    · intro order _
      rw [hnone]
      rfl
    · intro order horder
      rw [pieces, ← Object.number_of_mem hold horder]
      simp [Piece.text]
  · rw [if_neg hold] at hlookup
    have hrender : (entity e).render n =
        ⟨reference n.next, [line n.next e.kindName e.fields], n.addEntity e.id⟩ := by
      rw [render, Entity.render, hlookup]
    have hfirst : firstVisits met (visitsFrom place [entity e]) =
        [⟨.entity e.id, place, entity e⟩] := by
      rw [hvisits, firstVisits, if_neg hold, firstVisits]
    have hobjects : objectsFrom met place [entity e] = [.entity e.id] := by
      rw [objectsFrom, hfirst, List.map_singleton]
    have hnext : n.next = met.length + 1 := congrArg (· + 1) h.count_eq
    rw [hrender, hobjects]
    refine ⟨⟨?_, ?_⟩, ?_⟩
    · rw [hobjects]
      exact (h.addEntity hold).mono (Nat.le_add_right _ _)
    · intro order _
      rw [hfirst, hnext]
      simp [linesOf, Visit.line, Visit.pieces, Piece.text, line, String.append_assoc]
    · intro order horder
      rw [pieces, hnext, ← Object.number_of_notMem hold horder]
      simp [Piece.text]

/-- The walk over any tree follows its visits. -/
theorem followsVisits : ∀ t : Tree, t.FollowsVisits := by
  refine part_induction ?_ ?_ ?_
  · intro t ht hitems met place n h
    cases t with
    | list items => exact absurd rfl (hitems items)
    | entity e => exact followsVisits_entity e met place n h
    | absent | literal _ | text _ | token _ =>
      exact ⟨.shown rfl (by rw [parts]) h, fun order _ => by simp [render, pieces, Piece.text]⟩
    | _ => cases ht
  · intro items ih met place n h
    obtain ⟨hlines, hviews⟩ := followsVisits_list ih (h.mono (Nat.le_succ place))
    refine ⟨.items hlines, fun order horder => ?_⟩
    rw [objectsFrom, visitsFrom_list] at horder
    rw [render, pieces, Piece.textOf_bracketed, hviews order horder]
  · intro t kind fields ht ih met place n h
    have hnew : .node place ∉ met := fun hmem => Nat.lt_irrefl _ (h.place_lt place hmem)
    have hnext : n.next = met.length + 1 := congrArg (· + 1) h.count_eq
    obtain ⟨hlines, hviews⟩ := followsVisits_fields ih h.addNode
    rw [render_of_node? ht]
    refine ⟨.node ht hnew ?_ hlines, ?_⟩
    · intro order horder
      rw [objectsFrom_node ht hnew, List.append_cons] at horder
      rw [Visit.line, pieces_visit_node ht, Piece.textOf_cons, ← hviews order horder, hnext]
      simp only [line, Piece.text, String.append_assoc]
    · intro order horder
      rw [objectsFrom_node ht hnew, List.append_cons] at horder
      rw [pieces_of_node? ht, Piece.textOf_cons, Piece.text, Piece.textOf_nil, String.append_empty,
        Object.number_of_notMem hnew ((List.prefix_append _ _).trans horder)]
      exact congrArg reference hnext

end Tree

end Quill
