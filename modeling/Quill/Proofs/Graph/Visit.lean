import Mathlib.Data.List.Nodup
import Quill.Proofs.Graph.Walk
import Quill.Proofs.Optimize.Shrink

/-!
# Visits of objects

The parts of a tree come in pre-order. Each node among them is an object of its own, told by its
place, and all references to an entity are visits of one object. The line of an object is made of
texts and of references to objects, and each object but those shown at the root is referred to by
the line of a node before it.

## Main definitions

* `Object`, `Piece` — objects, and the pieces of a line.
* `Tree.pieces t place` — what is shown of a tree.
* `Visit`, `Tree.visitsFrom place ts` — the objects that are met in trees, in order.
* `firstVisits met vs` — the visits of objects that were not met before.
* `Tree.IsClosed place ts` — references are to objects in the trees, and lead to all of them.
-/

namespace Quill

open Text Quill.Graph

/-! ## Objects and pieces -/

/-- What has a line of its own: a node, told by its place among the parts of the tree, or an entity,
told by its identity. -/
inductive Object where
  | node (place : Nat)
  | entity (id : Entity.Id)
deriving DecidableEq

/-- The number of an object among objects in order. -/
def Object.number (order : List Object) (o : Object) : Nat := order.idxOf o + 1

/-- A piece of a line: a text, or a reference to an object. -/
inductive Piece where
  | plain (text : String)
  | reference (object : Object)
deriving DecidableEq

namespace Piece

/-- What is shown of a piece where objects have their numbers in order. -/
def text (order : List Object) : Piece → String
  | plain text => text
  | reference o => Graph.reference (o.number order)

/-- What is shown of pieces in a row. -/
def textOf (order : List Object) (ps : List Piece) : String := String.join (ps.map (text order))

/-- Items in brackets. -/
def bracketed (items : List (List Piece)) : List Piece :=
  plain "[" :: ([plain ","].intercalate items ++ [plain "]"])

variable (order : List Object)

@[simp] theorem textOf_nil : textOf order [] = "" := rfl

@[simp] theorem textOf_cons (p : Piece) (ps : List Piece) :
    textOf order (p :: ps) = p.text order ++ textOf order ps := by
  apply String.toList_inj.1
  simp [textOf]

@[simp] theorem textOf_append (ps qs : List Piece) :
    textOf order (ps ++ qs) = textOf order ps ++ textOf order qs := by
  apply String.toList_inj.1
  simp [textOf]

theorem textOf_bracketed (items : List (List Piece)) :
    textOf order (bracketed items) = Graph.bracketed (items.map (textOf order)) := by
  have hcommas : ∀ items, (textOf order ([plain ","].intercalate items)).toList =
      [','].intercalate ((items.map (textOf order)).map String.toList) := by
    intro items
    induction items with
    | nil => simp
    | cons item items ih =>
      cases items with
      | nil => simp
      | cons item' items =>
        rw [List.intercalate_cons_cons, textOf_append, textOf_append, String.toList_append, ih]
        simp [List.intercalate_cons_cons, text]
  apply String.toList_inj.1
  rw [toList_bracketed, ← hcommas]
  simp [bracketed, text]

theorem mem_bracketed_of_mem {p : Piece} {items : List (List Piece)} {item : List Piece}
    (hitem : item ∈ items) (hp : p ∈ item) : p ∈ bracketed items :=
  List.mem_cons_of_mem _ (List.mem_append_left _ (mem_intercalate_of_mem hitem hp))

theorem mem_bracketed {p : Piece} {items : List (List Piece)} (h : p ∈ bracketed items) :
    p ∈ [plain "[", plain ",", plain "]"] ∨ ∃ item ∈ items, p ∈ item := by
  rcases List.mem_cons.1 h with rfl | h
  · exact .inl (by simp)
  rcases List.mem_append.1 h with h | h
  · exact (mem_intercalate h).imp (by simp +contextual) id
  · exact .inl (by simp [List.mem_singleton.1 h])

/-- The references in a bracketed list are those in its items. -/
theorem reference_mem_bracketed {o : Object} {items : List (List Piece)} :
    reference o ∈ bracketed items ↔ ∃ item ∈ items, reference o ∈ item := by
  refine ⟨fun h => (mem_bracketed h).resolve_left (by simp), ?_⟩
  rintro ⟨item, hitem, h⟩
  exact mem_bracketed_of_mem hitem h

end Piece

namespace Tree

/-! ## What is shown of a tree -/

/-- The object that a part is, at its place. -/
def object? (place : Nat) : Tree → Option Object
  | entity e => some (.entity e.id)
  | t => if t.isNode then some (.node place) else none

mutual

/-- What is shown of a tree at a place: references to nodes and entities, the items of a list one
behind the other, and the other leaves themselves. -/
def pieces : Tree → Nat → List Piece
  | list items, place => Piece.bracketed (piecesOfAll items (place + 1))
  | absent, _ => [.plain "None"]
  | literal value, _ => [.plain value.view]
  | text value, _ => [.plain (quoted value)]
  | token t, _ => [.plain t.value]
  | entity e, _ => [.reference (.entity e.id)]
  | _, place => [.reference (.node place)]

/-- What is shown of trees, the first of which is at a place. -/
def piecesOfAll : List Tree → Nat → List (List Piece)
  | [], _ => []
  | t :: ts, place => t.pieces place :: piecesOfAll ts (place + t.parts.length)

end

/-- What is shown of a field whose parts begin at a place. -/
def fieldPieces : Field Tree → Nat → List Piece
  | .text value, _ => [.plain (quoted value)]
  | .part t, place => t.pieces place
  | .parts ts, place => Piece.bracketed (piecesOfAll ts place)

/-- What is shown of fields with their names. -/
def fieldsPieces : Fields Tree → Nat → List Piece
  | [], _ => []
  | (name, field) :: fields, place =>
    .plain (" " ++ name ++ "=") ::
      (fieldPieces field place ++ fieldsPieces fields (place + (partsOfAll field.elements).length))

theorem piecesOfAll_append (ts us : List Tree) (place : Nat) :
    piecesOfAll (ts ++ us) place =
      piecesOfAll ts place ++ piecesOfAll us (place + (partsOfAll ts).length) := by
  induction ts generalizing place with
  | nil => rfl
  | cons t ts ih =>
    rw [List.cons_append, piecesOfAll, piecesOfAll, ih, partsOfAll, List.length_append,
      Nat.add_assoc, List.cons_append]

theorem pieces_of_node? {t : Tree} {x : String × Fields Tree} (h : t.node? = some x)
    (place : Nat) : t.pieces place = [.reference (.node place)] := by
  cases t <;> first | rfl | cases h

theorem object?_of_node? {t : Tree} {x : String × Fields Tree} (h : t.node? = some x)
    (place : Nat) : t.object? place = some (.node place) := by
  cases t <;> first | rfl | cases h

theorem place_of_object? {t : Tree} {place place' : Nat}
    (h : t.object? place = some (.node place')) : place' = place := by
  unfold object? at h
  split at h
  · cases h
  · split at h <;> cases h
    rfl

/-- The references in fields are those in their parts. -/
theorem reference_mem_fieldsPieces {o : Object} {fields : Fields Tree} {place : Nat} :
    .reference o ∈ fieldsPieces fields place ↔
      ∃ item ∈ piecesOfAll (fields.flatMap fun f => f.2.elements) place, .reference o ∈ item := by
  induction fields generalizing place with
  | nil => simp [fieldsPieces, piecesOfAll]
  | cons f fields ih =>
    obtain ⟨name, field⟩ := f
    have hfield : .reference o ∈ fieldPieces field place ↔
        ∃ item ∈ piecesOfAll field.elements place, .reference o ∈ item := by
      cases field with
      | text value => simp [fieldPieces, Field.elements, piecesOfAll]
      | part t => simp [fieldPieces, Field.elements, piecesOfAll]
      | parts ts => exact Piece.reference_mem_bracketed
    rw [fieldsPieces, List.mem_cons, List.mem_append, hfield, ih, List.flatMap_cons,
      piecesOfAll_append]
    simp [or_and_right, exists_or]

end Tree

/-! ## Visits -/

/-- An object that is met in a walk: the part that refers to it or is it, and its place. -/
structure Visit where
  object : Object
  place : Nat
  part : Tree

/-- What the line of a visited object shows behind its number. -/
def Visit.pieces (v : Visit) : List Piece :=
  match v.part with
  | .entity e =>
    let shown := e.fields.map fun (name, view) => " " ++ name ++ "=" ++ view
    [.plain (e.kindName ++ String.join shown)]
  | t =>
    match t.node? with
    | some (kind, fields) => .plain kind :: Tree.fieldsPieces fields (v.place + 1)
    | none => []

namespace Tree

theorem pieces_visit_node {t : Tree} {kind : String} {fields : Fields Tree}
    (h : t.node? = some (kind, fields)) (o : Object) (place : Nat) :
    (⟨o, place, t⟩ : Visit).pieces = .plain kind :: fieldsPieces fields (place + 1) := by
  cases t <;> cases h <;> rfl

/-- The objects that are met in trees the parts of which begin at a place, in pre-order. -/
def visitsFrom (place : Nat) (ts : List Tree) : List Visit :=
  ((partsOfAll ts).zipIdx place).filterMap fun (t, i) =>
    (t.object? i).map fun o => ⟨o, i, t⟩

theorem visitsFrom_append (place : Nat) (ts us : List Tree) :
    visitsFrom place (ts ++ us) =
      visitsFrom place ts ++ visitsFrom (place + (partsOfAll ts).length) us := by
  rw [visitsFrom, partsOfAll_append, List.zipIdx_append, List.filterMap_append]
  rfl

/-- A node is visited before its parts. -/
theorem visitsFrom_node {t : Tree} {kind : String} {fields : Fields Tree}
    (h : t.node? = some (kind, fields)) (place : Nat) :
    visitsFrom place [t] =
      ⟨.node place, place, t⟩ :: visitsFrom (place + 1) (fields.flatMap fun f => f.2.elements) := by
  simp [visitsFrom, partsOfAll, parts_of_node? h, object?_of_node? h]

theorem visitsFrom_list (place : Nat) (items : List Tree) :
    visitsFrom place [list items] = visitsFrom (place + 1) items := by
  simp [visitsFrom, object?, isNode, node?]

/-- What stands at a place is visited there if it is an object. -/
theorem mem_visitsFrom_iff {place : Nat} {ts : List Tree} {v : Visit} :
    v ∈ visitsFrom place ts ↔ place ≤ v.place ∧
      (partsOfAll ts)[v.place - place]? = some v.part ∧ v.part.object? v.place = some v.object := by
  obtain ⟨o, i, t⟩ := v
  simp only [visitsFrom, List.mem_filterMap, Prod.exists, List.mem_zipIdx_iff_le_and_getElem?_sub]
  constructor
  · rintro ⟨t', i', ⟨hle, ht⟩, h⟩
    obtain ⟨o', ho, hvisit⟩ := Option.map_eq_some_iff.1 h
    cases hvisit
    exact ⟨hle, ht, ho⟩
  · rintro ⟨hle, ht, ho⟩
    exact ⟨t, i, ⟨hle, ht⟩, by simp [ho]⟩

/-- Objects are visited from left to right. -/
theorem pairwise_visitsFrom (place : Nat) (ts : List Tree) :
    (visitsFrom place ts).Pairwise fun v w => v.place < w.place := by
  have hplaces : ((partsOfAll ts).zipIdx place).Pairwise fun x y => x.2 < y.2 := by
    rw [← List.pairwise_map, List.zipIdx_map_snd]
    exact List.pairwise_lt_range' 1
  refine hplaces.filterMap _ ?_
  intro x y hxy v hv w hw
  obtain ⟨-, -, rfl⟩ := Option.map_eq_some_iff.1 hv
  obtain ⟨-, -, rfl⟩ := Option.map_eq_some_iff.1 hw
  exact hxy

/-- Trees are visited between their own place and the next one. -/
theorem place_of_mem_visitsFrom {place : Nat} {ts : List Tree} {v : Visit}
    (hv : v ∈ visitsFrom place ts) :
    place ≤ v.place ∧ v.place < place + (partsOfAll ts).length := by
  obtain ⟨hle, hpart, -⟩ := mem_visitsFrom_iff.1 hv
  have hlt := (List.getElem?_eq_some_iff.1 hpart).1
  omega

/-- A node is visited once. -/
theorem eq_of_node_of_mem_visitsFrom {place : Nat} {ts : List Tree} {v w : Visit}
    (hv : v ∈ visitsFrom place ts) (hw : w ∈ visitsFrom place ts) (hnode : v.part.isNode)
    (h : w.object = v.object) : w = v := by
  obtain ⟨-, hpart, hobject⟩ := mem_visitsFrom_iff.1 hv
  obtain ⟨-, hpart', hobject'⟩ := mem_visitsFrom_iff.1 hw
  obtain ⟨x, hx⟩ := Option.isSome_iff_exists.1 hnode
  rw [object?_of_node? hx, Option.some.injEq] at hobject
  rw [h, ← hobject] at hobject'
  have hplace := place_of_object? hobject'
  rw [← hplace, hpart] at hpart'
  obtain ⟨o, i, t⟩ := v
  obtain ⟨o', i', t'⟩ := w
  obtain rfl : o' = o := h
  obtain rfl : i = i' := hplace
  obtain rfl : t = t' := Option.some.inj hpart'
  rfl

end Tree

/-! ## First visits -/

/-- The visits of objects that were not met before. -/
def firstVisits : List Object → List Visit → List Visit
  | _, [] => []
  | met, v :: vs =>
    if v.object ∈ met then firstVisits met vs else v :: firstVisits (met ++ [v.object]) vs

/-- First visits in what follows are those to objects not met before. -/
theorem firstVisits_append (met : List Object) (vs ws : List Visit) :
    firstVisits met (vs ++ ws) =
      firstVisits met vs ++ firstVisits (met ++ (firstVisits met vs).map Visit.object) ws := by
  induction vs generalizing met with
  | nil => simp [firstVisits]
  | cons v vs ih =>
    rw [List.cons_append, firstVisits, firstVisits]
    split
    · exact ih met
    · rw [ih, List.cons_append, List.map_cons, List.append_cons met v.object (List.map _ _)]

/-- No object is visited first twice. -/
theorem nodup_firstVisits {met : List Object} (hmet : met.Nodup) (vs : List Visit) :
    (met ++ (firstVisits met vs).map Visit.object).Nodup := by
  induction vs generalizing met with
  | nil => simpa [firstVisits] using hmet
  | cons v vs ih =>
    rw [firstVisits]
    split
    · exact ih hmet
    · rename_i hnew
      rw [List.map_cons, List.append_cons]
      exact ih (by simpa using hmet.concat hnew)

theorem sublist_firstVisits (met : List Object) (vs : List Visit) :
    (firstVisits met vs).Sublist vs := by
  induction vs generalizing met with
  | nil => exact List.Sublist.slnil
  | cons v vs ih =>
    rw [firstVisits]
    split
    · exact (ih met).cons v
    · exact (ih _).cons_cons v

/-- No object is lost. -/
theorem mem_firstVisits_iff {o : Object} {met : List Object} {vs : List Visit} :
    o ∈ met ++ (firstVisits met vs).map Visit.object ↔ o ∈ met ∨ o ∈ vs.map Visit.object := by
  induction vs generalizing met with
  | nil => simp [firstVisits]
  | cons v vs ih =>
    rw [firstVisits, List.map_cons, List.mem_cons]
    split
    · rename_i hold
      rw [ih]
      exact ⟨fun h => h.imp_right .inr,
        fun h => h.elim .inl fun h => h.elim (fun h => .inl (h ▸ hold)) .inr⟩
    · rw [List.map_cons, List.append_cons, ih, List.mem_append, List.mem_singleton, or_assoc]

/-- An object that was met is not visited first again. -/
theorem notMem_of_mem_firstVisits {met : List Object} {vs : List Visit} {v : Visit}
    (hv : v ∈ firstVisits met vs) : v.object ∉ met := by
  induction vs generalizing met with
  | nil => cases hv
  | cons w vs ih =>
    rw [firstVisits] at hv
    split at hv
    · exact ih hv
    · rename_i hnew
      rcases List.mem_cons.1 hv with rfl | hv
      · exact hnew
      · exact fun hmem => ih hv (List.mem_append_left _ hmem)

/-- No other visit of the object comes before its first visit. -/
theorem place_le_of_mem_firstVisits {met : List Object} {vs : List Visit} {v w : Visit}
    (hvs : vs.Pairwise fun v w => v.place < w.place) (hv : v ∈ firstVisits met vs) (hw : w ∈ vs)
    (h : w.object = v.object) : v.place ≤ w.place := by
  induction vs generalizing met with
  | nil => cases hw
  | cons x vs ih =>
    rw [List.pairwise_cons] at hvs
    rw [firstVisits] at hv
    split at hv
    · rename_i hold
      rcases List.mem_cons.1 hw with rfl | hw
      · exact absurd (h ▸ hold) (notMem_of_mem_firstVisits hv)
      · exact ih hvs.2 hv hw
    · rcases List.mem_cons.1 hv with rfl | hv
      · rcases List.mem_cons.1 hw with rfl | hw
        · exact Nat.le_refl _
        · exact Nat.le_of_lt (hvs.1 w hw)
      · rcases List.mem_cons.1 hw with rfl | hw
        · exact absurd (by simp [h]) (notMem_of_mem_firstVisits hv)
        · exact ih hvs.2 hv hw

namespace Tree

/-! ## References lead to all objects -/

/-- What is shown of trees, and in the lines of the nodes in them, refers to objects in the trees
only; and each of these is shown with the trees, or in the line of a node before it. -/
structure IsClosed (place : Nat) (ts : List Tree) : Prop where
  shown : ∀ item ∈ piecesOfAll ts place, ∀ o, .reference o ∈ item →
    o ∈ (visitsFrom place ts).map Visit.object
  lines : ∀ u ∈ visitsFrom place ts, ∀ o, .reference o ∈ u.pieces →
    o ∈ (visitsFrom place ts).map Visit.object
  reached : ∀ v ∈ visitsFrom place ts,
    (∃ item ∈ piecesOfAll ts place, .reference v.object ∈ item) ∨
      ∃ u ∈ visitsFrom place ts, u.part.isNode ∧ u.place < v.place ∧ .reference v.object ∈ u.pieces

namespace IsClosed

variable {place : Nat} {ts us : List Tree}

theorem nil (place : Nat) : IsClosed place [] :=
  ⟨by simp [piecesOfAll], by simp [visitsFrom], by simp [visitsFrom]⟩

theorem append (h : IsClosed place ts) (h' : IsClosed (place + (partsOfAll ts).length) us) :
    IsClosed place (ts ++ us) := by
  constructor
  · rw [piecesOfAll_append, visitsFrom_append, List.map_append, List.forall_mem_append]
    exact ⟨fun item hitem o ho => List.mem_append_left _ (h.shown item hitem o ho),
      fun item hitem o ho => List.mem_append_right _ (h'.shown item hitem o ho)⟩
  · rw [visitsFrom_append, List.map_append, List.forall_mem_append]
    exact ⟨fun u hu o ho => List.mem_append_left _ (h.lines u hu o ho),
      fun u hu o ho => List.mem_append_right _ (h'.lines u hu o ho)⟩
  · rw [piecesOfAll_append, visitsFrom_append, List.forall_mem_append]
    constructor
    · intro v hv
      refine (h.reached v hv).imp ?_ ?_
      · rintro ⟨item, hitem, ho⟩
        exact ⟨item, List.mem_append_left _ hitem, ho⟩
      · rintro ⟨u, hu, hline⟩
        exact ⟨u, List.mem_append_left _ hu, hline⟩
    · intro v hv
      refine (h'.reached v hv).imp ?_ ?_
      · rintro ⟨item, hitem, ho⟩
        exact ⟨item, List.mem_append_right _ hitem, ho⟩
      · rintro ⟨u, hu, hline⟩
        exact ⟨u, List.mem_append_right _ hu, hline⟩

/-- Entities are shown as references, other leaves are no objects. -/
theorem leaf {t : Tree} (ht : t.node? = none) (hlist : ∀ items, t ≠ list items) (place : Nat) :
    IsClosed place [t] := by
  cases t with
  | list items => exact absurd rfl (hlist items)
  | entity e =>
    constructor <;> simp [piecesOfAll, pieces, visitsFrom, object?, Visit.pieces]
  | absent | literal _ | text _ | token _ =>
    constructor <;> simp [piecesOfAll, pieces, visitsFrom, object?, isNode, node?]
  | _ => cases ht

/-- A list is shown as its items. -/
theorem items {items : List Tree} (h : IsClosed (place + 1) items) :
    IsClosed place [list items] := by
  have hshown : ∀ o, (∃ item ∈ piecesOfAll [list items] place, Piece.reference o ∈ item) ↔
      ∃ item ∈ piecesOfAll items (place + 1), Piece.reference o ∈ item := by
    intro o
    refine Iff.trans ?_ Piece.reference_mem_bracketed
    simp [piecesOfAll, pieces]
  constructor
  · intro item hitem o ho
    obtain ⟨item', hitem', ho'⟩ := (hshown o).1 ⟨item, hitem, ho⟩
    rw [visitsFrom_list]
    exact h.shown item' hitem' o ho'
  · rw [visitsFrom_list]
    exact h.lines
  · rw [visitsFrom_list]
    exact fun v hv => (h.reached v hv).imp (hshown _).2 id

/-- The line of a node refers to the objects that are shown with its fields. -/
theorem node {t : Tree} {kind : String} {fields : Fields Tree}
    (ht : t.node? = some (kind, fields))
    (h : IsClosed (place + 1) (fields.flatMap fun f => f.2.elements)) : IsClosed place [t] := by
  have hline : ∀ o, Piece.reference o ∈ (⟨.node place, place, t⟩ : Visit).pieces ↔
      ∃ item ∈ piecesOfAll (fields.flatMap fun f => f.2.elements) (place + 1),
        .reference o ∈ item := by
    intro o
    rw [pieces_visit_node ht, ← reference_mem_fieldsPieces]
    simp
  have hshown : piecesOfAll [t] place = [[.reference (.node place)]] := by
    rw [piecesOfAll, piecesOfAll, pieces_of_node? ht]
  constructor
  · rw [hshown, visitsFrom_node ht]
    intro item hitem o ho
    rw [List.mem_singleton.1 hitem, List.mem_singleton] at ho
    cases ho
    exact List.mem_cons_self
  · rw [visitsFrom_node ht, List.forall_mem_cons]
    constructor
    · intro o ho
      obtain ⟨item, hitem, ho⟩ := (hline o).1 ho
      exact List.mem_cons_of_mem _ (h.shown item hitem o ho)
    · exact fun u hu o ho => List.mem_cons_of_mem _ (h.lines u hu o ho)
  · rw [hshown, visitsFrom_node ht, List.forall_mem_cons]
    refine ⟨.inl ⟨_, List.mem_singleton_self _, List.mem_singleton_self _⟩, ?_⟩
    intro v hv
    rcases h.reached v hv with hitem | ⟨u, hu, hbefore⟩
    · have hnode : t.isNode := by rw [isNode, ht]; rfl
      exact .inr ⟨_, List.mem_cons_self, hnode, (place_of_mem_visitsFrom hv).1, (hline _).2 hitem⟩
    · exact .inr ⟨u, List.mem_cons_of_mem _ hu, hbefore⟩

end IsClosed

/-- References lead to all objects of trees, from what is shown of them on. -/
theorem isClosed : ∀ (t : Tree) (place : Nat), IsClosed place [t] := by
  have hlist {ts : List Tree} (hts : ∀ t ∈ ts, ∀ place, IsClosed place [t]) :
      ∀ place, IsClosed place ts := by
    induction ts with
    | nil => exact .nil
    | cons t ts ih =>
      intro place
      rw [List.forall_mem_cons] at hts
      exact (hts.1 place).append (ih hts.2 _)
  refine part_induction (fun t ht hitems => .leaf ht hitems) ?_ ?_
  · intro items ih place
    exact .items (hlist ih _)
  · intro t kind fields ht ih place
    refine .node ht (hlist ?_ _)
    intro u hu
    obtain ⟨f, hf, hu⟩ := List.mem_flatMap.1 hu
    exact Field.all_iff.1 (ih f hf) u hu

end Tree
end Quill
