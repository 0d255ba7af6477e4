import Quill.Proofs.Node
import Quill.Proofs.Graph.Line

/-!
# The walk of a graph

The walk treats all nodes alike: it puts the line of a node before those of its fields, in order. So
the lines that a part of a tree brings stand in one piece, behind those of what was met before, and
an entity that was met before has its line among these.

## Main definitions

* `Tree.renderFields` — how the fields of a node are shown.
* `Tree.IsLegible` — leaves of which something is shown that can stand in a line.
* `HasObject` — the line with a number shows a kind and fields.
* `Numbering.IsRecorded`, `Advances` — the entities met so far have their lines, and keep them.
* `IsKept`, `Tree.IsWalkedBy` — what every step of the walk keeps, and so the walk.
-/

namespace Quill

open Text Quill.Graph

/-! ## The walk over the fields of a node -/

/-- The view of a field, the lines of the objects it brings, and the numbering behind it. -/
structure FieldRendering where
  view : Field String
  lines : List String
  numbering : Numbering

/-- The views of fields, the lines of the objects they bring, and the numbering behind them. -/
structure FieldsRendering where
  views : Fields String
  lines : List String
  numbering : Numbering

namespace Tree

/-- Shows a field. -/
def renderField : Field Tree → Numbering → FieldRendering
  | .text value, n => ⟨.text value, [], n⟩
  | .part t, n => ⟨.part (t.render n).view, (t.render n).lines, (t.render n).numbering⟩
  | .parts ts, n =>
    ⟨.parts (renderAll ts n).views, (renderAll ts n).lines, (renderAll ts n).numbering⟩

/-- Shows fields from left to right. -/
def renderFields : Fields Tree → Numbering → FieldsRendering
  | [], n => ⟨[], [], n⟩
  | (name, field) :: fields, n =>
    let field := renderField field n
    let fields := renderFields fields field.numbering
    ⟨(name, field.view) :: fields.views, field.lines ++ fields.lines, fields.numbering⟩

theorem signature_views_renderFields (fields : Fields Tree) (n : Numbering) :
    (renderFields fields n).views.signature = fields.signature := by
  induction fields generalizing n with
  | nil => rfl
  | cons f fields ih =>
    obtain ⟨name, f⟩ := f
    have hsort : (renderField f n).view.sort = f.sort := by cases f <;> rfl
    simp only [renderFields, Fields.signature, List.map_cons, hsort] at ih ⊢
    rw [ih]

/-- The line of a node is followed by those of its fields. -/
theorem render_of_node? {t : Tree} {kind : String} {fields : Fields Tree}
    (h : t.node? = some (kind, fields)) (n : Numbering) :
    t.render n =
      let shown := renderFields fields n.addNode
      n.node kind shown.views.views shown.lines shown.numbering := by
  cases t <;> cases h <;>
    simp [render, renderFields, renderField, Fields.views, Field.view]

end Tree

/-! ## Entities as objects -/

namespace Entity

/-- The fields that the line of an entity shows. -/
def shownFields (e : Entity) : Fields String :=
  let paramCount : Fields String :=
    match e.kind with
    | .variable => []
    | .function paramCount => [("param_count", .part (toString paramCount))]
  ("name", .text e.name) :: paramCount ++ [("read_only", .part (booleanName e.readOnly))]

theorem views_shownFields (e : Entity) : e.shownFields.views = e.fields := by
  unfold shownFields fields
  cases e.kind <;> rfl

/-- Entities that are shown alike have the same name. -/
theorem name_eq_of_fieldChars_eq {e e' : Entity}
    (h : fieldChars e.shownFields = fieldChars e'.shownFields) : e.name = e'.name := by
  simp only [shownFields, fieldChars, List.cons_append, List.flatMap_cons, Field.view, quoted,
    String.toList_ofList, List.append_assoc, List.cons.injEq, true_and] at h
  have hname := quotedChars_append_inj (List.cons.inj (List.append_cancel_left h)).2
  exact String.toList_inj.1 hname.1

/-- The kinds of entities. -/
def kindNames : List String := ["Variable", "Function"]

theorem kindName_mem (e : Entity) : e.kindName ∈ kindNames := by
  unfold kindName
  cases e.kind <;> simp [kindNames]

end Entity

theorem isPlain_booleanName (b : Bool) : IsPlain (booleanName b) := by
  cases b <;> decide

theorem isPlain_repr (k : Int) : IsPlain k.repr := by
  have hchars : ∃ n, k.repr.toList = Nat.toDigits 10 n ∨
      k.repr.toList = '-' :: Nat.toDigits 10 n := by
    cases k with
    | ofNat n => exact ⟨n, .inl Nat.toList_repr⟩
    | negSucc n => exact ⟨n + 1, .inr (by simp [Int.repr, Nat.toList_repr])⟩
  obtain ⟨n, hchars⟩ := hchars
  refine .of_forall (p := fun c => isDigit c || c = '-') ?_ ?_ (by decide +kernel)
    (by decide +kernel) (by decide +kernel)
  · rcases hchars with h | h <;> rw [h]
    · exact Nat.toDigits_ne_nil
    · exact List.cons_ne_nil _ _
  · intro c hc
    rcases hchars with h | h <;> rw [h] at hc
    · simp [isDigit_of_mem_toDigits hc]
    · rcases List.mem_cons.1 hc with rfl | hc
      · decide +kernel
      · simp [isDigit_of_mem_toDigits hc]

theorem isPlain_display (x : Number) : IsPlain x.display := by
  refine .of_forall (p := fun c => isDigit c || c ∈ ['.', 'e', 'E', '+', '-', 'n', 'a', 'i', 'f'])
    ?_ ?_ (by decide +kernel) (by decide +kernel) (by decide +kernel)
  · rw [Number.display, String.toList_ofList]
    exact x.displayChars_ne_nil
  · intro c hc
    rw [Number.display, String.toList_ofList] at hc
    simpa using Number.mem_displayChars hc

/-- All kinds are words. -/
theorem isPlain_kind : ∀ kind ∈ Tree.nodeKinds ++ Entity.kindNames, IsPlain kind := by
  decide

/-- No kind of a node is one of an entity. -/
theorem kind_ne_kindName {kind : String} (h : kind ∈ Tree.nodeKinds) (e : Entity) :
    kind ≠ e.kindName := by
  have hne : ∀ k ∈ Tree.nodeKinds, ∀ k' ∈ Entity.kindNames, k ≠ k' := by decide
  exact hne kind h _ e.kindName_mem

/-! ## Legible leaves -/

namespace Tree

/-- What is shown of a token or a literal where it stands. -/
def view? : Tree → Option String
  | literal value => some value.view
  | token t => some t.value
  | _ => none

/-- Is something shown of the leaf that can stand in a line and is no reference? -/
def IsLegible (E : Entity → Prop) : Tree → Prop
  | literal _ => True
  | token t => IsPlain t.value ∧ t.value.toList.head? ≠ some '#'
  | entity e => E e
  | _ => False

end Tree

/-- A literal is shown unquoted, and not like a reference. -/
theorem Literal.isPlain_view (v : Literal) :
    IsPlain v.view ∧ v.view.toList.head? ≠ some '#' := by
  cases v with
  | number x =>
    refine ⟨isPlain_display x, ?_⟩
    intro h
    rw [Literal.view, Number.display, String.toList_ofList] at h
    have hsharp : ¬ (isDigit '#' ∨ '#' ∈ ['.', 'e', 'E', '+', '-', 'n', 'a', 'i', 'f']) := by
      decide +kernel
    exact hsharp (Number.mem_displayChars (List.mem_of_mem_head? h))
  | boolean b =>
    refine ⟨isPlain_booleanName b, ?_⟩
    cases b <;> decide

/-! ## Objects in a graph -/

/-- The line of the object with a number shows its kind and its fields. -/
def HasObject (L : List String) (number : Nat) (kind : String) (fields : Fields String) : Prop :=
  ∃ i, number = i + 1 ∧ L[i]? = some (line number kind fields.views)

/-- A number belongs to one object. -/
theorem HasObject.eq {L : List String} {number : Nat} {kind kind' : String} {fs gs : Fields String}
    (hkind : kind ∈ Tree.nodeKinds ++ Entity.kindNames)
    (hkind' : kind' ∈ Tree.nodeKinds ++ Entity.kindNames) (h : HasObject L number kind fs)
    (h' : HasObject L number kind' gs) : kind = kind' ∧ fieldChars fs = fieldChars gs := by
  obtain ⟨i, rfl, hline⟩ := h
  obtain ⟨j, hij, hline'⟩ := h'
  obtain rfl := Nat.succ.inj hij
  exact kind_eq_of_line_eq (isPlain_kind kind hkind).noSpace (isPlain_kind kind' hkind').noSpace
    (Option.some.inj (hline.symm.trans hline'))

section
variable (L : List String) (E : Entity → Prop)

/-- The entities met so far have their lines. -/
def Numbering.IsRecorded (n : Numbering) : Prop :=
  ∀ id number, n.entities.lookup id = some number →
    ∀ e, E e → e.id = id → HasObject L number e.kindName e.shownFields

/-- The walk goes from one numbering to another one and brings lines, each of one piece. Where these
lines stand in the graph, entities stay recorded. -/
structure Advances (n : Numbering) (lines : List String) (n' : Numbering) : Prop where
  noBreak : ∀ l ∈ lines, '\n' ∉ l.toList
  count_eq : n'.count = n.count + lines.length
  isRecorded : lines <+: L.drop n.count → n.IsRecorded L E → n'.IsRecorded L E

end

variable {L : List String} {E : Entity → Prop}

theorem prefix_of_append_prefix_drop {xs ys : List String} {k : Nat}
    (h : xs ++ ys <+: L.drop k) : xs <+: L.drop k ∧ ys <+: L.drop (k + xs.length) := by
  obtain ⟨rest, hrest⟩ := h
  refine ⟨⟨ys ++ rest, by rw [← hrest, List.append_assoc]⟩, ⟨rest, ?_⟩⟩
  rw [← List.drop_drop, ← hrest, List.append_assoc, List.drop_left]

theorem prefix_of_cons_prefix_drop {l : String} {ls : List String} {k : Nat}
    (h : l :: ls <+: L.drop k) : L[k]? = some l ∧ ls <+: L.drop (k + 1) := by
  obtain ⟨rest, hrest⟩ := h
  have hhead : (L.drop k)[0]? = some l := by rw [← hrest]; rfl
  refine ⟨by simpa using hhead, rest, ?_⟩
  rw [← List.drop_drop, ← hrest]
  rfl

theorem Advances.refl (n : Numbering) : Advances L E n [] n := ⟨by simp, rfl, fun _ h => h⟩

theorem Advances.trans {n n' n'' : Numbering} {ls ls' : List String} (h : Advances L E n ls n')
    (h' : Advances L E n' ls' n'') : Advances L E n (ls ++ ls') n'' where
  noBreak := List.forall_mem_append.2 ⟨h.noBreak, h'.noBreak⟩
  count_eq := by rw [h'.count_eq, h.count_eq, List.length_append, Nat.add_assoc]
  isRecorded hlines hn := by
    obtain ⟨hfirst, hsecond⟩ := prefix_of_append_prefix_drop hlines
    rw [← h.count_eq] at hsecond
    exact h'.isRecorded hsecond (h.isRecorded hfirst hn)

/-- A node brings its line before those of its parts. -/
theorem Advances.node {n n' : Numbering} {l : String} {ls : List String} (hl : '\n' ∉ l.toList)
    (h : Advances L E n.addNode ls n') : Advances L E n (l :: ls) n' where
  noBreak := List.forall_mem_cons.2 ⟨hl, h.noBreak⟩
  count_eq := by
    simp only [h.count_eq, List.length_cons, Numbering.addNode, Numbering.next]
    omega
  isRecorded hlines hn :=
    h.isRecorded (prefix_of_cons_prefix_drop hlines).2 hn

theorem noBreak_entity (n : Nat) (e : Entity) : '\n' ∉ (line n e.kindName e.fields).toList := by
  rw [← e.views_shownFields]
  refine noBreak_line ?_ ?_ ?_
  · exact (isPlain_kind _ (List.mem_append_right _ e.kindName_mem)).noBreak
  · unfold Entity.shownFields
    cases e.kind <;>
      simp only [Fields.signature, List.cons_append, List.nil_append, List.map_cons, List.map_nil,
        Field.sort] <;> decide
  · unfold Entity.shownFields
    cases e.kind <;> simp [Field.All, isPlain_booleanName, isPlain_repr]

/-- An entity brings its line where it is met first. -/
theorem advances_entity (hE : ∀ e e', E e → E e' → e.id = e'.id → e = e') {e : Entity} (he : E e)
    (n : Numbering) : Advances L E n (e.render n).lines (e.render n).numbering := by
  unfold Entity.render
  split
  · exact .refl n
  · refine ⟨by simpa using noBreak_entity _ e, rfl, ?_⟩
    intro hlines hn id number hlookup e' he' hid
    simp only [Numbering.addEntity, List.lookup_append, Option.or_eq_some_iff] at hlookup
    rcases hlookup with hlookup | ⟨-, hlookup⟩
    · exact hn id number hlookup e' he' hid
    · rw [List.lookup_cons] at hlookup
      split at hlookup
      · rename_i hmet
        have heq : e' = e := hE _ _ he' he (hid.trans (beq_iff_eq.1 hmet))
        obtain rfl := Option.some.inj hlookup
        subst heq
        refine ⟨n.count, rfl, ?_⟩
        rw [e'.views_shownFields]
        exact (prefix_of_cons_prefix_drop hlines).1
      · simp at hlookup

/-! ## The walk -/

/-- A relation of the numbering before trees, the trees, the lines that they bring, and the
numbering behind them. Every step of the walk keeps it. -/
structure IsKept (E : Entity → Prop)
    (R : Numbering → List Tree → List String → Numbering → Prop) : Prop where
  nil : ∀ n, R n [] [] n
  append : ∀ {n n' n'' ts us ls ls'}, R n ts ls n' → R n' us ls' n'' →
    R n (ts ++ us) (ls ++ ls') n''
  shown : ∀ {a}, a.view?.isSome → ∀ n, R n [a] [] n
  entity : ∀ {e}, E e → ∀ n, R n [.entity e] (e.render n).lines (e.render n).numbering
  node : ∀ {t kind fields n l ls n'}, t.node? = some (kind, fields) → '\n' ∉ l.toList →
    R n.addNode (fields.flatMap fun f => f.2.elements) ls n' → R n [t] (l :: ls) n'

/-- The lines of the walk are of one piece, numbered in order, and keep the entities recorded. -/
theorem isKept_advances (hE : ∀ e e', E e → E e' → e.id = e'.id → e = e') :
    IsKept E fun n _ ls n' => Advances L E n ls n' where
  nil := .refl
  append := .trans
  shown _ := .refl
  entity := advances_entity hE
  node _ := .node

namespace Tree

/-- The walk over a tree shows it unquoted, and is related in this way to what it brings. -/
def IsWalkedBy (E : Entity → Prop) (R : Numbering → List Tree → List String → Numbering → Prop)
    (t : Tree) : Prop :=
  (∀ a ∈ t.leaves, a.IsLegible E) →
    ∀ n, IsPlain (t.render n).view ∧ R n [t] (t.render n).lines (t.render n).numbering

variable {R : Numbering → List Tree → List String → Numbering → Prop} (hR : IsKept E R)
include hR

/-- A relation that every step of rendering keeps holds of a list of trees. -/
theorem walked_list {ts : List Tree} (hts : ∀ t ∈ ts, t.IsWalkedBy E R)
    (hleaves : ∀ t ∈ ts, ∀ a ∈ t.leaves, a.IsLegible E) (n : Numbering) :
    (∀ view ∈ (renderAll ts n).views, IsPlain view) ∧
      R n ts (renderAll ts n).lines (renderAll ts n).numbering := by
  induction ts generalizing n with
  | nil => exact ⟨by simp [renderAll], hR.nil n⟩
  | cons t ts ih =>
    rw [List.forall_mem_cons] at hts hleaves
    obtain ⟨hview, hstep⟩ := hts.1 hleaves.1 n
    obtain ⟨hviews, hsteps⟩ := ih hts.2 hleaves.2 (t.render n).numbering
    exact ⟨List.forall_mem_cons.2 ⟨hview, hviews⟩, hR.append hstep hsteps⟩

theorem walked_field {f : Field Tree} (hf : f.All (IsWalkedBy E R))
    (hleaves : f.All fun t => ∀ a ∈ t.leaves, a.IsLegible E) (n : Numbering) :
    (renderField f n).view.All IsPlain ∧
      R n f.elements (renderField f n).lines (renderField f n).numbering := by
  cases f with
  | text value => exact ⟨trivial, hR.nil n⟩
  | part t => exact hf hleaves n
  | parts ts => exact walked_list hR hf hleaves n

/-- A relation that every step of rendering keeps holds of the fields of a node. -/
theorem walked_fields {fields : Fields Tree} (hfields : ∀ f ∈ fields, f.2.All (IsWalkedBy E R))
    (hleaves : ∀ f ∈ fields, f.2.All fun t => ∀ a ∈ t.leaves, a.IsLegible E) (n : Numbering) :
    (∀ f ∈ (renderFields fields n).views, f.2.All IsPlain) ∧
      R n (fields.flatMap fun f => f.2.elements) (renderFields fields n).lines
        (renderFields fields n).numbering := by
  induction fields generalizing n with
  | nil => exact ⟨by simp [renderFields], hR.nil n⟩
  | cons f fields ih =>
    obtain ⟨name, f⟩ := f
    rw [List.forall_mem_cons] at hfields hleaves
    obtain ⟨hview, hstep⟩ := walked_field hR hfields.1 hleaves.1 n
    obtain ⟨hviews, hsteps⟩ := ih hfields.2 hleaves.2 (renderField f n).numbering
    exact ⟨List.forall_mem_cons.2 ⟨hview, hviews⟩, hR.append hstep hsteps⟩

/-- The walk over a tree of legible leaves shows it unquoted, and keeps what each step keeps. -/
theorem isWalkedBy : ∀ t : Tree, t.IsWalkedBy E R := by
  refine node_induction ?_ ?_
  · intro t ht hleaves n
    have hlegible := hleaves t (by rw [leaves_of_leaf ht]; exact List.mem_singleton_self t)
    cases t with
    | literal v => exact ⟨v.isPlain_view.1, hR.shown rfl n⟩
    | token t => exact ⟨hlegible.1, hR.shown rfl n⟩
    | entity e =>
      refine ⟨?_, hR.entity hlegible n⟩
      simp only [render, Entity.render]
      split <;> exact isPlain_reference _
    | absent | text _ | list _ => exact hlegible.elim
    | _ => cases ht
  · intro t kind fields ht ih hleaves n
    have hparts : ∀ f ∈ fields, f.2.All fun u => ∀ a ∈ u.leaves, a.IsLegible E := by
      intro f hf
      refine Field.all_iff.2 fun u hu a ha => hleaves a ?_
      exact Field.all_iff.1 (mem_leaves_of_node? ht hf) u hu a ha
    obtain ⟨hviews, hsteps⟩ := walked_fields hR ih hparts n.addNode
    rw [render_of_node? ht]
    refine ⟨isPlain_reference _, hR.node ht (noBreak_line ?_ ?_ hviews) hsteps⟩
    · exact (isPlain_kind kind (List.mem_append_left _ (kind_mem_of_node? ht))).noBreak
    · rw [signature_views_renderFields]
      exact noBreak_of_node? ht

end Tree

end Quill
