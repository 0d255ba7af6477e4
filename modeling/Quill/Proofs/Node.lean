import Quill.Tree

/-!
# Nodes and leaves

A tree is a node, which has a kind and fields, or it is a leaf. In this view all nodes are alike:
what is to be proved of trees is proved of nodes in general, with fields of any names, and of
leaves.

## Main definitions

* `Field`, `Fields` — the fields of a node, of whatever stands for its parts.
* `Tree.node?` — the kind of a node and its fields.
* `Tree.leaves` — the leaves of a tree from left to right.
* `Tree.IsLeafwise` — rewritings of trees that change leaves only, as `Tree.mapLeaves`.
-/

namespace Quill

/-! ## Fields -/

/-- A field of a node: a text of its own, a part, or a list of parts. -/
inductive Field (α : Type) where
  | text (value : String)
  | part (value : α)
  | parts (values : List α)

/-- Which of the three a field is. -/
inductive FieldSort where
  | text | part | parts

/-- The fields of a node with their names. -/
abbrev Fields (α : Type) := List (String × Field α)

namespace Field

variable {α β : Type}

/-- Which of the three a field is. -/
def sort : Field α → FieldSort
  | text _ => .text
  | part _ => .part
  | parts _ => .parts

/-- The same field of other parts. -/
def map (f : α → β) : Field α → Field β
  | text value => text value
  | part value => part (f value)
  | parts values => parts (values.map f)

/-- All parts of a field have a property. -/
def All (P : α → Prop) : Field α → Prop
  | text _ => True
  | part value => P value
  | parts values => ∀ value ∈ values, P value

/-- The parts of a field. -/
def elements : Field α → List α
  | text _ => []
  | part value => [value]
  | parts values => values

theorem all_iff {P : α → Prop} {field : Field α} : field.All P ↔ ∀ a ∈ field.elements, P a := by
  cases field <;> simp [All, elements]

theorem elements_map (f : α → β) (field : Field α) :
    (field.map f).elements = field.elements.map f := by
  cases field <;> rfl

theorem map_congr {f g : α → β} {field : Field α} (h : field.All fun a => f a = g a) :
    field.map f = field.map g := by
  cases field with
  | text value => rfl
  | part value => exact congrArg part h
  | parts values => exact congrArg parts (List.map_congr_left h)

end Field

namespace Fields

variable {α β : Type}

/-- The names and the sorts of fields. -/
def signature (fields : Fields α) : List (String × FieldSort) :=
  List.map (fun (name, field) => (name, field.sort)) fields

/-- The same fields of other parts. -/
def map (f : α → β) (fields : Fields α) : Fields β :=
  List.map (fun (name, field) => (name, field.map f)) fields

theorem map_congr {f g : α → β} {fields : Fields α}
    (h : ∀ field ∈ fields, field.2.All fun a => f a = g a) : fields.map f = fields.map g :=
  List.map_congr_left fun field hfield => congrArg (field.1, ·) (Field.map_congr (h field hfield))

theorem map_id (fields : Fields α) : (fields.map fun a => a) = fields := by
  have hfield : ∀ field : Field α, (field.map fun a => a) = field := by
    intro field
    cases field <;> simp [Field.map]
  simp [Fields.map, hfield]

theorem map_map {γ : Type} (f : α → β) (g : β → γ) (fields : Fields α) :
    (fields.map f).map g = fields.map fun a => g (f a) := by
  have hfield : ∀ field : Field α, (field.map f).map g = field.map fun a => g (f a) := by
    intro field
    cases field <;> simp [Field.map]
  simp [Fields.map, hfield]

end Fields

namespace Tree

/-! ## Nodes -/

/-- The kind of a node, and its fields with their names. -/
def node? : Tree → Option (String × Fields Tree)
  | program statements => some ("Program", [("statements", .parts statements)])
  | variableDeclaration name initializer =>
    some ("VariableDeclaration", [("variable", .part name), ("initializer", .part initializer)])
  | functionDeclaration name params body =>
    some ("FunctionDeclaration",
      [("fun", .part name), ("params", .parts params), ("body", .part body)])
  | assignment target source =>
    some ("Assignment", [("target", .part target), ("source", .part source)])
  | whileLoop test body => some ("WhileStatement", [("test", .part test), ("body", .parts body)])
  | print argument => some ("PrintStatement", [("argument", .part argument)])
  | call callee args => some ("Call", [("callee", .part callee), ("args", .parts args)])
  | conditional test consequent alternate =>
    some ("Conditional",
      [("test", .part test), ("consequent", .part consequent), ("alternate", .part alternate)])
  | binary operator left right =>
    some ("BinaryExpression",
      [("op", .text operator), ("left", .part left), ("right", .part right)])
  | unary operator operand =>
    some ("UnaryExpression", [("op", .text operator), ("operand", .part operand)])
  | _ => none

/-- A node is determined by its kind and its fields. -/
theorem node?_inj {t u : Tree} {x : String × Fields Tree} (ht : t.node? = some x)
    (hu : u.node? = some x) : t = u := by
  cases t <;> cases ht <;> cases u <;> simp_all [node?]

/-- Nodes of one kind have fields of the same names and sorts. -/
theorem signature_eq_of_node? {t u : Tree} {kind : String} {fs gs : Fields Tree}
    (ht : t.node? = some (kind, fs)) (hu : u.node? = some (kind, gs)) :
    fs.signature = gs.signature := by
  cases t <;> cases ht <;> cases u <;> simp_all [node?] <;> (subst hu; rfl)

/-- The kinds of nodes. -/
def nodeKinds : List String :=
  ["Program", "VariableDeclaration", "FunctionDeclaration", "Assignment", "WhileStatement",
    "PrintStatement", "Call", "Conditional", "BinaryExpression", "UnaryExpression"]

theorem kind_mem_of_node? {t : Tree} {kind : String} {fields : Fields Tree}
    (h : t.node? = some (kind, fields)) : kind ∈ nodeKinds := by
  cases t <;> cases h <;> simp [nodeKinds]

/-- The names of the fields of nodes are words. -/
theorem noBreak_of_node? {t : Tree} {kind : String} {fields : Fields Tree}
    (h : t.node? = some (kind, fields)) : ∀ x ∈ fields.signature, '\n' ∉ x.1.toList := by
  cases t <;> cases h <;> simp [Fields.signature]

mutual

/-- What holds of leaves that are no lists, and of lists and nodes if it holds of their parts, holds
of all trees. -/
theorem part_induction {P : Tree → Prop}
    (leaf : ∀ t, t.node? = none → (∀ items, t ≠ list items) → P t)
    (items : ∀ items, (∀ t ∈ items, P t) → P (list items))
    (node : ∀ t kind fields, t.node? = some (kind, fields) → (∀ f ∈ fields, f.2.All P) → P t) :
    ∀ t : Tree, P t
  | program statements =>
    have hstatements := part_induction_list leaf items node statements
    node _ _ _ rfl (by simpa [Field.All] using hstatements)
  | variableDeclaration name initializer =>
    have hname := part_induction leaf items node name
    have hinitializer := part_induction leaf items node initializer
    node _ _ _ rfl (by simpa [Field.All] using ⟨hname, hinitializer⟩)
  | functionDeclaration name params body =>
    have hname := part_induction leaf items node name
    have hparams := part_induction_list leaf items node params
    have hbody := part_induction leaf items node body
    node _ _ _ rfl (by simpa [Field.All] using ⟨hname, hparams, hbody⟩)
  | assignment target source =>
    have htarget := part_induction leaf items node target
    have hsource := part_induction leaf items node source
    node _ _ _ rfl (by simpa [Field.All] using ⟨htarget, hsource⟩)
  | whileLoop test body =>
    have htest := part_induction leaf items node test
    have hbody := part_induction_list leaf items node body
    node _ _ _ rfl (by simpa [Field.All] using ⟨htest, hbody⟩)
  | print argument =>
    have hargument := part_induction leaf items node argument
    node _ _ _ rfl (by simpa [Field.All] using hargument)
  | call callee args =>
    have hcallee := part_induction leaf items node callee
    have hargs := part_induction_list leaf items node args
    node _ _ _ rfl (by simpa [Field.All] using ⟨hcallee, hargs⟩)
  | conditional test consequent alternate =>
    have htest := part_induction leaf items node test
    have hconsequent := part_induction leaf items node consequent
    have halternate := part_induction leaf items node alternate
    node _ _ _ rfl (by simpa [Field.All] using ⟨htest, hconsequent, halternate⟩)
  | binary _ left right =>
    have hleft := part_induction leaf items node left
    have hright := part_induction leaf items node right
    node _ _ _ rfl (by simpa [Field.All] using ⟨hleft, hright⟩)
  | unary _ operand =>
    have hoperand := part_induction leaf items node operand
    node _ _ _ rfl (by simpa [Field.All] using hoperand)
  | list ts => items ts (part_induction_list leaf items node ts)
  | absent => leaf _ rfl nofun
  | literal _ => leaf _ rfl nofun
  | text _ => leaf _ rfl nofun
  | token _ => leaf _ rfl nofun
  | entity _ => leaf _ rfl nofun

theorem part_induction_list {P : Tree → Prop}
    (leaf : ∀ t, t.node? = none → (∀ items, t ≠ list items) → P t)
    (items : ∀ items, (∀ t ∈ items, P t) → P (list items))
    (node : ∀ t kind fields, t.node? = some (kind, fields) → (∀ f ∈ fields, f.2.All P) → P t) :
    ∀ ts : List Tree, ∀ t ∈ ts, P t
  | [] => by simp
  | t :: ts => List.forall_mem_cons.2
    ⟨part_induction leaf items node t, part_induction_list leaf items node ts⟩

end

/-- What holds of leaves, lists among them, and of nodes if it holds of their parts, holds of all
trees. -/
theorem node_induction {P : Tree → Prop} (leaf : ∀ t, t.node? = none → P t)
    (node : ∀ t kind fields, t.node? = some (kind, fields) → (∀ f ∈ fields, f.2.All P) → P t) :
    ∀ t : Tree, P t :=
  part_induction (fun t ht _ => leaf t ht) (fun _ _ => leaf _ rfl) node

/-! ## Leaves -/

mutual

/-- The leaves of a tree from left to right. -/
def leaves : Tree → List Tree
  | program statements => leavesOfAll statements
  | variableDeclaration name initializer => name.leaves ++ initializer.leaves
  | functionDeclaration name params body => name.leaves ++ leavesOfAll params ++ body.leaves
  | assignment target source => target.leaves ++ source.leaves
  | whileLoop test body => test.leaves ++ leavesOfAll body
  | print argument => argument.leaves
  | call callee args => callee.leaves ++ leavesOfAll args
  | conditional test consequent alternate =>
    test.leaves ++ consequent.leaves ++ alternate.leaves
  | binary _ left right => left.leaves ++ right.leaves
  | unary _ operand => operand.leaves
  | t => [t]

/-- The leaves of trees from left to right. -/
def leavesOfAll : List Tree → List Tree
  | [] => []
  | t :: ts => t.leaves ++ leavesOfAll ts

end

theorem leavesOfAll_eq (ts : List Tree) : leavesOfAll ts = ts.flatMap leaves := by
  induction ts with
  | nil => rfl
  | cons t ts ih => rw [leavesOfAll, ih, List.flatMap_cons]

theorem leaves_of_leaf {t : Tree} (h : t.node? = none) : t.leaves = [t] := by
  cases t <;> first | rfl | cases h

/-- The leaves of a node are those of its parts in order. -/
theorem leaves_of_node? {t : Tree} {kind : String} {fields : Fields Tree}
    (h : t.node? = some (kind, fields)) :
    t.leaves = fields.flatMap fun f => f.2.elements.flatMap leaves := by
  cases t <;> cases h <;> simp [leaves, Field.elements, leavesOfAll_eq]

/-- The leaves of the parts of a node are leaves of the node. -/
theorem mem_leaves_of_node? {t : Tree} {kind : String} {fields : Fields Tree}
    (h : t.node? = some (kind, fields)) {f : String × Field Tree} (hf : f ∈ fields) :
    f.2.All fun u => ∀ a ∈ u.leaves, a ∈ t.leaves := by
  rw [Field.all_iff]
  intro u hu a ha
  rw [leaves_of_node? h]
  exact List.mem_flatMap.2 ⟨f, hf, List.mem_flatMap.2 ⟨u, hu, ha⟩⟩

/-! ## Rewritings of leaves -/

/-- A rewriting that takes a node to a node of the same kind with rewritten fields. -/
def IsLeafwise (F : Tree → Tree) : Prop :=
  ∀ t kind fields, t.node? = some (kind, fields) →
    (F t).node? = some (kind, fields.map F)

/-- Leafwise rewritings that agree on the leaves of a tree agree on the tree. -/
theorem IsLeafwise.congr {F G : Tree → Tree} (hF : IsLeafwise F) (hG : IsLeafwise G) :
    ∀ t : Tree, (∀ a ∈ t.leaves, F a = G a) → F t = G t := by
  refine node_induction ?_ ?_
  · intro t ht h
    exact h t (by rw [leaves_of_leaf ht]; exact List.mem_singleton_self t)
  · intro t kind fields ht ih h
    have hfields : fields.map F = fields.map G := by
      refine Fields.map_congr fun f hf => ?_
      have hparts := Field.all_iff.1 (ih f hf)
      have hleaves := Field.all_iff.1 (mem_leaves_of_node? ht hf)
      exact Field.all_iff.2 fun u hu => hparts u hu fun a ha => h a (hleaves u hu a ha)
    exact node?_inj (hF t kind fields ht) (hfields ▸ hG t kind fields ht)

theorem IsLeafwise.comp {F G : Tree → Tree} (hF : IsLeafwise F) (hG : IsLeafwise G) :
    IsLeafwise fun t => F (G t) := by
  intro t kind fields h
  rw [hF _ kind _ (hG t kind fields h), Fields.map_map]

mutual

/-- The tree with its leaves rewritten. -/
def mapLeaves (f : Tree → Tree) : Tree → Tree
  | program statements => program (mapLeavesOfAll f statements)
  | variableDeclaration name initializer =>
    variableDeclaration (name.mapLeaves f) (initializer.mapLeaves f)
  | functionDeclaration name params body =>
    functionDeclaration (name.mapLeaves f) (mapLeavesOfAll f params) (body.mapLeaves f)
  | assignment target source => assignment (target.mapLeaves f) (source.mapLeaves f)
  | whileLoop test body => whileLoop (test.mapLeaves f) (mapLeavesOfAll f body)
  | print argument => print (argument.mapLeaves f)
  | call callee args => call (callee.mapLeaves f) (mapLeavesOfAll f args)
  | conditional test consequent alternate =>
    conditional (test.mapLeaves f) (consequent.mapLeaves f) (alternate.mapLeaves f)
  | binary operator left right => binary operator (left.mapLeaves f) (right.mapLeaves f)
  | unary operator operand => unary operator (operand.mapLeaves f)
  | t => f t

/-- The trees with their leaves rewritten. -/
def mapLeavesOfAll (f : Tree → Tree) : List Tree → List Tree
  | [] => []
  | t :: ts => t.mapLeaves f :: mapLeavesOfAll f ts

end

/-- What rewrites the trees of a list one by one is a map. -/
theorem eq_map_of_cons {F : Tree → Tree} {G : List Tree → List Tree} (hnil : G [] = [])
    (hcons : ∀ t ts, G (t :: ts) = F t :: G ts) (ts : List Tree) : G ts = ts.map F := by
  induction ts with
  | nil => exact hnil
  | cons t ts ih => rw [hcons, ih, List.map_cons]

theorem mapLeavesOfAll_eq (f : Tree → Tree) (ts : List Tree) :
    mapLeavesOfAll f ts = ts.map (mapLeaves f) :=
  eq_map_of_cons rfl (fun _ _ => rfl) ts

/-- To rewrite the leaves is to change leaves only. -/
theorem isLeafwise_mapLeaves (f : Tree → Tree) : IsLeafwise (mapLeaves f) := by
  intro t kind fields h
  cases t <;> cases h <;> simp [mapLeaves, node?, Fields.map, Field.map, mapLeavesOfAll_eq]

theorem mapLeaves_of_leaf {f : Tree → Tree} {t : Tree} (h : t.node? = none) :
    t.mapLeaves f = f t := by
  cases t <;> first | rfl | cases h

/-- A rewriting that leaves every leaf as it is leaves the tree as it is. -/
theorem mapLeaves_eq_self {f : Tree → Tree} (hf : ∀ a, f a = a) :
    ∀ t : Tree, t.mapLeaves f = t := by
  refine node_induction ?_ ?_
  · intro a ha
    rw [mapLeaves_of_leaf ha, hf]
  · intro t kind fields ht ih
    have hfields : fields.map (mapLeaves f) = fields := by
      rw [Fields.map_congr ih, Fields.map_id]
    exact node?_inj (hfields ▸ isLeafwise_mapLeaves f t kind fields ht) ht

end Tree
end Quill
