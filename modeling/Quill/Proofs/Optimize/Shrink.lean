import Mathlib.Data.List.Flatten
import Quill.Proofs.Node
import Quill.Proofs.Optimize.Normal

/-!
# The pass makes no tree larger

Every rule drops a node and keeps some of its parts, or puts one node in place of a larger one. So
an optimized tree is the tree itself or has fewer parts, it has no more nodes, and each entity and
each call in it comes from the tree.

## Main definitions

* `Tree.Mention` — an entity, or a call with its number of arguments.
* `Tree.Shrinks` — trees in place of others, with no more nodes and nothing new mentioned.
-/

namespace Quill.Tree

/-- Is the tree a node? -/
def isNode (t : Tree) : Bool := t.node?.isSome

/-- What an optimized tree can only take over: an entity, or a call with its number of arguments. -/
inductive Mention where
  | entity (entity : Entity)
  | call (callee : Tree) (count : Nat)

/-- What a part mentions by itself. -/
def mention? : Tree → Option Mention
  | entity e => some (.entity e)
  | call callee args => some (.call callee args.length)
  | _ => none

/-- What trees mention at any depth. -/
def mentioned (ts : List Tree) : List Mention := (partsOfAll ts).filterMap mention?

/-- The trees are the others, or have fewer parts; they have no more nodes, and they mention nothing
else. -/
structure Shrinks (ts us : List Tree) : Prop where
  smaller : us = ts ∨ (partsOfAll us).length < (partsOfAll ts).length
  nodes : (partsOfAll us).countP isNode ≤ (partsOfAll ts).countP isNode
  mentioned : ∀ m ∈ mentioned us, m ∈ mentioned ts

theorem partsOfAll_eq (ts : List Tree) : partsOfAll ts = ts.flatMap parts := by
  induction ts with
  | nil => rfl
  | cons t ts ih => rw [partsOfAll, ih, List.flatMap_cons]

theorem partsOfAll_append (ts us : List Tree) :
    partsOfAll (ts ++ us) = partsOfAll ts ++ partsOfAll us := by
  rw [partsOfAll_eq, partsOfAll_eq, partsOfAll_eq, List.flatMap_append]

/-- The parts of a node are the node and the parts of its fields, from left to right. -/
theorem parts_of_node? {t : Tree} {kind : String} {fields : Fields Tree}
    (h : t.node? = some (kind, fields)) :
    t.parts = t :: partsOfAll (fields.flatMap fun f => f.2.elements) := by
  cases t <;> cases h <;> simp [Field.elements, partsOfAll_append]

theorem self_mem_parts (t : Tree) : t ∈ t.parts := by
  cases t <;> simp [parts]

theorem mem_parts_of_mem {items : List Tree} {t : Tree} (ht : t ∈ items) :
    t ∈ (list items).parts := by
  rw [parts, partsOfAll_eq]
  exact List.mem_cons_of_mem _ (List.mem_flatMap.2 ⟨t, ht, t.self_mem_parts⟩)

theorem mem_parts_of_node? {t : Tree} {kind : String} {fields : Fields Tree}
    (h : t.node? = some (kind, fields)) {f : String × Field Tree} (hf : f ∈ fields) :
    f.2.All fun u => u ∈ t.parts := by
  refine Field.all_iff.2 fun u hu => ?_
  rw [parts_of_node? h, partsOfAll_eq]
  have helement : u ∈ fields.flatMap fun f => f.2.elements := List.mem_flatMap.2 ⟨f, hf, hu⟩
  exact List.mem_cons_of_mem _ (List.mem_flatMap.2 ⟨u, helement, u.self_mem_parts⟩)

/-- The parts of a part are parts of the tree. -/
theorem parts_subset {s : Tree} : ∀ t : Tree, s ∈ t.parts → s.parts ⊆ t.parts := by
  have hlist {ts : List Tree} (hts : ∀ t ∈ ts, s ∈ t.parts → s.parts ⊆ t.parts)
      (hs : s ∈ partsOfAll ts) : s.parts ⊆ partsOfAll ts := by
    rw [partsOfAll_eq] at hs ⊢
    obtain ⟨t, ht, hs⟩ := List.mem_flatMap.1 hs
    exact fun r hr => List.mem_flatMap.2 ⟨t, ht, hts t ht hs hr⟩
  refine part_induction ?_ ?_ ?_
  · intro t ht hitems hs
    have hparts : t.parts = [t] := by
      cases t <;> first | rfl | exact absurd rfl (hitems _) | cases ht
    rw [hparts, List.mem_singleton] at hs
    rw [hs]
    exact List.Subset.refl _
  · intro items ih hs
    rcases List.mem_cons.1 hs with rfl | hs
    · exact List.Subset.refl _
    · exact fun r hr => List.mem_cons_of_mem _ (hlist ih hs hr)
  · intro t kind fields ht ih hs
    rw [parts_of_node? ht] at hs ⊢
    rcases List.mem_cons.1 hs with rfl | hs
    · rw [parts_of_node? ht]
      exact List.Subset.refl _
    · refine fun r hr => List.mem_cons_of_mem _ (hlist ?_ hs hr)
      intro u hu
      obtain ⟨f, hf, hu⟩ := List.mem_flatMap.1 hu
      exact Field.all_iff.1 (ih f hf) u hu

theorem mentioned_append (ts us : List Tree) :
    Tree.mentioned (ts ++ us) = Tree.mentioned ts ++ Tree.mentioned us := by
  rw [Tree.mentioned, partsOfAll_append, List.filterMap_append]
  rfl

theorem length_parts_pos (t : Tree) : 0 < t.parts.length :=
  List.length_pos_of_mem t.self_mem_parts

namespace Shrinks

variable {ts us ts' us' : List Tree} {t u : Tree}

theorem refl (ts : List Tree) : Shrinks ts ts := ⟨.inl rfl, Nat.le_refl _, fun _ hm => hm⟩

/-- What shrinks has no more parts. -/
theorem length_le (h : Shrinks ts us) : (partsOfAll us).length ≤ (partsOfAll ts).length := by
  rcases h.smaller with rfl | hlt
  · exact Nat.le_refl _
  · exact Nat.le_of_lt hlt

theorem append (h : Shrinks ts us) (h' : Shrinks ts' us') : Shrinks (ts ++ ts') (us ++ us') where
  smaller := by
    have hle := h.length_le
    have hle' := h'.length_le
    simp only [partsOfAll_append, List.length_append]
    rcases h.smaller with rfl | hlt
    · rcases h'.smaller with rfl | hlt'
      · exact .inl rfl
      · exact .inr (by omega)
    · exact .inr (by omega)
  nodes := by
    have hle := h.nodes
    have hle' := h'.nodes
    simp only [partsOfAll_append, List.countP_append]
    omega
  mentioned := by
    simp only [mentioned_append, List.mem_append]
    exact fun m hm => hm.imp (h.mentioned m) (h'.mentioned m)

/-- A node stays, around trees that shrink. -/
theorem node (ht : t.parts = t :: partsOfAll ts) (hu : u.parts = u :: partsOfAll us)
    (hnode : u.isNode = t.isNode) (hmention : u.mention? = t.mention?)
    (heq : us = ts → u = t) (h : Shrinks ts us) : Shrinks [t] [u] where
  smaller := by
    rcases h.smaller with hsame | hlt
    · exact .inl (by rw [heq hsame])
    · exact .inr (by simpa [ht, hu] using hlt)
  nodes := by
    have hle := h.nodes
    simp only [partsOfAll, List.append_nil, ht, hu, List.countP_cons, hnode]
    omega
  mentioned := by
    have hsub := h.mentioned
    simp only [Tree.mentioned, partsOfAll, List.append_nil, ht, hu, List.filterMap_cons,
      hmention] at hsub ⊢
    cases t.mention? with
    | none => exact hsub
    | some m =>
      intro m' hm'
      exact List.mem_cons.2 ((List.mem_cons.1 hm').imp_right (hsub m'))

/-- Some of the trees that its parts shrink to replace a node. -/
theorem of_sublist (ht : t.parts = t :: partsOfAll ts) (h : Shrinks ts us) (hs : us'.Sublist us) :
    Shrinks [t] us' := by
  have hparts : (partsOfAll us').Sublist (partsOfAll us) := by
    rw [partsOfAll_eq, partsOfAll_eq]
    exact hs.flatMap parts
  have hall : partsOfAll [t] = t :: partsOfAll ts := by
    rw [partsOfAll, partsOfAll, ht, List.append_nil]
  refine ⟨.inr ?_, ?_, ?_⟩
  · have hle := hparts.length_le
    have hle' := h.length_le
    rw [hall, List.length_cons]
    omega
  · have hle := hparts.countP_le (p := isNode)
    have hle' := h.nodes
    rw [hall, List.countP_cons]
    omega
  · intro m hm
    have hbefore := h.mentioned m ((hparts.filterMap mention?).subset hm)
    rw [Tree.mentioned, hall]
    exact (List.sublist_cons_self t _).filterMap mention? |>.subset hbefore

/-- A literal replaces a node with parts. -/
theorem of_literal (ht : t.parts = t :: partsOfAll ts) (hne : ts ≠ []) (v : Literal) :
    Shrinks [t] [literal v] := by
  obtain ⟨s, ss, rfl⟩ := List.exists_cons_of_ne_nil hne
  refine ⟨.inr ?_, Nat.zero_le _, nofun⟩
  have hpos := length_parts_pos s
  simp only [partsOfAll, List.append_nil, ht, parts, List.length_cons, List.length_append,
    List.length_nil]
  omega

/-- The negation of an operand replaces a binary node. -/
theorem of_negation {s : String} {l r e : Tree} (h : Shrinks [r] [e]) :
    Shrinks [binary s l r] [unary "-" e] := by
  have hpos := length_parts_pos l
  have hle := h.length_le
  have hnodes := h.nodes
  have hmentioned := h.mentioned
  simp only [partsOfAll, List.append_nil] at hle hnodes
  simp only [Tree.mentioned, partsOfAll, List.append_nil] at hmentioned
  refine ⟨.inr ?_, ?_, ?_⟩
  · simp only [partsOfAll, List.append_nil, parts, List.length_cons, List.length_append]
    omega
  · simp only [partsOfAll, List.append_nil, parts, List.countP_cons, List.countP_append, isNode,
      node?, Option.isSome_some, if_true]
    omega
  · simp only [Tree.mentioned, partsOfAll, List.append_nil, parts, List.filterMap_cons, mention?,
      List.filterMap_append, List.mem_append]
    exact fun m hm => .inr (hmentioned m hm)

end Shrinks

/-! ## One node -/

variable {s : String} {callee test consequent alternate l r e : Tree} {args : List Tree}

theorem shrinks_foldUnary {e' : Tree} (he : Shrinks [e] [e']) :
    Shrinks [unary s e] [foldUnary s e'] := by
  have hparts : (unary s e).parts = unary s e :: partsOfAll [e] := by simp
  rcases foldUnary_cases s e' with ⟨v, h⟩ | ⟨h, -⟩ <;> rw [h]
  · exact .of_literal hparts (List.cons_ne_nil _ _) _
  · exact .node hparts (by simp) rfl rfl (by simp) he

theorem shrinks_foldConditional {test' consequent' alternate' : Tree} (ht : Shrinks [test] [test'])
    (hc : Shrinks [consequent] [consequent']) (ha : Shrinks [alternate] [alternate']) :
    Shrinks [conditional test consequent alternate]
      [foldConditional test' consequent' alternate'] := by
  have hparts : (conditional test consequent alternate).parts =
      conditional test consequent alternate :: partsOfAll [test, consequent, alternate] := by simp
  have hall : Shrinks [test, consequent, alternate] [test', consequent', alternate'] :=
    ht.append (hc.append ha)
  rcases foldConditional_cases test' consequent' alternate' with h | h | ⟨h, -⟩ <;> rw [h]
  · exact .of_sublist hparts hall (by simp)
  · exact .of_sublist hparts hall (by simp)
  · exact .node hparts (by simp) rfl rfl (by simp) hall

/-- An assignment stays, or leaves no statement. -/
theorem shrinks_foldAssignment {target source source' : Tree} (hs : Shrinks [source] [source']) :
    Shrinks [assignment target source] (splice (foldAssignment target source') []) := by
  have hparts : (assignment target source).parts =
      assignment target source :: partsOfAll [target, source] := by simp
  have hall : Shrinks [target, source] [target, source'] := (Shrinks.refl [target]).append hs
  rcases foldAssignment_cases target source' with h | ⟨h, -⟩ <;> rw [h]
  · exact .of_sublist hparts hall (List.nil_sublist _)
  · exact .node hparts (by simp) rfl rfl (by simp) hall

theorem splice_eq_append (t : Tree) (ts : List Tree) : splice t ts = splice t [] ++ ts := by
  cases t <;> simp [splice]

section Pass

variable [Arithmetic]

/-- The rules for an operation drop parts, or put a literal in place of them. -/
theorem shrinks_foldBinary {l' r' : Tree} (hl : Shrinks [l] [l']) (hr : Shrinks [r] [r']) :
    Shrinks [binary s l r] [foldBinary s l' r'] := by
  have hparts : (binary s l r).parts = binary s l r :: partsOfAll [l, r] := by simp
  have hoperands : Shrinks [l, r] [l', r'] := hl.append hr
  have hstep := binaryStep_foldBinary s l' r'
  generalize foldBinary s l' r' = t at hstep
  cases hstep with
  | folded value => exact .of_literal hparts (List.cons_ne_nil _ _) _
  | left other symbol identity =>
    rcases identity.result with rfl | rfl | ⟨y, rfl⟩
    · exact .of_sublist hparts hoperands (List.sublist_cons_self _ _)
    · exact .of_negation hr
    · exact .of_literal hparts (List.cons_ne_nil _ _) _
  | right other symbol identity =>
    rcases identity.result with rfl | ⟨y, rfl⟩
    · exact .of_sublist hparts hoperands (by simp)
    · exact .of_literal hparts (List.cons_ne_nil _ _) _
  | kept stays =>
    exact .node hparts (by simp) rfl rfl (by simp) hoperands

theorem shrinks_foldCall {args' : List Tree} (hargs : Shrinks args args')
    (hlength : args'.length = args.length) :
    Shrinks [call callee args] [foldCall callee args'] := by
  have hparts : (call callee args).parts = call callee args :: partsOfAll (callee :: args) := rfl
  rcases foldCall_cases callee args' with ⟨-, -, -, x, -, -, -, -, h⟩ | ⟨h, -⟩ <;> rw [h]
  · exact .of_literal hparts (List.cons_ne_nil _ _) _
  · refine .node hparts rfl rfl (by rw [mention?, mention?, hlength]) ?_
      ((Shrinks.refl [callee]).append hargs)
    simp

/-! ## The pass -/

section
variable {N : Naming}

mutual

/-- The pass shrinks an expression, or leaves it as it is. -/
theorem shrinks_optimize : ∀ t : Tree, t.IsExpression N → Shrinks [t] [t.optimize]
  | literal _, _ | token _, _ | entity _, _ => .refl _
  | call _ args, ht =>
    shrinks_foldCall (shrinks_optimizeAll args ht.2) (areExpressions_optimizeAll args ht.2).2
  | conditional test consequent alternate, ht =>
    shrinks_foldConditional (shrinks_optimize test ht.1) (shrinks_optimize consequent ht.2.1)
      (shrinks_optimize alternate ht.2.2)
  | binary _ left right, ht =>
    shrinks_foldBinary (shrinks_optimize left ht.1) (shrinks_optimize right ht.2)
  | unary _ operand, ht => shrinks_foldUnary (shrinks_optimize operand ht)
  | absent, ht | text _, ht | list _, ht | program _, ht | variableDeclaration _ _, ht
  | functionDeclaration _ _ _, ht | assignment _ _, ht | whileLoop _ _, ht | print _, ht => ht.elim

theorem shrinks_optimizeAll : ∀ ts : List Tree, AreExpressions N ts → Shrinks ts (optimizeAll ts)
  | [], _ => .refl []
  | t :: ts, hts => by
    rw [optimizeAll, splice_of_isExpression (isExpression_optimize t hts.1)]
    exact (shrinks_optimize t hts.1).append (shrinks_optimizeAll ts hts.2)

end

end

mutual

/-- What replaces a statement is no larger. -/
theorem shrinks_statement : ∀ t : Tree, t.IsStatement Naming.resolved →
    Shrinks [t] (splice t.optimize [])
  | variableDeclaration name initializer, ht => by
    have hall := (Shrinks.refl [name]).append (shrinks_optimize initializer ht.2)
    exact .node (by simp) (by simp) rfl rfl (by simp) hall
  | functionDeclaration name params body, ht => by
    have hall := (Shrinks.refl (name :: params)).append (shrinks_optimize body ht.2.2)
    rw [optimize, optimizeAll_params ht.2.1]
    exact .node (by simp [partsOfAll_append]) (by simp [partsOfAll_append]) rfl rfl (by simp) hall
  | assignment target source, ht => shrinks_foldAssignment (shrinks_optimize source ht.2)
  | whileLoop test body, ht => by
    have hall := (shrinks_optimize test ht.1).append (shrinks_statements body ht.2)
    exact .node rfl rfl rfl rfl (by simp) hall
  | print argument, ht => by
    exact .node (by simp) (by simp) rfl rfl (by simp) (shrinks_optimize argument ht)
  | absent, ht | literal _, ht | text _, ht | list _, ht | token _, ht | entity _, ht
  | program _, ht | call _ _, ht | conditional _ _ _, ht | binary _ _ _, ht | unary _ _, ht =>
    ht.elim

/-- The pass shrinks a list of statements, or leaves it as it is. -/
theorem shrinks_statements : ∀ ts : List Tree, AreStatements Naming.resolved ts →
    Shrinks ts (optimizeAll ts)
  | [], _ => .refl []
  | t :: ts, hts => by
    rw [optimizeAll, splice_eq_append]
    exact (shrinks_statement t hts.1).append (shrinks_statements ts hts.2)

end

/-- A resolved program shrinks. -/
theorem shrinks_program {t : Tree} (ht : t.IsProgram Naming.resolved) :
    Shrinks [t] [t.optimize] := by
  cases t with
  | program statements =>
    exact .node rfl rfl rfl rfl (by simp) (shrinks_statements statements ht)
  | _ => exact ht.elim

end Pass

end Quill.Tree
