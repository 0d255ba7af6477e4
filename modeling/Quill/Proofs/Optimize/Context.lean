import Quill.Proofs.Optimize.Shape

/-!
# Optimizing a part first

The pass answers the same tree whatever parts were optimized before it. A node that a rule answers
is a fixed point of every other rule, so the pass is idempotent. What the pass makes of a node
depends on the optimized parts only, so an optimized part may stand for the part itself, at any
depth. In a list of statements a part that optimizes to a list of statements is spliced in.

## Main definitions

* `Tree.Layer` — one node around a part that is an expression or a statement.
* `Tree.Context` — the nodes around a part, from the part outwards, and `Context.plug`.
* `Tree.constituents` — the expressions and statements in a tree; in a program each has a context by
  `Tree.exists_context`, and may be optimized there first.
-/

namespace Quill.Tree

/-! ## Lists -/

theorem splice_append (t : Tree) (ts us : List Tree) : splice t ts ++ us = splice t (ts ++ us) := by
  cases t with
  | list items => exact List.append_assoc items ts us
  | _ => rfl

/-- Lists of statements are optimized one behind the other. -/
theorem optimizeAll_append (ts us : List Tree) :
    optimizeAll (ts ++ us) = optimizeAll ts ++ optimizeAll us := by
  induction ts with
  | nil => rfl
  | cons t ts ih => rw [List.cons_append, optimizeAll, ih, optimizeAll, splice_append]

/-- A spliced list is optimized as the item that it was. -/
theorem optimizeAll_splice (t : Tree) (ts : List Tree) :
    optimizeAll (splice t ts) = splice t.optimize (optimizeAll ts) := by
  cases t with
  | list items =>
    rw [optimize]
    exact optimizeAll_append items ts
  | _ => rfl

/-! ## One node -/

/-- What the rules for an operation make of optimized operands stays. -/
theorem optimize_foldBinary {s : String} {l r : Tree} (hl : l.optimize = l) (hr : r.optimize = r) :
    (foldBinary s l r).optimize = foldBinary s l r := by
  have hstep := binaryStep_foldBinary s l r
  generalize foldBinary s l r = t at hstep
  cases hstep with
  | folded value => rfl
  | left other symbol identity =>
    rcases identity.result with rfl | rfl | ⟨y, rfl⟩
    · exact hr
    · rw [optimize, hr]
      exact foldUnary_of_not_isRedex fun h => h.literal?_ne_none other
    · rfl
  | right other symbol identity =>
    rcases identity.result with rfl | ⟨y, rfl⟩
    · exact hl
    · rfl
  | kept stays => rw [optimize, hl, hr, foldBinary_of_not_isRedex stays]

theorem optimize_foldUnary {s : String} {e : Tree} (he : e.optimize = e) :
    (foldUnary s e).optimize = foldUnary s e := by
  rcases foldUnary_cases s e with ⟨v, h⟩ | ⟨h, -⟩
  · rw [h, optimize]
  · rw [h, optimize, he, h]

theorem optimize_foldConditional {test consequent alternate : Tree} (ht : test.optimize = test)
    (hc : consequent.optimize = consequent) (ha : alternate.optimize = alternate) :
    (foldConditional test consequent alternate).optimize =
      foldConditional test consequent alternate := by
  rcases foldConditional_cases test consequent alternate with h | h | ⟨h, -⟩
  · rw [h, hc]
  · rw [h, ha]
  · rw [h, optimize, ht, hc, ha, h]

theorem optimize_foldCall {callee : Tree} {args : List Tree} (ha : optimizeAll args = args) :
    (foldCall callee args).optimize = foldCall callee args := by
  rcases foldCall_cases callee args with ⟨-, -, -, x, -, -, -, -, h⟩ | ⟨h, -⟩
  · rw [h, optimize]
  · rw [h, optimize, ha, h]

theorem optimize_foldAssignment {target source : Tree} (hs : source.optimize = source) :
    (foldAssignment target source).optimize = foldAssignment target source := by
  rcases foldAssignment_cases target source with h | ⟨h, -⟩
  · rw [h, optimize, optimizeAll]
  · rw [h, optimize, hs, h]

/-! ## Idempotence -/

mutual

/-- What the pass answers it leaves as it is. -/
theorem optimize_optimize : ∀ t : Tree, t.optimize.optimize = t.optimize
  | program statements => by rw [optimize, optimize, optimizeAll_optimizeAll statements]
  | variableDeclaration name initializer => by
    rw [optimize, optimize, optimize_optimize initializer]
  | functionDeclaration name params body => by
    rw [optimize, optimize, optimizeAll_optimizeAll params, optimize_optimize body]
  | assignment target source => optimize_foldAssignment (optimize_optimize source)
  | whileLoop test body => by
    rw [optimize, optimize, optimize_optimize test, optimizeAll_optimizeAll body]
  | print argument => by rw [optimize, optimize, optimize_optimize argument]
  | call callee args => optimize_foldCall (optimizeAll_optimizeAll args)
  | conditional test consequent alternate =>
    optimize_foldConditional (optimize_optimize test) (optimize_optimize consequent)
      (optimize_optimize alternate)
  | binary operator left right =>
    optimize_foldBinary (optimize_optimize left) (optimize_optimize right)
  | unary operator operand => optimize_foldUnary (optimize_optimize operand)
  | list items => by rw [optimize, optimize, optimizeAll_optimizeAll items]
  | literal _ | entity _ | token _ | text _ | absent => rfl

theorem optimizeAll_optimizeAll : ∀ ts : List Tree, optimizeAll (optimizeAll ts) = optimizeAll ts
  | [] => rfl
  | t :: ts => by
    rw [optimizeAll, optimizeAll_splice, optimize_optimize t, optimizeAll_optimizeAll ts]

end

/-! ## Contexts -/

/-- One node around a part that is an expression or a statement, with everything else in it. The
lists hold what stands before and after the part. -/
inductive Layer where
  | statement (before after : List Tree)
  | initializer (name : Tree)
  | functionBody (name : Tree) (params : List Tree)
  | source (target : Tree)
  | loopTest (body : List Tree)
  | loopStatement (test : Tree) (before after : List Tree)
  | printed
  | argument (callee : Tree) (before after : List Tree)
  | conditionalTest (consequent alternate : Tree)
  | consequentArm (test alternate : Tree)
  | alternateArm (test consequent : Tree)
  | leftOperand (operator : String) (right : Tree)
  | rightOperand (operator : String) (left : Tree)
  | operand (operator : String)

/-- The node with a part in its place. -/
def Layer.fill (s : Tree) : Layer → Tree
  | statement before after => program (before ++ splice s after)
  | initializer name => variableDeclaration name s
  | functionBody name params => functionDeclaration name params s
  | source target => assignment target s
  | loopTest body => whileLoop s body
  | loopStatement test before after => whileLoop test (before ++ splice s after)
  | printed => print s
  | argument callee before after => call callee (before ++ splice s after)
  | conditionalTest consequent alternate => conditional s consequent alternate
  | consequentArm test alternate => conditional test s alternate
  | alternateArm test consequent => conditional test consequent s
  | leftOperand operator right => binary operator s right
  | rightOperand operator left => binary operator left s
  | operand operator => unary operator s

/-- The nodes around a part, the closest one first. -/
abbrev Context := List Layer

/-- The whole tree with a part in its place. -/
def Context.plug (C : Context) (s : Tree) : Tree := C.foldl (fun t layer => layer.fill t) s

@[simp] theorem Context.plug_append (C : Context) (layer : Layer) (s : Tree) :
    Context.plug (C ++ [layer]) s = layer.fill (C.plug s) := by
  simp [Context.plug]

/-- The pass sees only the optimized part. -/
theorem Layer.optimize_fill_congr {s s' : Tree} (h : s.optimize = s'.optimize) (layer : Layer) :
    (layer.fill s).optimize = (layer.fill s').optimize := by
  have hlist : ∀ before after : List Tree,
      optimizeAll (before ++ splice s after) = optimizeAll (before ++ splice s' after) := by
    intro before after
    rw [optimizeAll_append, optimizeAll_append, optimizeAll_splice, optimizeAll_splice, h]
  cases layer with
  | statement before after | loopStatement test before after | argument callee before after =>
    simp only [fill, optimize, hlist]
  | _ => simp only [fill, optimize, h]

/-- The pass sees only the optimized part, at any depth. -/
theorem Context.optimize_plug_congr {s s' : Tree} (h : s.optimize = s'.optimize) (C : Context) :
    (C.plug s).optimize = (C.plug s').optimize := by
  induction C generalizing s s' with
  | nil => exact h
  | cons layer C ih => exact ih (layer.optimize_fill_congr h)

/-- A part may be optimized first, at any depth. -/
theorem Context.optimize_plug_optimize (C : Context) (s : Tree) :
    (C.plug s.optimize).optimize = (C.plug s).optimize :=
  C.optimize_plug_congr (optimize_optimize s)

/-- Optimizing a part first does not change what the pass answers, in any context that the part
stands in; in particular optimizing the whole first does not. -/
theorem optimize_of_optimized_part :
    (∀ (C : Context) (s : Tree), (C.plug s.optimize).optimize = (C.plug s).optimize) ∧
      ∀ t : Tree, t.optimize.optimize = t.optimize := by
  constructor
  · exact Context.optimize_plug_optimize
  · exact optimize_optimize

/-! ## Every expression and statement has a context -/

mutual

/-- The expressions and statements in a tree, which is one of them itself; names are none. -/
@[simp] def constituents : Tree → List Tree
  | program statements => program statements :: constituentsOfAll statements
  | variableDeclaration name initializer =>
    variableDeclaration name initializer :: initializer.constituents
  | functionDeclaration name params body =>
    functionDeclaration name params body :: body.constituents
  | assignment target source => assignment target source :: source.constituents
  | whileLoop test body => whileLoop test body :: (test.constituents ++ constituentsOfAll body)
  | print argument => print argument :: argument.constituents
  | call callee args => call callee args :: constituentsOfAll args
  | conditional test consequent alternate =>
    conditional test consequent alternate ::
      (test.constituents ++ (consequent.constituents ++ alternate.constituents))
  | binary operator left right =>
    binary operator left right :: (left.constituents ++ right.constituents)
  | unary operator operand => unary operator operand :: operand.constituents
  | t => [t]

/-- The expressions and statements in trees. -/
@[simp] def constituentsOfAll : List Tree → List Tree
  | [] => []
  | t :: ts => t.constituents ++ constituentsOfAll ts

end

/-- The part stands somewhere in the tree. -/
def Holds (s t : Tree) : Prop := ∃ C : Context, C.plug s = t

/-- The part stands somewhere in one of the trees. -/
def HoldsIn (s : Tree) (ts : List Tree) : Prop :=
  ∃ (t : Tree) (before after : List Tree), Holds s t ∧ before ++ splice t after = ts

theorem Holds.refl (s : Tree) : Holds s s := ⟨[], rfl⟩

/-- What stands in a part stands in the node around it. -/
theorem Holds.fill {s t : Tree} (h : Holds s t) (layer : Layer) : Holds s (layer.fill t) := by
  obtain ⟨C, rfl⟩ := h
  exact ⟨C ++ [layer], C.plug_append layer s⟩

/-- A constituent is the tree itself, or stands deeper in it. -/
theorem Holds.of_mem_cons {s t : Tree} {ts : List Tree} (hs : s ∈ t :: ts)
    (deeper : s ∈ ts → Holds s t) : Holds s t := by
  rcases List.mem_cons.1 hs with rfl | hs
  · exact .refl _
  · exact deeper hs

theorem HoldsIn.head {s t : Tree} {ts : List Tree} (h : Holds s t) (ht : splice t ts = t :: ts) :
    HoldsIn s (t :: ts) := ⟨t, [], ts, h, ht⟩

theorem HoldsIn.tail {s t : Tree} {ts : List Tree} (h : HoldsIn s ts) : HoldsIn s (t :: ts) := by
  obtain ⟨u, before, after, hu, rfl⟩ := h
  exact ⟨u, t :: before, after, hu, rfl⟩

section
variable {N : Naming}

mutual

/-- Every expression in an expression stands in it. -/
theorem holds_of_mem_expression : ∀ t : Tree, t.IsExpression N → ∀ s ∈ t.constituents, Holds s t
  | call callee args, ht => by
    intro s hs
    refine .of_mem_cons hs fun hs => ?_
    obtain ⟨u, before, after, hu, rfl⟩ := holdsIn_of_mem_expressions args ht.2 s hs
    exact hu.fill (.argument callee before after)
  | conditional test consequent alternate, ht => by
    intro s hs
    simp only [constituents, List.mem_cons, List.mem_append] at hs
    rcases hs with rfl | hs | hs | hs
    · exact .refl _
    · exact (holds_of_mem_expression test ht.1 s hs).fill (.conditionalTest consequent alternate)
    · exact (holds_of_mem_expression consequent ht.2.1 s hs).fill (.consequentArm test alternate)
    · exact (holds_of_mem_expression alternate ht.2.2 s hs).fill (.alternateArm test consequent)
  | binary operator left right, ht => by
    intro s hs
    simp only [constituents, List.mem_cons, List.mem_append] at hs
    rcases hs with rfl | hs | hs
    · exact .refl _
    · exact (holds_of_mem_expression left ht.1 s hs).fill (.leftOperand operator right)
    · exact (holds_of_mem_expression right ht.2 s hs).fill (.rightOperand operator left)
  | unary operator operand, ht => by
    intro s hs
    refine .of_mem_cons hs fun hs => ?_
    exact (holds_of_mem_expression operand ht s hs).fill (.operand operator)
  | literal _, _ | token _, _ | entity _, _ => by
    intro s hs
    obtain rfl := List.mem_singleton.1 hs
    exact .refl _
  | absent, ht | text _, ht | list _, ht | program _, ht | variableDeclaration _ _, ht
  | functionDeclaration _ _ _, ht | assignment _ _, ht | whileLoop _ _, ht | print _, ht => ht.elim

theorem holdsIn_of_mem_expressions : ∀ ts : List Tree, AreExpressions N ts →
    ∀ s ∈ constituentsOfAll ts, HoldsIn s ts
  | [], _ => by simp
  | t :: ts, hts => by
    intro s hs
    rcases List.mem_append.1 hs with hs | hs
    · exact .head (holds_of_mem_expression t hts.1 s hs) (splice_of_isExpression hts.1 ts)
    · exact (holdsIn_of_mem_expressions ts hts.2 s hs).tail

end

mutual

/-- Every expression and statement in a statement stands in it. -/
theorem holds_of_mem_statement : ∀ t : Tree, t.IsStatement N → ∀ s ∈ t.constituents, Holds s t
  | variableDeclaration name initializer, ht => by
    intro s hs
    refine .of_mem_cons hs fun hs => ?_
    exact (holds_of_mem_expression initializer ht.2 s hs).fill (.initializer name)
  | functionDeclaration name params body, ht => by
    intro s hs
    refine .of_mem_cons hs fun hs => ?_
    exact (holds_of_mem_expression body ht.2.2 s hs).fill (.functionBody name params)
  | assignment target source, ht => by
    intro s hs
    refine .of_mem_cons hs fun hs => ?_
    exact (holds_of_mem_expression source ht.2 s hs).fill (.source target)
  | whileLoop test body, ht => by
    intro s hs
    simp only [constituents, List.mem_cons, List.mem_append] at hs
    rcases hs with rfl | hs | hs
    · exact .refl _
    · exact (holds_of_mem_expression test ht.1 s hs).fill (.loopTest body)
    · obtain ⟨u, before, after, hu, rfl⟩ := holdsIn_of_mem_statements body ht.2 s hs
      exact hu.fill (.loopStatement test before after)
  | print argument, ht => by
    intro s hs
    refine .of_mem_cons hs fun hs => ?_
    exact (holds_of_mem_expression argument ht s hs).fill .printed
  | absent, ht | literal _, ht | text _, ht | list _, ht | token _, ht | entity _, ht
  | program _, ht | call _ _, ht | conditional _ _ _, ht | binary _ _ _, ht | unary _ _, ht =>
    ht.elim

theorem holdsIn_of_mem_statements : ∀ ts : List Tree, AreStatements N ts →
    ∀ s ∈ constituentsOfAll ts, HoldsIn s ts
  | [], _ => by simp
  | t :: ts, hts => by
    intro s hs
    rcases List.mem_append.1 hs with hs | hs
    · exact .head (holds_of_mem_statement t hts.1 s hs) (splice_of_isStatement hts.1 ts)
    · exact (holdsIn_of_mem_statements ts hts.2 s hs).tail

end

/-- Every expression and statement of a program has a context in it. -/
theorem exists_context {p s : Tree} (hp : p.IsProgram N) (hs : s ∈ p.constituents) :
    ∃ C : Context, C.plug s = p := by
  cases p with
  | program statements =>
    rcases List.mem_cons.1 hs with rfl | hs
    · exact Holds.refl _
    · obtain ⟨u, before, after, hu, rfl⟩ := holdsIn_of_mem_statements statements hp s hs
      exact hu.fill (.statement before after)
  | _ => exact hp.elim

/-- Any expression or statement of a program may be optimized where it stands, before the program
is. -/
theorem optimize_of_optimized_constituent {p s : Tree} (hp : p.IsProgram N)
    (hs : s ∈ p.constituents) :
    ∃ C : Context, C.plug s = p ∧ (C.plug s.optimize).optimize = p.optimize := by
  obtain ⟨C, rfl⟩ := exists_context hp hs
  exact ⟨C, rfl, C.optimize_plug_optimize s⟩

end

end Quill.Tree
