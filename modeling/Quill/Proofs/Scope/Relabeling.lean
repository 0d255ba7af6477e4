import Mathlib.Logic.Function.Basic
import Quill.Proofs.Node
import Quill.Proofs.Scope.Resolution

/-!
# Resolution under other names and identities

Resolution compares names and hands entities on. So where names are replaced by others, and
different names stay different, and the entities of a scope are replaced by others, it runs as
before: it makes the same replacements in its answer, or fails for the same reason, said about the
other name. Other names for a program and other numbers for its entities are the two cases.

## Main definitions

* `Tree.rename`, `ResolveError.rename` — a program before resolution, or an error, with other names.
* `Tree.mapEntities` — a tree with its entities replaced.
* `Relabeling` — other names, and other identities for entities.
* `RunAlike` — two steps, the second of which answers what the first does, with replacements.
-/

namespace Quill

/-! ## Other names -/

section
variable (f : String → String)

/-- Another name at the same place. -/
def Token.rename (t : Token) : Token := { t with value := f t.value }

/-- A tree with other names, where it is not resolved. -/
def Tree.rename : Tree → Tree :=
  Tree.mapLeaves fun
    | .token t => .token (t.rename f)
    | t => t

/-- The same cause about another name. -/
def Violation.Cause.rename : Violation.Cause → Violation.Cause
  | alreadyDeclared name => alreadyDeclared (f name)
  | notDeclared name => notDeclared (f name)
  | functionAsValue => functionAsValue
  | notAFunction name => notAFunction (f name)
  | readOnly name => readOnly (f name)
  | arity required passed => arity required passed

/-- The same violation of another name, at the same place. -/
def Violation.rename (v : Violation) : Violation := ⟨v.cause.rename f, v.span⟩

/-- The same error about other names. -/
def ResolveError.rename : ResolveError → ResolveError
  | violation v => violation (v.rename f)
  | notAStatement part => notAStatement (part.rename f)
  | notAnExpression part => notAnExpression (part.rename f)
  | notAToken part => notAToken (part.rename f)
  | notAProgram part => notAProgram (part.rename f)

end

/-- Names that stay leave the tree as it is. -/
theorem Tree.rename_id (t : Tree) : t.rename id = t :=
  mapLeaves_eq_self (fun a => by cases a <;> rfl) t

theorem ResolveError.rename_id (e : ResolveError) : e.rename id = e := by
  cases e with
  | violation v =>
    obtain ⟨cause, span⟩ := v
    cases cause <;> rfl
  | notAStatement part => exact congrArg notAStatement part.rename_id
  | notAnExpression part => exact congrArg notAnExpression part.rename_id
  | notAToken part => exact congrArg notAToken part.rename_id
  | notAProgram part => exact congrArg notAProgram part.rename_id

/-! ## Other entities -/

namespace Tree

mutual

/-- A tree with its entities replaced. -/
def mapEntities (f : Entity → Entity) : Tree → Tree
  | entity e => entity (f e)
  | list items => list (mapEntitiesInAll f items)
  | program statements => program (mapEntitiesInAll f statements)
  | variableDeclaration name initializer =>
    variableDeclaration (name.mapEntities f) (initializer.mapEntities f)
  | functionDeclaration name params body =>
    functionDeclaration (name.mapEntities f) (mapEntitiesInAll f params) (body.mapEntities f)
  | assignment target source => assignment (target.mapEntities f) (source.mapEntities f)
  | whileLoop test body => whileLoop (test.mapEntities f) (mapEntitiesInAll f body)
  | print argument => print (argument.mapEntities f)
  | call callee args => call (callee.mapEntities f) (mapEntitiesInAll f args)
  | conditional test consequent alternate =>
    conditional (test.mapEntities f) (consequent.mapEntities f) (alternate.mapEntities f)
  | binary operator left right => binary operator (left.mapEntities f) (right.mapEntities f)
  | unary operator operand => unary operator (operand.mapEntities f)
  | absent => absent
  | literal value => literal value
  | text value => text value
  | token t => token t

/-- Trees with their entities replaced. -/
def mapEntitiesInAll (f : Entity → Entity) : List Tree → List Tree
  | [] => []
  | t :: ts => t.mapEntities f :: mapEntitiesInAll f ts

end

theorem length_mapEntitiesInAll (g : Entity → Entity) (ts : List Tree) :
    (mapEntitiesInAll g ts).length = ts.length := by
  induction ts with
  | nil => rfl
  | cons t ts ih => simp only [mapEntitiesInAll, List.length_cons, ih]

end Tree

/-! ## Other names and identities -/

/-- Other names, different where the names are, and other identities for entities. -/
structure Relabeling where
  name : String → String
  injective : name.Injective
  identity : Entity.Id → Entity.Id

section
variable (ρ : Relabeling)

/-- The same entity under another name, with another identity. -/
def Entity.relabel (e : Entity) : Entity := { e with id := ρ.identity e.id, name := ρ.name e.name }

/-- The bindings of a frame with other names and entities. -/
def Frame.relabel (frame : Frame) : Frame :=
  frame.map fun (name, e) => (ρ.name name, e.relabel ρ)

/-- The bindings of a scope with other names and entities. -/
def Scope.relabel (s : Scope) : Scope := ⟨Frame.relabel ρ s.frame, s.outer.map (Frame.relabel ρ)⟩

/-- The declarations with other names and entities, where new entities are numbered from a later
number on. -/
def Declarations.relabel (m : Nat) (d : Declarations) : Declarations :=
  ⟨d.scope.relabel ρ, d.next + m⟩

/-- Numbered entities get a later number, all by the same distance. -/
def Relabeling.ShiftsBy (m : Nat) : Prop := ∀ n, ρ.identity (.user n) = .user (n + m)

end

/-! ## Steps that run alike -/

/-- The second step answers what the first does, with replacements, or fails for the same reason,
said about the other name. -/
def RunAlike {α β : Type} (f : String → String) (F : α → β) (x : Except ResolveError α)
    (y : Except ResolveError β) : Prop :=
  y = (F <$> x).mapError (ResolveError.rename f)

namespace RunAlike

variable {f : String → String} {α β γ δ : Type} {F : α → β} {G : γ → δ}

theorem ok (a : α) : RunAlike f F (.ok a) (.ok (F a)) := rfl

theorem error (e : ResolveError) : RunAlike f F (.error e) (.error (e.rename f)) := rfl

/-- Steps that run alike, with what follows running alike, run alike together. -/
theorem bind {x : Except ResolveError α} {y : Except ResolveError β}
    {k : α → Except ResolveError γ} {l : β → Except ResolveError δ} (h : RunAlike f F x y)
    (hrest : ∀ a, RunAlike f G (k a) (l (F a))) : RunAlike f G (x >>= k) (y >>= l) := by
  subst h
  cases x with
  | error e => rfl
  | ok a => exact hrest a

theorem map {x : Except ResolveError α} {y : Except ResolveError β} {g : α → γ} {h : β → δ}
    (hxy : RunAlike f F x y) (hanswer : ∀ a, h (F a) = G (g a)) :
    RunAlike f G (g <$> x) (h <$> y) := by
  subst hxy
  cases x with
  | error e => rfl
  | ok a => exact congrArg Except.ok (hanswer a)

/-- A test that comes out the same on both sides. -/
theorem ite {x x' : Except ResolveError α} {y y' : Except ResolveError β} {c d : Prop}
    [Decidable c] [Decidable d] (hcond : d ↔ c) (h : RunAlike f F x y) (h' : RunAlike f F x' y') :
    RunAlike f F (if c then x else x') (if d then y else y') := by
  by_cases hc : c
  · rw [if_pos hc, if_pos (hcond.2 hc)]
    exact h
  · rw [if_neg hc, if_neg fun hd => hc (hcond.1 hd)]
    exact h'

/-- Where the names stay, the second step is the first with replacements in its answer. -/
theorem eq_map {x : Except ResolveError α} {y : Except ResolveError β} (h : RunAlike id F x y) :
    y = F <$> x := by
  rw [h]
  cases x with
  | error e => exact congrArg Except.error e.rename_id
  | ok a => rfl

end RunAlike

section
variable {ρ : Relabeling}

/-! ## Scopes -/

/-- Each name is found as the other name, with its new entity. -/
theorem Frame.lookup_relabel (frame : Frame) (name : String) :
    (relabel ρ frame).lookup (ρ.name name) = (frame.lookup name).map (Entity.relabel ρ) := by
  induction frame with
  | nil => rfl
  | cons b frame ih =>
    obtain ⟨other, e⟩ := b
    have hsame : (ρ.name name == ρ.name other) = (name == other) := by
      rw [Bool.eq_iff_iff, beq_iff_eq, beq_iff_eq, ρ.injective.eq_iff]
    simp only [relabel, List.map_cons, List.lookup_cons, hsame]
    cases name == other with
    | true => rfl
    | false => exact ih

namespace Scope

/-- What a name denotes, the other name denotes, with its new entity. -/
theorem lookup?_relabel (s : Scope) (name : String) :
    (s.relabel ρ).lookup? (ρ.name name) = (s.lookup? name).map (Entity.relabel ρ) := by
  simp only [lookup?, frames, relabel]
  rw [← List.map_cons, List.findSome?_map]
  induction s.frame :: s.outer with
  | nil => rfl
  | cons frame frames ih =>
    simp only [List.findSome?_cons, Function.comp_apply, Frame.lookup_relabel]
    cases frame.lookup name with
    | some e => rfl
    | none => exact ih

theorem declares_relabel (s : Scope) (name : String) :
    (s.relabel ρ).declares (ρ.name name) = s.declares name := by
  simp [declares, relabel, Frame.lookup_relabel]

theorem relabel_bind (s : Scope) (name : String) (e : Entity) :
    (s.bind name e).relabel ρ = (s.relabel ρ).bind (ρ.name name) (e.relabel ρ) := by
  simp [bind, relabel, Frame.relabel]

end Scope

/-! ## Rules -/

namespace RunAlike

theorem requireNew (s : Scope) (t : Token) :
    RunAlike ρ.name id (s.requireNew t) ((s.relabel ρ).requireNew (t.rename ρ.name)) := by
  simp only [Scope.requireNew, Token.rename, Scope.declares_relabel]
  cases s.declares t.value <;> rfl

theorem denoted (s : Scope) (t : Token) :
    RunAlike ρ.name (Entity.relabel ρ) (s.denoted t) ((s.relabel ρ).denoted (t.rename ρ.name)) := by
  simp only [Scope.denoted, Token.rename, Scope.lookup?_relabel]
  cases s.lookup? t.value <;> rfl

theorem requireVariable (e : Entity) (t : Token) :
    RunAlike ρ.name id (e.requireVariable t) ((e.relabel ρ).requireVariable (t.rename ρ.name)) :=
  .ite Iff.rfl (.ok ()) (.error _)

theorem requireWritable (e : Entity) (t : Token) :
    RunAlike ρ.name id (e.requireWritable t) ((e.relabel ρ).requireWritable (t.rename ρ.name)) :=
  .ite Iff.rfl (.error _) (.ok ())

theorem requireFunction (e : Entity) (t : Token) :
    RunAlike ρ.name id (e.requireFunction t) ((e.relabel ρ).requireFunction (t.rename ρ.name)) := by
  have hcount : (e.relabel ρ).paramCount? = e.paramCount? := rfl
  simp only [Entity.requireFunction, hcount]
  cases e.paramCount? <;> rfl

theorem requireArity (t : Token) (required : Int) (passed : Nat) :
    RunAlike ρ.name id (t.requireArity required passed)
      ((t.rename ρ.name).requireArity required passed) :=
  .ite Iff.rfl (.ok ()) (.error _)

theorem asToken (part : Tree) :
    RunAlike ρ.name (Token.rename ρ.name) part.asToken (part.rename ρ.name).asToken := by
  cases part <;> rfl

/-- A callee is resolved alike: the other name, and the new entity. -/
theorem resolveCallee (s : Scope) (callee : Tree) :
    RunAlike ρ.name (fun (t, e, required) => (t.rename ρ.name, e.relabel ρ, required))
      (callee.resolveCallee s) (Tree.resolveCallee (s.relabel ρ) (callee.rename ρ.name)) :=
  .bind (.asToken callee) fun t => .bind (.denoted s t) fun e =>
    .bind (.requireFunction e t) fun _ => .ok _

theorem resolveTarget (s : Scope) (target : Tree) :
    RunAlike ρ.name (Entity.relabel ρ) (target.resolveTarget s)
      (Tree.resolveTarget (s.relabel ρ) (target.rename ρ.name)) :=
  .bind (.asToken target) fun t => .bind (.denoted s t) fun e =>
    .bind (.requireWritable e t) fun _ => .bind (.requireVariable e t) fun _ => .ok _

end RunAlike

namespace Tree

/-! ## Expressions -/

mutual

/-- An expression with other names is resolved as before, with these replacements in the answer. -/
theorem resolveExpression_relabel (s : Scope) : ∀ t : Tree,
    RunAlike ρ.name (mapEntities (Entity.relabel ρ)) (t.resolveExpression s)
      ((t.rename ρ.name).resolveExpression (s.relabel ρ))
  | literal v => .ok _
  | token t => by
    simp only [rename, mapLeaves, resolveExpression]
    exact .bind (.denoted s t) fun e => .bind (.requireVariable e t) fun _ => .ok _
  | call callee args => by
    simp only [rename, mapLeaves, mapLeavesOfAll_eq, resolveExpression]
    refine .bind (.resolveCallee s callee) fun (t, e, required) => ?_
    refine .bind (resolveExpressions_relabel s args) fun args' => ?_
    rw [length_mapEntitiesInAll]
    exact .bind (.requireArity t required args'.length) fun _ => .ok _
  | conditional test consequent alternate => by
    simp only [rename, mapLeaves, resolveExpression]
    exact .bind (resolveExpression_relabel s test) fun _ =>
      .bind (resolveExpression_relabel s consequent) fun _ =>
        .bind (resolveExpression_relabel s alternate) fun _ => .ok _
  | binary operator left right => by
    simp only [rename, mapLeaves, resolveExpression]
    exact .bind (resolveExpression_relabel s left) fun _ =>
      .bind (resolveExpression_relabel s right) fun _ => .ok _
  | unary operator operand => by
    simp only [rename, mapLeaves, resolveExpression]
    exact .bind (resolveExpression_relabel s operand) fun _ => .ok _
  | absent | text _ | list _ | entity _ | program _ | variableDeclaration _ _
  | functionDeclaration _ _ _ | assignment _ _ | whileLoop _ _ | print _ => .error _

theorem resolveExpressions_relabel (s : Scope) : ∀ ts : List Tree,
    RunAlike ρ.name (mapEntitiesInAll (Entity.relabel ρ)) (resolveExpressions s ts)
      (resolveExpressions (s.relabel ρ) (ts.map (rename ρ.name)))
  | [] => .ok _
  | t :: ts =>
    .bind (resolveExpression_relabel s t) fun _ =>
      .bind (resolveExpressions_relabel s ts) fun _ => .ok _

end

end Tree

/-! ## New entities -/

variable {m : Nat}

namespace Relabeling.ShiftsBy

theorem relabel_declaredVariable (h : ρ.ShiftsBy m) (n : Nat) (name : String) :
    (Entity.declaredVariable n name).relabel ρ = .declaredVariable (n + m) (ρ.name name) := by
  simp [Entity.relabel, Entity.declaredVariable, h n]

theorem relabel_parameter (h : ρ.ShiftsBy m) (n : Nat) (name : String) :
    (Entity.parameter n name).relabel ρ = .parameter (n + m) (ρ.name name) := by
  simp [Entity.relabel, Entity.parameter, h n]

theorem relabel_declaredFunction (h : ρ.ShiftsBy m) (n : Nat) (name : String) (count : Nat) :
    (Entity.declaredFunction n name count).relabel ρ =
      .declaredFunction (n + m) (ρ.name name) count := by
  simp [Entity.relabel, Entity.declaredFunction, h n]

end Relabeling.ShiftsBy

/-- A new entity gets the number that is due. -/
theorem Declarations.relabel_bind (s : Scope) (n : Nat) (name : String) (e : Entity) :
    (⟨(s.relabel ρ).bind (ρ.name name) (e.relabel ρ), n + m + 1⟩ : Declarations) =
      relabel ρ m ⟨s.bind name e, n + 1⟩ := by
  rw [relabel, Scope.relabel_bind, Nat.add_right_comm]

/-! ## Statements -/

namespace Tree

/-- Parameters with other names are declared as before, and numbered from a later number on. -/
theorem declareParameters_relabel (hm : ρ.ShiftsBy m) (params : List Tree) (d : Declarations) :
    RunAlike ρ.name (Prod.map (mapEntitiesInAll (Entity.relabel ρ)) (Declarations.relabel ρ m))
      (declareParameters params d)
      (declareParameters (params.map (rename ρ.name)) (d.relabel ρ m)) := by
  induction params generalizing d with
  | nil => exact .ok _
  | cons p ps ih =>
    refine .bind (.asToken p) fun t => .bind (.requireNew d.scope t) fun _ => ?_
    simp only [Declarations.relabel, Token.rename, ← hm.relabel_parameter,
      Declarations.relabel_bind]
    exact .bind (ih _) fun _ => .ok _

/-- A function head with other names and entities. -/
def FunctionHead.relabel (ρ : Relabeling) (m : Nat) (head : FunctionHead) : FunctionHead :=
  ⟨head.entity.relabel ρ, mapEntitiesInAll (Entity.relabel ρ) head.params, head.scope.relabel ρ,
    head.inner.relabel ρ m⟩

theorem resolveHead_relabel (hm : ρ.ShiftsBy m) (name : Tree) (params : List Tree)
    (d : Declarations) :
    RunAlike ρ.name (FunctionHead.relabel ρ m) (resolveHead name params d)
      (resolveHead (name.rename ρ.name) (params.map (rename ρ.name)) (d.relabel ρ m)) := by
  refine .bind (.asToken name) fun t => .bind (.requireNew d.scope t) fun _ => ?_
  simp only [Declarations.relabel, Token.rename, List.length_map, ← hm.relabel_declaredFunction,
    ← Scope.relabel_bind, Nat.add_right_comm _ m]
  exact .bind (declareParameters_relabel hm params ⟨_, d.next + 1⟩) fun _ => .ok _

mutual

/-- A statement with other names is resolved as before, and so is what it declares. -/
theorem resolveStatement_relabel (hm : ρ.ShiftsBy m) : ∀ (t : Tree) (d : Declarations),
    RunAlike ρ.name (Prod.map (mapEntities (Entity.relabel ρ)) (Declarations.relabel ρ m))
      (t.resolveStatement d) ((t.rename ρ.name).resolveStatement (d.relabel ρ m))
  | variableDeclaration name initializer, d => by
    simp only [rename, mapLeaves, resolveStatement]
    refine .bind (resolveExpression_relabel d.scope initializer) fun _ =>
      .bind (.asToken name) fun t => .bind (.requireNew d.scope t) fun _ => ?_
    simp only [Declarations.relabel, Token.rename, ← hm.relabel_declaredVariable,
      Declarations.relabel_bind]
    exact .ok _
  | functionDeclaration name params body, d => by
    simp only [rename, mapLeaves, mapLeavesOfAll_eq, resolveStatement]
    exact .bind (resolveHead_relabel hm name params d) fun head =>
      .bind (resolveExpression_relabel head.inner.scope body) fun _ => .ok _
  | assignment target source, d => by
    simp only [rename, mapLeaves, resolveStatement]
    exact .bind (.resolveTarget d.scope target) fun _ =>
      .bind (resolveExpression_relabel d.scope source) fun _ => .ok _
  | whileLoop test body, d => by
    simp only [rename, mapLeaves, mapLeavesOfAll_eq, resolveStatement]
    exact .bind (resolveExpression_relabel d.scope test) fun _ =>
      .bind (resolveStatements_relabel hm body d) fun _ => .ok _
  | print argument, d => by
    simp only [rename, mapLeaves, resolveStatement]
    exact .bind (resolveExpression_relabel d.scope argument) fun _ => .ok _
  | absent, _ | literal _, _ | text _, _ | list _, _ | token _, _ | entity _, _ | program _, _
  | call _ _, _ | conditional _ _ _, _ | binary _ _ _, _ | unary _ _, _ => .error _

theorem resolveStatements_relabel (hm : ρ.ShiftsBy m) : ∀ (ts : List Tree) (d : Declarations),
    RunAlike ρ.name (Prod.map (mapEntitiesInAll (Entity.relabel ρ)) (Declarations.relabel ρ m))
      (resolveStatements ts d)
      (resolveStatements (ts.map (rename ρ.name)) (d.relabel ρ m))
  | [], _ => .ok _
  | t :: ts, d =>
    .bind (resolveStatement_relabel hm t d) fun (_, d') =>
      .bind (resolveStatements_relabel hm ts d') fun _ => .ok _

end

/-- Under other names, and with its entities numbered from a later number on, a program is resolved
as before, with these replacements in the answer, or fails for the same reason. -/
theorem resolveProgram_relabel (hm : ρ.ShiftsBy m) (p : Tree) (d : Declarations) :
    RunAlike ρ.name (Prod.map (mapEntities (Entity.relabel ρ)) (Declarations.relabel ρ m))
      (p.resolveProgram d) ((p.rename ρ.name).resolveProgram (d.relabel ρ m)) := by
  cases p with
  | program statements =>
    simp only [rename, mapLeaves, mapLeavesOfAll_eq, resolveProgram]
    exact .bind (resolveStatements_relabel hm statements d) fun _ => .ok _
  | _ => exact .error _

end Tree

end

end Quill
