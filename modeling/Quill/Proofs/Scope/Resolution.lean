import Quill.Proofs.Shape
import Quill.Proofs.Scope.Occurrence

/-!
# Resolution looks at occurrences in order

Resolution interleaves checks with the making of entities. The two come apart: to resolve is to look
at the occurrences of names in order, up to the first that breaks a rule, and then to link all names
at once. What resolution accepts, what it answers and which violation it reports are read off this
equation.

## Main definitions

* `Occurrence.check` — looks at occurrences in order.
* `Surroundings.declarations` — the declarations of resolution at a point of a program.
* `Surroundings.IsOutermost` — the invariant of the walk outside of functions.
-/

namespace Quill

/-! ## Steps that may fail -/

@[simp] theorem ok_bind {ε α β : Type} (a : α) (f : α → Except ε β) :
    (Except.ok a >>= f) = f a := rfl

@[simp] theorem error_bind {ε α β : Type} (e : ε) (f : α → Except ε β) :
    (Except.error e >>= f) = .error e := rfl

@[simp] theorem ok_mapError {ε ε' α : Type} (f : ε → ε') (a : α) :
    (Except.ok a).mapError f = .ok a := rfl

@[simp] theorem error_mapError {ε ε' α : Type} (f : ε → ε') (e : ε) :
    (Except.error e : Except ε α).mapError f = .error (f e) := rfl

/-- Two steps succeed together exactly when each of them does. -/
theorem bind_eq_ok_iff {ε α β : Type} {x : Except ε α} {f : α → Except ε β} {b : β} :
    (x >>= f) = .ok b ↔ ∃ a, x = .ok a ∧ f a = .ok b := by
  cases x with
  | error e => simp
  | ok a => simp

/-- Two steps fail together exactly when the first fails, or the second behind the first. -/
theorem bind_eq_error_iff {ε α β : Type} {x : Except ε α} {f : α → Except ε β} {e : ε} :
    (x >>= f) = .error e ↔ x = .error e ∨ ∃ a, x = .ok a ∧ f a = .error e := by
  cases x with
  | error e' => simp
  | ok a => simp

/-- What follows a step matters only if the step succeeds. -/
theorem bind_congr_of_ok {ε α β : Type} {x : Except ε α} {f g : α → Except ε β}
    (h : ∀ a, x = .ok a → f a = g a) : (x >>= f) = (x >>= g) := by
  cases x with
  | error e => rfl
  | ok a => exact h a rfl

/-! ## Looking at occurrences -/

namespace Occurrence

/-- Looks at occurrences in order, up to the first that breaks a rule. -/
def check (os : List Occurrence) : Except ResolveError Unit :=
  match os.findSome? violation? with
  | some v => .error (.violation v)
  | none => .ok ()

@[simp] theorem check_nil : check [] = .ok () := rfl

/-- Occurrences behind others are looked at if those before break no rule. -/
theorem check_append (os ps : List Occurrence) :
    check (os ++ ps) = (check os >>= fun _ => check ps) := by
  simp only [check, List.findSome?_append]
  cases os.findSome? violation? <;> rfl

theorem check_singleton (o : Occurrence) :
    check [o] =
      match o.cause? with
      | some cause => .error (o.token.reject cause)
      | none => .ok () := by
  simp only [check, List.findSome?_singleton, violation?]
  cases o.cause? <;> rfl

/-- Looking at occurrences succeeds exactly if none of them breaks a rule. -/
theorem check_eq_ok_iff {os : List Occurrence} {u : Unit} :
    check os = .ok u ↔ ∀ o ∈ os, o.cause? = none := by
  simp only [check]
  cases h : os.findSome? violation? with
  | some v =>
    obtain ⟨o, ho, hv⟩ := List.exists_of_findSome?_eq_some h
    have hne : o.cause? ≠ none := by
      intro hc
      simp [violation?, hc] at hv
    simpa using ⟨o, ho, hne⟩
  | none => simpa [violation?] using h

/-- Looking at occurrences fails for nothing but the violation at one of them. -/
theorem exists_violation_of_check {os : List Occurrence} {e : ResolveError}
    (h : check os = .error e) : ∃ v o, e = .violation v ∧ o ∈ os ∧ o.violation? = some v := by
  simp only [check] at h
  split at h
  · rename_i v hv
    obtain ⟨o, ho, hov⟩ := List.exists_of_findSome?_eq_some hv
    exact ⟨v, o, (Except.error.inj h).symm, ho, hov⟩
  · cases h

end Occurrence

/-! ## Scopes and surroundings -/

namespace Scope

theorem requireNew_eq_ok_iff {s : Scope} {t : Token} :
    s.requireNew t = .ok () ↔ s.declares t.value = false := by
  cases h : s.declares t.value <;> simp [requireNew, h]

/-- What a name denotes is bound to it in a frame. -/
theorem exists_mem_of_lookup? {s : Scope} {name : String} {e : Entity}
    (h : s.lookup? name = some e) : ∃ frame ∈ s.frames, (name, e) ∈ frame := by
  obtain ⟨frame, hframe, hlookup⟩ := List.exists_of_findSome?_eq_some h
  obtain ⟨before, rest, rfl, -⟩ := List.lookup_eq_some_iff.1 hlookup
  exact ⟨_, hframe, by simp⟩

end Scope

namespace Origin

/-- The bindings of origins in order. -/
def frame (os : List Origin) : Frame := os.map fun o => (o.name, o.entity)

theorem find?_append (name : String) (os ps : List Origin) :
    find? name (os ++ ps) = (find? name os).or (find? name ps) :=
  List.find?_append

/-- A frame binds each name to the entity of its origin. -/
theorem lookup_frame (name : String) (os : List Origin) :
    (frame os).lookup name = (find? name os).map entity := by
  induction os with
  | nil => rfl
  | cons o os ih =>
    simp only [frame, List.map_cons, find?, List.lookup_cons, List.find?_cons] at ih ⊢
    by_cases h : o.name = name
    · simp [h]
    · have hne : (name == o.name) = false := by simpa using Ne.symm h
      simpa [h, hne] using ih

theorem find?_eq_none_iff {name : String} {os : List Origin} :
    find? name os = none ↔ ∀ o ∈ os, o.name ≠ name := by
  simp [find?]

theorem name_of_find? {name : String} {os : List Origin} {o : Origin} (h : find? name os = some o) :
    o.name = name := by
  simpa using List.find?_some h

end Origin

namespace Surroundings

/-- The declarations of resolution at a point outside of functions. -/
def declarations (s : Surroundings) : Declarations :=
  ⟨⟨Origin.frame (Origin.ofLibrary ++ s.declared), []⟩, s.count⟩

theorem declarations_initial : initial.declarations = Declarations.initial := rfl

/-- Outside of functions no parameter is seen, and no declared name is one of the library. -/
structure IsOutermost (s : Surroundings) : Prop where
  params_eq : s.params = []
  not_library : ∀ o ∈ s.declared, Origin.find? o.name Origin.ofLibrary = none

theorem isOutermost_initial : initial.IsOutermost := ⟨rfl, by simp [initial]⟩

/-- A scope shows what names denote in the surroundings. -/
def ShownBy (s : Surroundings) (scope : Scope) : Prop :=
  ∀ name, scope.lookup? name = (s.denotes? name).map Origin.entity

/-- The library and what is declared never share a name, so their order does not matter. -/
theorem IsOutermost.or_comm {s : Surroundings} (hs : s.IsOutermost) (name : String) :
    (Origin.find? name Origin.ofLibrary).or (Origin.find? name s.declared) =
      (Origin.find? name s.declared).or (Origin.find? name Origin.ofLibrary) := by
  cases h : Origin.find? name s.declared with
  | none => simp
  | some o =>
    have hname := Origin.name_of_find? h
    have hlib := hs.not_library o (List.mem_of_find?_eq_some h)
    rw [hname] at hlib
    simp [hlib]

/-- Outside of functions the declarations of resolution show the surroundings. -/
theorem IsOutermost.shownBy {s : Surroundings} (hs : s.IsOutermost) :
    s.ShownBy s.declarations.scope := by
  intro name
  rw [denotes?, hs.params_eq, ← hs.or_comm]
  simp only [declarations, Scope.lookup?, Scope.frames, List.findSome?_cons, Origin.lookup_frame,
    Origin.find?_append]
  cases (Origin.find? name Origin.ofLibrary).or (Origin.find? name s.declared) <;> rfl

theorem declares_declarations (s : Surroundings) (name : String) :
    s.declarations.scope.declares name = s.isTaken name := by
  simp [declarations, Scope.declares, Origin.lookup_frame, Origin.find?_append, isTaken]

end Surroundings
/-! ## Expressions -/

open Occurrence

namespace Surroundings

theorem ShownBy.denoted {s : Surroundings} {scope : Scope} (h : s.ShownBy scope) (t : Token) :
    scope.denoted t =
      match s.denotes? t.value with
      | some o => .ok o.entity
      | none => .error (t.reject (.notDeclared t.value)) := by
  rw [Scope.denoted, h t.value]
  cases s.denotes? t.value <;> rfl

end Surroundings
namespace Tree

variable {scope : Scope} {s : Surroundings}

theorem length_linkExpressions (ts : List Tree) : (linkExpressions s ts).length = ts.length := by
  induction ts with
  | nil => rfl
  | cons t ts ih => simp [linkExpressions, ih]

/-- A name in value position. -/
theorem resolveExpression_token (h : s.ShownBy scope) (t : Token) :
    resolveExpression scope (token t) =
      (check ((token t).uses s) >>= fun _ => .ok ((token t).linkExpression s)) := by
  simp only [resolveExpression, h.denoted, uses, asName, check_singleton, cause?, denotes?,
    linkExpression, linkName]
  cases hd : s.denotes? t.value with
  | none => simp
  | some o =>
    simp only [ok_bind, Entity.requireVariable]
    by_cases hv : o.entity.isVariable <;> simp [hv, pure, Except.pure]

/-- A call is looked at in three steps: the name, the arguments, and their number. -/
theorem resolveExpression_call (h : s.ShownBy scope) (t : Token) {args : List Tree}
    (hargs : resolveExpressions scope args =
      (check (usesInAll s args) >>= fun _ => .ok (linkExpressions s args))) :
    resolveExpression scope (call (token t) args) =
      (check ((call (token t) args).uses s) >>= fun _ =>
        .ok ((call (token t) args).linkExpression s)) := by
  simp only [resolveExpression, resolveCallee, asToken, h.denoted, uses, asName, check_append,
    check_singleton, cause?, denotes?, linkExpression, linkName, hargs, bind_assoc, ok_bind]
  cases hd : s.denotes? t.value with
  | none => simp
  | some o =>
    cases hp : o.entity.paramCount? with
    | none =>
      have hv : o.entity.isVariable = true := by rw [o.entity.isVariable_eq, hp]; rfl
      simp [Entity.requireFunction, hp, hv, Origin.name]
    | some required =>
      have hv : o.entity.isVariable = false := by rw [o.entity.isVariable_eq, hp]; rfl
      simp only [Entity.requireFunction, hp, hv, pure_bind, ok_bind, Token.requireArity,
        length_linkExpressions]
      by_cases hn : (args.length : Int) = required <;> simp [hn, pure, Except.pure]

mutual

/-- To resolve an expression is to look at its names, and then to link it. -/
theorem resolveExpression_eq (h : s.ShownBy scope) :
    ∀ t : Tree, t.IsExpression Naming.raw →
      resolveExpression scope t = (check (t.uses s) >>= fun _ => .ok (t.linkExpression s))
  | literal v, _ => rfl
  | token t, _ => resolveExpression_token h t
  | call callee args, ht => by
    obtain ⟨t, rfl⟩ := isToken_iff.1 ht.1
    exact resolveExpression_call h t (resolveExpressions_eq h args ht.2)
  | conditional test consequent alternate, ht => by
    simp only [resolveExpression, resolveExpression_eq h test ht.1,
      resolveExpression_eq h consequent ht.2.1, resolveExpression_eq h alternate ht.2.2, uses,
      check_append, bind_assoc, ok_bind]
    rfl
  | binary operator left right, ht => by
    simp only [resolveExpression, resolveExpression_eq h left ht.1,
      resolveExpression_eq h right ht.2, uses, check_append, bind_assoc, ok_bind]
    rfl
  | unary operator operand, ht => by
    simp only [resolveExpression, resolveExpression_eq h operand ht, uses, bind_assoc, ok_bind]
    rfl
  | absent, ht | text _, ht | list _, ht | entity _, ht | program _, ht
  | variableDeclaration _ _, ht | functionDeclaration _ _ _, ht | assignment _ _, ht
  | whileLoop _ _, ht | print _, ht => ht.elim

theorem resolveExpressions_eq (h : s.ShownBy scope) :
    ∀ ts : List Tree, AreExpressions Naming.raw ts →
      resolveExpressions scope ts =
        (check (usesInAll s ts) >>= fun _ => .ok (linkExpressions s ts))
  | [], _ => rfl
  | t :: ts, hts => by
    simp only [resolveExpressions, resolveExpression_eq h t hts.1, resolveExpressions_eq h ts hts.2,
      usesInAll, check_append, bind_assoc, ok_bind]
    rfl

end

end Tree

/-! ## Statements -/

namespace Surroundings

/-- A new name keeps the invariant. -/
theorem IsOutermost.declare {s : Surroundings} (hs : s.IsOutermost) {o : Origin}
    (ho : s.isTaken o.name = false) (count : Nat) :
    IsOutermost ⟨s.declared ++ [o], s.params, count⟩ := by
  refine ⟨hs.params_eq, ?_⟩
  intro d hd
  rcases List.mem_append.1 hd with hd | hd
  · exact hs.not_library d hd
  · rw [List.mem_singleton.1 hd]
    simp only [isTaken, Option.isSome_or, Bool.or_eq_false_iff] at ho
    simpa using ho.1

theorem isTaken_of_check {s : Surroundings} {t : Token} {u : Unit}
    (h : check ((Tree.token t).asName .declaration s) = .ok u) : s.isTaken t.value = false := by
  have hc := check_eq_ok_iff.1 h _ (List.mem_singleton.2 rfl)
  simpa [cause?] using hc

theorem IsOutermost.afterVariable {s : Surroundings} (hs : s.IsOutermost) {t : Token} {u : Unit}
    (h : check ((Tree.token t).asName .declaration s) = .ok u) :
    (s.afterVariable (.token t)).IsOutermost :=
  hs.declare (o := .declaredVariable s.count t.value) (isTaken_of_check h) _

theorem IsOutermost.afterFunction {s : Surroundings} (hs : s.IsOutermost) {t : Token} {u : Unit}
    (h : check ((Tree.token t).asName .declaration s) = .ok u) (params : List Tree) :
    (s.afterFunction (.token t) params).IsOutermost :=
  hs.declare (o := .declaredFunction s.count t.value params.length) (isTaken_of_check h) _

/-- In a function, the scope of its parameters shows what names denote. -/
theorem IsOutermost.shownBy_insideFunction {s : Surroundings} {name : Tree} {params : List Tree}
    (hs : (s.afterFunction name params).IsOutermost) :
    (s.insideFunction name params).ShownBy
      ⟨Origin.frame (Tree.parametersFrom (s.count + 1) params),
        [(s.afterFunction name params).declarations.scope.frame]⟩ := by
  intro x
  have hx := hs.shownBy x
  simp only [Scope.lookup?, Scope.frames, List.findSome?_cons, denotes?, hs.params_eq] at hx
  simp only [Scope.lookup?, Scope.frames, List.findSome?_cons, denotes?, insideFunction,
    Origin.lookup_frame]
  cases hp : Origin.find? x (Tree.parametersFrom (s.count + 1) params) with
  | some o => rfl
  | none => exact hx

@[simp] theorem next_declarations (s : Surroundings) : s.declarations.next = s.count := rfl

/-- A name to declare must be new. -/
theorem requireNew_declarations (s : Surroundings) (t : Token) :
    s.declarations.scope.requireNew t = check ((Tree.token t).asName .declaration s) := by
  simp only [Scope.requireNew, declares_declarations, Tree.asName, check_singleton, cause?]
  by_cases h : s.isTaken t.value <;> simp [h]

end Surroundings

namespace Tree

variable {s : Surroundings}

theorem length_parametersFrom (n : Nat) (params : List Tree) :
    (parametersFrom n params).length = params.length := by
  induction params generalizing n with
  | nil => rfl
  | cons p ps ih => simp [parametersFrom, ih]

/-- Parameters are declared behind others, and must differ from them. -/
theorem declareParameters_eq {params : List Tree} (hp : ∀ p ∈ params, p.IsToken)
    (earlier : List Origin) (outer : List Frame) (n : Nat) (s : Surroundings) :
    declareParameters params ⟨⟨Origin.frame earlier, outer⟩, n⟩ =
      (check (parameterOccurrences s (earlier.map Origin.name) params) >>= fun _ =>
        .ok ((parametersFrom n params).map fun o => entity o.entity,
          ⟨⟨Origin.frame (earlier ++ parametersFrom n params), outer⟩, n + params.length⟩)) := by
  induction params generalizing earlier n with
  | nil => simp [declareParameters, parameterOccurrences, parametersFrom]
  | cons p ps ih =>
    obtain ⟨t, rfl⟩ := isToken_iff.1 (hp p List.mem_cons_self)
    have hps : ∀ p ∈ ps, p.IsToken := fun p h => hp p (List.mem_cons_of_mem _ h)
    have hnew : (⟨Origin.frame earlier, outer⟩ : Scope).requireNew t =
        check ((token t).asName (.parameter (earlier.map Origin.name)) s) := by
      have hd : (⟨Origin.frame earlier, outer⟩ : Scope).declares t.value =
          decide (t.value ∈ earlier.map Origin.name) := by
        simp only [Scope.declares, Origin.lookup_frame, Option.isSome_map]
        cases h : Origin.find? t.value earlier with
        | none => simpa using Origin.find?_eq_none_iff.1 h
        | some o =>
          simpa using ⟨o, List.mem_of_find?_eq_some h, Origin.name_of_find? h⟩
      simp only [Scope.requireNew, hd, asName, check_singleton, cause?]
      by_cases h : t.value ∈ earlier.map Origin.name <;> simp [h]
    have hbind : (⟨Origin.frame earlier, outer⟩ : Scope).bind t.value (.parameter n t.value) =
        ⟨Origin.frame (earlier ++ [.parameter n t.value]), outer⟩ := by
      simp [Scope.bind, Origin.frame, Origin.entity]
    simp only [declareParameters, asToken, ok_bind, hnew, hbind, ih hps, parameterOccurrences,
      parametersFrom, spelling, check_append, bind_assoc, List.map_append, List.map_cons,
      List.map_nil, Origin.name_parameter, List.append_assoc, List.cons_append, List.nil_append,
      List.length_cons, Nat.add_assoc, Nat.add_comm 1]
    rfl

/-- To declare a function is to look at its name and its parameters, and then to link them. -/
theorem resolveHead_eq (t : Token) {params : List Tree} (hp : ∀ p ∈ params, p.IsToken) :
    resolveHead (token t) params s.declarations =
      (check ((token t).asName .declaration s ++ parameterOccurrences s [] params) >>= fun _ =>
        .ok ⟨(Origin.declaredFunction s.count t.value params.length).entity,
          (parametersFrom (s.count + 1) params).map fun o => entity o.entity,
          (s.afterFunction (token t) params).declarations.scope,
          ⟨⟨Origin.frame (parametersFrom (s.count + 1) params),
            [(s.afterFunction (token t) params).declarations.scope.frame]⟩,
            s.count + 1 + params.length⟩⟩) := by
  have hbind : s.declarations.scope.bind t.value (.declaredFunction s.count t.value params.length)
      = (s.afterFunction (token t) params).declarations.scope := by
    simp [Scope.bind, Surroundings.declarations, Surroundings.afterFunction, Origin.frame,
      Origin.entity, spelling]
  have hparams := declareParameters_eq hp []
    [(s.afterFunction (token t) params).declarations.scope.frame] (s.count + 1) s
  have henter : (s.afterFunction (token t) params).declarations.scope.enter =
      ⟨Origin.frame [], [(s.afterFunction (token t) params).declarations.scope.frame]⟩ := rfl
  simp only [resolveHead, asToken, ok_bind, Surroundings.requireNew_declarations, check_append,
    bind_assoc, Surroundings.next_declarations, hbind, henter, hparams, List.map_nil,
    List.nil_append]
  rfl

/-- A target must denote a variable that a `let` declares, for all else is read only. -/
theorem resolveTarget_bind (h : s.ShownBy s.declarations.scope) (t : Token) {β : Type}
    (f : Tree → Except ResolveError β) :
    (resolveTarget s.declarations.scope (token t) >>= fun e => f (entity e)) =
      (check ((token t).asName .target s) >>= fun _ => f ((token t).linkName s)) := by
  simp only [resolveTarget, asToken, ok_bind, h.denoted, asName, check_singleton, cause?, denotes?,
    linkName]
  cases hd : s.denotes? t.value with
  | none => rfl
  | some o =>
    cases o with
    | library b => rfl
    | declaredVariable index name => rfl
    | declaredFunction index name n => rfl
    | parameter index name => rfl

mutual

/-- A statement that breaks no rule keeps the invariant. -/
theorem isOutermost_after : ∀ (t : Tree), t.IsStatement Naming.raw →
    ∀ {s : Surroundings} {u : Unit}, s.IsOutermost → check (t.mentions s) = .ok u →
      (t.after s).IsOutermost
  | variableDeclaration name initializer, ht, s, _, hs, hc => by
    obtain ⟨t, rfl⟩ := isToken_iff.1 ht.1
    refine hs.afterVariable (u := ()) (check_eq_ok_iff.2 fun o ho => ?_)
    exact check_eq_ok_iff.1 hc o (List.mem_append_right _ ho)
  | functionDeclaration name params body, ht, s, _, hs, hc => by
    obtain ⟨t, rfl⟩ := isToken_iff.1 ht.1
    refine hs.afterFunction (u := ()) (check_eq_ok_iff.2 fun o ho => ?_) params
    exact check_eq_ok_iff.1 hc o (List.mem_append_left _ ho)
  | whileLoop test body, ht, s, _, hs, hc => by
    refine isOutermost_afterAll body ht.2 (u := ()) hs (check_eq_ok_iff.2 fun o ho => ?_)
    exact check_eq_ok_iff.1 hc o (List.mem_append_right _ ho)
  | assignment _ _, _, _, _, hs, _ | print _, _, _, _, hs, _ => hs
  | absent, ht, _, _, _, _ | literal _, ht, _, _, _, _ | text _, ht, _, _, _, _
  | list _, ht, _, _, _, _ | token _, ht, _, _, _, _ | entity _, ht, _, _, _, _
  | program _, ht, _, _, _, _ | call _ _, ht, _, _, _, _ | conditional _ _ _, ht, _, _, _, _
  | binary _ _ _, ht, _, _, _, _ | unary _ _, ht, _, _, _, _ => ht.elim

/-- Statements that break no rule keep the invariant. -/
theorem isOutermost_afterAll : ∀ (ts : List Tree), AreStatements Naming.raw ts →
    ∀ {s : Surroundings} {u : Unit}, s.IsOutermost → check (mentionsInAll ts s) = .ok u →
      (afterAll ts s).IsOutermost
  | [], _, _, _, hs, _ => hs
  | t :: ts, hts, s, _, hs, hc => by
    have ht : (t.after s).IsOutermost :=
      isOutermost_after t hts.1 (u := ()) hs
        (check_eq_ok_iff.2 fun o ho => check_eq_ok_iff.1 hc o (List.mem_append_left _ ho))
    refine isOutermost_afterAll ts hts.2 (u := ()) ht (check_eq_ok_iff.2 fun o ho => ?_)
    exact check_eq_ok_iff.1 hc o (List.mem_append_right _ ho)

end

mutual

/-- To resolve a statement is to look at its names, and then to link it. -/
theorem resolveStatement_eq : ∀ (t : Tree), t.IsStatement Naming.raw → ∀ {s : Surroundings},
    s.IsOutermost →
      resolveStatement t s.declarations =
        (check (t.mentions s) >>= fun _ => .ok (t.linkStatement s, (t.after s).declarations))
  | variableDeclaration name initializer, ht, s, hs => by
    obtain ⟨t, rfl⟩ := isToken_iff.1 ht.1
    have hbind : s.declarations.scope.bind t.value (.declaredVariable s.count t.value) =
        (s.afterVariable (token t)).declarations.scope := by
      simp [Scope.bind, Surroundings.declarations, Surroundings.afterVariable, Origin.frame,
        Origin.entity, spelling]
    simp only [resolveStatement, resolveExpression_eq hs.shownBy initializer ht.2, asToken, ok_bind,
      Surroundings.requireNew_declarations, Surroundings.next_declarations, hbind, mentions,
      check_append, bind_assoc]
    rfl
  | functionDeclaration name params body, ht, s, hs => by
    obtain ⟨t, rfl⟩ := isToken_iff.1 ht.1
    simp only [resolveStatement, resolveHead_eq t ht.2.1, mentions, check_append, bind_assoc,
      ok_bind]
    -- The body is looked at only if the name is new, and then its scope shows the surroundings.
    refine bind_congr_of_ok fun _ hname => ?_
    have hinner := (hs.afterFunction hname params).shownBy_insideFunction
    simp only [resolveExpression_eq hinner body ht.2.2, bind_assoc, ok_bind]
    rfl
  | assignment target source, ht, s, hs => by
    obtain ⟨t, rfl⟩ := isToken_iff.1 ht.1
    have htarget := resolveTarget_bind hs.shownBy t fun target =>
      source.resolveExpression s.declarations.scope >>= fun source =>
        .ok (assignment target source, s.declarations)
    simp only [resolveStatement, mentions, check_append, bind_assoc]
    refine htarget.trans ?_
    simp only [resolveExpression_eq hs.shownBy source ht.2, bind_assoc, ok_bind]
    rfl
  | whileLoop test body, ht, s, hs => by
    simp only [resolveStatement, resolveExpression_eq hs.shownBy test ht.1,
      resolveStatements_eq body ht.2 hs, mentions, check_append, bind_assoc, ok_bind]
    rfl
  | print argument, ht, s, hs => by
    simp only [resolveStatement, resolveExpression_eq hs.shownBy argument ht, mentions, bind_assoc,
      ok_bind]
    rfl
  | absent, ht, _, _ | literal _, ht, _, _ | text _, ht, _, _ | list _, ht, _, _
  | token _, ht, _, _ | entity _, ht, _, _ | program _, ht, _, _ | call _ _, ht, _, _
  | conditional _ _ _, ht, _, _ | binary _ _ _, ht, _, _ | unary _ _, ht, _, _ => ht.elim

/-- To resolve statements is to look at all their names, and then to link them. -/
theorem resolveStatements_eq : ∀ (ts : List Tree), AreStatements Naming.raw ts →
    ∀ {s : Surroundings}, s.IsOutermost →
      resolveStatements ts s.declarations =
        (check (mentionsInAll ts s) >>= fun _ =>
          .ok (linkStatements ts s, (afterAll ts s).declarations))
  | [], _, _, _ => rfl
  | t :: ts, hts, s, hs => by
    simp only [resolveStatements, resolveStatement_eq t hts.1 hs, mentionsInAll, check_append,
      bind_assoc, ok_bind]
    refine bind_congr_of_ok fun _ ht => ?_
    have hafter := isOutermost_after t hts.1 hs ht
    simp only [resolveStatements_eq ts hts.2 hafter, bind_assoc, ok_bind]
    rfl

end

/-- To resolve a program is to look at its occurrences in order and to link its names. -/
theorem resolve_eq {p : Tree} (hp : p.IsProgram Naming.raw) :
    p.resolve = (check p.occurrences >>= fun _ => .ok p.linked) := by
  cases p with
  | program statements =>
    have h := resolveStatements_eq statements hp Surroundings.isOutermost_initial
    rw [Surroundings.declarations_initial] at h
    simp only [resolve, resolveProgram, h, occurrences, linked]
    cases check (mentionsInAll statements .initial) <;> rfl
  | _ => exact hp.elim

end Tree
end Quill
