import Quill.Proofs.Scope.Linked
import Quill.Proofs.Optimize.Normal
import Quill.Proofs.Optimize.Fault

/-!
# Optimized programs are resolved programs

A resolved program is one whose entities are what their own names denote where they stand. The pass
keeps this: it drops operands, arms and assignments, but no declaration, so that every name that is
left denotes what it denoted. Such a program can be read off by its names alone: with its entities
written as names it resolves to itself.

## Main definitions

* `Surroundings.Denotes` — entities that their own names denote.
* `Tree.IsResolvedIn`, `Tree.IsResolvedProgram` — statements and programs of such entities.
* `Tree.TakePlaceOf` — statements that may stand in place of others.
-/

namespace Quill

/-! ## Entities and their names -/

/-- The entity is what its own name denotes: a parameter of the function around, or else declared
before, or else of the library. -/
def Surroundings.Denotes (s : Surroundings) (e : Entity) : Prop :=
  ∃ o, s.denotes? e.name = some o ∧ o.entity = e

theorem Surroundings.denotes_of_denotes? {s : Surroundings} {name : String} {o : Origin}
    (h : s.denotes? name = some o) : s.Denotes o.entity := by
  have hname : o.entity.name = name := name_of_denotes? h
  exact ⟨o, by rwa [hname], rfl⟩

/-- Each name is an entity that its own name denotes, fit for its place; what is declared is new,
and has the next number. -/
def Naming.denoted (s : Surroundings) : Naming where
  value := Tree.IsEntity fun e => s.Denotes e ∧ e.isVariable = true
  callee n := Tree.IsEntity fun e => s.Denotes e ∧ e.paramCount? = some (n : Int)
  target := Tree.IsEntity fun e => s.Denotes e ∧ e.readOnly = false
  variableName := Tree.IsEntity fun e =>
    e = .declaredVariable s.count e.name ∧ s.isTaken e.name = false
  functionName n := Tree.IsEntity fun e =>
    e = .declaredFunction s.count e.name n ∧ s.isTaken e.name = false
  parameter := Tree.IsEntity fun e => ∃ index, e = .parameter index e.name

namespace Tree

/-! ## Surroundings depend on spellings only -/

@[simp] theorem spelling_spelled (t : Tree) : t.spelled.spelling = t.spelling := by
  cases t <;> rfl

@[simp] theorem map_spelling_spelledAll (ts : List Tree) :
    (spelledAll ts).map spelling = ts.map spelling := by
  induction ts with
  | nil => rfl
  | cons t ts ih => rw [spelledAll, List.map_cons, List.map_cons, spelling_spelled, ih]

theorem length_spelledAll (ts : List Tree) : (spelledAll ts).length = ts.length := by
  have h := congrArg List.length (map_spelling_spelledAll ts)
  rwa [List.length_map, List.length_map] at h

theorem parametersFrom_congr {params params' : List Tree}
    (h : params.map spelling = params'.map spelling) (n : Nat) :
    parametersFrom n params = parametersFrom n params' := by
  induction params generalizing n params' with
  | nil =>
    rw [List.map_nil, eq_comm, List.map_eq_nil_iff] at h
    rw [h]
  | cons p ps ih =>
    obtain ⟨q, qs, rfl, hq, hqs⟩ := List.map_eq_cons_iff.1 h.symm
    rw [parametersFrom, parametersFrom, hq, ih hqs.symm]

section
variable {s : Surroundings} {name name' : Tree} {params params' : List Tree}

theorem afterFunction_congr (hname : name.spelling = name'.spelling)
    (hparams : params.map spelling = params'.map spelling) :
    s.afterFunction name params = s.afterFunction name' params' := by
  have hlength : params.length = params'.length := by simpa using congrArg List.length hparams
  rw [Surroundings.afterFunction, Surroundings.afterFunction, hname, hlength]

theorem insideFunction_congr (hname : name.spelling = name'.spelling)
    (hparams : params.map spelling = params'.map spelling) :
    s.insideFunction name params = s.insideFunction name' params' := by
  rw [Surroundings.insideFunction, Surroundings.insideFunction, afterFunction_congr hname hparams,
    parametersFrom_congr hparams]

end

mutual

/-- The spelling of names decides what is declared behind a statement. -/
theorem after_spelled : ∀ (t : Tree) (s : Surroundings), t.spelled.after s = t.after s
  | variableDeclaration name _, s => by
    simp only [spelled, after, Surroundings.afterVariable, spelling_spelled]
  | functionDeclaration name params _, s =>
    afterFunction_congr (spelling_spelled name) (map_spelling_spelledAll params)
  | whileLoop _ body, s => afterAll_spelledAll body s
  | absent, _ | literal _, _ | text _, _ | list _, _ | token _, _ | entity _, _ | program _, _
  | assignment _ _, _ | print _, _ | call _ _, _ | conditional _ _ _, _ | binary _ _ _, _
  | unary _ _, _ => rfl

theorem afterAll_spelledAll : ∀ (ts : List Tree) (s : Surroundings),
    afterAll (spelledAll ts) s = afterAll ts s
  | [], _ => rfl
  | t :: ts, s => by
    rw [spelledAll, afterAll, afterAll, after_spelled t s, afterAll_spelledAll ts]

end

/-- A linked statement declares what the statement does. -/
theorem after_linkStatement {t : Tree} (ht : t.IsStatement Naming.raw) (s : Surroundings) :
    (t.linkStatement s).after s = t.after s := by
  rw [← after_spelled, spelled_linkStatement t ht, after_spelled]

/-! ## Resolved programs -/

/-- The entities declared for parameters, in order, all with different names. -/
structure AreParametersFrom (n : Nat) (params : List Tree) : Prop where
  eq_entities : params = (parametersFrom n params).map fun o => entity o.entity
  nodup : (params.map spelling).Nodup

mutual

/-- Is each entity in the statement what its own name denotes at its place, and fit for it? -/
def IsResolvedIn : Tree → Surroundings → Prop
  | variableDeclaration name initializer, s =>
    initializer.IsExpression (.denoted s) ∧ (Naming.denoted s).variableName name
  | functionDeclaration name params body, s =>
    (Naming.denoted s).functionName params.length name ∧ AreParametersFrom (s.count + 1) params ∧
      body.IsExpression (.denoted (s.insideFunction name params))
  | assignment target source, s =>
    (Naming.denoted s).target target ∧ source.IsExpression (.denoted s)
  | whileLoop test body, s => test.IsExpression (.denoted s) ∧ AreResolvedIn body s
  | print argument, s => argument.IsExpression (.denoted s)
  | _, _ => False

/-- Is each entity in the statements what its own name denotes at its place? -/
def AreResolvedIn : List Tree → Surroundings → Prop
  | [], _ => True
  | t :: ts, s => t.IsResolvedIn s ∧ AreResolvedIn ts (t.after s)

end

/-- Is each entity in the program what its own name denotes at its place? -/
def IsResolvedProgram : Tree → Prop
  | program statements => AreResolvedIn statements .initial
  | _ => False

/-! ## Resolution makes resolved programs -/

variable {s : Surroundings}

theorem admits_denoted : Admits (.denoted s) s where
  value ho hv := ⟨Surroundings.denotes_of_denotes? ho, hv⟩
  callee ho hp := ⟨Surroundings.denotes_of_denotes? ho, hp⟩

theorem spelling_entity_parametersFrom (n : Nat) (params : List Tree) :
    ((parametersFrom n params).map fun o => entity o.entity).map spelling =
      params.map spelling := by
  induction params generalizing n with
  | nil => rfl
  | cons p ps ih =>
    simp only [parametersFrom, List.map_cons, ih]
    rfl

/-- Parameters may stand where they do exactly when they have different names. -/
theorem forall_parameterOccurrences_iff {params : List Tree} (hp : ∀ p ∈ params, p.IsToken)
    (earlier : List String) :
    (∀ o ∈ parameterOccurrences s earlier params, o.IsAllowed) ↔
      (params.map spelling).Nodup ∧ ∀ p ∈ params, p.spelling ∉ earlier := by
  induction params generalizing earlier with
  | nil => simp [parameterOccurrences]
  | cons p ps ih =>
    obtain ⟨t, rfl⟩ := isToken_iff.1 (hp p List.mem_cons_self)
    have hsplit : (∀ o ∈ parameterOccurrences s earlier (token t :: ps), o.IsAllowed) ↔
        t.value ∉ earlier ∧
          ∀ o ∈ parameterOccurrences s (earlier ++ [t.value]) ps, o.IsAllowed := by
      rw [parameterOccurrences, asName, List.singleton_append, List.forall_mem_cons]
      rfl
    rw [hsplit, ih fun q hq => hp q (List.mem_cons_of_mem _ hq)]
    simp only [List.map_cons, List.nodup_cons, List.mem_map, List.forall_mem_cons, List.mem_append,
      List.mem_singleton, spelling]
    grind

mutual

/-- A statement that breaks no rule is resolved where it is linked. -/
theorem isResolvedIn_linkStatement : ∀ t : Tree, t.IsStatement Naming.raw → ∀ {s : Surroundings},
    (∀ o ∈ t.mentions s, o.IsAllowed) → (t.linkStatement s).IsResolvedIn s
  | variableDeclaration name initializer, ht, s, h => by
    obtain ⟨t, rfl⟩ := isToken_iff.1 ht.1
    simp only [mentions, List.forall_mem_append] at h
    refine ⟨isExpression_linkExpression admits_denoted initializer ht.2 h.1, rfl, ?_⟩
    exact Surroundings.isTaken_eq_false_iff.2 (h.2 _ List.mem_cons_self)
  | functionDeclaration name params body, ht, s, h => by
    obtain ⟨t, rfl⟩ := isToken_iff.1 ht.1
    simp only [mentions, List.forall_mem_append] at h
    obtain ⟨hname, hparams, hbody⟩ := h
    have hnodup := ((forall_parameterOccurrences_iff ht.2.1 []).1 hparams).1
    have hspelling := spelling_entity_parametersFrom (s.count + 1) params
    have hlength : ((parametersFrom (s.count + 1) params).map fun o => entity o.entity).length =
        params.length := by
      rw [List.length_map, length_parametersFrom]
    simp only [linkStatement]
    refine ⟨?_, ⟨?_, ?_⟩, ?_⟩
    · rw [hlength]
      exact ⟨rfl, Surroundings.isTaken_eq_false_iff.2 (hname _ List.mem_cons_self)⟩
    · rw [parametersFrom_congr hspelling]
    · rwa [hspelling]
    · rw [insideFunction_congr rfl hspelling]
      exact isExpression_linkExpression admits_denoted body ht.2.2 hbody
  | assignment target source, ht, s, h => by
    obtain ⟨t, rfl⟩ := isToken_iff.1 ht.1
    simp only [mentions, List.forall_mem_append] at h
    obtain ⟨index, name, ho⟩ := h.1 _ List.mem_cons_self
    rw [linkStatement, linkName_of_denotes? ho]
    exact ⟨⟨Surroundings.denotes_of_denotes? ho, rfl⟩,
      isExpression_linkExpression admits_denoted source ht.2 h.2⟩
  | whileLoop test body, ht, s, h => by
    simp only [mentions, List.forall_mem_append] at h
    exact ⟨isExpression_linkExpression admits_denoted test ht.1 h.1,
      areResolvedIn_linkStatements body ht.2 h.2⟩
  | print argument, ht, s, h => isExpression_linkExpression admits_denoted argument ht h
  | absent, ht, _, _ | literal _, ht, _, _ | text _, ht, _, _ | list _, ht, _, _
  | token _, ht, _, _ | entity _, ht, _, _ | program _, ht, _, _ | call _ _, ht, _, _
  | conditional _ _ _, ht, _, _ | binary _ _ _, ht, _, _ | unary _ _, ht, _, _ => ht.elim

theorem areResolvedIn_linkStatements : ∀ ts : List Tree, AreStatements Naming.raw ts →
    ∀ {s : Surroundings}, (∀ o ∈ mentionsInAll ts s, o.IsAllowed) →
      AreResolvedIn (linkStatements ts s) s
  | [], _, _, _ => trivial
  | t :: ts, hts, s, h => by
    simp only [mentionsInAll, List.forall_mem_append] at h
    refine ⟨isResolvedIn_linkStatement t hts.1 h.1, ?_⟩
    rw [after_linkStatement hts.1]
    exact areResolvedIn_linkStatements ts hts.2 h.2

end

/-! ## The pass keeps resolved programs -/

theorem AreParametersFrom.parameter {n : Nat} {params : List Tree}
    (h : AreParametersFrom n params) : ∀ p ∈ params, Naming.resolved.parameter p := by
  intro p hp
  rw [h.eq_entities] at hp
  exact parameter_of_mem_parametersFrom hp

/-- Statements that may stand in place of others: they are resolved there, and declare the same. -/
structure TakePlaceOf (us ts : List Tree) (s : Surroundings) : Prop where
  areResolvedIn : AreResolvedIn us s
  afterAll_eq : afterAll us s = afterAll ts s
  declaredInAll_eq : declaredInAll us = declaredInAll ts

theorem TakePlaceOf.nil : TakePlaceOf [] [] s := ⟨trivial, rfl, rfl⟩

/-- A statement in place of another one, before statements in place of others. -/
theorem TakePlaceOf.cons {t u : Tree} {ts us : List Tree} (hu : u.IsResolvedIn s)
    (hafter : u.after s = t.after s) (hdeclared : u.declaredIn = t.declaredIn)
    (h : TakePlaceOf us ts (t.after s)) : TakePlaceOf (u :: us) (t :: ts) s where
  areResolvedIn := ⟨hu, hafter ▸ h.areResolvedIn⟩
  afterAll_eq := by rw [afterAll, afterAll, hafter, h.afterAll_eq]
  declaredInAll_eq := by rw [declaredInAll, declaredInAll, hdeclared, h.declaredInAll_eq]

/-- An assignment may be left out, since it declares nothing. -/
theorem TakePlaceOf.drop {target source : Tree} {ts us : List Tree} (h : TakePlaceOf us ts s) :
    TakePlaceOf us (assignment target source :: ts) s where
  areResolvedIn := h.areResolvedIn
  afterAll_eq := h.afterAll_eq
  declaredInAll_eq := h.declaredInAll_eq

-- The induction is over lists, since a statement may be optimized to none.
/-- What the pass makes of resolved statements may stand in their place: it leaves out assignments
only. -/
theorem optimizeAll_takePlaceOf : ∀ (ts : List Tree) {s : Surroundings}, AreResolvedIn ts s →
    TakePlaceOf (optimizeAll ts) ts s
  | [], s, _ => .nil
  | variableDeclaration name initializer :: ts, s, h =>
    .cons ⟨isExpression_optimize initializer h.1.1, h.1.2⟩ rfl rfl (optimizeAll_takePlaceOf ts h.2)
  | functionDeclaration name params body :: ts, s, h => by
    have hparams := optimizeAll_params h.1.2.1.parameter
    simp only [optimizeAll, optimize, hparams]
    exact .cons ⟨h.1.1, h.1.2.1, isExpression_optimize body h.1.2.2⟩ rfl rfl
      (optimizeAll_takePlaceOf ts h.2)
  | assignment target source :: ts, s, h => by
    have hrest := optimizeAll_takePlaceOf ts h.2
    rw [optimizeAll, optimize]
    rcases foldAssignment_cases target source.optimize with hfold | ⟨hfold, -⟩
    · rw [hfold]
      exact hrest.drop
    · rw [hfold]
      exact .cons ⟨h.1.1, isExpression_optimize source h.1.2⟩ rfl rfl hrest
  | whileLoop test body :: ts, s, h => by
    have hbody := optimizeAll_takePlaceOf body h.1.2
    exact .cons ⟨isExpression_optimize test h.1.1, hbody.areResolvedIn⟩ hbody.afterAll_eq
      hbody.declaredInAll_eq (optimizeAll_takePlaceOf ts h.2)
  | print argument :: ts, s, h => by
    have hargument := isExpression_optimize argument h.1
    exact .cons hargument rfl rfl (optimizeAll_takePlaceOf ts h.2)
  | absent :: _, _, h | literal _ :: _, _, h | text _ :: _, _, h | list _ :: _, _, h
  | token _ :: _, _, h | entity _ :: _, _, h | program _ :: _, _, h | call _ _ :: _, _, h
  | conditional _ _ _ :: _, _, h | binary _ _ _ :: _, _, h | unary _ _ :: _, _, h => h.1.elim

/-! ## Resolved programs are given back by their names -/

/-- A name is given back by the entity that it denotes. -/
theorem linkName_spelled {e : Entity} (h : s.Denotes e) :
    (entity e).spelled.linkName s = entity e := by
  obtain ⟨o, ho, rfl⟩ := h
  exact linkName_of_denotes? ho

mutual

/-- An expression of denoted entities is what its spelling resolves to. -/
theorem relink_expression : ∀ t : Tree, t.IsExpression (.denoted s) →
    t.spelled.IsExpression Naming.raw ∧ (∀ o ∈ t.spelled.uses s, o.IsAllowed) ∧
      t.spelled.linkExpression s = t
  | literal v, _ => ⟨trivial, by simp [spelled, uses], rfl⟩
  | entity e, ht => by
    refine ⟨trivial, ?_, linkName_spelled ht.1⟩
    obtain ⟨⟨o, ho, rfl⟩, hv⟩ := ht
    simp only [spelled, uses, asName, List.forall_mem_singleton]
    exact ⟨o, ho, hv⟩
  | call callee args, ht => by
    obtain ⟨e, rfl, hdenotes, harity⟩ := isEntity_iff.1 ht.1
    obtain ⟨hraw, hallowed, hlink⟩ := relink_expressions args ht.2
    simp only [spelled, linkExpression, hlink]
    refine ⟨⟨trivial, hraw⟩, ?_, congrArg (call · args) (linkName_spelled hdenotes)⟩
    -- The callee is looked at twice: as a function, and behind the arguments for their number.
    obtain ⟨o, ho, rfl⟩ := hdenotes
    have hfunction : o.entity.isVariable = false := by rw [Entity.isVariable_eq, harity]; rfl
    rw [← length_spelledAll] at harity
    simp only [uses, asName, List.forall_mem_append, List.forall_mem_singleton]
    exact ⟨⟨o, ho, hfunction⟩, hallowed, o, ho, harity⟩
  | conditional test consequent alternate, ht => by
    obtain ⟨hraw₁, hallowed₁, hlink₁⟩ := relink_expression test ht.1
    obtain ⟨hraw₂, hallowed₂, hlink₂⟩ := relink_expression consequent ht.2.1
    obtain ⟨hraw₃, hallowed₃, hlink₃⟩ := relink_expression alternate ht.2.2
    simp only [spelled, uses, linkExpression, List.forall_mem_append, hlink₁, hlink₂, hlink₃]
    exact ⟨⟨hraw₁, hraw₂, hraw₃⟩, ⟨hallowed₁, hallowed₂, hallowed₃⟩, trivial⟩
  | binary operator left right, ht => by
    obtain ⟨hraw₁, hallowed₁, hlink₁⟩ := relink_expression left ht.1
    obtain ⟨hraw₂, hallowed₂, hlink₂⟩ := relink_expression right ht.2
    simp only [spelled, uses, linkExpression, List.forall_mem_append, hlink₁, hlink₂]
    exact ⟨⟨hraw₁, hraw₂⟩, ⟨hallowed₁, hallowed₂⟩, trivial⟩
  | unary operator operand, ht => by
    obtain ⟨hraw, hallowed, hlink⟩ := relink_expression operand ht
    exact ⟨hraw, hallowed, congrArg (unary operator) hlink⟩
  | absent, ht | text _, ht | list _, ht | token _, ht | program _, ht | variableDeclaration _ _, ht
  | functionDeclaration _ _ _, ht | assignment _ _, ht | whileLoop _ _, ht | print _, ht => ht.elim

/-- Resolved expressions that are spelled out are linked to the same again. -/
theorem relink_expressions : ∀ ts : List Tree, AreExpressions (.denoted s) ts →
    AreExpressions Naming.raw (spelledAll ts) ∧
      (∀ o ∈ usesInAll s (spelledAll ts), o.IsAllowed) ∧
        linkExpressions s (spelledAll ts) = ts
  | [], _ => ⟨trivial, by simp [spelledAll, usesInAll], rfl⟩
  | t :: ts, hts => by
    obtain ⟨hraw, hallowed, hlink⟩ := relink_expression t hts.1
    obtain ⟨hraws, halloweds, hlinks⟩ := relink_expressions ts hts.2
    simp only [spelledAll, usesInAll, linkExpressions, List.forall_mem_append, hlink, hlinks]
    exact ⟨⟨hraw, hraws⟩, ⟨hallowed, halloweds⟩, trivial⟩

end

theorem isToken_of_mem_spelledAll {params : List Tree}
    (h : ∀ p ∈ params, Naming.resolved.parameter p) : ∀ p ∈ spelledAll params, p.IsToken := by
  induction params with
  | nil => simp [spelledAll]
  | cons p ps ih =>
    obtain ⟨e, rfl, -⟩ := isEntity_iff.1 (h p List.mem_cons_self)
    rw [spelledAll, List.forall_mem_cons]
    exact ⟨trivial, ih fun q hq => h q (List.mem_cons_of_mem _ hq)⟩

/-- What is not read only is declared by a `let`. -/
theorem denotes?_target {e : Entity} (h : s.Denotes e) (he : e.readOnly = false) :
    ∃ index name, s.denotes? e.name = some (.declaredVariable index name) := by
  obtain ⟨o, ho, rfl⟩ := h
  cases o with
  | declaredVariable index name => exact ⟨index, name, ho⟩
  | library b => nomatch he
  | declaredFunction index name n => nomatch he
  | parameter index name => nomatch he

mutual

/-- A resolved statement is what its spelling resolves to. -/
theorem relink_statement : ∀ (t : Tree) {s : Surroundings}, t.IsResolvedIn s →
    t.spelled.IsStatement Naming.raw ∧ (∀ o ∈ t.spelled.mentions s, o.IsAllowed) ∧
      t.spelled.linkStatement s = t
  | variableDeclaration name initializer, s, ht => by
    obtain ⟨e, rfl, he, hnew⟩ := isEntity_iff.1 ht.2
    obtain ⟨hraw, hallowed, hlink⟩ := relink_expression initializer ht.1
    simp only [spelled, mentions, linkStatement, List.forall_mem_append, hlink]
    refine ⟨⟨trivial, hraw⟩, ⟨hallowed, ?_⟩, ?_⟩
    · simp only [asName, List.forall_mem_singleton]
      exact Surroundings.isTaken_eq_false_iff.1 hnew
    · exact congrArg (fun e => variableDeclaration (entity e) initializer) he.symm
  | functionDeclaration name params body, s, ht => by
    obtain ⟨e, rfl, he, hnew⟩ := isEntity_iff.1 ht.1
    obtain ⟨hraw, hallowed, hlink⟩ := relink_expression body ht.2.2
    have hparams := ht.2.1
    have htokens := isToken_of_mem_spelledAll hparams.parameter
    have hinside : s.insideFunction (entity e).spelled (spelledAll params) =
        s.insideFunction (entity e) params :=
      insideFunction_congr (spelling_spelled _) (map_spelling_spelledAll params)
    simp only [spelled, mentions, linkStatement, List.forall_mem_append] at hinside ⊢
    refine ⟨⟨trivial, htokens, hraw⟩, ⟨?_, ?_, ?_⟩, ?_⟩
    · simp only [asName, List.forall_mem_singleton]
      exact Surroundings.isTaken_eq_false_iff.1 hnew
    · refine (forall_parameterOccurrences_iff htokens []).2 ⟨?_, by simp⟩
      rw [map_spelling_spelledAll]
      exact hparams.nodup
    · rwa [hinside]
    · rw [hinside, hlink, length_spelledAll, parametersFrom_congr (map_spelling_spelledAll params),
        ← hparams.eq_entities]
      exact congrArg (fun e => functionDeclaration (entity e) params body) he.symm
  | assignment target source, s, ht => by
    obtain ⟨e, rfl, hdenotes, he⟩ := isEntity_iff.1 ht.1
    obtain ⟨hraw, hallowed, hlink⟩ := relink_expression source ht.2
    simp only [spelled, mentions, linkStatement, List.forall_mem_append, hlink]
    refine ⟨⟨trivial, hraw⟩, ⟨?_, hallowed⟩, ?_⟩
    · simp only [asName, List.forall_mem_singleton]
      exact denotes?_target hdenotes he
    · exact congrArg (assignment · source) (linkName_spelled hdenotes)
  | whileLoop test body, s, ht => by
    obtain ⟨hraw, hallowed, hlink⟩ := relink_expression test ht.1
    obtain ⟨hraws, halloweds, hlinks⟩ := relink_statements body ht.2
    simp only [spelled, mentions, linkStatement, List.forall_mem_append, hlink, hlinks]
    exact ⟨⟨hraw, hraws⟩, ⟨hallowed, halloweds⟩, trivial⟩
  | print argument, s, ht => by
    obtain ⟨hraw, hallowed, hlink⟩ := relink_expression argument ht
    exact ⟨hraw, hallowed, congrArg print hlink⟩
  | absent, _, ht | literal _, _, ht | text _, _, ht | list _, _, ht | token _, _, ht
  | entity _, _, ht | program _, _, ht | call _ _, _, ht | conditional _ _ _, _, ht
  | binary _ _ _, _, ht | unary _ _, _, ht => ht.elim

/-- Resolved statements that are spelled out are linked to the same again. -/
theorem relink_statements : ∀ (ts : List Tree) {s : Surroundings}, AreResolvedIn ts s →
    AreStatements Naming.raw (spelledAll ts) ∧
      (∀ o ∈ mentionsInAll (spelledAll ts) s, o.IsAllowed) ∧
        linkStatements (spelledAll ts) s = ts
  | [], _, _ => ⟨trivial, by simp [spelledAll, mentionsInAll], rfl⟩
  | t :: ts, s, hts => by
    obtain ⟨hraw, hallowed, hlink⟩ := relink_statement t hts.1
    obtain ⟨hraws, halloweds, hlinks⟩ := relink_statements ts hts.2
    simp only [spelledAll, mentionsInAll, linkStatements, List.forall_mem_append, after_spelled,
      hlink, hlinks]
    exact ⟨⟨hraw, hraws⟩, ⟨hallowed, halloweds⟩, trivial⟩

end

/-- A resolved program is what its spelling resolves to. -/
theorem resolve_spelled {r : Tree} (hr : r.IsResolvedProgram) :
    r.spelled.IsProgram Naming.raw ∧ r.spelled.resolve = .ok r := by
  cases r with
  | program statements =>
    obtain ⟨hraw, hallowed, hlink⟩ := relink_statements statements hr
    have hprogram : (program statements).spelled.IsProgram Naming.raw := hraw
    refine ⟨hprogram, ?_⟩
    exact (resolve_eq_ok_iff hprogram).2 ⟨hallowed, congrArg program hlink⟩
  | _ => exact hr.elim

/-- What resolution answers is a resolved program. -/
theorem isResolvedProgram_linked {p : Tree} (hp : p.IsProgram Naming.raw) (h : p.IsWellScoped) :
    p.linked.IsResolvedProgram := by
  cases p with
  | program statements => exact areResolvedIn_linkStatements statements hp h
  | _ => exact hp.elim

/-- Optimized, a resolved program is one still, with the same declarations. -/
theorem isResolvedProgram_optimize {t : Tree} (ht : t.IsResolvedProgram) :
    t.optimize.IsResolvedProgram ∧ t.optimize.declaredEntities = t.declaredEntities := by
  cases t with
  | program statements =>
    have h := optimizeAll_takePlaceOf statements ht
    exact ⟨h.areResolvedIn, h.declaredInAll_eq⟩
  | _ => exact ht.elim

/-- The optimized form of an accepted program is a resolved program: each entity in it is declared
before its use, a parameter of the function around or of the library, each call has as many
arguments as its function takes, and no declaration is lost. With its entities written as names it
resolves to itself, and that not only up to the numbering of entities. -/
theorem resolve_spelled_optimize {p t : Tree} (hp : p.IsProgram Naming.raw)
    (h : p.resolve = .ok t) :
    ∃ r, t.optimize? = .ok r ∧
      r.spelled.IsProgram Naming.raw ∧ r.spelled.resolve = .ok r ∧
      r.IsResolvedProgram ∧ r.IsResolutionOf r.spelled ∧
      r.declaredEntities = t.declaredEntities := by
  obtain ⟨hscoped, rfl⟩ := (resolve_eq_ok_iff hp).1 h
  have hresolved := (isResolutionOf_linked hp hscoped).isProgram
  obtain ⟨hoptimized, hdeclared⟩ :=
    isResolvedProgram_optimize (isResolvedProgram_linked hp hscoped)
  obtain ⟨hraw, hresolve⟩ := resolve_spelled hoptimized
  obtain ⟨hspelled, hlinked⟩ := (resolve_eq_ok_iff hraw).1 hresolve
  refine ⟨p.linked.optimize, optimize?_of_isProgram hresolved, hraw, hresolve, hoptimized, ?_,
    hdeclared⟩
  have h := isResolutionOf_linked hraw hspelled
  rwa [hlinked] at h

/-- A loop with an assignment that changes nothing, before a declaration with a decided arm. -/
def untidy : Tree :=
  let name (x : String) := token ⟨x, none⟩
  program [
    variableDeclaration (name "x") (number .one),
    functionDeclaration (name "f") [name "x"] (binary "-" (name "x") (number .zero)),
    whileLoop (name "x")
      [assignment (name "x") (binary "+" (name "x") (number .zero)),
        variableDeclaration (name "y")
          (conditional (boolean true) (call (name "f") [name "x"]) (name "π"))],
    print (name "y")]

/-- The same loop with the declaration alone. -/
def tidy : Tree :=
  let name (x : String) := token ⟨x, none⟩
  program [
    variableDeclaration (name "x") (number .one),
    functionDeclaration (name "f") [name "x"] (name "x"),
    whileLoop (name "x") [variableDeclaration (name "y") (call (name "f") [name "x"])],
    print (name "y")]

theorem resolve_tidy :
    untidy.IsProgram Naming.raw ∧ untidy.linked.optimize.spelled = tidy ∧
      untidy.resolve = .ok untidy.linked ∧
      ∃ r, untidy.linked.optimize? = .ok r ∧
        r.spelled.IsProgram Naming.raw ∧ r.spelled.resolve = .ok r ∧
        r.IsResolvedProgram ∧ r.IsResolutionOf r.spelled ∧
        r.declaredEntities = untidy.linked.declaredEntities := by
  have hraw : untidy.IsProgram Naming.raw := by
    simp [untidy, IsProgram, AreStatements, IsStatement, IsExpression, AreExpressions, Naming.raw,
      IsToken]
  have hresolve : untidy.resolve = .ok untidy.linked := rfl
  exact ⟨hraw, rfl, hresolve, resolve_spelled_optimize hraw hresolve⟩

end Tree
end Quill
