import Quill.Proofs.Scope.Resolution

/-!
# Resolution accepts the well-scoped programs

Resolution of a program succeeds exactly when every name stands where it may. The answer is the
program itself with an entity in place of every name: nothing else changes, no token is left, each
entity is fit for its place, and the declarations make new entities, one each.

## Main definitions

* `Tree.spelled` — a tree with its names as they are spelled, be they tokens or entities.
* `Tree.declaredEntities` — the entities that a program declares, in its order.
* `Tree.IsResolutionOf` — what a resolved program has to do with the program as read.
-/

namespace Quill

open Occurrence

/-! ## Rules -/

namespace Origin

theorem find?_ofLibrary_eq_none_iff {name : String} :
    find? name ofLibrary = none ↔ ∀ b : Builtin, name ≠ b.name := by
  rw [find?_eq_none_iff]
  constructor
  · intro h b hb
    exact h (library b) (List.mem_map_of_mem (Builtin.mem_all b)) hb.symm
  · intro h o ho
    obtain ⟨b, -, rfl⟩ := List.mem_map.1 ho
    exact (h b).symm

/-- No origin pretends to be of the library. -/
theorem isGenuine_entity (o : Origin) : o.entity.IsGenuine := by
  cases o with
  | library b => exact b.isGenuine_entity
  | declaredVariable index name => exact Entity.isGenuine_of_builtin?_eq_none rfl
  | declaredFunction index name n => exact Entity.isGenuine_of_builtin?_eq_none rfl
  | parameter index name => exact Entity.isGenuine_of_builtin?_eq_none rfl

end Origin

/-- What a name denotes is called so. -/
theorem Surroundings.name_of_denotes? {s : Surroundings} {name : String} {o : Origin}
    (h : s.denotes? name = some o) : o.name = name := by
  rcases Option.or_eq_some_iff.1 h with h | ⟨-, h⟩
  · exact Origin.name_of_find? h
  · rcases Option.or_eq_some_iff.1 h with h | ⟨-, h⟩ <;> exact Origin.name_of_find? h

theorem Surroundings.isTaken_eq_false_iff {s : Surroundings} {name : String} :
    s.isTaken name = false ↔
      (∀ b : Builtin, name ≠ b.name) ∧ ∀ d ∈ s.declared, name ≠ d.name := by
  have hdeclared : Origin.find? name s.declared = none ↔ ∀ d ∈ s.declared, name ≠ d.name := by
    rw [Origin.find?_eq_none_iff]
    exact forall₂_congr fun _ _ => ne_comm
  rw [isTaken, Option.isSome_or, Bool.or_eq_false_iff, Option.isSome_eq_false_iff,
    Option.isSome_eq_false_iff, Option.isNone_iff_eq_none, Option.isNone_iff_eq_none,
    Origin.find?_ofLibrary_eq_none_iff, hdeclared]

/-- An occurrence is allowed exactly when it breaks no rule. -/
theorem Occurrence.cause?_eq_none_iff (o : Occurrence) : o.cause? = none ↔ o.IsAllowed := by
  obtain ⟨role, t, s⟩ := o
  simp only [cause?, IsAllowed, denotes?]
  cases role with
  | declaration =>
    rw [← Surroundings.isTaken_eq_false_iff]
    cases s.isTaken t.value <;> simp
  | parameter earlier => by_cases h : t.value ∈ earlier <;> simp [h]
  | value =>
    cases s.denotes? t.value with
    | none => simp
    | some d => cases h : d.entity.isVariable <;> simp [h]
  | callee =>
    cases s.denotes? t.value with
    | none => simp
    | some d => cases h : d.entity.isVariable <;> simp [h]
  | arity args =>
    cases s.denotes? t.value with
    | none => simp
    | some d =>
      cases h : d.entity.paramCount? with
      | none => simp [h]
      | some required =>
        by_cases hn : (args : Int) = required
        · simp [h, hn]
        · simp [h, hn, Ne.symm hn]
  | target =>
    cases s.denotes? t.value with
    | none => simp
    | some d => cases d <;> simp

namespace Tree

variable {s : Surroundings}

/-! ## The shape of the answer -/

theorem linkName_of_denotes? {t : Token} {o : Origin} (h : s.denotes? t.value = some o) :
    (token t).linkName s = entity o.entity := by
  simp [linkName, h]

/-- What a naming must allow for the names of an expression to be linked: what is denoted may stand
as a value if it is a variable, and as a function if it takes the arguments. -/
structure Admits (N : Naming) (s : Surroundings) : Prop where
  value : ∀ {name : String} {o : Origin}, s.denotes? name = some o → o.entity.isVariable = true →
    N.value (entity o.entity)
  callee : ∀ {name : String} {o : Origin} {n : Nat}, s.denotes? name = some o →
    o.entity.paramCount? = some (n : Int) → N.callee n (entity o.entity)

theorem admits_resolved : Admits Naming.resolved s where
  value {_ o} _ hv := ⟨hv, o.isGenuine_entity⟩
  callee {_ o _} _ hp := ⟨hp, o.isGenuine_entity⟩

mutual

/-- An expression in which every name is allowed is linked to a resolved one. -/
theorem isExpression_linkExpression {N : Naming} (hN : Admits N s) : ∀ t : Tree,
    t.IsExpression Naming.raw → (∀ o ∈ t.uses s, o.IsAllowed) → (t.linkExpression s).IsExpression N
  | literal v, _, _ => trivial
  | token t, _, h => by
    obtain ⟨o, ho, hv⟩ := h _ List.mem_cons_self
    rw [linkExpression, linkName_of_denotes? ho]
    exact hN.value ho hv
  | call callee args, ht, h => by
    obtain ⟨t, rfl⟩ := isToken_iff.1 ht.1
    have hcallee : (⟨.arity args.length, t, s⟩ : Occurrence) ∈ (call (token t) args).uses s := by
      simp [uses, asName]
    obtain ⟨o, ho, hp⟩ := h _ hcallee
    rw [linkExpression, linkName_of_denotes? ho]
    refine ⟨?_, ?_⟩
    · rw [length_linkExpressions]
      exact hN.callee ho hp
    · refine areExpressions_linkExpressions hN args ht.2 fun o ho => h o ?_
      exact List.mem_append_right _ (List.mem_append_left _ ho)
  | conditional test consequent alternate, ht, h => by
    simp only [uses, List.forall_mem_append] at h
    exact ⟨isExpression_linkExpression hN test ht.1 h.1,
      isExpression_linkExpression hN consequent ht.2.1 h.2.1,
      isExpression_linkExpression hN alternate ht.2.2 h.2.2⟩
  | binary operator left right, ht, h => by
    simp only [uses, List.forall_mem_append] at h
    exact ⟨isExpression_linkExpression hN left ht.1 h.1,
      isExpression_linkExpression hN right ht.2 h.2⟩
  | unary operator operand, ht, h => isExpression_linkExpression hN operand ht h
  | absent, ht, _ | text _, ht, _ | list _, ht, _ | entity _, ht, _ | program _, ht, _
  | variableDeclaration _ _, ht, _ | functionDeclaration _ _ _, ht, _ | assignment _ _, ht, _
  | whileLoop _ _, ht, _ | print _, ht, _ => ht.elim

theorem areExpressions_linkExpressions {N : Naming} (hN : Admits N s) : ∀ ts : List Tree,
    AreExpressions Naming.raw ts → (∀ o ∈ usesInAll s ts, o.IsAllowed) →
      AreExpressions N (linkExpressions s ts)
  | [], _, _ => trivial
  | t :: ts, hts, h => by
    simp only [usesInAll, List.forall_mem_append] at h
    exact ⟨isExpression_linkExpression hN t hts.1 h.1,
      areExpressions_linkExpressions hN ts hts.2 h.2⟩

end

/-- What is declared for parameters is fit to stand for them. -/
theorem parameter_of_mem_parametersFrom {n : Nat} {params : List Tree} {p : Tree}
    (h : p ∈ (parametersFrom n params).map fun o => entity o.entity) :
    Naming.resolved.parameter p := by
  induction params generalizing n with
  | nil => simp [parametersFrom] at h
  | cons q qs ih =>
    rcases List.mem_cons.1 h with rfl | h
    · exact ⟨rfl, rfl, rfl⟩
    · exact ih h

mutual

/-- A statement in which every name is allowed is linked to a resolved one. -/
theorem isStatement_linkStatement : ∀ t : Tree, t.IsStatement Naming.raw → ∀ {s : Surroundings},
    (∀ o ∈ t.mentions s, o.IsAllowed) → (t.linkStatement s).IsStatement Naming.resolved
  | variableDeclaration name initializer, ht, s, h => by
    simp only [mentions, List.forall_mem_append] at h
    exact ⟨⟨rfl, rfl, rfl⟩, isExpression_linkExpression admits_resolved initializer ht.2 h.1⟩
  | functionDeclaration name params body, ht, s, h => by
    simp only [mentions, List.forall_mem_append] at h
    refine ⟨?_, fun p => parameter_of_mem_parametersFrom,
      isExpression_linkExpression admits_resolved body ht.2.2 h.2.2⟩
    rw [List.length_map, length_parametersFrom]
    exact ⟨rfl, rfl, rfl⟩
  | assignment target source, ht, s, h => by
    obtain ⟨t, rfl⟩ := isToken_iff.1 ht.1
    simp only [mentions, List.forall_mem_append] at h
    obtain ⟨index, name, ho⟩ := h.1 _ List.mem_cons_self
    rw [linkStatement, linkName_of_denotes? ho]
    exact ⟨⟨rfl, rfl, rfl⟩, isExpression_linkExpression admits_resolved source ht.2 h.2⟩
  | whileLoop test body, ht, s, h => by
    simp only [mentions, List.forall_mem_append] at h
    exact ⟨isExpression_linkExpression admits_resolved test ht.1 h.1,
      areStatements_linkStatements body ht.2 h.2⟩
  | print argument, ht, s, h => isExpression_linkExpression admits_resolved argument ht h
  | absent, ht, _, _ | literal _, ht, _, _ | text _, ht, _, _ | list _, ht, _, _
  | token _, ht, _, _ | entity _, ht, _, _ | program _, ht, _, _ | call _ _, ht, _, _
  | conditional _ _ _, ht, _, _ | binary _ _ _, ht, _, _ | unary _ _, ht, _, _ => ht.elim

theorem areStatements_linkStatements : ∀ ts : List Tree, AreStatements Naming.raw ts →
    ∀ {s : Surroundings}, (∀ o ∈ mentionsInAll ts s, o.IsAllowed) →
      AreStatements Naming.resolved (linkStatements ts s)
  | [], _, _, _ => trivial
  | t :: ts, hts, s, h => by
    simp only [mentionsInAll, List.forall_mem_append] at h
    exact ⟨isStatement_linkStatement t hts.1 h.1, areStatements_linkStatements ts hts.2 h.2⟩

end

/-! ## What stays -/

mutual

/-- A tree with its names as they are spelled, be they tokens or entities. -/
def spelled : Tree → Tree
  | token t => token ⟨t.value, none⟩
  | entity e => token ⟨e.name, none⟩
  | list items => list (spelledAll items)
  | program statements => program (spelledAll statements)
  | variableDeclaration name initializer => variableDeclaration name.spelled initializer.spelled
  | functionDeclaration name params body =>
    functionDeclaration name.spelled (spelledAll params) body.spelled
  | assignment target source => assignment target.spelled source.spelled
  | whileLoop test body => whileLoop test.spelled (spelledAll body)
  | print argument => print argument.spelled
  | call callee args => call callee.spelled (spelledAll args)
  | conditional test consequent alternate =>
    conditional test.spelled consequent.spelled alternate.spelled
  | binary operator left right => binary operator left.spelled right.spelled
  | unary operator operand => unary operator operand.spelled
  | absent => absent
  | literal value => literal value
  | text value => text value

/-- Trees with their names as they are spelled. -/
def spelledAll : List Tree → List Tree
  | [] => []
  | t :: ts => t.spelled :: spelledAll ts

end

/-- An entity is called as the name that denotes it. -/
theorem spelled_linkName (t : Tree) : (t.linkName s).spelled = t.spelled := by
  cases t with
  | token t =>
    simp only [linkName]
    split
    · rename_i o ho
      rw [spelled, spelled, ← Surroundings.name_of_denotes? ho, Origin.name]
    · rfl
  | _ => rfl

mutual

/-- Linked expressions are spelled as before. -/
theorem spelled_linkExpression : ∀ t : Tree, (t.linkExpression s).spelled = t.spelled
  | token t => spelled_linkName (token t)
  | call callee args => by
    simp only [linkExpression, spelled, spelled_linkName, spelledAll_linkExpressions args]
  | conditional test consequent alternate => by
    simp only [linkExpression, spelled, spelled_linkExpression test,
      spelled_linkExpression consequent, spelled_linkExpression alternate]
  | binary operator left right => by
    simp only [linkExpression, spelled, spelled_linkExpression left, spelled_linkExpression right]
  | unary operator operand => by
    simp only [linkExpression, spelled, spelled_linkExpression operand]
  | absent | literal _ | text _ | list _ | entity _ | program _ | variableDeclaration _ _
  | functionDeclaration _ _ _ | assignment _ _ | whileLoop _ _ | print _ => rfl

theorem spelledAll_linkExpressions : ∀ ts : List Tree,
    spelledAll (linkExpressions s ts) = spelledAll ts
  | [] => rfl
  | t :: ts => by
    simp only [linkExpressions, spelledAll, spelled_linkExpression t, spelledAll_linkExpressions ts]

end

theorem spelledAll_parametersFrom {n : Nat} {params : List Tree} (hp : ∀ p ∈ params, p.IsToken) :
    spelledAll ((parametersFrom n params).map fun o => entity o.entity) = spelledAll params := by
  induction params generalizing n with
  | nil => rfl
  | cons p ps ih =>
    obtain ⟨t, rfl⟩ := isToken_iff.1 (hp p List.mem_cons_self)
    simp only [parametersFrom, List.map_cons, spelledAll,
      ih fun p h => hp p (List.mem_cons_of_mem _ h)]
    rfl

mutual

theorem spelled_linkStatement : ∀ t : Tree, t.IsStatement Naming.raw → ∀ {s : Surroundings},
    (t.linkStatement s).spelled = t.spelled
  | variableDeclaration name initializer, ht, s => by
    obtain ⟨t, rfl⟩ := isToken_iff.1 ht.1
    simp only [linkStatement, spelled, spelled_linkExpression]
    rfl
  | functionDeclaration name params body, ht, s => by
    obtain ⟨t, rfl⟩ := isToken_iff.1 ht.1
    simp only [linkStatement, spelled, spelled_linkExpression, spelledAll_parametersFrom ht.2.1]
    rfl
  | assignment target source, _, s => by
    simp only [linkStatement, spelled, spelled_linkExpression, spelled_linkName]
  | whileLoop test body, ht, s => by
    simp only [linkStatement, spelled, spelled_linkExpression, spelledAll_linkStatements body ht.2]
  | print argument, _, s => by simp only [linkStatement, spelled, spelled_linkExpression]
  | absent, ht, _ | literal _, ht, _ | text _, ht, _ | list _, ht, _ | token _, ht, _
  | entity _, ht, _ | program _, ht, _ | call _ _, ht, _ | conditional _ _ _, ht, _
  | binary _ _ _, ht, _ | unary _ _, ht, _ => ht.elim

theorem spelledAll_linkStatements : ∀ ts : List Tree, AreStatements Naming.raw ts →
    ∀ {s : Surroundings}, spelledAll (linkStatements ts s) = spelledAll ts
  | [], _, _ => rfl
  | t :: ts, hts, s => by
    simp only [linkStatements, spelledAll, spelled_linkStatement t hts.1,
      spelledAll_linkStatements ts hts.2]

end

/-! ## New entities -/

mutual

/-- The entities that a statement declares, in order. -/
def declaredIn : Tree → List Entity
  | variableDeclaration name _ => name.entity?.toList
  | functionDeclaration name params _ => name.entity?.toList ++ params.filterMap entity?
  | whileLoop _ body => declaredInAll body
  | _ => []

/-- The entities that statements declare. -/
def declaredInAll : List Tree → List Entity
  | [] => []
  | t :: ts => t.declaredIn ++ declaredInAll ts

end

/-- The entities that a program declares, in its order. -/
def declaredEntities : Tree → List Entity
  | program statements => declaredInAll statements
  | _ => []

/-- Identities in order, from a number on. -/
def identitiesFrom (n count : Nat) : List Entity.Id := (List.range' n count).map .user

theorem identitiesFrom_append (n k l : Nat) :
    identitiesFrom n (k + l) = identitiesFrom n k ++ identitiesFrom (n + k) l := by
  rw [identitiesFrom, identitiesFrom, identitiesFrom, ← List.map_append, List.range'_append_1]

theorem ids_parametersFrom (n : Nat) (params : List Tree) :
    (((parametersFrom n params).map fun o => entity o.entity).filterMap entity?).map Entity.id =
      identitiesFrom n params.length := by
  induction params generalizing n with
  | nil => rfl
  | cons p ps ih =>
    simp only [parametersFrom, List.map_cons, List.filterMap_cons, entity?, ih, List.length_cons,
      identitiesFrom, List.range'_succ]
    rfl

mutual

/-- A statement numbers what it declares from the count of its surroundings on. -/
theorem ids_linkStatement : ∀ (t : Tree) (s : Surroundings), ∃ k, (t.after s).count = s.count + k ∧
    (t.linkStatement s).declaredIn.map Entity.id = identitiesFrom s.count k
  | variableDeclaration name initializer, s => ⟨1, rfl, rfl⟩
  | functionDeclaration name params body, s => by
    refine ⟨1 + params.length, Nat.add_assoc _ _ _, ?_⟩
    rw [identitiesFrom_append]
    simp only [linkStatement, declaredIn, List.map_append, ids_parametersFrom]
    rfl
  | whileLoop test body, s => ids_linkStatements body s
  | assignment _ _, s | print _, s => ⟨0, rfl, rfl⟩
  | absent, s | program _, s | literal _, s | text _, s | list _, s | token _, s | entity _, s
  | call _ _, s | conditional _ _ _, s | binary _ _ _, s | unary _ _, s => ⟨0, rfl, rfl⟩

/-- What statements declare is numbered in order. -/
theorem ids_linkStatements : ∀ (ts : List Tree) (s : Surroundings),
    ∃ k, (afterAll ts s).count = s.count + k ∧
      (declaredInAll (linkStatements ts s)).map Entity.id = identitiesFrom s.count k
  | [], s => ⟨0, rfl, rfl⟩
  | t :: ts, s => by
    obtain ⟨k, hk, ht⟩ := ids_linkStatement t s
    obtain ⟨l, hl, hts⟩ := ids_linkStatements ts (t.after s)
    refine ⟨k + l, ?_, ?_⟩
    · rw [afterAll, hl, hk, Nat.add_assoc]
    · rw [linkStatements, declaredInAll, List.map_append, ht, hts, hk, identitiesFrom_append]

end

theorem nodup_identitiesFrom (n count : Nat) : (identitiesFrom n count).Nodup := by
  have hnumbers : (List.range' n count).Nodup := List.nodup_range' _
  refine List.pairwise_map.2 (hnumbers.imp ?_)
  intro a b hne h
  exact hne (Entity.Id.user.inj h)

/-! ## The answer of resolution -/

/-- What a resolved program has to do with the program as read. -/
structure IsResolutionOf (r p : Tree) : Prop where
  /-- Every name is replaced by the entity it denotes. -/
  eq_linked : r = p.linked
  /-- Nothing but names is replaced, and by entities called alike. -/
  spelled_eq : r.spelled = p.spelled
  /-- No token is left, and each entity is fit for its place. -/
  isProgram : r.IsProgram Naming.resolved
  /-- Each declaration makes an entity of its own. -/
  nodup_ids : (r.declaredEntities.map Entity.id).Nodup
  /-- What is declared is not of the library. -/
  not_standard : ∀ e ∈ r.declaredEntities, e.isStandard = false

/-- A program that breaks no rule is linked to its resolution. -/
theorem isResolutionOf_linked {p : Tree} (hp : p.IsProgram Naming.raw) (h : p.IsWellScoped) :
    p.linked.IsResolutionOf p := by
  cases p with
  | program statements =>
    obtain ⟨k, -, hids⟩ := ids_linkStatements statements .initial
    refine ⟨rfl, ?_, areStatements_linkStatements statements hp h, ?_, ?_⟩
    · rw [linked, spelled, spelled, spelledAll_linkStatements statements hp]
    · rw [linked, declaredEntities, hids]
      exact nodup_identitiesFrom _ _
    · intro e he
      have hid : e.id ∈ identitiesFrom 0 k := hids ▸ List.mem_map_of_mem he
      obtain ⟨index, -, hindex⟩ := List.mem_map.1 hid
      rw [Entity.isStandard, Entity.builtin?, ← hindex]
      rfl
  | _ => exact hp.elim

/-- Looking at all occurrences succeeds exactly for a program that breaks no rule. -/
theorem check_occurrences_eq_ok_iff {p : Tree} {u : Unit} :
    check p.occurrences = .ok u ↔ p.IsWellScoped := by
  rw [check_eq_ok_iff]
  exact forall₂_congr fun o _ => o.cause?_eq_none_iff

/-- A program resolves to its linked form, and only if it is well-scoped. -/
theorem resolve_eq_ok_iff {p r : Tree} (hp : p.IsProgram Naming.raw) :
    p.resolve = .ok r ↔ p.IsWellScoped ∧ p.linked = r := by
  rw [resolve_eq hp, bind_eq_ok_iff]
  simp [check_occurrences_eq_ok_iff]

/-- Resolution accepts exactly the well-scoped programs, and answers the program with an entity in
place of every name. -/
theorem resolve_succeeds_iff_isWellScoped {p : Tree} (hp : p.IsProgram Naming.raw) :
    ((∃ r, p.resolve = .ok r) ↔ p.IsWellScoped) ∧
      ∀ r, p.resolve = .ok r → r.IsResolutionOf p := by
  have hcheck : check p.occurrences = .ok () ↔ p.IsWellScoped := by
    rw [check_eq_ok_iff]
    exact forall₂_congr fun o _ => o.cause?_eq_none_iff
  rw [resolve_eq hp, ← hcheck]
  cases h : check p.occurrences with
  | error e => simp
  | ok u =>
    refine ⟨by simp, ?_⟩
    intro r hr
    obtain rfl : p.linked = r := Except.ok.inj hr
    exact isResolutionOf_linked hp (hcheck.1 h)

/-- A recursive function whose parameter hides a variable, and a loop whose declaration is used
behind it. -/
def countdown : Tree :=
  let name (x : String) := token ⟨x, none⟩
  program [
    variableDeclaration (name "x") (number .one),
    functionDeclaration (name "f") [name "x"]
      (conditional (name "x") (call (name "f") [name "x"]) (name "π")),
    whileLoop (name "x")
      [variableDeclaration (name "y") (call (name "f") [name "x"]),
        assignment (name "x") (name "y")],
    print (name "y")]

theorem resolve_countdown :
    countdown.IsProgram Naming.raw ∧
      ∃ r, countdown.resolve = .ok r ∧ r.IsResolutionOf countdown := by
  have hraw : countdown.IsProgram Naming.raw := by
    simp [countdown, IsProgram, AreStatements, IsStatement, IsExpression, AreExpressions,
      Naming.raw, IsToken]
  exact ⟨hraw, countdown.linked, rfl, (resolve_succeeds_iff_isWellScoped hraw).2 _ rfl⟩

end Tree
end Quill
