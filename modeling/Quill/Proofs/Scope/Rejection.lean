import Quill.Proofs.Scope.Linked

/-!
# Resolution rejects at the first violation

A program that is not well-scoped is rejected for the first name of the walk that breaks a rule, and
nothing behind that name matters. The rules come one constructor each, with the cause that is
reported. None of them has an assignment report a function: in every scope that resolution comes to,
what may be assigned is a variable.

## Main definitions

* `Occurrence.Breaks` — the rules, each with the cause of breaking it.
* `Occurrence.CalleesLead` — a called name is looked at before the number of its arguments.
* `Declarations.IsReachable` — the declarations that resolution comes to.
* `Scope.WritableAreVariables` — what may be assigned is a variable.
-/

namespace Quill

/-! ## The rules -/

theorem Surroundings.isTaken_iff {s : Surroundings} {name : String} :
    s.isTaken name = true ↔
      (∃ b : Builtin, name = b.name) ∨ ∃ d ∈ s.declared, name = d.name := by
  rw [← Bool.not_eq_false, Surroundings.isTaken_eq_false_iff]
  simp only [Classical.not_and_iff_not_or_not, Classical.not_forall, Classical.not_not, exists_prop,
    ne_eq]

namespace Occurrence

/-- The name breaks the rule of its role. -/
inductive Breaks (o : Occurrence) : Violation.Cause → Prop
  /-- `let` and `function` declare neither a name of the library nor one declared before. -/
  | taken (role : o.role = .declaration)
      (taken : (∃ b : Builtin, o.token.value = b.name) ∨
        ∃ d ∈ o.surroundings.declared, o.token.value = d.name) :
      o.Breaks (.alreadyDeclared o.token.value)
  /-- The parameters of a function differ. -/
  | repeated {earlier : List String} (role : o.role = .parameter earlier)
      (repeated : o.token.value ∈ earlier) : o.Breaks (.alreadyDeclared o.token.value)
  /-- A name that is used, called or assigned denotes something. -/
  | undeclared (role : o.role = .value ∨ o.role = .callee ∨ o.role = .target)
      (denotes : o.denotes? = none) : o.Breaks (.notDeclared o.token.value)
  /-- A value is no function. -/
  | functionAsValue {d : Origin} (role : o.role = .value) (denotes : o.denotes? = some d)
      (isFunction : d.entity.isVariable = false) : o.Breaks .functionAsValue
  /-- What is called is no variable. -/
  | notAFunction {d : Origin} (role : o.role = .callee) (denotes : o.denotes? = some d)
      (isVariable : d.entity.isVariable = true) : o.Breaks (.notAFunction d.name)
  /-- What is assigned is not read only. -/
  | readOnly {d : Origin} (role : o.role = .target) (denotes : o.denotes? = some d)
      (readOnly : d.entity.readOnly = true) : o.Breaks (.readOnly d.name)
  /-- A call passes as many arguments as the function has parameters. -/
  | arity {d : Origin} {args : Nat} {required : Int} (role : o.role = .arity args)
      (denotes : o.denotes? = some d) (paramCount : d.entity.paramCount? = some required)
      (ne : (args : Int) ≠ required) : o.Breaks (.arity required args)

/-- A broken rule is the cause that is found. -/
theorem Breaks.cause?_eq {o : Occurrence} {cause : Violation.Cause} (h : o.Breaks cause) :
    o.cause? = some cause := by
  cases h with
  | taken role taken => simp [cause?, role, Surroundings.isTaken_iff.2 taken]
  | repeated role repeated => simp [cause?, role, repeated]
  | undeclared role denotes => rcases role with role | role | role <;> simp [cause?, role, denotes]
  | functionAsValue role denotes isFunction => simp [cause?, role, denotes, isFunction]
  | notAFunction role denotes isVariable => simp [cause?, role, denotes, isVariable]
  | @readOnly d role denotes readOnly =>
    cases d with
    | declaredVariable index name => cases readOnly
    | library b => simp [cause?, role, denotes]
    | declaredFunction index name n => simp [cause?, role, denotes]
    | parameter index name => simp [cause?, role, denotes]
  | arity role denotes paramCount ne => simp [cause?, role, denotes, paramCount, ne]

/-- What is found is a broken rule, provided that the number of arguments is looked at only where a
function is called. -/
theorem breaks_of_cause? {o : Occurrence} {cause : Violation.Cause} (h : o.cause? = some cause)
    (hcallee : ∀ args, o.role = .arity args →
      ∃ d, o.denotes? = some d ∧ d.entity.isVariable = false) : o.Breaks cause := by
  cases hrole : o.role with
  | declaration =>
    simp only [cause?, hrole, Option.ite_none_right_eq_some, Option.some.injEq] at h
    obtain ⟨htaken, rfl⟩ := h
    exact .taken hrole (Surroundings.isTaken_iff.1 htaken)
  | parameter earlier =>
    simp only [cause?, hrole, Option.ite_none_right_eq_some, Option.some.injEq] at h
    obtain ⟨hmem, rfl⟩ := h
    exact .repeated hrole hmem
  | arity args =>
    obtain ⟨d, hd, hv⟩ := hcallee args hrole
    obtain ⟨required, hp⟩ : ∃ required, d.entity.paramCount? = some required := by
      rwa [d.entity.isVariable_eq, Option.isNone_eq_false_iff, Option.isSome_iff_exists] at hv
    simp only [cause?, hrole, hd, hp, Option.ite_none_left_eq_some, Option.some.injEq] at h
    obtain ⟨hne, rfl⟩ := h
    exact .arity hrole hd hp hne
  | value =>
    cases hd : o.denotes? with
    | none =>
      obtain rfl : .notDeclared o.token.value = cause := by simpa [cause?, hrole, hd] using h
      exact .undeclared (.inl hrole) hd
    | some d =>
      simp only [cause?, hrole, hd, Option.ite_none_left_eq_some, Option.some.injEq,
        Bool.not_eq_true] at h
      obtain ⟨hfunction, rfl⟩ := h
      exact .functionAsValue hrole hd hfunction
  | callee =>
    cases hd : o.denotes? with
    | none =>
      obtain rfl : .notDeclared o.token.value = cause := by simpa [cause?, hrole, hd] using h
      exact .undeclared (.inr (.inl hrole)) hd
    | some d =>
      simp only [cause?, hrole, hd, Option.ite_none_right_eq_some, Option.some.injEq] at h
      obtain ⟨hvariable, rfl⟩ := h
      exact .notAFunction hrole hd hvariable
  | target =>
    cases hd : o.denotes? with
    | none =>
      obtain rfl : .notDeclared o.token.value = cause := by simpa [cause?, hrole, hd] using h
      exact .undeclared (.inr (.inr hrole)) hd
    | some d =>
      -- All origins but the variables that a `let` declares are read only.
      have hreadOnly : d.entity.readOnly = true ∧ .readOnly d.name = cause := by
        cases d <;> simp_all [cause?] <;> rfl
      obtain ⟨hreadOnly, rfl⟩ := hreadOnly
      exact .readOnly hrole hd hreadOnly

/-! ## Calls in the walk -/

/-- Before the number of arguments the called name itself is looked at. -/
def CalleesLead (os : List Occurrence) : Prop :=
  ∀ before o rest args, os = before ++ o :: rest → o.role = .arity args →
    ⟨.callee, o.token, o.surroundings⟩ ∈ before

theorem calleesLead_of_noArity {os : List Occurrence} (h : ∀ o ∈ os, ∀ args, o.role ≠ .arity args) :
    CalleesLead os := by
  rintro before o rest args rfl hrole
  exact (h o (by simp) args hrole).elim

theorem CalleesLead.append {os ps : List Occurrence} (hos : CalleesLead os) (hps : CalleesLead ps) :
    CalleesLead (os ++ ps) := by
  intro before o rest args h hrole
  rcases List.append_eq_append_iff.1 h with ⟨as, rfl, has⟩ | ⟨cs, rfl, hcs⟩
  · exact List.mem_append_right _ (hps as o rest args has hrole)
  · cases cs with
    | nil => exact absurd (hps [] o rest args hcs.symm hrole) List.not_mem_nil
    | cons c cs =>
      obtain ⟨rfl, -⟩ := List.cons.inj hcs
      exact hos before o cs args rfl hrole

end Occurrence

open Occurrence

namespace Tree

theorem calleesLead_asName {role : Role} (hrole : ∀ args, role ≠ .arity args) (s : Surroundings)
    (t : Tree) : CalleesLead (t.asName role s) := by
  refine calleesLead_of_noArity fun o ho => ?_
  cases t with
  | token t =>
    obtain rfl := List.mem_singleton.1 ho
    exact hrole
  | _ => cases ho

/-- In a call the name is looked at before the number of its arguments. -/
theorem calleesLead_call {os : List Occurrence} (hos : CalleesLead os) (n : Nat) (s : Surroundings)
    (callee : Tree) :
    CalleesLead (callee.asName .callee s ++ (os ++ callee.asName (.arity n) s)) := by
  cases callee with
  | token t =>
    intro before o rest args h hrole
    -- Only the last occurrence can be outside of the name and the arguments.
    rw [← List.append_assoc] at h
    have hname : CalleesLead ((token t).asName .callee s) := calleesLead_asName (by simp) s _
    have hleads := hname.append hos
    rcases List.append_eq_append_iff.1 h with ⟨as, rfl, has⟩ | ⟨cs, hbefore, hcs⟩
    · cases as with
      | nil =>
        obtain ⟨rfl, -⟩ := List.cons.inj has
        simp [asName]
      | cons a as => simp [asName] at has
    · cases cs with
      | nil =>
        obtain ⟨rfl, -⟩ := List.cons.inj hcs
        rw [List.append_nil] at hbefore
        simp [← hbefore, asName]
      | cons c cs =>
        obtain ⟨rfl, -⟩ := List.cons.inj hcs
        exact hleads before o cs args hbefore hrole
  | _ => simpa [asName] using hos

mutual

theorem calleesLead_uses (s : Surroundings) : ∀ t : Tree, CalleesLead (t.uses s)
  | token t => calleesLead_asName (by simp) s (token t)
  | call callee args => calleesLead_call (calleesLead_usesInAll s args) args.length s callee
  | conditional test consequent alternate =>
    (calleesLead_uses s test).append
      ((calleesLead_uses s consequent).append (calleesLead_uses s alternate))
  | binary _ left right => (calleesLead_uses s left).append (calleesLead_uses s right)
  | unary _ operand => calleesLead_uses s operand
  | absent | literal _ | text _ | list _ | entity _ | program _ | variableDeclaration _ _
  | functionDeclaration _ _ _ | assignment _ _ | whileLoop _ _ | print _ =>
    calleesLead_of_noArity (by simp [uses])

theorem calleesLead_usesInAll (s : Surroundings) : ∀ ts : List Tree, CalleesLead (usesInAll s ts)
  | [] => calleesLead_of_noArity (by simp [usesInAll])
  | t :: ts => (calleesLead_uses s t).append (calleesLead_usesInAll s ts)

end

theorem calleesLead_parameterOccurrences (s : Surroundings) (earlier : List String)
    (ps : List Tree) : CalleesLead (parameterOccurrences s earlier ps) := by
  induction ps generalizing earlier with
  | nil => exact calleesLead_of_noArity (by simp [parameterOccurrences])
  | cons p ps ih => exact (calleesLead_asName (by simp) s p).append (ih _)

mutual

theorem calleesLead_mentions : ∀ (t : Tree) (s : Surroundings), CalleesLead (t.mentions s)
  | variableDeclaration name initializer, s =>
    (calleesLead_uses s initializer).append (calleesLead_asName (by simp) s name)
  | functionDeclaration name params body, s =>
    (calleesLead_asName (by simp) s name).append
      ((calleesLead_parameterOccurrences s [] params).append (calleesLead_uses _ body))
  | assignment target source, s =>
    (calleesLead_asName (by simp) s target).append (calleesLead_uses s source)
  | whileLoop test body, s =>
    (calleesLead_uses s test).append (calleesLead_mentionsInAll body s)
  | print argument, s => calleesLead_uses s argument
  | absent, _ | literal _, _ | text _, _ | list _, _ | token _, _ | entity _, _ | program _, _
  | call _ _, _ | conditional _ _ _, _ | binary _ _ _, _ | unary _ _, _ =>
    calleesLead_of_noArity (by simp [mentions])

theorem calleesLead_mentionsInAll : ∀ (ts : List Tree) (s : Surroundings),
    CalleesLead (mentionsInAll ts s)
  | [], _ => calleesLead_of_noArity (by simp [mentionsInAll])
  | t :: ts, s => (calleesLead_mentions t s).append (calleesLead_mentionsInAll ts (t.after s))

end

/-- In every program callees are looked at before their numbers of arguments. -/
theorem calleesLead_occurrences (p : Tree) : CalleesLead p.occurrences := by
  cases p with
  | program statements => exact calleesLead_mentionsInAll statements .initial
  | _ => exact calleesLead_of_noArity (by simp [occurrences])

end Tree

/-! ## The first violation -/

namespace Occurrence

/-- Behind names that are allowed, the first one that breaks a rule is reported, whatever
follows. -/
theorem check_of_breaks {before rest : List Occurrence} {o : Occurrence} {cause : Violation.Cause}
    (hbefore : ∀ b ∈ before, b.IsAllowed) (ho : o.Breaks cause) :
    check (before ++ o :: rest) = .error (o.token.reject cause) := by
  have hnone : check before = .ok () :=
    check_eq_ok_iff.2 fun b hb => b.cause?_eq_none_iff.2 (hbefore b hb)
  have hsplit : before ++ o :: rest = before ++ ([o] ++ rest) := rfl
  rw [hsplit, check_append, check_append, hnone, ok_bind, check_singleton, ho.cause?_eq]
  rfl

/-- Unless all names are allowed, there is a first one that breaks a rule. -/
theorem exists_breaks {os : List Occurrence} (hos : CalleesLead os) (h : ¬ ∀ o ∈ os, o.IsAllowed) :
    ∃ before o rest cause, os = before ++ o :: rest ∧ (∀ b ∈ before, b.IsAllowed) ∧
      o.Breaks cause := by
  cases hv : os.findSome? violation? with
  | none =>
    have hnone : ∀ o ∈ os, o.cause? = none := by simpa [violation?] using hv
    exact (h fun o ho => o.cause?_eq_none_iff.1 (hnone o ho)).elim
  | some v =>
    obtain ⟨before, o, rest, rfl, ho, hbefore⟩ := List.findSome?_eq_some_iff.1 hv
    have hallowed : ∀ b ∈ before, b.IsAllowed := by
      intro b hb
      rw [← cause?_eq_none_iff]
      simpa [violation?] using hbefore b hb
    obtain ⟨cause, hcause, -⟩ := Option.map_eq_some_iff.1 ho
    refine ⟨before, o, rest, cause, rfl, hallowed, breaks_of_cause? hcause fun args hrole => ?_⟩
    exact hallowed _ (hos before o rest args rfl hrole)

/-- An assignment never reports a function. -/
theorem Breaks.kind_of_target {o : Occurrence} {cause : Violation.Cause} (h : o.Breaks cause)
    (hrole : o.role = .target) : cause.kind = .notDeclared ∨ cause.kind = .readOnlyViolation := by
  cases h with
  | undeclared => exact .inl rfl
  | readOnly => exact .inr rfl
  | taken role | repeated role | functionAsValue role | notAFunction role | arity role =>
    rw [hrole] at role
    cases role

end Occurrence

/-! ## The scopes that resolution comes to -/

/-- The declarations that resolution comes to: behind statements, and in the bodies of functions. -/
inductive Declarations.IsReachable : Declarations → Prop
  | initial : IsReachable .initial
  | behind {d after : Declarations} {t r : Tree} (hd : d.IsReachable)
    (h : t.resolveStatement d = .ok (r, after)) : after.IsReachable
  | inside {d : Declarations} {name : Tree} {params : List Tree} {head : Tree.FunctionHead}
    (hd : d.IsReachable) (h : Tree.resolveHead name params d = .ok head) : head.inner.IsReachable

namespace Scope

/-- Whatever is bound and may be assigned is a variable. -/
def WritableAreVariables (s : Scope) : Prop :=
  ∀ frame ∈ s.frames, ∀ b ∈ frame, b.2.readOnly = false → b.2.isVariable = true

theorem writableAreVariables_root : root.WritableAreVariables := by
  intro frame hframe b hb
  obtain rfl := List.mem_singleton.1 hframe
  obtain ⟨builtin, -, rfl⟩ := List.mem_map.1 hb
  rintro ⟨⟩

variable {s : Scope}

theorem WritableAreVariables.enter (h : s.WritableAreVariables) : s.enter.WritableAreVariables := by
  intro frame hframe b hb
  rcases List.mem_cons.1 hframe with rfl | hframe
  · cases hb
  · exact h frame hframe b hb

/-- A declaration keeps this, if what it declares is a variable or read only. -/
theorem WritableAreVariables.bind (h : s.WritableAreVariables) (name : String) {e : Entity}
    (he : e.readOnly = false → e.isVariable = true) : (s.bind name e).WritableAreVariables := by
  intro frame hframe b hb
  rw [frames_bind] at hframe
  rcases List.mem_cons.1 hframe with rfl | hframe
  · rcases List.mem_append.1 hb with hb | hb
    · exact h s.frame List.mem_cons_self b hb
    · obtain rfl := List.mem_singleton.1 hb
      exact he
  · exact h frame (List.mem_cons_of_mem _ hframe) b hb

/-- What is read only may be bound, whatever its kind. -/
theorem WritableAreVariables.bind_of_readOnly (h : s.WritableAreVariables) (name : String)
    {e : Entity} (he : e.readOnly = true) : (s.bind name e).WritableAreVariables := by
  refine h.bind name fun hwritable => ?_
  rw [he] at hwritable
  cases hwritable

theorem WritableAreVariables.lookup? (h : s.WritableAreVariables) {name : String} {e : Entity}
    (he : s.lookup? name = some e) (hwritable : e.readOnly = false) : e.isVariable = true := by
  obtain ⟨frame, hframe, hmem⟩ := exists_mem_of_lookup? he
  exact h frame hframe (name, e) hmem hwritable

end Scope

namespace Tree

theorem writableAreVariables_declareParameters {params : List Tree} {d : Declarations}
    {result : List Tree × Declarations} (h : declareParameters params d = .ok result)
    (hd : d.scope.WritableAreVariables) : result.2.scope.WritableAreVariables := by
  induction params generalizing d result with
  | nil =>
    obtain rfl := Except.ok.inj h
    exact hd
  | cons p ps ih =>
    simp only [declareParameters, bind_eq_ok_iff] at h
    obtain ⟨t, -, -, -, rest, hrest, hresult⟩ := h
    obtain rfl := Except.ok.inj hresult
    have hinner := ih hrest
    exact hinner (hd.bind_of_readOnly t.value rfl)

theorem writableAreVariables_resolveHead {name : Tree} {params : List Tree} {d : Declarations}
    {head : FunctionHead} (h : resolveHead name params d = .ok head)
    (hd : d.scope.WritableAreVariables) :
    head.scope.WritableAreVariables ∧ head.inner.scope.WritableAreVariables := by
  simp only [resolveHead, bind_eq_ok_iff] at h
  obtain ⟨t, -, -, -, inner, hinner, hhead⟩ := h
  obtain rfl := Except.ok.inj hhead
  have hscope :=
    hd.bind_of_readOnly t.value (e := .declaredFunction d.next t.value params.length) rfl
  exact ⟨hscope, writableAreVariables_declareParameters hinner hscope.enter⟩

mutual

/-- A statement binds only variables that may be assigned, and functions that may not. -/
theorem writableAreVariables_resolveStatement : ∀ (t : Tree) {d : Declarations} {r : Tree}
    {after : Declarations}, resolveStatement t d = .ok (r, after) →
      d.scope.WritableAreVariables → after.scope.WritableAreVariables
  | variableDeclaration name initializer, d, r, after, h, hd => by
    simp only [resolveStatement, bind_eq_ok_iff] at h
    obtain ⟨resolved, -, t, -, -, -, hresult⟩ := h
    obtain ⟨rfl, rfl⟩ := Prod.mk.inj (Except.ok.inj hresult)
    exact hd.bind t.value fun _ => rfl
  | functionDeclaration name params body, d, r, after, h, hd => by
    simp only [resolveStatement, bind_eq_ok_iff] at h
    obtain ⟨head, hhead, resolved, -, hresult⟩ := h
    obtain ⟨rfl, rfl⟩ := Prod.mk.inj (Except.ok.inj hresult)
    exact (writableAreVariables_resolveHead hhead hd).1
  | assignment target source, d, r, after, h, hd => by
    simp only [resolveStatement, bind_eq_ok_iff] at h
    obtain ⟨e, -, resolved, -, hresult⟩ := h
    obtain ⟨rfl, rfl⟩ := Prod.mk.inj (Except.ok.inj hresult)
    exact hd
  | whileLoop test body, d, r, after, h, hd => by
    simp only [resolveStatement, bind_eq_ok_iff] at h
    obtain ⟨resolved, -, ⟨statements, behind⟩, hbody, hresult⟩ := h
    obtain ⟨rfl, rfl⟩ := Prod.mk.inj (Except.ok.inj hresult)
    exact writableAreVariables_resolveStatements body hbody hd
  | print argument, d, r, after, h, hd => by
    simp only [resolveStatement, bind_eq_ok_iff] at h
    obtain ⟨resolved, -, hresult⟩ := h
    obtain ⟨rfl, rfl⟩ := Prod.mk.inj (Except.ok.inj hresult)
    exact hd
  | absent, _, _, _, h, _ | literal _, _, _, _, h, _ | text _, _, _, _, h, _
  | list _, _, _, _, h, _ | token _, _, _, _, h, _ | entity _, _, _, _, h, _
  | program _, _, _, _, h, _ | call _ _, _, _, _, h, _ | conditional _ _ _, _, _, _, h, _
  | binary _ _ _, _, _, _, h, _ | unary _ _, _, _, _, h, _ => nomatch h

/-- Statements keep it that all that can be assigned is a variable. -/
theorem writableAreVariables_resolveStatements : ∀ (ts : List Tree) {d : Declarations}
    {rs : List Tree} {after : Declarations}, resolveStatements ts d = .ok (rs, after) →
      d.scope.WritableAreVariables → after.scope.WritableAreVariables
  | [], d, rs, after, h, hd => by
    obtain ⟨rfl, rfl⟩ := Prod.mk.inj (Except.ok.inj h)
    exact hd
  | t :: ts, d, rs, after, h, hd => by
    simp only [resolveStatements, bind_eq_ok_iff] at h
    obtain ⟨⟨r, between⟩, ht, ⟨rest, behind⟩, hts, hresult⟩ := h
    obtain ⟨rfl, rfl⟩ := Prod.mk.inj (Except.ok.inj hresult)
    exact writableAreVariables_resolveStatements ts hts
      (writableAreVariables_resolveStatement t ht hd)

end

end Tree

namespace Declarations

/-- Behind any programs, all that can be assigned is a variable. -/
theorem IsReachable.writableAreVariables {d : Declarations} (h : d.IsReachable) :
    d.scope.WritableAreVariables := by
  induction h with
  | initial => exact Scope.writableAreVariables_root
  | @behind d after t r hd ht ih => exact Tree.writableAreVariables_resolveStatement t ht ih
  | inside hd hhead ih => exact (Tree.writableAreVariables_resolveHead hhead ih).2

/-- Where resolution comes to, a target is never rejected for being a function. -/
theorem IsReachable.resolveTarget_ne {d : Declarations} (h : d.IsReachable) (target : Tree)
    (v : Violation) (hv : v.cause.kind = .wrongEntityKind) :
    Tree.resolveTarget d.scope target ≠ .error (.violation v) := by
  intro htarget
  cases target with
  | token t =>
    simp only [Tree.resolveTarget, Tree.asToken, ok_bind, Scope.denoted] at htarget
    cases he : d.scope.lookup? t.value with
    | none =>
      rw [he] at htarget
      cases htarget
      cases hv
    | some e =>
      cases hr : e.readOnly with
      | true =>
        simp only [he, ok_bind, Entity.requireWritable, hr, if_true, error_bind] at htarget
        cases htarget
        cases hv
      | false =>
        have hvariable := h.writableAreVariables.lookup? he hr
        simp only [he, ok_bind, Entity.requireWritable, hr, Bool.false_eq_true, if_false,
          Entity.requireVariable, hvariable, if_true] at htarget
        cases htarget
  | _ => cases htarget

end Declarations

namespace Tree

/-- A program that is not well-scoped is rejected for the first name of the walk that breaks a rule,
at the place of this name. Every program whose walk begins so is rejected for the same. An
assignment is never rejected for a function: in all scopes that resolution comes to, what may be
assigned is a variable. -/
theorem resolve_reports_first_violation {p : Tree} (hp : p.IsProgram Naming.raw)
    (h : ¬ p.IsWellScoped) :
    (∃ before o rest cause, p.occurrences = before ++ o :: rest ∧ (∀ b ∈ before, b.IsAllowed) ∧
      o.Breaks cause ∧ p.resolve = .error (.violation ⟨cause, o.token.span⟩) ∧
      (∀ q : Tree, q.IsProgram Naming.raw → before ++ [o] <+: q.occurrences →
        q.resolve = .error (.violation ⟨cause, o.token.span⟩)) ∧
      (o.role = .target → cause.kind ≠ .wrongEntityKind)) ∧
    ∀ d : Declarations, d.IsReachable →
      (∀ name e, d.scope.lookup? name = some e → e.readOnly = false → e.isVariable = true) ∧
      ∀ target v, v.cause.kind = .wrongEntityKind →
        resolveTarget d.scope target ≠ .error (.violation v) := by
  refine ⟨?_, fun d hd => ⟨?_, hd.resolveTarget_ne⟩⟩
  · obtain ⟨before, o, rest, cause, hos, hbefore, ho⟩ :=
      exists_breaks (calleesLead_occurrences p) h
    have hrejects : ∀ q : Tree, q.IsProgram Naming.raw → before ++ [o] <+: q.occurrences →
        q.resolve = .error (.violation ⟨cause, o.token.span⟩) := by
      rintro q hq ⟨rest, hrest⟩
      rw [resolve_eq hq, ← hrest, List.append_assoc, List.singleton_append,
        check_of_breaks hbefore ho]
      rfl
    refine ⟨before, o, rest, cause, hos, hbefore, ho, hrejects p hp ?_, hrejects, ?_⟩
    · rw [hos]
      exact ⟨rest, by simp⟩
    · intro hrole hkind
      rcases ho.kind_of_target hrole with hk | hk <;> rw [hk] at hkind <;> cases hkind
  · intro name e he hwritable
    exact hd.writableAreVariables.lookup? he hwritable

/-- A function whose parameters have one name, called with too few arguments, and with a name in its
body that nothing declares: the second parameter comes first. -/
def ambiguousParameter : Tree :=
  let name (x : String) (column : Nat) := token ⟨x, some ⟨"f.ql", 1, column, 1, column + 1, x⟩⟩
  program [
    functionDeclaration (name "f" 10) [name "a" 12, name "a" 15] (name "b" 20),
    print (call (name "f" 29) [])]

theorem resolve_ambiguousParameter :
    ambiguousParameter.IsProgram Naming.raw ∧ ¬ ambiguousParameter.IsWellScoped ∧
      ambiguousParameter.resolve =
        .error (.violation ⟨.alreadyDeclared "a", some ⟨"f.ql", 1, 15, 1, 16, "a"⟩⟩) ∧
      ∃ before o rest cause, ambiguousParameter.occurrences = before ++ o :: rest ∧
        (∀ b ∈ before, b.IsAllowed) ∧ o.Breaks cause ∧
        ambiguousParameter.resolve = .error (.violation ⟨cause, o.token.span⟩) := by
  have hraw : ambiguousParameter.IsProgram Naming.raw := by
    simp [ambiguousParameter, IsProgram, AreStatements, IsStatement, IsExpression, AreExpressions,
      Naming.raw, IsToken]
  have hnot : ¬ ambiguousParameter.IsWellScoped := by
    intro h
    have hok : check ambiguousParameter.occurrences = .ok () := check_occurrences_eq_ok_iff.2 h
    cases hok
  obtain ⟨⟨before, o, rest, cause, hos, hbefore, ho, hresolve, -⟩, -⟩ :=
    resolve_reports_first_violation hraw hnot
  exact ⟨hraw, hnot, rfl, before, o, rest, cause, hos, hbefore, ho, hresolve⟩

end Tree

end Quill
