import Quill.Proofs.Grammar.Position
import Quill.Proofs.Scope.Renumbering
import Quill.Proofs.Session.Bindings

/-!
# Scopes that agree on names

Of a scope, resolution sees what the names of the program denote and whether the innermost frame
declares them. Two runs over the same statements keep pace if their scopes agree on these names, up
to the numbers of what they have declared so far: both fail for the same reason, or both go on and
declare the same, each under the number that is due. A function opens a frame on either side, in
which nothing is declared, and what is denoted is still the same.

## Main definitions

* `Tree.namesInAll ts` — the names that occur in trees.
* `Scope.AgreeOn names s u` — two scopes answer alike about some names.
* `EndAlike R x y` — two steps fail for the same reason, or succeed with related answers.
* `matched n m` — what is numbered from `n` on is matched with what is numbered from `m` on.
* `KeepPace names n m d e` — the invariant of two runs over the same statements.
-/

namespace Quill

open Quill.Tree

/-! ## Names -/

namespace Tree

/-- The names that occur in trees. -/
def namesInAll (ts : List Tree) : List String := (tokensOf (leavesOfAll ts)).map Token.value

/-- The names among some leaves are among these. -/
def NamesIn (names : List String) (leaves : List Tree) : Prop :=
  ∀ t, token t ∈ leaves → t.value ∈ names

theorem namesIn_append {names : List String} {ls ms : List Tree} :
    NamesIn names (ls ++ ms) ↔ NamesIn names ls ∧ NamesIn names ms := by
  simp only [NamesIn, List.mem_append, or_imp, forall_and]

theorem namesIn_token {names : List String} {t : Token} (h : NamesIn names (token t).leaves) :
    t.value ∈ names :=
  h t (List.mem_singleton_self _)

theorem namesIn_namesInAll (ts : List Tree) : NamesIn (namesInAll ts) (leavesOfAll ts) :=
  fun t ht => List.mem_map.2 ⟨t, List.mem_filterMap.2 ⟨token t, ht, rfl⟩, rfl⟩

end Tree

/-! ## Agreement -/

variable {names : List String} {s u : Scope}

/-- The names denote the same in both scopes, and are declared in both innermost frames or in none
of them. -/
def Scope.AgreeOn (names : List String) (s u : Scope) : Prop :=
  ∀ name ∈ names, u.lookup? name = s.lookup? name ∧ u.declares name = s.declares name

namespace Scope.AgreeOn

theorem bind (h : s.AgreeOn names u) {name : String} (hs : s.declares name = false)
    (hu : u.declares name = false) (x : Entity) :
    (s.bind name x).AgreeOn names (u.bind name x) := by
  intro other hother
  obtain ⟨hlookup, hdeclares⟩ := h other hother
  rw [lookup?_bind hu, lookup?_bind hs, declares_bind, declares_bind, hlookup, hdeclares]
  exact ⟨rfl, rfl⟩

/-- A new frame declares nothing, and changes no answer about what is denoted. -/
theorem enter (h : s.AgreeOn names u) : s.enter.AgreeOn names u.enter := by
  intro name hname
  rw [lookup?_enter, lookup?_enter]
  exact ⟨(h name hname).1, rfl⟩

theorem denoted_eq (h : s.AgreeOn names u) {t : Token} (ht : t.value ∈ names) :
    u.denoted t = s.denoted t := by
  rw [denoted, denoted, (h t.value ht).1]

theorem requireNew_eq (h : s.AgreeOn names u) {t : Token} (ht : t.value ∈ names) :
    u.requireNew t = s.requireNew t := by
  rw [requireNew, requireNew, (h t.value ht).2]

end Scope.AgreeOn

namespace Tree

/-! ## Expressions -/

theorem resolveCallee_congr (h : s.AgreeOn names u) {callee : Tree}
    (hnames : NamesIn names callee.leaves) : resolveCallee u callee = resolveCallee s callee := by
  refine bind_congr_of_ok fun t ht => ?_
  obtain rfl := asToken_eq_ok_iff.1 ht
  rw [h.denoted_eq (namesIn_token hnames)]

theorem resolveTarget_congr (h : s.AgreeOn names u) {target : Tree}
    (hnames : NamesIn names target.leaves) : resolveTarget u target = resolveTarget s target := by
  refine bind_congr_of_ok fun t ht => ?_
  obtain rfl := asToken_eq_ok_iff.1 ht
  rw [h.denoted_eq (namesIn_token hnames)]

mutual

/-- Scopes that agree on the names of an expression resolve it alike. -/
theorem resolveExpression_congr (h : s.AgreeOn names u) : ∀ t : Tree, NamesIn names t.leaves →
    t.resolveExpression u = t.resolveExpression s
  | token t, hnames => by
    rw [resolveExpression, resolveExpression, h.denoted_eq (namesIn_token hnames)]
  | call callee args, hnames => by
    rw [leaves, namesIn_append] at hnames
    rw [resolveExpression, resolveExpression, resolveCallee_congr h hnames.1,
      resolveExpressions_congr h args hnames.2]
  | conditional test consequent alternate, hnames => by
    rw [leaves, namesIn_append, namesIn_append] at hnames
    rw [resolveExpression, resolveExpression, resolveExpression_congr h test hnames.1.1,
      resolveExpression_congr h consequent hnames.1.2,
      resolveExpression_congr h alternate hnames.2]
  | binary operator left right, hnames => by
    rw [leaves, namesIn_append] at hnames
    rw [resolveExpression, resolveExpression, resolveExpression_congr h left hnames.1,
      resolveExpression_congr h right hnames.2]
  | unary operator operand, hnames => by
    rw [resolveExpression, resolveExpression, resolveExpression_congr h operand hnames]
  | literal _, _ | absent, _ | text _, _ | list _, _ | entity _, _ | program _, _
  | variableDeclaration _ _, _ | functionDeclaration _ _ _, _ | assignment _ _, _
  | whileLoop _ _, _ | print _, _ => rfl

/-- Expressions are resolved alike in scopes that agree on the names in them. -/
theorem resolveExpressions_congr (h : s.AgreeOn names u) : ∀ ts : List Tree,
    NamesIn names (leavesOfAll ts) → resolveExpressions u ts = resolveExpressions s ts
  | [], _ => rfl
  | t :: ts, hnames => by
    rw [leavesOfAll, namesIn_append] at hnames
    rw [resolveExpressions, resolveExpressions, resolveExpression_congr h t hnames.1,
      resolveExpressions_congr h ts hnames.2]

end

end Tree

/-! ## Steps that end alike -/

/-- Two steps fail for the same reason, or succeed with related answers. -/
inductive EndAlike {α β : Type} (R : α → β → Prop) :
    Except ResolveError α → Except ResolveError β → Prop
  | error (reason : ResolveError) : EndAlike R (.error reason) (.error reason)
  | ok {a : α} {b : β} (h : R a b) : EndAlike R (.ok a) (.ok b)

namespace EndAlike

variable {α β γ δ : Type} {R : α → β → Prop} {S : γ → δ → Prop}

theorem bind {x : Except ResolveError α} {y : Except ResolveError β}
    {k : α → Except ResolveError γ} {l : β → Except ResolveError δ} (h : EndAlike R x y)
    (hrest : ∀ a b, R a b → EndAlike S (k a) (l b)) : EndAlike S (x >>= k) (y >>= l) := by
  cases h with
  | error reason => exact .error reason
  | ok h => exact hrest _ _ h

/-- A step ends as itself. -/
theorem refl (x : Except ResolveError α) : EndAlike (fun a b => b = a ∧ x = .ok a) x x := by
  cases x with
  | error reason => exact .error reason
  | ok a => exact .ok ⟨rfl, rfl⟩

theorem map (f : α → β) (x : Except ResolveError α) :
    EndAlike (fun a b => b = f a) x (f <$> x) := by
  cases x with
  | error reason => exact .error reason
  | ok a => exact .ok rfl

theorem of_ok {a : α} {b : β} (h : EndAlike R (.ok a) (.ok b)) : R a b := by
  cases h with
  | ok h => exact h

/-- Answers may be related by all that is known of them. -/
theorem imp_of_ok {R' : α → β → Prop} {x : Except ResolveError α} {y : Except ResolveError β}
    (h : EndAlike R x y) (himp : ∀ a b, x = .ok a → y = .ok b → R a b → R' a b) :
    EndAlike R' x y := by
  cases h with
  | error reason => exact .error reason
  | ok h => exact .ok (himp _ _ rfl rfl h)

end EndAlike

/-! ## Matched numbers -/

/-- What is numbered from `n` on is matched in order with what is numbered from `m` on, and what is
numbered before stays. -/
def matched (n m i : Nat) : Nat := if i < n then i else m + (i - n)

theorem matched_of_lt {n m i : Nat} (h : i < n) : matched n m i = i := if_pos h

theorem matched_add (n m j : Nat) : matched n m (n + j) = m + j := by
  unfold matched
  split <;> omega

/-- Two runs over the same statements have made the same number of entities, the first from `n` on
and the second from `m` on, and their scopes agree on the names, with these entities matched. -/
structure KeepPace (names : List String) (n m : Nat) (d e : Declarations) : Prop where
  agreeOn : (d.scope.renumber (matched n m)).AgreeOn names e.scope
  numbers : ∃ j, d.next = n + j ∧ e.next = m + j

namespace KeepPace

variable {n m : Nat} {d e : Declarations}

theorem matched_next (h : KeepPace names n m d e) : matched n m d.next = e.next := by
  obtain ⟨j, hd, he⟩ := h.numbers
  rw [hd, he, matched_add]

theorem requireNew_eq (h : KeepPace names n m d e) {t : Token} (ht : t.value ∈ names) :
    e.scope.requireNew t = d.scope.requireNew t := by
  rw [h.agreeOn.requireNew_eq ht, Scope.requireNew_renumber]

theorem enter {s u : Scope} {i j : Nat} (h : KeepPace names n m ⟨s, i⟩ ⟨u, j⟩) :
    KeepPace names n m ⟨s.enter, i⟩ ⟨u.enter, j⟩ :=
  ⟨h.agreeOn.enter, h.numbers⟩

/-- Both runs declare a name that is new, each for the entity that is due. -/
theorem bind (h : KeepPace names n m d e) {t : Token} (ht : t.value ∈ names)
    (hnew : d.scope.requireNew t = .ok ()) {x : Nat → Entity}
    (hx : ∀ i, (x i).renumber (matched n m) = x (matched n m i)) :
    KeepPace names n m ⟨d.scope.bind t.value (x d.next), d.next + 1⟩
      ⟨e.scope.bind t.value (x e.next), e.next + 1⟩ := by
  have hdeclares := Scope.requireNew_eq_ok_iff.1 hnew
  refine ⟨?_, ?_⟩
  · rw [Scope.renumber_bind, hx, h.matched_next]
    refine h.agreeOn.bind ?_ ?_ _
    · rw [Scope.declares_renumber, hdeclares]
    · rw [(h.agreeOn t.value ht).2, Scope.declares_renumber, hdeclares]
  · obtain ⟨j, hd, he⟩ := h.numbers
    exact ⟨j + 1, by rw [hd, Nat.add_assoc], by rw [he, Nat.add_assoc]⟩

end KeepPace

namespace Tree

variable {n m : Nat}

/-! ## Statements -/

/-- Runs that keep pace resolve an expression alike. -/
theorem resolveExpression_endAlike {d e : Declarations} (h : KeepPace names n m d e) {t : Tree}
    (hnames : NamesIn names t.leaves) :
    EndAlike (fun r r' => r' = r.renumber (matched n m)) (t.resolveExpression d.scope)
      (t.resolveExpression e.scope) := by
  rw [resolveExpression_congr h.agreeOn t hnames, resolveExpression_renumber]
  exact .map _ _

theorem resolveTarget_endAlike {d e : Declarations} (h : KeepPace names n m d e) {target : Tree}
    (hnames : NamesIn names target.leaves) :
    EndAlike (fun x y => y = x.renumber (matched n m)) (target.resolveTarget d.scope)
      (target.resolveTarget e.scope) := by
  rw [resolveTarget_congr h.agreeOn hnames, resolveTarget_renumber]
  exact .map _ _

/-- Runs that keep pace declare parameters alike, and keep pace behind them. -/
theorem declareParameters_endAlike {params : List Tree} {d e : Declarations}
    (h : KeepPace names n m d e) (hnames : NamesIn names (leavesOfAll params)) :
    EndAlike (fun x y => y.1 = renumberAll (matched n m) x.1 ∧ KeepPace names n m x.2 y.2)
      (declareParameters params d) (declareParameters params e) := by
  induction params generalizing d e with
  | nil => exact .ok ⟨rfl, h⟩
  | cons p ps ih =>
    rw [leavesOfAll, namesIn_append] at hnames
    refine .bind (.refl p.asToken) ?_
    rintro _ t ⟨rfl, hp⟩
    obtain rfl := asToken_eq_ok_iff.1 hp
    have ht := namesIn_token hnames.1
    rw [h.requireNew_eq ht]
    refine .bind (.refl (d.scope.requireNew t)) ?_
    rintro _ _ ⟨-, hnew⟩
    have hbind := h.bind ht hnew (x := fun i => .parameter i t.value) fun i => rfl
    refine .bind (ih hbind hnames.2) ?_
    rintro ⟨ps', d'⟩ ⟨_, e'⟩ ⟨rfl, h'⟩
    refine .ok ⟨?_, h'⟩
    rw [renumberAll, ← h.matched_next]
    rfl

/-- Runs that keep pace declare a function alike, and keep pace in its body and behind it. -/
theorem resolveHead_endAlike {name : Tree} {params : List Tree} {d e : Declarations}
    (h : KeepPace names n m d e) (hname : NamesIn names name.leaves)
    (hparams : NamesIn names (leavesOfAll params)) :
    EndAlike (fun x y => y.entity = x.entity.renumber (matched n m) ∧
        y.params = renumberAll (matched n m) x.params ∧
        KeepPace names n m ⟨x.scope, x.inner.next⟩ ⟨y.scope, y.inner.next⟩ ∧
        KeepPace names n m x.inner y.inner)
      (resolveHead name params d) (resolveHead name params e) := by
  refine .bind (.refl name.asToken) ?_
  rintro _ t ⟨rfl, hp⟩
  obtain rfl := asToken_eq_ok_iff.1 hp
  have ht := namesIn_token hname
  rw [h.requireNew_eq ht]
  refine .bind (.refl (d.scope.requireNew t)) ?_
  rintro _ _ ⟨-, hnew⟩
  have hbind := h.bind ht hnew (x := fun i => .declaredFunction i t.value params.length)
    fun i => rfl
  refine .bind (declareParameters_endAlike hbind.enter hparams) ?_
  rintro ⟨ps', d'⟩ ⟨_, e'⟩ ⟨rfl, h'⟩
  refine .ok ⟨?_, rfl, ⟨hbind.agreeOn, h'.numbers⟩, h'⟩
  rw [← h.matched_next]
  rfl

mutual

/-- Runs that keep pace resolve a statement alike, and keep pace behind it. -/
theorem resolveStatement_endAlike : ∀ (t : Tree) {d e : Declarations}, KeepPace names n m d e →
    NamesIn names t.leaves →
    EndAlike (fun x y => y.1 = x.1.renumber (matched n m) ∧ KeepPace names n m x.2 y.2)
      (t.resolveStatement d) (t.resolveStatement e)
  | variableDeclaration name initializer, d, e, h, hnames => by
    rw [leaves, namesIn_append] at hnames
    rw [resolveStatement, resolveStatement]
    refine .bind (resolveExpression_endAlike h hnames.2) ?_
    rintro r _ rfl
    refine .bind (.refl name.asToken) ?_
    rintro _ t ⟨rfl, hp⟩
    obtain rfl := asToken_eq_ok_iff.1 hp
    have ht := namesIn_token hnames.1
    rw [h.requireNew_eq ht]
    refine .bind (.refl (d.scope.requireNew t)) ?_
    rintro _ _ ⟨-, hnew⟩
    refine .ok ⟨?_, h.bind ht hnew (x := fun i => .declaredVariable i t.value) fun i => rfl⟩
    rw [← h.matched_next]
    rfl
  | functionDeclaration name params body, d, e, h, hnames => by
    rw [leaves, namesIn_append, namesIn_append] at hnames
    rw [resolveStatement, resolveStatement]
    refine .bind (resolveHead_endAlike h hnames.1.1 hnames.1.2) ?_
    rintro head ⟨_, _, u, inner⟩ ⟨rfl, rfl, hbehind, hinside⟩
    refine .bind (resolveExpression_endAlike hinside hnames.2) ?_
    rintro r _ rfl
    exact .ok ⟨rfl, hbehind⟩
  | assignment target source, d, e, h, hnames => by
    rw [leaves, namesIn_append] at hnames
    rw [resolveStatement, resolveStatement]
    refine .bind (resolveTarget_endAlike h hnames.1) ?_
    rintro x _ rfl
    refine .bind (resolveExpression_endAlike h hnames.2) ?_
    rintro r _ rfl
    exact .ok ⟨rfl, h⟩
  | whileLoop test body, d, e, h, hnames => by
    rw [leaves, namesIn_append] at hnames
    rw [resolveStatement, resolveStatement]
    refine .bind (resolveExpression_endAlike h hnames.1) ?_
    rintro r _ rfl
    refine .bind (resolveStatements_endAlike body h hnames.2) ?_
    rintro ⟨rs, d'⟩ ⟨_, e'⟩ ⟨rfl, h'⟩
    exact .ok ⟨rfl, h'⟩
  | print argument, d, e, h, hnames => by
    rw [resolveStatement, resolveStatement]
    refine .bind (resolveExpression_endAlike h hnames) ?_
    rintro r _ rfl
    exact .ok ⟨rfl, h⟩
  | absent, _, _, _, _ | literal _, _, _, _, _ | text _, _, _, _, _ | list _, _, _, _, _
  | token _, _, _, _, _ | entity _, _, _, _, _ | program _, _, _, _, _ | call _ _, _, _, _, _
  | conditional _ _ _, _, _, _, _ | binary _ _ _, _, _, _, _ | unary _ _, _, _, _, _ => .error _

/-- Two runs that have gone alike go on alike over the same statements. -/
theorem resolveStatements_endAlike : ∀ (ts : List Tree) {d e : Declarations},
    KeepPace names n m d e → NamesIn names (leavesOfAll ts) →
    EndAlike (fun x y => y.1 = renumberAll (matched n m) x.1 ∧ KeepPace names n m x.2 y.2)
      (resolveStatements ts d) (resolveStatements ts e)
  | [], _, _, h, _ => .ok ⟨rfl, h⟩
  | t :: ts, d, e, h, hnames => by
    rw [leavesOfAll, namesIn_append] at hnames
    rw [resolveStatements, resolveStatements]
    refine .bind (resolveStatement_endAlike t h hnames.1) ?_
    rintro ⟨r, d₁⟩ ⟨_, e₁⟩ ⟨rfl, h₁⟩
    refine .bind (resolveStatements_endAlike ts h₁ hnames.2) ?_
    rintro ⟨rs, d₂⟩ ⟨_, e₂⟩ ⟨rfl, h₂⟩
    exact .ok ⟨rfl, h₂⟩

end

end Tree
end Quill
