import Quill.Proofs.Scope.Resolution
import Quill.Proofs.Session.Fragments

/-!
# The bindings of a session

Behind any fragments, accepted or rejected, the scope of a session is one frame: the library in its
order, and behind it what `let` and `function` declare in the accepted fragments, each name once and
bound to the entity that its declaration has made. A statement only adds bindings, a loop adds those
of its body, and parameters stay in the frame of their function.

## Main definitions

* `Tree.declaredNames` — the names that a program declares, without parameters.
* `Tree.bindings` — the bindings that the declarations of a resolved program make.
* `Declarations.Gains` — the invariant of resolution: what has been added to the declarations.
-/

namespace Quill

/-! ## What programs declare -/

namespace Tree

mutual

/-- The names that `let` and `function` declare, in order. -/
def declaredNames : Tree → List String
  | variableDeclaration name _ => [name.spelling]
  | functionDeclaration name _ _ => [name.spelling]
  | whileLoop _ body => declaredNamesInAll body
  | program statements => declaredNamesInAll statements
  | _ => []

/-- The names that statements declare. -/
def declaredNamesInAll : List Tree → List String
  | [] => []
  | t :: ts => t.declaredNames ++ declaredNamesInAll ts

end

/-- The binding of a declared name to the entity in its place. -/
def binding (name : Tree) : Frame := name.entity?.toList.map fun e => (e.name, e)

mutual

/-- The bindings of what `let` and `function` declare, in order. -/
def bindings : Tree → Frame
  | variableDeclaration name _ => name.binding
  | functionDeclaration name _ _ => name.binding
  | whileLoop _ body => bindingsInAll body
  | program statements => bindingsInAll statements
  | _ => []

/-- The bindings of what statements declare. -/
def bindingsInAll : List Tree → Frame
  | [] => []
  | t :: ts => t.bindings ++ bindingsInAll ts

end

end Tree

/-! ## What resolution adds -/

namespace Declarations

/-- New bindings in the innermost frame, under these names. Their entities are numbered in order,
and have no number that was given before. -/
structure Gains (d : Declarations) (names : List String) (bs : Frame) (after : Declarations) :
    Prop where
  scope_eq : after.scope = ⟨d.scope.frame ++ bs, d.scope.outer⟩
  names_eq : bs.map Prod.fst = names
  nodup : names.Nodup
  new : ∀ name ∈ names, d.scope.declares name = false
  numbered : ∃ ns : List Nat, bs.map (fun b => b.2.id) = ns.map .user ∧
    ns.Pairwise (· < ·) ∧ ∀ n ∈ ns, d.next ≤ n ∧ n < after.next
  next_le : d.next ≤ after.next

theorem declares_eq_false_iff (s : Scope) (name : String) :
    s.declares name = false ↔ name ∉ s.frame.map Prod.fst := by
  simp only [Scope.declares, Option.isSome_eq_false_iff, Option.isNone_iff_eq_none,
    List.lookup_eq_none_iff, List.mem_map, not_exists, not_and]
  constructor
  · intro h b hb heq
    simpa [heq] using h b hb
  · intro h b hb
    simpa using fun heq => h b hb heq.symm

theorem Gains.refl (d : Declarations) : d.Gains [] [] d where
  scope_eq := by simp
  names_eq := rfl
  nodup := .nil
  new := by simp
  numbered := ⟨[], rfl, .nil, by simp⟩
  next_le := Nat.le_refl _

/-- What is added in two steps. -/
theorem Gains.trans {d₁ d₂ d₃ : Declarations} {names₁ names₂ : List String} {bs₁ bs₂ : Frame}
    (h₁ : d₁.Gains names₁ bs₁ d₂) (h₂ : d₂.Gains names₂ bs₂ d₃) :
    d₁.Gains (names₁ ++ names₂) (bs₁ ++ bs₂) d₃ := by
  have hnew : ∀ name ∈ names₂, name ∉ d₁.scope.frame.map Prod.fst ∧ name ∉ names₁ := by
    intro name hname
    have h := (declares_eq_false_iff _ _).1 (h₂.new name hname)
    rw [h₁.scope_eq, List.map_append, h₁.names_eq, List.mem_append, not_or] at h
    exact h
  refine ⟨?_, ?_, ?_, ?_, ?_, Nat.le_trans h₁.next_le h₂.next_le⟩
  · rw [h₂.scope_eq, h₁.scope_eq, List.append_assoc]
  · rw [List.map_append, h₁.names_eq, h₂.names_eq]
  · refine List.nodup_append.2 ⟨h₁.nodup, h₂.nodup, ?_⟩
    rintro a ha b hb rfl
    exact (hnew a hb).2 ha
  · intro name hname
    rcases List.mem_append.1 hname with h | h
    · exact h₁.new name h
    · exact (declares_eq_false_iff _ _).2 (hnew name h).1
  · obtain ⟨ns₁, hids₁, hsorted₁, hbound₁⟩ := h₁.numbered
    obtain ⟨ns₂, hids₂, hsorted₂, hbound₂⟩ := h₂.numbered
    refine ⟨ns₁ ++ ns₂, ?_, ?_, ?_⟩
    · rw [List.map_append, hids₁, hids₂, List.map_append]
    · refine List.pairwise_append.2 ⟨hsorted₁, hsorted₂, ?_⟩
      intro m hm n hn
      exact Nat.lt_of_lt_of_le (hbound₁ m hm).2 (hbound₂ n hn).1
    · intro n hn
      rcases List.mem_append.1 hn with h | h
      · exact ⟨(hbound₁ n h).1, Nat.lt_of_lt_of_le (hbound₁ n h).2 h₂.next_le⟩
      · exact ⟨Nat.le_trans h₁.next_le (hbound₂ n h).1, (hbound₂ n h).2⟩

/-- One new name. -/
theorem Gains.single {d : Declarations} {t : Token} (hnew : d.scope.requireNew t = .ok ())
    {e : Entity} (hname : e.name = t.value) (hid : e.id = .user d.next) {next : Nat}
    (hnext : d.next < next) :
    d.Gains [t.value] (Tree.binding (.entity e)) ⟨d.scope.bind t.value e, next⟩ := by
  have hbinding : Tree.binding (.entity e) = [(t.value, e)] := by
    simp [Tree.binding, Tree.entity?, hname]
  rw [hbinding]
  refine ⟨rfl, rfl, by simp, ?_, ⟨[d.next], by simp [hid], by simp, ?_⟩, Nat.le_of_lt hnext⟩
  · intro name hmem
    obtain rfl := List.mem_singleton.1 hmem
    exact Scope.requireNew_eq_ok_iff.1 hnew
  · intro n hn
    obtain rfl := List.mem_singleton.1 hn
    exact ⟨Nat.le_refl _, hnext⟩

end Declarations

/-! ## What each statement adds -/

namespace Tree

open Declarations

theorem asToken_eq_ok_iff {part : Tree} {t : Token} : part.asToken = .ok t ↔ part = token t := by
  cases part <;> simp [asToken]

/-- Parameters are bound in a frame of their own; only the numbers of their entities are used up. -/
theorem next_le_of_declareParameters {params : List Tree} {d : Declarations}
    {result : List Tree × Declarations} (h : declareParameters params d = .ok result) :
    d.next ≤ result.2.next := by
  induction params generalizing d result with
  | nil =>
    obtain rfl := Except.ok.inj h
    exact Nat.le_refl _
  | cons p ps ih =>
    simp only [declareParameters, bind_eq_ok_iff] at h
    obtain ⟨t, -, -, -, rest, hrest, hresult⟩ := h
    obtain rfl := Except.ok.inj hresult
    exact Nat.le_of_succ_le (ih hrest)

mutual

/-- A statement adds the bindings of its declarations. -/
theorem gains_of_resolveStatement : ∀ (t : Tree) {d : Declarations} {r : Tree}
    {after : Declarations}, resolveStatement t d = .ok (r, after) →
      d.Gains t.declaredNames r.bindings after
  | variableDeclaration name initializer, d, r, after, h => by
    simp only [resolveStatement, bind_eq_ok_iff, asToken_eq_ok_iff] at h
    obtain ⟨resolved, -, t, rfl, ⟨⟩, hnew, hresult⟩ := h
    obtain ⟨rfl, rfl⟩ := Prod.mk.inj (Except.ok.inj hresult)
    exact .single hnew rfl rfl (Nat.lt_succ_self _)
  | functionDeclaration name params body, d, r, after, h => by
    simp only [resolveStatement, resolveHead, bind_eq_ok_iff, asToken_eq_ok_iff] at h
    obtain ⟨head, ⟨t, rfl, ⟨⟩, hnew, inner, hinner, hhead⟩, resolved, -, hresult⟩ := h
    obtain rfl := Except.ok.inj hhead
    obtain ⟨rfl, rfl⟩ := Prod.mk.inj (Except.ok.inj hresult)
    exact .single hnew rfl rfl (next_le_of_declareParameters hinner)
  | assignment target source, d, r, after, h => by
    simp only [resolveStatement, bind_eq_ok_iff] at h
    obtain ⟨e, -, resolved, -, hresult⟩ := h
    obtain ⟨rfl, rfl⟩ := Prod.mk.inj (Except.ok.inj hresult)
    exact .refl _
  | whileLoop test body, d, r, after, h => by
    simp only [resolveStatement, bind_eq_ok_iff] at h
    obtain ⟨resolved, -, ⟨statements, behind⟩, hbody, hresult⟩ := h
    obtain ⟨rfl, rfl⟩ := Prod.mk.inj (Except.ok.inj hresult)
    exact gains_of_resolveStatements body hbody
  | print argument, d, r, after, h => by
    simp only [resolveStatement, bind_eq_ok_iff] at h
    obtain ⟨resolved, -, hresult⟩ := h
    obtain ⟨rfl, rfl⟩ := Prod.mk.inj (Except.ok.inj hresult)
    exact .refl _
  | absent, _, _, _, h | literal _, _, _, _, h | text _, _, _, _, h | list _, _, _, _, h
  | token _, _, _, _, h | entity _, _, _, _, h | program _, _, _, _, h | call _ _, _, _, _, h
  | conditional _ _ _, _, _, _, h | binary _ _ _, _, _, _, h | unary _ _, _, _, _, h => nomatch h

/-- Statements add a binding for each name that they declare, in order. -/
theorem gains_of_resolveStatements : ∀ (ts : List Tree) {d : Declarations} {rs : List Tree}
    {after : Declarations}, resolveStatements ts d = .ok (rs, after) →
      d.Gains (declaredNamesInAll ts) (bindingsInAll rs) after
  | [], d, rs, after, h => by
    obtain ⟨rfl, rfl⟩ := Prod.mk.inj (Except.ok.inj h)
    exact .refl _
  | t :: ts, d, rs, after, h => by
    simp only [resolveStatements, bind_eq_ok_iff] at h
    obtain ⟨⟨r, between⟩, ht, ⟨rest, behind⟩, hts, hresult⟩ := h
    obtain ⟨rfl, rfl⟩ := Prod.mk.inj (Except.ok.inj hresult)
    exact (gains_of_resolveStatement t ht).trans (gains_of_resolveStatements ts hts)

end

theorem gains_of_resolveProgram {p r : Tree} {d after : Declarations}
    (h : p.resolveProgram d = .ok (r, after)) : d.Gains p.declaredNames r.bindings after := by
  cases p with
  | program statements =>
    simp only [resolveProgram, bind_eq_ok_iff] at h
    obtain ⟨⟨rs, behind⟩, hstatements, hresult⟩ := h
    obtain ⟨rfl, rfl⟩ := Prod.mk.inj (Except.ok.inj hresult)
    exact gains_of_resolveStatements statements hstatements
  | _ => cases h

end Tree

/-! ## Sessions -/

namespace Declarations

/-- Fragments add the bindings of those that are accepted. -/
theorem gains_behind (d : Declarations) (ps : List Tree) :
    d.Gains ((d.accepted ps).flatMap fun a => a.1.declaredNames)
      ((d.accepted ps).flatMap fun a => a.2.bindings) (d.behind ps) := by
  induction ps generalizing d with
  | nil => exact .refl d
  | cons p ps ih =>
    cases h : (d.accept p).1 with
    | ok r =>
      have hstep := Tree.gains_of_resolveProgram (resolveProgram_of_accept h)
      simp only [accepted, h, List.flatMap_cons]
      exact hstep.trans (ih _)
    | error e =>
      simp only [accepted, h, behind, accept_rejected h]
      exact ih d

end Declarations

namespace Scope

/-- Bindings to library entities are not shown. -/
theorem firstBindings_standard {standard : Frame} (h : ∀ b ∈ standard, b.2.isStandard)
    (found bs : Frame) : firstBindings found (standard ++ bs) = firstBindings found bs := by
  induction standard with
  | nil => rfl
  | cons b standard ih =>
    have hb : b.2.isStandard = true := h b List.mem_cons_self
    simp only [List.cons_append, firstBindings, hb, Bool.or_true, if_true]
    exact ih fun b hmem => h b (List.mem_cons_of_mem _ hmem)

/-- Bindings under different names, none of them to a library entity, are all shown in order. -/
theorem firstBindings_new {found bs : Frame} (hbs : ∀ b ∈ bs, b.2.isStandard = false)
    (hnames : ((found ++ bs).map Prod.fst).Nodup) : firstBindings found bs = found ++ bs := by
  induction bs generalizing found with
  | nil => simp [firstBindings]
  | cons b bs ih =>
    have hb : b.2.isStandard = false := hbs b List.mem_cons_self
    have hlookup : (found.lookup b.1).isSome = false := by
      have hnew : b.1 ∉ found.map Prod.fst := by
        intro hmem
        rw [List.map_append] at hnames
        exact (List.nodup_append.1 hnames).2.2 _ hmem _ List.mem_cons_self rfl
      exact (Declarations.declares_eq_false_iff ⟨found, []⟩ _).2 hnew
    have hrest : firstBindings (found ++ [b]) bs = (found ++ [b]) ++ bs := by
      refine ih (fun b hmem => hbs b (List.mem_cons_of_mem _ hmem)) ?_
      rwa [List.append_assoc]
    simp only [firstBindings, hlookup, hb, Bool.or_self, Bool.false_eq_true, if_false]
    rw [hrest, List.append_assoc]
    rfl

/-- The scope of a session in which these fragments have been accepted with these answers. -/
structure IsOfSession (s : Scope) (accepted : List (Tree × Tree)) : Prop where
  /-- There is one frame. -/
  outer_eq : s.outer = []
  /-- Behind the library it binds what the declarations of the answers have made, in order. -/
  frame_eq : s.frame = Library.entries ++ accepted.flatMap fun a => a.2.bindings
  /-- These are bound under the names that the fragments declare. -/
  names_eq : (accepted.flatMap fun a => a.2.bindings).map Prod.fst =
    accepted.flatMap fun a => a.1.declaredNames
  /-- No name is bound twice. -/
  nodup_names : (s.frame.map Prod.fst).Nodup
  /-- Each declaration has made an entity of its own. -/
  nodup_ids : (s.frame.map fun b => b.2.id).Nodup
  /-- What is declared is shown in order, or else that there is nothing. -/
  describe_eq : s.describe =
    if (accepted.flatMap fun a => a.2.bindings) = [] then ["  (no user-defined bindings)"]
    else (accepted.flatMap fun a => a.2.bindings).map fun b => s!"  {b.1}: {b.2.record}"

theorem nodup_names_library : (Library.entries.map Prod.fst).Nodup := by decide

theorem nodup_ids_library : (Library.entries.map fun b => b.2.id).Nodup := by decide

theorem isStandard_library : ∀ b ∈ Library.entries, b.2.isStandard = true := by decide

end Scope

namespace Declarations

variable {names : List String} {bs : Frame} {d : Declarations}

/-- What is added to the library is not of the library. -/
theorem Gains.not_standard (h : initial.Gains names bs d) : ∀ b ∈ bs, b.2.isStandard = false := by
  obtain ⟨ns, hids, -, -⟩ := h.numbered
  intro b hb
  have hid : b.2.id ∈ ns.map Entity.Id.user := hids ▸ List.mem_map_of_mem hb
  obtain ⟨n, -, hn⟩ := List.mem_map.1 hid
  rw [Entity.isStandard, Entity.builtin?, ← hn]
  rfl

theorem Gains.nodup_names (h : initial.Gains names bs d) :
    ((Library.entries ++ bs).map Prod.fst).Nodup := by
  rw [List.map_append, h.names_eq]
  refine List.nodup_append.2 ⟨Scope.nodup_names_library, h.nodup, ?_⟩
  rintro name hlibrary _ hname rfl
  exact (declares_eq_false_iff _ _).1 (h.new name hname) hlibrary

/-- No two names of a session denote the same entity. -/
theorem Gains.nodup_ids (h : initial.Gains names bs d) :
    ((Library.entries ++ bs).map fun b => b.2.id).Nodup := by
  obtain ⟨ns, hids, hsorted, -⟩ := h.numbered
  rw [List.map_append, hids]
  refine List.nodup_append.2 ⟨Scope.nodup_ids_library, ?_, ?_⟩
  · refine List.pairwise_map.2 (hsorted.imp ?_)
    intro m n hlt heq
    exact Nat.ne_of_lt hlt (Entity.Id.user.inj heq)
  · rintro id hlibrary _ huser rfl
    obtain ⟨n, -, rfl⟩ := List.mem_map.1 huser
    obtain ⟨b, hb, hid⟩ := List.mem_map.1 hlibrary
    have hstandard := Scope.isStandard_library b hb
    rw [Entity.isStandard, Entity.builtin?, hid] at hstandard
    cases hstandard

/-- What a session lists is what its programs have declared. -/
theorem Gains.userBindings (h : initial.Gains names bs d) : d.scope.userBindings = bs := by
  have hframes : d.scope.frames.flatten = Library.entries ++ bs := by
    rw [h.scope_eq]
    simp [Scope.frames, initial, Scope.root]
  rw [Scope.userBindings, hframes, Scope.firstBindings_standard Scope.isStandard_library,
    Scope.firstBindings_new h.not_standard]
  · rfl
  · rw [List.nil_append, h.names_eq]
    exact h.nodup

/-- A gain on top of the library is the scope of a session. -/
theorem Gains.isOfSession {accepted : List (Tree × Tree)}
    (h : initial.Gains (accepted.flatMap fun a => a.1.declaredNames)
      (accepted.flatMap fun a => a.2.bindings) d) : d.scope.IsOfSession accepted where
  outer_eq := by rw [h.scope_eq]; rfl
  frame_eq := by rw [h.scope_eq]; rfl
  names_eq := h.names_eq
  nodup_names := by rw [h.scope_eq]; exact h.nodup_names
  nodup_ids := by rw [h.scope_eq]; exact h.nodup_ids
  describe_eq := by
    rw [Scope.describe, h.userBindings]
    cases accepted.flatMap fun a => a.2.bindings with
    | nil => rfl
    | cons b bs => rfl

end Declarations

/-- In a frame without repeated names each name denotes the entity it is bound to. -/
theorem Scope.lookup?_of_mem {s : Scope} (hnodup : (s.frame.map Prod.fst).Nodup)
    {b : String × Entity} (hb : b ∈ s.frame) : s.lookup? b.1 = some b.2 := by
  obtain ⟨before, rest, hframe⟩ := List.append_of_mem hb
  have hlookup : s.frame.lookup b.1 = some b.2 := by
    refine List.lookup_eq_some_iff.2 ⟨before, rest, hframe, ?_⟩
    intro c hc
    rw [hframe, List.map_append] at hnodup
    have hne := (List.nodup_append.1 hnodup).2.2 c.1 (List.mem_map_of_mem hc) b.1 List.mem_cons_self
    simpa using Ne.symm hne
  simp [Scope.lookup?, Scope.frames, hlookup]

namespace Declarations

theorem isOfSession_behind (ps : List Tree) :
    (initial.behind ps).scope.IsOfSession (initial.accepted ps) :=
  (gains_behind initial ps).isOfSession

/-- Programs add bindings behind those before and change none. -/
theorem frame_prefix_behind (d : Declarations) (qs : List Tree) :
    d.scope.frame <+: (d.behind qs).scope.frame := by
  rw [(gains_behind d qs).scope_eq]
  exact List.prefix_append _ _

/-- Behind any fragments the scope of a session binds the library and what the accepted fragments
declare. Whatever follows, a bound name denotes the same entity, and a fragment that is rejected
changes nothing. -/
theorem scope_of_session (ps : List Tree) :
    (initial.behind ps).scope.IsOfSession (initial.accepted ps) ∧
      (∀ qs, (initial.behind ps).scope.frame <+: (initial.behind (ps ++ qs)).scope.frame ∧
        ∀ b ∈ (initial.behind ps).scope.frame,
          (initial.behind (ps ++ qs)).scope.lookup? b.1 = some b.2) ∧
      ∀ p e, ((initial.behind ps).accept p).1 = .error e →
        ((initial.behind ps).accept p).2 = initial.behind ps := by
  refine ⟨isOfSession_behind ps, ?_, fun p e => accept_rejected⟩
  intro qs
  have hgrown := frame_prefix_behind (initial.behind ps) qs
  rw [← behind_append] at hgrown
  refine ⟨hgrown, ?_⟩
  intro b hb
  exact Scope.lookup?_of_mem (isOfSession_behind (ps ++ qs)).nodup_names (hgrown.subset hb)

end Declarations

end Quill
