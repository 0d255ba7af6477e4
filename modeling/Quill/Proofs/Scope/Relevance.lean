import Quill.Proofs.Optimize.Identity
import Quill.Proofs.Scope.Agreement

/-!
# Resolution reads a scope through the names it meets

Scopes that agree on the names of a program may have any frames around, and may have given any
numbers before: resolution fails in both for the same reason, or makes new entities in the same
order and puts the same entities everywhere else. Behind the program the scopes agree again, and all
other names denote what they did.

## Main definitions

* `Declarations.AreNumbered` — whatever is bound got its number before.
* `Tree.AnswersMatch ss d e x y` — two runs over the same statements have succeeded alike.
-/

namespace Quill

open Quill.Tree

variable {names : List String}

namespace Tree

/-! ## Other names -/

mutual

/-- What a statement declares, it names. -/
theorem declaredNames_subset : ∀ (t : Tree) {d d' : Declarations} {r : Tree},
    t.resolveStatement d = .ok (r, d') → NamesIn names t.leaves → t.declaredNames ⊆ names
  | variableDeclaration name initializer, d, d', r, h, hnames => by
    simp only [resolveStatement, bind_eq_ok_iff, asToken_eq_ok_iff] at h
    obtain ⟨-, -, t, rfl, -⟩ := h
    rw [leaves, namesIn_append] at hnames
    exact List.cons_subset.2 ⟨namesIn_token hnames.1, List.nil_subset _⟩
  | functionDeclaration name params body, d, d', r, h, hnames => by
    simp only [resolveStatement, resolveHead, bind_eq_ok_iff, asToken_eq_ok_iff] at h
    obtain ⟨-, ⟨t, rfl, -⟩, -⟩ := h
    rw [leaves, namesIn_append, namesIn_append] at hnames
    exact List.cons_subset.2 ⟨namesIn_token hnames.1.1, List.nil_subset _⟩
  | whileLoop test body, d, d', r, h, hnames => by
    simp only [resolveStatement, bind_eq_ok_iff] at h
    obtain ⟨-, -, ⟨rs, d₁⟩, hbody, -⟩ := h
    rw [leaves, namesIn_append] at hnames
    exact declaredNamesInAll_subset body hbody hnames.2
  | assignment _ _, _, _, _, _, _ | print _, _, _, _, _, _ => List.nil_subset _
  | absent, _, _, _, h, _ | literal _, _, _, _, h, _ | text _, _, _, _, h, _
  | list _, _, _, _, h, _ | token _, _, _, _, h, _ | entity _, _, _, _, h, _
  | program _, _, _, _, h, _ | call _ _, _, _, _, h, _ | conditional _ _ _, _, _, _, h, _
  | binary _ _ _, _, _, _, h, _ | unary _ _, _, _, _, h, _ => nomatch h

theorem declaredNamesInAll_subset : ∀ (ts : List Tree) {d d' : Declarations} {rs : List Tree},
    resolveStatements ts d = .ok (rs, d') → NamesIn names (leavesOfAll ts) →
      declaredNamesInAll ts ⊆ names
  | [], _, _, _, _, _ => List.nil_subset _
  | t :: ts, d, d', rs, h, hnames => by
    simp only [resolveStatements, bind_eq_ok_iff] at h
    obtain ⟨⟨r, d₁⟩, ht, ⟨rs', d₂⟩, hts, -⟩ := h
    rw [leavesOfAll, namesIn_append] at hnames
    exact List.append_subset.2
      ⟨declaredNames_subset t ht hnames.1, declaredNamesInAll_subset ts hts hnames.2⟩

end

end Tree

/-! ## Numbers given before -/

/-- The number of a declared entity is below a bound; entities of the library have none. -/
def Entity.Id.IsBelow (n : Nat) : Entity.Id → Prop
  | library _ => True
  | user i => i < n

instance (n : Nat) : (id : Entity.Id) → Decidable (id.IsBelow n)
  | .library _ => inferInstanceAs (Decidable True)
  | .user i => inferInstanceAs (Decidable (i < n))

theorem Entity.Id.IsBelow.mono {n n' : Nat} {id : Entity.Id} (h : id.IsBelow n) (hn : n ≤ n') :
    id.IsBelow n' := by
  cases id with
  | library b => trivial
  | user i => exact Nat.lt_of_lt_of_le h hn

/-- What was numbered before is matched with itself. -/
theorem Entity.renumber_matched {n : Nat} (m : Nat) {x : Entity} (h : x.id.IsBelow n) :
    x.renumber (matched n m) = x := by
  obtain ⟨id, name, kind, readOnly⟩ := x
  cases id with
  | library b => rfl
  | user i => rw [renumber, Id.renumber, matched_of_lt h]

namespace Declarations

variable {d e after : Declarations} {bs : Frame}

/-- All entities that are bound, in whatever frame, got their numbers before. A new one is none of
them. -/
def AreNumbered (d : Declarations) : Prop :=
  ∀ frame ∈ d.scope.frames, ∀ b ∈ frame, b.2.id.IsBelow d.next

instance (d : Declarations) : Decidable d.AreNumbered :=
  inferInstanceAs (Decidable (∀ frame ∈ d.scope.frames, ∀ b ∈ frame, b.2.id.IsBelow d.next))

theorem areNumbered_initial : initial.AreNumbered := by decide

theorem Gains.areNumbered (h : d.Gains names bs after) (hd : d.AreNumbered) :
    after.AreNumbered := by
  intro frame hframe b hb
  have hbefore : ∀ frame ∈ d.scope.frames, b ∈ frame → b.2.id.IsBelow after.next :=
    fun frame hframe hb => (hd frame hframe b hb).mono h.next_le
  rw [h.scope_eq, Scope.frames, List.mem_cons] at hframe
  rcases hframe with rfl | hframe
  · rcases List.mem_append.1 hb with hb | hb
    · exact hbefore d.scope.frame List.mem_cons_self hb
    · obtain ⟨ns, hids, -, hbound⟩ := h.numbered
      have hid : b.2.id ∈ ns.map .user := hids ▸ List.mem_map_of_mem hb
      obtain ⟨i, hi, hid⟩ := List.mem_map.1 hid
      rw [← hid]
      exact (hbound i hi).2
  · exact hbefore frame (List.mem_cons_of_mem _ hframe) hb

/-- The declarations of a session are numbered, whatever its fragments are. -/
theorem areNumbered_behind (ps : List Tree) : (initial.behind ps).AreNumbered :=
  (gains_behind initial ps).areNumbered areNumbered_initial

/-- A name that is not declared denotes what it did. -/
theorem Gains.lookup?_eq (h : d.Gains names bs after) {name : String} (hname : name ∉ names) :
    after.scope.lookup? name = d.scope.lookup? name := by
  have hnone : bs.lookup name = none := by
    refine List.lookup_eq_none_iff.2 fun b hb => ?_
    have hmem : b.1 ∈ names := h.names_eq ▸ List.mem_map_of_mem hb
    simpa using (ne_of_mem_of_not_mem hmem hname).symm
  rw [h.scope_eq, Scope.lookup?, Scope.lookup?, Scope.frames, Scope.frames, List.findSome?_cons,
    List.findSome?_cons, List.lookup_append, hnone, Option.or_none]

/-- What a name denotes was numbered before. -/
theorem AreNumbered.isBelow (h : d.AreNumbered) {name : String} {x : Entity}
    (hx : d.scope.lookup? name = some x) : x.id.IsBelow d.next := by
  obtain ⟨frame, hframe, hmem⟩ := Scope.exists_mem_of_lookup? hx
  exact h frame hframe (name, x) hmem

/-- Scopes that agree start alike, whatever numbers come next. -/
theorem AreNumbered.keepPace (hd : d.AreNumbered) (h : d.scope.AgreeOn names e.scope) :
    KeepPace names d.next e.next d e := by
  refine ⟨fun name hname => ?_, 0, rfl, rfl⟩
  rw [Scope.lookup?_renumber, Scope.declares_renumber, (h name hname).2, (h name hname).1]
  refine ⟨?_, rfl⟩
  cases hx : d.scope.lookup? name with
  | none => rfl
  | some x => rw [Option.map_some, Entity.renumber_matched e.next (hd.isBelow hx)]

end Declarations

namespace Tree

/-! ## Relevance -/

/-- A renumbering that can be undone for the numbers that occur is part of an injective one, as the
other numbers make room. -/
theorem exists_injective_renumbering {σ τ : Nat → Nat} {room : Nat} (occurs : Nat → Prop)
    [DecidablePred occurs] (hback : ∀ i, occurs i → τ (σ i) = i)
    (hroom : ∀ i, occurs i → σ i < room) :
    ∃ ρ : Nat → Nat, Function.Injective ρ ∧ ∀ i, occurs i → ρ i = σ i := by
  refine ⟨fun i => if occurs i then σ i else i + room, ?_, fun i hi => if_pos hi⟩
  intro i j hij
  dsimp only at hij
  split at hij <;> split at hij
  · rename_i hi hj
    rw [← hback i hi, ← hback j hj, hij]
  · rename_i hi _
    have hlt := hroom i hi
    omega
  · rename_i _ hj
    have hlt := hroom j hj
    omega
  · omega

/-- A tree whose entities can be renumbered and numbered back is isomorphic to what it becomes. -/
theorem isIsomorphic_of_renumber {t u : Tree} {σ τ : Nat → Nat} (h : t.renumber σ = u)
    (hback : u.renumber τ = t) : t.IsIsomorphic u := by
  have hentities : u.entities = t.entities.map (Entity.renumber σ) := by
    rw [← h, renumber_eq_mapEntities, entities_mapEntities]
  have hkept : ∀ x ∈ t.entities, (x.renumber σ).renumber τ = x := by
    have hmap : t.entities.map (fun x => (x.renumber σ).renumber τ) = t.entities.map id := by
      rw [List.map_id, ← Function.comp_def, ← List.map_map, ← hentities, ← entities_mapEntities,
        ← renumber_eq_mapEntities, hback]
    exact List.map_inj_left.1 hmap
  have hnumber : ∀ i, .user i ∈ t.entities.map Entity.id → τ (σ i) = i := by
    intro i hi
    obtain ⟨x, hx, hid⟩ := List.mem_map.1 hi
    have hrenumber := congrArg Entity.id (hkept x hx)
    simp only [Entity.renumber, hid, Entity.Id.renumber, Entity.Id.user.injEq] at hrenumber
    exact hrenumber
  obtain ⟨room, hroom⟩ := Entity.exists_room (u.entities.map Entity.id)
  have hbelow : ∀ i, .user i ∈ t.entities.map Entity.id → σ i < room := by
    intro i hi
    obtain ⟨x, hx, hid⟩ := List.mem_map.1 hi
    refine hroom (σ i) (List.mem_map.2 ⟨x.renumber σ, hentities ▸ List.mem_map_of_mem hx, ?_⟩)
    simp only [Entity.renumber, hid, Entity.Id.renumber]
  obtain ⟨ρ, hinjective, hρ⟩ := exists_injective_renumbering _ hnumber hbelow
  refine ⟨ρ, hinjective, ?_⟩
  rw [← h, renumber_eq_mapEntities, renumber_eq_mapEntities]
  refine mapEntities_congr t fun x hx => ?_
  obtain ⟨id, name, kind, readOnly⟩ := x
  cases id with
  | library b => rfl
  | user i =>
    have hi : .user i ∈ t.entities.map Entity.id := List.mem_map_of_mem hx
    simp only [Entity.renumber, Entity.Id.renumber, hρ i hi]

/-- What statements leave as it is. -/
theorem others_of_resolveStatements {ss rs : List Tree} {d d' : Declarations}
    (h : resolveStatements ss d = .ok (rs, d')) :
    (d.AreNumbered → d'.AreNumbered) ∧
      ∀ name ∉ namesInAll ss, d'.scope.lookup? name = d.scope.lookup? name := by
  have hgains := gains_of_resolveStatements ss h
  have hsubset := declaredNamesInAll_subset ss h (namesIn_namesInAll ss)
  exact ⟨hgains.areNumbered, fun name hname => hgains.lookup?_eq fun hmem => hname (hsubset hmem)⟩

/-- Two runs over the same statements have succeeded alike. -/
structure AnswersMatch (ss : List Tree) (d e : Declarations) (x y : List Tree × Declarations) :
    Prop where
  /-- The entities that were made are matched in order, and all others are the same. -/
  answer : y.1 = renumberAll (matched d.next e.next) x.1
  answer_back : x.1 = renumberAll (matched e.next d.next) y.1
  isIsomorphic : (program x.1).IsIsomorphic (program y.1)
  agreeOn : (x.2.scope.renumber (matched d.next e.next)).AgreeOn (namesInAll ss) y.2.scope
  others : ∀ name ∉ namesInAll ss, x.2.scope.lookup? name = d.scope.lookup? name ∧
    y.2.scope.lookup? name = e.scope.lookup? name
  areNumbered : x.2.AreNumbered ∧ y.2.AreNumbered

/-- Of a scope, resolution sees nothing but the answers about the names of the statements. -/
theorem resolveStatements_relevance {ss : List Tree} {d e : Declarations} (hd : d.AreNumbered)
    (he : e.AreNumbered) (h : d.scope.AgreeOn (namesInAll ss) e.scope) :
    EndAlike (AnswersMatch ss d e) (resolveStatements ss d) (resolveStatements ss e) := by
  have hnames := namesIn_namesInAll ss
  have hback : e.scope.AgreeOn (namesInAll ss) d.scope :=
    fun name hname => ⟨(h name hname).1.symm, (h name hname).2.symm⟩
  have hforth := resolveStatements_endAlike ss (hd.keepPace h) hnames
  have hreverse := resolveStatements_endAlike ss (he.keepPace hback) hnames
  refine hforth.imp_of_ok ?_
  rintro ⟨rs, d'⟩ ⟨us, e'⟩ hx hy ⟨hanswer, hpace⟩
  rw [hx, hy] at hreverse
  obtain ⟨hanswer_back, -⟩ := hreverse.of_ok
  obtain ⟨hnumbered, hothers⟩ := others_of_resolveStatements hx
  obtain ⟨hnumbered', hothers'⟩ := others_of_resolveStatements hy
  exact
    { answer := hanswer
      answer_back := hanswer_back
      isIsomorphic := isIsomorphic_of_renumber (congrArg program hanswer.symm)
        (congrArg program hanswer_back.symm)
      agreeOn := hpace.agreeOn
      others := fun name hname => ⟨hothers name hname, hothers' name hname⟩
      areNumbered := ⟨hnumbered hd, hnumbered' he⟩ }

/-- A variable that takes the name of a parameter, and one that a loop declares. -/
def looping : List Tree :=
  let name (x : String) := token ⟨x, none⟩
  [functionDeclaration (name "f") [name "x"] (binary "*" (name "x") (name "y")),
    variableDeclaration (name "x") (call (name "f") [name "y"]),
    whileLoop (binary "<" (name "x") (name "y")) [variableDeclaration (name "z") (name "x")]]

/-- A frame inside the one that declares `y`. -/
def shallow : Declarations := ⟨(Scope.root.bind "y" (.declaredVariable 0 "y")).enter, 1⟩

/-- Another frame in between, where `q` is declared, and later numbers. -/
def deep : Declarations := ⟨(shallow.scope.bind "q" (.declaredVariable 5 "q")).enter, 9⟩

theorem resolveStatements_relevance_looping :
    shallow.AreNumbered ∧ deep.AreNumbered ∧
      shallow.scope.AgreeOn (namesInAll looping) deep.scope ∧
      ∃ x y, resolveStatements looping shallow = .ok x ∧ resolveStatements looping deep = .ok y ∧
        AnswersMatch looping shallow deep x y ∧ x.2.next = 5 ∧ y.2.next = 13 := by
  have hshallow : shallow.AreNumbered := by decide
  have hdeep : deep.AreNumbered := by decide
  have hagree : shallow.scope.AgreeOn (namesInAll looping) deep.scope := by
    unfold Scope.AgreeOn
    decide
  have hx : resolveStatements looping shallow = .ok _ := rfl
  have hy : resolveStatements looping deep = .ok _ := rfl
  have h := resolveStatements_relevance hshallow hdeep hagree
  rw [hx, hy] at h
  exact ⟨hshallow, hdeep, hagree, _, _, hx, hy, h.of_ok, rfl, rfl⟩

end Tree
end Quill
