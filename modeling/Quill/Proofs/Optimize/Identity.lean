import Quill.Proofs.Optimize.Fault
import Quill.Proofs.Optimize.Replacement
import Quill.Proofs.Optimize.Shrink

/-!
# Entities replaced in one tree

A replacement is given for the entities of one tree, and need not keep entities apart that do not
occur there. It goes on to all entities: those of the tree follow it, and the declared ones beyond
the tree are numbered behind all that it brings. So the pass, which looks at entities by identity
only, makes the same replacements in its answer, whatever the names, the parameters and the flags of
the entities that are brought in.

## Main definitions

* `Tree.entities` — the entities of a tree, one for each reference.
* `Tree.IsReplacedBy` — a replacement of the entities of a tree.
* `Entity.carry` — a replacement of some entities, carried on to all.
-/

namespace Quill

namespace Entity

/-! ## From some entities to all -/

/-- Another number for a declared entity, which leaves room for so many others. -/
def Id.shift (room : Nat) : Id → Id
  | .library b => .library b
  | .user n => .user (n + room)

theorem Id.shift_injective (room : Nat) : Function.Injective (Id.shift room) := by
  intro i j h
  cases i <;> cases j <;> simp_all [Id.shift]

/-- Some numbers are above those of finitely many identities. -/
theorem exists_room (ids : List Id) : ∃ room, ∀ n, Id.user n ∈ ids → n < room := by
  induction ids with
  | nil => exact ⟨0, by simp⟩
  | cons id ids ih =>
    obtain ⟨room, hroom⟩ := ih
    cases id with
    | library b =>
      refine ⟨room, fun n hn => hroom n ?_⟩
      simpa using hn
    | user m =>
      refine ⟨max room (m + 1), fun n hn => ?_⟩
      rcases List.mem_cons.1 hn with hm | hn
      · obtain rfl := Id.user.inj hm
        omega
      · have hlt := hroom n hn
        omega

theorem builtin?_eq_some_iff {e : Entity} {b : Builtin} :
    e.builtin? = some b ↔ e.id = .library b := by
  unfold builtin?
  cases e.id <;> simp

section
variable (es : List Entity) (f : Entity → Entity) (room : Nat)

/-- The identity in place of another one: one of the entities follows the replacement, and any other
one makes room. -/
def carryId (id : Id) : Id :=
  match es.find? fun e => e.id = id with
  | some e => (f e).id
  | none => id.shift room

/-- The replacement of some entities, carried on to all. Every other entity becomes another one. -/
def carry (e : Entity) : Entity :=
  if e ∈ es then f e else { e with id := carryId es f room e.id, name := e.name ++ "+" }

variable {es f room}
variable (hsame : ∀ a ∈ es, ∀ b ∈ es, (f a).id = (f b).id ↔ a.id = b.id)
include hsame

/-- An entity of the list gets the identity that it is carried to. -/
theorem carryId_of_mem {e : Entity} (he : e ∈ es) : carryId es f room e.id = (f e).id := by
  unfold carryId
  split
  · rename_i e' hfind
    have hid : e'.id = e.id := by simpa using List.find?_some hfind
    exact (hsame e' (List.mem_of_find?_eq_some hfind) e he).2 hid
  · rename_i hfind
    exact absurd (List.find?_eq_none.1 hfind e he) (by simp)

theorem id_carry (e : Entity) : (carry es f room e).id = carryId es f room e.id := by
  unfold carry
  split
  · exact (carryId_of_mem hsame ‹_›).symm
  · rfl

variable (hbuiltin : ∀ e ∈ es, (f e).builtin? = e.builtin?)
include hbuiltin

omit hsame in
theorem carryId_eq_library_iff {id : Id} {b : Builtin} :
    carryId es f room id = .library b ↔ id = .library b := by
  unfold carryId
  split
  · rename_i e hfind
    have hid : e.id = id := by simpa using List.find?_some hfind
    rw [← builtin?_eq_some_iff, hbuiltin e (List.mem_of_find?_eq_some hfind),
      builtin?_eq_some_iff, hid]
  · cases id <;> simp [Id.shift]

/-- Identities stay apart: what makes room goes behind all that the replacement brings. -/
theorem carryId_injective (hroom : ∀ n, Id.user n ∈ es.map (fun e => (f e).id) → n < room) :
    Function.Injective (carryId es f room) := by
  -- an identity of the entities never meets one that makes room
  have happart : ∀ e ∈ es, ∀ id, (es.find? fun e => e.id = id) = none →
      (f e).id ≠ id.shift room := by
    intro e he id hfind heq
    cases id with
    | library b =>
      have hid : e.id = .library b := by
        rw [← builtin?_eq_some_iff, ← hbuiltin e he, builtin?_eq_some_iff]
        exact heq
      exact absurd (List.find?_eq_none.1 hfind e he) (by simp [hid])
    | user n =>
      have hlt := hroom (n + room) (List.mem_map.2 ⟨e, he, heq⟩)
      omega
  intro i j hij
  unfold carryId at hij
  cases hi : es.find? fun e => e.id = i with
  | some a =>
    have ha : a.id = i := by simpa using List.find?_some hi
    cases hj : es.find? fun e => e.id = j with
    | some b =>
      have hb : b.id = j := by simpa using List.find?_some hj
      rw [hi, hj] at hij
      rw [← ha, ← hb]
      exact (hsame a (List.mem_of_find?_eq_some hi) b (List.mem_of_find?_eq_some hj)).1 hij
    | none =>
      rw [hi, hj] at hij
      exact absurd hij (happart a (List.mem_of_find?_eq_some hi) j hj)
  | none =>
    cases hj : es.find? fun e => e.id = j with
    | some b =>
      rw [hi, hj] at hij
      exact absurd hij.symm (happart b (List.mem_of_find?_eq_some hj) i hi)
    | none =>
      rw [hi, hj] at hij
      exact Id.shift_injective room hij

/-- A replacement of some entities that keeps these apart agrees on them with one that keeps all
entities apart, and that leaves no other entity in place. -/
theorem exists_keepsIdentity :
    ∃ g : Entity → Entity, KeepsIdentity g ∧ (∀ e ∈ es, g e = f e) ∧ ∀ e ∉ es, g e ≠ e := by
  obtain ⟨room, hroom⟩ := exists_room (es.map fun e => (f e).id)
  refine ⟨carry es f room, ⟨fun a b => ?_, fun e => ?_⟩, fun e he => if_pos he, fun e he => ?_⟩
  · rw [id_carry hsame, id_carry hsame]
    exact (carryId_injective hsame hbuiltin hroom).eq_iff
  · refine Option.ext fun b => ?_
    rw [builtin?_eq_some_iff, builtin?_eq_some_iff, id_carry hsame,
      carryId_eq_library_iff hbuiltin]
  · rw [carry, if_neg he]
    intro heq
    have hname := congrArg (fun e : Entity => e.name.length) heq
    simp at hname

end

end Entity

namespace Tree

/-! ## The entities of a tree -/

/-- The entities of a tree, one for each reference to one. -/
def entities (t : Tree) : List Entity := t.parts.filterMap entity?

theorem mapEntitiesInAll_eq (f : Entity → Entity) (ts : List Tree) :
    mapEntitiesInAll f ts = ts.map (mapEntities f) :=
  eq_map_of_cons rfl (fun _ _ => rfl) ts

theorem isLeafwise_mapEntities (f : Entity → Entity) : IsLeafwise (mapEntities f) := by
  intro t kind fields h
  cases t <;> cases h <;> simp [mapEntities, node?, Fields.map, Field.map, mapEntitiesInAll_eq]

theorem partsOfAll_map {F : Tree → Tree} {ts : List Tree}
    (h : ∀ t ∈ ts, (F t).parts = t.parts.map F) :
    partsOfAll (ts.map F) = (partsOfAll ts).map F := by
  induction ts with
  | nil => rfl
  | cons t ts ih =>
    rw [List.forall_mem_cons] at h
    rw [List.map_cons, partsOfAll, partsOfAll, h.1, ih h.2, List.map_append]

/-- The parts of a tree with other entities are its parts with other entities. -/
theorem parts_mapEntities (f : Entity → Entity) : ∀ t : Tree,
    (t.mapEntities f).parts = t.parts.map (mapEntities f) := by
  refine part_induction ?_ ?_ ?_
  · intro t ht hlist
    cases t with
    | list items => exact absurd rfl (hlist items)
    | entity _ | literal _ | token _ | text _ | absent => rfl
    | _ => cases ht
  · intro items ih
    rw [mapEntities, parts, parts, mapEntitiesInAll_eq, List.map_cons, mapEntities,
      mapEntitiesInAll_eq, partsOfAll_map ih]
  · intro t kind fields ht ih
    have helements : ((fields.map (mapEntities f)).flatMap fun field => field.2.elements) =
        (fields.flatMap fun field => field.2.elements).map (mapEntities f) := by
      rw [Fields.map, List.flatMap_map, List.map_flatMap]
      refine congrArg (fun p => fields.flatMap p) (funext fun field => ?_)
      exact Field.elements_map _ field.2
    rw [parts_of_node? (isLeafwise_mapEntities f t kind fields ht), parts_of_node? ht, helements,
      List.map_cons, partsOfAll_map]
    intro u hu
    obtain ⟨field, hfield, hu⟩ := List.mem_flatMap.1 hu
    exact Field.all_iff.1 (ih field hfield) u hu

/-- The entities of a tree with other entities are these, in order. -/
theorem entities_mapEntities (f : Entity → Entity) (t : Tree) :
    (t.mapEntities f).entities = t.entities.map f := by
  have hentity : ∀ s : Tree, (s.mapEntities f).entity? = s.entity?.map f := by
    intro s
    cases s <;> rfl
  rw [entities, entities, parts_mapEntities, List.filterMap_map, List.map_filterMap]
  exact congrArg (fun p => t.parts.filterMap p) (funext hentity)

theorem entities_subset {t u : Tree} (hu : u ∈ t.parts) : u.entities ⊆ t.entities :=
  List.filterMap_subset entity? (parts_subset t hu)

/-- Only the entities of a tree matter to a replacement in it. -/
theorem mapEntities_congr {f g : Entity → Entity} : ∀ t : Tree,
    (∀ e ∈ t.entities, f e = g e) → t.mapEntities f = t.mapEntities g := by
  refine part_induction ?_ ?_ ?_
  · intro t ht hlist h
    cases t with
    | entity e => exact congrArg entity (h e (List.mem_singleton_self e))
    | list items => exact absurd rfl (hlist items)
    | literal _ | token _ | text _ | absent => rfl
    | _ => cases ht
  · intro items ih h
    rw [mapEntities, mapEntities, mapEntitiesInAll_eq, mapEntitiesInAll_eq]
    refine congrArg list (List.map_congr_left fun u hu => ih u hu fun e he => ?_)
    exact h e (entities_subset (mem_parts_of_mem hu) he)
  · intro t kind fields ht ih h
    have hfields : fields.map (mapEntities f) = fields.map (mapEntities g) := by
      refine Fields.map_congr fun field hfield => Field.all_iff.2 fun u hu => ?_
      have hpart := Field.all_iff.1 (mem_parts_of_node? ht hfield) u hu
      exact Field.all_iff.1 (ih field hfield) u hu fun e he => h e (entities_subset hpart he)
    exact node?_inj (isLeafwise_mapEntities f t kind fields ht)
      (hfields ▸ isLeafwise_mapEntities g t kind fields ht)

/-- Replacements of the entities of a tree differ in the tree exactly if they differ in one of these
entities. -/
theorem mapEntities_eq_iff {f g : Entity → Entity} {t : Tree} :
    t.mapEntities f = t.mapEntities g ↔ ∀ e ∈ t.entities, f e = g e := by
  refine ⟨fun h => ?_, mapEntities_congr t⟩
  have hentities := congrArg entities h
  rw [entities_mapEntities, entities_mapEntities] at hentities
  exact List.map_inj_left.1 hentities

/-- The pass brings in no entity. -/
theorem entities_optimize_subset (t : Tree) : t.optimize.entities ⊆ t.entities := by
  -- a replacement that leaves exactly the entities of the tree in place leaves the tree in place,
  -- and so it leaves the answer in place
  have hid : Entity.KeepsIdentity id := ⟨fun _ _ => Iff.rfl, fun _ => rfl⟩
  obtain ⟨g, hg, hstay, hmove⟩ : ∃ g : Entity → Entity, Entity.KeepsIdentity g ∧
      (∀ e ∈ t.entities, g e = id e) ∧ ∀ e ∉ t.entities, g e ≠ e :=
    Entity.exists_keepsIdentity (fun a _ b _ => hid.id_eq_iff a b) fun e _ => hid.builtin?_eq e
  have htree : t.mapEntities g = t.mapEntities id := mapEntities_eq_iff.2 hstay
  have hanswer : t.optimize.mapEntities g = t.optimize.mapEntities id := by
    rw [← optimize_mapEntities hg, htree, optimize_mapEntities hid]
  intro e he
  exact Classical.byContradiction fun hnew =>
    hmove e hnew (mapEntities_eq_iff.1 hanswer e he)

/-- A replacement of the entities of a tree: those of the library stay, every other one is replaced
by one that is not of the library, and references to one entity become references to one entity,
those to others to others. Nothing is asked of names, kinds, parameters and flags. -/
structure IsReplacedBy (t : Tree) (f : Entity → Entity) : Prop where
  library : ∀ e ∈ t.entities, e.isStandard → f e = e
  declared : ∀ e ∈ t.entities, ¬ e.isStandard → ¬ (f e).isStandard
  same_iff : ∀ a ∈ t.entities, ∀ b ∈ t.entities, (f a).id = (f b).id ↔ a.id = b.id

theorem IsReplacedBy.builtin?_eq {t : Tree} {f : Entity → Entity} (h : t.IsReplacedBy f) :
    ∀ e ∈ t.entities, (f e).builtin? = e.builtin? := by
  intro e he
  by_cases hstandard : e.isStandard
  · rw [h.library e he hstandard]
  · have hdeclared := h.declared e he hstandard
    rw [Entity.isStandard, Option.not_isSome_iff_eq_none] at hstandard hdeclared
    rw [hstandard, hdeclared]

/-- The pass answers a tree with other entities in it as it answers the tree, with the same entities
replaced, or refuses both for the same fault. A resolved program it never refuses, whatever takes
the place of its entities. -/
theorem optimize?_of_isReplacedBy {t : Tree} {f : Entity → Entity} (h : t.IsReplacedBy f) :
    (t.mapEntities f).optimize? = mapEntities f <$> t.optimize? ∧
      (t.IsProgram Naming.resolved →
        (t.mapEntities f).optimize? = .ok (t.optimize.mapEntities f)) := by
  obtain ⟨g, hg, hagree, -⟩ := Entity.exists_keepsIdentity h.same_iff h.builtin?_eq
  have htree : t.mapEntities f = t.mapEntities g :=
    mapEntities_eq_iff.2 fun e he => (hagree e he).symm
  have hanswer : t.optimize.mapEntities f = t.optimize.mapEntities g :=
    mapEntities_eq_iff.2 fun e he => (hagree e (entities_optimize_subset t he)).symm
  have heq : (t.mapEntities f).optimize? = mapEntities f <$> t.optimize? := by
    rw [htree, optimize?_mapEntities hg, optimize?]
    cases t.fault? with
    | some fault => rfl
    | none => exact congrArg Except.ok hanswer.symm
  refine ⟨heq, fun ht => ?_⟩
  rw [heq, optimize?_of_isProgram ht]
  rfl

/-- A function that is called on a number, as a library function is, and an assignment that turns
out to change nothing. -/
def masked : Tree :=
  let x := entity (Entity.declaredVariable 0 "x")
  let f := entity (Entity.declaredFunction 1 "f" 1)
  let p := entity (Entity.parameter 2 "p")
  program [
    variableDeclaration x (number .one),
    functionDeclaration f [p] p,
    assignment x (binary "+" x (number .zero)),
    print (call f [number .one]),
    print (call (entity Builtin.sqrt.entity) [number .one])]

/-- The function takes the name of a library function, and the variable and the parameter change
their places. -/
def mask (e : Entity) : Entity :=
  if e.id = .user 0 then ⟨.user 2, "π", .variable, true⟩
  else if e.id = .user 1 then ⟨.user 7, "sqrt", .function 1, false⟩
  else if e.id = .user 2 then ⟨.user 0, "sin", .variable, false⟩
  else e

theorem optimize?_mask :
    masked.IsReplacedBy mask ∧
      (masked.mapEntities mask).optimize? = .ok (masked.optimize.mapEntities mask) ∧
      (masked.optimize.mapEntities mask).entities.map Entity.name =
        ["π", "sqrt", "sin", "sin", "sqrt"] := by
  have h : masked.IsReplacedBy mask := ⟨by decide, by decide, by decide⟩
  have hx : (Entity.declaredVariable 0 "x").IsGenuine := Entity.isGenuine_of_builtin?_eq_none rfl
  have hf : (Entity.declaredFunction 1 "f" 1).IsGenuine := Entity.isGenuine_of_builtin?_eq_none rfl
  have hp : (Entity.parameter 2 "p").IsGenuine := Entity.isGenuine_of_builtin?_eq_none rfl
  have hprogram : masked.IsProgram Naming.resolved :=
    ⟨⟨⟨rfl, rfl, rfl⟩, trivial⟩,
      ⟨⟨rfl, rfl, rfl⟩, List.forall_mem_singleton.2 ⟨rfl, rfl, rfl⟩, rfl, hp⟩,
      ⟨⟨rfl, rfl, rfl⟩, ⟨rfl, hx⟩, trivial⟩,
      ⟨⟨rfl, hf⟩, trivial, trivial⟩,
      ⟨⟨rfl, Builtin.isGenuine_entity .sqrt⟩, trivial, trivial⟩, trivial⟩
  exact ⟨h, (optimize?_of_isReplacedBy h).2 hprogram, by decide⟩

end Tree
end Quill
