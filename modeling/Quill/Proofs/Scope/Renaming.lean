import Mathlib.Logic.Equiv.Basic
import Quill.Proofs.Optimize.Replacement
import Quill.Proofs.Session.Safety

/-!
# Resolution looks at names only to compare them

Where the names of a program are replaced by others, and different names stay different, resolution
makes the same replacements in its answer. Only the library has names of its own: a replacement must
leave these in place. What is read, bound and shadowed is then the same on both sides, and so is the
first name that breaks a rule.

## Main definitions

* `Entity.rename` — an entity under another name.
* `FixesLibrary` — replacements that leave the names of the library in place.
* `Violation.IsRenamed` — violations that say the same about different names.
-/

namespace Quill

/-- The same entity under another name. -/
def Entity.rename (f : String → String) (e : Entity) : Entity := { e with name := f e.name }

/-- The names of the library stay what they are. -/
def FixesLibrary (f : String → String) : Prop := ∀ b : Builtin, f b.name = b.name

/-- Other names, and the same identities. -/
def Relabeling.names (f : String → String) (hf : f.Injective) : Relabeling := ⟨f, hf, id⟩

variable {f : String → String}

/-- The scope around every program holds the names of the library and no others. -/
theorem Declarations.relabel_initial (hf : f.Injective) (hlibrary : FixesLibrary f) :
    initial.relabel (.names f hf) 0 = initial := by
  have hentry (b : Builtin) : ((Relabeling.names f hf).name b.name,
      b.entity.relabel (.names f hf)) = (b.name, b.entity) := by
    simp [Entity.relabel, Relabeling.names, Builtin.entity, hlibrary b]
  simp [initial, relabel, Scope.relabel, Scope.root, Frame.relabel, Library.entries, hentry]

/-- Resolution answers a program with other names as it answers the program, with other names. -/
theorem Tree.runAlike_resolve (hf : f.Injective) (hlibrary : FixesLibrary f) (p : Tree) :
    RunAlike f (mapEntities (Entity.rename f)) p.resolve (p.rename f).resolve := by
  have hprogram := resolveProgram_relabel (ρ := .names f hf) (m := 0) (fun _ => rfl) p .initial
  rw [Declarations.relabel_initial hf hlibrary] at hprogram
  exact hprogram.map fun _ => rfl

/-! ## What a violation says -/

namespace Violation

/-- The name that a cause is about. -/
def Cause.name? : Cause → Option String
  | alreadyDeclared name | notDeclared name | notAFunction name | readOnly name => some name
  | functionAsValue | arity _ _ => none

/-- The same violation at the same place, worded alike about another name. -/
structure IsRenamed (f : String → String) (v w : Violation) : Prop where
  kind_eq : w.cause.kind = v.cause.kind
  span_eq : w.span = v.span
  message_of_name : ∀ name, v.cause.name? = some name →
    ∃ before behind, v.cause.message = before ++ name ++ behind ∧
      w.cause.message = before ++ f name ++ behind
  message_of_none : v.cause.name? = none → w.cause.message = v.cause.message

theorem isRenamed_rename (f : String → String) (v : Violation) : v.IsRenamed f (v.rename f) := by
  obtain ⟨cause, span⟩ := v
  constructor
  · cases cause <;> rfl
  · rfl
  · intro name hname
    cases cause with
    | alreadyDeclared | notDeclared =>
      obtain rfl := Option.some.inj hname
      exact ⟨"Identifier ", _, rfl, rfl⟩
    | notAFunction | readOnly =>
      obtain rfl := Option.some.inj hname
      exact ⟨"", _, rfl, rfl⟩
    | functionAsValue | arity => cases hname
  · intro hname
    cases cause with
    | functionAsValue | arity => rfl
    | _ => cases hname

end Violation

namespace Tree

theorem keepsIdentity_rename (f : String → String) : Entity.KeepsIdentity (Entity.rename f) :=
  ⟨fun _ _ => Iff.rfl, fun _ => rfl⟩

/-- Other names, different where the names are and the library's own where these stand, change
neither whether resolution succeeds nor what it answers but for the names: the same entities with
the same identities, which the pass rewrites alike, or the same violation at the same place. -/
theorem resolve_rename {f : String → String} (hf : f.Injective) (hlibrary : FixesLibrary f)
    {p : Tree} (hp : p.IsProgram Naming.raw) :
    ((∃ r, (p.rename f).resolve = .ok r) ↔ ∃ r, p.resolve = .ok r) ∧
      (∀ r, p.resolve = .ok r →
        (p.rename f).resolve = .ok (r.mapEntities (Entity.rename f)) ∧
          r.optimize? = .ok r.optimize ∧
          (r.mapEntities (Entity.rename f)).optimize? =
            .ok (r.optimize.mapEntities (Entity.rename f))) ∧
      ∀ e, p.resolve = .error e → ∃ v, e = .violation v ∧
        (p.rename f).resolve = .error (.violation (v.rename f)) ∧
          v.IsRenamed f (v.rename f) := by
  have halike := runAlike_resolve hf hlibrary p
  rcases resolveProgram_cases hp Declarations.areOutermost_initial with ⟨v, h⟩ | ⟨r, d, h, hr, -⟩
  · have hp : p.resolve = .error (.violation v) := by rw [resolve, h]; rfl
    have hrename : (p.rename f).resolve = .error (.violation (v.rename f)) := by
      rw [halike, hp]
      rfl
    refine ⟨by simp [hp, hrename], by simp [hp], ?_⟩
    rintro e he
    rw [hp] at he
    exact ⟨v, (Except.error.inj he).symm, hrename, v.isRenamed_rename f⟩
  · have hp : p.resolve = .ok r := by rw [resolve, h]; rfl
    have hrename : (p.rename f).resolve = .ok (r.mapEntities (Entity.rename f)) := by
      rw [halike, hp]
      rfl
    refine ⟨by simp [hp, hrename], ?_, by simp [hp]⟩
    intro r' hr'
    obtain rfl := Except.ok.inj (hp.symm.trans hr')
    refine ⟨hrename, optimize?_of_isProgram hr, ?_⟩
    rw [optimize?_mapEntities (keepsIdentity_rename f), optimize?_of_isProgram hr]
    rfl

/-- A function with a parameter named as one of the library, and a global variable in its body. -/
def shadowedSine : Tree :=
  let name (x : String) := token ⟨x, none⟩
  program [
    variableDeclaration (name "x") (number .one),
    functionDeclaration (name "g") [name "sin"] (binary "+" (name "sin") (name "x")),
    print (call (name "g") [name "π"])]

theorem resolve_rename_shadowedSine :
    Function.Injective (Equiv.swap "x" "g") ∧ FixesLibrary (Equiv.swap "x" "g") ∧
      shadowedSine.IsProgram Naming.raw ∧
      ∃ r, shadowedSine.resolve = .ok r ∧
        (shadowedSine.rename (Equiv.swap "x" "g")).resolve =
          .ok (r.mapEntities (Entity.rename (Equiv.swap "x" "g"))) := by
  have hlibrary : FixesLibrary (Equiv.swap "x" "g") := by
    intro b
    cases b <;> decide
  have hraw : shadowedSine.IsProgram Naming.raw := by
    simp [shadowedSine, IsProgram, AreStatements, IsStatement, IsExpression, AreExpressions,
      Naming.raw, IsToken]
  obtain ⟨-, hok, -⟩ := resolve_rename (Equiv.swap "x" "g").injective hlibrary hraw
  exact ⟨(Equiv.swap "x" "g").injective, hlibrary, hraw, _, rfl, (hok _ rfl).1⟩

end Tree
end Quill
