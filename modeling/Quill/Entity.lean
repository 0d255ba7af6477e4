/-!
# Entities

An entity is what a name denotes. It is created once, by its declaration or by the standard library,
and every use refers to the same entity; two entities are the same exactly when their identities
are, whatever their names.

## Main definitions

* `Builtin` — the eight names of the standard library.
* `Entity.Id` — the identity of an entity.
* `Entity` — a variable or a function.
-/

namespace Quill

/-- The entities of the standard library. -/
inductive Builtin where
  | pi | sqrt | sin | cos | exp | ln | hypot | random
deriving DecidableEq

/-- Identities: those of the library, and numbered ones for everything declared. -/
inductive Entity.Id where
  | library (builtin : Builtin)
  | user (index : Nat)
deriving DecidableEq

/-- Variables hold values, functions take a fixed number of arguments. Hand-made functions may claim
any integer. -/
inductive Entity.Kind where
  | variable
  | function (paramCount : Int)
deriving DecidableEq

/-- What a name denotes. -/
structure Entity where
  id : Entity.Id
  name : String
  kind : Entity.Kind
  readOnly : Bool
deriving DecidableEq

namespace Entity

/-- Is the entity a variable? -/
def isVariable (e : Entity) : Bool :=
  match e.kind with
  | .variable => true
  | .function _ => false

/-- The number of parameters of a function. -/
def paramCount? (e : Entity) : Option Int :=
  match e.kind with
  | .variable => none
  | .function paramCount => some paramCount

/-- A variable declared by `let`, which may be assigned. -/
def declaredVariable (index : Nat) (name : String) : Entity := ⟨.user index, name, .variable, false⟩

/-- A parameter of a function, which may not. -/
def parameter (index : Nat) (name : String) : Entity := ⟨.user index, name, .variable, true⟩

/-- A function declared with the given number of parameters. -/
def declaredFunction (index : Nat) (name : String) (paramCount : Nat) : Entity :=
  ⟨.user index, name, .function paramCount, true⟩

/-- The library entity with this identity, if it has one. -/
def builtin? (e : Entity) : Option Builtin :=
  match e.id with
  | .library builtin => some builtin
  | .user _ => none

/-- Does the entity belong to the standard library? -/
def isStandard (e : Entity) : Bool := e.builtin?.isSome

end Entity
end Quill
