import Quill.Entity
import Quill.Number.Outcome

/-!
# The standard library

Eight names are declared before any program: the variable π and seven functions. Six of the
functions are computed on numbers; `random` is not, and neither is a user's function of the same
name, since the functions are known by their identity.

## Main definitions

* `Builtin.entity` — the entity of a library name.
* `Library.entries` — all names in order.
* `Builtin.outcome? b args`, `Builtin.value? b args` — the outcome and the value of an intrinsic
  function.
* `Library.signatures` — the signatures shown to the user.
-/

namespace Quill

namespace Builtin

/-- The name of a library entity. -/
def name : Builtin → String
  | pi => "π"
  | sqrt => "sqrt"
  | sin => "sin"
  | cos => "cos"
  | exp => "exp"
  | ln => "ln"
  | hypot => "hypot"
  | random => "random"

/-- What a library name denotes. -/
def kind : Builtin → Entity.Kind
  | pi => .variable
  | random => .function 0
  | hypot => .function 2
  | sqrt | sin | cos | exp | ln => .function 1

/-- The entity of a library name; none may be assigned. -/
def entity (b : Builtin) : Entity := ⟨.library b, b.name, b.kind, true⟩

/-- The library names in order. -/
def all : List Builtin := [pi, sqrt, sin, cos, exp, ln, hypot, random]

/-- Is the function computed on numbers? -/
def isIntrinsic : Builtin → Bool
  | pi | random => false
  | sqrt | sin | cos | exp | ln | hypot => true

section Values

variable [Arithmetic]

/-- What comes of an intrinsic function. The Euclidean norm takes any number of coordinates, the
other functions one argument. -/
def outcome? : Builtin → List Number → Option Outcome
  | sqrt, [x] => some (Arithmetic.sqrt x)
  | sin, [x] => some (Arithmetic.sin x)
  | cos, [x] => some (Arithmetic.cos x)
  | exp, [x] => some (Arithmetic.exp x)
  | ln, [x] => some (Arithmetic.ln x)
  | hypot, xs => some (Arithmetic.hypot xs)
  | _, _ => none

/-- The value of an intrinsic function. -/
def value? (b : Builtin) (xs : List Number) : Option Number := (b.outcome? xs).map Outcome.number

end Values

theorem mem_all (b : Builtin) : b ∈ all := by cases b <;> decide

@[simp] theorem builtin?_entity (b : Builtin) : b.entity.builtin? = some b := rfl

end Builtin

namespace Library

/-- The library names with their entities, in order. -/
def entries : List (String × Entity) := Builtin.all.map fun b => (b.name, b.entity)

/-- The library entity of a name. -/
def lookup? (name : String) : Option Entity := entries.lookup name

/-- How an entity may be used. -/
def signature (e : Entity) : String :=
  match e.kind with
  | .variable => "Num (read only)"
  | .function paramCount =>
    "(" ++ String.intercalate ", " (List.replicate paramCount.toNat "Num") ++ ") -> Num"

/-- The signatures of the library names, in order. -/
def signatures : List (String × String) := entries.map fun (name, e) => (name, signature e)

end Library
end Quill
