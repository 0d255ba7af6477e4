import Quill.Span

/-!
# Violations of the scoping rules

A program is rejected at the first rule it breaks. A violation names its cause and the token it was
found at; the wording is a function of the cause.

## Main definitions

* `Violation.Kind` — the five kinds of violation.
* `Violation.Cause` — the cause, with `Cause.kind` and `Cause.message`.
* `Violation` — a cause at a place.
-/

namespace Quill

namespace Violation

/-- The kinds of violation. -/
inductive Kind where
  | alreadyDeclared
  | notDeclared
  | wrongEntityKind
  | readOnlyViolation
  | arityMismatch
deriving DecidableEq

/-- The name of a kind in reports. -/
def Kind.name : Kind → String
  | alreadyDeclared => "AlreadyDeclared"
  | notDeclared => "NotDeclared"
  | wrongEntityKind => "WrongEntityKind"
  | readOnlyViolation => "ReadOnlyViolation"
  | arityMismatch => "ArityMismatch"

/-- Why a token is rejected. -/
inductive Cause where
  /-- The name is declared twice in one frame. -/
  | alreadyDeclared (name : String)
  /-- The name is declared in no frame. -/
  | notDeclared (name : String)
  /-- A function stands where a value is needed. -/
  | functionAsValue
  /-- A variable stands where a function is called. -/
  | notAFunction (name : String)
  /-- The target of an assignment may not be assigned. -/
  | readOnly (name : String)
  /-- A call passes a wrong number of arguments. -/
  | arity (required : Int) (passed : Nat)
deriving DecidableEq

/-- The kind a cause belongs to. -/
def Cause.kind : Cause → Kind
  | alreadyDeclared _ => .alreadyDeclared
  | notDeclared _ => .notDeclared
  | functionAsValue | notAFunction _ => .wrongEntityKind
  | readOnly _ => .readOnlyViolation
  | arity _ _ => .arityMismatch

/-- The wording of a cause. -/
def Cause.message : Cause → String
  | alreadyDeclared name => s!"Identifier {name} already declared"
  | notDeclared name => s!"Identifier {name} not declared"
  | functionAsValue => "Functions can not appear here"
  | notAFunction name => s!"{name} is not a function"
  | readOnly name => s!"{name} is read only"
  | arity required passed => s!"{required} argument(s) required but {passed} passed"

end Violation

/-- A broken rule and the place of the token that breaks it. -/
structure Violation where
  cause : Violation.Cause
  span : Option Span
deriving DecidableEq

end Quill
