import Quill.Library

/-!
# Scopes

A scope is a chain of frames, each binding names to entities in the order of their declaration. A
name denotes the entity of the innermost frame that binds it, and may be declared once per frame.

## Main definitions

* `Frame`, `Scope` — bindings, and a chain of them.
* `Scope.lookup?`, `Scope.declares`, `Scope.bind` — the operations on the chain.
* `Scope.root` — the standard library.
* `Scope.userBindings` — what programs have declared, innermost first.
-/

namespace Quill

/-- The bindings of one frame, oldest first. -/
abbrev Frame := List (String × Entity)

/-- A frame and the frames around it, innermost first. -/
structure Scope where
  frame : Frame
  outer : List Frame
deriving DecidableEq

namespace Scope

/-- All frames, innermost first. -/
def frames (s : Scope) : List Frame := s.frame :: s.outer

/-- What a name denotes. -/
def lookup? (s : Scope) (name : String) : Option Entity :=
  s.frames.findSome? fun frame => frame.lookup name

/-- Does the innermost frame bind the name? The frames around it do not count. -/
def declares (s : Scope) (name : String) : Bool := (s.frame.lookup name).isSome

/-- Binds a name in the innermost frame. -/
def bind (s : Scope) (name : String) (entity : Entity) : Scope :=
  ⟨s.frame ++ [(name, entity)], s.outer⟩

/-- Opens an empty frame inside the scope. -/
def enter (s : Scope) : Scope := ⟨[], s.frames⟩

/-- The scope around every program. -/
def root : Scope := ⟨Library.entries, []⟩

/-- The first binding of each name, without those to library entities. -/
def firstBindings : Frame → Frame → Frame
  | found, [] => found
  | found, (name, entity) :: bindings =>
    if (found.lookup name).isSome || entity.isStandard then firstBindings found bindings
    else firstBindings (found ++ [(name, entity)]) bindings

/-- What programs have declared, innermost frame first. -/
def userBindings (s : Scope) : Frame := firstBindings [] s.frames.flatten

@[simp] theorem frames_bind (s : Scope) (name : String) (entity : Entity) :
    (s.bind name entity).frames = (s.frame ++ [(name, entity)]) :: s.outer := rfl

@[simp] theorem frames_enter (s : Scope) : s.enter.frames = [] :: s.frames := rfl

@[simp] theorem lookup?_enter (s : Scope) (name : String) :
    s.enter.lookup? name = s.lookup? name := by
  simp only [lookup?, frames_enter]
  rfl

private theorem lookup_append_singleton (frame : Frame) (name other : String) (entity : Entity) :
    (frame ++ [(name, entity)]).lookup other =
      (frame.lookup other).or (if other = name then some entity else none) := by
  rw [List.lookup_append]
  by_cases h : other = name
  · simp [h]
  · have : (other == name) = false := by simpa using h
    simp [List.lookup_cons, h, this]

/-- A newly declared name denotes the entity bound to it, and no other name changes. -/
theorem lookup?_bind {s : Scope} {name : String} (h : s.declares name = false) (entity : Entity)
    (other : String) :
    (s.bind name entity).lookup? other = if other = name then some entity else s.lookup? other := by
  have hnone : s.frame.lookup name = none := by simpa [declares] using h
  rw [lookup?, frames_bind, lookup?, frames, List.findSome?_cons, List.findSome?_cons,
    lookup_append_singleton]
  by_cases hn : other = name
  · subst hn
    simp [hnone]
  · cases s.frame.lookup other <;> simp [hn]

theorem declares_bind (s : Scope) (name : String) (entity : Entity) (other : String) :
    (s.bind name entity).declares other = (s.declares other || other == name) := by
  simp only [declares, bind, lookup_append_singleton]
  by_cases hn : other = name <;> cases s.frame.lookup other <;> simp [hn]

end Scope
end Quill
