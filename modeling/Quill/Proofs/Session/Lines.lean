import Quill.Repl
import Quill.Proofs.Session.Depth

/-!
# The interactive mode line by line

What the interactive mode prints is what it prints for each line, and what it prints for a line
depends on the lines before only through the state behind them. Only a line that is resolved changes
the state.

## Main definitions

* `Repl.behind` — the state behind input lines.
* `Repl.answers` — what is printed for each of them.
-/

namespace Quill.Repl

/-- The state behind input lines, if none of them ends the mode. -/
def behind (r : Repl) : List String → Option Repl
  | [] => some r
  | line :: rest => (r.step line).2.bind fun r => r.behind rest

/-- What is printed for each input line, up to one that ends the mode. -/
def answers (r : Repl) : List String → List (List String)
  | [] => []
  | line :: rest => (r.step line).1 :: ((r.step line).2.map fun r => r.answers rest).getD []

/-- Does no line end the mode? -/
def StaysOpen (lines : List String) : Prop := ∀ line ∈ lines, Command.ofLine line ≠ .exit

variable {r r' : Repl} {line : String} {lines rest : List String}

/-- Every line but the one that ends a session is answered, and the session goes on. -/
theorem exists_step (h : Command.ofLine line ≠ .exit) (r : Repl) :
    ∃ printed r', r.step line = (printed, some r') := by
  simp only [step]
  cases hc : Command.ofLine line with
  | exit => exact (h hc).elim
  | nothing | help | showBindings | compile _ _ => exact ⟨_, _, rfl⟩

/-- A line that is compiled leaves the declarations that it advances behind. -/
theorem step_compile_snd {stage : Stage} {source : String}
    (h : Command.ofLine line = .compile stage source) (r : Repl) :
    (r.step line).2 = some { r with
      declarations := (r.stack.graphAt r.declarations stage Session.filename source).2 } := by
  simp only [step, h, compileLine]
  rcases r.stack.graphAt r.declarations stage Session.filename source with ⟨_ | _, _⟩ <;> rfl

/-- A line changes the state only by the declarations that it resolves to. -/
theorem step_cases (h : (r.step line).2 = some r') :
    r' = r ∨ ∃ stage source t d, Command.ofLine line = .compile stage source ∧ stage ≠ .parsed ∧
      r.stack.compileAt r.declarations .analyzed Session.filename source = .ok (t, d) ∧
      r' = { r with declarations := d } := by
  cases hc : Command.ofLine line with
  | exit => simp [step, hc] at h
  | nothing | help | showBindings =>
    simp only [step, hc, Option.some.injEq] at h
    exact .inl h.symm
  | compile stage source =>
    rw [step_compile_snd hc, Option.some.injEq] at h
    rcases r.stack.graphAt_snd r.declarations stage Session.filename source with
      hsame | ⟨hstage, t, hresolved⟩
    · rw [hsame] at h
      exact .inl h.symm
    · exact .inr ⟨stage, source, t, _, rfl, hstage, hresolved, h.symm⟩

theorem behind_cons (h : (r.step line).2 = some r') (rest : List String) :
    r.behind (line :: rest) = r'.behind rest := by
  rw [behind, h]
  rfl

theorem answers_cons (h : (r.step line).2 = some r') (rest : List String) :
    r.answers (line :: rest) = (r.step line).1 :: r'.answers rest := by
  rw [answers, h]
  rfl

theorem behind_append (h : r.behind lines = some r') (rest : List String) :
    r.behind (lines ++ rest) = r'.behind rest := by
  induction lines generalizing r with
  | nil =>
    obtain rfl := Option.some.inj h
    rfl
  | cons line lines ih =>
    obtain ⟨next, hstep, hbehind⟩ := Option.bind_eq_some_iff.1 h
    rw [List.cons_append, behind_cons hstep, ih hbehind]

/-- Lines behind others are answered by the session behind those. -/
theorem answers_append (h : r.behind lines = some r') (rest : List String) :
    r.answers (lines ++ rest) = r.answers lines ++ r'.answers rest := by
  induction lines generalizing r with
  | nil =>
    obtain rfl := Option.some.inj h
    rfl
  | cons line lines ih =>
    obtain ⟨next, hstep, hbehind⟩ := Option.bind_eq_some_iff.1 h
    rw [List.cons_append, answers_cons hstep, answers_cons hstep, ih hbehind, List.cons_append]

theorem length_answers (h : r.behind lines = some r') :
    (r.answers lines).length = lines.length := by
  induction lines generalizing r with
  | nil => rfl
  | cons line lines ih =>
    obtain ⟨next, hstep, hbehind⟩ := Option.bind_eq_some_iff.1 h
    rw [answers_cons hstep, List.length_cons, List.length_cons, ih hbehind]

/-- Without `exit` there is a state behind the lines. -/
theorem exists_behind (h : StaysOpen lines) (r : Repl) : ∃ r', r.behind lines = some r' := by
  induction lines generalizing r with
  | nil => exact ⟨r, rfl⟩
  | cons line lines ih =>
    obtain ⟨hline, hrest⟩ := List.forall_mem_cons.1 h
    obtain ⟨printed, next, hstep⟩ := exists_step hline r
    obtain ⟨r', hr'⟩ := ih hrest next
    exact ⟨r', by rw [behind_cons (congrArg Prod.snd hstep), hr']⟩

/-- Without `exit` the answers are printed one after another, and the farewell behind them. -/
theorem continueWith_eq (h : r.behind lines = some r') :
    r.continueWith lines = (r.answers lines).flatten ++ farewell := by
  induction lines generalizing r with
  | nil => rfl
  | cons line lines ih =>
    obtain ⟨next, hstep, hbehind⟩ := Option.bind_eq_some_iff.1 h
    have hpair : r.step line = ((r.step line).1, some next) := Prod.ext rfl hstep
    rw [answers_cons hstep, continueWith, hpair]
    simp only [ih hbehind, List.flatten_cons, List.append_assoc]

/-- Without `exit` everything is printed between the banner and the farewell. -/
theorem run_eq {debug : Bool} (h : (initial debug).behind lines = some r) :
    run debug lines = banner debug ++ (((initial debug).answers lines).flatten ++ farewell) := by
  exact congrArg (banner debug ++ ·) (continueWith_eq h)

/-- What holds at first and is kept by every line holds behind all lines. -/
theorem invariant_behind {I : Repl → Prop}
    (hstep : ∀ r line r', I r → (r.step line).2 = some r' → I r') (hr : I r)
    (h : r.behind lines = some r') : I r' := by
  induction lines generalizing r with
  | nil =>
    obtain rfl := Option.some.inj h
    exact hr
  | cons line lines ih =>
    obtain ⟨next, hnext, hbehind⟩ := Option.bind_eq_some_iff.1 h
    exact ih (hstep r line next hr hnext) hbehind

end Quill.Repl
