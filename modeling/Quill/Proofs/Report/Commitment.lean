import Quill.Proofs.Grammar.Sequence
import Quill.Proofs.Report.ParseError

/-!
# Errors behind what is committed

Reading comes to one statement behind the other, and into the blocks of loops. What has been read as
a complete statement stays read, and a keyword commits to its statement: an error lies behind both.
Behind the last complete statement of the text the error lies exactly where reading goes on, unless
a keyword begins a statement there.

## Main definitions

* `Cursor.Precedes d result` — whatever the result is, it lies behind `d`.
* `Cursor.Visits` — the places where a statement is looked for.
* `Cursor.RunsOut` — the place behind all statements that are complete.
-/

namespace Quill

open Text Quill.Tree

namespace Cursor

variable {filename : String} {α β : Type} {b c d e : Cursor}

/-! ## Results behind a place -/

/-- What is read ends behind the place, or fails there. -/
def Precedes (d : Cursor) : Except Failure (α × Cursor) → Prop
  | .ok (_, e) => d.LeadsTo e
  | .error f => d.LeadsTo f.cursor

theorem precedes_of_reading {leaves : α → List Tree} {x : Except Failure (α × Cursor)}
    (h : Reading filename leaves d x) : d.Precedes x := by
  cases h with
  | ok h => exact h.leadsTo
  | error h _ => exact h

theorem LeadsTo.precedes {x : Except Failure (α × Cursor)} (hde : d.LeadsTo e) (h : e.Precedes x) :
    d.Precedes x := by
  cases x with
  | error f => exact hde.trans h
  | ok r => exact hde.trans h

/-- A result that is only put together with others ends or fails at the same place. -/
theorem Precedes.map {x : Except Failure (α × Cursor)} (h : d.Precedes x) (g : α → β) :
    d.Precedes ((fun r => (g r.1, r.2)) <$> x) := by
  cases x with
  | error f => exact h
  | ok r => exact h

/-- What is read behind a first part ends behind it, or fails there. -/
theorem Precedes.bind {x : Except Failure (α × Cursor)}
    {k : α × Cursor → Except Failure (β × Cursor)} (h : d.Precedes x)
    (hk : ∀ a e, d.LeadsTo e → d.Precedes (k (a, e))) : d.Precedes (x >>= k) := by
  cases x with
  | error f => exact h
  | ok r => exact hk r.1 r.2 h

/-- What is read behind an expected symbol ends behind the place, or fails there. -/
theorem Precedes.symbol {s : String} {k : Cursor → Except Failure (β × Cursor)} (hde : d.LeadsTo e)
    (hk : ∀ b, d.LeadsTo b → d.Precedes (k b)) : d.Precedes (expectSymbol s e >>= k) := by
  unfold expectSymbol
  cases h : e.symbol? s with
  | some b => exact hk b (hde.trans (leadsTo_of_symbol? h))
  | none => exact hde.trans e.leadsTo_skip

/-! ## Places where statements are looked for -/

/-- Where statements are read from a place on, a statement is looked for at the other place: behind
complete statements, or behind the brace of a loop. -/
inductive Visits (filename : String) : Cursor → Cursor → Prop
  | here (c : Cursor) : Visits filename c c
  | behind {c b d : Cursor} {s : Tree} (hs : nextStatement filename c = .ok (some s, b))
    (h : Visits filename b d) : Visits filename c d
  | inside {c c₁ c₂ c₃ d : Cursor} {test : Tree} (hwhile : c.skip.keyword? "while" = some c₁)
    (htest : readExpression filename c₁ = .ok (test, c₂)) (hopen : c₂.symbol? "\x7b" = some c₃)
    (h : Visits filename c₃ d) : Visits filename c d

/-- The other place is behind all complete statements that stand here one behind the other. -/
inductive RunsOut (filename : String) : Cursor → Cursor → Prop
  | stop {c : Cursor} (h : ∀ s d, nextStatement filename c ≠ .ok (some s, d)) :
    RunsOut filename c c
  | behind {c b d : Cursor} {s : Tree} (hs : nextStatement filename c = .ok (some s, b))
    (h : RunsOut filename b d) : RunsOut filename c d

theorem RunsOut.visits (h : RunsOut filename c d) : Visits filename c d := by
  induction h with
  | stop _ => exact .here _
  | behind hs _ ih => exact .behind hs ih

/-- From every place statements are read up to where none begins. -/
theorem exists_runsOut (filename : String) (c : Cursor) : ∃ d, RunsOut filename c d := by
  induction hn : c.ahead.length using Nat.strongRecOn generalizing c with
  | ind n ih =>
    by_cases h : ∃ s b, nextStatement filename c = .ok (some s, b)
    · obtain ⟨s, b, hs⟩ := h
      have hlt := (isStatementReader_nextStatement filename).length_lt hs
      obtain ⟨d, hd⟩ := ih _ (hn ▸ hlt) b rfl
      exact ⟨d, .behind hs hd⟩
    · exact ⟨c, .stop fun s b hs => h ⟨s, b, hs⟩⟩

/-! ## Statements behind a place -/

/-- Where a statement begins, what lies behind it is decided there. -/
theorem Precedes.readStatements (h : d.Precedes (nextStatement filename c))
    (hsome : ∀ e, nextStatement filename c ≠ .ok (none, e)) :
    d.Precedes (readStatements filename c) := by
  rw [readStatements_eq]
  cases hs : nextStatement filename c with
  | error f => rwa [hs] at h
  | ok r =>
    obtain ⟨s?, e⟩ := r
    cases s? with
    | none => exact absurd hs (hsome e)
    | some s =>
      rw [hs] at h
      have hrest := precedes_of_reading (follows_readStatements filename e)
      exact (LeadsTo.precedes h hrest).map (s :: ·)

/-- What is decided at a place where a statement is looked for is decided for all that is read. -/
theorem Visits.precedes (h : Visits filename c d) (hd : b.Precedes (readStatements filename d)) :
    b.Precedes (readStatements filename c) := by
  induction h with
  | here _ => exact hd
  | behind hs _ ih =>
    rw [readStatements_of_some hs]
    exact (ih hd).map _
  | @inside c c₁ c₂ c₃ d test hwhile htest hopen _ ih =>
    refine Precedes.readStatements ?_ ?_
    · rw [nextStatement_block hwhile htest hopen]
      exact (ih hd).bind fun body c₄ h₄ => .symbol h₄ fun c₅ h₅ => h₅
    · intro e he
      obtain ⟨read, -, hread⟩ := nextStatement_of_keyword (by decide) hwhile
      rw [hread] at he
      obtain ⟨_, -, he⟩ := bind_eq_ok_iff.1 he
      cases he

/-- Behind the keyword of a statement, the statement is read or fails. -/
theorem precedes_of_keyword {k : String} (hk : k ∈ Report.statementKeywords)
    (h : c.skip.keyword? k = some d) : d.Precedes (readStatements filename c) := by
  obtain ⟨read, hfollows, hread⟩ := nextStatement_of_keyword hk h
  refine Precedes.readStatements ?_ ?_
  · rw [hread]
    exact precedes_of_reading (follows_readCommitted hfollows d)
  · intro e he
    rw [hread] at he
    obtain ⟨_, -, he⟩ := bind_eq_ok_iff.1 he
    cases he

/-- Behind the last complete statement, reading stops where no keyword stands. -/
theorem RunsOut.readStatements_eq_ok (h : RunsOut filename c d)
    (hnone : ∀ k ∈ Report.statementKeywords, d.skip.keyword? k = none) :
    ∃ ss, readStatements filename c = .ok (ss, d) := by
  induction h with
  | @stop c hstop =>
    have hnext : nextStatement filename c = _ := nextStatement_of_noKeyword hnone
    split at hnext
    · exact absurd hnext (hstop _ _)
    · exact ⟨[], readStatements_of_none hnext⟩
  | behind hs _ ih =>
    obtain ⟨ss, hss⟩ := ih hnone
    rw [readStatements_of_some hs, hss]
    exact ⟨_, rfl⟩

end Cursor

/-! ## Whole texts -/

namespace Tree

theorem cursor_of_expectEnd {c : Cursor} {f : Failure} (h : expectEnd c = .error f) :
    f.cursor = c.skip := by
  unfold expectEnd at h
  split at h
  · cases h
  · rw [← Except.error.inj h]

/-- What is decided where statements are read from the start of a text is decided for the text. -/
theorem leadsTo_of_ofProgram {filename : String} {cs : List Char} {f : Failure} {d : Cursor}
    (h : ofProgram filename cs = .error f)
    (hd : d.Precedes (readStatements filename (.start (expandTabs cs)))) : d.LeadsTo f.cursor := by
  obtain hread | ⟨⟨ss, e⟩, hread, h⟩ := bind_eq_error_iff.1 h
  · rwa [hread] at hd
  · rw [hread] at hd
    obtain hend | ⟨_, -, h⟩ := bind_eq_error_iff.1 h
    · rw [cursor_of_expectEnd hend]
      exact hd.trans e.leadsTo_skip
    · cases h

/-- The error of a text that cannot be read lies behind the keyword that stands behind all complete
statements, or exactly there if none does. It lies behind every place where reading looks for a
statement, in blocks as well, and behind the keyword that begins a statement at such a place. -/
theorem location_of_read_error {filename source : String} {error : ParseError}
    (h : Tree.read filename source = .error (.parse error)) :
    (∃ q, (Cursor.start (expandTabs source.toList)).RunsOut filename q) ∧
      (∀ q, (Cursor.start (expandTabs source.toList)).RunsOut filename q →
        (∀ k ∈ Report.statementKeywords, ∀ d, q.skip.keyword? k = some d →
          (d.offset : Int) ≤ error.location) ∧
        ((∀ k ∈ Report.statementKeywords, q.skip.keyword? k = none) →
          error.location = q.skip.offset)) ∧
      ∀ q, (Cursor.start (expandTabs source.toList)).Visits filename q →
        (q.offset : Int) ≤ error.location ∧
          ∀ k ∈ Report.statementKeywords, ∀ d, q.skip.keyword? k = some d →
            (q.skip.offset : Int) < error.location ∧ (d.offset : Int) ≤ error.location := by
  obtain ⟨f, hread, rfl⟩ := exists_failure_of_read h
  have hlocation {d : Cursor} (h : d.LeadsTo f.cursor) :
      (d.offset : Int) ≤ (f.toParseError source.toList).location := Int.ofNat_le.2 h.offset_le
  have hvisits : ∀ q, (Cursor.start (expandTabs source.toList)).Visits filename q →
      (q.offset : Int) ≤ (f.toParseError source.toList).location ∧
        ∀ k ∈ Report.statementKeywords, ∀ d, q.skip.keyword? k = some d →
          (q.skip.offset : Int) < (f.toParseError source.toList).location ∧
            (d.offset : Int) ≤ (f.toParseError source.toList).location := by
    intro q hq
    have hfollows := Cursor.precedes_of_reading (follows_readStatements filename q)
    refine ⟨hlocation (leadsTo_of_ofProgram hread (hq.precedes hfollows)), ?_⟩
    intro k hk d hd
    have hkeyword := hq.precedes (Cursor.precedes_of_keyword hk hd)
    have hbehind := hlocation (leadsTo_of_ofProgram hread hkeyword)
    have hlt := Cursor.offset_lt_of_keyword? (Report.statementKeywords_subset hk) hd
    exact ⟨by omega, hbehind⟩
  refine ⟨Cursor.exists_runsOut filename _, ?_, hvisits⟩
  intro q hq
  refine ⟨fun k hk d hd => ((hvisits q hq.visits).2 k hk d hd).2, ?_⟩
  intro hnone
  obtain ⟨ss, hss⟩ := hq.readStatements_eq_ok hnone
  obtain hstatements | ⟨_, hstatements, h⟩ := bind_eq_error_iff.1 hread
  · rw [hss] at hstatements
    cases hstatements
  · obtain rfl := Except.ok.inj (hss.symm.trans hstatements)
    obtain hend | ⟨_, -, h⟩ := bind_eq_error_iff.1 h
    · exact congrArg (fun c : Cursor => (c.offset : Int)) (cursor_of_expectEnd hend)
    · cases h

theorem location_of_read_nestedLet :
    ∃ error, Tree.read "nested" "x = 1;\nwhile x \x7b\n  let = 1;\n\x7d" = .error (.parse error) ∧
      error.location = 23 ∧
      ∃ q, (Cursor.start (expandTabs "x = 1;\nwhile x \x7b\n  let = 1;\n\x7d".toList)).RunsOut
          "nested" q ∧
        ∀ k ∈ Report.statementKeywords, ∀ d, q.skip.keyword? k = some d →
          (d.offset : Int) ≤ error.location := by
  obtain ⟨error, hread, hlocation⟩ : ∃ error,
      Tree.read "nested" "x = 1;\nwhile x \x7b\n  let = 1;\n\x7d" = .error (.parse error) ∧
        error.location = 23 := ⟨_, rfl, rfl⟩
  obtain ⟨⟨q, hq⟩, hbehind, -⟩ := location_of_read_error hread
  exact ⟨error, hread, hlocation, q, hq, (hbehind q hq).1⟩

end Tree
end Quill
