import Quill.Proofs.Grammar.Course
import Quill.Report.Suggestion

/-!
# Statements one behind the other

The readers of statements run on fuel: as often as characters are ahead, and nested as deep. Each
statement takes a character, so the fuel is never used up, and what is read at a place depends on
the text there alone. Statements are then read one by one: the first that stands at the place, and
those behind it; and the statements in a block are read as those of a whole text are.

## Main definitions

* `nextStatement` — the statement that stands at a place, if one does.
-/

namespace Quill

open Text Quill.Tree

/-! ## Going forward -/

namespace Cursor

theorem LeadsTo.length_le {c d : Cursor} (h : c.LeadsTo d) : d.ahead.length ≤ c.ahead.length := by
  obtain ⟨w, htakes⟩ := h
  rw [htakes.length]
  exact Nat.le_add_left _ _

theorem LeadsTo.offset_le {c d : Cursor} (h : c.LeadsTo d) : c.offset ≤ d.offset := by
  obtain ⟨w, htakes⟩ := h
  rw [offset, offset, htakes.behind, List.length_append]
  exact Nat.le_add_left _ _

theorem ahead_skip_of_end {c : Cursor} (h : c.ahead = []) : c.skip.ahead = [] := by
  have hlength := c.length_skip_le
  rw [h] at hlength
  exact List.length_eq_zero_iff.1 (Nat.le_zero.1 hlength)

/-- A name takes a character. -/
theorem length_lt_of_name? {filename : String} {c d : Cursor} {t : Token}
    (h : c.name? filename = some (t, d)) : d.ahead.length < c.ahead.length := by
  obtain ⟨w, hw, -⟩ := name?_eq_some_iff.1 h
  obtain ⟨-, hne, -, -, htakes⟩ := word?_eq_some_iff.1 hw
  have hpos := List.length_pos_iff.2 hne
  have hskip := c.length_skip_le
  have hlength := htakes.length
  omega

/-- A keyword takes a character. -/
theorem length_lt_of_keyword? {c d : Cursor} {k : String} (hk : k ∈ keywords)
    (h : c.skip.keyword? k = some d) : d.ahead.length < c.ahead.length := by
  have hpos := length_pos_of_mem_keywords k hk
  have hskip := c.length_skip_le
  have hlength := (keyword?_eq_some_iff.1 h).1.length
  omega

/-- A keyword ends behind the place where it begins. -/
theorem offset_lt_of_keyword? {c d : Cursor} {k : String} (hk : k ∈ keywords)
    (h : c.keyword? k = some d) : c.offset < d.offset := by
  have hpos := length_pos_of_mem_keywords k hk
  rw [offset, offset, (keyword?_eq_some_iff.1 h).1.behind, List.length_append, List.length_reverse]
  omega

/-- One keyword at most stands at a place. -/
theorem keyword?_inj {c d d' : Cursor} {k k' : String} (hk : k ∈ keywords) (hk' : k' ∈ keywords)
    (h : c.keyword? k = some d) (h' : c.keyword? k' = some d') : k = k' ∧ d = d' := by
  have hpre : ∀ k ∈ keywords, ∀ k' ∈ keywords, k.toList <+: k'.toList → k = k' := by decide
  have hahead : k.toList <+: c.ahead := ⟨_, (keyword?_eq_some_iff.1 h).1.ahead.symm⟩
  have hahead' : k'.toList <+: c.ahead := ⟨_, (keyword?_eq_some_iff.1 h').1.ahead.symm⟩
  have hsame : k = k' := by
    rcases List.prefix_or_prefix_of_prefix hahead hahead' with h₁ | h₁
    · exact hpre k hk k' hk' h₁
    · exact (hpre k' hk' k hk h₁).symm
  subst hsame
  exact ⟨rfl, Option.some.inj (h.symm.trans h')⟩

end Cursor

/-- The keywords that begin a statement are keywords. -/
theorem Report.statementKeywords_subset : statementKeywords ⊆ Cursor.keywords := by decide

namespace Reading

variable {filename : String} {α : Type} {leaves : α → List Tree} {c d : Cursor}

theorem leadsTo {a : α} (h : Reading filename leaves c (.ok (a, d))) : c.LeadsTo d :=
  h.bears.leadsTo

end Reading

/-! ## Enough fuel -/

/-- A reader of statements that goes forward, takes a character for each statement, and finds none
at the end of the text. -/
structure IsStatementReader (filename : String) (one : Reader (Option Tree)) : Prop where
  follows : Follows filename leavesIfAny one
  length_lt : ∀ {c d : Cursor} {s : Tree}, one c = .ok (some s, d) → d.ahead.length < c.ahead.length
  at_end : ∀ {c : Cursor}, c.ahead = [] → one c = .ok (none, c)

theorem length_lt_of_readAssignment {filename : String} {c d : Cursor} {s : Tree}
    (h : readAssignment filename c = some (s, d)) : d.ahead.length < c.ahead.length := by
  obtain ⟨⟨t, c₁⟩, hname, h⟩ := Option.bind_eq_some_iff.1 h
  obtain ⟨⟨e, c₂⟩, he, h⟩ := Option.bind_eq_some_iff.1 h
  obtain ⟨rfl, rfl⟩ := Prod.mk.inj (Option.some.inj h)
  have hsource := follows_readDefinition filename c₁
  rw [toOption_eq_some_iff.1 he] at hsource
  exact Nat.lt_of_le_of_lt hsource.leadsTo.length_le (Cursor.length_lt_of_name? hname)

theorem length_le_of_readCommitted {filename : String} {read : Reader Tree}
    (hread : Follows filename Tree.leaves read) {c d : Cursor} {s? : Option Tree}
    (h : readCommitted read c = .ok (s?, d)) : d.ahead.length ≤ c.ahead.length := by
  have hreading := follows_readCommitted hread c
  rw [h] at hreading
  exact hreading.leadsTo.length_le

/-- A statement takes at least one character. -/
theorem length_lt_of_readStatement {filename : String} {n : Nat} {c d : Cursor} {s : Tree}
    (h : readStatement filename n c = .ok (some s, d)) : d.ahead.length < c.ahead.length := by
  have hlt {k : String} {next : Cursor} (hkeyword : c.skip.keyword? k = some next)
      (hk : k ∈ Cursor.keywords) {read : Reader Tree} (hread : Follows filename Tree.leaves read)
      (h : readCommitted read next = .ok (some s, d)) : d.ahead.length < c.ahead.length :=
    Nat.lt_of_le_of_lt (length_le_of_readCommitted hread h)
      (Cursor.length_lt_of_keyword? hk hkeyword)
  cases n with
  | zero => cases h
  | succ n =>
    simp only [readStatement] at h
    split at h
    · exact hlt ‹_› (by decide) (follows_readVariable filename) h
    · exact hlt ‹_› (by decide) (follows_readFunction filename) h
    · exact hlt ‹_› (by decide) (follows_readLoop (follows_readStatement filename n)) h
    · exact hlt ‹_› (by decide) (follows_readPrint filename) h
    · split at h
      · obtain ⟨hs, rfl⟩ := Prod.mk.inj (Except.ok.inj h)
        obtain rfl := Option.some.inj hs
        exact length_lt_of_readAssignment ‹_›
      · cases h

/-- No statement begins at the end of the text. -/
theorem readStatement_at_end (filename : String) (n : Nat) {c : Cursor} (h : c.skip.ahead = []) :
    readStatement filename n c = .ok (none, c) := by
  have hassignment : readAssignment filename c = none := by
    simp [readAssignment, Cursor.name?_of_end h]
  cases n with
  | zero => rfl
  | succ n =>
    have hnone : ∀ k ∈ Report.statementKeywords, c.skip.keyword? k = none :=
      fun k hk => Cursor.keyword?_of_end h (Report.statementKeywords_subset hk)
    simp only [readStatement, hnone "let" (by decide), hnone "function" (by decide),
      hnone "while" (by decide), hnone "print" (by decide), hassignment]

/-- A statement is read by such a reader, whatever its fuel. -/
theorem isStatementReader_readStatement (filename : String) (n : Nat) :
    IsStatementReader filename (readStatement filename n) :=
  ⟨follows_readStatement filename n, length_lt_of_readStatement,
    fun h => readStatement_at_end filename n (Cursor.ahead_skip_of_end h)⟩

section
variable {filename : String} {one one' : Reader (Option Tree)} {c : Cursor}

/-- Readers that agree from a place on read the same statements there. -/
theorem repeatStatements_congr (hone : Follows filename leavesIfAny one)
    (h : ∀ d, c.LeadsTo d → one d = one' d) (n : Nat) :
    repeatStatements one n c = repeatStatements one' n c := by
  induction n generalizing c with
  | zero => rfl
  | succ n ih =>
    rw [repeatStatements, repeatStatements, ← h c (.refl c)]
    have hreading := hone c
    refine bind_congr_of_ok ?_
    rintro ⟨s?, d⟩ hs
    rw [hs] at hreading
    cases s? with
    | none => rfl
    | some s => simp only [ih fun e he => h e (hreading.leadsTo.trans he)]

/-- Readers that agree from a place on read the same loop there. -/
theorem readLoop_congr (hone : Follows filename leavesIfAny one)
    (h : ∀ d, c.LeadsTo d → one d = one' d) :
    readLoop filename one c = readLoop filename one' c := by
  have htest := follows_readExpression filename c
  refine bind_congr_of_ok ?_
  rintro ⟨test, d⟩ hd
  rw [hd] at htest
  refine bind_congr_of_ok fun e he => ?_
  have hleads := htest.leadsTo.trans (Cursor.leadsTo_of_symbol? (expectSymbol_eq_ok_iff.1 he))
  rw [repeatStatements_congr hone fun _ hb => h _ (hleads.trans hb)]

/-- As many rounds as characters are ahead are enough. -/
theorem repeatStatements_stable (hone : IsStatementReader filename one) {n : Nat}
    (hn : c.ahead.length ≤ n) : repeatStatements one (n + 1) c = repeatStatements one n c := by
  induction n generalizing c with
  | zero =>
    have hend : c.ahead = [] := List.length_eq_zero_iff.1 (Nat.le_zero.1 hn)
    simp only [repeatStatements, hone.at_end hend]
    rfl
  | succ n ih =>
    rw [repeatStatements, repeatStatements]
    refine bind_congr_of_ok ?_
    rintro ⟨s?, d⟩ hs
    cases s? with
    | none => rfl
    | some s =>
      have hlt := hone.length_lt hs
      have hd : d.ahead.length ≤ n := by omega
      simp only [ih hd]

/-- More rounds than characters ahead change nothing. -/
theorem repeatStatements_eq_of_le (hone : IsStatementReader filename one) {n : Nat}
    (hn : c.ahead.length ≤ n) :
    repeatStatements one n c = repeatStatements one c.ahead.length c := by
  induction hn with
  | refl => rfl
  | step hn ih => rw [repeatStatements_stable hone hn, ih]

end

/-- Loops may nest as deep as characters are ahead. -/
theorem readStatement_stable (filename : String) {n : Nat} {c : Cursor} (hn : c.ahead.length < n) :
    readStatement filename (n + 1) c = readStatement filename n c := by
  induction n generalizing c with
  | zero => cases hn
  | succ n ih =>
    have hloop {next : Cursor} (hnext : c.skip.keyword? "while" = some next) :
        readLoop filename (readStatement filename (n + 1)) next =
          readLoop filename (readStatement filename n) next := by
      have hlt := Cursor.length_lt_of_keyword? (by decide) hnext
      refine readLoop_congr (follows_readStatement filename _) fun d hd => ih ?_
      have hle := hd.length_le
      omega
    rw [readStatement, readStatement]
    split
    · rfl
    · rfl
    · simp only [readCommitted, hloop ‹_›]
    · rfl
    · rfl

/-! ## One statement -/

/-- The statement that stands here, or nothing where none begins. -/
def nextStatement (filename : String) : Reader (Option Tree) :=
  fun c => readStatement filename (c.ahead.length + 1) c

/-- What is read does not depend on the fuel. -/
theorem readStatement_eq {filename : String} {n : Nat} {c : Cursor} (hn : c.ahead.length < n) :
    readStatement filename n c = nextStatement filename c := by
  induction hn with
  | refl => rfl
  | step hn ih => rw [readStatement_stable filename hn, ih]

/-- Neither the fuel for the depth nor the one for the length matters, if there is enough of
both. -/
theorem repeatStatements_eq {filename : String} {k n : Nat} {c : Cursor} (hk : c.ahead.length ≤ k)
    (hn : c.ahead.length < n) :
    repeatStatements (readStatement filename n) k c = readStatements filename c := by
  rw [repeatStatements_eq_of_le (isStatementReader_readStatement filename n) hk, readStatements]
  refine repeatStatements_congr (follows_readStatement filename n) (fun d hd => ?_) _
  have hle := hd.length_le
  rw [readStatement_eq (by omega), readStatement_eq (by omega)]

section
variable {filename : String} {c d : Cursor}

theorem isStatementReader_nextStatement (filename : String) :
    IsStatementReader filename (nextStatement filename) :=
  ⟨fun c => follows_readStatement filename _ c, length_lt_of_readStatement,
    fun h => readStatement_at_end filename _ (Cursor.ahead_skip_of_end h)⟩

/-- No statement begins at the end of a text. -/
theorem nextStatement_of_end (h : c.skip.ahead = []) : nextStatement filename c = .ok (none, c) :=
  readStatement_at_end filename _ h

/-- Statements are read one by one. -/
theorem readStatements_eq (filename : String) (c : Cursor) :
    readStatements filename c = (do
      match ← nextStatement filename c with
      | (none, _) => return ([], c)
      | (some s, d) =>
        let (ss, e) ← readStatements filename d
        return (s :: ss, e)) := by
  rw [← repeatStatements_eq (Nat.le_succ _) (Nat.lt_succ_self _), repeatStatements]
  refine bind_congr_of_ok ?_
  rintro ⟨s?, d⟩ hs
  cases s? with
  | none => rfl
  | some s =>
    have hlt := length_lt_of_readStatement hs
    have hrest : repeatStatements (readStatement filename c.ahead.length.succ) c.ahead.length d =
        readStatements filename d := repeatStatements_eq (Nat.le_of_lt hlt) (Nat.lt_succ_of_lt hlt)
    simp only [hrest]

theorem readStatements_of_some {s : Tree} (h : nextStatement filename c = .ok (some s, d)) :
    readStatements filename c = (fun r => (s :: r.1, r.2)) <$> readStatements filename d := by
  rw [readStatements_eq, h]
  rfl

theorem readStatements_of_none (h : nextStatement filename c = .ok (none, d)) :
    readStatements filename c = .ok ([], c) := by
  rw [readStatements_eq, h]
  rfl

theorem readStatements_of_error {f : Failure} (h : nextStatement filename c = .error f) :
    readStatements filename c = .error f := by
  rw [readStatements_eq, h]
  rfl

/-- A statement that begins with a keyword is committed to it. -/
theorem nextStatement_of_keyword {k : String} (hk : k ∈ Report.statementKeywords)
    (h : c.skip.keyword? k = some d) :
    ∃ read, Follows filename Tree.leaves read ∧
      nextStatement filename c = readCommitted read d := by
  have hnext {k' : String} {next : Cursor} (h' : c.skip.keyword? k' = some next)
      (hk' : k' ∈ Cursor.keywords) : next = d :=
    (Cursor.keyword?_inj hk' (Report.statementKeywords_subset hk) h' h).2
  rw [nextStatement, readStatement]
  split
  · obtain rfl := hnext ‹_› (by decide)
    exact ⟨_, follows_readVariable filename, rfl⟩
  · obtain rfl := hnext ‹_› (by decide)
    exact ⟨_, follows_readFunction filename, rfl⟩
  · obtain rfl := hnext ‹_› (by decide)
    exact ⟨_, follows_readLoop (follows_readStatement filename _), rfl⟩
  · obtain rfl := hnext ‹_› (by decide)
    exact ⟨_, follows_readPrint filename, rfl⟩
  · simp only [Report.statementKeywords, List.mem_cons, List.not_mem_nil, or_false] at hk
    rcases hk with rfl | rfl | rfl | rfl <;> simp_all

/-- Where no keyword stands, nothing is read but an assignment, and reading does not fail. -/
theorem nextStatement_of_noKeyword
    (h : ∀ k ∈ Report.statementKeywords, c.skip.keyword? k = none) :
    nextStatement filename c =
      match readAssignment filename c with
      | some (s, d) => .ok (some s, d)
      | none => .ok (none, c) := by
  have hlet := h "let" (by decide)
  have hfunction := h "function" (by decide)
  have hwhile := h "while" (by decide)
  have hprint := h "print" (by decide)
  cases hassignment : readAssignment filename c <;>
    simp only [nextStatement, readStatement, hlet, hfunction, hwhile, hprint, hassignment]

/-- A loop is read with the statements of its body, as those of a whole text are. -/
theorem nextStatement_while (h : c.skip.keyword? "while" = some d) :
    nextStatement filename c = (do
      let (test, d) ← readExpression filename d
      let d ← expectSymbol "\x7b" d
      let (body, d) ← readStatements filename d
      let d ← expectSymbol "\x7d" d
      return (some (.whileLoop test body), d)) := by
  have hnone {k : String} (hk : k ∈ Cursor.keywords) (hne : k ≠ "while") :
      c.skip.keyword? k = none := by
    rw [Option.eq_none_iff_forall_not_mem]
    intro d' hd'
    exact hne (Cursor.keyword?_inj hk (by decide) hd' h).1
  have hlt := Cursor.length_lt_of_keyword? (by decide) h
  rw [nextStatement, readStatement, hnone (k := "let") (by decide) (by decide),
    hnone (k := "function") (by decide) (by decide), h]
  have htest := follows_readExpression filename d
  simp only [readCommitted, readLoop, bind_assoc]
  refine bind_congr_of_ok ?_
  rintro ⟨test, d₁⟩ hd₁
  rw [hd₁] at htest
  refine bind_congr_of_ok fun d₂ hd₂ => ?_
  have hleads := htest.leadsTo.trans (Cursor.leadsTo_of_symbol? (expectSymbol_eq_ok_iff.1 hd₂))
  have hle := hleads.length_le
  rw [repeatStatements_eq (Nat.le_refl _) (by omega)]
  rfl

/-- Behind the brace that opens it, the body of a loop is read and its end. -/
theorem nextStatement_block {c₁ c₂ c₃ : Cursor} {test : Tree}
    (hwhile : c.skip.keyword? "while" = some c₁)
    (htest : readExpression filename c₁ = .ok (test, c₂)) (hopen : c₂.symbol? "\x7b" = some c₃) :
    nextStatement filename c = (do
      let (body, d) ← readStatements filename c₃
      let d ← expectSymbol "\x7d" d
      return (some (.whileLoop test body), d)) := by
  rw [nextStatement_while hwhile, htest, ok_bind]
  dsimp only
  rw [expectSymbol_eq_ok_iff.2 hopen, ok_bind]

end

end Quill
