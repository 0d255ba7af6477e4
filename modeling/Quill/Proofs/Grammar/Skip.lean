import Quill.Grammar.Cursor
import Quill.Report.Lookahead

/-!
# Blanks and comments

Before each lexeme the reader passes all comments at once and then the blanks behind the last. That
order does not matter: what is passed is a sequence of blanks and comments, up to the first place
where none of them stands. The same place is found by the reports on errors, which pass all blanks
of Unicode, if a character that is not such a blank stands there.

## Main definitions

* `Cursor.Stops cs` — neither a blank nor a comment stands at the start of `cs`.
* `Cursor.Skips c d` — between `c` and `d` stand blanks and comments.
-/

namespace Quill

open Text

namespace Cursor

/-- Neither a separator nor a comment stands at the start. -/
structure Stops (cs : List Char) : Prop where
  noSeparator : ∀ ch ∈ cs.head?, isSeparator ch = false
  noComment : ∀ rest, cs ≠ '/' :: '/' :: rest

theorem stops_of_head {cs : List Char} {ch : Char} (hch : ch ∈ cs.head?)
    (hsep : isSeparator ch = false) (hslash : ch ≠ '/') : Stops cs := by
  refine ⟨?_, ?_⟩
  · intro ch' hch'
    rwa [Option.mem_unique hch' hch]
  · rintro rest rfl
    exact hslash (Option.some.inj hch).symm

/-- From one cursor to another there are separators and comments. -/
inductive Skips : Cursor → Cursor → Prop
  | stay (c : Cursor) : Skips c c
  | blank {behind : List Char} {ch : Char} {ahead : List Char} {d : Cursor}
    (hch : isSeparator ch) (h : Skips ⟨ch :: behind, ahead⟩ d) : Skips ⟨behind, ch :: ahead⟩ d
  | comment {c e d : Cursor} (he : c.comment? = some e) (h : Skips e d) : Skips c d

/-! ## Single comments -/

/-- Passing the characters that stand ahead. -/
@[simp] theorem advance_length_append (behind w rest : List Char) :
    advance ⟨behind, w ++ rest⟩ w.length = ⟨w.reverse ++ behind, rest⟩ := by
  simp [advance]

/-- A comment runs from its two strokes to the end of its line. -/
theorem comment?_eq_some_iff {c d : Cursor} :
    c.comment? = some d ↔ ∃ rest, c.ahead = '/' :: '/' :: rest ∧
      d = ⟨(rest.takeWhile (· ≠ '\n')).reverse ++ '/' :: '/' :: c.behind,
        rest.dropWhile (· ≠ '\n')⟩ := by
  obtain ⟨behind, ahead⟩ := c
  have hend : ∀ rest, advance ⟨behind, '/' :: '/' :: rest⟩
      ((rest.takeWhile (· ≠ '\n')).length + 2) =
        ⟨(rest.takeWhile (· ≠ '\n')).reverse ++ '/' :: '/' :: behind,
          rest.dropWhile (· ≠ '\n')⟩ := by
    intro rest
    have h := advance_length_append behind ('/' :: '/' :: rest.takeWhile (· ≠ '\n'))
      (rest.dropWhile (· ≠ '\n'))
    rw [List.cons_append, List.cons_append, List.takeWhile_append_dropWhile] at h
    simpa using h
  constructor
  · intro h
    simp only [comment?] at h
    split at h
    · exact ⟨_, rfl, by rw [← hend, ← Option.some.inj h]⟩
    · cases h
  · rintro ⟨rest, rfl, rfl⟩
    exact congrArg some (hend rest)

theorem comment?_eq_none_iff {c : Cursor} :
    c.comment? = none ↔ ∀ rest, c.ahead ≠ '/' :: '/' :: rest := by
  constructor
  · intro h rest hrest
    rw [comment?_eq_some_iff.2 ⟨rest, hrest, rfl⟩] at h
    cases h
  · intro h
    cases hc : c.comment? with
    | none => rfl
    | some d =>
      obtain ⟨rest, hrest, -⟩ := comment?_eq_some_iff.1 hc
      exact absurd hrest (h rest)

theorem length_lt_of_comment? {c d : Cursor} (h : c.comment? = some d) :
    d.ahead.length < c.ahead.length := by
  obtain ⟨rest, hrest, rfl⟩ := comment?_eq_some_iff.1 h
  have := (List.dropWhile_sublist (l := rest) (· ≠ '\n')).length_le
  rw [hrest, List.length_cons, List.length_cons]
  exact Nat.lt_succ_of_le (Nat.le_succ_of_le this)

/-! ## What is passed -/

namespace Skips

theorem trans {c d e : Cursor} (h : c.Skips d) (h' : d.Skips e) : c.Skips e := by
  induction h with
  | stay c => exact h'
  | blank hch _ ih => exact .blank hch (ih h')
  | comment he _ ih => exact .comment he (ih h')

theorem length_le {c d : Cursor} (h : c.Skips d) : d.ahead.length ≤ c.ahead.length := by
  induction h with
  | stay c => exact Nat.le_refl _
  | blank _ _ ih => exact Nat.le_succ_of_le ih
  | comment he _ ih => exact Nat.le_trans ih (Nat.le_of_lt (length_lt_of_comment? he))

/-- The place where nothing more can be passed is unique. -/
theorem eq_of_stops {c d d' : Cursor} (h : c.Skips d) (h' : c.Skips d') (hd : Stops d.ahead)
    (hd' : Stops d'.ahead) : d = d' := by
  induction h with
  | stay c =>
    cases h' with
    | stay => rfl
    | blank hch _ => simp [hd.noSeparator _ rfl] at hch
    | comment he _ =>
      obtain ⟨rest, hrest, -⟩ := comment?_eq_some_iff.1 he
      exact absurd hrest (hd.noComment rest)
  | @blank behind ch ahead d hch _ ih =>
    cases h' with
    | stay => simp [hd'.noSeparator _ rfl] at hch
    | blank _ h' => exact ih h' hd
    | comment he _ =>
      obtain ⟨rest, hrest, -⟩ := comment?_eq_some_iff.1 he
      obtain ⟨rfl, -⟩ := List.cons.inj hrest
      simp [isSeparator] at hch
  | comment he _ ih =>
    cases h' with
    | stay =>
      obtain ⟨rest, hrest, -⟩ := comment?_eq_some_iff.1 he
      exact absurd hrest (hd'.noComment rest)
    | blank hch _ =>
      obtain ⟨rest, hrest, -⟩ := comment?_eq_some_iff.1 he
      obtain ⟨rfl, -⟩ := List.cons.inj hrest
      simp [isSeparator] at hch
    | comment he' h' =>
      rw [he] at he'
      obtain rfl := Option.some.inj he'
      exact ih h' hd

/-- Directly before a place that was moved to stands a separator, unless the text has ended. -/
theorem behind_of_stops {c d : Cursor} (h : c.Skips d) (hd : Stops d.ahead) :
    d = c ∨ (∃ ch ∈ d.behind.head?, isSeparator ch) ∨ d.ahead = [] := by
  induction h with
  | stay c => exact .inl rfl
  | @blank behind ch ahead d hch _ ih =>
    rcases ih hd with rfl | h
    · exact .inr (.inl ⟨ch, rfl, hch⟩)
    · exact .inr h
  | @comment c e d he _ ih =>
    rcases ih hd with rfl | h
    · -- a comment ends before a line feed, which is a separator
      refine .inr (.inr ?_)
      obtain ⟨rest, -, rfl⟩ := comment?_eq_some_iff.1 he
      have hstop := List.head?_dropWhile_not (· ≠ '\n') rest
      cases hrest : rest.dropWhile (· ≠ '\n') with
      | nil => rfl
      | cons ch cs =>
        rw [hrest] at hstop
        have hsep := hd.noSeparator ch (by rw [hrest]; rfl)
        simp [isSeparator] at hsep hstop
        exact absurd hstop hsep.1.1.2
    · exact .inr h

end Skips

/-! ## What the reader passes -/

theorem skipBlanks_cons (behind ahead : List Char) (ch : Char) :
    skipBlanks ⟨behind, ch :: ahead⟩ =
      if isSeparator ch then skipBlanks ⟨ch :: behind, ahead⟩ else ⟨behind, ch :: ahead⟩ := by
  cases h : isSeparator ch <;> simp [skipBlanks, advance, h]

theorem skips_skipBlanks (c : Cursor) : c.Skips c.skipBlanks := by
  obtain ⟨behind, ahead⟩ := c
  induction ahead generalizing behind with
  | nil => exact .stay _
  | cons ch ahead ih =>
    rw [skipBlanks_cons]
    split
    · exact .blank ‹_› (ih _)
    · exact .stay _

theorem noSeparator_skipBlanks (c : Cursor) :
    ∀ ch ∈ c.skipBlanks.ahead.head?, isSeparator ch = false := by
  obtain ⟨behind, ahead⟩ := c
  induction ahead generalizing behind with
  | nil => simp [skipBlanks]
  | cons ch ahead ih =>
    rw [skipBlanks_cons]
    split
    · exact ih _
    · rename_i h
      intro ch' hch'
      obtain rfl := Option.some.inj hch'
      exact Bool.eq_false_iff.2 h

/-- Only blanks and comments are passed over. -/
theorem skips_skipSomeComments (n : Nat) (c : Cursor) : c.Skips (skipSomeComments n c) := by
  induction n generalizing c with
  | zero => exact .stay c
  | succ n ih =>
    rw [skipSomeComments]
    split
    · rename_i d hd
      exact (skips_skipBlanks c).trans (.comment hd (ih d))
    · exact .stay c

/-- As many rounds as characters pass all comments. -/
theorem comment?_skipSomeComments {n : Nat} {c : Cursor} (h : c.ahead.length ≤ n) :
    (skipSomeComments n c).skipBlanks.comment? = none := by
  induction n generalizing c with
  | zero =>
    obtain ⟨behind, ahead⟩ := c
    obtain rfl : ahead = [] := List.eq_nil_of_length_eq_zero (Nat.le_zero.1 h)
    rfl
  | succ n ih =>
    rw [skipSomeComments]
    split
    · rename_i d hd
      have := (skips_skipBlanks c).length_le
      have := length_lt_of_comment? hd
      exact ih (by omega)
    · assumption

theorem skips_skip (c : Cursor) : c.Skips c.skip :=
  (skips_skipSomeComments _ c).trans (skips_skipBlanks _)

/-- Behind blanks and comments stands neither. -/
theorem stops_skip (c : Cursor) : Stops c.skip.ahead :=
  ⟨noSeparator_skipBlanks _, comment?_eq_none_iff.1 (comment?_skipSomeComments (Nat.le_refl _))⟩

/-- Passing over blanks and comments ends in one place only. -/
theorem skip_eq_of_skips {c d : Cursor} (h : c.Skips d) (hd : Stops d.ahead) : c.skip = d :=
  (skips_skip c).eq_of_stops h (stops_skip c) hd

theorem skip_eq_self {c : Cursor} (h : Stops c.ahead) : c.skip = c := skip_eq_of_skips (.stay c) h

theorem length_skip_le (c : Cursor) : c.skip.ahead.length ≤ c.ahead.length :=
  (skips_skip c).length_le

/-! ## What reports pass -/

theorem isBlank_of_isSeparator {ch : Char} (h : isSeparator ch) : isBlank ch := by
  simp only [isSeparator, Bool.or_eq_true, decide_eq_true_eq] at h
  rcases h with ((rfl | rfl) | rfl) | rfl <;> decide

/-- The report passes over the same blanks and comments as the reader does. -/
theorem dropSomeSkipped_of_skips {n : Nat} {c d : Cursor} (h : c.Skips d)
    (hn : c.ahead.length ≤ n) (hd : Stops d.ahead)
    (hblank : ∀ ch ∈ d.ahead.head?, isBlank ch = false) :
    Report.dropSomeSkipped n c.ahead = d.ahead := by
  induction h generalizing n with
  | stay c =>
    cases n with
    | zero => rfl
    | succ n =>
      simp only [Report.dropSomeSkipped]
      split
      · exact absurd ‹_› (hd.noComment _)
      · rename_i h
        rw [hblank _ (by rw [h]; rfl), if_neg Bool.false_ne_true]
      · exact Eq.symm ‹_›
  | @blank behind ch ahead d hch _ ih =>
    cases n with
    | zero => exact absurd hn (Nat.not_succ_le_zero _)
    | succ n =>
      have hne : ch ≠ '/' := by
        rintro rfl
        simp [isSeparator] at hch
      have hblank' := isBlank_of_isSeparator hch
      simp only [Report.dropSomeSkipped]
      split
      · exact absurd (List.cons.inj ‹_›).1 hne
      · rename_i h
        obtain ⟨rfl, rfl⟩ := List.cons.inj h
        rw [if_pos hblank']
        exact ih (Nat.le_of_succ_le_succ hn) hd hblank
      · cases ‹ch :: ahead = []›
  | @comment c e d he _ ih =>
    obtain ⟨rest, hrest, rfl⟩ := comment?_eq_some_iff.1 he
    cases n with
    | zero => simp [hrest] at hn
    | succ n =>
      have hlength := length_lt_of_comment? he
      rw [hrest, Report.dropSomeSkipped]
      exact ih (by omega) hd hblank

/-- Reports pass the same blanks and comments as the reader, if no other blank follows. -/
theorem dropSkipped_ahead {c : Cursor} (h : ∀ ch ∈ c.skip.ahead.head?, isBlank ch = false) :
    Report.dropSkipped c.ahead = c.skip.ahead :=
  dropSomeSkipped_of_skips (skips_skip c) (Nat.le_refl _) (stops_skip c) h

end Cursor
end Quill
