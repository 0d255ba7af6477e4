import Quill.Text.Quoted

/-!
# Quoted texts read back

The characters of a quoted text are a prefix code: each is read back from its escaped form, whatever
follows, and none of them begins with the quote. So a quoted text ends where its quote stands next,
and it determines the text.

## Main definitions

* `hexadecimalValue` — the value of hexadecimal digits.
* `unescapeChar` — the first character of an escaped text, and the rest.
-/

namespace Quill.Text

/-! ## Hexadecimal codes -/

/-- The value of a hexadecimal digit. -/
def hexadecimalDigit (c : Char) : Nat := if c.toNat < 'a'.toNat then c.toNat - 48 else c.toNat - 87

/-- The value of hexadecimal digits, most significant first. -/
def hexadecimalValue (digits : List Char) : Nat :=
  digits.foldl (fun value c => 16 * value + hexadecimalDigit c) 0

theorem hexadecimalDigit_digitChar : ∀ d < 16, hexadecimalDigit (Nat.digitChar d) = d := by
  decide

theorem hexadecimalValue_toDigits (n : Nat) : hexadecimalValue (Nat.toDigits 16 n) = n := by
  induction n using Nat.strongRecOn with
  | ind n ih =>
    rw [Nat.toDigits_eq_if (by decide)]
    split
    · rename_i hlt
      simp [hexadecimalValue, hexadecimalDigit_digitChar n hlt]
    · have hrest := ih (n / 16) (by omega)
      rw [hexadecimalValue] at hrest ⊢
      rw [List.foldl_append, hrest, List.foldl_cons, List.foldl_nil,
        hexadecimalDigit_digitChar _ (Nat.mod_lt _ (by decide))]
      omega

/-- Padded hexadecimal digits have the value of the number. -/
theorem hexadecimalValue_hexadecimal (width n : Nat) :
    hexadecimalValue (hexadecimal width n) = n := by
  have hzeros : ∀ k : Nat, (List.replicate k '0').foldl
      (fun value c => 16 * value + hexadecimalDigit c) 0 = 0 := by
    intro k
    induction k with
    | zero => rfl
    | succ k ih =>
      rw [List.replicate_succ, List.foldl_cons]
      exact ih
  rw [hexadecimal, hexadecimalValue, List.foldl_append, hzeros, ← hexadecimalValue,
    hexadecimalValue_toDigits]

theorem length_hexadecimal {width n : Nat} (hwidth : 0 < width) (hn : n < Nat.pow 16 width) :
    (hexadecimal width n).length = width := by
  have hlength := (Nat.length_toDigits_le_iff (by decide) hwidth).2 hn
  simp only [hexadecimal, List.length_append, List.length_replicate]
  omega

theorem noBreak_hexadecimal (width n : Nat) : '\n' ∉ hexadecimal width n := by
  have hdigits : ∀ n : Nat, '\n' ∉ Nat.toDigits 16 n := by
    intro n
    induction n using Nat.strongRecOn with
    | ind n ih =>
      rw [Nat.toDigits_eq_if (by decide)]
      split
      · simp
      · simpa using ih (n / 16) (by omega)
  simp [hexadecimal, hdigits]

/-! ## Escaped characters -/

/-- The character that an escaped text begins with, and the rest. -/
def unescapeChar : List Char → Char × List Char
  | '\\' :: 'n' :: rest => ('\n', rest)
  | '\\' :: 'r' :: rest => ('\r', rest)
  | '\\' :: 't' :: rest => ('\t', rest)
  | '\\' :: 'x' :: rest => (Char.ofNat (hexadecimalValue (rest.take 2)), rest.drop 2)
  | '\\' :: 'u' :: rest => (Char.ofNat (hexadecimalValue (rest.take 4)), rest.drop 4)
  | '\\' :: 'U' :: rest => (Char.ofNat (hexadecimalValue (rest.take 8)), rest.drop 8)
  | '\\' :: c :: rest => (c, rest)
  | c :: rest => (c, rest)
  | [] => ('\\', [])

theorem hexadecimal_append {width : Nat} {c : Char} (hwidth : 0 < width)
    (hc : c.toNat < Nat.pow 16 width) (rest : List Char) :
    (Char.ofNat (hexadecimalValue ((hexadecimal width c.toNat ++ rest).take width)),
      (hexadecimal width c.toNat ++ rest).drop width) = (c, rest) := by
  have hlength := length_hexadecimal hwidth hc
  rw [List.take_left' hlength, List.drop_left' hlength, hexadecimalValue_hexadecimal,
    Char.ofNat_toNat]

/-- An escaped character is read back, whatever follows. -/
theorem unescapeChar_escapeChar {quote : Char} (hquote : quote = '\'' ∨ quote = '"') (c : Char)
    (rest : List Char) : unescapeChar (escapeChar quote c ++ rest) = (c, rest) := by
  unfold escapeChar
  split
  · rename_i hc
    have hc : c = '\\' ∨ c = '\'' ∨ c = '"' := by
      rcases hc with rfl | rfl
      · exact .inl rfl
      · exact .inr hquote
    rcases hc with rfl | rfl | rfl <;> rfl
  split
  · subst ‹c = _›
    rfl
  split
  · subst ‹c = _›
    rfl
  split
  · subst ‹c = _›
    rfl
  split
  · rename_i hc _ _ _ _
    have hbackslash : c ≠ '\\' := fun h => hc (.inl h)
    simp [unescapeChar, hbackslash]
  split
  · exact hexadecimal_append (by decide) ‹_› rest
  split
  · exact hexadecimal_append (by decide) ‹_› rest
  · refine hexadecimal_append (by decide) ?_ rest
    have hcode : c.toNat < 0x110000 := by
      rcases c.valid with h | h
      · exact Nat.lt_trans h (by decide)
      · exact h.2
    exact Nat.lt_trans hcode (by decide)

/-- No escaped character begins with the quote. -/
theorem head?_escapeChar_ne {quote : Char} (hquote : quote ≠ '\\') (c : Char) (rest : List Char) :
    (escapeChar quote c ++ rest).head? ≠ some quote := by
  have hescaped : ∀ cs : List Char, ('\\' :: cs ++ rest).head? ≠ some quote :=
    fun cs h => hquote (Option.some.inj h).symm
  unfold escapeChar
  split
  · exact hescaped _
  rename_i hc
  repeat' split
  all_goals first | exact hescaped _ | skip
  exact fun h => hc (.inr (Option.some.inj h))

theorem noBreak_escapeChar {quote : Char} (hquote : quote ≠ '\n') (c : Char) :
    '\n' ∉ escapeChar quote c := by
  unfold escapeChar
  split
  · rename_i hc
    have hc : '\n' ≠ c := by
      rcases hc with rfl | rfl
      · decide
      · exact hquote.symm
    simp [hc]
  split
  · decide
  rename_i hc
  repeat' split
  all_goals simp [noBreak_hexadecimal, Ne.symm hc]

/-! ## Quoted texts -/

theorem quoteFor_cases (cs : List Char) : quoteFor cs = '\'' ∨ quoteFor cs = '"' := by
  unfold quoteFor
  split
  · exact .inr rfl
  · exact .inl rfl

/-- Escaped texts can be told apart by what stands before the quote that ends them. -/
theorem escaped_append_inj {quote : Char} (hquote : quote = '\'' ∨ quote = '"')
    {cs ds rest rest' : List Char}
    (h : cs.flatMap (escapeChar quote) ++ quote :: rest =
      ds.flatMap (escapeChar quote) ++ quote :: rest') : cs = ds ∧ rest = rest' := by
  have hbackslash : quote ≠ '\\' := by rcases hquote with rfl | rfl <;> decide
  induction cs generalizing ds with
  | nil =>
    cases ds with
    | nil => exact ⟨rfl, (List.cons.inj h).2⟩
    | cons d ds =>
      rw [List.flatMap_cons, List.append_assoc] at h
      exact absurd (congrArg List.head? h).symm (head?_escapeChar_ne hbackslash d _)
  | cons c cs ih =>
    rw [List.flatMap_cons, List.append_assoc] at h
    cases ds with
    | nil => exact absurd (congrArg List.head? h) (head?_escapeChar_ne hbackslash c _)
    | cons d ds =>
      rw [List.flatMap_cons, List.append_assoc] at h
      have hread := congrArg unescapeChar h
      rw [unescapeChar_escapeChar hquote, unescapeChar_escapeChar hquote] at hread
      obtain ⟨rfl, hrest⟩ := Prod.mk.inj hread
      obtain ⟨rfl, rfl⟩ := ih hrest
      exact ⟨rfl, rfl⟩

/-- A quoted text determines the text and where it ends. -/
theorem quotedChars_append_inj {cs ds rest rest' : List Char}
    (h : quotedChars cs ++ rest = quotedChars ds ++ rest') : cs = ds ∧ rest = rest' := by
  simp only [quotedChars, List.cons_append, List.append_assoc, List.nil_append] at h
  obtain ⟨hquote, hrest⟩ := List.cons.inj h
  rw [← hquote] at hrest
  exact escaped_append_inj (quoteFor_cases cs) hrest

theorem noBreak_quotedChars (cs : List Char) : '\n' ∉ quotedChars cs := by
  have hquote : '\n' ≠ quoteFor cs := by rcases quoteFor_cases cs with h | h <;> rw [h] <;> decide
  simp [quotedChars, hquote, noBreak_escapeChar hquote.symm]

end Quill.Text
