import Quill.Proofs.Grammar.Tokens

/-!
# Tabs

Before a text is read, its tabs are replaced by spaces, how many depending on the column. Here it
matters only that each tab becomes one space or more: that changes neither the tokens of a text nor
whether something stands between them.

## Main definitions

* `Expands cs ds` — `ds` is `cs` with spaces in place of every tab.
-/

namespace Quill

open Text

/-- The second text is the first one with spaces in place of every tab. -/
inductive Expands : List Char → List Char → Prop
  | nil : Expands [] []
  | tab (n : Nat) {cs ds : List Char} (h : Expands cs ds) :
    Expands ('\t' :: cs) (List.replicate (n + 1) ' ' ++ ds)
  | char {ch : Char} {cs ds : List Char} (hch : ch ≠ '\t') (h : Expands cs ds) :
    Expands (ch :: cs) (ch :: ds)

theorem expands_expandTabsFrom (column : Nat) (cs : List Char) :
    Expands cs (expandTabsFrom column cs) := by
  induction cs generalizing column with
  | nil => exact .nil
  | cons ch cs ih =>
    simp only [expandTabsFrom]
    split
    · rename_i htab
      obtain ⟨n, hn⟩ : ∃ n, tabWidth - column % tabWidth = n + 1 := by
        have hlt : column % tabWidth < tabWidth := Nat.mod_lt _ (by decide)
        exact Nat.exists_eq_add_of_lt (Nat.sub_pos_of_lt hlt) |>.imp fun n hn => by omega
      rw [htab, hn]
      exact .tab n (ih _)
    · exact .char ‹_› (ih _)

/-- The expansion of tabs puts blanks in their place and changes nothing else. -/
theorem expands_expandTabs (cs : List Char) : Expands cs (expandTabs cs) :=
  expands_expandTabsFrom 0 cs

namespace Expands

/-! ## Parts -/

/-- The parts of a text are expanded each by itself. -/
theorem of_append {cs₁ cs₂ ds : List Char} (h : Expands (cs₁ ++ cs₂) ds) :
    ∃ ds₁ ds₂, ds = ds₁ ++ ds₂ ∧ Expands cs₁ ds₁ ∧ Expands cs₂ ds₂ := by
  induction cs₁ generalizing ds with
  | nil => exact ⟨[], ds, rfl, .nil, h⟩
  | cons ch cs₁ ih =>
    cases h with
    | tab n h =>
      obtain ⟨ds₁, ds₂, rfl, h₁, h₂⟩ := ih h
      exact ⟨_, ds₂, (List.append_assoc _ _ _).symm, .tab n h₁, h₂⟩
    | char hch h =>
      obtain ⟨ds₁, ds₂, rfl, h₁, h₂⟩ := ih h
      exact ⟨ch :: ds₁, ds₂, rfl, .char hch h₁, h₂⟩

/-- A text without tabs stays as it is. -/
theorem eq_of_noTab {cs ds : List Char} (h : Expands cs ds) (hcs : '\t' ∉ cs) : ds = cs := by
  induction h with
  | nil => rfl
  | tab n h ih => exact absurd List.mem_cons_self hcs
  | char hch h ih => rw [ih fun htab => hcs (List.mem_cons_of_mem _ htab)]

/-- Only spaces are new in the second text. -/
theorem mem {cs ds : List Char} (h : Expands cs ds) :
    ∀ ch ∈ ds, ch ≠ '\t' ∧ (ch = ' ' ∨ ch ∈ cs) := by
  induction h with
  | nil => simp
  | tab n h ih =>
    intro ch hch
    rcases List.mem_append.1 hch with hch | hch
    · rw [List.eq_of_mem_replicate hch]
      exact ⟨by decide, .inl rfl⟩
    · exact ⟨(ih ch hch).1, (ih ch hch).2.imp_right (List.mem_cons_of_mem _)⟩
  | char hne h ih =>
    intro ch hch
    rcases List.mem_cons.1 hch with rfl | hch
    · exact ⟨hne, .inr List.mem_cons_self⟩
    · exact ⟨(ih ch hch).1, (ih ch hch).2.imp_right (List.mem_cons_of_mem _)⟩

/-- What stands at the start of the second text, other than a space, stands there in the first. -/
theorem of_append_right {w cs ds : List Char} (hw : ' ' ∉ w) (h : Expands cs (w ++ ds)) :
    ∃ cs', cs = w ++ cs' ∧ Expands cs' ds := by
  induction w generalizing cs with
  | nil => exact ⟨cs, rfl, h⟩
  | cons ch w ih =>
    rw [List.cons_append] at h
    generalize hds : ch :: (w ++ ds) = ds' at h
    cases h with
    | nil => cases hds
    | tab n h =>
      rw [List.replicate_succ, List.cons_append] at hds
      exact absurd ((List.cons.inj hds).1 ▸ List.mem_cons_self) hw
    | char hch h =>
      obtain ⟨rfl, rfl⟩ := List.cons.inj hds
      obtain ⟨cs', rfl, h'⟩ := ih (fun hmem => hw (List.mem_cons_of_mem _ hmem)) h
      exact ⟨cs', rfl, h'⟩

/-- What stands at the start of the first text without a tab, stands there in the second. -/
theorem of_append_left {w cs ds : List Char} (hw : '\t' ∉ w) (h : Expands (w ++ cs) ds) :
    ∃ ds', ds = w ++ ds' ∧ Expands cs ds' := by
  obtain ⟨w', ds', rfl, hw', h⟩ := of_append h
  exact ⟨ds', by rw [hw'.eq_of_noTab hw], h⟩

variable {cs ds : List Char}

/-! ## Scanning -/

theorem head? (h : Expands cs ds) {ch : Char} (hch : ch ≠ '\t') (hch' : ch ≠ ' ') :
    ch ∈ cs.head? ↔ ch ∈ ds.head? := by
  cases h with
  | nil => rfl
  | tab n h => simp [List.replicate_succ, hch.symm, hch'.symm]
  | char _ h => rfl

theorem isPrefixOf (h : Expands cs ds) {w : List Char} (hw : '\t' ∉ w) (hw' : ' ' ∉ w) :
    w.isPrefixOf cs = w.isPrefixOf ds := by
  rw [Bool.eq_iff_iff, List.isPrefixOf_iff_prefix, List.isPrefixOf_iff_prefix]
  constructor
  · rintro ⟨rest, rfl⟩
    obtain ⟨ds', rfl, -⟩ := h.of_append_left hw
    exact List.prefix_append _ _
  · rintro ⟨rest, rfl⟩
    obtain ⟨cs', rfl, -⟩ := h.of_append_right hw'
    exact List.prefix_append _ _

/-- A run of characters that are neither blanks nor tabs is the same before the expansion. -/
theorem span {p : Char → Bool} (h : Expands cs ds) (htab : p '\t' = false)
    (hspace : p ' ' = false) :
    cs.takeWhile p = ds.takeWhile p ∧ Expands (cs.dropWhile p) (ds.dropWhile p) := by
  induction h with
  | nil => exact ⟨rfl, .nil⟩
  | tab n h _ =>
    have hexpands := h.tab n
    rw [List.replicate_succ, List.cons_append] at hexpands ⊢
    simp only [List.takeWhile_cons, List.dropWhile_cons, htab, hspace]
    exact ⟨rfl, hexpands⟩
  | char hch h ih =>
    rw [List.takeWhile_cons, List.takeWhile_cons, List.dropWhile_cons, List.dropWhile_cons]
    split
    · exact ⟨by rw [ih.1], ih.2⟩
    · exact ⟨rfl, .char hch h⟩

theorem noWordChar_tab : isWordChar '\t' = false ∧ isDigit '\t' = false :=
  Cursor.noWordChar_of_isBlank (by decide)

theorem noWordChar_space : isWordChar ' ' = false ∧ isDigit ' ' = false :=
  Cursor.noWordChar_of_isBlank (by decide)

theorem digits (h : Expands cs ds) : cs.takeWhile isDigit = ds.takeWhile isDigit ∧
    Expands (cs.dropWhile isDigit) (ds.dropWhile isDigit) :=
  h.span noWordChar_tab.2 noWordChar_space.2

theorem dropWhile_line (h : Expands cs ds) :
    Expands (cs.dropWhile (· ≠ '\n')) (ds.dropWhile (· ≠ '\n')) := by
  induction h with
  | nil => exact .nil
  | tab n h ih =>
    have hspaces : ∀ ch ∈ List.replicate (n + 1) ' ', decide (ch ≠ '\n') = true := by
      intro ch hch
      rw [List.eq_of_mem_replicate hch]
      decide
    rw [List.dropWhile_append_of_pos hspaces]
    exact ih
  | char hch h ih =>
    rw [List.dropWhile_cons, List.dropWhile_cons]
    split
    · exact ih
    · exact .char hch h

theorem scanFraction (h : Expands cs ds) :
    (Numeral.scanFraction cs).1 = (Numeral.scanFraction ds).1 ∧
      Expands (Numeral.scanFraction cs).2 (Numeral.scanFraction ds).2 := by
  by_cases hpoint : '.' ∈ cs.head?
  · obtain ⟨cs', rfl⟩ : ∃ cs', cs = '.' :: cs' := List.head?_eq_some_iff.1 hpoint
    obtain ⟨ds', rfl, h'⟩ := h.of_append_left (w := ['.']) (by decide)
    obtain ⟨htake, hdrop⟩ := h'.digits
    simp only [List.cons_append, List.nil_append, Numeral.scanFraction, htake]
    split
    · exact ⟨rfl, h⟩
    · exact ⟨rfl, hdrop⟩
  · have hnone : ∀ cs : List Char, '.' ∉ cs.head? → Numeral.scanFraction cs = ([], cs) := by
      intro cs hcs
      unfold Numeral.scanFraction
      split
      · exact absurd rfl hcs
      · rfl
    rw [hnone cs hpoint, hnone ds (by rwa [← h.head? (by decide) (by decide)])]
    exact ⟨rfl, h⟩

theorem scanExponent (h : Expands cs ds) :
    (Numeral.Exponent.scan? cs).map Prod.fst = (Numeral.Exponent.scan? ds).map Prod.fst := by
  cases h with
  | nil => rfl
  | tab n h => simp [Numeral.Exponent.scan?, List.replicate_succ]
  | @char mark cs ds hch h =>
    have htake : ∀ {cs ds}, Expands cs ds → cs.takeWhile isDigit = ds.takeWhile isDigit :=
      fun h => h.digits.1
    have hsigned : ∀ sign : Char, sign = '+' ∨ sign = '-' → sign ∈ cs.head? →
        (Numeral.Exponent.scan? (mark :: cs)).map Prod.fst =
          (Numeral.Exponent.scan? (mark :: ds)).map Prod.fst := by
      intro sign hsign hhead
      obtain ⟨cs', rfl⟩ : ∃ cs', cs = sign :: cs' := List.head?_eq_some_iff.1 hhead
      have hne : '\t' ∉ [sign] := by rcases hsign with rfl | rfl <;> decide
      obtain ⟨ds', rfl, h'⟩ := h.of_append_left hne
      rcases hsign with rfl | rfl
      all_goals
        simp only [Numeral.Exponent.scan?, List.cons_append, List.nil_append, htake h']
        split
        · split <;> rfl
        · rfl
    have hunsigned : ∀ cs : List Char, '+' ∉ cs.head? → '-' ∉ cs.head? →
        (Numeral.Exponent.scan? (mark :: cs)).map Prod.fst =
          if mark = 'e' ∨ mark = 'E' then
            if cs.takeWhile isDigit = [] then none else some ⟨mark, none, cs.takeWhile isDigit⟩
          else none := by
      intro cs hplus hminus
      simp only [Numeral.Exponent.scan?]
      split
      · split
        · exact absurd rfl hplus
        · exact absurd rfl hminus
        · dsimp only
          split <;> rfl
      · rfl
    by_cases hplus : '+' ∈ cs.head?
    · exact hsigned '+' (.inl rfl) hplus
    · by_cases hminus : '-' ∈ cs.head?
      · exact hsigned '-' (.inr rfl) hminus
      · rw [hunsigned cs hplus hminus, hunsigned ds (mt (h.head? (by decide) (by decide)).2 hplus)
          (mt (h.head? (by decide) (by decide)).2 hminus), htake h]

/-- The same numeral is scanned before the expansion of tabs and after it. -/
theorem scan? (h : Expands cs ds) :
    (Numeral.scan? cs).map Prod.fst = (Numeral.scan? ds).map Prod.fst := by
  obtain ⟨htake, hdrop⟩ := h.digits
  obtain ⟨hfraction, hrest⟩ := hdrop.scanFraction
  have hexponent := hrest.scanExponent
  simp only [Numeral.scan?, htake, hfraction]
  split
  · rfl
  · cases hc : Numeral.Exponent.scan? (Numeral.scanFraction (cs.dropWhile isDigit)).2 <;>
      cases hd : Numeral.Exponent.scan? (Numeral.scanFraction (ds.dropWhile isDigit)).2 <;>
      simp_all

/-! ## Tokens -/

/-- The same token stands first before the expansion of tabs and after it. -/
theorem leadingToken? (h : Expands cs ds) :
    Report.leadingToken? cs = Report.leadingToken? ds := by
  have hword := (h.span (p := isWordChar) noWordChar_tab.1 noWordChar_space.1).1
  have hlong : ∀ ls : List String, (∀ l ∈ ls, '\t' ∉ l.toList ∧ ' ' ∉ l.toList) →
      (ls.find? fun l => l.toList.isPrefixOf cs) = ls.find? fun l => l.toList.isPrefixOf ds := by
    intro ls hls
    induction ls with
    | nil => rfl
    | cons l ls ih =>
      obtain ⟨htab, hspace⟩ := hls l List.mem_cons_self
      rw [List.find?_cons, List.find?_cons, h.isPrefixOf htab hspace,
        ih fun l hl => hls l (List.mem_cons_of_mem _ hl)]
  have hscan := h.scan?
  have hlast : (if cs.head?.any isBlank then none else cs.head?.map ([·])) =
      if ds.head?.any isBlank then none else ds.head?.map ([·]) := by
    cases h with
    | nil => rfl
    | tab n h =>
      have htab : isBlank '\t' = true := by decide
      have hspace : isBlank ' ' = true := by decide
      simp [List.replicate_succ, htab, hspace]
    | char _ h => rfl
  simp only [Report.leadingToken?, hword, hlong Report.longSymbols (by decide), hlast]
  cases hc : Numeral.scan? cs <;> cases hd : Numeral.scan? ds <;> simp_all

theorem dropSomeSkipped_spaces (k n : Nat) (cs : List Char) :
    Report.dropSomeSkipped (k + n) (List.replicate k ' ' ++ cs) = Report.dropSomeSkipped n cs := by
  induction k with
  | zero => rw [Nat.zero_add]; rfl
  | succ k ih =>
    have hspace : isBlank ' ' = true := by decide
    rw [Nat.add_right_comm, List.replicate_succ, List.cons_append, ← ih]
    simp [Report.dropSomeSkipped, hspace]

/-- Where no comment begins, one character is passed or none. -/
theorem dropSomeSkipped_cons {n : Nat} {ch : Char} {cs : List Char}
    (h : ch = '/' → '/' ∉ cs.head?) :
    Report.dropSomeSkipped (n + 1) (ch :: cs) =
      if isBlank ch then Report.dropSomeSkipped n cs else ch :: cs := by
  simp only [Report.dropSomeSkipped]
  split
  · obtain ⟨rfl, rfl⟩ := List.cons.inj ‹_›
    exact absurd rfl (h rfl)
  · obtain ⟨rfl, rfl⟩ := List.cons.inj ‹_›
    rfl
  · cases ‹ch :: cs = []›

/-- Blanks and comments are passed alike. -/
theorem dropSomeSkipped {n m : Nat} (h : Expands cs ds) (hn : cs.length ≤ n)
    (hm : ds.length ≤ m) :
    Expands (Report.dropSomeSkipped n cs) (Report.dropSomeSkipped m ds) := by
  induction n generalizing m cs ds with
  | zero =>
    obtain rfl := List.eq_nil_of_length_eq_zero (Nat.le_zero.1 hn)
    cases h
    cases m <;> exact .nil
  | succ n ih =>
    cases h with
    | nil => cases m <;> exact .nil
    | @tab k cs ds h =>
      have htab : isBlank '\t' = true := by decide
      simp only [List.length_append, List.length_replicate, List.length_cons] at hn hm
      obtain ⟨m, rfl⟩ := Nat.exists_eq_add_of_le (Nat.le_trans (Nat.le_add_right _ _) hm)
      rw [dropSomeSkipped_spaces, dropSomeSkipped_cons fun h => absurd h (by decide), if_pos htab]
      exact ih h (by omega) (by omega)
    | @char ch cs ds hch h =>
      obtain ⟨m, rfl⟩ : ∃ m', m = m' + 1 := ⟨m - 1, by simp at hm; omega⟩
      simp only [List.length_cons] at hn hm
      by_cases hcomment : ch = '/' ∧ '/' ∈ cs.head?
      · obtain ⟨rfl, hstroke⟩ := hcomment
        obtain ⟨cs, rfl⟩ : ∃ cs', cs = '/' :: cs' := List.head?_eq_some_iff.1 hstroke
        obtain ⟨ds, rfl, h'⟩ := h.of_append_left (w := ['/']) (by decide)
        have hcs := (List.dropWhile_sublist (l := cs) (· ≠ '\n')).length_le
        have hds := (List.dropWhile_sublist (l := ds) (· ≠ '\n')).length_le
        simp only [List.length_cons, List.cons_append, List.nil_append] at hn hm ⊢
        exact ih (m := m) h'.dropWhile_line (by omega) (by omega)
      · have hcs : ch = '/' → '/' ∉ cs.head? := fun hch hstroke => hcomment ⟨hch, hstroke⟩
        have hds : ch = '/' → '/' ∉ ds.head? :=
          fun hch => mt (h.head? (by decide) (by decide)).2 (hcs hch)
        rw [dropSomeSkipped_cons hcs, dropSomeSkipped_cons hds]
        split
        · exact ih h (by omega) (by omega)
        · exact .char hch h

/-- Behind blanks and comments stands the same, with its own tabs expanded. -/
theorem dropSkipped (h : Expands cs ds) :
    Expands (Report.dropSkipped cs) (Report.dropSkipped ds) :=
  h.dropSomeSkipped (Nat.le_refl _) (Nat.le_refl _)

/-- A text has the same tokens with spaces in place of its tabs. -/
theorem tokens (h : Expands cs ds) : Report.tokens cs = Report.tokens ds := by
  generalize hn : cs.length = n
  induction n using Nat.strongRecOn generalizing cs ds with
  | ind n ih =>
    have hskip := h.dropSkipped
    have htoken : Report.nextToken? cs = Report.nextToken? ds := hskip.leadingToken?
    cases hc : Report.nextToken? cs with
    | none => rw [Report.tokens_eq_nil hc, Report.tokens_eq_nil (htoken ▸ hc)]
    | some w =>
      have hd : Report.nextToken? ds = some w := htoken ▸ hc
      obtain ⟨ds', hds⟩ := (Report.prefix_of_leadingToken? hd).1
      obtain ⟨cs', hcs⟩ := (Report.prefix_of_leadingToken? hc).1
      have htab : '\t' ∉ w := by
        intro hmem
        exact (hskip.mem '\t' (hds ▸ List.mem_append_left _ hmem)).1 rfl
      have hrest : Expands cs' ds' := by
        rw [← hcs, ← hds] at hskip
        obtain ⟨ds'', heq, hrest⟩ := hskip.of_append_left htab
        rwa [← List.append_cancel_left heq] at hrest
      have hlength := Report.length_behind_token_lt hc
      rw [Report.tokens_of_nextToken? hc, Report.tokens_of_nextToken? hd, ← hcs, ← hds,
        List.drop_left, List.drop_left]
      rw [← hcs, List.drop_left] at hlength
      exact congrArg _ (ih _ (hn ▸ hlength) hrest rfl)

end Expands
end Quill
