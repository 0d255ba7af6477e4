import Quill.Proofs.Grammar.Delimited

/-!
# What is derived is read

Where the tokens of a derivation stand apart, they are read as the tree that they derive. A reader
is greedy, so it reads no less, and it reads no more if the token behind the phrase cannot continue
it. A chain of operators that group to the left is read from its first operand on, so its left part,
which is a phrase of the same level, is not read by itself: instead reading the whole chain passes
through the left part with the cursor behind it.

## Main definitions

* `Tree.unplaced` — a tree without the places where its names were read.
* `continuations k`, `Ends k ts` — the symbols that continue an expression of level `k`, and that
  none of them comes next.
* `Reaches` — reading a chain passes through an operand and a cursor.
* `ReadsAt filename inner k c e d` — the reader of level `k` reads `e` from `c` to `d`.
* `Phrase.IsRead filename p ts` — the phrase `p` is read wherever its tokens `ts` stand apart.
-/

namespace Quill

open Text

/-! ## Trees up to places -/

namespace Tree

mutual

/-- A tree without the places where its names were read. -/
def unplaced : Tree → Tree
  | token t => token ⟨t.value, none⟩
  | list items => list (unplacedAll items)
  | program statements => program (unplacedAll statements)
  | variableDeclaration name initializer => variableDeclaration name.unplaced initializer.unplaced
  | functionDeclaration name params body =>
    functionDeclaration name.unplaced (unplacedAll params) body.unplaced
  | assignment target source => assignment target.unplaced source.unplaced
  | whileLoop test body => whileLoop test.unplaced (unplacedAll body)
  | print argument => print argument.unplaced
  | call callee args => call callee.unplaced (unplacedAll args)
  | conditional test consequent alternate =>
    conditional test.unplaced consequent.unplaced alternate.unplaced
  | binary operator left right => binary operator left.unplaced right.unplaced
  | unary operator operand => unary operator operand.unplaced
  | absent => absent
  | literal value => literal value
  | text value => text value
  | entity e => entity e

/-- Trees without the places where their names were read. -/
def unplacedAll : List Tree → List Tree
  | [] => []
  | t :: ts => t.unplaced :: unplacedAll ts

end

end Tree

/-! ## Follow -/

/-- The symbols that continue an expression of a level: the parenthesis of a call, and the operators
up to the level. -/
def continuations : Nat → List String
  | 0 => ["("]
  | 1 => powerSymbols ++ continuations 0
  | 2 => continuations 1
  | j + 3 => chainSymbols.getD j ["?"] ++ continuations (j + 2)

/-- The next token continues no expression of the level. -/
def Ends (k : Nat) (ts : List String) : Prop :=
  ∀ s ∈ continuations k, ∀ w ∈ ts.head?, ¬ s.toList <+: w.toList

theorem ends_cons {k : Nat} {w : String} {ts : List String}
    (h : ∀ s ∈ continuations k, ¬ s.toList <+: w.toList) : Ends k (w :: ts) := by
  intro s hs w' hw'
  rw [← Option.some.inj hw']
  exact h s hs

/-- What may continue a tighter expression may continue a looser one. -/
theorem continuations_subset {j k : Nat} (h : j ≤ k) : continuations j ⊆ continuations k := by
  induction k with
  | zero =>
    obtain rfl := Nat.le_zero.1 h
    exact List.Subset.refl _
  | succ k ih =>
    have hstep : continuations k ⊆ continuations (k + 1) := by
      match k with
      | 0 => exact List.subset_append_right _ _
      | 1 => exact List.Subset.refl _
      | j + 2 => exact List.subset_append_right _ _
    rcases Nat.lt_or_ge k j with hlt | hge
    · obtain rfl : j = k + 1 := Nat.le_antisymm h hlt
      exact List.Subset.refl _
    · exact List.Subset.trans (ih hge) hstep

theorem Ends.mono {j k : Nat} {ts : List String} (h : Ends k ts) (hjk : j ≤ k) : Ends j ts :=
  fun s hs => h s (continuations_subset hjk hs)

/-- All symbols that continue an expression are symbols of the language. -/
theorem symbol_of_mem_continuations {k : Nat} {s : String} (hs : s ∈ continuations k) :
    s ∈ punctuation ++ operatorSymbols := by
  have hchain : ∀ j, ∀ s ∈ chainSymbols.getD j ["?"], s ∈ punctuation ++ operatorSymbols := by
    intro j s hs
    have hall : ∀ symbols ∈ chainSymbols, ∀ s ∈ symbols, s ∈ punctuation ++ operatorSymbols := by
      decide
    rw [List.getD_eq_getElem?_getD] at hs
    cases hj : chainSymbols[j]? with
    | none =>
      rw [hj] at hs
      obtain rfl := List.mem_singleton.1 hs
      decide
    | some symbols =>
      rw [hj] at hs
      exact hall symbols (List.mem_of_getElem? hj) s hs
  have htight : ∀ s ∈ continuations 2, s ∈ punctuation ++ operatorSymbols := by decide
  induction k with
  | zero => exact htight s (continuations_subset (Nat.zero_le _) hs)
  | succ k ih =>
    match k with
    | 0 => exact htight s hs
    | 1 => exact htight s hs
    | j + 2 =>
      rcases List.mem_append.1 hs with hs | hs
      · exact hchain j s hs
      · exact ih hs

/-- The level whose operators may not follow when a phrase is read. Behind a chain the operators of
its own level may follow, since reading goes on with them. -/
def followLevel (k : Nat) : Nat := if 3 ≤ k ∧ k < topLevel then k - 1 else k

theorem followLevel_mono {j k : Nat} (h : j ≤ k) : followLevel j ≤ followLevel k := by
  unfold followLevel topLevel
  split <;> split <;> omega

/-! ## Reading at a level -/

/-- Reading a chain passes through an operand, with as many rounds left as characters. -/
def Reaches (lower : Reader Tree) (symbols : List String) (c : Cursor) (e : Tree) (d : Cursor) :
    Prop :=
  ∃ first c₁ n, lower c = .ok (first, c₁) ∧ d.ahead.length ≤ n ∧
    readMoreOperands lower symbols c₁.ahead.length first c₁ =
      readMoreOperands lower symbols n e d

section Levels

variable {filename : String} {inner : Reader Tree}

/-- The reader of powers below a sign or none. -/
def powerReader (filename : String) (inner : Reader Tree) (behindSign : Bool) : Reader Tree :=
  fun c => readPower (readOperand filename inner behindSign) c.ahead.length c

/-- The reader of a level reads the expression between the cursors. -/
def ReadsAt (filename : String) (inner : Reader Tree) : Nat → Cursor → Tree → Cursor → Prop
  | 0, c, e, d => ∀ s, readOperand filename inner s c = .ok (e, d)
  | 1, c, e, d => ∀ s n, c.ahead.length ≤ n →
    readPower (readOperand filename inner s) n c = .ok (e, d)
  | 2, c, e, d => ∀ s n, c.ahead.length ≤ n →
    readSigned (powerReader filename inner) n s c = .ok (e, d)
  | j + 3, c, e, d =>
    match chainSymbols[j]? with
    | some symbols => Reaches (chainReader filename inner j) symbols c e d
    | none => readLevels filename inner c = .ok (e, d)

theorem readMoreOperands_of_none {lower : Reader Tree} {symbols : List String} {e : Tree}
    {d : Cursor} (h : d.firstSymbol? symbols = none) (n : Nat) :
    readMoreOperands lower symbols n e d = (e, d) := by
  cases n with
  | zero => rfl
  | succ n => simp only [readMoreOperands, h]

/-- A chain ends where none of its operators follows. -/
theorem Reaches.readChain {lower : Reader Tree} {symbols : List String} {c d : Cursor} {e : Tree}
    (h : Reaches lower symbols c e d) (hd : d.firstSymbol? symbols = none) :
    readChain lower symbols c = .ok (e, d) := by
  obtain ⟨first, c₁, n, hfirst, -, hmore⟩ := h
  rw [readMoreOperands_of_none hd] at hmore
  rw [Quill.readChain, hfirst, ok_bind]
  exact congrArg Except.ok hmore

/-- A chain goes on where one of its operators follows with an operand behind it. -/
theorem Reaches.step {lower : Reader Tree} {symbols : List String} {s : String}
    {c c₁ c₂ d : Cursor} {l r : Tree} (h : Reaches lower symbols c l c₁)
    (hsymbol : c₁.firstSymbol? symbols = some (s, c₂)) (hr : lower c₂ = .ok (r, d))
    (hlt : c₂.ahead.length < c₁.ahead.length) (hle : d.ahead.length ≤ c₂.ahead.length) :
    Reaches lower symbols c (.binary s l r) d := by
  obtain ⟨first, c₀, n, hfirst, hn, hmore⟩ := h
  obtain ⟨n, rfl⟩ : ∃ n', n = n' + 1 := ⟨n - 1, by omega⟩
  refine ⟨first, c₀, n, hfirst, by omega, ?_⟩
  rw [hmore]
  simp only [readMoreOperands, hsymbol, hr]

/-- What is read below a chain is a chain of one operand. -/
theorem Reaches.of_lower {lower : Reader Tree} {symbols : List String} {c d : Cursor} {e : Tree}
    (h : lower c = .ok (e, d)) : Reaches lower symbols c e d :=
  ⟨e, d, d.ahead.length, h, Nat.le_refl _, rfl⟩

/-- None of the operators of a level stands where the tokens end an expression of that level. -/
theorem firstSymbol?_of_ends {k : Nat} {ts : List String} {c : Cursor} {symbols : List String}
    (hc : c.Spells ts) (hts : Ends k ts) (hsymbols : symbols ⊆ continuations k) :
    c.firstSymbol? symbols = none :=
  hc.firstSymbol?_eq_none (fun _ hs => symbol_of_mem_continuations (hsymbols hs))
    fun s hs => hts s (hsymbols hs)

theorem chainSymbols_getElem? {j : Nat} (hj : j < 5) :
    chainSymbols[j]? = some (chainSymbols.getD j []) ∧
      chainSymbols.getD j [] ⊆ continuations (j + 3) := by
  have hall : ∀ j < 5, chainSymbols[j]? = some (chainSymbols.getD j []) ∧
      chainSymbols.getD j [] = chainSymbols.getD j ["?"] := by decide
  obtain ⟨hsome, heq⟩ := hall j hj
  exact ⟨hsome, heq ▸ List.subset_append_left _ _⟩

variable {c d : Cursor} {e : Tree} {ts : List String}

/-- Where an operand begins, no sign stands. -/
theorem firstSymbol?_of_opensOperand {ch : Char} (hch : ch ∈ c.skip.ahead.head?)
    (h : opensOperand ch) : c.firstSymbol? signSymbols = none := by
  have hsymbol : ∀ sign ∈ signSymbols, sign ∈ punctuation ++ operatorSymbols ∧
      ∀ ch ∈ sign.toList, ch ≠ '(' := by decide
  refine Cursor.firstSymbol?_eq_none_iff.2 ?_
  rintro sign hsign ⟨rest, hrest⟩
  obtain ⟨hmem, hparen⟩ := hsymbol sign hsign
  obtain ⟨hne, hchars⟩ := isSymbolChar_of_mem sign hmem
  obtain ⟨x, xs, hx⟩ := List.exists_cons_of_ne_nil hne
  have hxs : x ∈ sign.toList := hx ▸ List.mem_cons_self
  rw [← hrest, hx] at hch
  rw [← Option.some.inj hch, (hchars x hxs).noOperand (hparen x hxs)] at h
  cases h

/-- What the chains read is a whole expression, if no question mark follows. -/
theorem readLevels_of_chainReader (h : chainReader filename inner 5 c = .ok (e, d))
    (hd : d.Spells ts) (hts : Ends topLevel ts) : readLevels filename inner c = .ok (e, d) := by
  have hquestion : d.symbol? "?" = none := by
    refine hd.symbol?_eq_none (by decide) (hts "?" ?_)
    exact List.mem_append_left _ List.mem_cons_self
  have harms : readArms? inner d = none := by simp [readArms?, hquestion]
  rw [readLevels_eq, readConditional, h, ok_bind]
  simp only [harms]
  rfl

/-- What is read at the level below, and is followed by no operator of this one, is read at this
one. -/
theorem ReadsAt.chainReader {j : Nat} (h : ReadsAt filename inner (j + 2) c e d) (hj : j ≤ 5)
    (hd : d.Spells ts) (hts : Ends (j + 2) ts) : chainReader filename inner j c = .ok (e, d) := by
  cases j with
  | zero => exact h false _ (Nat.le_refl _)
  | succ j =>
    obtain ⟨hsome, hsubset⟩ := chainSymbols_getElem? hj
    simp only [ReadsAt, hsome] at h
    exact h.readChain (firstSymbol?_of_ends hd hts hsubset)

/-- What is read at a level is read at the next one, if none of its operators is in the way. -/
theorem ReadsAt.succ {k : Nat} (h : ReadsAt filename inner k c e d) (hd : d.Spells ts)
    (hts : Ends (followLevel (k + 1)) ts) : ReadsAt filename inner (k + 1) c e d := by
  match k with
  | 0 =>
    intro s n _
    cases n with
    | zero => exact h s
    | succ n =>
      have hnone := firstSymbol?_of_ends hd hts (List.subset_append_left _ _)
      simp only [readPower, h s, ok_bind, hnone]
      rfl
  | 1 =>
    intro s n _
    have hpower : powerReader filename inner s c = .ok (e, d) := h s _ (Nat.le_refl _)
    cases n with
    | zero => exact hpower
    | succ n =>
      have hnone : c.firstSymbol? signSymbols = none := by
        obtain ⟨ch, hch, hopens⟩ :=
          opens_readPower (opens_readOperand filename inner s) _ c e d hpower
        exact firstSymbol?_of_opensOperand hch hopens
      simp only [readSigned, hnone]
      exact hpower
  | j + 2 =>
    rcases Nat.lt_trichotomy j 5 with hlt | rfl | hgt
    · have hfollow : followLevel (j + 3) = j + 2 := if_pos ⟨by omega, by unfold topLevel; omega⟩
      simp only [ReadsAt, (chainSymbols_getElem? hlt).1]
      exact Reaches.of_lower (h.chainReader (Nat.le_of_lt hlt) hd (hfollow ▸ hts))
    · have hchain := h.chainReader (j := 5) (by decide) hd (hts.mono (by decide))
      exact readLevels_of_chainReader hchain hd hts
    · obtain ⟨i, rfl⟩ : ∃ i, j = i + 6 := ⟨j - 6, by omega⟩
      exact h

/-- What is read at a level is read at every looser one. -/
theorem ReadsAt.mono {j k : Nat} (h : ReadsAt filename inner j c e d) (hjk : j ≤ k)
    (hd : d.Spells ts) (hts : Ends (followLevel k) ts) : ReadsAt filename inner k c e d := by
  induction k with
  | zero =>
    obtain rfl := Nat.le_zero.1 hjk
    exact h
  | succ k ih =>
    rcases Nat.lt_or_ge k j with hlt | hge
    · obtain rfl : j = k + 1 := Nat.le_antisymm hjk hlt
      exact h
    · exact (ih hge (hts.mono (followLevel_mono (Nat.le_succ k)))).succ hd hts

theorem ReadsAt.numeral {n : Numeral} (h : c.Shows (String.ofList n.text) d) (hn : n.IsWellFormed) :
    ReadsAt filename inner 0 c (.number n.value) d := by
  intro s
  simp only [readOperand, h.numeral?_of_isWellFormed hn]

/-- A sign stands in front of what is read behind it. -/
theorem ReadsAt.sign {c₁ : Cursor} {s : String} (hfirst : c.firstSymbol? signSymbols = some (s, c₁))
    (hlt : c₁.ahead.length < c.ahead.length) (h : ReadsAt filename inner signLevel c₁ e d) :
    ReadsAt filename inner signLevel c (.unary s e) d := by
  intro b m hm
  obtain ⟨m, rfl⟩ : ∃ m', m = m' + 1 := ⟨m - 1, by omega⟩
  simp only [readSigned, hfirst, h true m (by omega), ok_bind]
  rfl

end Levels

/-! ## Phrases -/

/-- Wherever the tokens of the phrase stand apart and nothing follows that continues it, the phrase
is read up to places, and the cursor is left behind it. -/
def Phrase.IsRead (filename : String) : Phrase → List String → Prop
  | .expression k e, ts => ∀ n c rest, c.ahead.length ≤ n → c.Spells (ts ++ rest) →
    Ends (followLevel k) rest → ∃ e' d, ReadsAt filename (readNested filename n) k c e' d ∧
      e'.unplaced = e.unplaced ∧ d.Spells rest ∧ d.ahead.length ≤ c.ahead.length
  | .arguments es, ts => ∀ n c rest, c.ahead.length < n → c.Spells (ts ++ ")" :: rest) →
    ∃ es' d, readArguments (readNested filename n) c = (es', d) ∧
      Tree.unplacedAll es' = Tree.unplacedAll es ∧ d.Spells (")" :: rest) ∧
      d.ahead.length ≤ c.ahead.length
  | .moreArguments es, ts => (∀ rest, Ends topLevel (ts ++ ")" :: rest)) ∧
    ∀ n m c rest, c.ahead.length < n → c.ahead.length ≤ m → c.Spells (ts ++ ")" :: rest) →
      ∃ es' d, readMoreArguments (readNested filename n) m c = (es', d) ∧
        Tree.unplacedAll es' = Tree.unplacedAll es ∧ d.Spells (")" :: rest) ∧
        d.ahead.length ≤ c.ahead.length
  | .parameters ps, ts => ∀ c rest, c.Spells (ts ++ ")" :: rest) →
    ∃ ps' d, readParameters filename c = (ps', d) ∧ Tree.unplacedAll ps' = Tree.unplacedAll ps ∧
      d.Spells (")" :: rest) ∧ d.ahead.length ≤ c.ahead.length
  | .moreParameters ps, ts => ∀ m c rest, c.ahead.length ≤ m → c.Spells (ts ++ ")" :: rest) →
    ∃ ps' d, readMoreParameters filename m c = (ps', d) ∧
      Tree.unplacedAll ps' = Tree.unplacedAll ps ∧ d.Spells (")" :: rest) ∧
      d.ahead.length ≤ c.ahead.length
  | .statement s, ts => ∀ n c rest, c.ahead.length < n → c.Spells (ts ++ rest) →
    ∃ s' d, readStatement filename n c = .ok (some s', d) ∧ s'.unplaced = s.unplaced ∧
      d.Spells rest ∧ d.ahead.length < c.ahead.length
  | .statements ss, ts => ∀ n m c rest, c.ahead.length < n → c.ahead.length ≤ m →
    c.Spells (ts ++ rest) → (∀ w ∈ rest.head?, w = "\x7d") →
    ∃ ss' d, repeatStatements (readStatement filename n) m c = .ok (ss', d) ∧
      Tree.unplacedAll ss' = Tree.unplacedAll ss ∧ d.Spells rest ∧ d.ahead.length ≤ c.ahead.length

namespace Phrase.IsRead

variable {filename : String} {k : Nat}

/-! ## Operands -/

/-- To read an expression at a level it is enough to read it at a tighter one. -/
theorem of_tighter {j : Nat} {e : Tree} {ts : List String} (hjk : j ≤ k)
    (h : ∀ n c rest, c.ahead.length ≤ n → c.Spells (ts ++ rest) → Ends (followLevel k) rest →
      ∃ e' d, ReadsAt filename (readNested filename n) j c e' d ∧ e'.unplaced = e.unplaced ∧
        d.Spells rest ∧ d.ahead.length ≤ c.ahead.length) :
    (expression k e).IsRead filename ts := by
  intro n c rest hn hc hrest
  obtain ⟨e', d, hread, hsame, hd, hlength⟩ := h n c rest hn hc hrest
  exact ⟨e', d, hread.mono hjk hd hrest, hsame, hd, hlength⟩

/-- An expression is read inside of another one. -/
theorem nested {e : Tree} {ts rest : List String} {n : Nat} {c : Cursor}
    (h : (expression topLevel e).IsRead filename ts) (hn : c.ahead.length < n)
    (hc : c.Spells (ts ++ rest)) (hrest : Ends topLevel rest) :
    ∃ e' d, readNested filename n c = .ok (e', d) ∧ e'.unplaced = e.unplaced ∧ d.Spells rest ∧
      d.ahead.length ≤ c.ahead.length := by
  cases n with
  | zero => exact absurd hn (Nat.not_lt_zero _)
  | succ n => exact h n c rest (Nat.le_of_lt_succ hn) hc hrest

theorem numeral {n : Numeral} (hn : n.IsWellFormed) :
    (expression k (.number n.value)).IsRead filename [String.ofList n.text] := by
  refine of_tighter (Nat.zero_le k) ?_
  rintro - c rest - ⟨d, hshows, hd⟩ -
  exact ⟨_, d, .numeral hshows hn, rfl, hd, Nat.le_of_lt hshows.length_lt⟩

theorem truth : (expression k (.boolean true)).IsRead filename ["true"] := by
  refine of_tighter (Nat.zero_le k) ?_
  rintro - c rest - ⟨d, hshows, hd⟩ -
  refine ⟨_, d, ?_, rfl, hd, Nat.le_of_lt hshows.length_lt⟩
  intro s
  have hnumeral := hshows.numeral?_of_mem_keywords (by decide)
  simp only [readOperand, hnumeral, hshows.keyword?_self]

theorem falsehood : (expression k (.boolean false)).IsRead filename ["false"] := by
  refine of_tighter (Nat.zero_le k) ?_
  rintro - c rest - ⟨d, hshows, hd⟩ -
  refine ⟨_, d, ?_, rfl, hd, Nat.le_of_lt hshows.length_lt⟩
  intro s
  have hnumeral := hshows.numeral?_of_mem_keywords (by decide)
  have htrue : c.skip.keyword? "true" = none := hshows.keyword?_eq_none (by decide) (by decide)
  simp only [readOperand, hnumeral, htrue, hshows.keyword?_self]

/-- A name is read as one, and what follows decides whether it is called. -/
theorem readOperand_of_isName (filename : String) (inner : Reader Tree) {c d : Cursor}
    {w : String} (h : c.Shows w d) (hw : IsName w) : ∃ t : Token, t.value = w ∧ ∀ s,
      readOperand filename inner s c = .ok (match readCall? inner d with
        | some (args, next) => (.call (.token t) args, next)
        | none => (.token t, d)) := by
  obtain ⟨t, ht, hname⟩ := h.name?_of_isName hw filename
  refine ⟨t, ht, ?_⟩
  intro s
  have hnumeral := h.numeral?_eq_none hw.noDigit
  have htrue : c.skip.keyword? "true" = none := h.keyword?_of_isName hw (by decide)
  have hfalse : c.skip.keyword? "false" = none := h.keyword?_of_isName hw (by decide)
  simp only [readOperand, hnumeral, htrue, hfalse, hname]
  cases readCall? inner d <;> rfl

theorem name {t : Token} (ht : IsName t.value) :
    (expression k (.token t)).IsRead filename [t.value] := by
  refine of_tighter (Nat.zero_le k) ?_
  rintro n c rest - ⟨d, hshows, hd⟩ hrest
  obtain ⟨t', ht', hread⟩ :=
    readOperand_of_isName filename (readNested filename n) hshows ht
  have hcall : readCall? (readNested filename n) d = none := by
    have hsymbol : d.symbol? "(" = none := by
      refine hd.symbol?_eq_none (by decide) (hrest "(" ?_)
      exact continuations_subset (Nat.zero_le _) List.mem_cons_self
    simp [readCall?, hsymbol]
  rw [hcall] at hread
  exact ⟨_, d, hread, by rw [Tree.unplaced, Tree.unplaced, ht'], hd, Nat.le_of_lt hshows.length_lt⟩

theorem call {t : Token} {es : List Tree} {ts : List String} (ht : IsName t.value)
    (hes : (arguments es).IsRead filename ts) :
    (expression k (.call (.token t) es)).IsRead filename (t.value :: "(" :: (ts ++ [")"])) := by
  refine of_tighter (Nat.zero_le k) ?_
  intro n c rest hn hc _
  simp only [List.cons_append, List.nil_append, List.append_assoc] at hc
  obtain ⟨c₁, hname, c₂, hopen, hc₂⟩ := hc
  have hlt₁ := hname.length_lt
  have hlt₂ := hopen.length_lt
  obtain ⟨es', c₃, hargs, hsame, ⟨d, hclose, hd⟩, hle⟩ := hes n c₂ rest (by omega) hc₂
  have hlt₃ := hclose.length_lt
  obtain ⟨t', ht', hread⟩ :=
    readOperand_of_isName filename (readNested filename n) hname ht
  have hcall : readCall? (readNested filename n) c₁ = some (es', d) := by
    simp [readCall?, hopen.symbol?_self, hargs, hclose.symbol?_self]
  rw [hcall] at hread
  refine ⟨_, d, hread, ?_, hd, by omega⟩
  simp only [Tree.unplaced, ht', hsame]

/-- An expression of the top level in parentheses stands at any level. -/
theorem parentheses {e : Tree} {ts : List String}
    (he : (expression topLevel e).IsRead filename ts) :
    (expression k e).IsRead filename ("(" :: (ts ++ [")"])) := by
  refine of_tighter (Nat.zero_le k) ?_
  intro n c rest hn hc _
  simp only [List.cons_append, List.nil_append, List.append_assoc] at hc
  obtain ⟨c₁, hopen, hc₁⟩ := hc
  have hlt₁ := hopen.length_lt
  obtain ⟨e', c₂, he', hsame, ⟨d, hclose, hd⟩, hle⟩ :=
    he.nested (n := n) (by omega) hc₁ (ends_cons (by decide))
  have hlt₂ := hclose.length_lt
  refine ⟨e', d, ?_, hsame, hd, by omega⟩
  intro s
  have hnumeral := hopen.numeral?_of_symbol (by decide)
  have htrue : c.skip.keyword? "true" = none := hopen.keyword?_eq_none (by decide) (by decide)
  have hfalse : c.skip.keyword? "false" = none := hopen.keyword?_eq_none (by decide) (by decide)
  have hname := hopen.name?_of_symbol (by decide) filename
  simp only [readOperand, hnumeral, htrue, hfalse, hname, hopen.symbol?_self, he', ok_bind,
    expectSymbol, hclose.symbol?_self]
  rfl

/-! ## Operators -/

/-- A power binds its right operand, which may be signed, more tightly than any other operator. -/
theorem power {l r : Tree} {ts us : List String} (hk : Operator.pow.level ≤ k)
    (hl : (expression 0 l).IsRead filename ts) (hr : (expression 1 r).IsRead filename us) :
    (expression k (.binary "**" l r)).IsRead filename (ts ++ "**" :: us) := by
  refine of_tighter hk ?_
  intro n c rest hn hc hrest
  rw [List.append_assoc] at hc
  obtain ⟨l', c₁, hl', hsame, ⟨c₂, hsymbol, hc₂⟩, hle⟩ :=
    hl n c _ hn hc (ends_cons (by decide))
  have hlt := hsymbol.length_lt
  obtain ⟨r', d, hr', hsame', hd, hle'⟩ :=
    hr n c₂ rest (by omega) hc₂ (hrest.mono (followLevel_mono hk))
  refine ⟨.binary "**" l' r', d, ?_, by rw [Tree.unplaced, Tree.unplaced, hsame, hsame'], hd,
    by omega⟩
  intro s m hm
  obtain ⟨m, rfl⟩ : ∃ m', m = m' + 1 := ⟨m - 1, by omega⟩
  have hfirst : c₁.firstSymbol? powerSymbols = some ("**", c₂) :=
    hsymbol.firstSymbol?_self (by decide) (by decide)
  simp only [readPower, hl' s, ok_bind, hfirst, hr' s m (by omega)]
  rfl

theorem sign {s : String} {e : Tree} {ts : List String} (hk : signLevel ≤ k)
    (hs : s ∈ signSymbols) (he : (expression signLevel e).IsRead filename ts) :
    (expression k (.unary s e)).IsRead filename (s :: ts) := by
  refine of_tighter hk ?_
  rintro n c rest hn ⟨c₁, hsymbol, hc₁⟩ hrest
  have hlt := hsymbol.length_lt
  obtain ⟨e', d, he', hsame, hd, hle⟩ :=
    he n c₁ rest (by omega) hc₁ (hrest.mono (followLevel_mono hk))
  have hfirst : c.firstSymbol? signSymbols = some (s, c₁) := by
    simp only [signSymbols, List.mem_cons, List.not_mem_nil, or_false] at hs
    rcases hs with rfl | rfl
    · exact hsymbol.firstSymbol?_self (by decide) (by decide)
    · exact hsymbol.firstSymbol?_self (by decide) (by decide)
  exact ⟨.unary s e', d, he'.sign hfirst hlt, by rw [Tree.unplaced, Tree.unplaced, hsame], hd,
    by omega⟩

/-- Each operator but the power belongs to a chain, where it is found first. -/
theorem exists_chain {op : Operator} (hop : op ≠ .pow) : ∃ j < 5, op.level = j + 3 ∧
    op.leftLevel = j + 3 ∧ op.rightLevel = j + 2 ∧ followLevel (j + 3) = j + 2 ∧
    ((chainSymbols.getD j []).find? fun s => s.toList.isPrefixOf op.symbol.toList) =
      some op.symbol := by
  cases op with
  | pow => exact absurd rfl hop
  | _ => decide

/-- No operator is taken for one of a tighter level, nor for a call. -/
theorem ends_symbol (op : Operator) (ts : List String) :
    Ends (followLevel op.leftLevel) (op.symbol :: ts) := by
  refine ends_cons ?_
  cases op <;> decide

/-- An operator of a chain, with a left operand of its own level and a right one of the level
below. -/
theorem chain {op : Operator} {l r : Tree} {ts us : List String} (hop : op ≠ .pow)
    (hk : op.level ≤ k) (hl : (expression op.leftLevel l).IsRead filename ts)
    (hr : (expression op.rightLevel r).IsRead filename us) :
    (expression k (.binary op.symbol l r)).IsRead filename (ts ++ op.symbol :: us) := by
  refine of_tighter hk ?_
  intro n c rest hn hc hrest
  rw [List.append_assoc] at hc
  obtain ⟨l', c₁, hl', hsame, ⟨c₂, hsymbol, hc₂⟩, hle⟩ :=
    hl n c _ hn hc (ends_symbol op _)
  have hlt := hsymbol.length_lt
  obtain ⟨j, hj, hlevel, hleft, hright, hfollow, hfind⟩ := exists_chain hop
  rw [hleft] at hl'
  rw [hright] at hr
  rw [hlevel]
  have hends : Ends (j + 2) rest := by
    refine hrest.mono ?_
    rw [← hfollow, ← hlevel]
    exact followLevel_mono hk
  obtain ⟨r', d, hr', hsame', hd, hle'⟩ :=
    hr n c₂ rest (by omega) hc₂ (hends.mono (by unfold followLevel; split <;> omega))
  have hchain := hr'.chainReader (Nat.le_of_lt hj) hd hends
  obtain ⟨hsome, hsubset⟩ := chainSymbols_getElem? hj
  have hfirst := hsymbol.firstSymbol?_self
    (fun s hs => symbol_of_mem_continuations (hsubset hs)) hfind
  refine ⟨.binary op.symbol l' r', d, ?_, by rw [Tree.unplaced, Tree.unplaced, hsame, hsame'],
    hd, by omega⟩
  simp only [ReadsAt, hsome] at hl' ⊢
  exact hl'.step hfirst hchain hlt hle'

theorem binary {op : Operator} {l r : Tree} {ts us : List String} (hk : op.level ≤ k)
    (hl : (expression op.leftLevel l).IsRead filename ts)
    (hr : (expression op.rightLevel r).IsRead filename us) :
    (expression k (.binary op.symbol l r)).IsRead filename (ts ++ op.symbol :: us) := by
  by_cases hop : op = .pow
  · subst hop
    exact power hk hl hr
  · exact chain hop hk hl hr

/-- A test below the top level, and two arms at it. -/
theorem conditional {e a b : Tree} {ts us vs : List String} (hk : topLevel ≤ k)
    (he : (expression (topLevel - 1) e).IsRead filename ts)
    (ha : (expression topLevel a).IsRead filename us)
    (hb : (expression topLevel b).IsRead filename vs) :
    (expression k (.conditional e a b)).IsRead filename (ts ++ "?" :: (us ++ ":" :: vs)) := by
  refine of_tighter hk ?_
  intro n c rest hn hc hrest
  simp only [List.cons_append, List.append_assoc] at hc
  obtain ⟨e', c₁, he', hsame, hc₁, hle₁⟩ := he n c _ hn hc (ends_cons (by decide))
  have htest := he'.chainReader (j := 5) (by decide) hc₁ (ends_cons (by decide))
  obtain ⟨c₂, hquestion, hc₂⟩ := hc₁
  have hlt₂ := hquestion.length_lt
  obtain ⟨a', c₃, ha', hsame_a, ⟨c₄, hcolon, hc₄⟩, hle₃⟩ :=
    ha.nested (n := n) (by omega) hc₂ (ends_cons (by decide))
  have hlt₄ := hcolon.length_lt
  obtain ⟨b', d, hb', hsame_b, hd, hle⟩ :=
    hb.nested (n := n) (by omega) hc₄ (hrest.mono (followLevel_mono hk))
  have harms : readArms? (readNested filename n) c₁ = some ((a', b'), d) := by
    simp [readArms?, hquestion.symbol?_self, ha', hcolon.symbol?_self, hb', Except.toOption]
  refine ⟨.conditional e' a' b', d, ?_, ?_, hd, by omega⟩
  · show readLevels filename (readNested filename n) c = .ok (.conditional e' a' b', d)
    rw [readLevels_eq, readConditional, htest, ok_bind]
    simp only [harms]
    rfl
  · rw [Tree.unplaced, Tree.unplaced, hsame, hsame_a, hsame_b]

/-! ## Arguments and parameters -/

theorem noArguments : (arguments []).IsRead filename [] := by
  intro n c rest _ hc
  have hclose : opensExpression ')' = false :=
    (isSymbolChar_of_singleton ')' (by decide)).noExpression (by decide) (by decide)
  obtain ⟨failure, hfailure⟩ := hc.error_of_opens (opens_readNested filename n)
    fun ch hch => Option.some.inj hch ▸ hclose
  exact ⟨[], c, by simp only [readArguments, hfailure], rfl, hc, Nat.le_refl _⟩

theorem noMoreArguments : (moreArguments []).IsRead filename [] := by
  refine ⟨fun rest => ends_cons (by decide), ?_⟩
  rintro n m c rest - - ⟨d, hclose, hd⟩
  have hcomma : c.symbol? "," = none := hclose.symbol?_eq_none (by decide) (by decide)
  refine ⟨[], c, ?_, rfl, ⟨d, hclose, hd⟩, Nat.le_refl _⟩
  cases m with
  | zero => rfl
  | succ m => simp only [readMoreArguments, hcomma]

theorem moreArguments {e : Tree} {es : List Tree} {ts us : List String}
    (he : (expression topLevel e).IsRead filename ts)
    (hes : (Phrase.moreArguments es).IsRead filename us) :
    (Phrase.moreArguments (e :: es)).IsRead filename ("," :: (ts ++ us)) := by
  refine ⟨fun rest => ends_cons (by decide), ?_⟩
  intro n m c rest hn hm hc
  simp only [List.cons_append, List.append_assoc] at hc
  obtain ⟨c₁, hcomma, hc₁⟩ := hc
  have hlt := hcomma.length_lt
  obtain ⟨m, rfl⟩ : ∃ m', m = m' + 1 := ⟨m - 1, by omega⟩
  obtain ⟨hends, hmore⟩ := hes
  obtain ⟨e', c₂, he', hsame, hc₂, hle⟩ := he.nested (n := n) (by omega) hc₁ (hends rest)
  obtain ⟨es', d, hes', hsame', hd, hle'⟩ := hmore n m c₂ rest (by omega) (by omega) hc₂
  refine ⟨e' :: es', d, ?_, ?_, hd, by omega⟩
  · simp only [readMoreArguments, hcomma.symbol?_self, he', hes']
  · rw [Tree.unplacedAll, Tree.unplacedAll, hsame, hsame']

theorem arguments {e : Tree} {es : List Tree} {ts us : List String}
    (he : (expression topLevel e).IsRead filename ts)
    (hes : (Phrase.moreArguments es).IsRead filename us) :
    (Phrase.arguments (e :: es)).IsRead filename (ts ++ us) := by
  intro n c rest hn hc
  rw [List.append_assoc] at hc
  obtain ⟨hends, hmore⟩ := hes
  obtain ⟨e', c₁, he', hsame, hc₁, hle⟩ := he.nested hn hc (hends rest)
  obtain ⟨es', d, hes', hsame', hd, hle'⟩ :=
    hmore n c₁.ahead.length c₁ rest (by omega) (Nat.le_refl _) hc₁
  refine ⟨e' :: es', d, ?_, ?_, hd, by omega⟩
  · simp only [readArguments, he', hes']
  · rw [Tree.unplacedAll, Tree.unplacedAll, hsame, hsame']

theorem noParameters : (parameters []).IsRead filename [] := by
  rintro c rest ⟨d, hclose, hd⟩
  have hname := hclose.name?_of_symbol (by decide) filename
  exact ⟨[], c, by simp only [readParameters, hname], rfl, ⟨d, hclose, hd⟩, Nat.le_refl _⟩

theorem noMoreParameters : (moreParameters []).IsRead filename [] := by
  rintro m c rest - ⟨d, hclose, hd⟩
  have hcomma : c.symbol? "," = none := hclose.symbol?_eq_none (by decide) (by decide)
  refine ⟨[], c, ?_, rfl, ⟨d, hclose, hd⟩, Nat.le_refl _⟩
  cases m with
  | zero => rfl
  | succ m => simp only [readMoreParameters, hcomma, Option.bind_none]

theorem moreParameters {t : Token} {ps : List Tree} {us : List String} (ht : IsName t.value)
    (hps : (Phrase.moreParameters ps).IsRead filename us) :
    (Phrase.moreParameters (.token t :: ps)).IsRead filename ("," :: t.value :: us) := by
  rintro m c rest hm ⟨c₁, hcomma, c₂, hname, hc₂⟩
  have hlt₁ := hcomma.length_lt
  have hlt₂ := hname.length_lt
  obtain ⟨m, rfl⟩ : ∃ m', m = m' + 1 := ⟨m - 1, by omega⟩
  obtain ⟨t', ht', hread⟩ := hname.name?_of_isName ht filename
  obtain ⟨ps', d, hps', hsame, hd, hle⟩ := hps m c₂ rest (by omega) hc₂
  refine ⟨.token t' :: ps', d, ?_, ?_, hd, by omega⟩
  · simp only [readMoreParameters, hcomma.symbol?_self, Option.bind_some, hread, hps']
  · simp only [Tree.unplacedAll, Tree.unplaced, ht', hsame]

theorem parameters {t : Token} {ps : List Tree} {us : List String} (ht : IsName t.value)
    (hps : (Phrase.moreParameters ps).IsRead filename us) :
    (Phrase.parameters (.token t :: ps)).IsRead filename (t.value :: us) := by
  rintro c rest ⟨c₁, hname, hc₁⟩
  have hlt := hname.length_lt
  obtain ⟨t', ht', hread⟩ := hname.name?_of_isName ht filename
  obtain ⟨ps', d, hps', hsame, hd, hle⟩ := hps c₁.ahead.length c₁ rest (Nat.le_refl _) hc₁
  refine ⟨.token t' :: ps', d, ?_, ?_, hd, by omega⟩
  · simp only [readParameters, hread, hps']
  · simp only [Tree.unplacedAll, Tree.unplaced, ht', hsame]

/-! ## Statements -/

/-- An expression with a symbol behind it that ends it. -/
theorem readExpression {e : Tree} {w : String} {ts rest : List String} {c : Cursor}
    (he : (expression topLevel e).IsRead filename ts) (hc : c.Spells (ts ++ w :: rest))
    (hw : ∀ s ∈ continuations topLevel, ¬ s.toList <+: w.toList) :
    ∃ e' d d', Quill.readExpression filename c = .ok (e', d) ∧ d.symbol? w = some d' ∧
      e'.unplaced = e.unplaced ∧ d'.Spells rest ∧ d'.ahead.length < c.ahead.length := by
  obtain ⟨e', d, he', hsame, ⟨d', hsymbol, hd'⟩, hle⟩ :=
    he.nested (Nat.lt_succ_self _) hc (ends_cons hw)
  have hlt := hsymbol.length_lt
  exact ⟨e', d, d', he', hsymbol.symbol?_self, hsame, hd', by omega⟩

theorem readDefinition {e : Tree} {ts rest : List String} {c : Cursor}
    (he : (expression topLevel e).IsRead filename ts)
    (hc : c.Spells ("=" :: (ts ++ ";" :: rest))) :
    ∃ e' d, Quill.readDefinition filename c = .ok (e', d) ∧ e'.unplaced = e.unplaced ∧
      d.Spells rest ∧ d.ahead.length < c.ahead.length := by
  obtain ⟨c₁, hequal, hc₁⟩ := hc
  have hlt := hequal.length_lt
  obtain ⟨e', c₂, d, he', hsymbol, hsame, hd, hlt'⟩ := he.readExpression hc₁ (by decide)
  refine ⟨e', d, ?_, hsame, hd, by omega⟩
  simp only [Quill.readDefinition, expectSymbol, hequal.symbol?_self, ok_bind, he', hsymbol]
  rfl

theorem expectName_of_isName (filename : String) {c d : Cursor} {w : String} (h : c.Shows w d)
    (hw : IsName w) :
    ∃ t : Token, t.value = w ∧ c.name? filename = some (t, d) ∧
      expectName filename c = .ok (t, d) := by
  obtain ⟨t, ht, hname⟩ := h.name?_of_isName hw filename
  exact ⟨t, ht, hname, by simp only [expectName, hname]⟩

theorem variableDeclaration {t : Token} {e : Tree} {ts : List String} (ht : IsName t.value)
    (he : (expression topLevel e).IsRead filename ts) :
    (statement (.variableDeclaration (.token t) e)).IsRead filename
      ("let" :: t.value :: "=" :: (ts ++ [";"])) := by
  intro n c rest hn hc
  simp only [List.cons_append, List.nil_append, List.append_assoc] at hc
  obtain ⟨c₁, hlet, c₂, hname, hc₂⟩ := hc
  have hlt₁ := hlet.length_lt
  have hlt₂ := hname.length_lt
  obtain ⟨n, rfl⟩ : ∃ n', n = n' + 1 := ⟨n - 1, by omega⟩
  obtain ⟨t', ht', -, hexpect⟩ := expectName_of_isName filename hname ht
  obtain ⟨e', d, he', hsame, hd, hlt⟩ := he.readDefinition hc₂
  refine ⟨.variableDeclaration (.token t') e', d, ?_, ?_, hd, by omega⟩
  · simp only [readStatement, hlet.keyword?_self, readCommitted, readVariable, hexpect, ok_bind,
      he']
    rfl
  · simp only [Tree.unplaced, ht', hsame]

/-- A function with its parameters, whose body is an expression. -/
theorem functionDeclaration {t : Token} {ps : List Tree} {e : Tree} {us ts : List String}
    (ht : IsName t.value) (hps : (Phrase.parameters ps).IsRead filename us)
    (he : (expression topLevel e).IsRead filename ts) :
    (statement (.functionDeclaration (.token t) ps e)).IsRead filename
      ("function" :: t.value :: "(" :: (us ++ ")" :: "=" :: (ts ++ [";"]))) := by
  intro n c rest hn hc
  simp only [List.cons_append, List.nil_append, List.append_assoc] at hc
  obtain ⟨c₁, hfunction, c₂, hname, c₃, hopen, hc₃⟩ := hc
  have hlt₁ := hfunction.length_lt
  have hlt₂ := hname.length_lt
  have hlt₃ := hopen.length_lt
  obtain ⟨n, rfl⟩ : ∃ n', n = n' + 1 := ⟨n - 1, by omega⟩
  obtain ⟨t', ht', -, hexpect⟩ := expectName_of_isName filename hname ht
  obtain ⟨ps', c₄, hps', hsame', ⟨c₅, hclose, hc₅⟩, hle₄⟩ := hps c₃ _ hc₃
  have hlt₅ := hclose.length_lt
  obtain ⟨e', d, he', hsame, hd, hlt⟩ := he.readDefinition hc₅
  have hlet : c.skip.keyword? "let" = none :=
    hfunction.keyword?_eq_none (by decide) (by decide)
  refine ⟨.functionDeclaration (.token t') ps' e', d, ?_, ?_, hd, by omega⟩
  · simp only [readStatement, hlet, hfunction.keyword?_self, readCommitted, readFunction, hexpect,
      ok_bind, expectSymbol, hopen.symbol?_self, hps', hclose.symbol?_self, he']
    rfl
  · simp only [Tree.unplaced, ht', hsame, hsame']

theorem assignment {t : Token} {e : Tree} {ts : List String} (ht : IsName t.value)
    (he : (expression topLevel e).IsRead filename ts) :
    (statement (.assignment (.token t) e)).IsRead filename (t.value :: "=" :: (ts ++ [";"])) := by
  intro n c rest hn hc
  simp only [List.cons_append, List.nil_append, List.append_assoc] at hc
  obtain ⟨c₁, hname, hc₁⟩ := hc
  have hlt₁ := hname.length_lt
  obtain ⟨n, rfl⟩ : ∃ n', n = n' + 1 := ⟨n - 1, by omega⟩
  obtain ⟨t', ht', hread, -⟩ := expectName_of_isName filename hname ht
  obtain ⟨e', d, he', hsame, hd, hlt⟩ := he.readDefinition hc₁
  have hkeyword : ∀ k ∈ Cursor.keywords, c.skip.keyword? k = none :=
    fun k hk => hname.keyword?_of_isName ht hk
  have hassignment : readAssignment filename c = some (.assignment (.token t') e', d) := by
    simp [readAssignment, hread, he', Except.toOption]
  refine ⟨.assignment (.token t') e', d, ?_, ?_, hd, by omega⟩
  · simp only [readStatement, hkeyword "let" (by decide), hkeyword "function" (by decide),
      hkeyword "while" (by decide), hkeyword "print" (by decide), hassignment]
  · simp only [Tree.unplaced, ht', hsame]

theorem print {e : Tree} {ts : List String} (he : (expression topLevel e).IsRead filename ts) :
    (statement (.print e)).IsRead filename ("print" :: (ts ++ [";"])) := by
  intro n c rest hn hc
  simp only [List.cons_append, List.nil_append, List.append_assoc] at hc
  obtain ⟨c₁, hprint, hc₁⟩ := hc
  have hlt₁ := hprint.length_lt
  obtain ⟨n, rfl⟩ : ∃ n', n = n' + 1 := ⟨n - 1, by omega⟩
  obtain ⟨e', c₂, d, he', hsymbol, hsame, hd, hlt⟩ := he.readExpression hc₁ (by decide)
  have hkeyword : ∀ k ∈ ["let", "function", "while"], c.skip.keyword? k = none := by
    intro k hk
    have hall : ∀ k ∈ ["let", "function", "while"],
        k ∈ Cursor.keywords ∧ ¬ k.toList <+: "print".toList := by decide
    exact hprint.keyword?_eq_none (hall k hk).1 (hall k hk).2
  refine ⟨.print e', d, ?_, ?_, hd, by omega⟩
  · simp only [readStatement, hkeyword "let" (by decide), hkeyword "function" (by decide),
      hkeyword "while" (by decide), hprint.keyword?_self, readCommitted, readPrint, he', ok_bind,
      expectSymbol, hsymbol]
    rfl
  · simp only [Tree.unplaced, hsame]

theorem whileLoop {e : Tree} {body : List Tree} {ts us : List String}
    (he : (expression topLevel e).IsRead filename ts)
    (hbody : (Phrase.statements body).IsRead filename us) :
    (statement (.whileLoop e body)).IsRead filename
      ("while" :: (ts ++ "\x7b" :: (us ++ ["\x7d"]))) := by
  intro n c rest hn hc
  simp only [List.cons_append, List.nil_append, List.append_assoc] at hc
  obtain ⟨c₁, hwhile, hc₁⟩ := hc
  have hlt₁ := hwhile.length_lt
  obtain ⟨n, rfl⟩ : ∃ n', n = n' + 1 := ⟨n - 1, by omega⟩
  obtain ⟨e', c₂, c₃, he', hopen, hsame, hc₃, hlt₃⟩ := he.readExpression hc₁ (by decide)
  obtain ⟨body', c₄, hbody', hsame', ⟨d, hclose, hd⟩, hle₄⟩ :=
    hbody n c₃.ahead.length c₃ _ (by omega) (Nat.le_refl _) hc₃ (by simp)
  have hlt := hclose.length_lt
  have hkeyword : ∀ k ∈ ["let", "function"], c.skip.keyword? k = none := by
    intro k hk
    have hall : ∀ k ∈ ["let", "function"],
        k ∈ Cursor.keywords ∧ ¬ k.toList <+: "while".toList := by decide
    exact hwhile.keyword?_eq_none (hall k hk).1 (hall k hk).2
  refine ⟨.whileLoop e' body', d, ?_, ?_, hd, by omega⟩
  · simp only [readStatement, hkeyword "let" (by decide), hkeyword "function" (by decide),
      hwhile.keyword?_self, readCommitted, readLoop, he', ok_bind, expectSymbol, hopen, hbody',
      hclose.symbol?_self]
    rfl
  · simp only [Tree.unplaced, hsame, hsame']

/-- No statement is read at the end of the text or of a block. -/
theorem noStatements : (statements []).IsRead filename [] := by
  intro n m c rest _ _ hc hrest
  obtain ⟨hkeyword, hname⟩ := hc.noWord_of_end hrest
  refine ⟨[], c, ?_, rfl, hc, Nat.le_refl _⟩
  have hnone : readStatement filename n c = .ok (none, c) := by
    cases n with
    | zero => rfl
    | succ n =>
      have hassignment : readAssignment filename c = none := by simp [readAssignment, hname]
      simp only [readStatement, hkeyword "let" (by decide), hkeyword "function" (by decide),
        hkeyword "while" (by decide), hkeyword "print" (by decide), hassignment]
  cases m with
  | zero => rfl
  | succ m =>
    simp only [repeatStatements, hnone, ok_bind]
    rfl

theorem statements {s : Tree} {ss : List Tree} {ts us : List String}
    (hs : (statement s).IsRead filename ts) (hss : (Phrase.statements ss).IsRead filename us) :
    (Phrase.statements (s :: ss)).IsRead filename (ts ++ us) := by
  intro n m c rest hn hm hc hrest
  rw [List.append_assoc] at hc
  obtain ⟨s', c₁, hs', hsame, hc₁, hlt⟩ := hs n c _ hn hc
  obtain ⟨m, rfl⟩ : ∃ m', m = m' + 1 := ⟨m - 1, by omega⟩
  obtain ⟨ss', d, hss', hsame', hd, hle⟩ := hss n m c₁ rest (by omega) (by omega) hc₁ hrest
  refine ⟨s' :: ss', d, ?_, ?_, hd, by omega⟩
  · simp only [repeatStatements, hs', ok_bind, hss']
    rfl
  · simp only [Tree.unplacedAll, hsame, hsame']

end Phrase.IsRead

/-- Every derivation whose tokens stand apart is read. -/
theorem Derives.isRead {p : Phrase} {ts : List String} (h : Derives p ts) (filename : String) :
    p.IsRead filename ts := by
  induction h with
  | numeral hn => exact .numeral hn
  | truth => exact .truth
  | falsehood => exact .falsehood
  | name ht => exact .name ht
  | call ht _ ihes => exact .call ht ihes
  | parentheses _ ihe => exact .parentheses ihe
  | binary hk _ _ ihl ihr => exact .binary hk ihl ihr
  | sign hk hs _ ihe => exact .sign hk hs ihe
  | conditional hk _ _ _ ihe iha ihb => exact .conditional hk ihe iha ihb
  | noArguments => exact .noArguments
  | arguments _ _ ihe ihes => exact .arguments ihe ihes
  | noMoreArguments => exact .noMoreArguments
  | moreArguments _ _ ihe ihes => exact .moreArguments ihe ihes
  | noParameters => exact .noParameters
  | parameters ht _ ihps => exact .parameters ht ihps
  | noMoreParameters => exact .noMoreParameters
  | moreParameters ht _ ihps => exact .moreParameters ht ihps
  | variableDeclaration ht _ ihe => exact .variableDeclaration ht ihe
  | functionDeclaration ht _ _ ihps ihe => exact .functionDeclaration ht ihps ihe
  | assignment ht _ ihe => exact .assignment ht ihe
  | print _ ihe => exact .print ihe
  | whileLoop _ _ ihe ihbody => exact .whileLoop ihe ihbody
  | noStatements => exact .noStatements
  | statements _ _ ihs ihss => exact .statements ihs ihss

end Quill
