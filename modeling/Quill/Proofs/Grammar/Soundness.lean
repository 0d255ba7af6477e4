import Quill.Proofs.Grammar.Tabs

/-!
# What is read is derived

Whatever the readers accept is a derivation of the tokens that stand between the place where reading
began and the place where it ended. A reader that gives something back, as a comma without an
argument behind it, ends before it.

A name at the end of an expression needs care: before a dollar sign even a keyword would be read as
a name. But no symbol can follow then, so such an expression is never accepted as part of a program.

## Main definitions

* `Phrase.Between p c d` — between `c` and `d` stands a derivation of `p`, unless a dollar sign
  follows.
* `Sound k r` — what `r` reads is derived at level `k`.
-/

namespace Quill

open Text

/-- Between the cursors stands a derivation of the phrase, unless a dollar sign follows. -/
def Phrase.Between (p : Phrase) (c d : Cursor) : Prop :=
  '$' ∉ d.ahead.head? → ∃ ts, Derives p ts ∧ c.Spans ts d

theorem Phrase.Between.mono {j k : Nat} {e : Tree} {c d : Cursor}
    (h : (Phrase.expression j e).Between c d) (hjk : j ≤ k) :
    (Phrase.expression k e).Between c d := by
  intro hd
  obtain ⟨ts, hts, hpass⟩ := h hd
  exact ⟨ts, hts.mono hjk, hpass⟩

/-- A phrase is derived where a symbol ends it, and another token may follow. -/
theorem Phrase.Between.closed {p : Phrase} {c last d : Cursor} {s : String}
    (h : p.Between c last) (hs : s ∈ punctuation) (hlast : last.symbol? s = some d) :
    d.IsFresh ∧ ∃ ts, Derives p ts ∧ c.Spans (ts ++ [s]) d := by
  obtain ⟨ts, hts, hspan⟩ := h (Cursor.noDollar_of_punctuation hs hlast)
  refine ⟨Cursor.isFresh_of_punctuation hs hlast, ts, hts, ?_⟩
  exact hspan.append (Cursor.Finds.punctuation hs hlast).spans

/-- Whatever is read is an expression at the level. -/
def Sound (k : Nat) (r : Reader Tree) : Prop :=
  ∀ c e d, c.IsFresh → r c = .ok (e, d) → (Phrase.expression k e).Between c d

theorem Sound.mono {j k : Nat} {r : Reader Tree} (h : Sound j r) (hjk : j ≤ k) : Sound k r :=
  fun c e d hc hr => (h c e d hc hr).mono hjk

section Operands

variable {filename : String} {inner : Reader Tree}

/-! ## Arguments -/

theorem noDollar_of_readMoreArguments {n : Nat} {c d : Cursor} {es : List Tree}
    (h : readMoreArguments inner n c = (es, d)) (hd : '$' ∉ d.ahead.head?) :
    '$' ∉ c.ahead.head? := by
  cases n with
  | zero =>
    obtain ⟨-, rfl⟩ := Prod.mk.inj h
    exact hd
  | succ n =>
    cases hnext : c.symbol? "," with
    | none =>
      simp only [readMoreArguments, hnext] at h
      obtain ⟨-, rfl⟩ := Prod.mk.inj h
      exact hd
    | some next => exact Cursor.noDollar_of_punctuation (by decide) hnext

/-- The tokens between the two places derive the arguments that are read there. -/
theorem between_readMoreArguments (hinner : Sound topLevel inner) {n : Nat} {c d : Cursor}
    {es : List Tree} (h : readMoreArguments inner n c = (es, d)) :
    (Phrase.moreArguments es).Between c d := by
  have hnone : ∀ {c d es}, (([], c) : List Tree × Cursor) = (es, d) →
      (Phrase.moreArguments es).Between c d := by
    intro c d es h
    obtain ⟨rfl, rfl⟩ := Prod.mk.inj h
    exact fun _ => ⟨[], .noMoreArguments, .stay c⟩
  induction n generalizing c es with
  | zero => exact hnone h
  | succ n ih =>
    simp only [readMoreArguments] at h
    split at h
    · exact hnone h
    · rename_i next hnext
      split at h
      · exact hnone h
      · rename_i arg next' harg
        obtain ⟨rfl, rfl⟩ := Prod.mk.inj h
        intro hd
        have hfresh := Cursor.isFresh_of_punctuation (by decide) hnext
        obtain ⟨ts, hts, hspan⟩ := hinner _ _ _ hfresh harg (noDollar_of_readMoreArguments rfl hd)
        obtain ⟨us, hus, hspan'⟩ := ih rfl hd
        exact ⟨_, .moreArguments hts hus,
          .token (.punctuation (by decide) hnext) (hspan.append hspan')⟩

theorem between_readArguments (hinner : Sound topLevel inner) {c d : Cursor} {es : List Tree}
    (hc : c.IsFresh) (h : readArguments inner c = (es, d)) :
    (Phrase.arguments es).Between c d := by
  simp only [readArguments] at h
  split at h
  · obtain ⟨rfl, rfl⟩ := Prod.mk.inj h
    exact fun _ => ⟨[], .noArguments, .stay c⟩
  · rename_i arg next harg
    obtain ⟨rfl, rfl⟩ := Prod.mk.inj h
    intro hd
    obtain ⟨ts, hts, hspan⟩ := hinner _ _ _ hc harg (noDollar_of_readMoreArguments rfl hd)
    obtain ⟨us, hus, hspan'⟩ := between_readMoreArguments hinner rfl hd
    exact ⟨_, .arguments hts hus, hspan.append hspan'⟩

/-- The parts of a call behind its name. -/
theorem spans_of_readCall? (hinner : Sound topLevel inner) {c d : Cursor} {es : List Tree}
    (h : readCall? inner c = some (es, d)) :
    '$' ∉ c.ahead.head? ∧
      ∃ ts, Derives (.arguments es) ts ∧ c.Spans ("(" :: (ts ++ [")"])) d := by
  simp only [readCall?, Option.bind_eq_bind, Option.bind_eq_some_iff, Option.pure_def,
    Option.some.injEq, Prod.mk.injEq] at h
  obtain ⟨next, hnext, last, hlast, rfl, rfl⟩ := h
  have hfresh := Cursor.isFresh_of_punctuation (by decide) hnext
  obtain ⟨-, ts, hts, hspan⟩ :=
    (between_readArguments hinner hfresh rfl).closed (by decide) hlast
  refine ⟨Cursor.noDollar_of_punctuation (by decide) hnext, ts, hts, ?_⟩
  exact .token (.punctuation (by decide) hnext) hspan

/-! ## Operands, powers and signs -/

/-- An operand is derived from the tokens that it was read from. -/
theorem sound_readOperand (hinner : Sound topLevel inner) (behindSign : Bool) :
    Sound 0 (readOperand filename inner behindSign) := by
  intro c e d hc h hd
  cases operandAt_of_readOperand h with
  | numeral hn =>
    have hwell := Numeral.isWellFormed_of_scan? (Cursor.numeral?_eq_some_iff.1 hn).1
    exact ⟨_, .numeral hwell, (Cursor.Finds.numeral hn).spans⟩
  | truth hk => exact ⟨_, .truth, (Cursor.Finds.keyword (by decide) hk).spans⟩
  | falsehood hk => exact ⟨_, .falsehood, (Cursor.Finds.keyword (by decide) hk).spans⟩
  | call ht hcall =>
    obtain ⟨hdollar, ts, hts, hspan⟩ := spans_of_readCall? hinner hcall
    have hname := Cursor.isName_of_name? ht hc hdollar
    exact ⟨_, .call hname hts, .token (.name ht hname) hspan⟩
  | name ht =>
    have hname := Cursor.isName_of_name? ht hc hd
    exact ⟨_, .name hname, (Cursor.Finds.name ht hname).spans⟩
  | parentheses hnext he hlast =>
    have hfresh := Cursor.isFresh_of_punctuation (by decide) hnext
    obtain ⟨-, ts, hts, hspan⟩ := (hinner _ _ _ hfresh he).closed (by decide) hlast
    exact ⟨_, .parentheses hts, .token (.punctuation (by decide) hnext) hspan⟩

end Operands

theorem sound_readPower {operand : Reader Tree} (hoperand : Sound 0 operand)
    (hopens : Opens opensOperand operand) (n : Nat) : Sound 1 (readPower operand n) := by
  induction n with
  | zero => exact hoperand.mono (by decide)
  | succ n ih =>
    intro c e d hc h
    obtain ⟨⟨base, c₁⟩, hbase, h⟩ := bind_eq_ok_iff.1 h
    have hleft := hoperand c base c₁ hc hbase
    dsimp only at h
    split at h
    · obtain ⟨rfl, rfl⟩ := Prod.mk.inj (Except.ok.inj h)
      exact hleft.mono (by decide)
    · rename_i symbol next hnext
      split at h
      · rename_i exponent d' hexponent
        obtain ⟨rfl, rfl⟩ := Prod.mk.inj (Except.ok.inj h)
        obtain ⟨hmem, hsymbol⟩ := Cursor.exists_of_firstSymbol? hnext
        obtain rfl := List.mem_singleton.1 hmem
        obtain ⟨ts, hts, hspan⟩ := hleft (Cursor.noDollar_of_operator (by decide) hsymbol)
        obtain ⟨ch, hch, hopen⟩ := opens_readPower hopens n _ _ _ hexponent
        have hfinds : c₁.Finds "**" next :=
          .operator (by decide) hsymbol ⟨ch, hch, by simp [opensExpression, hopen]⟩
        have hfresh := Cursor.isFresh_of_operator (by decide) hsymbol
        intro hd
        obtain ⟨us, hus, hspan'⟩ := ih _ _ _ hfresh hexponent hd
        have hpower : Operator.pow.level ≤ 1 := by decide
        exact ⟨_, .binary hpower hts hus, hspan.append (.token hfinds hspan')⟩
      · obtain ⟨rfl, rfl⟩ := Prod.mk.inj (Except.ok.inj h)
        exact hleft.mono (by decide)

theorem sound_readSigned {lower : Bool → Reader Tree} (hlower : ∀ s, Sound 1 (lower s))
    (hopens : ∀ s, Opens opensOperand (lower s)) (n : Nat) (behindSign : Bool) :
    Sound signLevel (readSigned lower n behindSign) := by
  induction n generalizing behindSign with
  | zero => exact (hlower behindSign).mono (by decide)
  | succ n ih =>
    intro c e d hc h
    simp only [readSigned] at h
    split at h
    · exact (hlower behindSign).mono (by decide) c e d hc h
    · rename_i symbol next hnext
      obtain ⟨⟨operand, d'⟩, hoperand, h⟩ := bind_eq_ok_iff.1 h
      obtain ⟨rfl, rfl⟩ := Prod.mk.inj (Except.ok.inj h)
      obtain ⟨hmem, hsymbol⟩ := Cursor.exists_of_firstSymbol? hnext
      have hmem' : symbol ∈ operatorSymbols :=
        (by decide : ∀ s ∈ signSymbols, s ∈ operatorSymbols) symbol hmem
      have hopen := opens_readSigned hopens n true _ _ _ hoperand
      have hfresh := Cursor.isFresh_of_operator hmem' hsymbol
      intro hd
      obtain ⟨ts, hts, hspan⟩ := ih true _ _ _ hfresh hoperand hd
      exact ⟨_, .sign (by decide) hmem hts, .token (.operator hmem' hsymbol hopen) hspan⟩

/-! ## Levels -/

/-- The operators of a chain are those of its level, and they group to the left. -/
theorem exists_operator_of_chain {j : Nat} {s : String} (hs : s ∈ chainSymbols.getD j []) :
    ∃ op : Operator, op.symbol = s ∧ op.level = j + 3 ∧ op.leftLevel = j + 3 ∧
      op.rightLevel = j + 2 := by
  have hall : ∀ j < 5, ∀ s ∈ chainSymbols.getD j [], ∃ op ∈ Operator.all,
      op.symbol = s ∧ op.level = j + 3 ∧ op.leftLevel = j + 3 ∧ op.rightLevel = j + 2 := by
    decide
  rcases Nat.lt_or_ge j 5 with hj | hj
  · obtain ⟨op, -, hop⟩ := hall j hj s hs
    exact ⟨op, hop⟩
  · rw [List.getD_eq_getElem?_getD, List.getElem?_eq_none hj] at hs
    cases hs

theorem operatorSymbols_of_chain {j : Nat} {s : String} (hs : s ∈ chainSymbols.getD j []) :
    s ∈ operatorSymbols := by
  have hall : ∀ op : Operator, op.symbol ∈ operatorSymbols := by
    intro op
    cases op <;> decide
  obtain ⟨op, rfl, -⟩ := exists_operator_of_chain hs
  exact hall op

/-- Whatever a left operand is extended by, the operands so far are derived. -/
theorem between_readMoreOperands {lower : Reader Tree} {j : Nat} (hlower : Sound (j + 2) lower)
    (hopens : Opens opensExpression lower) {n : Nat} {c₀ c d : Cursor} {left e : Tree}
    (hleft : (Phrase.expression (j + 3) left).Between c₀ c)
    (h : readMoreOperands lower (chainSymbols.getD j []) n left c = (e, d)) :
    (Phrase.expression (j + 3) e).Between c₀ d := by
  induction n generalizing left c with
  | zero =>
    obtain ⟨rfl, rfl⟩ := Prod.mk.inj h
    exact hleft
  | succ n ih =>
    simp only [readMoreOperands] at h
    split at h
    · obtain ⟨rfl, rfl⟩ := Prod.mk.inj h
      exact hleft
    · rename_i symbol next hnext
      split at h
      · obtain ⟨rfl, rfl⟩ := Prod.mk.inj h
        exact hleft
      · rename_i right next' hright
        refine ih ?_ h
        obtain ⟨hmem, hsymbol⟩ := Cursor.exists_of_firstSymbol? hnext
        have hmem' := operatorSymbols_of_chain hmem
        obtain ⟨ts, hts, hspan⟩ := hleft (Cursor.noDollar_of_operator hmem' hsymbol)
        have hfinds := Cursor.Finds.operator hmem' hsymbol (hopens _ _ _ hright)
        have hfresh := Cursor.isFresh_of_operator hmem' hsymbol
        intro hd
        obtain ⟨us, hus, hspan'⟩ := hlower _ _ _ hfresh hright hd
        obtain ⟨op, rfl, hlevel, hleft', hright'⟩ := exists_operator_of_chain hmem
        rw [← hleft'] at hts
        rw [← hright'] at hus
        exact ⟨_, .binary (Nat.le_of_eq hlevel) hts hus, hspan.append (.token hfinds hspan')⟩

/-- At each level a chain of operators is derived from the tokens that it was read from. -/
theorem sound_chainReader {filename : String} {inner : Reader Tree}
    (hinner : Sound topLevel inner) (j : Nat) : Sound (j + 2) (chainReader filename inner j) := by
  induction j with
  | zero =>
    have hoperand : ∀ s, Sound 0 (readOperand filename inner s) := sound_readOperand hinner
    have hopens := fun s => opens_readOperand filename inner s
    intro c
    refine sound_readSigned ?_ ?_ _ _ c
    · exact fun s c => sound_readPower (hoperand s) (hopens s) _ c
    · exact fun s c => opens_readPower (hopens s) _ c
  | succ j ih =>
    intro c e d hc h
    obtain ⟨⟨left, c₁⟩, hleft, h⟩ := bind_eq_ok_iff.1 h
    have hbetween := (ih c left c₁ hc hleft).mono (Nat.le_succ _)
    exact between_readMoreOperands ih (opens_chainReader filename inner j) hbetween
      (Except.ok.inj h)

theorem sound_readConditional {inner lower : Reader Tree} (hinner : Sound topLevel inner)
    (hlower : Sound (topLevel - 1) lower) : Sound topLevel (readConditional inner lower) := by
  intro c e d hc h
  obtain ⟨⟨test, c₁⟩, htest, h⟩ := bind_eq_ok_iff.1 h
  have hbetween := hlower c test c₁ hc htest
  dsimp only at h
  split at h
  · rename_i a b d' harms
    obtain ⟨rfl, rfl⟩ := Prod.mk.inj (Except.ok.inj h)
    simp only [readArms?, Option.bind_eq_bind, Option.bind_eq_some_iff, Option.pure_def,
      Option.some.injEq, Prod.mk.injEq, Prod.exists, toOption_eq_some_iff] at harms
    obtain ⟨c₂, hquestion, a', c₃, ha, c₄, hcolon, b', d'', hb, ⟨rfl, rfl⟩, rfl⟩ := harms
    obtain ⟨hfresh, ts, hts, hspan⟩ := hbetween.closed (by decide) hquestion
    obtain ⟨hfresh', us, hus, hspan'⟩ := (hinner _ _ _ hfresh ha).closed (by decide) hcolon
    intro hd
    obtain ⟨vs, hvs, hspan''⟩ := hinner _ _ _ hfresh' hb hd
    exact ⟨_, .conditional (Nat.le_refl _) hts hus hvs,
      hspan.append_cons (hspan'.append_cons hspan'')⟩
  · obtain ⟨rfl, rfl⟩ := Prod.mk.inj (Except.ok.inj h)
    exact hbetween.mono (by decide)

/-- Whatever is read as an expression is derived as one. -/
theorem sound_readNested (filename : String) (n : Nat) :
    Sound topLevel (readNested filename n) := by
  induction n with
  | zero =>
    intro c e d _ h
    cases h
  | succ n ih => exact sound_readConditional ih (sound_chainReader ih 5)

/-! ## Statements -/

/-- Every expression that is read is derived from the tokens that it was read from. -/
theorem sound_readExpression (filename : String) : Sound topLevel (readExpression filename) :=
  fun c => sound_readNested filename _ c

theorem opens_readExpression (filename : String) :
    Opens opensExpression (readExpression filename) :=
  fun c => opens_readNested filename _ c

/-- Between the cursors stands a derivation of the phrase, and a token may begin behind it. -/
structure Phrase.Fills (p : Phrase) (c d : Cursor) : Prop where
  isFresh : d.IsFresh
  derives : ∃ ts, Derives p ts ∧ c.Spans ts d

/-- Between the cursors stands all of a statement but its first token, and a token may begin behind
it. -/
structure Completes (w : String) (s : Tree) (c d : Cursor) : Prop where
  isFresh : d.IsFresh
  derives : ∃ ts, Derives (.statement s) (w :: ts) ∧ c.Spans ts d

theorem Completes.fills {w : String} {s : Tree} {c d e : Cursor} (h : Completes w s d e)
    (hw : c.Finds w d) : (Phrase.statement s).Fills c e := by
  obtain ⟨hfresh, ts, hts, hspan⟩ := h
  exact ⟨hfresh, _, hts, .token hw hspan⟩

section Statements

variable {filename : String}

/-- A sign of equality with a definition behind it. -/
theorem spans_of_readDefinition {c d : Cursor} {e : Tree}
    (h : readDefinition filename c = .ok (e, d)) :
    '$' ∉ c.ahead.head? ∧ d.IsFresh ∧
      ∃ ts, Derives (.expression topLevel e) ts ∧ c.Spans ("=" :: (ts ++ [";"])) d := by
  obtain ⟨next, hnext, h⟩ := bind_eq_ok_iff.1 h
  obtain ⟨⟨e', last⟩, he, h⟩ := bind_eq_ok_iff.1 h
  obtain ⟨d', hlast, h⟩ := bind_eq_ok_iff.1 h
  obtain ⟨rfl, rfl⟩ := Prod.mk.inj (Except.ok.inj h)
  rw [expectSymbol_eq_ok_iff] at hnext hlast
  have hopen := opens_readExpression filename _ _ _ he
  have hfresh := Cursor.isFresh_of_operator (by decide) hnext
  obtain ⟨hend, ts, hts, hspan⟩ :=
    (sound_readExpression filename _ _ _ hfresh he).closed (by decide) hlast
  exact ⟨Cursor.noDollar_of_operator (by decide) hnext, hend, ts, hts,
    .token (.operator (by decide) hnext hopen) hspan⟩

theorem expectName_eq_ok {c d : Cursor} {t : Token} (h : expectName filename c = .ok (t, d)) :
    c.name? filename = some (t, d) := by
  simp only [expectName] at h
  split at h
  · rw [← Except.ok.inj h]
    assumption
  · split at h <;> cases h

theorem noDollar_of_readMoreParameters {n : Nat} {c d : Cursor} {ps : List Tree}
    (h : readMoreParameters filename n c = (ps, d)) (hd : '$' ∉ d.ahead.head?) :
    '$' ∉ c.ahead.head? := by
  cases n with
  | zero =>
    obtain ⟨-, rfl⟩ := Prod.mk.inj h
    exact hd
  | succ n =>
    cases hnext : c.symbol? "," with
    | none =>
      simp only [readMoreParameters, hnext, Option.bind_none] at h
      obtain ⟨-, rfl⟩ := Prod.mk.inj h
      exact hd
    | some next => exact Cursor.noDollar_of_punctuation (by decide) hnext

theorem between_readMoreParameters {n : Nat} {c d : Cursor} {ps : List Tree}
    (h : readMoreParameters filename n c = (ps, d)) : (Phrase.moreParameters ps).Between c d := by
  induction n generalizing c ps with
  | zero =>
    obtain ⟨rfl, rfl⟩ := Prod.mk.inj h
    exact fun _ => ⟨[], .noMoreParameters, .stay c⟩
  | succ n ih =>
    simp only [readMoreParameters] at h
    split at h
    · obtain ⟨rfl, rfl⟩ := Prod.mk.inj h
      exact fun _ => ⟨[], .noMoreParameters, .stay c⟩
    · rename_i name next' hname
      obtain ⟨next, hnext, hname⟩ := Option.bind_eq_some_iff.1 hname
      obtain ⟨rfl, rfl⟩ := Prod.mk.inj h
      intro hd
      have hfresh := Cursor.isFresh_of_punctuation (by decide) hnext
      have hisName := Cursor.isName_of_name? hname hfresh (noDollar_of_readMoreParameters rfl hd)
      obtain ⟨us, hus, hspan⟩ := ih rfl hd
      exact ⟨_, .moreParameters hisName hus,
        .token (.punctuation (by decide) hnext) (.token (.name hname hisName) hspan)⟩

theorem between_readParameters {c d : Cursor} {ps : List Tree} (hc : c.IsFresh)
    (h : readParameters filename c = (ps, d)) : (Phrase.parameters ps).Between c d := by
  simp only [readParameters] at h
  split at h
  · obtain ⟨rfl, rfl⟩ := Prod.mk.inj h
    exact fun _ => ⟨[], .noParameters, .stay c⟩
  · rename_i name next hname
    obtain ⟨rfl, rfl⟩ := Prod.mk.inj h
    intro hd
    have hisName := Cursor.isName_of_name? hname hc (noDollar_of_readMoreParameters rfl hd)
    obtain ⟨us, hus, hspan⟩ := between_readMoreParameters rfl hd
    exact ⟨_, .parameters hisName hus, .token (.name hname hisName) hspan⟩

theorem completes_readVariable {c d : Cursor} {s : Tree} (hc : c.IsFresh)
    (h : readVariable filename c = .ok (s, d)) : Completes "let" s c d := by
  obtain ⟨⟨t, next⟩, hname, h⟩ := bind_eq_ok_iff.1 h
  obtain ⟨⟨e, d'⟩, hdefinition, h⟩ := bind_eq_ok_iff.1 h
  obtain ⟨rfl, rfl⟩ := Prod.mk.inj (Except.ok.inj h)
  replace hname := expectName_eq_ok hname
  obtain ⟨hdollar, hfresh, ts, hts, hspan⟩ := spans_of_readDefinition hdefinition
  have hisName := Cursor.isName_of_name? hname hc hdollar
  exact ⟨hfresh, _, .variableDeclaration hisName hts, .token (.name hname hisName) hspan⟩

/-- Behind its keyword the declaration of a function is derived from its tokens. -/
theorem completes_readFunction {c d : Cursor} {s : Tree} (hc : c.IsFresh)
    (h : readFunction filename c = .ok (s, d)) : Completes "function" s c d := by
  obtain ⟨⟨t, next⟩, hname, h⟩ := bind_eq_ok_iff.1 h
  obtain ⟨first, hfirst, h⟩ := bind_eq_ok_iff.1 h
  obtain ⟨last, hlast, h⟩ := bind_eq_ok_iff.1 h
  obtain ⟨⟨e, d'⟩, hdefinition, h⟩ := bind_eq_ok_iff.1 h
  obtain ⟨rfl, rfl⟩ := Prod.mk.inj (Except.ok.inj h)
  replace hname := expectName_eq_ok hname
  rw [expectSymbol_eq_ok_iff] at hfirst hlast
  have hfresh := Cursor.isFresh_of_punctuation (by decide) hfirst
  obtain ⟨-, us, hus, hspan⟩ := (between_readParameters hfresh rfl).closed (by decide) hlast
  obtain ⟨-, hfresh', ts, hts, hspan'⟩ := spans_of_readDefinition hdefinition
  have hisName := Cursor.isName_of_name? hname hc
    (Cursor.noDollar_of_punctuation (by decide) hfirst)
  exact ⟨hfresh', _, .functionDeclaration hisName hus hts, .token (.name hname hisName)
    (.token (.punctuation (by decide) hfirst) (hspan.append_cons hspan'))⟩

theorem completes_readPrint {c d : Cursor} {s : Tree} (hc : c.IsFresh)
    (h : readPrint filename c = .ok (s, d)) : Completes "print" s c d := by
  obtain ⟨⟨e, last⟩, he, h⟩ := bind_eq_ok_iff.1 h
  obtain ⟨d', hlast, h⟩ := bind_eq_ok_iff.1 h
  obtain ⟨rfl, rfl⟩ := Prod.mk.inj (Except.ok.inj h)
  rw [expectSymbol_eq_ok_iff] at hlast
  obtain ⟨hend, ts, hts, hspan⟩ :=
    (sound_readExpression filename _ _ _ hc he).closed (by decide) hlast
  exact ⟨hend, _, .print hts, hspan⟩

/-- An assignment is derived from its tokens. -/
theorem fills_readAssignment {c d : Cursor} {s : Tree} (hc : c.IsFresh)
    (h : readAssignment filename c = some (s, d)) : (Phrase.statement s).Fills c d := by
  simp only [readAssignment, Option.bind_eq_bind, Option.bind_eq_some_iff, Option.pure_def,
    Option.some.injEq, Prod.mk.injEq, Prod.exists, toOption_eq_some_iff] at h
  obtain ⟨t, next, hname, e, d', hdefinition, rfl, rfl⟩ := h
  obtain ⟨hdollar, hfresh, ts, hts, hspan⟩ := spans_of_readDefinition hdefinition
  have hisName := Cursor.isName_of_name? hname hc hdollar
  exact ⟨hfresh, _, .assignment hisName hts, .token (.name hname hisName) hspan⟩

/-- Whatever is read as a statement is one. -/
def SoundStatement (one : Reader (Option Tree)) : Prop :=
  ∀ c s d, c.IsFresh → one c = .ok (some s, d) → (Phrase.statement s).Fills c d

/-- Statements that are read one by one are derived from their tokens together. -/
theorem fills_repeatStatements {one : Reader (Option Tree)} (hone : SoundStatement one) {n : Nat}
    {c d : Cursor} {ss : List Tree} (hc : c.IsFresh) (h : repeatStatements one n c = .ok (ss, d)) :
    (Phrase.statements ss).Fills c d := by
  induction n generalizing c ss with
  | zero =>
    obtain ⟨rfl, rfl⟩ := Prod.mk.inj (Except.ok.inj h)
    exact ⟨hc, [], .noStatements, .stay c⟩
  | succ n ih =>
    obtain ⟨⟨s?, next⟩, hs, h⟩ := bind_eq_ok_iff.1 h
    cases s? with
    | none =>
      obtain ⟨rfl, rfl⟩ := Prod.mk.inj (Except.ok.inj h)
      exact ⟨hc, [], .noStatements, .stay c⟩
    | some s =>
      obtain ⟨⟨ss', last⟩, hss, h⟩ := bind_eq_ok_iff.1 h
      obtain ⟨rfl, rfl⟩ := Prod.mk.inj (Except.ok.inj h)
      obtain ⟨hfresh, ts, hts, hspan⟩ := hone c s next hc hs
      obtain ⟨hfresh', us, hus, hspan'⟩ := ih hfresh hss
      exact ⟨hfresh', _, .statements hts hus, hspan.append hspan'⟩

theorem completes_readLoop {one : Reader (Option Tree)} (hone : SoundStatement one) {c d : Cursor}
    {s : Tree} (hc : c.IsFresh) (h : readLoop filename one c = .ok (s, d)) :
    Completes "while" s c d := by
  obtain ⟨⟨test, c₁⟩, htest, h⟩ := bind_eq_ok_iff.1 h
  obtain ⟨first, hfirst, h⟩ := bind_eq_ok_iff.1 h
  obtain ⟨⟨body, last⟩, hbody, h⟩ := bind_eq_ok_iff.1 h
  obtain ⟨d', hlast, h⟩ := bind_eq_ok_iff.1 h
  obtain ⟨rfl, rfl⟩ := Prod.mk.inj (Except.ok.inj h)
  rw [expectSymbol_eq_ok_iff] at hfirst hlast
  obtain ⟨hfresh, ts, hts, hspan⟩ :=
    (sound_readExpression filename _ _ _ hc htest).closed (by decide) hfirst
  obtain ⟨-, us, hus, hspan'⟩ := fills_repeatStatements hone hfresh hbody
  have hclose := Cursor.Finds.punctuation (by decide) hlast
  exact ⟨Cursor.isFresh_of_punctuation (by decide) hlast, _, .whileLoop hts hus,
    hspan.append_cons (hspan'.append hclose.spans)⟩

theorem readCommitted_eq_ok {read : Reader Tree} {c d : Cursor} {s : Tree}
    (h : readCommitted read c = .ok (some s, d)) : read c = .ok (s, d) := by
  obtain ⟨⟨s', d'⟩, hs, h⟩ := bind_eq_ok_iff.1 h
  obtain ⟨hs', rfl⟩ := Prod.mk.inj (Except.ok.inj h)
  rw [hs, Option.some.inj hs']

/-- Behind a keyword of statements the rest of the statement is read. -/
theorem fills_readCommitted {read : Reader Tree} {k : String} {c next d : Cursor} {s : Tree}
    (hk : k ∈ Cursor.keywords)
    (hread : ∀ {s d}, next.IsFresh → read next = .ok (s, d) → Completes k s next d)
    (hnext : c.skip.keyword? k = some next) (h : readCommitted read next = .ok (some s, d)) :
    (Phrase.statement s).Fills c d := by
  have hfresh := Cursor.isFresh_of_keyword? hnext
  exact (hread hfresh (readCommitted_eq_ok h)).fills (.keyword hk hnext)

/-- Every statement that is read is derived from the tokens that it was read from. -/
theorem soundStatement_readStatement (filename : String) (n : Nat) :
    SoundStatement (readStatement filename n) := by
  induction n with
  | zero =>
    intro c s d _ h
    cases h
  | succ n ih =>
    intro c s d hc h
    simp only [readStatement] at h
    split at h
    · exact fills_readCommitted (by decide) completes_readVariable ‹_› h
    · exact fills_readCommitted (by decide) completes_readFunction ‹_› h
    · exact fills_readCommitted (by decide) (completes_readLoop ih) ‹_› h
    · exact fills_readCommitted (by decide) completes_readPrint ‹_› h
    · split at h
      · obtain ⟨hs, rfl⟩ := Prod.mk.inj (Except.ok.inj h)
        obtain rfl := Option.some.inj hs
        exact fills_readAssignment hc ‹_›
      · cases h

/-- At the end of the text only blanks and comments are left. -/
theorem ahead_of_expectEnd {d : Cursor} {u : Unit} (h : expectEnd d = .ok u) :
    d.skip.ahead = [] := by
  simp only [expectEnd] at h
  split at h
  · assumption
  · cases h

/-- A text that is read as statements up to its end is a derivation of them. -/
theorem derives_of_readStatements {cs : List Char} {ss : List Tree} {d : Cursor}
    (hcs : KeywordsEnd (Report.tokens cs))
    (h : readStatements filename (Cursor.start cs) = .ok (ss, d)) (hd : expectEnd d = .ok ()) :
    Derives (.statements ss) (Report.tokens cs) := by
  have hfresh : (Cursor.start cs).IsFresh := .inl rfl
  obtain ⟨-, ts, hts, hspan⟩ :=
    fills_repeatStatements (soundStatement_readStatement filename _) hfresh h
  have hend := ahead_of_expectEnd hd
  have hnone : Report.tokens d.ahead = [] := by
    refine Report.tokens_eq_nil ?_
    rw [Report.nextToken?, Cursor.dropSkipped_ahead (by simp [hend]), hend]
    rfl
  have htokens : Report.tokens cs = ts := by
    have htokens := (hspan.passes hcs).tokens
    rwa [hnone, List.append_nil] at htokens
  rwa [htokens]

end Statements

/-! ## Programs -/

namespace Tree

/-- A text that is accepted, none of whose keywords runs on with a letter beyond ASCII (for which
`keywordsEnd_of_text` looks at the text alone), has the tree that its tokens derive: the tokenizer
of reports splits it as the reader does, and no token is skipped, repeated or grouped in another
way. -/
theorem derives_of_ofProgram {filename : String} {cs : List Char} {r : Tree}
    (hcs : KeywordsEnd (Report.tokens cs)) (h : ofProgram filename cs = .ok r) :
    ∃ ss, r = program ss ∧ Derives (.statements ss) (Report.tokens cs) := by
  obtain ⟨⟨ss, d⟩, hss, h⟩ := bind_eq_ok_iff.1 h
  obtain ⟨u, hd, h⟩ := bind_eq_ok_iff.1 h
  refine ⟨ss, (Except.ok.inj h).symm, ?_⟩
  have htokens := (expands_expandTabs cs).tokens
  rw [htokens] at hcs ⊢
  exact derives_of_readStatements hcs hss hd

/-- A text with adjacent operators, a tab, comments and all kinds of statements. -/
def dense : List Char :=
  ("let x=1;// one\nfunction f(a,b)=-a**2*b<=x?!true:f(a , b);" ++
    "while x<2\x7bx=x+f(x,2);\x7d\tprint x;//").toList

theorem derives_dense : KeywordsEnd (Report.tokens dense) ∧ ∃ r, ofProgram "dense" dense = .ok r ∧
    ∃ ss, r = program ss ∧ Derives (.statements ss) (Report.tokens dense) := by
  have hends : KeywordsEnd (Report.tokens dense) := by
    refine keywordsEnd_of_text ?_
    intro k _ before ch after hsplit _
    have hascii : ∀ ch ∈ dense, ch.toNat < 128 := by decide +kernel
    exact hascii ch (hsplit ▸ by simp)
  have hok : (ofProgram "dense" dense).isOk = true := by decide +kernel
  cases h : ofProgram "dense" dense with
  | error e =>
    rw [h] at hok
    cases hok
  | ok r => exact ⟨hends, r, rfl, derives_of_ofProgram hends h⟩

end Tree
end Quill
