import Quill.Proofs.Node
import Quill.Proofs.Grammar.Lexeme

/-!
# The course of reading

Reading goes forward through one text. Whatever a reader tries and gives up, the leaves of the tree
that it answers stand one behind the other between the place where it began and the place where it
ended, each where it was read; and when it fails, it fails at a place behind the beginning, before
which no blank and no comment is left to pass, but where a keyword stands in place of a name.

## Main definitions

* `Cursor.LeadsTo c d` — the place `d` is further on in the text than `c`, or the same.
* `Cursor.Holds c a d` — the leaf `a` is read at `c`, and `d` is the place behind it.
* `Cursor.Bears c as d` — the leaves `as` stand between `c` and `d` in their order.
* `Reading c leaves result` — the result of a reader that began at `c`.
-/

namespace Quill

open Text Quill.Tree

namespace Cursor

/-! ## Places further on -/

/-- The other place is further on in the same text, or the same. -/
def LeadsTo (c d : Cursor) : Prop := ∃ w, c.Takes w d

theorem Takes.leadsTo {c d : Cursor} {w : List Char} (h : c.Takes w d) : c.LeadsTo d := ⟨w, h⟩

theorem LeadsTo.refl (c : Cursor) : c.LeadsTo c := ⟨[], rfl, rfl⟩

theorem LeadsTo.trans {c d e : Cursor} (h : c.LeadsTo d) (h' : d.LeadsTo e) : c.LeadsTo e := by
  obtain ⟨w, hahead, hbehind⟩ := h
  obtain ⟨w', hahead', hbehind'⟩ := h'
  refine ⟨w ++ w', ?_, ?_⟩
  · rw [hahead, hahead', List.append_assoc]
  · rw [hbehind', hbehind, List.reverse_append, List.append_assoc]

theorem leadsTo_advance (c : Cursor) (n : Nat) : c.LeadsTo (c.advance n) :=
  ⟨c.ahead.take n, (List.take_append_drop n c.ahead).symm, rfl⟩

/-- A cursor that has moved on stands in the same text. -/
theorem LeadsTo.text_eq {c d : Cursor} (h : c.LeadsTo d) : d.text = c.text := by
  obtain ⟨w, hahead, hbehind⟩ := h
  simp [text, hahead, hbehind]

/-- Blanks and comments are passed over, forwards. -/
theorem leadsTo_skip (c : Cursor) : c.LeadsTo c.skip := by
  have hskips : ∀ {c d : Cursor}, c.Skips d → c.LeadsTo d := by
    intro c d h
    induction h with
    | stay c => exact .refl c
    | blank _ _ ih => exact .trans ⟨[_], rfl, rfl⟩ ih
    | @comment c e d he _ ih =>
      have hcomment : c.LeadsTo e := by
        unfold comment? at he
        split at he
        · rw [← Option.some.inj he]
          exact leadsTo_advance _ _
        · cases he
      exact hcomment.trans ih
  exact hskips (skips_skip c)

theorem leadsTo_of_symbol? {c d : Cursor} {s : String} (h : c.symbol? s = some d) : c.LeadsTo d :=
  c.leadsTo_skip.trans (symbol?_eq_some_iff.1 h).leadsTo

theorem leadsTo_of_firstSymbol? {c d : Cursor} {symbols : List String} {s : String}
    (h : c.firstSymbol? symbols = some (s, d)) : c.LeadsTo d :=
  leadsTo_of_symbol? (exists_of_firstSymbol? h).2

theorem leadsTo_of_keyword? {c d : Cursor} {k : String} (h : c.skip.keyword? k = some d) :
    c.LeadsTo d :=
  c.leadsTo_skip.trans (keyword?_eq_some_iff.1 h).1.leadsTo

/-! ## Leaves in a text -/

/-- The leaf is read at the first place, and the second one is behind it. -/
inductive Holds (filename : String) (c : Cursor) : Tree → Cursor → Prop
  | numeral {n : Numeral} {d : Cursor} (h : c.numeral? = some (n, d)) :
    Holds filename c (.number n.value) d
  | truth {d : Cursor} (h : c.keyword? "true" = some d) : Holds filename c (.boolean true) d
  | falsehood {d : Cursor} (h : c.keyword? "false" = some d) : Holds filename c (.boolean false) d
  | name {w : List Char} {d : Cursor} (h : c.word? = some (w, d)) :
    Holds filename c (.token (c.token filename w)) d

theorem Holds.leadsTo {filename : String} {c d : Cursor} {a : Tree} (h : c.Holds filename a d) :
    c.LeadsTo d := by
  cases h with
  | numeral h => exact (numeral?_eq_some_iff.1 h).2.leadsTo
  | truth h => exact (keyword?_eq_some_iff.1 h).1.leadsTo
  | falsehood h => exact (keyword?_eq_some_iff.1 h).1.leadsTo
  | name h =>
    obtain ⟨-, -, -, -, htakes⟩ := word?_eq_some_iff.1 h
    exact htakes.leadsTo

/-- The leaves stand between the places, one behind the other. -/
inductive Bears (filename : String) : Cursor → List Tree → Cursor → Prop
  | nil {c d : Cursor} (h : c.LeadsTo d) : Bears filename c [] d
  | cons {c b e d : Cursor} {a : Tree} {as : List Tree} (hb : c.LeadsTo b)
    (ha : b.Holds filename a e) (h : Bears filename e as d) : Bears filename c (a :: as) d

namespace Bears

variable {filename : String} {c d e : Cursor} {as bs : List Tree}

theorem leadsTo (h : Bears filename c as d) : c.LeadsTo d := by
  induction h with
  | nil h => exact h
  | cons hb ha _ ih => exact (hb.trans ha.leadsTo).trans ih

theorem of_leadsTo (h : c.LeadsTo d) (h' : Bears filename d as e) : Bears filename c as e := by
  cases h' with
  | nil hd => exact .nil (h.trans hd)
  | cons hb ha hrest => exact .cons (h.trans hb) ha hrest

theorem append (h : Bears filename c as d) (h' : Bears filename d bs e) :
    Bears filename c (as ++ bs) e := by
  induction h with
  | nil h => exact h'.of_leadsTo h
  | cons hb ha _ ih => exact .cons hb ha (ih h')

theorem extend (h : Bears filename c as d) (h' : d.LeadsTo e) : Bears filename c as e := by
  have hnil := h.append (.nil h')
  rwa [List.append_nil] at hnil

/-- Each of the leaves is read somewhere in the text. -/
theorem exists_holds (h : Bears filename c as d) :
    ∀ a ∈ as, ∃ b e, c.LeadsTo b ∧ b.Holds filename a e := by
  induction h with
  | nil _ => simp
  | @cons c b e d a as hb ha _ ih =>
    refine List.forall_mem_cons.2 ⟨⟨b, e, hb, ha⟩, fun a' ha' => ?_⟩
    obtain ⟨b', e', hb', hholds⟩ := ih a' ha'
    exact ⟨b', e', (hb.trans ha.leadsTo).trans hb', hholds⟩

end Bears

theorem bears_name {filename : String} {c d : Cursor} {t : Token}
    (h : c.name? filename = some (t, d)) : Bears filename c [.token t] d := by
  obtain ⟨w, hw, rfl⟩ := name?_eq_some_iff.1 h
  exact .cons c.leadsTo_skip (.name hw) (.nil (.refl d))

end Cursor

/-! ## Results of readers -/

/-- A failure is reported where something is found that was not expected, and not at the blanks or
comments before it. Only a keyword in place of a name is reported directly behind what comes
before. -/
def Failure.IsSettled (f : Failure) : Prop :=
  f.cursor.skip = f.cursor ∨ f.expectation = .noKeyword ∧ f.cursor.skip.atKeyword = true

theorem Failure.isSettled_skip (expectation : Expectation) (c : Cursor) :
    (⟨expectation, c.skip⟩ : Failure).IsSettled :=
  .inl (Cursor.skip_eq_self c.stops_skip)

/-- What a reader answers stands behind the place where it began, and if it fails, it fails behind
this place too. -/
inductive Reading (filename : String) {α : Type} (leaves : α → List Tree) (c : Cursor) :
    Except Failure (α × Cursor) → Prop
  | ok {a : α} {d : Cursor} (h : Cursor.Bears filename c (leaves a) d) :
    Reading filename leaves c (.ok (a, d))
  | error {f : Failure} (h : c.LeadsTo f.cursor) (hf : f.IsSettled) :
    Reading filename leaves c (.error f)

/-- What a reader answers, or where it fails, wherever it begins. -/
def Follows (filename : String) {α : Type} (leaves : α → List Tree) (read : Reader α) : Prop :=
  ∀ c, Reading filename leaves c (read c)

namespace Reading

variable {filename : String} {α β : Type} {leaves : α → List Tree} {leaves' : β → List Tree}
  {c d : Cursor}

/-- Where one reader goes on behind another, a failure of either is one behind the beginning. -/
theorem bind {x : Except Failure (α × Cursor)} {k : α × Cursor → Except Failure (β × Cursor)}
    (hcd : c.LeadsTo d) (hx : Reading filename leaves d x)
    (hk : ∀ a e, Cursor.Bears filename d (leaves a) e → Reading filename leaves' c (k (a, e))) :
    Reading filename leaves' c (x >>= k) := by
  cases hx with
  | ok h => exact hk _ _ h
  | error h hf => exact .error (hcd.trans h) hf

theorem symbol {s : String} {k : Cursor → Except Failure (β × Cursor)} (hcd : c.LeadsTo d)
    (hk : ∀ e, d.LeadsTo e → Reading filename leaves' c (k e)) :
    Reading filename leaves' c (expectSymbol s d >>= k) := by
  unfold expectSymbol
  cases h : d.symbol? s with
  | some e => exact hk e (Cursor.leadsTo_of_symbol? h)
  | none => exact .error (hcd.trans d.leadsTo_skip) (Failure.isSettled_skip _ d)

theorem of_leadsTo {x : Except Failure (α × Cursor)} (hcd : c.LeadsTo d)
    (hx : Reading filename leaves d x) : Reading filename leaves c x := by
  cases hx with
  | ok h => exact .ok (h.of_leadsTo hcd)
  | error h hf => exact .error (hcd.trans h) hf

theorem bears {a : α} {e : Cursor} (h : Reading filename leaves c (.ok (a, e))) :
    Cursor.Bears filename c (leaves a) e := by
  cases h with
  | ok h => exact h

end Reading

/-! ## Expressions -/

section
variable {filename : String} {inner : Reader Tree} (hinner : Follows filename Tree.leaves inner)
include hinner

/-- The leaves of arguments stand in order, one behind the other. -/
theorem bears_readMoreArguments (n : Nat) (c : Cursor) :
    c.Bears filename (leavesOfAll (readMoreArguments inner n c).1)
      (readMoreArguments inner n c).2 := by
  induction n generalizing c with
  | zero => exact .nil (.refl c)
  | succ n ih =>
    simp only [readMoreArguments]
    split
    · exact .nil (.refl c)
    · rename_i next hnext
      have harg := hinner next
      split
      · exact .nil (.refl c)
      · rename_i arg last hlast
        rw [hlast] at harg
        exact (harg.bears.of_leadsTo (Cursor.leadsTo_of_symbol? hnext)).append (ih last)

theorem bears_readArguments (c : Cursor) :
    c.Bears filename (leavesOfAll (readArguments inner c).1) (readArguments inner c).2 := by
  have harg := hinner c
  simp only [readArguments]
  split
  · exact .nil (.refl c)
  · rename_i arg next hnext
    rw [hnext] at harg
    exact harg.bears.append (bears_readMoreArguments hinner _ next)

theorem bears_of_readCall? {c d : Cursor} {args : List Tree}
    (h : readCall? inner c = some (args, d)) : c.Bears filename (leavesOfAll args) d := by
  obtain ⟨c', hopen, h⟩ := Option.bind_eq_some_iff.1 h
  obtain ⟨d', hclose, h⟩ := Option.bind_eq_some_iff.1 h
  obtain ⟨rfl, rfl⟩ := Prod.mk.inj (Option.some.inj h)
  exact ((bears_readArguments hinner c').of_leadsTo (Cursor.leadsTo_of_symbol? hopen)).extend
    (Cursor.leadsTo_of_symbol? hclose)

/-- An operand bears the tokens that it was read from. -/
theorem follows_readOperand (behindSign : Bool) :
    Follows filename Tree.leaves (readOperand filename inner behindSign) := by
  intro c
  simp only [readOperand]
  split
  · exact .ok (.cons c.leadsTo_skip (.numeral ‹_›) (.nil (.refl _)))
  · exact .ok (.cons c.leadsTo_skip (.truth ‹_›) (.nil (.refl _)))
  · exact .ok (.cons c.leadsTo_skip (.falsehood ‹_›) (.nil (.refl _)))
  · rename_i hname
    split
    · exact .ok ((Cursor.bears_name hname).append (bears_of_readCall? hinner ‹_›))
    · exact .ok (Cursor.bears_name hname)
  · split
    · rename_i next hopen
      have hleads := Cursor.leadsTo_of_symbol? hopen
      refine .bind hleads (hinner next) fun e last he => .symbol (hleads.trans he.leadsTo) ?_
      exact fun d hd => .ok ((he.of_leadsTo hleads).extend hd)
    · exact .error c.leadsTo_skip (Failure.isSettled_skip _ c)

end

theorem follows_readPower {filename : String} {operand : Reader Tree}
    (h : Follows filename Tree.leaves operand) (n : Nat) :
    Follows filename Tree.leaves (readPower operand n) := by
  induction n with
  | zero => exact h
  | succ n ih =>
    intro c
    refine .bind (.refl c) (h c) fun base d hbase => ?_
    dsimp only
    split
    · exact .ok hbase
    · rename_i symbol next hnext
      have hexponent := ih next
      split
      · rename_i exponent last hlast
        rw [hlast] at hexponent
        exact .ok (hbase.append (hexponent.bears.of_leadsTo (Cursor.leadsTo_of_firstSymbol? hnext)))
      · exact .ok hbase

theorem follows_readSigned {filename : String} {lower : Bool → Reader Tree}
    (h : ∀ behindSign, Follows filename Tree.leaves (lower behindSign)) (n : Nat)
    (behindSign : Bool) : Follows filename Tree.leaves (readSigned lower n behindSign) := by
  induction n generalizing behindSign with
  | zero => exact h behindSign
  | succ n ih =>
    intro c
    simp only [readSigned]
    split
    · exact h behindSign c
    · rename_i symbol next hnext
      have hleads := Cursor.leadsTo_of_firstSymbol? hnext
      exact .bind hleads (ih true next) fun _ _ he => .ok (he.of_leadsTo hleads)

section
variable {filename : String} {lower : Reader Tree} (hlower : Follows filename Tree.leaves lower)
include hlower

/-- Each operand of a chain stands behind those before it. -/
theorem bears_readMoreOperands (symbols : List String) (n : Nat) {left : Tree} {c d : Cursor}
    (hleft : c.Bears filename left.leaves d) :
    c.Bears filename (readMoreOperands lower symbols n left d).1.leaves
      (readMoreOperands lower symbols n left d).2 := by
  induction n generalizing left d with
  | zero => exact hleft
  | succ n ih =>
    simp only [readMoreOperands]
    split
    · exact hleft
    · rename_i symbol next hnext
      have hright := hlower next
      split
      · exact hleft
      · rename_i right last hlast
        rw [hlast] at hright
        have hboth : c.Bears filename (Tree.binary symbol left right).leaves last :=
          hleft.append (hright.bears.of_leadsTo (Cursor.leadsTo_of_firstSymbol? hnext))
        exact ih hboth

theorem follows_readChain (symbols : List String) :
    Follows filename Tree.leaves (readChain lower symbols) :=
  fun c => .bind (.refl c) (hlower c) fun _ _ hleft =>
    .ok (bears_readMoreOperands hlower symbols _ hleft)

end

theorem bears_of_readArms? {filename : String} {inner : Reader Tree}
    (hinner : Follows filename Tree.leaves inner) {c d : Cursor} {consequent alternate : Tree}
    (h : readArms? inner c = some ((consequent, alternate), d)) :
    c.Bears filename (consequent.leaves ++ alternate.leaves) d := by
  obtain ⟨c₁, hquestion, h⟩ := Option.bind_eq_some_iff.1 h
  obtain ⟨⟨t, c₂⟩, ht, h⟩ := Option.bind_eq_some_iff.1 h
  obtain ⟨c₃, hcolon, h⟩ := Option.bind_eq_some_iff.1 h
  obtain ⟨⟨u, c₄⟩, hu, h⟩ := Option.bind_eq_some_iff.1 h
  obtain ⟨harms, rfl⟩ := Prod.mk.inj (Option.some.inj h)
  obtain ⟨rfl, rfl⟩ := Prod.mk.inj harms
  have htest := hinner c₁
  rw [toOption_eq_some_iff.1 ht] at htest
  have helse := hinner c₃
  rw [toOption_eq_some_iff.1 hu] at helse
  exact (htest.bears.of_leadsTo (Cursor.leadsTo_of_symbol? hquestion)).append
    (helse.bears.of_leadsTo (Cursor.leadsTo_of_symbol? hcolon))

theorem follows_readConditional {filename : String} {inner lower : Reader Tree}
    (hinner : Follows filename Tree.leaves inner) (hlower : Follows filename Tree.leaves lower) :
    Follows filename Tree.leaves (readConditional inner lower) := by
  intro c
  refine .bind (.refl c) (hlower c) fun test d htest => ?_
  dsimp only
  split
  · have harms := htest.append (bears_of_readArms? hinner ‹_›)
    rw [← List.append_assoc] at harms
    exact .ok harms
  · exact .ok htest

/-- Each level of operators hands on what the level below reads. -/
theorem follows_chainReader {filename : String} {inner : Reader Tree}
    (hinner : Follows filename Tree.leaves inner) (j : Nat) :
    Follows filename Tree.leaves (chainReader filename inner j) := by
  induction j with
  | zero =>
    intro c
    refine follows_readSigned ?_ _ _ c
    exact fun behindSign c => follows_readPower (follows_readOperand hinner behindSign) _ c
  | succ j ih => exact follows_readChain ih _

/-- To any depth of nesting, expressions bear their tokens in order. -/
theorem follows_readNested (filename : String) (n : Nat) :
    Follows filename Tree.leaves (readNested filename n) := by
  induction n with
  | zero => exact fun c => .error c.leadsTo_skip (Failure.isSettled_skip _ c)
  | succ n ih =>
    rw [readNested, readLevels_eq]
    exact follows_readConditional ih (follows_chainReader ih 5)

/-- The leaves of an expression stand in the text in order, between where it begins and where it
ends. -/
theorem follows_readExpression (filename : String) :
    Follows filename Tree.leaves (readExpression filename) :=
  fun c => follows_readNested filename _ c

/-! ## Statements -/

/-- A keyword in place of a name is the one failure that is not reported behind the blanks. -/
theorem follows_expectName (filename : String) :
    Follows filename (fun t => [.token t]) (expectName filename) := by
  intro c
  simp only [expectName]
  split
  · exact .ok (Cursor.bears_name ‹_›)
  · split
    · exact .error (.refl c) (.inr ⟨rfl, ‹_›⟩)
    · exact .error c.leadsTo_skip (Failure.isSettled_skip _ c)

theorem bears_readMoreParameters (filename : String) (n : Nat) (c : Cursor) :
    c.Bears filename (leavesOfAll (readMoreParameters filename n c).1)
      (readMoreParameters filename n c).2 := by
  induction n generalizing c with
  | zero => exact .nil (.refl c)
  | succ n ih =>
    simp only [readMoreParameters]
    split
    · exact .nil (.refl c)
    · rename_i name next h
      obtain ⟨d, hcomma, hname⟩ := Option.bind_eq_some_iff.1 h
      exact ((Cursor.bears_name hname).of_leadsTo (Cursor.leadsTo_of_symbol? hcomma)).append
        (ih next)

theorem bears_readParameters (filename : String) (c : Cursor) :
    c.Bears filename (leavesOfAll (readParameters filename c).1)
      (readParameters filename c).2 := by
  simp only [readParameters]
  split
  · exact .nil (.refl c)
  · exact (Cursor.bears_name ‹_›).append (bears_readMoreParameters filename _ _)

theorem follows_readDefinition (filename : String) :
    Follows filename Tree.leaves (readDefinition filename) := by
  intro c
  refine .symbol (.refl c) fun c₁ h₁ => ?_
  refine .bind h₁ (follows_readExpression filename c₁) fun e c₂ he => ?_
  refine .symbol (h₁.trans he.leadsTo) fun c₃ h₃ => ?_
  exact .ok ((he.of_leadsTo h₁).extend h₃)

theorem follows_readVariable (filename : String) :
    Follows filename Tree.leaves (readVariable filename) := by
  intro c
  refine .bind (.refl c) (follows_expectName filename c) fun t c₁ hname => ?_
  refine .bind hname.leadsTo (follows_readDefinition filename c₁) fun e c₂ he => ?_
  exact .ok (hname.append he)

theorem follows_readFunction (filename : String) :
    Follows filename Tree.leaves (readFunction filename) := by
  intro c
  refine .bind (.refl c) (follows_expectName filename c) fun t c₁ hname => ?_
  refine .symbol hname.leadsTo fun c₂ h₂ => ?_
  have hparams := hname.append ((bears_readParameters filename c₂).of_leadsTo h₂)
  refine .symbol hparams.leadsTo fun c₃ h₃ => ?_
  refine .bind (hparams.leadsTo.trans h₃) (follows_readDefinition filename c₃) fun e c₄ he => ?_
  exact .ok (hparams.append (he.of_leadsTo h₃))

theorem follows_readPrint (filename : String) :
    Follows filename Tree.leaves (readPrint filename) := by
  intro c
  refine .bind (.refl c) (follows_readExpression filename c) fun e c₁ he => ?_
  exact .symbol he.leadsTo fun c₂ h₂ => .ok (he.extend h₂)

theorem bears_of_readAssignment {filename : String} {c d : Cursor} {s : Tree}
    (h : readAssignment filename c = some (s, d)) : c.Bears filename s.leaves d := by
  obtain ⟨⟨t, c₁⟩, hname, h⟩ := Option.bind_eq_some_iff.1 h
  obtain ⟨⟨e, c₂⟩, he, h⟩ := Option.bind_eq_some_iff.1 h
  obtain ⟨rfl, rfl⟩ := Prod.mk.inj (Option.some.inj h)
  have hsource := follows_readDefinition filename c₁
  rw [toOption_eq_some_iff.1 he] at hsource
  exact (Cursor.bears_name hname).append hsource.bears

/-- The leaves of a statement, if there is one. -/
def leavesIfAny (s? : Option Tree) : List Tree := leavesOfAll s?.toList

/-- Statements that are read one by one bear their tokens in order. -/
theorem follows_repeatStatements {filename : String} {one : Reader (Option Tree)}
    (hone : Follows filename leavesIfAny one) (n : Nat) :
    Follows filename leavesOfAll (repeatStatements one n) := by
  induction n with
  | zero => exact fun c => .ok (.nil (.refl c))
  | succ n ih =>
    intro c
    refine .bind (.refl c) (hone c) fun s? c₁ hs => ?_
    cases s? with
    | none => exact .ok (.nil (.refl c))
    | some s =>
      refine .bind hs.leadsTo (ih c₁) fun ss c₂ hss => ?_
      have hall := hs.append hss
      rw [leavesIfAny, Option.toList_some, leavesOfAll, leavesOfAll, List.append_nil] at hall
      exact .ok hall

theorem follows_readLoop {filename : String} {one : Reader (Option Tree)}
    (hone : Follows filename leavesIfAny one) :
    Follows filename Tree.leaves (readLoop filename one) := by
  intro c
  refine .bind (.refl c) (follows_readExpression filename c) fun e c₁ he => ?_
  refine .symbol he.leadsTo fun c₂ h₂ => ?_
  refine .bind (he.leadsTo.trans h₂) (follows_repeatStatements hone _ c₂) fun ss c₃ hss => ?_
  have hbody := he.append (hss.of_leadsTo h₂)
  exact .symbol hbody.leadsTo fun c₄ h₄ => .ok (hbody.extend h₄)

theorem follows_readCommitted {filename : String} {read : Reader Tree}
    (hread : Follows filename Tree.leaves read) :
    Follows filename leavesIfAny (readCommitted read) := by
  intro c
  refine .bind (.refl c) (hread c) fun s c₁ hs => ?_
  have hnil : leavesIfAny (some s) = s.leaves := List.append_nil _
  exact .ok (hnil ▸ hs)

/-- A statement, with all that stands in its block, bears its tokens in order. -/
theorem follows_readStatement (filename : String) (n : Nat) :
    Follows filename leavesIfAny (readStatement filename n) := by
  induction n with
  | zero => exact fun c => .ok (.nil (.refl c))
  | succ n ih =>
    intro c
    simp only [readStatement]
    split
    · exact .of_leadsTo (Cursor.leadsTo_of_keyword? ‹_›)
        (follows_readCommitted (follows_readVariable filename) _)
    · exact .of_leadsTo (Cursor.leadsTo_of_keyword? ‹_›)
        (follows_readCommitted (follows_readFunction filename) _)
    · exact .of_leadsTo (Cursor.leadsTo_of_keyword? ‹_›)
        (follows_readCommitted (follows_readLoop ih) _)
    · exact .of_leadsTo (Cursor.leadsTo_of_keyword? ‹_›)
        (follows_readCommitted (follows_readPrint filename) _)
    · split
      · rename_i s d hs
        have hnil : leavesIfAny (some s) = s.leaves := List.append_nil _
        exact .ok (hnil ▸ bears_of_readAssignment hs)
      · exact .ok (.nil (.refl c))

/-- The leaves of statements stand in the text in order. -/
theorem follows_readStatements (filename : String) :
    Follows filename leavesOfAll (readStatements filename) :=
  fun c => follows_repeatStatements (follows_readStatement filename _) _ c

/-! ## Whole texts -/

namespace Tree

/-- The leaves of a program that is read stand in the text, one behind the other. -/
theorem bears_of_ofProgram {filename : String} {cs : List Char} {p : Tree}
    (h : ofProgram filename cs = .ok p) :
    ∃ d, (Cursor.start (expandTabs cs)).Bears filename p.leaves d := by
  obtain ⟨⟨ss, d⟩, hss, h⟩ := bind_eq_ok_iff.1 h
  obtain ⟨_, -, h⟩ := bind_eq_ok_iff.1 h
  obtain rfl := Except.ok.inj h
  have hreading := follows_readStatements filename (Cursor.start (expandTabs cs))
  rw [hss] at hreading
  exact ⟨d, hreading.bears⟩

/-- The leaves of an expression that is read stand in the text, one behind the other. -/
theorem bears_of_ofExpression {filename : String} {cs : List Char} {e : Tree}
    (h : ofExpression filename cs = .ok e) :
    ∃ d, (Cursor.start (expandTabs cs)).Bears filename e.leaves d := by
  obtain ⟨⟨e', d⟩, he, h⟩ := bind_eq_ok_iff.1 h
  obtain ⟨_, -, h⟩ := bind_eq_ok_iff.1 h
  obtain rfl := Except.ok.inj h
  have hreading := follows_readExpression filename (Cursor.start (expandTabs cs))
  rw [he] at hreading
  exact ⟨d, hreading.bears⟩

/-- Reading a program fails at a place of the text that nothing to pass over follows. -/
theorem isSettled_of_ofProgram {filename : String} {cs : List Char} {f : Failure}
    (h : ofProgram filename cs = .error f) :
    (Cursor.start (expandTabs cs)).LeadsTo f.cursor ∧ f.IsSettled := by
  have hreading := follows_readStatements filename (Cursor.start (expandTabs cs))
  obtain hread | ⟨⟨ss, d⟩, hread, h⟩ := bind_eq_error_iff.1 h
  · rw [hread] at hreading
    cases hreading with
    | error hleads hf => exact ⟨hleads, hf⟩
  · rw [hread] at hreading
    obtain hend | ⟨_, -, h⟩ := bind_eq_error_iff.1 h
    · dsimp only [expectEnd] at hend
      split at hend
      · cases hend
      · obtain rfl := Except.error.inj hend
        exact ⟨hreading.bears.leadsTo.trans d.leadsTo_skip, Failure.isSettled_skip _ d⟩
    · cases h

end Tree
end Quill
