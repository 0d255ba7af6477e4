import Quill.Proofs.Shape
import Quill.Proofs.Grammar.Lexeme

/-!
# What is read is a program

Whatever a reader of the grammar answers has the shape of a program before resolution: expressions
and statements stand where they belong, and every name is a token. This holds of every text, also of
those in which keywords run into words, since only the ways to build a tree count for it.

## Main definitions

* `Yields P read` — all that a reader answers has the property `P`.
-/

namespace Quill

/-- All that a reader answers has a property. -/
def Yields {α : Type} (P : α → Prop) (read : Reader α) : Prop := ∀ c a d, read c = .ok (a, d) → P a

open Quill.Tree

/-! ## Expressions -/

section
variable {inner lower : Reader Tree} (hinner : Yields (IsExpression Naming.raw) inner)
include hinner

theorem areExpressions_readMoreArguments (n : Nat) (c : Cursor) :
    AreExpressions Naming.raw (readMoreArguments inner n c).1 := by
  induction n generalizing c with
  | zero => trivial
  | succ n ih =>
    simp only [readMoreArguments]
    split
    · trivial
    · split
      · trivial
      · exact ⟨hinner _ _ _ ‹_›, ih _⟩

theorem areExpressions_readArguments (c : Cursor) :
    AreExpressions Naming.raw (readArguments inner c).1 := by
  simp only [readArguments]
  split
  · trivial
  · exact ⟨hinner _ _ _ ‹_›, areExpressions_readMoreArguments hinner _ _⟩

theorem areExpressions_of_readCall? {c d : Cursor} {args : List Tree}
    (h : readCall? inner c = some (args, d)) : AreExpressions Naming.raw args := by
  obtain ⟨c', -, h⟩ := Option.bind_eq_some_iff.1 h
  obtain ⟨d', -, h⟩ := Option.bind_eq_some_iff.1 h
  obtain ⟨rfl, -⟩ := Prod.mk.inj (Option.some.inj h)
  exact areExpressions_readArguments hinner c'

/-- An operand is an expression, to whatever depth its parts are read. -/
theorem yields_readOperand (filename : String) (behindSign : Bool) :
    Yields (IsExpression Naming.raw) (readOperand filename inner behindSign) := by
  intro c e d h
  cases operandAt_of_readOperand h with
  | numeral _ | truth _ | falsehood _ | name _ => trivial
  | call _ hcall => exact ⟨trivial, areExpressions_of_readCall? hinner hcall⟩
  | parentheses _ he _ => exact hinner _ _ _ he

end

theorem yields_readPower {operand : Reader Tree}
    (h : Yields (IsExpression Naming.raw) operand) (n : Nat) :
    Yields (IsExpression Naming.raw) (readPower operand n) := by
  induction n with
  | zero => exact h
  | succ n ih =>
    intro c e d hc
    obtain ⟨⟨base, next⟩, hbase, hc⟩ := bind_eq_ok_iff.1 hc
    have hbase := h _ _ _ hbase
    dsimp only at hc
    split at hc
    · obtain ⟨rfl, -⟩ := Prod.mk.inj (Except.ok.inj hc)
      exact hbase
    · split at hc
      · obtain ⟨rfl, -⟩ := Prod.mk.inj (Except.ok.inj hc)
        exact ⟨hbase, ih _ _ _ ‹_›⟩
      · obtain ⟨rfl, -⟩ := Prod.mk.inj (Except.ok.inj hc)
        exact hbase

theorem yields_readSigned {lower : Bool → Reader Tree}
    (h : ∀ behindSign, Yields (IsExpression Naming.raw) (lower behindSign)) (n : Nat)
    (behindSign : Bool) : Yields (IsExpression Naming.raw) (readSigned lower n behindSign) := by
  induction n generalizing behindSign with
  | zero => exact h behindSign
  | succ n ih =>
    intro c e d hc
    simp only [readSigned] at hc
    split at hc
    · exact h behindSign _ _ _ hc
    · obtain ⟨⟨operand, next⟩, hoperand, hc⟩ := bind_eq_ok_iff.1 hc
      obtain ⟨rfl, -⟩ := Prod.mk.inj (Except.ok.inj hc)
      have hshape := ih true _ _ _ hoperand
      exact hshape

section
variable {lower : Reader Tree} (hlower : Yields (IsExpression Naming.raw) lower)
include hlower

/-- A chain of operators on expressions is one. -/
theorem isExpression_readMoreOperands (symbols : List String) (n : Nat) {left : Tree}
    (hleft : left.IsExpression Naming.raw) (c : Cursor) :
    (readMoreOperands lower symbols n left c).1.IsExpression Naming.raw := by
  induction n generalizing left c with
  | zero => exact hleft
  | succ n ih =>
    simp only [readMoreOperands]
    split
    · exact hleft
    · rename_i symbol next _
      split
      · exact hleft
      · rename_i right last hright
        have hnext : (binary symbol left right).IsExpression Naming.raw :=
          ⟨hleft, hlower _ _ _ hright⟩
        exact ih hnext last

theorem yields_readChain (symbols : List String) :
    Yields (IsExpression Naming.raw) (readChain lower symbols) := by
  intro c e d hc
  obtain ⟨⟨left, next⟩, hleft, hc⟩ := bind_eq_ok_iff.1 hc
  have h := isExpression_readMoreOperands hlower symbols next.ahead.length (hlower _ _ _ hleft) next
  rwa [Except.ok.inj hc] at h

end

theorem isExpression_of_readArms? {inner : Reader Tree}
    (hinner : Yields (IsExpression Naming.raw) inner) {c d : Cursor} {consequent alternate : Tree}
    (h : readArms? inner c = some ((consequent, alternate), d)) :
    consequent.IsExpression Naming.raw ∧ alternate.IsExpression Naming.raw := by
  obtain ⟨_, -, h⟩ := Option.bind_eq_some_iff.1 h
  obtain ⟨_, hconsequent, h⟩ := Option.bind_eq_some_iff.1 h
  obtain ⟨_, -, h⟩ := Option.bind_eq_some_iff.1 h
  obtain ⟨_, halternate, h⟩ := Option.bind_eq_some_iff.1 h
  obtain ⟨harms, -⟩ := Prod.mk.inj (Option.some.inj h)
  obtain ⟨rfl, rfl⟩ := Prod.mk.inj harms
  exact ⟨hinner _ _ _ (toOption_eq_some_iff.1 hconsequent),
    hinner _ _ _ (toOption_eq_some_iff.1 halternate)⟩

theorem yields_readConditional {inner lower : Reader Tree}
    (hinner : Yields (IsExpression Naming.raw) inner)
    (hlower : Yields (IsExpression Naming.raw) lower) :
    Yields (IsExpression Naming.raw) (readConditional inner lower) := by
  intro c e d hc
  obtain ⟨⟨test, next⟩, htest, hc⟩ := bind_eq_ok_iff.1 hc
  have htest := hlower _ _ _ htest
  dsimp only at hc
  split at hc
  · obtain ⟨rfl, -⟩ := Prod.mk.inj (Except.ok.inj hc)
    exact ⟨htest, isExpression_of_readArms? hinner ‹_›⟩
  · obtain ⟨rfl, -⟩ := Prod.mk.inj (Except.ok.inj hc)
    exact htest

theorem yields_chainReader {inner : Reader Tree} (hinner : Yields (IsExpression Naming.raw) inner)
    (filename : String) (j : Nat) :
    Yields (IsExpression Naming.raw) (chainReader filename inner j) := by
  induction j with
  | zero =>
    intro c
    refine yields_readSigned ?_ _ _ c
    exact fun behindSign c => yields_readPower (yields_readOperand hinner filename behindSign) _ c
  | succ j ih => exact yields_readChain ih _

/-- What is read as an expression is one, at any depth of nesting. -/
theorem yields_readNested (filename : String) (n : Nat) :
    Yields (IsExpression Naming.raw) (readNested filename n) := by
  induction n with
  | zero =>
    intro c e d h
    cases h
  | succ n ih =>
    rw [readNested, readLevels_eq]
    exact yields_readConditional ih (yields_chainReader ih filename 5)

/-- What is read as an expression is one. -/
theorem yields_readExpression (filename : String) :
    Yields (IsExpression Naming.raw) (readExpression filename) :=
  fun c => yields_readNested filename _ c

/-! ## Statements -/

theorem isToken_of_mem_readMoreParameters (filename : String) (n : Nat) (c : Cursor) :
    ∀ p ∈ (readMoreParameters filename n c).1, p.IsToken := by
  induction n generalizing c with
  | zero => simp [readMoreParameters]
  | succ n ih =>
    simp only [readMoreParameters]
    split
    · simp
    · exact List.forall_mem_cons.2 ⟨trivial, ih _⟩

theorem isToken_of_mem_readParameters (filename : String) (c : Cursor) :
    ∀ p ∈ (readParameters filename c).1, p.IsToken := by
  simp only [readParameters]
  split
  · simp
  · exact List.forall_mem_cons.2 ⟨trivial, isToken_of_mem_readMoreParameters filename _ _⟩

theorem yields_readDefinition (filename : String) :
    Yields (IsExpression Naming.raw) (readDefinition filename) := by
  intro c e d h
  obtain ⟨_, -, h⟩ := bind_eq_ok_iff.1 h
  obtain ⟨⟨e', _⟩, he, h⟩ := bind_eq_ok_iff.1 h
  obtain ⟨_, -, h⟩ := bind_eq_ok_iff.1 h
  obtain ⟨rfl, -⟩ := Prod.mk.inj (Except.ok.inj h)
  have hshape := yields_readExpression filename _ _ _ he
  exact hshape

theorem yields_readVariable (filename : String) :
    Yields (IsStatement Naming.raw) (readVariable filename) := by
  intro c s d h
  obtain ⟨⟨name, _⟩, -, h⟩ := bind_eq_ok_iff.1 h
  obtain ⟨⟨initializer, _⟩, hinitializer, h⟩ := bind_eq_ok_iff.1 h
  obtain ⟨rfl, -⟩ := Prod.mk.inj (Except.ok.inj h)
  exact ⟨trivial, yields_readDefinition filename _ _ _ hinitializer⟩

theorem yields_readFunction (filename : String) :
    Yields (IsStatement Naming.raw) (readFunction filename) := by
  intro c s d h
  obtain ⟨⟨name, _⟩, -, h⟩ := bind_eq_ok_iff.1 h
  obtain ⟨next, -, h⟩ := bind_eq_ok_iff.1 h
  obtain ⟨_, -, h⟩ := bind_eq_ok_iff.1 h
  obtain ⟨⟨body, _⟩, hbody, h⟩ := bind_eq_ok_iff.1 h
  obtain ⟨rfl, -⟩ := Prod.mk.inj (Except.ok.inj h)
  exact ⟨trivial, isToken_of_mem_readParameters filename next,
    yields_readDefinition filename _ _ _ hbody⟩

theorem yields_readPrint (filename : String) :
    Yields (IsStatement Naming.raw) (readPrint filename) := by
  intro c s d h
  obtain ⟨⟨argument, _⟩, hargument, h⟩ := bind_eq_ok_iff.1 h
  obtain ⟨_, -, h⟩ := bind_eq_ok_iff.1 h
  obtain ⟨rfl, -⟩ := Prod.mk.inj (Except.ok.inj h)
  have hshape := yields_readExpression filename _ _ _ hargument
  exact hshape

theorem isStatement_of_readAssignment {filename : String} {c d : Cursor} {s : Tree}
    (h : readAssignment filename c = some (s, d)) : s.IsStatement Naming.raw := by
  obtain ⟨⟨name, _⟩, -, h⟩ := Option.bind_eq_some_iff.1 h
  obtain ⟨⟨source, _⟩, hsource, h⟩ := Option.bind_eq_some_iff.1 h
  obtain ⟨rfl, -⟩ := Prod.mk.inj (Option.some.inj h)
  exact ⟨trivial, yields_readDefinition filename _ _ _ (toOption_eq_some_iff.1 hsource)⟩

/-- Is a statement, if there is one, of the shape before resolution? -/
def IsStatementIfAny (s? : Option Tree) : Prop := ∀ s ∈ s?, s.IsStatement Naming.raw

/-- What is read statement by statement is a list of statements. -/
theorem yields_repeatStatements {one : Reader (Option Tree)} (hone : Yields IsStatementIfAny one)
    (n : Nat) : Yields (AreStatements Naming.raw) (repeatStatements one n) := by
  induction n with
  | zero =>
    intro c ss d h
    obtain ⟨rfl, -⟩ := Prod.mk.inj (Except.ok.inj h)
    trivial
  | succ n ih =>
    intro c ss d h
    obtain ⟨⟨s?, next⟩, hs, h⟩ := bind_eq_ok_iff.1 h
    cases s? with
    | none =>
      obtain ⟨rfl, -⟩ := Prod.mk.inj (Except.ok.inj h)
      trivial
    | some s =>
      obtain ⟨⟨ss', _⟩, hss, h⟩ := bind_eq_ok_iff.1 h
      obtain ⟨rfl, -⟩ := Prod.mk.inj (Except.ok.inj h)
      exact ⟨hone _ _ _ hs s rfl, ih _ _ _ hss⟩

theorem yields_readLoop {one : Reader (Option Tree)} (hone : Yields IsStatementIfAny one)
    (filename : String) : Yields (IsStatement Naming.raw) (readLoop filename one) := by
  intro c s d h
  obtain ⟨⟨test, _⟩, htest, h⟩ := bind_eq_ok_iff.1 h
  obtain ⟨_, -, h⟩ := bind_eq_ok_iff.1 h
  obtain ⟨⟨body, _⟩, hbody, h⟩ := bind_eq_ok_iff.1 h
  obtain ⟨_, -, h⟩ := bind_eq_ok_iff.1 h
  obtain ⟨rfl, -⟩ := Prod.mk.inj (Except.ok.inj h)
  exact ⟨yields_readExpression filename _ _ _ htest, yields_repeatStatements hone _ _ _ _ hbody⟩

theorem yields_readCommitted {read : Reader Tree} (hread : Yields (IsStatement Naming.raw) read) :
    Yields IsStatementIfAny (readCommitted read) := by
  intro c s? d h
  obtain ⟨⟨s, _⟩, hs, h⟩ := bind_eq_ok_iff.1 h
  obtain ⟨rfl, -⟩ := Prod.mk.inj (Except.ok.inj h)
  rintro _ ⟨⟩
  exact hread _ _ _ hs

/-- What is read as a statement is one, with all that stands in its block. -/
theorem yields_readStatement (filename : String) (n : Nat) :
    Yields IsStatementIfAny (readStatement filename n) := by
  induction n with
  | zero =>
    intro c s? d h
    obtain ⟨rfl, -⟩ := Prod.mk.inj (Except.ok.inj h)
    rintro _ ⟨⟩
  | succ n ih =>
    intro c s? d h
    simp only [readStatement] at h
    split at h
    · exact yields_readCommitted (yields_readVariable filename) _ _ _ h
    · exact yields_readCommitted (yields_readFunction filename) _ _ _ h
    · exact yields_readCommitted (yields_readLoop ih filename) _ _ _ h
    · exact yields_readCommitted (yields_readPrint filename) _ _ _ h
    · split at h
      · obtain ⟨rfl, -⟩ := Prod.mk.inj (Except.ok.inj h)
        rintro _ ⟨⟩
        exact isStatement_of_readAssignment ‹_›
      · obtain ⟨rfl, -⟩ := Prod.mk.inj (Except.ok.inj h)
        rintro _ ⟨⟩

namespace Tree

/-- What is read as a program is one, before resolution. -/
theorem isProgram_of_ofProgram {filename : String} {cs : List Char} {p : Tree}
    (h : ofProgram filename cs = .ok p) : p.IsProgram Naming.raw := by
  obtain ⟨⟨ss, _⟩, hss, h⟩ := bind_eq_ok_iff.1 h
  obtain ⟨_, -, h⟩ := bind_eq_ok_iff.1 h
  obtain rfl := Except.ok.inj h
  exact yields_repeatStatements (yields_readStatement filename _) _ _ _ _ hss

end Tree
end Quill
