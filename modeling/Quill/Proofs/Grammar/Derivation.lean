import Quill.Operator
import Quill.Grammar.Program

/-!
# The grammar

What a sequence of tokens means is fixed by a grammar that does not speak of reading. An expression
stands at a level: a looser level admits all that a tighter one admits, and any level admits an
expression in parentheses. The operands of an operator stand at levels that its precedence and its
associativity allow, so every sequence of tokens has its operators grouped in one way.

## Main definitions

* `IsName`, `Numeral.IsWellFormed` — the tokens of names and numerals.
* `Operator.level`, `Operator.leftLevel`, `Operator.rightLevel` — the table of precedences.
* `Derives p ts` — the tokens `ts` are a derivation of the phrase `p`.
* `Tree.AreWritableStatements` — the programs whose names, numbers and operators can be written;
  each has a derivation.
-/

namespace Quill

open Text

/-! ## Checks over the characters of a word

A check that quantifies over characters may be decided on the whole alphabet. These instances look
at the characters in question only. -/

section Decidable

variable {p : Char → Prop} [DecidablePred p]

instance decidableForallMemChars (cs : List Char) : Decidable (∀ c ∈ cs, p c) :=
  List.decidableBAll p cs

instance decidableForallMemChar? (o : Option Char) : Decidable (∀ c ∈ o, p c) :=
  Option.decidableForallMem o

instance decidableExistsMemChar? (o : Option Char) : Decidable (∃ c ∈ o, p c) :=
  Option.decidableExistsMem o

end Decidable

/-! ## Tokens with parts -/

/-- A word that may be a name: it does not begin with a digit, and no keyword stands at its start. A
keyword stands there unless a character follows that it may not touch. -/
structure IsName (w : String) : Prop where
  ne_nil : w.toList ≠ []
  isWordChar : ∀ c ∈ w.toList, isWordChar c
  noDigit : ∀ c ∈ w.toList.head?, isDigit c = false
  noKeyword : ∀ k ∈ Cursor.keywords, ∀ rest, w.toList = k.toList ++ rest →
    rest.head?.any Cursor.touchesKeyword

theorem isName_of_noPrefix {w : String} (hne : w.toList ≠ [])
    (hword : ∀ c ∈ w.toList, isWordChar c) (hdigit : ∀ c ∈ w.toList.head?, isDigit c = false)
    (hkeyword : ∀ k ∈ Cursor.keywords, ¬ k.toList <+: w.toList) : IsName w :=
  ⟨hne, hword, hdigit, fun k hk rest hrest => absurd ⟨rest, hrest.symm⟩ (hkeyword k hk)⟩

/-- An exponent as the scanner finds them. -/
structure Numeral.Exponent.IsWellFormed (e : Numeral.Exponent) : Prop where
  mark : e.mark = 'e' ∨ e.mark = 'E'
  sign : e.sign = none ∨ e.sign = some '+' ∨ e.sign = some '-'
  ne_nil : e.digits ≠ []
  isDigit : ∀ c ∈ e.digits, isDigit c

/-- A numeral as the scanner finds them: digits, a fraction behind a point, an exponent. -/
structure Numeral.IsWellFormed (n : Numeral) : Prop where
  ne_nil : n.whole ≠ []
  whole : ∀ c ∈ n.whole, isDigit c
  fraction : ∀ c ∈ n.fraction, isDigit c
  exponent : ∀ e ∈ n.exponent, e.IsWellFormed

/-! ## Precedences -/

namespace Operator

/-- The level of the expressions that an operator makes. Level zero are operands, level two are
signed expressions, and level eight are conditionals. -/
def level : Operator → Nat
  | pow => 1
  | mul | div | rem => 3
  | add | sub => 4
  | less | lessEqual | equal | notEqual | greaterEqual | greater => 5
  | and => 6
  | or => 7

/-- The level of the left operand. A power is a left operand of another only in parentheses. -/
def leftLevel (op : Operator) : Nat := if op = pow then 0 else op.level

/-- The level of the right operand. All operators but the power group to the left. -/
def rightLevel (op : Operator) : Nat := if op = pow then 1 else op.level - 1

end Operator

/-- The level of signed expressions. -/
def signLevel : Nat := 2

/-- The level of conditionals, where every expression stands. -/
def topLevel : Nat := 8

/-! ## Phrases -/

/-- A part of a program with its place in the grammar. -/
inductive Phrase where
  | expression (level : Nat) (e : Tree)
  /-- Arguments separated by commas. -/
  | arguments (es : List Tree)
  /-- Arguments with a comma before each. -/
  | moreArguments (es : List Tree)
  /-- Parameters separated by commas. -/
  | parameters (ps : List Tree)
  /-- Parameters with a comma before each. -/
  | moreParameters (ps : List Tree)
  | statement (s : Tree)
  | statements (ss : List Tree)

/-- The tokens are a derivation of the phrase. A name may have been read anywhere. -/
inductive Derives : Phrase → List String → Prop
  | numeral {k : Nat} {n : Numeral} (hn : n.IsWellFormed) :
    Derives (.expression k (.number n.value)) [String.ofList n.text]
  | truth {k : Nat} : Derives (.expression k (.boolean true)) ["true"]
  | falsehood {k : Nat} : Derives (.expression k (.boolean false)) ["false"]
  | name {k : Nat} {t : Token} (ht : IsName t.value) :
    Derives (.expression k (.token t)) [t.value]
  | call {k : Nat} {t : Token} {es : List Tree} {ts : List String} (ht : IsName t.value)
    (hes : Derives (.arguments es) ts) :
    Derives (.expression k (.call (.token t) es)) (t.value :: "(" :: (ts ++ [")"]))
  | parentheses {k : Nat} {e : Tree} {ts : List String} (he : Derives (.expression topLevel e) ts) :
    Derives (.expression k e) ("(" :: (ts ++ [")"]))
  | binary {k : Nat} {op : Operator} {l r : Tree} {ts us : List String} (hk : op.level ≤ k)
    (hl : Derives (.expression op.leftLevel l) ts)
    (hr : Derives (.expression op.rightLevel r) us) :
    Derives (.expression k (.binary op.symbol l r)) (ts ++ op.symbol :: us)
  | sign {k : Nat} {s : String} {e : Tree} {ts : List String} (hk : signLevel ≤ k)
    (hs : s ∈ signSymbols) (he : Derives (.expression signLevel e) ts) :
    Derives (.expression k (.unary s e)) (s :: ts)
  | conditional {k : Nat} {e a b : Tree} {ts us vs : List String} (hk : topLevel ≤ k)
    (he : Derives (.expression (topLevel - 1) e) ts) (ha : Derives (.expression topLevel a) us)
    (hb : Derives (.expression topLevel b) vs) :
    Derives (.expression k (.conditional e a b)) (ts ++ "?" :: (us ++ ":" :: vs))
  | noArguments : Derives (.arguments []) []
  | arguments {e : Tree} {es : List Tree} {ts us : List String}
    (he : Derives (.expression topLevel e) ts) (hes : Derives (.moreArguments es) us) :
    Derives (.arguments (e :: es)) (ts ++ us)
  | noMoreArguments : Derives (.moreArguments []) []
  | moreArguments {e : Tree} {es : List Tree} {ts us : List String}
    (he : Derives (.expression topLevel e) ts) (hes : Derives (.moreArguments es) us) :
    Derives (.moreArguments (e :: es)) ("," :: (ts ++ us))
  | noParameters : Derives (.parameters []) []
  | parameters {t : Token} {ps : List Tree} {us : List String} (ht : IsName t.value)
    (hps : Derives (.moreParameters ps) us) :
    Derives (.parameters (.token t :: ps)) (t.value :: us)
  | noMoreParameters : Derives (.moreParameters []) []
  | moreParameters {t : Token} {ps : List Tree} {us : List String} (ht : IsName t.value)
    (hps : Derives (.moreParameters ps) us) :
    Derives (.moreParameters (.token t :: ps)) ("," :: t.value :: us)
  | variableDeclaration {t : Token} {e : Tree} {ts : List String} (ht : IsName t.value)
    (he : Derives (.expression topLevel e) ts) :
    Derives (.statement (.variableDeclaration (.token t) e))
      ("let" :: t.value :: "=" :: (ts ++ [";"]))
  | functionDeclaration {t : Token} {ps : List Tree} {e : Tree} {us ts : List String}
    (ht : IsName t.value) (hps : Derives (.parameters ps) us)
    (he : Derives (.expression topLevel e) ts) :
    Derives (.statement (.functionDeclaration (.token t) ps e))
      ("function" :: t.value :: "(" :: (us ++ ")" :: "=" :: (ts ++ [";"])))
  | assignment {t : Token} {e : Tree} {ts : List String} (ht : IsName t.value)
    (he : Derives (.expression topLevel e) ts) :
    Derives (.statement (.assignment (.token t) e)) (t.value :: "=" :: (ts ++ [";"]))
  | print {e : Tree} {ts : List String} (he : Derives (.expression topLevel e) ts) :
    Derives (.statement (.print e)) ("print" :: (ts ++ [";"]))
  | whileLoop {e : Tree} {body : List Tree} {ts us : List String}
    (he : Derives (.expression topLevel e) ts) (hbody : Derives (.statements body) us) :
    Derives (.statement (.whileLoop e body)) ("while" :: (ts ++ "\x7b" :: (us ++ ["\x7d"])))
  | noStatements : Derives (.statements []) []
  | statements {s : Tree} {ss : List Tree} {ts us : List String} (hs : Derives (.statement s) ts)
    (hss : Derives (.statements ss) us) : Derives (.statements (s :: ss)) (ts ++ us)

/-- A looser level admits all that a tighter one admits. -/
theorem Derives.mono {j k : Nat} {e : Tree} {ts : List String}
    (h : Derives (.expression j e) ts) (hjk : j ≤ k) : Derives (.expression k e) ts := by
  cases h with
  | numeral hn => exact .numeral hn
  | truth => exact .truth
  | falsehood => exact .falsehood
  | name ht => exact .name ht
  | call ht hes => exact .call ht hes
  | parentheses he => exact .parentheses he
  | binary hj hl hr => exact .binary (Nat.le_trans hj hjk) hl hr
  | sign hj hs he => exact .sign (Nat.le_trans hj hjk) hs he
  | conditional hj he ha hb => exact .conditional (Nat.le_trans hj hjk) he ha hb

/-! ## Trees that can be written -/

namespace Tree

mutual

/-- Is the tree an expression whose names, numbers and operators can be written? -/
def IsWritable : Tree → Prop
  | literal (.number x) => ∃ n : Numeral, n.IsWellFormed ∧ n.value = x
  | literal (.boolean _) => True
  | token t => IsName t.value
  | call callee args => (∃ t, callee = token t ∧ IsName t.value) ∧ AreWritable args
  | conditional test consequent alternate =>
    test.IsWritable ∧ consequent.IsWritable ∧ alternate.IsWritable
  | binary operator left right =>
    (∃ op : Operator, op.symbol = operator) ∧ left.IsWritable ∧ right.IsWritable
  | unary operator operand => operator ∈ signSymbols ∧ operand.IsWritable
  | _ => False

/-- Can all expressions be written? -/
def AreWritable : List Tree → Prop
  | [] => True
  | t :: ts => t.IsWritable ∧ AreWritable ts

end

/-- Is the tree a name that can be written? -/
def IsWritableName (t : Tree) : Prop := ∃ name, t = token name ∧ IsName name.value

mutual

/-- Is the tree a statement whose parts can be written? -/
def IsWritableStatement : Tree → Prop
  | variableDeclaration name initializer => name.IsWritableName ∧ initializer.IsWritable
  | functionDeclaration name params body =>
    name.IsWritableName ∧ (∀ p ∈ params, p.IsWritableName) ∧ body.IsWritable
  | assignment target source => target.IsWritableName ∧ source.IsWritable
  | whileLoop test body => test.IsWritable ∧ AreWritableStatements body
  | print argument => argument.IsWritable
  | _ => False

/-- Can all statements be written? -/
def AreWritableStatements : List Tree → Prop
  | [] => True
  | t :: ts => t.IsWritableStatement ∧ AreWritableStatements ts

end

mutual

/-- Parentheses around every part make an expression stand at any level. -/
theorem exists_derives_expression : ∀ e : Tree, e.IsWritable → ∀ k,
    ∃ ts, Derives (.expression k e) ts
  | literal (.number x), h, k => by
    obtain ⟨n, hn, rfl⟩ := h
    exact ⟨_, .numeral hn⟩
  | literal (.boolean true), _, k => ⟨_, .truth⟩
  | literal (.boolean false), _, k => ⟨_, .falsehood⟩
  | token t, h, k => ⟨_, .name h⟩
  | call callee args, h, k => by
    obtain ⟨⟨t, rfl, ht⟩, hargs⟩ := h
    obtain ⟨ts, hts⟩ := exists_derives_arguments args hargs
    exact ⟨_, .call ht hts⟩
  | conditional test consequent alternate, h, k => by
    obtain ⟨ts, hts⟩ := exists_derives_expression test h.1 (topLevel - 1)
    obtain ⟨us, hus⟩ := exists_derives_expression consequent h.2.1 topLevel
    obtain ⟨vs, hvs⟩ := exists_derives_expression alternate h.2.2 topLevel
    exact ⟨_, .parentheses (.conditional (Nat.le_refl _) hts hus hvs)⟩
  | binary operator left right, h, k => by
    obtain ⟨⟨op, rfl⟩, hleft, hright⟩ := h
    obtain ⟨ts, hts⟩ := exists_derives_expression left hleft op.leftLevel
    obtain ⟨us, hus⟩ := exists_derives_expression right hright op.rightLevel
    have hlevel : op.level ≤ topLevel := by cases op <;> decide
    exact ⟨_, .parentheses (.binary hlevel hts hus)⟩
  | unary operator operand, h, k => by
    obtain ⟨ts, hts⟩ := exists_derives_expression operand h.2 signLevel
    exact ⟨_, .parentheses (.sign (by decide) h.1 hts)⟩
  | absent, h, _ | text _, h, _ | list _, h, _ | entity _, h, _ | program _, h, _
  | variableDeclaration _ _, h, _ | functionDeclaration _ _ _, h, _ | assignment _ _, h, _
  | whileLoop _ _, h, _ | print _, h, _ => h.elim

theorem exists_derives_arguments : ∀ es : List Tree, AreWritable es →
    ∃ ts, Derives (.arguments es) ts
  | [], _ => ⟨_, .noArguments⟩
  | e :: es, h => by
    obtain ⟨ts, hts⟩ := exists_derives_expression e h.1 topLevel
    obtain ⟨us, hus⟩ := exists_derives_moreArguments es h.2
    exact ⟨_, .arguments hts hus⟩

theorem exists_derives_moreArguments : ∀ es : List Tree, AreWritable es →
    ∃ ts, Derives (.moreArguments es) ts
  | [], _ => ⟨_, .noMoreArguments⟩
  | e :: es, h => by
    obtain ⟨ts, hts⟩ := exists_derives_expression e h.1 topLevel
    obtain ⟨us, hus⟩ := exists_derives_moreArguments es h.2
    exact ⟨_, .moreArguments hts hus⟩

end

theorem exists_derives_moreParameters {ps : List Tree} (h : ∀ p ∈ ps, p.IsWritableName) :
    ∃ ts, Derives (.moreParameters ps) ts := by
  induction ps with
  | nil => exact ⟨_, .noMoreParameters⟩
  | cons p ps ih =>
    obtain ⟨t, rfl, ht⟩ := h p List.mem_cons_self
    obtain ⟨ts, hts⟩ := ih fun p hp => h p (List.mem_cons_of_mem _ hp)
    exact ⟨_, .moreParameters ht hts⟩

theorem exists_derives_parameters {ps : List Tree} (h : ∀ p ∈ ps, p.IsWritableName) :
    ∃ ts, Derives (.parameters ps) ts := by
  cases ps with
  | nil => exact ⟨_, .noParameters⟩
  | cons p ps =>
    obtain ⟨t, rfl, ht⟩ := h p List.mem_cons_self
    obtain ⟨ts, hts⟩ := exists_derives_moreParameters fun p hp => h p (List.mem_cons_of_mem _ hp)
    exact ⟨_, .parameters ht hts⟩

mutual

/-- Every statement that can be written has tokens. -/
theorem exists_derives_statement : ∀ s : Tree, s.IsWritableStatement →
    ∃ ts, Derives (.statement s) ts
  | variableDeclaration name initializer, h => by
    obtain ⟨⟨t, rfl, ht⟩, he⟩ := h
    obtain ⟨ts, hts⟩ := exists_derives_expression initializer he topLevel
    exact ⟨_, .variableDeclaration ht hts⟩
  | functionDeclaration name params body, h => by
    obtain ⟨⟨t, rfl, ht⟩, hparams, hbody⟩ := h
    obtain ⟨us, hus⟩ := exists_derives_parameters hparams
    obtain ⟨ts, hts⟩ := exists_derives_expression body hbody topLevel
    exact ⟨_, .functionDeclaration ht hus hts⟩
  | assignment target source, h => by
    obtain ⟨⟨t, rfl, ht⟩, he⟩ := h
    obtain ⟨ts, hts⟩ := exists_derives_expression source he topLevel
    exact ⟨_, .assignment ht hts⟩
  | whileLoop test body, h => by
    obtain ⟨ts, hts⟩ := exists_derives_expression test h.1 topLevel
    obtain ⟨us, hus⟩ := exists_derives_statements body h.2
    exact ⟨_, .whileLoop hts hus⟩
  | print argument, h => by
    obtain ⟨ts, hts⟩ := exists_derives_expression argument h topLevel
    exact ⟨_, .print hts⟩
  | absent, h | literal _, h | text _, h | list _, h | token _, h | entity _, h | program _, h
  | call _ _, h | conditional _ _ _, h | binary _ _ _, h | unary _ _, h => h.elim

/-- Every program whose leaves can be written has a derivation. -/
theorem exists_derives_statements : ∀ ss : List Tree, AreWritableStatements ss →
    ∃ ts, Derives (.statements ss) ts
  | [], _ => ⟨_, .noStatements⟩
  | s :: ss, h => by
    obtain ⟨ts, hts⟩ := exists_derives_statement s h.1
    obtain ⟨us, hus⟩ := exists_derives_statements ss h.2
    exact ⟨_, .statements hts hus⟩

end

end Tree

end Quill
