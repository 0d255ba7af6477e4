import Quill.Proofs.Grammar.Course
import Quill.Proofs.Optimize.Shrink
import Quill.Proofs.Text.Place

/-!
# The places of tokens

A name may be tried at one place several times, as what is called and as a value, and at every level
of an expression. What is recorded is the place of the name that stays in the tree, and there is one
for each: the spans of the tokens cover their names in the text with its tabs replaced, and in the
order of the program they stand one behind the other.

## Main definitions

* `Tree.tokens` — the tokens of a tree from left to right.
* `Token.StandsAt` — a span covers the name of a token.
* `Span.Precedes` — the order of places.
-/

namespace Quill

open Text

/-- The span covers the name of the token, and nothing else, on one line of the text. -/
structure Token.StandsAt (t : Token) (s : Span) (cs : List Char) : Prop where
  line_pos : 1 ≤ s.startLine
  column_pos : 1 ≤ s.startColumn
  oneLine : s.endLine = s.startLine
  width : s.endColumn - s.startColumn = t.value.toList.length
  covers : s.charsIn? cs = some t.value.toList

/-- The span begins on an earlier line than the other one, or further left on the same line. -/
def Span.Precedes (s s' : Span) : Prop :=
  s.startLine < s'.startLine ∨ s.startLine = s'.startLine ∧ s.startColumn < s'.startColumn

namespace Cursor

/-! ## The order of places -/

/-- The place is not behind the beginning of the span. -/
def IsUpTo (c : Cursor) (s : Span) : Prop :=
  (c.line : Int) < s.startLine ∨ (c.line : Int) = s.startLine ∧ (c.column : Int) ≤ s.startColumn

/-- Characters of one line move the column. -/
theorem Takes.column {c d : Cursor} {w : List Char} (h : c.Takes w d) (hw : '\n' ∉ w) :
    d.column = c.column + w.length := by
  have hrun : d.behind.takeWhile (· ≠ '\n') = w.reverse ++ c.behind.takeWhile (· ≠ '\n') := by
    rw [h.behind, List.takeWhile_append_of_pos]
    simpa using fun ch hch => ne_of_mem_of_not_mem hch hw
  rw [Cursor.column, Cursor.column, hrun, List.length_append, List.length_reverse]
  omega

/-- A place that leads to one before a span is itself before the span. -/
theorem LeadsTo.isUpTo {c d : Cursor} {s : Span} (h : c.LeadsTo d) (hd : d.IsUpTo s) :
    c.IsUpTo s := by
  obtain ⟨w, hw⟩ := h
  have hline := hw.line
  unfold IsUpTo at hd ⊢
  by_cases hbreak : '\n' ∈ w
  · have hpos : 0 < countBreaks w := List.count_pos_iff.2 hbreak
    omega
  · have hcolumn := hw.column hbreak
    omega

/-- The token of a word begins before all that follows the word. -/
theorem precedes_of_isUpTo {c d : Cursor} {w : List Char} (h : c.Takes w d) (hw : '\n' ∉ w)
    (hne : w ≠ []) (filename : String) {s s' : Span} (hs : s ∈ (c.token filename w).span)
    (hd : d.IsUpTo s') : s.Precedes s' := by
  cases hs
  have hline := h.line
  have hcolumn := h.column hw
  have hbreaks : countBreaks w = 0 := List.count_eq_zero.2 hw
  have hpos := List.length_pos_iff.2 hne
  unfold IsUpTo at hd
  unfold Span.Precedes
  dsimp only
  omega

/-- The token of a name that is read stands where it is read. -/
theorem standsAt_token {c d : Cursor} {w : List Char} (h : c.word? = some (w, d))
    (filename : String) :
    ∃ s, (c.token filename w).span = some s ∧ (c.token filename w).StandsAt s c.text ∧
      c.IsUpTo s := by
  obtain ⟨-, -, -, -, htakes⟩ := word?_eq_some_iff.1 h
  have hvalue : (c.token filename w).value.toList = w := String.toList_ofList
  refine ⟨_, rfl, ⟨?_, ?_, rfl, ?_, ?_⟩, .inr ⟨rfl, Int.le_refl _⟩⟩
  · exact Int.ofNat_le.2 (Nat.succ_pos _)
  · exact Int.ofNat_le.2 (Nat.succ_pos _)
  · rw [hvalue]
    dsimp only
    omega
  · rw [hvalue]
    exact charsIn?_token htakes (notMem_of_word? h (by decide +kernel)) filename _ rfl

end Cursor

/-! ## The tokens of a tree -/

namespace Tree

/-- The token that a tree is. -/
def token? : Tree → Option Token
  | token t => some t
  | _ => none

/-- The tokens among trees in their order. -/
def tokensOf (ts : List Tree) : List Token := ts.filterMap token?

/-- The tokens of a tree, at any depth, from left to right. -/
def tokens (t : Tree) : List Token := tokensOf t.parts

/-- Without lists among its leaves, all tokens of a tree are leaves. -/
theorem tokens_eq : ∀ t : Tree, (∀ a ∈ t.leaves, ∀ items, a ≠ list items) →
    t.tokens = tokensOf t.leaves := by
  refine node_induction ?_ ?_
  · intro t ht hleaves
    rw [leaves_of_leaf ht, List.forall_mem_singleton] at hleaves
    cases t with
    | list items => exact absurd rfl (hleaves items)
    | absent | literal _ | text _ | token _ | entity _ => rfl
    | _ => cases ht
  · intro t kind fields ht ih hleaves
    have htoken : t.token? = none := by
      cases t <;> first | rfl | cases ht
    have hfield : ∀ f ∈ fields, f.2.elements.flatMap tokens =
        f.2.elements.flatMap fun u => tokensOf u.leaves := by
      intro f hf
      refine List.flatMap_congr fun u hu => Field.all_iff.1 (ih f hf) u hu fun a ha => hleaves a ?_
      exact Field.all_iff.1 (mem_leaves_of_node? ht hf) u hu a ha
    rw [tokens, tokensOf, parts_of_node? ht, List.filterMap_cons_none htoken, partsOfAll_eq,
      List.flatMap_assoc, leaves_of_node? ht, tokensOf]
    simp only [List.filterMap_flatMap]
    exact List.flatMap_congr hfield

end Tree

/-- The tokens stand in the text, one behind the other. -/
structure StandInOrder (ts : List Token) (cs : List Char) : Prop where
  standsAt : ∀ t ∈ ts, ∃ s, t.span = some s ∧ t.StandsAt s cs
  precedes : (ts.filterMap Token.span).Pairwise Span.Precedes

namespace Cursor

/-- Leaves that stand in the text one behind the other have such tokens, none of them before the
place where the leaves begin. -/
theorem Bears.standInOrder {filename : String} {c d : Cursor} {as : List Tree}
    (h : Bears filename c as d) :
    StandInOrder (Tree.tokensOf as) c.text ∧
      ∀ s ∈ (Tree.tokensOf as).filterMap Token.span, c.IsUpTo s := by
  induction h with
  | nil _ => exact ⟨⟨by simp [Tree.tokensOf], by simp [Tree.tokensOf]⟩, by simp [Tree.tokensOf]⟩
  | @cons c b e d a as hb ha _ ih =>
    have hbe := ha.leadsTo
    obtain ⟨hrest, hupTo⟩ := ih
    rw [hbe.text_eq, hb.text_eq] at hrest
    have hbehind : ∀ s ∈ (Tree.tokensOf as).filterMap Token.span, c.IsUpTo s :=
      fun s hs => hb.isUpTo (hbe.isUpTo (hupTo s hs))
    cases ha with
    | numeral _ | truth _ | falsehood _ => exact ⟨hrest, hbehind⟩
    | @name w _ hword =>
      obtain ⟨s, hs, hstands, hupToToken⟩ := standsAt_token hword filename
      obtain ⟨-, hne, -, -, htakes⟩ := word?_eq_some_iff.1 hword
      rw [hb.text_eq] at hstands
      have htokens : Tree.tokensOf (.token (b.token filename w) :: as) =
          b.token filename w :: Tree.tokensOf as := rfl
      have hspans : (Tree.tokensOf (.token (b.token filename w) :: as)).filterMap Token.span =
          s :: (Tree.tokensOf as).filterMap Token.span := by
        rw [htokens, List.filterMap_cons_some hs]
      refine ⟨⟨?_, ?_⟩, ?_⟩
      · rw [htokens, List.forall_mem_cons]
        exact ⟨⟨s, hs, hstands⟩, hrest.standsAt⟩
      · rw [hspans, List.pairwise_cons]
        refine ⟨fun s' hs' => ?_, hrest.precedes⟩
        exact precedes_of_isUpTo htakes (notMem_of_word? hword (by decide +kernel)) hne filename hs
          (hupTo s' hs')
      · rw [hspans, List.forall_mem_cons]
        exact ⟨hb.isUpTo hupToToken, hbehind⟩

end Cursor

theorem Span.not_precedes_self (s : Span) : ¬ s.Precedes s := by
  unfold Precedes
  omega

/-- No two tokens have the same span. -/
theorem StandInOrder.nodup {ts : List Token} {cs : List Char} (h : StandInOrder ts cs) :
    (ts.map Token.span).Nodup := by
  rw [List.Nodup, List.pairwise_map]
  refine (List.pairwise_filterMap.1 h.precedes).imp_of_mem ?_
  intro t t' ht _ hprecedes heq
  obtain ⟨s, hs, -⟩ := h.standsAt t ht
  exact s.not_precedes_self (hprecedes s hs s (heq ▸ hs))

namespace Tree

/-- The tokens of what is read, a program or an expression, stand where their spans say in the text
with its tabs replaced, from left to right one behind the other. -/
theorem tokens_stand_in_order {filename : String} {cs : List Char} {p : Tree}
    (h : ofProgram filename cs = .ok p ∨ ofExpression filename cs = .ok p) :
    (∀ t ∈ p.tokens, ∃ s, t.span = some s ∧ t.StandsAt s (expandTabs cs)) ∧
      (p.tokens.filterMap Token.span).Pairwise Span.Precedes ∧
      (p.tokens.map Token.span).Nodup := by
  obtain ⟨d, hbears⟩ : ∃ d, (Cursor.start (expandTabs cs)).Bears filename p.leaves d :=
    h.elim bears_of_ofProgram bears_of_ofExpression
  have hleaves : ∀ a ∈ p.leaves, ∀ items, a ≠ list items := by
    intro a ha items
    obtain ⟨_, _, -, hholds⟩ := hbears.exists_holds a ha
    cases hholds <;> nofun
  obtain ⟨horder, -⟩ := hbears.standInOrder
  rw [← tokens_eq p hleaves] at horder
  exact ⟨horder.standsAt, horder.precedes, horder.nodup⟩

/-- Names in all their places: behind a tab and a comment, as a parameter, called and not called,
and as an operand at every level. -/
def crowded : String := "\tfunction a(b) = // a\n\tb; let c = a(a(-π ** π * π)) ? π : (π);"

theorem tokens_crowded :
    ∃ p, ofProgram "crowded" crowded.toList = .ok p ∧
      p.tokens.map Token.value = ["a", "b", "b", "c", "a", "a", "π", "π", "π", "π", "π"] ∧
      (∀ t ∈ p.tokens, ∃ s, t.span = some s ∧ t.StandsAt s (expandTabs crowded.toList)) ∧
      (p.tokens.filterMap Token.span).Pairwise Span.Precedes ∧
      (p.tokens.map Token.span).Nodup := by
  obtain ⟨p, hread, hvalues⟩ : ∃ p, ofProgram "crowded" crowded.toList = .ok p ∧
      p.tokens.map Token.value = ["a", "b", "b", "c", "a", "a", "π", "π", "π", "π", "π"] :=
    ⟨_, rfl, rfl⟩
  exact ⟨p, hread, hvalues, tokens_stand_in_order (.inl hread)⟩

end Tree
end Quill
