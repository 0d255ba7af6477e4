import Quill.Proofs.Grammar.Course
import Quill.Proofs.Grammar.Shape
import Quill.Proofs.Grammar.Completeness
import Quill.Proofs.Graph.Isomorphism

/-!
# Graphs of programs as they are read

Before resolution a graph shows names and literals alike, without quotes. Three names look like a
literal that can be written: `True` and `False` like the booleans, and `inf` like a numeral beyond
the finite doubles. Up to these three names, and to the places where names were read, the graph of a
program that is read determines the program.

## Main definitions

* `literalOfName? name` — the literal that is shown like the name.
* `Tree.IsWritten` — the leaves that can be read.
* `Tree.displayed` — a tree with every leaf as the graph shows it.
-/

namespace Quill

open Text Quill.Graph

/-! ## Names that look like literals -/

/-- The literal that is shown like the name, if there is one that can be written. -/
def literalOfName? (name : String) : Option Literal :=
  if name = "True" then some (.boolean true)
  else if name = "False" then some (.boolean false)
  else if name = "inf" then some (.number (.infinity false))
  else none

/-- Such a name is what is shown of its literal. -/
theorem view_of_literalOfName? {name : String} {v : Literal} (h : literalOfName? name = some v) :
    name = v.view := by
  unfold literalOfName? at h
  split at h
  · subst name
    rw [← Option.some.inj h]
    rfl
  · split at h
    · subst name
      rw [← Option.some.inj h]
      rfl
    · split at h
      · subst name
        rw [← Option.some.inj h]
        rfl
      · cases h

/-- A numeral is read as a number that has no sign and is no NaN. -/
theorem Numeral.value_eq (n : Numeral) :
    n.value = .infinity false ∨ ∃ units fits, n.value = .finite false units fits := by
  simp only [value, Number.ofDecimal, Number.signedZero, Number.ofQuotient]
  split
  · exact .inr ⟨0, by decide +kernel, rfl⟩
  · split
    · exact .inl rfl
    · split
      · exact .inr ⟨0, by decide +kernel, rfl⟩
      · split
        · exact .inr ⟨_, fits_roundQuotient ‹_›, rfl⟩
        · exact .inl rfl

namespace Tree

/-- A literal or a name that can be written. -/
def IsWritten : Tree → Prop
  | literal (.number x) => x = .infinity false ∨ ∃ units fits, x = .finite false units fits
  | literal (.boolean _) => True
  | token t => t.value.toList ≠ [] ∧ (∀ c ∈ t.value.toList, isWordChar c) ∧
      ∀ c ∈ t.value.toList.head?, isDigit c = false
  | _ => False

/-- The leaf that is read at a place can be written. -/
theorem isWritten_of_holds {filename : String} {c d : Cursor} {a : Tree}
    (h : c.Holds filename a d) : a.IsWritten := by
  cases h with
  | numeral _ => exact Numeral.value_eq _
  | truth _ | falsehood _ => trivial
  | name h =>
    obtain ⟨-, hne, hdigit, hrun, -⟩ := Cursor.word?_eq_some_iff.1 h
    simp only [IsWritten, Cursor.token, String.toList_ofList]
    refine ⟨hne, fun ch hch => ?_, fun ch hch => ?_⟩
    · rw [hrun] at hch
      exact mem_of_takeWhile ch hch
    · rw [hch] at hdigit
      exact hdigit

/-- All leaves of a program that is read can be written. -/
theorem isWritten_of_ofProgram {filename : String} {cs : List Char} {p : Tree}
    (h : ofProgram filename cs = .ok p) : ∀ a ∈ p.leaves, a.IsWritten := by
  intro a ha
  obtain ⟨d, hbears⟩ := bears_of_ofProgram h
  obtain ⟨b, e, -, hholds⟩ := hbears.exists_holds a ha
  exact isWritten_of_holds hholds

theorem IsWritten.isLegible {E : Entity → Prop} {a : Tree} (h : a.IsWritten) : a.IsLegible E := by
  cases a with
  | literal v => trivial
  | token t =>
    obtain ⟨hne, hword, -⟩ := h
    refine ⟨.of_forall hne hword (by decide +kernel) (by decide +kernel) (by decide +kernel), ?_⟩
    intro hsharp
    have hnot : ¬ isWordChar '#' := by decide +kernel
    exact hnot (hword '#' (List.mem_of_mem_head? hsharp))
  | _ => exact h.elim

/-- A name is shown like a literal exactly if it is the name of that literal. -/
theorem value_eq_view_iff {t : Token} {v : Literal} (ht : (token t).IsWritten)
    (hv : (literal v).IsWritten) : t.value = v.view ↔ literalOfName? t.value = some v := by
  refine ⟨fun h => ?_, view_of_literalOfName?⟩
  cases v with
  | boolean b =>
    rw [h]
    cases b <;> rfl
  | number x =>
    rcases hv with rfl | ⟨units, fits, rfl⟩
    · rw [h]
      rfl
    · -- a finite number is shown with a digit in front, and no name begins with a digit
      obtain ⟨c, hc, hdigit⟩ := Numeral.exists_digit_of_isWellFormed
        (Number.isWellFormed_magnitudeNumeral fits)
      have hview : t.value.toList = (Number.magnitudeNumeral units fits).text := by
        rw [h, Literal.view, Number.display, String.toList_ofList, Number.displayChars_eq]
        rfl
      rw [← hview] at hc
      exact absurd hdigit (by simp [ht.2.2 c hc])

/-! ## Trees as they are displayed -/

/-- A leaf as the graph shows it: a name that looks like a literal as the literal, and any other
name without its place. -/
def displayedLeaf : Tree → Tree
  | token t =>
    match literalOfName? t.value with
    | some v => literal v
    | none => token ⟨t.value, none⟩
  | a => a

/-- A tree with every leaf as the graph shows it. -/
def displayed (t : Tree) : Tree := t.mapLeaves displayedLeaf

theorem render_displayedLeaf (a : Tree) (n : Numbering) :
    a.displayedLeaf.render n = a.render n := by
  cases a with
  | token t =>
    simp only [displayedLeaf]
    split
    · rename_i v hv
      simp only [render, view_of_literalOfName? hv]
    · rfl
  | _ => rfl

theorem renderField_map {F : Tree → Tree} {f : Field Tree}
    (hf : f.All fun t => ∀ n, (F t).render n = t.render n) (n : Numbering) :
    renderField (f.map F) n = renderField f n := by
  cases f with
  | text value => rfl
  | part t => simp only [Field.map, renderField, hf n]
  | parts ts =>
    have hall : ∀ n, renderAll (ts.map F) n = renderAll ts n := by
      induction ts with
      | nil => exact fun n => rfl
      | cons t ts ih =>
        obtain ⟨ht, hts⟩ := List.forall_mem_cons.1 hf
        intro n
        simp only [List.map_cons, renderAll, ht, ih hts]
    simp only [Field.map, renderField, hall]

theorem renderFields_map {F : Tree → Tree} {fields : Fields Tree}
    (hfields : ∀ f ∈ fields, f.2.All fun t => ∀ n, (F t).render n = t.render n) (n : Numbering) :
    renderFields (fields.map F) n = renderFields fields n := by
  induction fields generalizing n with
  | nil => rfl
  | cons f fields ih =>
    obtain ⟨hf, hfields⟩ := List.forall_mem_cons.1 hfields
    have hrest := ih hfields
    simp only [Fields.map] at hrest
    simp only [Fields.map, List.map_cons, renderFields, renderField_map hf, hrest]

/-- Where leaves are shown alike, the trees are. -/
theorem render_mapLeaves {f : Tree → Tree} (hf : ∀ a n, (f a).render n = a.render n) :
    ∀ (t : Tree) (n : Numbering), (t.mapLeaves f).render n = t.render n := by
  refine node_induction ?_ ?_
  · intro a ha n
    rw [mapLeaves_of_leaf ha, hf]
  · intro t kind fields ht ih n
    rw [render_of_node? ht, render_of_node? (isLeafwise_mapLeaves f t kind fields ht),
      renderFields_map ih]

/-- A graph does not tell a name from the literal that is shown like it. -/
theorem graphText_displayed (t : Tree) : t.displayed.graphText = t.graphText := by
  rw [graphText, graph, displayed, render_mapLeaves render_displayedLeaf]
  rfl

/-- Tokens and literals are leaves. -/
theorem node?_eq_none_of_view? {a : Tree} {view : String} (h : a.view? = some view) :
    a.node? = none := by
  cases a with
  | token _ | literal _ => rfl
  | _ => cases h

/-- Leaves that can be written and are shown alike are displayed alike. -/
theorem displayedLeaf_eq_of_view? {a b : Tree} {view : String} (ha : a.IsWritten)
    (hb : b.IsWritten) (hav : a.view? = some view) (hbv : b.view? = some view) :
    a.displayedLeaf = b.displayedLeaf := by
  have hname {t : Token} {v : Literal} (ht : (token t).IsWritten) (hv : (literal v).IsWritten)
      (htv : t.value = v.view) : (token t).displayedLeaf = literal v := by
    simp only [displayedLeaf, (value_eq_view_iff ht hv).1 htv]
  cases a with
  | token t =>
    cases b with
    | token u =>
      have hvalue : t.value = u.value := Option.some.inj (hav.trans hbv.symm)
      simp only [displayedLeaf, hvalue]
    | literal w => exact hname ha hb (Option.some.inj (hav.trans hbv.symm))
    | _ => cases hbv
  | literal v =>
    cases b with
    | token u => exact (hname hb ha (Option.some.inj (hbv.trans hav.symm))).symm
    | literal w =>
      have hvalue : v = w := Literal.view_injective (Option.some.inj (hav.trans hbv.symm))
      rw [hvalue]
    | _ => cases hbv
  | _ => cases hav

theorem isLeafwise_unplaced : IsLeafwise unplaced := by
  have hall := eq_map_of_cons (F := unplaced) (G := unplacedAll) rfl fun _ _ => rfl
  intro t kind fields h
  cases t <;> cases h <;> simp [unplaced, node?, Fields.map, Field.map, hall]

/-- Where no name looks like a literal, only the places of names are not displayed. -/
theorem displayed_eq_unplaced {t : Tree} (hwritten : ∀ a ∈ t.leaves, a.IsWritten)
    (hnames : ∀ name, token name ∈ t.leaves → literalOfName? name.value = none) :
    t.displayed = t.unplaced := by
  refine (isLeafwise_mapLeaves displayedLeaf).congr isLeafwise_unplaced t fun a ha => ?_
  have hleaf := hwritten a ha
  cases a with
  | literal v => rfl
  | token name => simp only [mapLeaves, displayedLeaf, hnames name ha, unplaced]
  | _ => exact hleaf.elim

/-- Trees of leaves that can be written have the same graph exactly if they are displayed alike. -/
theorem graphText_eq_iff_of_isWritten {t u : Tree} {x y : String × Fields Tree}
    (ht : t.node? = some x) (hu : u.node? = some y) (hleaves : ∀ a ∈ t.leaves, a.IsWritten)
    (hleaves' : ∀ b ∈ u.leaves, b.IsWritten) :
    t.graphText = u.graphText ↔ t.displayed = u.displayed := by
  constructor
  · intro h
    have hnone : ∀ e e' : Entity, False → False → e.id = e'.id → e = e' := fun _ _ => False.elim
    refine eq_of_graphText_eq hnone hnone (isLeafwise_mapLeaves displayedLeaf)
      (fun _ _ => False.elim) ht hu (fun a ha => (hleaves a ha).isLegible)
      (fun b hb => (hleaves' b hb).isLegible) ?_ h
    intro a ha b hb view hav hbv
    rw [mapLeaves_of_leaf (node?_eq_none_of_view? hav),
      mapLeaves_of_leaf (node?_eq_none_of_view? hbv)]
    exact displayedLeaf_eq_of_view? (hleaves a ha) (hleaves' b hb) hav hbv
  · intro h
    rw [← graphText_displayed t, h, graphText_displayed u]

/-! ## Programs that are read -/

/-- A program that is read is a node. -/
theorem exists_node?_of_ofProgram {filename : String} {cs : List Char} {p : Tree}
    (h : ofProgram filename cs = .ok p) : ∃ x, p.node? = some x := by
  have hprogram := isProgram_of_ofProgram h
  cases p with
  | program statements => exact ⟨_, rfl⟩
  | _ => exact hprogram.elim

/-- Two programs that are read have the same graph exactly if they are the same up to the places of
their names and to the three names that look like literals. -/
theorem graphText_eq_iff_displayed_eq {filename filename' : String} {cs cs' : List Char}
    {p q : Tree} (hp : ofProgram filename cs = .ok p) (hq : ofProgram filename' cs' = .ok q) :
    (p.graphText = q.graphText ↔ p.displayed = q.displayed) ∧
      ((∀ name, token name ∈ p.leaves → literalOfName? name.value = none) →
        (∀ name, token name ∈ q.leaves → literalOfName? name.value = none) →
        (p.graphText = q.graphText ↔ p.unplaced = q.unplaced)) ∧
      ∀ name v, token name ∈ p.leaves → literal v ∈ q.leaves →
        (name.value = v.view ↔ literalOfName? name.value = some v) := by
  have hleaves := isWritten_of_ofProgram hp
  have hleaves' := isWritten_of_ofProgram hq
  obtain ⟨x, hx⟩ := exists_node?_of_ofProgram hp
  obtain ⟨y, hy⟩ := exists_node?_of_ofProgram hq
  have hdisplayed := graphText_eq_iff_of_isWritten hx hy hleaves hleaves'
  refine ⟨hdisplayed, fun hnames hnames' => ?_, fun name v hname hv => ?_⟩
  · rw [hdisplayed, displayed_eq_unplaced hleaves hnames, displayed_eq_unplaced hleaves' hnames']
  · exact value_eq_view_iff (hleaves _ hname) (hleaves' _ hv)

/-- A name that looks like a NaN, which no program writes, beside a numeral read as infinity. -/
theorem graphText_nan_eq_iff :
    ∃ p q, ofProgram "one" "print nan*1e999;".toList = .ok p ∧
      ofProgram "two" "// NaN\nprint nan * 2e999;".toList = .ok q ∧
        (p.graphText = q.graphText ↔ p.displayed = q.displayed) ∧
        (p.graphText = q.graphText ↔ p.unplaced = q.unplaced) ∧
        ∀ name v, token name ∈ p.leaves → literal v ∈ q.leaves →
          (name.value = v.view ↔ literalOfName? name.value = some v) := by
  have hp : ofProgram "one" "print nan*1e999;".toList = .ok (program [print (binary "*"
      (token ⟨"nan", some ⟨"one", 1, 7, 1, 10, "nan"⟩⟩) (number (.infinity false)))]) := rfl
  have hq : ofProgram "two" "// NaN\nprint nan * 2e999;".toList = .ok (program [print (binary "*"
      (token ⟨"nan", some ⟨"two", 2, 7, 2, 10, "nan"⟩⟩) (number (.infinity false)))]) := rfl
  obtain ⟨hdisplayed, hunplaced, hviews⟩ := graphText_eq_iff_displayed_eq hp hq
  refine ⟨_, _, hp, hq, hdisplayed, hunplaced ?_ ?_, hviews⟩ <;>
  · intro name hname
    obtain rfl := by simpa [leaves, leavesOfAll] using hname
    rfl

/-- The name `True` is shown like the boolean, so two different programs have one graph. -/
theorem graphText_of_nameTrue :
    ∃ p q, ofProgram "name" "print True;".toList = .ok p ∧
      ofProgram "boolean" "print true;".toList = .ok q ∧ p.graphText = q.graphText ∧
        p.unplaced ≠ q.unplaced := by
  refine ⟨_, _, rfl, rfl, rfl, ?_⟩
  intro h
  cases h

end Tree
end Quill
