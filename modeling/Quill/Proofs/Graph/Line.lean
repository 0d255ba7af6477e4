import Quill.Graph
import Quill.Proofs.Node
import Quill.Proofs.Text.Quoted
import Quill.Proofs.Number.Display

/-!
# Lines of graphs read back

A line shows the number and the kind of an object and then its fields. No kind and no field but a
quoted text holds a space, and a quoted text tells by itself where it ends, so the line of an object
determines its kind and, field by field, what is shown. A graph of such lines determines its lines.

## Main definitions

* `Field.view`, `Fields.views` — what is shown of a field.
* `IsPlain` — texts that can stand unquoted in a line.
-/

namespace Quill

open Text

/-! ## Shown fields -/

/-- What the line of an object shows of a field, given what is shown of the parts. -/
def Field.view : Field String → String
  | text value => quoted value
  | part view => view
  | parts views => Graph.bracketed views

/-- What the line of an object shows behind its kind. -/
def Fields.views (fields : Fields String) : List (String × String) :=
  List.map (fun (name, field) => (name, field.view)) fields

/-! ## Texts without spaces -/

/-- A text that can stand unquoted in a line, also in a list. -/
structure IsPlain (view : String) : Prop where
  ne_nil : view.toList ≠ []
  noSpace : ' ' ∉ view.toList
  noComma : ',' ∉ view.toList
  noBreak : '\n' ∉ view.toList

instance (view : String) : Decidable (IsPlain view) :=
  decidable_of_iff (view.toList ≠ [] ∧ ' ' ∉ view.toList ∧ ',' ∉ view.toList ∧ '\n' ∉ view.toList)
    ⟨fun ⟨h, hs, hc, hb⟩ => ⟨h, hs, hc, hb⟩, fun ⟨h, hs, hc, hb⟩ => ⟨h, hs, hc, hb⟩⟩

theorem IsPlain.of_forall {view : String} {p : Char → Bool} (hne : view.toList ≠ [])
    (hview : ∀ c ∈ view.toList, p c) (hspace : p ' ' = false) (hcomma : p ',' = false)
    (hbreak : p '\n' = false) : IsPlain view := by
  have hnot {c : Char} (hc : p c = false) : c ∉ view.toList := by
    intro h
    simp [hview c h] at hc
  exact ⟨hne, hnot hspace, hnot hcomma, hnot hbreak⟩

/-- A run up to a space, or up to the end, determines where it ends. -/
theorem run_append_inj {stop : Char} {xs ys rest rest' : List Char} (hxs : stop ∉ xs)
    (hys : stop ∉ ys) (hrest : ∀ c ∈ rest.head?, c = stop) (hrest' : ∀ c ∈ rest'.head?, c = stop)
    (h : xs ++ rest = ys ++ rest') : xs = ys ∧ rest = rest' := by
  have hrun {zs tail : List Char} (hzs : stop ∉ zs) (htail : ∀ c ∈ tail.head?, c = stop) :
      (zs ++ tail).takeWhile (· ≠ stop) = zs := by
    refine takeWhile_run_append ?_ ?_
    · intro c hc
      simpa using fun h : c = stop => hzs (h ▸ hc)
    · intro c hc
      simpa using htail c hc
  have hprefix : xs = ys := by rw [← hrun hxs hrest, h, hrun hys hrest']
  subst hprefix
  exact ⟨rfl, List.append_cancel_left h⟩

theorem mem_intercalate {α : Type} {stop c : α} {runs : List (List α)}
    (h : c ∈ [stop].intercalate runs) : c = stop ∨ ∃ run ∈ runs, c ∈ run := by
  induction runs with
  | nil => simp at h
  | cons run runs ih =>
    cases runs with
    | nil => exact .inr ⟨run, List.mem_cons_self, by simpa using h⟩
    | cons run' runs =>
      rw [List.intercalate_cons_cons, List.mem_append, List.mem_append] at h
      rcases h with (h | h) | h
      · exact .inr ⟨run, List.mem_cons_self, h⟩
      · exact .inl (List.mem_singleton.1 h)
      · refine (ih h).imp_right ?_
        rintro ⟨run, hrun, hc⟩
        exact ⟨run, List.mem_cons_of_mem _ hrun, hc⟩

theorem mem_intercalate_of_mem {α : Type} {stop c : α} {runs : List (List α)} {run : List α}
    (hrun : run ∈ runs) (hc : c ∈ run) : c ∈ [stop].intercalate runs := by
  induction runs with
  | nil => cases hrun
  | cons run' runs ih =>
    cases runs with
    | nil => simpa using List.mem_singleton.1 hrun ▸ hc
    | cons run'' runs =>
      rw [List.intercalate_cons_cons, List.mem_append, List.mem_append]
      rcases List.mem_cons.1 hrun with rfl | hrun
      · exact .inl (.inl hc)
      · exact .inr (ih hrun)

/-- Runs without a stop can be told from what they are joined to with stops between. -/
theorem intercalate_inj {stop : Char} {runs runs' : List (List Char)} (hne : runs ≠ [])
    (hne' : runs' ≠ []) (hruns : ∀ run ∈ runs, stop ∉ run) (hruns' : ∀ run ∈ runs', stop ∉ run)
    (h : [stop].intercalate runs = [stop].intercalate runs') : runs = runs' := by
  rw [← List.splitOn_intercalate stop hruns hne, h, List.splitOn_intercalate stop hruns' hne']

namespace Graph

/-! ## References and lists -/

theorem toList_reference (n : Nat) : (reference n).toList = '#' :: Nat.toDigits 10 n := by
  rw [reference, String.toList_append, Nat.toString_eq_repr, Nat.toList_repr]
  rfl

theorem head?_reference (n : Nat) : (reference n).toList.head? = some '#' := by
  rw [toList_reference]
  rfl

/-- Different numbers are referred to differently. -/
theorem reference_injective : Function.Injective reference := by
  intro m n h
  have hdigits := congrArg String.toList h
  rw [toList_reference, toList_reference] at hdigits
  rw [← digitsValue_toDigits m, (List.cons.inj hdigits).2, digitsValue_toDigits]

theorem not_mem_toDigits {c : Char} (hc : isDigit c = false) (n : Nat) :
    c ∉ Nat.toDigits 10 n := by
  intro h
  rw [isDigit_of_mem_toDigits h] at hc
  cases hc

theorem isPlain_reference (n : Nat) : IsPlain (reference n) := by
  refine .of_forall (p := fun c => isDigit c || c = '#') ?_ ?_ (by decide +kernel)
    (by decide +kernel) (by decide +kernel)
  · simp [toList_reference]
  · intro c hc
    rw [toList_reference] at hc
    rcases List.mem_cons.1 hc with rfl | hc
    · decide +kernel
    · simp [isDigit_of_mem_toDigits hc]

theorem toList_bracketed (views : List String) :
    (bracketed views).toList = '[' :: ([','].intercalate (views.map String.toList) ++ [']']) := by
  simp [bracketed, String.toList_intercalate]

theorem not_mem_bracketed {views : List String} {c : Char} (hc : c ≠ '[' ∧ c ≠ ',' ∧ c ≠ ']')
    (hviews : ∀ view ∈ views, c ∉ view.toList) : c ∉ (bracketed views).toList := by
  rw [toList_bracketed]
  intro h
  rcases List.mem_cons.1 h with h | h
  · exact hc.1 h
  rcases List.mem_append.1 h with h | h
  · rcases mem_intercalate h with h | ⟨run, hrun, h⟩
    · exact hc.2.1 h
    · obtain ⟨view, hview, rfl⟩ := List.mem_map.1 hrun
      exact hviews view hview h
  · exact hc.2.2 (List.mem_singleton.1 h)

/-- Items in brackets determine the items. -/
theorem bracketed_inj {views views' : List String} (hviews : ∀ view ∈ views, IsPlain view)
    (hviews' : ∀ view ∈ views', IsPlain view) (h : bracketed views = bracketed views') :
    views = views' := by
  have hinner : [','].intercalate (views.map String.toList) =
      [','].intercalate (views'.map String.toList) := by
    have hchars := congrArg String.toList h
    rw [toList_bracketed, toList_bracketed] at hchars
    exact List.append_cancel_right (List.cons.inj hchars).2
  have hcomma {vs : List String} (hvs : ∀ view ∈ vs, IsPlain view) :
      ∀ run ∈ vs.map String.toList, ',' ∉ run := by
    simpa using fun view hview => (hvs view hview).noComma
  have hempty {vs : List String} (hvs : ∀ view ∈ vs, IsPlain view)
      (hnil : [','].intercalate (vs.map String.toList) = []) : vs = [] := by
    by_contra hne
    have hrun : vs.map String.toList = [[]] :=
      intercalate_inj (by simpa using hne) (by simp) (hcomma hvs) (by simp) (by simpa using hnil)
    obtain ⟨view, rfl, hview⟩ := List.map_eq_singleton_iff.1 hrun
    exact (hvs view List.mem_cons_self).ne_nil hview
  by_cases hne : views = []
  · subst hne
    exact (hempty hviews' hinner.symm).symm
  by_cases hne' : views' = []
  · subst hne'
    exact hempty hviews hinner
  have hruns := intercalate_inj (by simpa using hne) (by simpa using hne') (hcomma hviews)
    (hcomma hviews') hinner
  exact (List.map_inj_right fun _ _ => String.toList_inj.1).1 hruns

/-! ## Fields in a line -/

/-- What a line shows behind the kind of its object. -/
def fieldChars (fields : Fields String) : List Char :=
  fields.flatMap fun (name, field) => ' ' :: name.toList ++ '=' :: field.view.toList

theorem head?_fieldChars (fields : Fields String) : ∀ c ∈ (fieldChars fields).head?, c = ' ' := by
  cases fields with
  | nil => simp [fieldChars]
  | cons f fields =>
    intro c hc
    exact (Option.some.inj hc).symm

theorem toList_line (n : Nat) (kind : String) (fields : Fields String) :
    (line n kind fields.views).toList =
      (padNumber n ++ " | ").toList ++ (kind.toList ++ fieldChars fields) := by
  have hfields : (String.join (fields.views.map fun f => " " ++ f.1 ++ "=" ++ f.2)).toList =
      fieldChars fields := by
    simp only [String.toList_join, Fields.views, fieldChars, List.map_map, List.flatMap_map]
    refine congrArg (List.flatMap · fields) (funext fun f => ?_)
    simp
  change (padNumber n ++ " | " ++ kind ++
    String.join (fields.views.map fun f => " " ++ f.1 ++ "=" ++ f.2)).toList = _
  rw [String.toList_append, hfields, String.toList_append, List.append_assoc]

theorem noSpace_view {field : Field String} (hfield : field.All IsPlain)
    (hsort : field.sort ≠ .text) : ' ' ∉ field.view.toList := by
  cases field with
  | text value => exact absurd rfl hsort
  | part view => exact hfield.noSpace
  | parts views => exact not_mem_bracketed (by decide) fun view hview => (hfield view hview).noSpace

theorem noBreak_view {field : Field String} (hfield : field.All IsPlain) :
    '\n' ∉ field.view.toList := by
  cases field with
  | text value => simpa [Field.view, quoted] using noBreak_quotedChars value.toList
  | part view => exact hfield.noBreak
  | parts views => exact not_mem_bracketed (by decide) fun view hview => (hfield view hview).noBreak

/-- A shown field determines what is shown of its parts, and where it ends. -/
theorem view_append_inj {f g : Field String} (hsort : f.sort = g.sort) (hf : f.All IsPlain)
    (hg : g.All IsPlain) {rest rest' : List Char} (hrest : ∀ c ∈ rest.head?, c = ' ')
    (hrest' : ∀ c ∈ rest'.head?, c = ' ')
    (h : f.view.toList ++ rest = g.view.toList ++ rest') : f = g ∧ rest = rest' := by
  have hrun (hsort : f.sort ≠ .text) (hsort' : g.sort ≠ .text) :
      f.view = g.view ∧ rest = rest' := by
    have hviews := run_append_inj (noSpace_view hf hsort) (noSpace_view hg hsort') hrest hrest' h
    exact ⟨String.toList_inj.1 hviews.1, hviews.2⟩
  cases f with
  | text value =>
    cases g with
    | text value' =>
      simp only [Field.view, quoted, String.toList_ofList] at h
      obtain ⟨hvalue, hrest⟩ := quotedChars_append_inj h
      exact ⟨congrArg Field.text (String.toList_inj.1 hvalue), hrest⟩
    | part _ | parts _ => cases hsort
  | part view =>
    cases g with
    | part view' =>
      obtain ⟨hview, hrest⟩ := hrun nofun nofun
      exact ⟨congrArg Field.part hview, hrest⟩
    | text _ | parts _ => cases hsort
  | parts views =>
    cases g with
    | parts views' =>
      obtain ⟨hview, hrest⟩ := hrun nofun nofun
      exact ⟨congrArg Field.parts (bracketed_inj hf hg hview), hrest⟩
    | text _ | part _ => cases hsort

/-- Fields with the same names and sorts that are shown alike are the same. -/
theorem fieldChars_inj {fs gs : Fields String} (hsignature : fs.signature = gs.signature)
    (hfs : ∀ f ∈ fs, f.2.All IsPlain) (hgs : ∀ g ∈ gs, g.2.All IsPlain)
    (h : fieldChars fs = fieldChars gs) : fs = gs := by
  induction fs generalizing gs with
  | nil =>
    cases gs with
    | nil => rfl
    | cons g gs => cases hsignature
  | cons f fs ih =>
    cases gs with
    | nil => cases hsignature
    | cons g gs =>
      obtain ⟨name, f⟩ := f
      obtain ⟨name', g⟩ := g
      obtain ⟨hhead, htail⟩ := List.cons.inj hsignature
      obtain ⟨rfl, hsort⟩ := Prod.mk.inj hhead
      rw [List.forall_mem_cons] at hfs hgs
      have hviews : f.view.toList ++ fieldChars fs = g.view.toList ++ fieldChars gs := by
        simpa [fieldChars] using h
      obtain ⟨rfl, hrest⟩ := view_append_inj hsort hfs.1 hgs.1 (head?_fieldChars fs)
        (head?_fieldChars gs) hviews
      rw [ih htail hfs.2 hgs.2 hrest]

/-! ## Lines -/

/-- A line determines the kind of its object, and what is shown behind it. -/
theorem kind_eq_of_line_eq {n : Nat} {kind kind' : String} {fs gs : Fields String}
    (hkind : ' ' ∉ kind.toList) (hkind' : ' ' ∉ kind'.toList)
    (h : line n kind fs.views = line n kind' gs.views) :
    kind = kind' ∧ fieldChars fs = fieldChars gs := by
  have hchars := congrArg String.toList h
  rw [toList_line, toList_line] at hchars
  obtain ⟨hkinds, hfields⟩ := run_append_inj hkind hkind' (head?_fieldChars fs)
    (head?_fieldChars gs) (List.append_cancel_left hchars)
  exact ⟨String.toList_inj.1 hkinds, hfields⟩

theorem noBreak_padNumber (n : Nat) : '\n' ∉ (padNumber n).toList := by
  have hdigits : '\n' ∉ Nat.toDigits 10 n := not_mem_toDigits (by decide +kernel) n
  simp [padNumber, Nat.toString_eq_repr, Nat.toList_repr, hdigits]

/-- A line of a graph holds no line break, if what it shows holds none. -/
theorem noBreak_line {n : Nat} {kind : String} {fields : Fields String}
    (hkind : '\n' ∉ kind.toList) (hnames : ∀ x ∈ fields.signature, '\n' ∉ x.1.toList)
    (hfields : ∀ f ∈ fields, f.2.All IsPlain) : '\n' ∉ (line n kind fields.views).toList := by
  have hchars : '\n' ∉ fieldChars fields := by
    intro h
    obtain ⟨f, hf, h⟩ := List.mem_flatMap.1 h
    simp only [List.cons_append, List.mem_cons, List.mem_append] at h
    rcases h with h | h | h | h
    · exact absurd h (by decide)
    · exact hnames (f.1, f.2.sort) (List.mem_map_of_mem hf) h
    · exact absurd h (by decide)
    · exact noBreak_view (hfields f hf) h
  rw [toList_line]
  simp [noBreak_padNumber, hkind, hchars]

/-- Lines joined to one text are determined by it. -/
theorem join_lines_inj {ls ls' : List String} (hne : ls ≠ []) (hne' : ls' ≠ [])
    (hls : ∀ l ∈ ls, '\n' ∉ l.toList) (hls' : ∀ l ∈ ls', '\n' ∉ l.toList)
    (h : String.intercalate "\n" ls = String.intercalate "\n" ls') : ls = ls' := by
  have hbreak : "\n".toList = ['\n'] := rfl
  have hchars := congrArg String.toList h
  rw [String.toList_intercalate, String.toList_intercalate, hbreak] at hchars
  have hruns := intercalate_inj (by simpa using hne) (by simpa using hne') (by simpa using hls)
    (by simpa using hls') hchars
  exact (List.map_inj_right fun _ _ => String.toList_inj.1).1 hruns

end Graph
end Quill
