import Quill.Proofs.Text.Place
import Quill.Report.Context

/-!
# The window around a line

The rows of a report are the lines around a line, each behind its number, and the marker below this
line. The marker is indented by the width to which the numbers are padded. So its caret stands in
the column of its character as long as the numbers are no longer than that, and before this column
from line 10000 on.

## Main definitions

* `numberedRows cs first last` — the lines of a text with the numbers from `first` to `last`.
* `numberPrefix n` — what stands in front of line `n`.
-/

namespace Quill.Report

open Text

/-! ## Lines by their numbers -/

/-- A line with its number as a row. -/
def numberedRow (row : List Char × Nat) : List Char := numberedLine row.2 row.1

/-- The rows of the lines with the numbers from `first` to `last`. -/
def numberedRows (cs : List Char) (first last : Nat) : List (List Char) :=
  (((lines cs).zipIdx 1).filter fun row => first ≤ row.2 ∧ row.2 ≤ last).map numberedRow

/-- What is numbered between two bounds is a part of the list. -/
theorem filter_zipIdx {α : Type} (xs : List α) (n first last : Nat) :
    (xs.zipIdx n).filter (fun x => first ≤ x.2 ∧ x.2 ≤ last) =
      ((xs.take (last + 1 - n)).drop (first - n)).zipIdx (max n first) := by
  induction xs generalizing n with
  | nil => rw [List.take_nil, List.drop_nil, List.zipIdx_nil, List.zipIdx_nil, List.filter_nil]
  | cons x xs ih =>
    rw [List.zipIdx_cons, List.filter_cons, ih (n + 1)]
    rcases Nat.lt_or_ge last n with hlast | hlast
    · have htake : last + 1 - n = 0 := by omega
      have htake' : last + 1 - (n + 1) = 0 := by omega
      rw [if_neg (by simp; omega), htake, htake', List.take_zero, List.take_zero, List.drop_nil,
        List.drop_nil, List.zipIdx_nil, List.zipIdx_nil]
    have htake : last + 1 - n = last + 1 - (n + 1) + 1 := by omega
    rw [htake, List.take_succ_cons]
    rcases Nat.lt_or_ge n first with hfirst | hfirst
    · have hdrop : first - n = first - (n + 1) + 1 := by omega
      have hmax : max (n + 1) first = max n first := by omega
      rw [if_neg (by simp; omega), hdrop, hmax, List.drop_succ_cons]
    · have hdrop : first - n = 0 := by omega
      have hdrop' : first - (n + 1) = 0 := by omega
      rw [if_pos (by simp; omega), hdrop, hdrop', Nat.max_eq_left hfirst,
        Nat.max_eq_left (Nat.le_succ_of_le hfirst), List.drop_zero, List.drop_zero,
        List.zipIdx_cons]

/-- A part of a list around one of its entries: what comes before it, and what comes behind it. -/
theorem drop_take_of_getElem {α : Type} {xs : List α} {n first last : Nat} (hn : n < xs.length)
    (hfirst : first ≤ n) (hlast : n < last) :
    (xs.take last).drop first =
      (xs.take n).drop first ++ xs[n] :: (xs.take last).drop (n + 1) := by
  have htake : (xs.take last).take n = xs.take n := by
    rw [List.take_take, Nat.min_eq_left (Nat.le_of_lt hlast)]
  have hdrop : (xs.take last).drop n = xs[n] :: (xs.take last).drop (n + 1) := by
    rw [List.drop_eq_getElem_cons (by rw [List.length_take]; omega), List.getElem_take]
  calc (xs.take last).drop first
      = ((xs.take last).take n ++ (xs.take last).drop n).drop first := by
        rw [List.take_append_drop]
    _ = (xs.take n ++ xs[n] :: (xs.take last).drop (n + 1)).drop first := by rw [htake, hdrop]
    _ = (xs.take n).drop first ++ xs[n] :: (xs.take last).drop (n + 1) :=
        List.drop_append_of_le_length (by rw [List.length_take]; omega)

theorem numberedRows_eq (cs : List Char) {first : Nat} (hfirst : 1 ≤ first) (last : Nat) :
    numberedRows cs first last =
      ((((lines cs).take last).drop (first - 1)).zipIdx first).map numberedRow := by
  rw [numberedRows, filter_zipIdx, Nat.add_sub_cancel, Nat.max_eq_right hfirst]

theorem numberedRows_of_lt {cs : List Char} {first last : Nat} (h : last < first) :
    numberedRows cs first last = [] := by
  have hempty : (((lines cs).zipIdx 1).filter fun row => first ≤ row.2 ∧ row.2 ≤ last) = [] :=
    List.filter_eq_nil_iff.2 (by simp; omega)
  rw [numberedRows, hempty, List.map_nil]

/-! ## Rows of a window -/

/-- The rows of two runs of lines stand one behind the other. -/
theorem rowsFrom_append (line column width : Int) (n : Nat) (ls ls' : List (List Char)) :
    rowsFrom line column width n (ls ++ ls') =
      rowsFrom line column width n ls ++ rowsFrom line column width (n + ls.length) ls' := by
  induction ls generalizing n with
  | nil => rfl
  | cons l ls ih =>
    rw [List.cons_append, rowsFrom, rowsFrom, ih, List.length_cons, Nat.add_right_comm n 1,
      Nat.add_assoc n]
    split <;> rfl

/-- Lines other than the marked one are rows behind their numbers. -/
theorem rowsFrom_eq {line : Int} {n : Nat} {ls : List (List Char)}
    (hline : line < n ∨ n + ls.length ≤ line) (column width : Int) :
    rowsFrom line column width n ls = (ls.zipIdx n).map numberedRow := by
  induction ls generalizing n with
  | nil => rfl
  | cons l ls ih =>
    rw [List.length_cons] at hline
    have hn : (n : Int) ≠ line := by omega
    rw [rowsFrom, if_neg hn, ih (by omega), List.zipIdx_cons, List.map_cons, numberedRow]

/-- The window shows the lines from `around` before to `around` behind the marked line, and below
this line the marker. -/
theorem contextRows_eq {cs l : List Char} {n : Nat} (hl : (lines cs)[n]? = some l)
    (around : Nat) (column width : Int) :
    contextRows cs (n + 1 : Nat) column around width =
      numberedRows cs (max 1 (n + 1 - around)) n ++
        numberedLine (n + 1) l :: markerRow column width ::
          numberedRows cs (n + 2) (min (lines cs).length (n + 1 + around)) := by
  obtain ⟨hlt, rfl⟩ := List.getElem?_eq_some_iff.1 hl
  have hfirst : ((n + 1 : Nat) - (around : Int) - 1).toNat = n - around := by omega
  have hlast : ((n + 1 : Nat) + (around : Int)).toNat = n + 1 + around := by omega
  have hmax : max 1 (n + 1 - around) = n - around + 1 := by omega
  have hsplit := drop_take_of_getElem hlt (Nat.sub_le n around)
    (Nat.lt_of_lt_of_le (Nat.lt_succ_self n) (Nat.le_add_right (n + 1) around))
  have hlength : (((lines cs).take n).drop (n - around)).length = n - (n - around) := by
    rw [List.length_drop, List.length_take_of_le (Nat.le_of_lt hlt)]
  have hnumber : n - around + 1 + (n - (n - around)) = n + 1 := by omega
  have hbefore := numberedRows_eq cs (Nat.succ_pos (n - around)) n
  have hbehind := numberedRows_eq cs (Nat.succ_pos (n + 1)) (min (lines cs).length (n + 1 + around))
  rw [Nat.min_comm, ← List.take_eq_take_min, Nat.min_comm] at hbehind
  simp only [contextRows]
  rw [hfirst, hlast, hsplit, rowsFrom_append, hlength, hnumber, rowsFrom, if_pos rfl,
    rowsFrom_eq (.inr (by omega)), rowsFrom_eq (.inl (by omega)), hmax]
  exact congrArg₂ _ hbefore.symm (congrArg (_ :: _ :: ·) hbehind.symm)

/-! ## Rows as lines of the report -/

/-- What stands in front of a line: its number and a colon. -/
def numberPrefix (n : Nat) : List Char := numberedLine n []

theorem numberedLine_eq (n : Nat) (l : List Char) : numberedLine n l = numberPrefix n ++ l := by
  simp [numberPrefix, numberedLine]

/-- The number of a line takes as many characters as it has digits, and four at least; two more
follow. -/
theorem length_numberPrefix (n : Nat) :
    (numberPrefix n).length = max lineNumberWidth (Nat.toDigits 10 n).length + 2 := by
  simp only [numberPrefix, numberedLine, List.length_append, List.length_replicate,
    List.length_cons, List.length_nil]
  omega

/-- A number is padded to four digits, and longer from 10000 on. -/
theorem length_numberPrefix_eq_iff (n : Nat) :
    (numberPrefix n).length = lineNumberWidth + 2 ↔ n < 10000 := by
  have hdigits : (Nat.toDigits 10 n).length ≤ lineNumberWidth ↔ n < 10 ^ lineNumberWidth :=
    Nat.length_toDigits_le_iff (by decide) (by decide)
  rw [length_numberPrefix]
  rw [show 10 ^ lineNumberWidth = 10000 from rfl] at hdigits
  omega

theorem noBreak_numberedLine (n : Nat) {l : List Char} (hl : '\n' ∉ l) :
    '\n' ∉ numberedLine n l := by
  have hdigits : '\n' ∉ Nat.toDigits 10 n := fun h =>
    absurd (Nat.isDigit_of_mem_toDigits (by decide) (by decide) h) (by decide)
  simp [numberedLine, hl, hdigits, List.mem_replicate]

theorem noBreak_numberedRows {cs : List Char} {first last : Nat} :
    ∀ row ∈ numberedRows cs first last, '\n' ∉ row := by
  intro row hrow
  obtain ⟨⟨l, n⟩, hmem, rfl⟩ := List.mem_map.1 hrow
  exact noBreak_numberedLine n
    (noBreak_of_mem_lines cs l (List.fst_mem_of_mem_zipIdx (List.mem_filter.1 hmem).1))

theorem noBreak_markerRow (column width : Int) : '\n' ∉ markerRow column width := by
  simp [markerRow, List.mem_replicate]

/-! ## The caret -/

theorem markerRow_eq (column : Nat) (width : Int) :
    markerRow column width = List.replicate (lineNumberWidth + 2 + (column - 1)) ' ' ++
      '^' :: (List.replicate (max width 1 - 1).toNat '~' ++ " Error here".toList) := by
  have hcolumn : ((column : Int) - 1).toNat = column - 1 := by omega
  rw [markerRow, hcolumn, List.replicate_append_replicate, List.append_assoc, List.cons_append]

/-- The text around a line shows the lines up to `around` before and behind it, in order and behind
their numbers, and below the line itself the marker. The caret stands below the character of its
column exactly if the number of the line has at most four digits. -/
theorem lines_contextText {cs : List Char} {line : Nat} (hfirst : 1 ≤ line)
    (hlast : line ≤ (lines cs).length) (column around : Nat) (width : Int) :
    ∃ l indent, (lines cs)[line - 1]? = some l ∧
      lines (contextText cs line column around width).toList =
        numberedRows cs (max 1 (line - around)) (line - 1) ++
          (numberPrefix line ++ l) ::
            (List.replicate indent ' ' ++
              '^' :: (List.replicate (max width 1 - 1).toNat '~' ++ " Error here".toList)) ::
              numberedRows cs (line + 1) (min (lines cs).length (line + around)) ∧
      (numberPrefix line).length + (column - 1) =
        indent + ((Nat.toDigits 10 line).length - lineNumberWidth) ∧
      (indent = (numberPrefix line).length + (column - 1) ↔ line < 10000) := by
  obtain ⟨n, rfl⟩ := Nat.exists_eq_add_of_le' hfirst
  have hl : (lines cs)[n]? = some (lines cs)[n] := List.getElem?_eq_getElem hlast
  have hrows := contextRows_eq hl around column width
  have hnoBreak : ∀ row ∈ contextRows cs (n + 1 : Nat) column around width, '\n' ∉ row := by
    rw [hrows, List.forall_mem_append, List.forall_mem_cons, List.forall_mem_cons]
    have hline := noBreak_of_mem_lines cs _ (List.getElem_mem hlast)
    exact ⟨noBreak_numberedRows, noBreak_numberedLine _ hline, noBreak_markerRow _ _,
      noBreak_numberedRows⟩
  refine ⟨(lines cs)[n], lineNumberWidth + 2 + (column - 1), hl, ?_, ?_, ?_⟩
  · rw [contextText, String.toList_intercalate, List.map_map]
    have htexts : (contextRows cs (n + 1 : Nat) column around width).map
        (String.toList ∘ String.ofList) = contextRows cs (n + 1 : Nat) column around width :=
      List.map_id'' (fun row => String.toList_ofList) _
    have hne : contextRows cs (n + 1 : Nat) column around width ≠ [] := by
      rw [hrows]
      exact List.append_ne_nil_of_right_ne_nil _ (List.cons_ne_nil _ _)
    rw [htexts, ← markerRow_eq]
    exact (lines_intercalate hne hnoBreak).trans
      (by rw [hrows, numberedLine_eq, Nat.add_sub_cancel])
  · rw [length_numberPrefix]
    omega
  · rw [← length_numberPrefix_eq_iff]
    omega

theorem lines_contextText_second :
    ∃ l indent, (lines "a\nbcd\ne".toList)[1]? = some l ∧
      lines (contextText "a\nbcd\ne".toList 2 2 1 2).toList =
        numberedRows "a\nbcd\ne".toList 1 1 ++
          (numberPrefix 2 ++ l) ::
            (List.replicate indent ' ' ++ '^' :: (['~'] ++ " Error here".toList)) ::
              numberedRows "a\nbcd\ne".toList 3 3 ∧
      indent = (numberPrefix 2).length + 1 := by
  obtain ⟨l, indent, hl, hlines, -, hindent⟩ :=
    @lines_contextText "a\nbcd\ne".toList 2 (by decide) (by decide +kernel) 2 1 2
  exact ⟨l, indent, hl, hlines, hindent.2 (by decide)⟩

theorem lines_replicate_break (n : Nat) (c : Char) (hc : c ≠ '\n') :
    lines (List.replicate n '\n' ++ [c]) = List.replicate n [] ++ [[c]] := by
  induction n with
  | zero => simp [lines, hc]
  | succ n ih =>
    rw [List.replicate_succ, List.cons_append, lines_break, ih]
    rfl

/-- The number of line 10000 is longer than the indentation of the marker: its caret stands in front
of the column of the character it marks. -/
theorem contextText_tenThousand :
    contextText (List.replicate 9999 '\n' ++ ['x']) 10000 1 0 1 = "10000: x\n      ^ Error here" ∧
      "10000: x".toList.idxOf 'x' = 7 ∧ "      ^ Error here".toList.idxOf '^' = 6 := by
  refine ⟨?_, by decide +kernel, by decide +kernel⟩
  have hlines := lines_replicate_break 9999 'x' (by decide)
  generalize List.replicate 9999 '\n' ++ ['x'] = cs at hlines
  have hl : (lines cs)[9999]? = some ['x'] := by
    rw [hlines, List.getElem?_append_right (Nat.le_of_eq List.length_replicate),
      List.length_replicate]
    rfl
  have hlength : (lines cs).length = 10000 := by
    rw [hlines, List.length_append, List.length_replicate]
    rfl
  have hrow : numberedLine 10000 ['x'] = "10000: x".toList := by decide +kernel
  have hmarker : markerRow 1 1 = "      ^ Error here".toList := by decide +kernel
  -- no line is shown before and behind the marked one
  have hrows : contextRows cs 10000 1 0 1 = ["10000: x".toList, "      ^ Error here".toList] := by
    rw [← hrow, ← hmarker]
    refine (contextRows_eq hl 0 1 1).trans ?_
    rw [hlength, numberedRows_of_lt (by decide), numberedRows_of_lt (by decide)]
    rfl
  rw [contextText, hrows]
  rfl

end Quill.Report
