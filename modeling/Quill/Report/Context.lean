import Quill.Text.Place

/-!
# Source lines around an error

A report shows the lines around an error, each behind its number, and below the line of the error a
marker under the characters in question.

## Main definitions

* `numberedLine n cs` — a line behind its number.
* `markerRow column width` — a caret and as many tildes as the width leaves.
* `contextRows`, `contextText` — the rows around a line.
-/

namespace Quill.Report

open Text

/-- The width to which line numbers are padded. -/
def lineNumberWidth : Nat := 4

/-- A line behind its number. -/
def numberedLine (n : Nat) (cs : List Char) : List Char :=
  let digits := Nat.toDigits 10 n
  List.replicate (lineNumberWidth - digits.length) ' ' ++ digits ++ [':', ' '] ++ cs

/-- A marker of the given width that begins in a column. It is at least one character wide, and a
column before the first counts as the first. -/
def markerRow (column width : Int) : List Char :=
  List.replicate (lineNumberWidth + 2) ' ' ++ List.replicate (column - 1).toNat ' '
    ++ '^' :: List.replicate (max width 1 - 1).toNat '~' ++ " Error here".toList

/-- The rows of the lines from number `n` on: each line, and below line `line` the marker. -/
def rowsFrom (line column width : Int) : Nat → List (List Char) → List (List Char)
  | _, [] => []
  | n, cs :: rest =>
    let rows := rowsFrom line column width (n + 1) rest
    if n = line then numberedLine n cs :: markerRow column width :: rows
    else numberedLine n cs :: rows

/-- The rows from `around` lines before a line to `around` lines behind it. -/
def contextRows (cs : List Char) (line column around width : Int) : List (List Char) :=
  let first := (line - around - 1).toNat
  let last := (line + around).toNat
  rowsFrom line column width (first + 1) (((lines cs).take last).drop first)

/-- The rows around a line as one text. -/
def contextText (cs : List Char) (line column around width : Int) : String :=
  String.intercalate "\n" ((contextRows cs line column around width).map String.ofList)

end Quill.Report
