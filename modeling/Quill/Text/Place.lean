/-!
# Places in a text

Offsets count characters from zero, lines and columns from one. An offset may lie behind the end of
the text, and a negative offset counts from the end.

## Main definitions

* `expandTabs cs` — tabs replaced by spaces up to the next multiple of eight columns.
* `lines cs` — the lines of a text.
* `upTo cs offset`, `startingAt cs offset` — the two sides of an offset.
* `lineAt cs offset`, `columnAt cs offset` — the place of an offset.
-/

namespace Quill.Text

/-- The distance between tab stops. -/
def tabWidth : Nat := 8

/-- Replaces tabs from the given column on. The column restarts after a line feed and after a
carriage return. -/
def expandTabsFrom : Nat → List Char → List Char
  | _, [] => []
  | column, c :: cs =>
    if c = '\t' then
      let gap := tabWidth - column % tabWidth
      List.replicate gap ' ' ++ expandTabsFrom (column + gap) cs
    else c :: expandTabsFrom (if c = '\n' ∨ c = '\r' then 0 else column + 1) cs

/-- Replaces every tab by the spaces up to the next tab stop. -/
def expandTabs (cs : List Char) : List Char := expandTabsFrom 0 cs

/-- The lines of a text; a line feed at the end starts an empty last line. -/
def lines : List Char → List (List Char)
  | [] => [[]]
  | c :: cs =>
    if c = '\n' then [] :: lines cs
    else
      match lines cs with
      | [] => [[c]]
      | line :: rest => (c :: line) :: rest

theorem lines_ne_nil (cs : List Char) : lines cs ≠ [] := by
  cases cs with
  | nil => simp [lines]
  | cons c cs =>
    simp only [lines]
    split
    · simp
    · split <;> simp

/-- An offset of a text of the given length as a number of characters from the start. -/
def clampOffset (length : Nat) (offset : Int) : Nat :=
  if 0 ≤ offset then min offset.toNat length else (length + offset).toNat

/-- The text before an offset. -/
def upTo (cs : List Char) (offset : Int) : List Char := cs.take (clampOffset cs.length offset)

/-- The text behind an offset. -/
def startingAt (cs : List Char) (offset : Int) : List Char :=
  cs.drop (clampOffset cs.length offset)

/-- The number of line feeds in a text. -/
def countBreaks (cs : List Char) : Nat := cs.count '\n'

/-- The line of an offset. -/
def lineAt (cs : List Char) (offset : Int) : Nat := countBreaks (upTo cs offset) + 1

/-- The column of an offset: its distance from the last line feed before it. -/
def columnAt (cs : List Char) (offset : Int) : Int :=
  let before := upTo cs offset
  let column := (before.reverse.takeWhile (· ≠ '\n')).length
  offset - before.length + column + 1

end Quill.Text
