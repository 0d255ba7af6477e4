import Quill.Text.CodeRange

/-!
# Blanks

The whitespace of Unicode with the four separators U+001C to U+001F.

## Main definitions

* `isBlank c` — `c` is whitespace.
* `trim cs` — `cs` without the blanks at both ends.
-/

namespace Quill.Text

/-- Whitespace, in ascending order. -/
def blankRanges : List (Nat × Nat) :=
  [(0x9, 0xD), (0x1C, 0x20), (0x85, 0x85), (0xA0, 0xA0), (0x1680, 0x1680), (0x2000, 0x200A),
   (0x2028, 0x2029), (0x202F, 0x202F), (0x205F, 0x205F), (0x3000, 0x3000)]

/-- Whitespace of Unicode, or one of the separators U+001C to U+001F. -/
def isBlank (c : Char) : Bool := inRanges blankRanges c

/-- Drops the blanks at both ends. -/
def trim (cs : List Char) : List Char :=
  ((cs.dropWhile isBlank).reverse.dropWhile isBlank).reverse

end Quill.Text
