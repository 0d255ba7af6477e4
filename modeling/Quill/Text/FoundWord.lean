import Quill.Text.CodeRange
import Quill.Text.Place
import Quill.Text.Quoted

/-!
# The text found at a place

A message about unexpected text shows a word of at most sixteen characters, or else one character.
The words are runs of digits and of the letters of the Latin, Greek and Cyrillic scripts.

## Main definitions

* `foundAt cs offset` — what stands at an offset.
* `describeFound cs offset` — the same, quoted, or the end of the text.
-/

namespace Quill.Text

/-- Digits and the letters of the Latin, Greek and Cyrillic scripts, in ascending order. -/
def messageLetterRanges : List (Nat × Nat) :=
  [(0x30, 0x39), (0x41, 0x5A), (0x61, 0x7A), (0xAA, 0xAA), (0xB2, 0xB3), (0xB5, 0xB5), (0xB9, 0xBA),
   (0xC0, 0xD6), (0xD8, 0xF6), (0xF8, 0x24F), (0x370, 0x374), (0x376, 0x377), (0x37A, 0x37D),
   (0x37F, 0x37F), (0x386, 0x386), (0x388, 0x38A), (0x38C, 0x38C), (0x38E, 0x3A1), (0x3A3, 0x3E1),
   (0x3F0, 0x3F5), (0x3F7, 0x481), (0x48A, 0x52F), (0x1C80, 0x1C88), (0x1D26, 0x1D2B),
   (0x1D5E, 0x1D5E), (0x1D60, 0x1D60), (0x1D66, 0x1D6A), (0x1D78, 0x1D78), (0x1F00, 0x1F15),
   (0x1F18, 0x1F1D), (0x1F20, 0x1F45), (0x1F48, 0x1F4D), (0x1F50, 0x1F57), (0x1F59, 0x1F59),
   (0x1F5B, 0x1F5B), (0x1F5D, 0x1F5D), (0x1F5F, 0x1F7D), (0x1F80, 0x1FB4), (0x1FB6, 0x1FBC),
   (0x1FBE, 0x1FBE), (0x1FC2, 0x1FC4), (0x1FC6, 0x1FCC), (0x1FD0, 0x1FD3), (0x1FD6, 0x1FDB),
   (0x1FE0, 0x1FEC), (0x1FF2, 0x1FF4), (0x1FF6, 0x1FFC), (0xA640, 0xA66E), (0xA67F, 0xA69D),
   (0xAB65, 0xAB65)]

/-- A character of the words in messages. -/
def isMessageLetter (c : Char) : Bool := inRanges messageLetterRanges c

/-- The longest word shown. -/
def foundWidth : Nat := 16

/-- The word at an offset, or the single character there. An offset before the start is taken as the
start; only where a line feed stands there does it count from the end. -/
def foundAt (cs : List Char) (offset : Int) : List Char :=
  let here := cs.drop offset.toNat
  let word := here.takeWhile isMessageLetter
  if word ≠ [] then word.take foundWidth
  else
    match here with
    | '\n' :: _ | [] =>
      (cs.take (clampOffset cs.length (offset + 1))).drop (clampOffset cs.length offset)
    | c :: _ => [c]

/-- Turns doubled backslashes back into single ones. -/
def halveBackslashes : List Char → List Char
  | '\\' :: '\\' :: cs => '\\' :: halveBackslashes cs
  | c :: cs => c :: halveBackslashes cs
  | [] => []

/-- What stands at an offset: a quoted word, or the end of the text. -/
def describeFound (cs : List Char) (offset : Int) : String :=
  if cs.length ≤ offset then "end of text"
  else String.ofList (halveBackslashes (quotedChars (foundAt cs offset)))

end Quill.Text
