import Quill.Text.Blank

/-!
# What a message expected

A message that says `Expected THIS, found THAT  (at …)` names what was expected between its first
word and the comma, the parenthesis, or the end of the message, whichever comes first.

## Main definitions

* `expectedIn? cs` — what a message expected.
* `expectedTexts message` — the same as a list that is never empty.
-/

namespace Quill.Report

open Text

/-- Does what was expected end here: at the end of the message, before `, found`, or before a
parenthesis behind blanks? -/
def endsExpected (cs : List Char) : Bool :=
  match cs with
  | [] => true
  | ['\n'] => true
  | c :: rest =>
    let behindBlanks := rest.dropWhile isBlank
    if c = ',' then rest.head?.any isBlank && "found".toList.isPrefixOf behindBlanks
    else isBlank c && behindBlanks.head? = some '('

/-- The shortest nonempty text on one line up to such an end. -/
def takeExpected? : List Char → Option (List Char)
  | [] => none
  | c :: cs =>
    if c = '\n' then none
    else if endsExpected cs then some [c]
    else (takeExpected? cs).map (c :: ·)

/-- What was expected, behind the word and at least one blank. As many blanks as possible are left
out, up to `n + 1` of them. -/
def behindBlanks? : Nat → List Char → Option (List Char)
  | 0, _ => none
  | n + 1, cs => (takeExpected? (cs.drop (n + 1))).or (behindBlanks? n cs)

/-- What a message expected, from the first place where it says so in full. -/
def expectedIn? : List Char → Option (List Char)
  | [] => none
  | c :: cs =>
    let word := "Expected".toList
    let here :=
      if word.isPrefixOf (c :: cs) then
        let rest := (c :: cs).drop word.length
        behindBlanks? (rest.takeWhile isBlank).length rest
      else none
    here.or (expectedIn? cs)

/-- What a message expected; one that does not say so expected valid text. -/
def expectedTexts (message : String) : List String :=
  match expectedIn? message.toList with
  | some expected => [String.ofList expected]
  | none => ["valid syntax"]

end Quill.Report
