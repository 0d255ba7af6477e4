/-!
# UTF-8

A text in UTF-8 is decoded character by character: the first byte tells how many continuation bytes
follow and bounds the next of them. Decoding stops at the first byte that fits no character.

## Main definitions

* `Utf8.Fault` — where and why decoding stopped, with `Utf8.Fault.message`.
* `Utf8.decode? bytes` — the characters of a text.
* `foldLineEnds cs` — every line end as a line feed.
-/

namespace Quill.Text

namespace Utf8

/-- Why bytes are no text. -/
inductive Reason where
  | invalidStart
  | invalidContinuation
  | endOfData
deriving DecidableEq

/-- The bytes that do not make a character: the first of them, its position, and their number. -/
structure Fault where
  reason : Reason
  byte : UInt8
  position : Nat
  length : Nat
deriving DecidableEq

/-- The wording of a reason. -/
def Reason.text : Reason → String
  | invalidStart => "invalid start byte"
  | invalidContinuation => "invalid continuation byte"
  | endOfData => "unexpected end of data"

/-- A byte in two hexadecimal digits. -/
def byteText (byte : UInt8) : String :=
  let digit (n : Nat) : Char := Nat.digitChar n
  String.ofList ['0', 'x', digit (byte.toNat / 16), digit (byte.toNat % 16)]

/-- The wording of a fault. -/
def Fault.message (f : Fault) : String :=
  let place :=
    if f.length = 1 then s!"byte {byteText f.byte} in position {f.position}"
    else s!"bytes in position {f.position}-{f.position + f.length - 1}"
  s!"'utf-8' codec can't decode {place}: {f.reason.text}"

/-- What the first byte of a character says: how many bytes follow, the bounds of the next one, and
the leading bits of the character. -/
structure Lead where
  owed : Nat
  least : Nat
  greatest : Nat
  bits : Nat

/-- The meaning of the first byte of a character. -/
def lead? (byte : Nat) : Option Lead :=
  if byte < 0x80 then some ⟨0, 0x80, 0xBF, byte⟩
  else if byte < 0xC2 then none
  else if byte < 0xE0 then some ⟨1, 0x80, 0xBF, byte % 0x20⟩
  else if byte < 0xF0 then
    some ⟨2, if byte = 0xE0 then 0xA0 else 0x80, if byte = 0xED then 0x9F else 0xBF, byte % 0x10⟩
  else if byte < 0xF5 then
    some ⟨3, if byte = 0xF0 then 0x90 else 0x80, if byte = 0xF4 then 0x8F else 0xBF, byte % 0x08⟩
  else none

/-- Reads the continuation bytes that are owed. A fault comes with the number of bytes that fit. -/
def continue? (owed least greatest bits : Nat) (fitting : Nat) :
    List UInt8 → Except (Reason × Nat) (Nat × List UInt8)
  | [] => if owed = 0 then .ok (bits, []) else .error (.endOfData, fitting)
  | byte :: bytes =>
    match owed with
    | 0 => .ok (bits, byte :: bytes)
    | owed + 1 =>
      if least ≤ byte.toNat ∧ byte.toNat ≤ greatest then
        continue? owed 0x80 0xBF (bits * 0x40 + byte.toNat % 0x40) (fitting + 1) bytes
      else .error (.invalidContinuation, fitting)

/-- Decodes at most `n` characters from a position on. -/
def decodeFrom : Nat → Nat → List UInt8 → Except Fault (List Char)
  | 0, _, _ => .ok []
  | _ + 1, _, [] => .ok []
  | n + 1, position, byte :: bytes =>
    match lead? byte.toNat with
    | none => .error ⟨.invalidStart, byte, position, 1⟩
    | some lead =>
      match continue? lead.owed lead.least lead.greatest lead.bits 1 bytes with
      | .error (reason, fitting) => .error ⟨reason, byte, position, fitting⟩
      | .ok (code, rest) => do
        let cs ← decodeFrom n (position + 1 + lead.owed) rest
        return Char.ofNat code :: cs

/-- The characters of a text. -/
def decode? (bytes : List UInt8) : Except Fault (List Char) :=
  decodeFrom bytes.length 0 bytes

end Utf8

/-- Turns the line ends CR LF and CR into line feeds. -/
def foldLineEnds : List Char → List Char
  | '\r' :: '\n' :: cs => '\n' :: foldLineEnds cs
  | '\r' :: cs => '\n' :: foldLineEnds cs
  | c :: cs => c :: foldLineEnds cs
  | [] => []

end Quill.Text
