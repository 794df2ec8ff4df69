/-! # Text of arbitrary bytes

Bytes that need not be UTF-8 are shown with one replacement character for each maximal part
that starts a character without completing it, and for each byte that starts none.
-/

namespace Accumulator.Text

set_option autoImplicit false

/-- What a lead byte announces: the number of continuation bytes and the range of the first. -/
structure Lead where
  tails : Nat
  low : UInt8
  high : UInt8
  deriving DecidableEq

def lead? (byte : UInt8) : Option Lead :=
  if byte < 0x80 then some ⟨0, 0x80, 0xBF⟩
  else if 0xC2 ≤ byte ∧ byte ≤ 0xDF then some ⟨1, 0x80, 0xBF⟩
  else if byte = 0xE0 then some ⟨2, 0xA0, 0xBF⟩
  else if byte = 0xED then some ⟨2, 0x80, 0x9F⟩
  else if 0xE1 ≤ byte ∧ byte ≤ 0xEF then some ⟨2, 0x80, 0xBF⟩
  else if byte = 0xF0 then some ⟨3, 0x90, 0xBF⟩
  else if byte = 0xF4 then some ⟨3, 0x80, 0x8F⟩
  else if 0xF1 ≤ byte ∧ byte ≤ 0xF3 then some ⟨3, 0x80, 0xBF⟩
  else none

/-- The length of the longest run at the front that continues a character as announced. -/
def tailLength (tails : Nat) (low high : UInt8) : List UInt8 → Nat
  | [] => 0
  | byte :: rest =>
    match tails with
    | 0 => 0
    | tails + 1 =>
      if low ≤ byte ∧ byte ≤ high then tailLength tails 0x80 0xBF rest + 1 else 0

/-- Cuts bytes into characters and maximal invalid parts; `fuel` bounds the number of bytes. -/
def cutCharacters (fuel : Nat) (bytes : List UInt8) : List (List UInt8) :=
  match fuel, bytes with
  | 0, _ => []
  | _, [] => []
  | fuel + 1, byte :: rest =>
    let length := (lead? byte).elim 0 fun lead => tailLength lead.tails lead.low lead.high rest
    (byte :: rest.take length) :: cutCharacters fuel (rest.drop length)

/-- The text of bytes, with U+FFFD for each maximal part that is not UTF-8. -/
def lossy (bytes : ByteArray) : String :=
  match String.fromUTF8? bytes with
  | some text => text
  | none =>
    String.join <| (cutCharacters bytes.size bytes.toList).map fun part =>
      (String.fromUTF8? part.toByteArray).getD "\uFFFD"

end Accumulator.Text
