import Rundown.Text.Numeral

/-!
# Percent escapes

A percent sign with two hexadecimal digits stands for a byte, and any other
character for its own bytes.  A percent sign without the digits is a character
like the others, so nothing is refused here; whether the bytes make a text is
asked afterwards.
-/

namespace Rundown.Text

/-- The bytes of a character. -/
def bytesOf (c : Char) : List UInt8 :=
  (String.singleton c).toUTF8.toList

/-- The text that bytes make, if they make one. -/
def ofBytes? (bytes : List UInt8) : Option String :=
  String.fromUTF8? ⟨bytes.toArray⟩

/-- The bytes that a text with escapes stands for. -/
def percentBytes : List Char → List UInt8
  | '%' :: high :: low :: rest =>
      match hexValue? high, hexValue? low with
      | some h, some l => UInt8.ofNat (16 * h + l) :: percentBytes rest
      | _, _ => bytesOf '%' ++ percentBytes (high :: low :: rest)
  | c :: rest => bytesOf c ++ percentBytes rest
  | [] => []

end Rundown.Text
