import Rundown.Decimal.Reader
import Rundown.Json.Shape

/-!
# Reading JSON text

The strict grammar of the format: no blanks but space, tab, line feed and
carriage return, no control characters inside a string, no half of a surrogate
pair without the other, no number beyond the range of 64-bit floating point,
and at most 127 arrays and objects inside one another.  A whole number that
fits into 64 bits, signed or unsigned, stays whole; the numeral `-0` does not.

Where a record is expected, the members that it does not know are passed over.
They need to keep to the grammar, but not to the bounds on numbers, surrogates
and depth, since nothing is made of them.

A free value may be embedded as a text: an object whose first key is reserved for
that, and which holds nothing but a string under it, stands for the value that
the string denotes.  An embedded text keeps to the same grammar, with a depth of
its own, and may embed texts in its turn.
-/

namespace Rundown.Json

open Rundown.Text Rundown.Decimal

/-- A blank of the grammar. -/
def isSpace (c : Char) : Bool :=
  c = ' ' || c = '\t' || c = '\n' || c = '\r'

/-- Skip blanks. -/
def skipSpace (cs : List Char) : List Char :=
  cs.dropWhile isSpace

/-- The first half of a surrogate pair. -/
def isHighSurrogate (unit : Nat) : Bool :=
  0xD800 ≤ unit && unit ≤ 0xDBFF

/-- The second half of a surrogate pair. -/
def isLowSurrogate (unit : Nat) : Bool :=
  0xDC00 ≤ unit && unit ≤ 0xDFFF

/-- The character that a surrogate pair stands for. -/
def ofSurrogates (high low : Nat) : Char :=
  Char.ofNat (0x10000 + (high - 0xD800) * 0x400 + (low - 0xDC00))

/-- The character of a short escape. -/
def escaped? : Char → Option Char
  | '"' => some '"'
  | '\\' => some '\\'
  | '/' => some '/'
  | 'b' => some '\x08'
  | 'f' => some '\x0c'
  | 'n' => some '\n'
  | 'r' => some '\r'
  | 't' => some '\t'
  | _ => none

/-- The characters of a string up to its closing quote, and what follows. -/
def readChars : List Char → Option (List Char × List Char)
  | [] => none
  | '"' :: rest => some ([], rest)
  | '\\' :: 'u' :: a :: b :: c :: d :: '\\' :: 'u' :: e :: f :: g :: h :: rest => do
      let first ← hexFrom 0 [a, b, c, d]
      if isHighSurrogate first then
        let second ← hexFrom 0 [e, f, g, h]
        if isLowSurrogate second then
          let (more, after) ← readChars rest
          some (ofSurrogates first second :: more, after)
        else none
      else if isLowSurrogate first then none
      else
        let (more, after) ← readChars ('\\' :: 'u' :: e :: f :: g :: h :: rest)
        some (Char.ofNat first :: more, after)
  | '\\' :: 'u' :: a :: b :: c :: d :: rest => do
      let first ← hexFrom 0 [a, b, c, d]
      if isHighSurrogate first || isLowSurrogate first then none
      else
        let (more, after) ← readChars rest
        some (Char.ofNat first :: more, after)
  | '\\' :: c :: rest => do
      let plain ← escaped? c
      let (more, after) ← readChars rest
      some (plain :: more, after)
  | c :: rest =>
      if c.toNat < 32 then none
      else do
        let (more, after) ← readChars rest
        some (c :: more, after)

/-- The unsigned and signed 64-bit numbers, beyond which a numeral is not kept
whole. -/
def wholeRange : Int × Int := (-9223372036854775808, 18446744073709551615)

/-- The value of a number without a fraction and an exponent. -/
def ofNumeral (negative : Bool) (digits : List Char) : Option Json :=
  let magnitude := digitsValue digits
  let n : Int := if negative then -(magnitude : Int) else magnitude
  if wholeRange.1 ≤ n && n ≤ wholeRange.2 && !(negative && magnitude == 0) then some (.int n)
  else
    let x := withSign negative (ofPower magnitude 0)
    if x.isFinite then some (.real x) else none

/-- The sign and the parts of a number of the grammar, and what follows it: no
needless zero stands in front, and digits stand after each point and exponent
mark. -/
def scanNumber? (cs : List Char) : Option ((Bool × Parts) × List Char) :=
  let (negative, unsigned) :=
    match cs with
    | '-' :: rest => (true, rest)
    | _ => (false, cs)
  let (parts, after) := scan unsigned
  if parts.whole.isEmpty || (parts.whole.head? == some '0' && 1 < parts.whole.length) then none
  else if parts.fraction == some [] || !parts.exponentComplete then none
  else some ((negative, parts), after)

/-- A number and what follows it. -/
def readNumber (cs : List Char) : Option (Json × List Char) := do
  let ((negative, parts), after) ← scanNumber? cs
  if parts.fraction.isNone && parts.exponent.isNone then
    let value ← ofNumeral negative parts.whole
    some (value, after)
  else
    let x := withSign negative parts.toFloat
    if x.isFinite then some (.real x, after) else none

/-- Drop a word that the text starts with. -/
def dropWord? (word : List Char) (cs : List Char) : Option (List Char) :=
  if word.isPrefixOf cs then some (cs.drop word.length) else none

/-! ## Passing over values -/

/-- Skip the characters of a string up to its closing quote.  Half of a surrogate
pair may stand alone. -/
def skipChars : List Char → Option (List Char)
  | [] => none
  | '"' :: rest => some rest
  | '\\' :: 'u' :: a :: b :: c :: d :: rest => do
      let _ ← hexFrom 0 [a, b, c, d]
      skipChars rest
  | '\\' :: c :: rest => do
      let _ ← escaped? c
      skipChars rest
  | c :: rest => if c.toNat < 32 then none else skipChars rest

mutual

/-- Skip a value.  Only its grammar is looked at: neither the size of numbers nor
the depth of arrays and objects is bounded.  Each step takes at least one
character, so the length of the text bounds `fuel`. -/
def skipValue (fuel : Nat) (cs : List Char) : Option (List Char) :=
  match fuel with
  | 0 => none
  | fuel + 1 =>
      match skipSpace cs with
      | '"' :: rest => skipChars rest
      | '[' :: rest =>
          match skipSpace rest with
          | ']' :: after => some after
          | items => skipItems fuel items
      | '\x7b' :: rest =>
          match skipSpace rest with
          | '\x7d' :: after => some after
          | members => skipMembers fuel members
      | 'n' :: rest => dropWord? ['u', 'l', 'l'] rest
      | 't' :: rest => dropWord? ['r', 'u', 'e'] rest
      | 'f' :: rest => dropWord? ['a', 'l', 's', 'e'] rest
      | other => (scanNumber? other).map (·.2)

/-- Skip the elements of an array up to its closing bracket, at least one. -/
def skipItems (fuel : Nat) (cs : List Char) : Option (List Char) :=
  match fuel with
  | 0 => none
  | fuel + 1 => do
      let after ← skipValue fuel cs
      match skipSpace after with
      | ',' :: rest => skipItems fuel rest
      | ']' :: rest => some rest
      | _ => none

/-- Skip the members of an object up to its closing brace, at least one. -/
def skipMembers (fuel : Nat) (cs : List Char) : Option (List Char) :=
  match fuel with
  | 0 => none
  | fuel + 1 =>
      match skipSpace cs with
      | '"' :: rest => do
          let after ← skipChars rest
          match skipSpace after with
          | ':' :: rest => do
              let after ← skipValue fuel rest
              match skipSpace after with
              | ',' :: rest => skipMembers fuel rest
              | '\x7d' :: rest => some rest
              | _ => none
          | _ => none
      | _ => none

end

/-! ## Embedded texts -/

/-- The key under which an object holds an embedded text. -/
def embeddingKey : String := "$serde_json::private::RawValue"

/-- Drop a key and its colon from the members of an object, if they start with
that key. -/
def dropKey? (key : String) : List Char → Option (List Char)
  | '"' :: rest => do
      let (name, after) ← readChars rest
      if String.ofList name = key then
        match skipSpace after with
        | ':' :: rest => some rest
        | _ => none
      else none
  | _ => none

/-- The string that ends an object, and what follows the object. -/
def readLastString (cs : List Char) : Option (List Char × List Char) :=
  match skipSpace cs with
  | '"' :: rest => do
      let (content, after) ← readChars rest
      match skipSpace after with
      | '\x7d' :: rest => some (content, rest)
      | _ => none
  | _ => none

/-! ## Reading values -/

/-- How many arrays and objects may stand inside one another. -/
def greatestDepth : Nat := 127

mutual

/-- A value and what follows it.  Each step takes at least one character, so the
length of the text bounds `fuel`; `depth` is how many more arrays and objects
may be opened. -/
def readValue (fuel depth : Nat) (shape : Shape) (cs : List Char) :
    Option (Json × List Char) :=
  match fuel with
  | 0 => none
  | fuel + 1 =>
      match skipSpace cs with
      | '"' :: rest => do
          let (content, after) ← readChars rest
          some (.str (String.ofList content), after)
      | '[' :: rest =>
          match depth with
          | 0 => none
          | depth + 1 =>
              match skipSpace rest with
              | ']' :: after => some (.arr [], after)
              | items => do
                  let (values, after) ← readItems fuel depth shape items
                  some (.arr values, after)
      | '\x7b' :: rest =>
          match depth with
          | 0 => none
          | depth + 1 =>
              match skipSpace rest with
              | '\x7d' :: after => some (.obj [], after)
              | members =>
                  match shape, dropKey? embeddingKey members with
                  | .free, some embedded => readEmbedded fuel embedded
                  | _, _ => do
                      let (values, after) ← readMembers fuel depth shape members
                      some (.obj values, after)
      | 'n' :: rest => (dropWord? ['u', 'l', 'l'] rest).map (Json.null, ·)
      | 't' :: rest => (dropWord? ['r', 'u', 'e'] rest).map (Json.bool true, ·)
      | 'f' :: rest => (dropWord? ['a', 'l', 's', 'e'] rest).map (Json.bool false, ·)
      | other => readNumber other

/-- The elements of an array up to its closing bracket, at least one. -/
def readItems (fuel depth : Nat) (shape : Shape) (cs : List Char) :
    Option (List Json × List Char) :=
  match fuel with
  | 0 => none
  | fuel + 1 => do
      let (first, after) ← readValue fuel depth shape.element cs
      match skipSpace after with
      | ',' :: rest => do
          let (more, after) ← readItems fuel depth shape.afterElement rest
          some (first :: more, after)
      | ']' :: rest => some ([first], rest)
      | _ => none

/-- The value of an embedded text, given the rest of the object that holds it, and
what follows the object.  The text is shorter than its quotation, so what bounds
the reading of one bounds that of the other. -/
def readEmbedded (fuel : Nat) (cs : List Char) : Option (Json × List Char) :=
  match fuel with
  | 0 => none
  | fuel + 1 => do
      let (content, after) ← readLastString cs
      let (value, left) ← readValue fuel greatestDepth .free content
      if (skipSpace left).isEmpty then some (value, after) else none

/-- The known members of an object up to its closing brace, at least one of any. -/
def readMembers (fuel depth : Nat) (shape : Shape) (cs : List Char) :
    Option (Members × List Char) :=
  match fuel with
  | 0 => none
  | fuel + 1 =>
      match skipSpace cs with
      | '"' :: rest => do
          let (name, after) ← readChars rest
          let key := String.ofList name
          match skipSpace after with
          | ':' :: rest => do
              let (found, after) ←
                match shape.member? key with
                | some inner => do
                    let (value, after) ← readValue fuel depth inner rest
                    some ([(key, value)], after)
                | none => (skipValue fuel rest).map (([] : Members), ·)
              match skipSpace after with
              | ',' :: rest => do
                  let (more, after) ← readMembers fuel depth shape rest
                  some (found ++ more, after)
              | '\x7d' :: rest => some (found, rest)
              | _ => none
          | _ => none
      | _ => none

end

/-- The value of some shape that a text denotes, with the known members of its
objects as written. -/
def readAs? (shape : Shape) (s : String) : Option Json := do
  let cs := s.toList
  let (value, after) ← readValue (2 * cs.length + 2) greatestDepth shape cs
  if (skipSpace after).isEmpty then some value else none

/-- The free value that a text denotes, with the last member of each key. -/
def read? (s : String) : Option Json :=
  (readAs? .free s).map settle

end Rundown.Json
