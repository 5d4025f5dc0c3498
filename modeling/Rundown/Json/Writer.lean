import Rundown.Json.Basic
import Rundown.Decimal.Shortest

/-!
# Writing JSON text

A value is written over several lines, each level indented by two spaces.  Empty
arrays and objects stay on one line.
-/

namespace Rundown.Json

open Rundown.Text

/-- A hexadecimal digit. -/
def hexChar (n : Nat) : Char :=
  if n < 10 then Char.ofNat (48 + n) else Char.ofNat (87 + n)

/-- A character as it stands in a string. -/
def charText (c : Char) : List Char :=
  if c = '"' then ['\\', '"']
  else if c = '\\' then ['\\', '\\']
  else if c = '\x08' then ['\\', 'b']
  else if c = '\x0c' then ['\\', 'f']
  else if c = '\n' then ['\\', 'n']
  else if c = '\r' then ['\\', 'r']
  else if c = '\t' then ['\\', 't']
  else if c.toNat < 32 then
    ['\\', 'u', '0', '0', hexChar (c.toNat / 16), hexChar (c.toNat % 16)]
  else [c]

/-- A string between quotes. -/
def quoted (s : String) : List Char :=
  '"' :: s.toList.flatMap charText ++ ['"']

/-- A number, or null when it is not finite. -/
def realText (x : Float) : List Char :=
  if x.isFinite then (Decimal.text x).toList else "null".toList

/-- A new line at a level. -/
def newLine (level : Nat) : List Char :=
  '\n' :: List.replicate (2 * level) ' '

mutual

/-- A value at a level of indentation. -/
def render (level : Nat) : Json → List Char
  | .null => "null".toList
  | .bool true => "true".toList
  | .bool false => "false".toList
  | .int n => (intText n).toList
  | .real x => realText x
  | .str s => quoted s
  | .arr [] => "[]".toList
  | .arr (first :: rest) =>
      '[' :: newLine (level + 1) ++ render (level + 1) first ++ renderItems (level + 1) rest ++
        newLine level ++ [']']
  | .obj [] => ['\x7b', '\x7d']
  | .obj ((key, value) :: rest) =>
      '\x7b' :: newLine (level + 1) ++ quoted key ++ ':' :: ' ' :: render (level + 1) value ++
        renderMembers (level + 1) rest ++ newLine level ++ ['\x7d']

/-- The further elements of an array. -/
def renderItems (level : Nat) : List Json → List Char
  | [] => []
  | item :: rest => ',' :: newLine level ++ render level item ++ renderItems level rest

/-- The further members of an object. -/
def renderMembers (level : Nat) : Members → List Char
  | [] => []
  | (key, value) :: rest =>
      ',' :: newLine level ++ quoted key ++ ':' :: ' ' :: render level value ++
        renderMembers level rest

end

/-- The text of a value. -/
def pretty (value : Json) : String :=
  String.ofList (render 0 value)

end Rundown.Json
