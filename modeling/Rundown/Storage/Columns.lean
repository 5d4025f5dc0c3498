import Rundown.Text.Blank

/-!
# Columns of a table

The columns of a table are found in the statement that made it: each definition
between its outer brackets starts with the name of a column, unless it starts
with a word for a constraint of the whole table.
-/

namespace Rundown.Storage

/-- The character that ends a quoted name or text, given the one that starts it. -/
def closing? (c : Char) : Option Char :=
  if c = '[' then some ']'
  else if c = '"' || c = '\'' || c.toNat = 0x60 then some c
  else none

/-- Where a reader of a statement stands. -/
inductive Reading where
  /-- Within so many brackets. -/
  | plain (depth : Nat)
  /-- Within a quoted name or text that ends with a character. -/
  | quoted (stop : Char) (depth : Nat)
  /-- Within a comment that ends with the line. -/
  | lineComment (depth : Nat)
  /-- Within a comment between marks. -/
  | comment (depth : Nat)

/-- The texts of the definitions between the outer brackets, without comments;
`current` holds the reversed text of the one that is being read. -/
def definitionsFrom : Reading → List Char → List Char → List (List Char)
  | _, current, [] => [current.reverse]
  | .lineComment depth, current, c :: rest =>
      definitionsFrom (if c = '\n' then .plain depth else .lineComment depth) current rest
  | .comment depth, current, '*' :: '/' :: rest => definitionsFrom (.plain depth) current rest
  | .comment depth, current, _ :: rest => definitionsFrom (.comment depth) current rest
  | .quoted stop depth, current, c :: rest =>
      definitionsFrom (if c = stop then .plain depth else .quoted stop depth) (c :: current) rest
  | .plain depth, current, '-' :: '-' :: rest => definitionsFrom (.lineComment depth) current rest
  | .plain depth, current, '/' :: '*' :: rest => definitionsFrom (.comment depth) current rest
  | .plain depth, current, c :: rest =>
      if c = '(' then
        definitionsFrom (.plain (depth + 1)) (if depth = 0 then [] else c :: current) rest
      else if c = ')' then
        if depth = 1 then [current.reverse]
        else definitionsFrom (.plain (depth - 1)) (c :: current) rest
      else if c = ',' && depth = 1 then
        current.reverse :: definitionsFrom (.plain depth) [] rest
      else
        match closing? c with
        | some stop => definitionsFrom (.quoted stop depth) (c :: current) rest
        | none => definitionsFrom (.plain depth) (c :: current) rest

/-- The characters of a name without quotes. -/
def isNameChar (c : Char) : Bool :=
  c.isAlphanum || c = '_' || c = '$' || 128 ≤ c.toNat

/-- The words that start a constraint of a whole table. -/
def constraintWords : List String := ["constraint", "primary", "unique", "check", "foreign"]

/-- The name of the column that a definition defines, in lower case. -/
def columnName? (definition : List Char) : Option String :=
  match definition.dropWhile Text.isBlank with
  | [] => none
  | c :: rest =>
      match closing? c with
      | some stop => some (String.ofList ((rest.takeWhile (· != stop)).map Char.toLower))
      | none =>
          let name := String.ofList (((c :: rest).takeWhile isNameChar).map Char.toLower)
          if name.isEmpty || constraintWords.contains name then none else some name

/-- The names of the columns of the table that a statement makes, in lower case. -/
def columns (statement : String) : List String :=
  (definitionsFrom (.plain 0) [] statement.toList).filterMap columnName?

end Rundown.Storage
