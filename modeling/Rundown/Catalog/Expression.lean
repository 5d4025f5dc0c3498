import Rundown.Catalog.Database

/-!
# Expressions over stored texts

A query to a database compares stored texts by means of expressions: a column, a
text in quotes, or a function of other expressions.  Expressions are written as
text, and the database reads them: a quote within a quoted text is written twice,
and names of functions may be in any mixture of cases.

The functions are those of the database alone.  `TRIM` takes away spaces only,
`LOWER` changes the letters A to Z only, and `REPLACE` puts a text in the place of
every occurrence of another one.  Only these three are read, each in its plain
form.
-/

namespace Rundown

/-- A function of one text. -/
inductive TextFunction where
  | trim
  | lower
  deriving DecidableEq, Inhabited

namespace TextFunction

/-- The name of a function, in capitals. -/
def name : TextFunction → List Char
  | trim => ['T', 'R', 'I', 'M']
  | lower => ['L', 'O', 'W', 'E', 'R']

/-- The value of a function. -/
def apply : TextFunction → List Char → List Char
  | trim, cs => Text.dropEnds (· == ' ') cs
  | lower, cs => cs.map Char.toLower

end TextFunction

/-- An expression over the text columns of a row. -/
inductive Expression where
  | column (name : List Char)
  | text (content : List Char)
  | apply (f : TextFunction) (argument : Expression)
  | replace (inner sought put : Expression)
  deriving DecidableEq, Inhabited

namespace Expression

/-! ## Words, quoted texts and marks -/

/-- A token of an expression as it is written. -/
inductive Token where
  | word (name : List Char)
  | text (content : List Char)
  | opening
  | closing
  | comma
  deriving DecidableEq, Inhabited

/-- What has been read of a token that may go on, the latest character first. -/
inductive Pending where
  | idle
  | word (taken : List Char)
  | text (taken : List Char)
  /-- A quote has been read, which ends the text unless another one follows. -/
  | quote (taken : List Char)
  deriving DecidableEq, Inhabited

/-- A character that a word may start with. -/
def startsWord (c : Char) : Bool :=
  c.isAlpha || c == '_' || 128 ≤ c.toNat

/-- A character within a word. -/
def isWordChar (c : Char) : Bool :=
  startsWord c || c.isDigit

/-- The token of a character on its own, or the start of one, after all others are
read. -/
def start? (c : Char) : Option (List Token × Pending) :=
  if c = ' ' then some ([], .idle)
  else if c = '\'' then some ([], .text [])
  else if c = '(' then some ([.opening], .idle)
  else if c = ')' then some ([.closing], .idle)
  else if c = ',' then some ([.comma], .idle)
  else if startsWord c then some ([], .word [c])
  else none

/-- The tokens that a character completes, and what is pending after it. -/
def take? (c : Char) : Pending → Option (List Token × Pending)
  | .idle => start? c
  | .word taken =>
      if isWordChar c then some ([], .word (c :: taken))
      else (start? c).map fun (tokens, next) => (.word taken.reverse :: tokens, next)
  | .text taken =>
      if c = '\'' then some ([], .quote taken) else some ([], .text (c :: taken))
  | .quote taken =>
      if c = '\'' then some ([], .text (c :: taken))
      else (start? c).map fun (tokens, next) => (.text taken.reverse :: tokens, next)

/-- The tokens of what is pending at the end; a text must be closed. -/
def last? : Pending → Option (List Token)
  | .idle => some []
  | .word taken => some [.word taken.reverse]
  | .text _ => none
  | .quote taken => some [.text taken.reverse]

/-- The tokens of a text, with what is pending before it. -/
def tokens? (pending : Pending) : List Char → Option (List Token)
  | [] => last? pending
  | c :: rest =>
      (take? c pending).bind fun (found, next) => (tokens? next rest).map (found ++ ·)

/-! ## Reading -/

/-- A function whose brackets are open, with the arguments that are complete. -/
inductive Frame where
  | argument (f : TextFunction)
  | replaceInner
  | replaceSought (inner : Expression)
  | replacePut (inner sought : Expression)
  deriving DecidableEq, Inhabited

/-- Where a reading stands: an expression is due, a word has been read that may be
a column or a function, or an expression is complete; the open functions from the
inside out. -/
inductive Reading where
  | due (frames : List Frame)
  | named (name : List Char) (frames : List Frame)
  | complete (e : Expression) (frames : List Frame)
  deriving DecidableEq, Inhabited

/-- The name of the function of three texts, in capitals. -/
def replaceName : List Char :=
  ['R', 'E', 'P', 'L', 'A', 'C', 'E']

/-- The function of a name, with its bracket open. -/
def function? (name : List Char) : Option Frame :=
  let capitals := name.map Char.toUpper
  if capitals = replaceName then some .replaceInner
  else ([.trim, .lower].find? fun f : TextFunction => f.name == capitals).map .argument

/-- A mark after a complete expression. -/
def proceed? (e : Expression) : List Frame → Token → Option Reading
  | .argument f :: frames, .closing => some (.complete (.apply f e) frames)
  | .replaceInner :: frames, .comma => some (.due (.replaceSought e :: frames))
  | .replaceSought inner :: frames, .comma => some (.due (.replacePut inner e :: frames))
  | .replacePut inner sought :: frames, .closing =>
      some (.complete (.replace inner sought e) frames)
  | _, _ => none

/-- One more token. -/
def next? : Reading → Token → Option Reading
  | .due frames, .word name => some (.named name frames)
  | .due frames, .text content => some (.complete (.text content) frames)
  | .due _, _ => none
  | .named name frames, .opening => (function? name).map fun frame => .due (frame :: frames)
  | .named name frames, token => proceed? (.column name) frames token
  | .complete e frames, token => proceed? e frames token

/-- The expression of a finished reading. -/
def result? : Reading → Option Expression
  | .named name [] => some (.column name)
  | .complete e [] => some e
  | _ => none

/-- The expression that a text stands for. -/
def read? (cs : List Char) : Option Expression := do
  let tokens ← tokens? .idle cs
  let reading ← tokens.foldlM next? (.due [])
  result? reading

/-! ## Values -/

/-- `put` in the place of the occurrences of `sought`, from left to right, after as
many characters as are still part of the last one. -/
def replaceFrom (sought put : List Char) : Nat → List Char → List Char
  | _, [] => []
  | taken + 1, _ :: rest => replaceFrom sought put taken rest
  | 0, c :: rest =>
      if sought.isPrefixOf (c :: rest) then
        put ++ replaceFrom sought put (sought.length - 1) rest
      else c :: replaceFrom sought put 0 rest

/-- `put` in the place of every occurrence of `sought`, of which the empty text has
none. -/
def replaceAll (sought put cs : List Char) : List Char :=
  if sought.isEmpty then cs else replaceFrom sought put 0 cs

/-- The value of an expression, given the texts of the columns. -/
def value? (columns : List Char → Option (List Char)) : Expression → Option (List Char)
  | .column name => columns name
  | .text content => some content
  | .apply f argument => (argument.value? columns).map f.apply
  | .replace inner sought put => do
      let cs ← inner.value? columns
      let sought ← sought.value? columns
      let put ← put.value? columns
      return replaceAll sought put cs

/-- The text of a column in a row; the columns of attributes are compared. -/
def columnText? (row : MediaRow) (name : List Char) : Option (List Char) :=
  (Attribute.all.find? fun a => a.name.toList == name.map Char.toLower).map fun a =>
    (Database.attributeText row a).toList

/-- The value of an expression in a row, if the text stands for one. -/
def evaluate? (row : MediaRow) (expression : String) : Option String := do
  let e ← read? expression.toList
  let value ← e.value? (columnText? row)
  return String.ofList value

end Expression

/-! ## The expressions of a query -/

namespace Database

/-- The expression by which texts are compared without regard to case. -/
def foldedColumn (column : String) : String :=
  "LOWER(TRIM(" ++ column ++ "))"

/-- The expression without a punctuation mark in its value; the quote is doubled. -/
def withoutMark (expression : String) (mark : Char) : String :=
  "REPLACE(" ++ expression ++ ", '" ++ (if mark = '\'' then "''" else String.singleton mark) ++
    "', '')"

/-- The expression by which texts are compared without regard to case and
punctuation. -/
def normalizedColumn (column : String) : String :=
  Text.matchPunctuation.foldl withoutMark (foldedColumn column)

end Database

end Rundown
