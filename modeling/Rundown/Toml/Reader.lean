import Rundown.Json.Reader
import Rundown.Toml.Scalar
import Rundown.Toml.Tables

/-!
# Reading a configuration file

The TOML format, version 1.0: lines with headers and keys, strings in four
notations, arrays that may span lines, and tables between braces that may not.
Any departure from the grammar refuses the whole file.
-/

namespace Rundown.Toml

/-- A blank within a line. -/
def isBlank (c : Char) : Bool :=
  c = ' ' || c = '\t'

/-- Skip blanks within a line. -/
def skipBlanks (cs : List Char) : List Char :=
  cs.dropWhile isBlank

/-- A character that may stand in comments and strings. -/
def isPlain (c : Char) : Bool :=
  c = '\t' || (32 ≤ c.toNat && c.toNat != 127)

/-- The end of a line, and what follows it. -/
def newLine? : List Char → Option (List Char)
  | '\n' :: rest => some rest
  | '\r' :: '\n' :: rest => some rest
  | _ => none

/-- Skip a comment up to the end of its line. -/
def skipComment (cs : List Char) : List Char :=
  match cs with
  | '#' :: rest => rest.dropWhile isPlain
  | _ => cs

/-- What follows the rest of a line that holds nothing more but a comment. -/
def endOfLine? (cs : List Char) : Option (List Char) :=
  match skipComment (skipBlanks cs) with
  | [] => some []
  | rest => newLine? rest

/-- Skip blanks, comments and ends of lines, of which there are at most `fuel`. -/
def skipLines : Nat → List Char → List Char
  | 0, cs => cs
  | fuel + 1, cs =>
      let rest := skipComment (skipBlanks cs)
      match newLine? rest with
      | some after => skipLines fuel after
      | none => rest

/-! ## Strings -/

/-- The character of a Unicode escape. -/
def ofHex? (cs : List Char) : Option Char := do
  let code ← Text.hexFrom 0 cs
  if code.isValidChar then some (Char.ofNat code) else none

/-- The character of an escape after its backslash, and what follows. -/
def escape? : List Char → Option (Char × List Char)
  | 'b' :: rest => some ('\x08', rest)
  | 't' :: rest => some ('\t', rest)
  | 'n' :: rest => some ('\n', rest)
  | 'f' :: rest => some ('\x0c', rest)
  | 'r' :: rest => some ('\r', rest)
  | '"' :: rest => some ('"', rest)
  | '\\' :: rest => some ('\\', rest)
  | 'u' :: rest =>
      if rest.length < 4 then none else (ofHex? (rest.take 4)).map (·, rest.drop 4)
  | 'U' :: rest =>
      if rest.length < 8 then none else (ofHex? (rest.take 8)).map (·, rest.drop 8)
  | _ => none

/-- The characters of a string on one line up to its closing quote. -/
def basic? : Nat → List Char → Option (List Char × List Char)
  | 0, _ => none
  | fuel + 1, cs =>
      match cs with
      | '"' :: rest => some ([], rest)
      | '\\' :: rest => do
          let (c, after) ← escape? rest
          let (more, after) ← basic? fuel after
          some (c :: more, after)
      | c :: rest =>
          if isPlain c then do
            let (more, after) ← basic? fuel rest
            some (c :: more, after)
          else none
      | [] => none

/-- The characters of a literal string on one line up to its closing quote. -/
def literal? (cs : List Char) : Option (List Char × List Char) :=
  let content := cs.takeWhile fun c => isPlain c && c != '\''
  match cs.drop content.length with
  | '\'' :: rest => some (content, rest)
  | _ => none

/-- The end of a text between triple quotes: up to two quotes belong to it. -/
def closing? (quote : Char) (cs : List Char) : Option (List Char × List Char) :=
  let run := cs.takeWhile (· == quote)
  if run.length < 3 then none
  else
    let kept := min (run.length - 3) 2
    some (List.replicate kept quote, cs.drop (kept + 3))

/-- Skip the blanks and line ends that a backslash at the end of a line takes
away. -/
def skipFolded (cs : List Char) : List Char :=
  cs.dropWhile fun c => isBlank c || c = '\n' || c = '\r'

/-- A backslash with nothing but blanks up to the end of its line. -/
def foldsLine (cs : List Char) : Bool :=
  (newLine? (skipBlanks cs)).isSome

/-- Every carriage return in a list stands before a line feed. -/
def returnsPaired : List Char → Bool
  | '\r' :: '\n' :: rest => returnsPaired rest
  | '\r' :: _ => false
  | _ :: rest => returnsPaired rest
  | [] => true

/-- The characters of a text between triple quotes, up to its end.  With
`escapes` a backslash starts an escape or joins lines. -/
def block? (quote : Char) (escapes : Bool) : Nat → List Char → Option (List Char × List Char)
  | 0, _ => none
  | fuel + 1, cs =>
      match closing? quote cs with
      | some found => some found
      | none =>
          match cs with
          | [] => none
          | c :: rest =>
              match newLine? cs with
              | some after => do
                  let (more, after) ← block? quote escapes fuel after
                  some ('\n' :: more, after)
              | none =>
                  if escapes && c = '\\' then
                    if foldsLine rest then
                      let after := skipFolded rest
                      if returnsPaired (rest.take (rest.length - after.length)) then
                        block? quote escapes fuel after
                      else none
                    else do
                      let (plain, after) ← escape? rest
                      let (more, after) ← block? quote escapes fuel after
                      some (plain :: more, after)
                  else if isPlain c then do
                    let (more, after) ← block? quote escapes fuel rest
                    some (c :: more, after)
                  else none

/-- A line end right after the opening quotes does not belong to the text. -/
def dropFirstLine (cs : List Char) : List Char :=
  (newLine? cs).getD cs

/-- A string of one line, as it may stand in a key. -/
def line? (fuel : Nat) : List Char → Option (String × List Char)
  | '"' :: rest => (basic? fuel rest).map fun (content, after) => (String.ofList content, after)
  | '\'' :: rest => (literal? rest).map fun (content, after) => (String.ofList content, after)
  | _ => none

/-- A string in any notation. -/
def string? (fuel : Nat) (cs : List Char) : Option (String × List Char) :=
  match cs with
  | '"' :: '"' :: '"' :: rest =>
      (block? '"' true fuel (dropFirstLine rest)).map fun (content, after) =>
        (String.ofList content, after)
  | '\'' :: '\'' :: '\'' :: rest =>
      (block? '\'' false fuel (dropFirstLine rest)).map fun (content, after) =>
        (String.ofList content, after)
  | _ => line? fuel cs

/-! ## Keys -/

/-- A character of a bare key. -/
def isBare (c : Char) : Bool :=
  Text.isDigit c || ('a' ≤ c && c ≤ 'z') || ('A' ≤ c && c ≤ 'Z') || c = '_' || c = '-'

/-- One part of a key. -/
def simpleKey? (fuel : Nat) (cs : List Char) : Option (String × List Char) :=
  match cs with
  | '"' :: _ => line? fuel cs
  | '\'' :: _ => line? fuel cs
  | _ =>
      let bare := cs.takeWhile isBare
      if bare.isEmpty then none else some (String.ofList bare, cs.drop bare.length)

/-- How many arrays and tables may stand inside one another, and how many parts a
key may have. -/
def greatestDepth : Nat := 79

/-- The parts of a key between dots, and what follows it. -/
def keyParts? : Nat → List Char → Option (List String × List Char)
  | 0, _ => none
  | fuel + 1, cs => do
      let (first, after) ← simpleKey? (fuel + 1) (skipBlanks cs)
      match skipBlanks after with
      | '.' :: rest => do
          let (more, after) ← keyParts? fuel rest
          some (first :: more, after)
      | rest => some ([first], rest)

/-- A key that is not too deep, and what follows it. -/
def key? (fuel : Nat) (cs : List Char) : Option (List String × List Char) :=
  (keyParts? fuel cs).filter fun found => found.1.length ≤ greatestDepth

/-! ## Values -/

/-- A character of an unquoted scalar. -/
def isScalarChar (c : Char) : Bool :=
  isBare c || c = '+' || c = '.' || c = ':'

/-- After a date, a blank and two digits with a colon go on with a time. -/
def timeFollows (token rest : List Char) : Bool :=
  date? token == some [] &&
    match rest with
    | ' ' :: h :: m :: ':' :: _ => Text.isDigit h && Text.isDigit m
    | _ => false

/-- The characters of an unquoted scalar. -/
def scalarToken (cs : List Char) : List Char :=
  let token := cs.takeWhile isScalarChar
  let rest := cs.drop token.length
  if timeFollows token rest then token ++ ' ' :: (rest.drop 1).takeWhile isScalarChar else token

mutual

/-- A value and what follows it.  Each step takes at least one character, so the
length of the text bounds `fuel`. -/
def value? (fuel depth : Nat) (cs : List Char) : Option (Json × List Char) :=
  match fuel with
  | 0 => none
  | fuel + 1 =>
      match cs with
      | '"' :: _ => (string? (fuel + 1) cs).map fun (s, after) => (.str s, after)
      | '\'' :: _ => (string? (fuel + 1) cs).map fun (s, after) => (.str s, after)
      | '[' :: rest =>
          match depth with
          | 0 => none
          | depth + 1 => do
              let (items, after) ← items? fuel depth rest
              some (.arr items, after)
      | '\x7b' :: rest =>
          match depth with
          | 0 => none
          | depth + 1 =>
              match skipBlanks rest with
              | '\x7d' :: after => some (.obj [], after)
              | entries => do
                  let (table, after) ← entries? fuel depth [] entries
                  some (.obj (entriesToJson table), after)
      | _ =>
          let token := scalarToken cs
          (scalar? token).map fun v => (v, cs.drop token.length)

/-- The elements of an array up to its closing bracket. -/
def items? (fuel depth : Nat) (cs : List Char) : Option (List Json × List Char) :=
  match fuel with
  | 0 => none
  | fuel + 1 =>
      match skipLines cs.length cs with
      | ']' :: after => some ([], after)
      | start => do
          let (first, after) ← value? fuel depth start
          match skipLines after.length after with
          | ',' :: rest => do
              let (more, after) ← items? fuel depth rest
              some (first :: more, after)
          | ']' :: after => some ([first], after)
          | _ => none

/-- The entries of a table between braces up to its closing brace, at least one,
added to those before. -/
def entries? (fuel depth : Nat) (before : Entries) (cs : List Char) :
    Option (Entries × List Char) :=
  match fuel with
  | 0 => none
  | fuel + 1 => do
      let (keys, after) ← key? (fuel + 1) cs
      match after with
      | '=' :: rest => do
          let (value, after) ← value? fuel depth (skipBlanks rest)
          let table ← assign keys value .opened before
          match skipBlanks after with
          | ',' :: rest => entries? fuel depth table rest
          | '\x7d' :: rest => some (table, rest)
          | _ => none
      | _ => none

end

/-! ## Files -/

/-- A file read so far: its tables, and the path of the one that is open. -/
structure Progress where
  root : Entries
  path : List String

/-- The brackets that close a header. -/
def afterHeader? : (brackets : Nat) → List Char → Option (List Char)
  | 0, cs => some cs
  | n + 1, ']' :: rest => afterHeader? n rest
  | _ + 1, _ => none

/-- Read one line that is not blank. -/
def readLine? (fuel : Nat) (progress : Progress) (cs : List Char) :
    Option (Progress × List Char) :=
  match cs with
  | '[' :: '[' :: rest => do
      let (keys, after) ← key? fuel rest
      let rest ← endOfLine? (← afterHeader? 2 after)
      some (⟨← openTables keys progress.root, keys⟩, rest)
  | '[' :: rest => do
      let (keys, after) ← key? fuel rest
      let rest ← endOfLine? (← afterHeader? 1 after)
      some (⟨← openTable keys progress.root, keys⟩, rest)
  | _ => do
      let (keys, after) ← key? fuel cs
      match after with
      | '=' :: rest => do
          let (value, after) ← value? fuel greatestDepth (skipBlanks rest)
          let rest ← endOfLine? after
          let root ← within false progress.path (assign keys value) .opened progress.root
          some (⟨root, progress.path⟩, rest)
      | _ => none

/-- Read lines up to the end of the file, of which there are at most `fuel`. -/
def readLines? : Nat → Progress → List Char → Option Entries
  | 0, _, _ => none
  | fuel + 1, progress, cs =>
      match skipLines cs.length cs with
      | [] => some progress.root
      | rest => do
          let (after, rest) ← readLine? (2 * rest.length + 2) progress rest
          readLines? fuel after rest

/-- The mark that may open a file in Unicode. -/
def dropMark (cs : List Char) : List Char :=
  match cs with
  | '\uFEFF' :: rest => rest
  | _ => cs

/-- The tables of a configuration file as one object. -/
def read? (s : String) : Option Json := do
  let cs := dropMark s.toList
  let root ← readLines? (cs.length + 1) ⟨[], []⟩ cs
  some (.obj (entriesToJson root))

end Rundown.Toml
