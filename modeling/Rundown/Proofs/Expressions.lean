import Rundown.Catalog.Expression
import Rundown.Proofs.PrintableText

/-!
# Reading an expression back

Every expression whose columns are words is read back from its own text: the
scanner returns to rest at each mark, and the reader keeps the functions that are
open.  The expressions of a query are texts of such expressions, one function for
each punctuation mark around the trimmed and lowered column, so their values are
the keys that a database computes for its stored texts.

Texts that no expression is printed as, those with other functions or with other
spaces, are not described.
-/

namespace Rundown

namespace Expression

/-! ## The text of an expression -/

/-- A quote within a text is written twice. -/
def escaped (content : List Char) : List Char :=
  content.flatMap fun c => if c = '\'' then ['\'', '\''] else [c]

/-- The text of an expression. -/
def print : Expression → List Char
  | .column name => name
  | .text content => '\'' :: escaped content ++ ['\'']
  | .apply f argument => f.name ++ '(' :: argument.print ++ [')']
  | .replace inner sought put =>
      replaceName ++ '(' :: inner.print ++ ',' :: ' ' :: sought.print ++ ',' :: ' ' ::
        put.print ++ [')']

/-- The tokens of an expression. -/
def tokens : Expression → List Token
  | .column name => [.word name]
  | .text content => [.text content]
  | .apply f argument => .word f.name :: .opening :: argument.tokens ++ [.closing]
  | .replace inner sought put =>
      .word replaceName :: .opening :: inner.tokens ++ .comma :: sought.tokens ++
        .comma :: put.tokens ++ [.closing]

/-- A name that is read as one word. -/
def IsWord (name : List Char) : Prop :=
  ∃ c rest, name = c :: rest ∧ startsWord c = true ∧ rest.all isWordChar = true

/-- The columns of an expression are words. -/
def WellNamed : Expression → Prop
  | .column name => IsWord name
  | .text _ => True
  | .apply _ argument => argument.WellNamed
  | .replace inner sought put => inner.WellNamed ∧ sought.WellNamed ∧ put.WellNamed

/-! ## Scanning -/

theorem tokens?_cons (pending : Pending) (c : Char) (rest : List Char) :
    tokens? pending (c :: rest) = (take? c pending).bind fun (found, next) =>
      (tokens? next rest).map (found ++ ·) := rfl

theorem tokens?_opening (rest : List Char) :
    tokens? .idle ('(' :: rest) = (tokens? .idle rest).map (.opening :: ·) := rfl

theorem tokens?_closing (rest : List Char) :
    tokens? .idle (')' :: rest) = (tokens? .idle rest).map (.closing :: ·) := rfl

theorem tokens?_comma (rest : List Char) :
    tokens? .idle (',' :: ' ' :: rest) = (tokens? .idle rest).map (.comma :: ·) := by
  cases h : tokens? .idle rest <;> simp [tokens?_cons, take?, start?, h]

theorem start?_of_startsWord {c : Char} (h : startsWord c = true) :
    start? c = some ([], .word [c]) := by
  have hmarks : [' ', '\'', '(', ')', ','].all (!startsWord ·) = true := by decide
  have hne : ∀ mark ∈ [' ', '\'', '(', ')', ','], c ≠ mark := by
    rintro mark hmark rfl
    have hc := List.all_eq_true.mp hmarks c hmark
    rw [h] at hc
    cases hc
  simp only [List.forall_mem_cons] at hne
  obtain ⟨hspace, hquote, hopening, hclosing, hcomma, -⟩ := hne
  simp only [start?, hspace, hquote, hopening, hclosing, hcomma, h, if_false, if_true]

/-- Characters of a word are taken into the pending one. -/
theorem tokens?_word_append {cs : List Char} (h : cs.all isWordChar = true)
    (taken rest : List Char) :
    tokens? (.word taken) (cs ++ rest) = tokens? (.word (cs.reverse ++ taken)) rest := by
  induction cs generalizing taken with
  | nil => rfl
  | cons c cs ih =>
      rw [List.all_cons, Bool.and_eq_true] at h
      obtain ⟨hc, hcs⟩ := h
      have hrest := ih hcs (c :: taken)
      rw [List.cons_append, tokens?_cons, take?, if_pos hc, Option.bind_some]
      simpa using hrest

/-- A word is complete when what follows is no part of it. -/
theorem tokens?_word_end (taken : List Char) {rest : List Char}
    (h : ∀ c ∈ rest.head?, isWordChar c = false) :
    tokens? (.word taken) rest = (tokens? .idle rest).map (.word taken.reverse :: ·) := by
  cases rest with
  | nil => rfl
  | cons c rest =>
      have hc : isWordChar c = false := h c rfl
      rw [tokens?_cons, tokens?_cons]
      simp only [take?, hc]
      cases start? c with
      | none => rfl
      | some found => simp [Option.map_map, Function.comp_def]

/-- A quote has ended its text when what follows is not another one. -/
theorem tokens?_quote_end (taken : List Char) {rest : List Char}
    (h : ∀ c ∈ rest.head?, c ≠ '\'') :
    tokens? (.quote taken) rest = (tokens? .idle rest).map (.text taken.reverse :: ·) := by
  cases rest with
  | nil => rfl
  | cons c rest =>
      have hc : c ≠ '\'' := h c rfl
      rw [tokens?_cons, tokens?_cons]
      simp only [take?, hc]
      cases start? c with
      | none => rfl
      | some found => simp [Option.map_map, Function.comp_def]

theorem tokens?_name {name : List Char} (hname : IsWord name) {rest : List Char}
    (hrest : ∀ c ∈ rest.head?, isWordChar c = false) :
    tokens? .idle (name ++ rest) = (tokens? .idle rest).map (.word name :: ·) := by
  obtain ⟨c, cs, rfl, hc, hcs⟩ := hname
  rw [List.cons_append, tokens?_cons, take?, start?_of_startsWord hc, Option.bind_some]
  simp only [tokens?_word_append hcs, tokens?_word_end _ hrest]
  simp [Function.comp_def]

/-- The name of a function and its bracket. -/
theorem tokens?_function {name : List Char} (hname : IsWord name) (rest : List Char) :
    tokens? .idle (name ++ '(' :: rest) =
      (tokens? .idle rest).map fun later => .word name :: .opening :: later := by
  have hmark : ∀ c ∈ ('(' :: rest).head?, isWordChar c = false := by
    simp only [List.head?_cons, Option.mem_some_iff, forall_eq']
    decide
  rw [tokens?_name hname hmark, tokens?_opening, Option.map_map]
  rfl

theorem tokens?_escaped (content taken rest : List Char) :
    tokens? (.text taken) (escaped content ++ '\'' :: rest) =
      tokens? (.quote (content.reverse ++ taken)) rest := by
  induction content generalizing taken with
  | nil => simp [escaped, tokens?_cons, take?]
  | cons c content ih =>
      have hrest := ih (c :: taken)
      simp only [escaped] at hrest ⊢
      by_cases hquote : c = '\''
      · rw [hquote] at hrest ⊢
        simpa [tokens?_cons, take?, Function.comp_def] using hrest
      · simpa [hquote, tokens?_cons, take?, Function.comp_def] using hrest

theorem tokens?_text (content : List Char) {rest : List Char}
    (h : ∀ c ∈ rest.head?, c ≠ '\'') :
    tokens? .idle ('\'' :: escaped content ++ ['\''] ++ rest) =
      (tokens? .idle rest).map (.text content :: ·) := by
  have hstart : take? '\'' .idle = some ([], .text []) := rfl
  simp only [List.cons_append, List.append_assoc, List.nil_append, tokens?_cons .idle, hstart,
    Option.bind_some, tokens?_escaped, tokens?_quote_end _ h]
  simp [Function.comp_def]

/-- What follows an expression: nothing, or a mark that ends it. -/
def Follows (rest : List Char) : Prop :=
  ∀ c ∈ rest.head?, c = ')' ∨ c = ','

theorem Follows.isWordChar {rest : List Char} (h : Follows rest) :
    ∀ c ∈ rest.head?, isWordChar c = false := by
  intro c hc
  rcases h c hc with rfl | rfl
  · decide
  · decide

theorem Follows.ne_quote {rest : List Char} (h : Follows rest) : ∀ c ∈ rest.head?, c ≠ '\'' := by
  intro c hc
  rcases h c hc with rfl | rfl
  · decide
  · decide

theorem follows_closing (rest : List Char) : Follows (')' :: rest) := by
  simp [Follows]

theorem follows_comma (rest : List Char) : Follows (',' :: rest) := by
  simp [Follows]

theorem isWord_functionName (f : TextFunction) : IsWord f.name := by
  cases f with
  | trim => exact ⟨'T', ['R', 'I', 'M'], by decide⟩
  | lower => exact ⟨'L', ['O', 'W', 'E', 'R'], by decide⟩

theorem isWord_replace : IsWord replaceName :=
  ⟨'R', ['E', 'P', 'L', 'A', 'C', 'E'], by decide⟩

/-- The text of an expression gives its tokens, whatever ends it. -/
theorem tokens?_print {e : Expression} (he : e.WellNamed) {rest : List Char}
    (hrest : Follows rest) :
    tokens? .idle (e.print ++ rest) = (tokens? .idle rest).map (e.tokens ++ ·) := by
  induction e generalizing rest with
  | column name => exact tokens?_name he hrest.isWordChar
  | text content => exact tokens?_text content hrest.ne_quote
  | apply f argument ih =>
      simp only [print, tokens, List.append_assoc, List.cons_append, List.nil_append]
      rw [tokens?_function (isWord_functionName f), ih he (follows_closing _), tokens?_closing,
        Option.map_map, Option.map_map]
      simp only [Function.comp_def]
  | replace inner sought put ihInner ihSought ihPut =>
      simp only [print, tokens, List.append_assoc, List.cons_append, List.nil_append]
      rw [tokens?_function isWord_replace, ihInner he.1 (follows_comma _), tokens?_comma,
        ihSought he.2.1 (follows_comma _), tokens?_comma, ihPut he.2.2 (follows_closing _),
        tokens?_closing]
      simp only [Option.map_map, Function.comp_def]

/-! ## Reading -/

/-- Where a reading stands when an expression has been read.  A word on its own may
still turn out to be the name of a function. -/
def after (frames : List Frame) : Expression → Reading
  | .column name => .named name frames
  | e => .complete e frames

theorem result?_after (e : Expression) : result? (after [] e) = some e := by
  cases e <;> rfl

theorem function?_name (f : TextFunction) : function? f.name = some (.argument f) := by
  cases f <;> decide

theorem function?_replaceName : function? replaceName = some .replaceInner := by
  decide

theorem foldlM_function {name : List Char} {frame : Frame} (h : function? name = some frame)
    (frames : List Frame) (later : List Token) :
    (.word name :: .opening :: later).foldlM next? (.due frames) =
      later.foldlM next? (.due (frame :: frames)) := by
  simp only [List.foldlM_cons, next?, h, Option.map_some, Option.bind_eq_bind, Option.bind_some]

/-- A mark other than an opening bracket settles that a word was a column. -/
theorem foldlM_mark {token : Token} (h : token ≠ .opening) (e : Expression)
    (frames : List Frame) (later : List Token) :
    (token :: later).foldlM next? (after frames e) =
      (proceed? e frames token).bind (later.foldlM next?) := by
  have hnext : next? (after frames e) token = proceed? e frames token := by
    cases e with
    | column name => cases token <;> first | rfl | exact absurd rfl h
    | text | apply | replace => rfl
  rw [List.foldlM_cons, hnext]
  rfl

/-- The tokens of an expression are read as that expression, whatever is open. -/
theorem foldlM_tokens (e : Expression) (frames : List Frame) (later : List Token) :
    (e.tokens ++ later).foldlM next? (.due frames) = later.foldlM next? (after frames e) := by
  have hcomma : Token.comma ≠ .opening := by decide
  have hclosing : Token.closing ≠ .opening := by decide
  induction e generalizing frames later with
  | column name => rfl
  | text content => rfl
  | apply f argument ih =>
      simp only [tokens, List.cons_append, List.append_assoc, List.nil_append]
      rw [foldlM_function (function?_name f), ih, foldlM_mark hclosing]
      rfl
  | replace inner sought put ihInner ihSought ihPut =>
      simp only [tokens, List.cons_append, List.append_assoc, List.nil_append]
      rw [foldlM_function function?_replaceName, ihInner, foldlM_mark hcomma]
      simp only [proceed?, Option.bind_some]
      rw [ihSought, foldlM_mark hcomma]
      simp only [proceed?, Option.bind_some]
      rw [ihPut, foldlM_mark hclosing]
      rfl

/-- An expression is read back from its text. -/
theorem read?_print {e : Expression} (h : e.WellNamed) : read? e.print = some e := by
  have htokens : tokens? .idle e.print = some e.tokens := by
    have hend : Follows [] := by simp [Follows]
    have hall := tokens?_print h hend
    rw [List.append_nil] at hall
    simpa [tokens?, last?] using hall
  have hreading : e.tokens.foldlM next? (.due []) = some (after [] e) := by
    have hall := foldlM_tokens e [] []
    rwa [List.append_nil] at hall
  simp only [read?, htokens, hreading, Option.bind_eq_bind, Option.bind_some, result?_after]

/-! ## Values -/

/-- Replacing a character by nothing leaves the others. -/
theorem replaceAll_singleton (mark : Char) (cs : List Char) :
    replaceAll [mark] [] cs = cs.filter (· != mark) := by
  have hfrom : replaceFrom [mark] [] 0 cs = cs.filter (· != mark) := by
    induction cs with
    | nil => rfl
    | cons c rest ih =>
        by_cases hc : c = mark
        · simp [replaceFrom, hc, ih]
        · have hc' : mark ≠ c := fun heq => hc heq.symm
          simp [replaceFrom, hc, hc', ih]
  exact hfrom

end Expression

/-! ## The expressions of a query -/

namespace Database

open Expression

/-- The expression of a column without the blanks around it and without case. -/
def foldedExpression (column : List Char) : Expression :=
  .apply .lower (.apply .trim (.column column))

/-- The expression whose value lacks a mark. -/
def withoutMarkExpression (e : Expression) (mark : Char) : Expression :=
  .replace e (.text [mark]) (.text [])

/-- The expression of a column that is compared with match keys. -/
def normalizedExpression (column : List Char) : Expression :=
  Text.matchPunctuation.foldl withoutMarkExpression (foldedExpression column)

theorem toList_foldedColumn (column : String) :
    (foldedColumn column).toList = (foldedExpression column.toList).print := by
  simp [foldedColumn, foldedExpression, print, TextFunction.name]

theorem toList_withoutMark {expression : String} {e : Expression}
    (h : expression.toList = e.print) (mark : Char) :
    (withoutMark expression mark).toList = (withoutMarkExpression e mark).print := by
  by_cases hquote : mark = '\''
  · simp [withoutMark, withoutMarkExpression, print, replaceName, escaped, hquote, h]
  · simp [withoutMark, withoutMarkExpression, print, replaceName, escaped, hquote, h]

/-- The text grows by one function for each mark, and so does the expression. -/
theorem toList_foldl_withoutMark (marks : List Char) {expression : String} {e : Expression}
    (h : expression.toList = e.print) :
    (marks.foldl withoutMark expression).toList = (marks.foldl withoutMarkExpression e).print := by
  induction marks generalizing expression e with
  | nil => exact h
  | cons mark marks ih => exact ih (toList_withoutMark h mark)

theorem toList_normalizedColumn (column : String) :
    (normalizedColumn column).toList = (normalizedExpression column.toList).print :=
  toList_foldl_withoutMark Text.matchPunctuation (toList_foldedColumn column)

theorem wellNamed_foldl {e : Expression} (h : e.WellNamed) (marks : List Char) :
    (marks.foldl withoutMarkExpression e).WellNamed := by
  induction marks generalizing e with
  | nil => exact h
  | cons mark marks ih => exact ih ⟨h, trivial, trivial⟩

/-- The functions take their marks away one after the other. -/
theorem value?_foldl {columns : List Char → Option (List Char)} {e : Expression}
    {cs : List Char} (h : e.value? columns = some cs) (marks : List Char) :
    (marks.foldl withoutMarkExpression e).value? columns = some (without marks cs) := by
  induction marks generalizing e cs with
  | nil => exact h
  | cons mark marks ih =>
      have hmark : (withoutMarkExpression e mark).value? columns =
          some (cs.filter (· != mark)) := by
        simp [withoutMarkExpression, value?, h, replaceAll_singleton]
      exact ih hmark

theorem value?_foldedExpression {columns : List Char → Option (List Char)}
    {column cs : List Char} (h : columns column = some cs) :
    (foldedExpression column).value? columns = some (folded cs) := by
  simp [foldedExpression, value?, h, folded, TextFunction.apply]

theorem isWord_name (a : Attribute) : IsWord a.name.toList := by
  cases a with
  | artist => exact ⟨'a', ['r', 't', 'i', 's', 't'], by decide⟩
  | title => exact ⟨'t', ['i', 't', 'l', 'e'], by decide⟩
  | album => exact ⟨'a', ['l', 'b', 'u', 'm'], by decide⟩
  | label => exact ⟨'l', ['a', 'b', 'e', 'l'], by decide⟩
  | genre => exact ⟨'g', ['e', 'n', 'r', 'e'], by decide⟩
  | mood => exact ⟨'m', ['o', 'o', 'd'], by decide⟩
  | language => exact ⟨'l', ['a', 'n', 'g', 'u', 'a', 'g', 'e'], by decide⟩

theorem columnText?_name (row : MediaRow) (a : Attribute) :
    columnText? row a.name.toList = some (attributeText row a).toList := by
  cases a <;> rfl

variable (row : MediaRow) (a : Attribute)

/-- The value of the column without case and punctuation is the stored key. -/
theorem evaluate?_normalizedColumn : evaluate? row (normalizedColumn a.name) =
    some (String.ofList (storedKey (attributeText row a).toList)) := by
  have hnamed : (normalizedExpression a.name.toList).WellNamed :=
    wellNamed_foldl (e := foldedExpression a.name.toList) (isWord_name a) Text.matchPunctuation
  have hvalue : (normalizedExpression a.name.toList).value? (columnText? row) =
      some (storedKey (attributeText row a).toList) :=
    value?_foldl (value?_foldedExpression (columnText?_name row a)) Text.matchPunctuation
  simp only [evaluate?, toList_normalizedColumn, read?_print hnamed, Option.bind_eq_bind,
    Option.bind_some, hvalue]
  rfl

end Database

end Rundown
