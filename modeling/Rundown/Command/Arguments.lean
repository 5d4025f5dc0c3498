import Rundown.Text.Numeral
import Rundown.Text.Blank

/-!
# Arguments of the command line

A command is given by words: options with or without a value, and the name of
what is to be done.  Some options can also be set in the environment, which
counts only when the option is not given.  Words that make no command are
refused, in the order in which they are met.
-/

namespace Rundown.Command

/-- Why no command is run. -/
inductive Refusal where
  /-- The words make no command. -/
  | misuse
  /-- Help was asked for. -/
  | help
  /-- The version was asked for. -/
  | version
  deriving DecidableEq

/-- What an option takes. -/
inductive Takes where
  /-- The path of a file, which is not empty. -/
  | path
  /-- Any text. -/
  | text
  /-- A number of 64 bits without a sign. -/
  | number
  /-- Nothing: the option is given or not. -/
  | nothing
  /-- Nothing: the command ends here. -/
  | refusal (r : Refusal)

/-- An option that a command knows. -/
structure Spec where
  name : String
  letter : Option Char
  takes : Takes
  /-- The variable of the environment that stands in for it. -/
  environmentName : Option String

/-- Options that were given, with their values. -/
abbrev Given := List (String × String)

/-- The greatest number of 64 bits without a sign. -/
def greatestNumber : Nat := 18446744073709551615

/-- A number of 64 bits without a sign; a plus may stand before it. -/
def number? (s : String) : Option Nat :=
  let digits :=
    match s.toList with
    | '+' :: rest => rest
    | cs => cs
  if digits.isEmpty || !digits.all Text.isDigit then none
  else (some (Text.digitsValue digits)).filter (· ≤ greatestNumber)

/-- The value is acceptable for an option. -/
def Takes.accepts : Takes → String → Bool
  | path, value => !value.isEmpty
  | text, _ => true
  | number, value => (number? value).isSome
  | nothing, _ => true
  | refusal _, _ => true

/-- Note a value of an option, which may be given once only. -/
def note (given : Given) (spec : Spec) (value : String) : Except Refusal Given :=
  if (given.any (·.1 == spec.name)) || !spec.takes.accepts value then .error .misuse
  else .ok (given ++ [(spec.name, value)])

/-- A word that starts with a hyphen and is more than one is no value. -/
def isOption (word : String) : Bool :=
  match word.toList with
  | '-' :: _ :: _ => true
  | _ => false

/-- Give an option its value: the one attached to it, or the next word. -/
def takeValue (given : Given) (spec : Spec) (attached : Option String) (rest : List String) :
    Except Refusal (Given × List String) :=
  match spec.takes, attached, rest with
  | .refusal r, none, _ => .error r
  | .nothing, none, _ => do .ok (← note given spec "", rest)
  | .refusal _, some _, _ => .error .misuse
  | .nothing, some _, _ => .error .misuse
  | _, some value, _ => do .ok (← note given spec value, rest)
  | _, none, value :: after =>
      if isOption value then .error .misuse else do .ok (← note given spec value, after)
  | _, none, [] => .error .misuse

/-- The text before an equals sign, and the text after it if there is one. -/
def splitEquals (cs : List Char) : String × Option String :=
  let name := cs.takeWhile (· != '=')
  match cs.drop name.length with
  | _ :: value => (String.ofList name, some (String.ofList value))
  | [] => (String.ofList name, none)

/-- Read a cluster of option letters; the first one that takes a value takes the
rest of the cluster. -/
def readLetters (specs : List Spec) (rest : List String) :
    List Char → Given → Except Refusal (Given × List String)
  | [], given => .ok (given, rest)
  | letter :: more, given =>
      match specs.find? fun spec => spec.letter == some letter with
      | none => .error .misuse
      | some spec =>
          match spec.takes with
          | .refusal r => .error r
          | .nothing => do readLetters specs rest more (← note given spec "")
          | _ =>
              let attached :=
                match more with
                | [] => none
                | '=' :: value => some (String.ofList value)
                | value => some (String.ofList value)
              takeValue given spec attached rest

/-- Read options up to the first other word, of at most `fuel` words.  The result
holds that word and those after it. -/
def readOptions (specs : List Spec) :
    Nat → List String → Given → Except Refusal (Given × List String)
  | 0, words, given => .ok (given, words)
  | _ + 1, [], given => .ok (given, [])
  | fuel + 1, word :: rest, given =>
      match word.toList with
      | ['-', '-'] => if rest.isEmpty then .ok (given, []) else .error .misuse
      | '-' :: '-' :: long =>
          let (name, attached) := splitEquals long
          match specs.find? (·.name == name) with
          | none => .error .misuse
          | some spec => do
              let (given, rest) ← takeValue given spec attached rest
              readOptions specs fuel rest given
      | '-' :: letter :: letters => do
          let (given, rest) ← readLetters specs rest (letter :: letters) given
          readOptions specs fuel rest given
      | _ => .ok (given, word :: rest)

/-- The value of an option, if it was given. -/
def value? (given : Given) (name : String) : Option String :=
  List.lookup name given

/-- Add what the environment sets and the words do not. -/
def fillIn (environment : String → Option String) (specs : List Spec) (given : Given) :
    Except Refusal Given :=
  specs.foldlM
    (fun given spec =>
      match spec.environmentName.bind environment with
      | some value =>
          if (value? given spec.name).isSome then .ok given else note given spec value
      | none => .ok given)
    given

/-! ## The commands -/

/-- The option for a configuration file, known everywhere. -/
def configSpec : Spec := ⟨"config", some 'c', .path, none⟩

/-- The option for help, known everywhere. -/
def helpSpec : Spec := ⟨"help", some 'h', .refusal .help, none⟩

/-- The options before the name of what is to be done. -/
def commonSpecs : List Spec :=
  [configSpec, helpSpec, ⟨"version", some 'V', .refusal .version, none⟩]

/-- The options of a block. -/
def blockSpecs : List Spec :=
  [configSpec, helpSpec,
    ⟨"db", none, .path, some "GRIMNIR_DB"⟩,
    ⟨"library", none, .path, some "GRIMNIR_LIBRARY"⟩,
    ⟨"station", none, .text, some "GRIMNIR_STATION"⟩,
    ⟨"block", none, .text, none⟩,
    ⟨"rules", none, .path, none⟩,
    ⟨"sequence", none, .path, none⟩,
    ⟨"seed", none, .number, none⟩,
    ⟨"variants", none, .number, none⟩,
    ⟨"json", none, .nothing, none⟩]

/-- The options of a block with a start. -/
def slotSpecs : List Spec :=
  blockSpecs ++ [⟨"slot-start", none, .text, none⟩]

/-- The variable of the environment that names the configuration file. -/
def configVariable : String := "GRIMNIR_CONFIG"

/-- The variables of the environment that a command may ask for. -/
def environmentNames : List String :=
  configVariable :: slotSpecs.filterMap (·.environmentName)

/-- Where a block comes from and how it is shown. -/
structure BlockArguments where
  database : Option String
  library : Option String
  station : Option String
  block : Option String
  rules : Option String
  sequence : Option String
  seed : Option Nat
  variants : Option Nat
  json : Bool
  deriving Inhabited

/-- What is to be done. -/
inductive Action where
  /-- List a block. -/
  | preview
  /-- List a block that starts at a given moment. -/
  | materialize (slotStart : String)
  deriving DecidableEq

/-- A command. -/
structure Invocation where
  config : Option String
  action : Action
  arguments : BlockArguments

/-- The arguments of a block among the options that were given. -/
def blockArguments (given : Given) : BlockArguments where
  database := value? given "db"
  library := value? given "library"
  station := value? given "station"
  block := value? given "block"
  rules := value? given "rules"
  sequence := value? given "sequence"
  seed := (value? given "seed").bind number?
  variants := (value? given "variants").bind number?
  json := (value? given "json").isSome

/-- Read the words after the name of what is to be done. -/
def readBlock (environment : String → Option String) (specs : List Spec) (words : List String) :
    Except Refusal Given := do
  let (given, rest) ← readOptions specs (words.length + 1) words []
  if !rest.isEmpty then .error .misuse
  else
    let given ← fillIn environment specs given
    if (value? given "block").isSome && (value? given "rules").isSome then .error .misuse
    else .ok given

/-- Read the words of a command. -/
def read (environment : String → Option String) (words : List String) :
    Except Refusal Invocation := do
  let (common, rest) ← readOptions commonSpecs (words.length + 1) words []
  let configOf := fun given => value? given "config" <|> value? common "config"
  match rest with
  | "preview" :: words => do
      let given ← readBlock environment blockSpecs words
      .ok ⟨configOf given, .preview, blockArguments given⟩
  | "materialize" :: words => do
      let given ← readBlock environment slotSpecs words
      match value? given "slot-start" with
      | some start => .ok ⟨configOf given, .materialize start, blockArguments given⟩
      | none => .error .misuse
  | ["help"] => .error .help
  | ["help", name] =>
      .error (if name = "preview" || name = "materialize" || name = "help" then .help else .misuse)
  | _ => .error .misuse

end Rundown.Command
