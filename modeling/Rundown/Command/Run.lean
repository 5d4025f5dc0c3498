import Rundown.Catalog.Library
import Rundown.Catalog.Order
import Rundown.Command.Arguments
import Rundown.Command.Location
import Rundown.Command.Session
import Rundown.Json.Writer
import Rundown.Listing
import Rundown.Preview
import Rundown.Record.Schedule
import Rundown.Record.Sequence
import Rundown.Settings

/-!
# Running a command

The settings are read first.  They may name a log file, which is there from then
on.  The start of the slot comes next if there is one, then the catalog and the
block.  The first thing that goes wrong ends the command with
a message; otherwise the sequences or schedules are printed, as text or as JSON.
-/

namespace Rundown.Command

/-- What a command is told about its surroundings. -/
structure Surroundings where
  environment : String → Option String
  /-- The directory of configuration files, if the platform has one. -/
  configDirectory : Option String
  /-- The year that counts as current. -/
  year : Int
  /-- The seed when none is given. -/
  clockSeed : Nat
  /-- The order in which a catalog serves its items. -/
  order : ItemOrder
  /-- Fresh identities for the entries of schedules. -/
  identity : Nat → String

/-- How a command ended: its exit code, what it printed, and what went wrong. -/
structure Outcome where
  code : Nat
  output : String
  message : Option String
  deriving DecidableEq, Inhabited

/-- A session that may end with a message. -/
abbrev Attempt := ExceptT String Session

/-- The name and the version of the command. -/
def nameAndVersion : String := "grimnir-sb 0.1.0"

/-- The configuration file in the directory of configuration files. -/
def standardPath (directory program : String) : String :=
  directory ++ "/grimnir/" ++ program ++ ".toml"

/-- The text of a file, if it can be read. -/
def askText (path : String) : Attempt (Option String) :=
  ExceptT.lift (Session.askText path .done)

/-- The database in a file. -/
def askDatabase (path : String) : Attempt DatabaseFile :=
  ExceptT.lift (Session.askDatabase path .done)

/-- How a file starts. -/
def askStart (path : String) : Attempt FileStart :=
  ExceptT.lift (Session.askStart path .done)

/-- See that a file is there. -/
def ensureFile (path : String) : Attempt Unit :=
  ExceptT.lift (Session.ensure path (.done ()))

/-- End with a message. -/
def fail {α : Type} (message : String) : Attempt α :=
  throw message

/-- Go on with a value, or end with a message. -/
def orFail {ε α : Type} (message : String) : Except ε α → Attempt α
  | .ok value => pure value
  | .error _ => fail message

/-- The settings in force. -/
def settings (s : Surroundings) (config : Option String) : Attempt Settings := do
  let standard := s.configDirectory.map fun directory => standardPath directory "grimnir-sb"
  match Settings.path? config (s.environment configVariable) (standard.getD "")
      standard.isSome with
  | none => pure Settings.default
  | some path => orFail "Failed to load configuration" (Settings.read (← askText path))

/-- The database in a file.  Its path may lead through what is not there, as long as
it leads back. -/
def databaseIn (path : String) : Attempt DatabaseFile := do
  let straight := Location.straight path
  match ← askDatabase path with
  | .sound content => pure (.sound content)
  | .damaged => pure .damaged
  | found => if straight = path then pure found else askDatabase straight

/-- The path of the journal of a database. -/
def journalPath (path : String) : String :=
  path ++ "-journal"

/-- A journal that starts like this holds a change that was broken off: only an empty
one and one whose start has been cleared hold none. -/
def FileStart.isBrokenOff : FileStart → Bool
  | .missing => false
  | .unreadable => true
  | .empty => false
  | .byte b => b != 0

/-- A database with a change that was broken off cannot be read, since the change
would have to be undone first. -/
def unlessBrokenOff (path : String) : DatabaseFile → Attempt DatabaseFile
  | .sound content => do
      let journal ← askStart (journalPath (Location.straight path))
      pure (if journal.isBrokenOff then .damaged else .sound content)
  | found => pure found

/-- The database that a path leads to.  There must be something at the path itself,
even when it leads elsewhere. -/
def databaseAt (path : String) : Attempt DatabaseFile := do
  match ← askDatabase path, Location.ofPath? path with
  | .missing, _ => pure .missing
  | _, none => pure .closed
  | _, some .transient => pure .damaged
  | found, some (.file target created) =>
      if target = path then unlessBrokenOff path found
      else
        if created then ensureFile (Location.straight target)
        unlessBrokenOff target (← databaseIn target)

/-- The catalog of a database file. -/
def databaseCatalog (s : Surroundings) (path : String) : Attempt Catalog := do
  match ← databaseAt path with
  | .sound content => pure (content.catalog.inOrder s.order)
  | .damaged => pure (Catalog.failing .damagedDatabase)
  | _ => fail ("Failed to open catalog " ++ path)

/-- The catalog of a library file. -/
def libraryCatalog (s : Surroundings) (path : String) : Attempt Catalog := do
  let library ← orFail ("Failed to load library " ++ path) (Library.read (← askText path))
  pure (library.catalog s.order)

/-- The catalog that is meant: a database before a library. -/
def catalog (s : Surroundings) (args : BlockArguments) (settings : Settings) : Attempt Catalog :=
  match args.database <|> settings.databasePath, args.library <|> settings.libraryPath with
  | some path, _ => databaseCatalog s path
  | none, some path => libraryCatalog s path
  | none, none =>
      fail "No catalog configured (--db, --library, or database_path/library_path in config)"

/-- The document in a file. -/
def documentIn (kind path : String) : Attempt Document := do
  match ← askText path with
  | none => fail ("Failed to read " ++ path)
  | some text => orFail ("Invalid " ++ kind ++ " file " ++ path) (Document.read text)

/-- The request that the arguments describe. -/
def request (args : BlockArguments) (c : Catalog) (station : String) (seed : Nat) :
    Attempt PreviewRequest :=
  match args.block, args.rules with
  | some id, _ => do
      match ← orFail ("Failed to load smart block " ++ id) (c.block? id) with
      | some block => pure (.ofBlock block station seed)
      | none => fail (BlockError.notFound id).message
  | none, none => fail "Either --block or --rules is required"
  | none, some path => do
      let rules ← documentIn "rules" path
      let sequence ←
        match args.sequence with
        | some path => documentIn "sequence" path
        | none => pure Document.empty
      pure ⟨none, station, rules, sequence, seed⟩

/-- The sequences of a block. -/
def sequences (s : Surroundings) (args : BlockArguments) (settings : Settings) :
    Attempt (List Sequence) := do
  match args.station <|> settings.station with
  | none => fail "No station given (--station or station_id in config)"
  | some station =>
      let c ← catalog s args settings
      let seed := (args.seed <|> settings.seed).getD s.clockSeed
      let count := max 1 (args.variants.getD settings.variants)
      let request ← request args c station seed
      orFail "Preview generation failed" (Preview.variants c s.year request count)

/-- Texts one after the other, each under its number when there are several. -/
def numbered (texts : List String) : String :=
  if texts.length ≤ 1 then String.join texts
  else
    String.join (texts.mapIdx fun index text =>
      "== Variant " ++ Text.natText (index + 1) ++ " ==\n" ++ text)

/-- Sequences as they are printed. -/
def previewText (json : Bool) (sequences : List Sequence) : String :=
  if json then (Json.arr (sequences.map Sequence.toJson)).pretty ++ "\n"
  else numbered (sequences.map Listing.text)

/-- The line of an entry of a schedule. -/
def entryLine (e : ScheduleEntry) : String :=
  e.startsAt.dateTimeText ++ "  " ++ e.endsAt.timeText ++ "  " ++
    (if e.isAd then "[AD] " else "") ++ e.media ++ "\n"

/-- Entries as records, with identities counted on from a number. -/
def entryRecords (identity : Nat → String) (first : Nat) (entries : List ScheduleEntry) : Json :=
  .arr (entries.mapIdx fun index e => e.toJson (identity (first + index)))

/-- Schedules as records, with an identity for each entry. -/
def scheduleRecords (identity : Nat → String) : Nat → List (List ScheduleEntry) → List Json
  | _, [] => []
  | first, entries :: rest =>
      entryRecords identity first entries ::
        scheduleRecords identity (first + entries.length) rest

/-- Schedules as they are printed. -/
def scheduleText (s : Surroundings) (json : Bool) (schedules : List (List ScheduleEntry)) :
    String :=
  if json then (Json.arr (scheduleRecords s.identity 0 schedules)).pretty ++ "\n"
  else numbered (schedules.map fun entries => String.join (entries.map entryLine))

/-- What a command prints. -/
def perform (s : Surroundings) (invocation : Invocation) : Attempt String := do
  let settings ← settings s invocation.config
  settings.logFile.forM ensureFile
  let args := invocation.arguments
  match invocation.action with
  | .preview => return previewText args.json (← sequences s args settings)
  | .materialize slotStart =>
      match Moment.read? slotStart with
      | none => fail ("Invalid --slot-start '" ++ slotStart ++ "'")
      | some start =>
          let found ← sequences s args settings
          return scheduleText s args.json (found.map fun sequence => sequence.schedule start)

/-- The session of a command. -/
def run (s : Surroundings) (words : List String) : Session Outcome :=
  match read s.environment words with
  | .error .misuse => .done ⟨2, "", none⟩
  | .error .help => .done ⟨0, "", none⟩
  | .error .version => .done ⟨0, nameAndVersion ++ "\n", none⟩
  | .ok invocation =>
      (perform s invocation).run.bind fun result =>
        match result with
        | .ok output => .done ⟨0, output, none⟩
        | .error message => .done ⟨1, "", some message⟩

end Rundown.Command
