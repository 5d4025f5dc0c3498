import Rundown.Document
import Rundown.Reckoning

/-!
# Errors

The ways in which a catalog or a block can fail, each with its wording.  A
catalog error is passed on unchanged by whatever needed the catalog.
-/

namespace Rundown

/-- One of the two documents of a block. -/
inductive DocumentPart where
  | rules
  | sequence
  deriving DecidableEq

/-- The name of a document in reports. -/
def DocumentPart.name : DocumentPart → String
  | rules => "rules"
  | sequence => "sequence"

/-- Why a catalog or a configuration cannot be read. -/
inductive CatalogError where
  /-- The database was closed. -/
  | closed
  /-- There is no database at the given place. -/
  | missingDatabase
  /-- The database file holds no catalog. -/
  | damagedDatabase
  /-- A file cannot be read. -/
  | unreadable
  /-- A configuration file does not follow its format. -/
  | badConfiguration
  /-- A library file does not follow its format. -/
  | malformedLibrary
  /-- A document of a stored block cannot be understood. -/
  | malformedBlock (block : String) (part : DocumentPart) (cause : DocumentError)

/-- The wording of a catalog error, as far as it is this library's own. -/
def CatalogError.message : CatalogError → String
  | closed => "Catalog database error: attempted to acquire a connection on a closed pool"
  | missingDatabase => "Catalog database not found"
  | damagedDatabase => "Catalog database error: file is not a database"
  | unreadable => "Failed to read"
  | badConfiguration => "Configuration error"
  | malformedLibrary => DocumentError.malformed.message
  | malformedBlock block part cause =>
      "Smart block " ++ block ++ " " ++ part.name ++ ": " ++ cause.message

/-- Why a block cannot be read or built. -/
inductive BlockError where
  /-- The catalog failed. -/
  | catalog (cause : CatalogError)
  /-- A submitted document cannot be understood. -/
  | invalidRules (cause : DocumentError)
  /-- A submitted field is not acceptable. -/
  | invalidForm (field reason : String)
  /-- There is no block of that name. -/
  | notFound (block : String)
  /-- The run of a variant broke off. -/
  | variant (cause : Overflow)

/-- The wording of a block error, as far as it is this library's own. -/
def BlockError.message : BlockError → String
  | catalog cause => cause.message
  | invalidRules cause => cause.message
  | invalidForm field reason => "Invalid form field '" ++ field ++ "': " ++ reason
  | notFound block => "Smart block not found: " ++ block
  | variant cause => "Variant generation failed: " ++ cause.message

end Rundown
