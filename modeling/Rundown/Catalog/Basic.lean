import Rundown.Catalog.Block
import Rundown.Catalog.Query
import Rundown.Error

/-!
# Catalogs

A catalog answers queries for tracks and finds stored blocks.  Either may fail.
-/

namespace Rundown

/-- A source of tracks and blocks. -/
structure Catalog where
  /-- The tracks of a scope that meet a query. -/
  tracks : Scope → Query → Except CatalogError (List Track)
  /-- The block of an id, if there is one. -/
  block? : String → Except CatalogError (Option Block)

/-- The catalog that fails in the same way whatever is asked. -/
def Catalog.failing (cause : CatalogError) : Catalog :=
  ⟨fun _ _ => .error cause, fun _ => .error cause⟩

end Rundown
