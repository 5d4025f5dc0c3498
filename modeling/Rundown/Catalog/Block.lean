import Rundown.Document

/-!
# Stored blocks

A block as a catalog keeps it: what it is called and its two documents.
-/

namespace Rundown

/-- A stored block. -/
structure Block where
  id : String
  name : String
  description : String
  rules : Document
  sequence : Document
  deriving Inhabited

end Rundown
