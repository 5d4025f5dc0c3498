import Rundown.Pools
import Rundown.Random.Stream
import Rundown.Sequence.Times

/-!
# Previews

A preview gathers the pools of a block once and builds one or more variants from
them, each with coins of its own.  The variants may be finished in any order;
they are returned in the order of their seeds.  If the run of a variant breaks
off, the whole preview fails.
-/

namespace Rundown

/-- What to preview. -/
structure PreviewRequest where
  /-- The block that is built, so that a fallback to it can be passed over. -/
  block : Option String
  station : String
  rules : Document
  sequence : Document
  seed : Nat
  deriving Inhabited

/-- The request for a stored block. -/
def PreviewRequest.ofBlock (b : Block) (station : String) (seed : Nat) : PreviewRequest :=
  ⟨some b.id, station, b.rules, b.sequence, seed⟩

namespace Preview

/-- The seed of a variant; seeds are numbers of 64 bits and wrap around. -/
def variantSeed (seed index : Nat) : Nat :=
  (seed + index) % Random.seedCount

/-- One variant, unless its run breaks off. -/
def variant (plan : Plan) (pools : Pools) (seed index : Nat) : Except Overflow Sequence :=
  (Sequence.tryBuild plan pools (Random.coins (variantSeed seed index))).map (·.1)

/-- Finished variants in the order of their indices. -/
def inOrder (finished : List (Nat × Sequence)) : List Sequence :=
  (finished.mergeSort fun a b => a.1 ≤ b.1).map (·.2)

/-- The variants that were finished in a given order, unless the run of one of them
breaks off. -/
def collect (plan : Plan) (pools : Pools) (seed : Nat) (order : List Nat) :
    Except Overflow (List Sequence) := do
  let finished ← order.mapM fun index => return (index, ← variant plan pools seed index)
  return inOrder finished

/-- So many variants of a request. -/
def variants (c : Catalog) (year : Int) (request : PreviewRequest) (count : Nat) :
    Except BlockError (List Sequence) :=
  let plan := Plan.ofDocuments request.rules request.sequence year
  match c.pools request.station year plan request.block with
  | .error cause => .error (.catalog cause)
  | .ok pools => (collect plan pools request.seed (List.range count)).mapError .variant

/-- One sequence for a request. -/
def single (c : Catalog) (year : Int) (request : PreviewRequest) : Except BlockError Sequence :=
  let plan := Plan.ofDocuments request.rules request.sequence year
  match c.pools request.station year plan request.block with
  | .error cause => .error (.catalog cause)
  | .ok pools => (variant plan pools request.seed 0).mapError .variant

/-- One sequence for a stored block. -/
def ofBlock (c : Catalog) (year : Int) (block station : String) (seed : Nat) :
    Except BlockError Sequence :=
  match c.block? block with
  | .error cause => .error (.catalog cause)
  | .ok none => .error (.notFound block)
  | .ok (some b) => single c year (.ofBlock b station seed)

end Preview

end Rundown
