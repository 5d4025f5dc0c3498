import Rundown.Catalog.Basic
import Rundown.Catalog.Block
import Rundown.Catalog.Cell
import Rundown.Catalog.Database
import Rundown.Catalog.Library
import Rundown.Catalog.Numeral
import Rundown.Catalog.Order
import Rundown.Catalog.Query
import Rundown.Command.Arguments
import Rundown.Command.FileUri
import Rundown.Command.Location
import Rundown.Command.Run
import Rundown.Command.Session
import Rundown.Decimal.Binary
import Rundown.Decimal.Extended
import Rundown.Decimal.Reader
import Rundown.Decimal.Shortest
import Rundown.Document
import Rundown.Duration
import Rundown.Error
import Rundown.Form
import Rundown.Json.Basic
import Rundown.Json.Lenient
import Rundown.Json.Reader
import Rundown.Json.Shape
import Rundown.Json.Writer
import Rundown.Listing
import Rundown.Main
import Rundown.Plan.Basic
import Rundown.Plan.Normalize
import Rundown.Pools
import Rundown.Preview
import Rundown.Random.Identity
import Rundown.Random.Shuffle
import Rundown.Random.Stream
import Rundown.Reckoning
import Rundown.Record.Schedule
import Rundown.Record.Sequence
import Rundown.Record.Track
import Rundown.Schedule.Basic
import Rundown.Schedule.Moment
import Rundown.Sequence.Build
import Rundown.Sequence.Choice
import Rundown.Sequence.Fill
import Rundown.Sequence.Placement
import Rundown.Sequence.Score
import Rundown.Sequence.State
import Rundown.Sequence.Times
import Rundown.Sequence.Trim
import Rundown.Settings
import Rundown.Storage.Bytes
import Rundown.Storage.Columns
import Rundown.Storage.Content
import Rundown.Storage.Pages
import Rundown.Storage.Row
import Rundown.Table
import Rundown.Text.Blank
import Rundown.Text.CaseTable
import Rundown.Text.Lowercase
import Rundown.Text.MatchKey
import Rundown.Text.Numeral
import Rundown.Text.Percent
import Rundown.Toml.Reader
import Rundown.Toml.Scalar
import Rundown.Toml.Tables
import Rundown.Track
import Rundown.Proofs.Choice
import Rundown.Proofs.Growth
import Rundown.Proofs.Layout
import Rundown.Proofs.Trim
import Rundown.Proofs.Finish
import Rundown.Proofs.History
import Rundown.Proofs.Tolerance
import Rundown.Proofs.DurationBound
import Rundown.Proofs.Separation
import Rundown.Proofs.Emptiness
import Rundown.Proofs.Turns
import Rundown.Proofs.Repetition
import Rundown.Proofs.Breaks
import Rundown.Proofs.Gathering
import Rundown.Proofs.Binary64
import Rundown.Proofs.ScoreOrder
import Rundown.Proofs.Lockstep
import Rundown.Proofs.Reordering
import Rundown.Proofs.RepeatedPool
import Rundown.Proofs.Variants
import Rundown.Proofs.PrintableText
import Rundown.Proofs.CatalogAgreement
import Rundown.Proofs.PlanFields
import Rundown.Proofs.Provenance
import Rundown.Proofs.Isolation
import Rundown.Proofs.Labels
import Rundown.Proofs.WholeNumbers
import Rundown.Proofs.SoundPlan
import Rundown.Proofs.Overlay
import Rundown.Proofs.FormPlan
import Rundown.Proofs.Recency
import Rundown.Proofs.Ceilings
import Rundown.Proofs.Relaxation
import Rundown.Proofs.Times
import Rundown.Proofs.Overflow
import Rundown.Proofs.Selection
import Rundown.Proofs.RoundRobin
import Rundown.Proofs.Standstill
import Rundown.Proofs.Phases
import Rundown.Proofs.BestRemoval
import Rundown.Proofs.FallbackPool
import Rundown.Proofs.FirstFailure
import Rundown.Proofs.PoolFailures
import Rundown.Proofs.Acceptance
import Rundown.Proofs.Unsubmitted
import Rundown.Catalog.Expression
import Rundown.Proofs.Expressions
import Rundown.Proofs.Lowering
import Rundown.Proofs.Punctuation
import Rundown.Proofs.StoredKeys
import Rundown.Proofs.SwitchedOff
import Rundown.Proofs.Gapless
import Rundown.Proofs.TieBreaking
import Rundown.Proofs.Termination
import Rundown.Proofs.ClockText
