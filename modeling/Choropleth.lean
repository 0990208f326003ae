import Choropleth.AreaType
import Choropleth.Batch.Basic
import Choropleth.Batch.Crew
import Choropleth.Batch.Generate
import Choropleth.Batch.Job
import Choropleth.Batch.Lists
import Choropleth.Batch.Lookup
import Choropleth.Batch.Run
import Choropleth.Batch.TileSpec
import Choropleth.Boundary.Document
import Choropleth.Boundary.Properties
import Choropleth.Breaks.Arranged
import Choropleth.Breaks.Basic
import Choropleth.Breaks.Classify
import Choropleth.Category
import Choropleth.Clustering.Classes
import Choropleth.Clustering.Grid
import Choropleth.Clustering.Scalar
import Choropleth.Clustering.Spread
import Choropleth.Condition.Basic
import Choropleth.Condition.Meaning
import Choropleth.Condition.Row
import Choropleth.Condition.Sql
import Choropleth.Crosstab
import Choropleth.Csv
import Choropleth.Digest
import Choropleth.Engine
import Choropleth.Exchange
import Choropleth.Files.Layout
import Choropleth.Files.Path
import Choropleth.Files.Replace
import Choropleth.Files.Tree
import Choropleth.Geometry.Exchange
import Choropleth.Geometry.Reading
import Choropleth.Geometry.Zone
import Choropleth.Intake
import Choropleth.Json.Basic
import Choropleth.Json.Decode
import Choropleth.Json.Numeral
import Choropleth.Json.Reader
import Choropleth.Json.Writer
import Choropleth.Keyed
import Choropleth.Main
import Choropleth.Number.Binary
import Choropleth.Number.Notation
import Choropleth.Number.Reading
import Choropleth.Number.Shortest
import Choropleth.Observation
import Choropleth.Proofs.Batch.Accounts
import Choropleth.Proofs.Batch.BreaksFiles
import Choropleth.Proofs.Batch.Endings
import Choropleth.Proofs.Batch.Interleaving
import Choropleth.Proofs.Batch.ResumedFiles
import Choropleth.Proofs.Batch.Resuming
import Choropleth.Proofs.Batch.Returning
import Choropleth.Proofs.Batch.Runs
import Choropleth.Proofs.Batch.Solo
import Choropleth.Proofs.Batch.TileTasks
import Choropleth.Proofs.Boundary.Properties
import Choropleth.Proofs.Breaks.AllOrNothing
import Choropleth.Proofs.Breaks.FreshScratch
import Choropleth.Proofs.Breaks.MetricSets
import Choropleth.Proofs.Breaks.Recording
import Choropleth.Proofs.Breaks.Reordering
import Choropleth.Proofs.Breaks.RowOrder
import Choropleth.Proofs.Breaks.Verdicts
import Choropleth.Proofs.Category
import Choropleth.Proofs.Clustering.Apart
import Choropleth.Proofs.Clustering.Ascending
import Choropleth.Proofs.Clustering.Cuts
import Choropleth.Proofs.Clustering.Deviations
import Choropleth.Proofs.Clustering.ExactSums
import Choropleth.Proofs.Clustering.FilledGrid
import Choropleth.Proofs.Clustering.Filling
import Choropleth.Proofs.Clustering.InBounds
import Choropleth.Proofs.Clustering.LeastCosts
import Choropleth.Proofs.Clustering.Optimal
import Choropleth.Proofs.Clustering.Partition
import Choropleth.Proofs.Clustering.Recurrence
import Choropleth.Proofs.Clustering.Values
import Choropleth.Proofs.Clustering.Vanishing
import Choropleth.Proofs.Condition.Binding
import Choropleth.Proofs.Condition.Denotes
import Choropleth.Proofs.Condition.Shapes
import Choropleth.Proofs.Condition.Sql
import Choropleth.Proofs.Condition.SqlTrees
import Choropleth.Proofs.Condition.SqlWords
import Choropleth.Proofs.Files.Creating
import Choropleth.Proofs.Files.Leftovers
import Choropleth.Proofs.Files.Paths
import Choropleth.Proofs.Files.Replacing
import Choropleth.Proofs.Files.Trees
import Choropleth.Proofs.Geometry.Boxes
import Choropleth.Proofs.Geometry.Envelopes
import Choropleth.Proofs.Geometry.Grammar
import Choropleth.Proofs.Geometry.WellKnownText
import Choropleth.Proofs.Geometry.ZoneText
import Choropleth.Proofs.Json.Canonical
import Choropleth.Proofs.Keyed
import Choropleth.Proofs.Number.Finite
import Choropleth.Proofs.Number.Interval
import Choropleth.Proofs.Number.Order
import Choropleth.Proofs.Number.ReadBack
import Choropleth.Proofs.Number.Values
import Choropleth.Proofs.Outcome
import Choropleth.Proofs.Query.Agreement
import Choropleth.Proofs.Query.Ceiling
import Choropleth.Proofs.Query.Cells
import Choropleth.Proofs.Query.Columns
import Choropleth.Proofs.Query.Quotients
import Choropleth.Proofs.Query.Tables
import Choropleth.Proofs.Query.WrittenTables
import Choropleth.Proofs.Request.Acceptance
import Choropleth.Proofs.Request.Accepted
import Choropleth.Proofs.Request.CanonicalText
import Choropleth.Proofs.Request.Identity
import Choropleth.Proofs.Request.Spelling
import Choropleth.Proofs.Request.Zones
import Choropleth.Proofs.Selection.Grammar
import Choropleth.Proofs.Selection.Parsing
import Choropleth.Proofs.Selection.RangeText
import Choropleth.Proofs.Selection.Readings
import Choropleth.Proofs.Service.Answers
import Choropleth.Proofs.Service.Cache
import Choropleth.Proofs.Service.History
import Choropleth.Proofs.Store.FailedAreas
import Choropleth.Proofs.Store.Growth
import Choropleth.Proofs.Store.Loads
import Choropleth.Proofs.Store.Statements
import Choropleth.Proofs.Text.Bytes
import Choropleth.Proofs.Text.Cutting
import Choropleth.Proofs.Text.Records
import Choropleth.QueryError
import Choropleth.Request.Breaks
import Choropleth.Request.Key
import Choropleth.Request.Params
import Choropleth.Request.Table
import Choropleth.Selection
import Choropleth.Service.Cache
import Choropleth.Service.Respond
import Choropleth.Service.Settings
import Choropleth.Service.Target
import Choropleth.Service.Toml
import Choropleth.Store.Basic
import Choropleth.Store.Host
import Choropleth.Store.Load
import Choropleth.Store.Scan
import Choropleth.Text.Blank
import Choropleth.Text.Hidden
import Choropleth.Text.Quoted
import Choropleth.Text.Split
import Choropleth.Text.Utf8
