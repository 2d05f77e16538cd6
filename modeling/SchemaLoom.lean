import SchemaLoom.Build
import SchemaLoom.Cache
import SchemaLoom.CommandLine
import SchemaLoom.Configuration.Basic
import SchemaLoom.Configuration.Loading
import SchemaLoom.Context
import SchemaLoom.Decimal.Binary64
import SchemaLoom.Decimal.Notation
import SchemaLoom.Decimal.Shortest
import SchemaLoom.Dependencies
import SchemaLoom.Diagnostic
import SchemaLoom.Directive
import SchemaLoom.Discovery
import SchemaLoom.Docs.Correlation
import SchemaLoom.Docs.Page
import SchemaLoom.Docs.Site
import SchemaLoom.Error
import SchemaLoom.FieldExpansion
import SchemaLoom.FileSystem
import SchemaLoom.FileSystem.Difference
import SchemaLoom.Import
import SchemaLoom.Json.Basic
import SchemaLoom.Json.Equality
import SchemaLoom.Json.Reader
import SchemaLoom.Json.Shape
import SchemaLoom.Json.Writer
import SchemaLoom.Layout
import SchemaLoom.Location
import SchemaLoom.Log
import SchemaLoom.Main
import SchemaLoom.Ordered
import SchemaLoom.Path.Basic
import SchemaLoom.Path.Lexical
import SchemaLoom.Program
import SchemaLoom.Proofs.Affected
import SchemaLoom.Proofs.Cache
import SchemaLoom.Proofs.Configuration.Roots
import SchemaLoom.Proofs.Context
import SchemaLoom.Proofs.Dependencies
import SchemaLoom.Proofs.Dependencies.Closure
import SchemaLoom.Proofs.Dependencies.History
import SchemaLoom.Proofs.Diagnostic
import SchemaLoom.Proofs.Diagnostic.History
import SchemaLoom.Proofs.Directive
import SchemaLoom.Proofs.Discovery.Entries
import SchemaLoom.Proofs.Discovery.Nearest
import SchemaLoom.Proofs.Discovery.Reached
import SchemaLoom.Proofs.DistinctKeys
import SchemaLoom.Proofs.Docs.Addresses
import SchemaLoom.Proofs.Docs.Declared
import SchemaLoom.Proofs.Docs.Filling
import SchemaLoom.Proofs.Docs.Rows
import SchemaLoom.Proofs.Docs.Tables
import SchemaLoom.Proofs.Expansion.Basic
import SchemaLoom.Proofs.Expansion.Deferred
import SchemaLoom.Proofs.Expansion.Found
import SchemaLoom.Proofs.Expansion.Layer
import SchemaLoom.Proofs.Expansion.Outcomes
import SchemaLoom.Proofs.Expansion.Pending
import SchemaLoom.Proofs.Expansion.Reindexing
import SchemaLoom.Proofs.Expansion.Relocation
import SchemaLoom.Proofs.Expansion.Run
import SchemaLoom.Proofs.Expansion.Shift
import SchemaLoom.Proofs.Expansion.Standing
import SchemaLoom.Proofs.FileSystem.Growth
import SchemaLoom.Proofs.FileSystem.Making
import SchemaLoom.Proofs.FileSystem.Reading
import SchemaLoom.Proofs.FileSystem.Similar
import SchemaLoom.Proofs.FileSystem.Standing
import SchemaLoom.Proofs.FileSystem.Widening
import SchemaLoom.Proofs.FileSystem.Writing
import SchemaLoom.Proofs.Import.Arguments
import SchemaLoom.Proofs.Import.Spelling
import SchemaLoom.Proofs.Import.WellFormed
import SchemaLoom.Proofs.Json.Compact
import SchemaLoom.Proofs.Json.Escaping
import SchemaLoom.Proofs.Json.Order
import SchemaLoom.Proofs.Json.ReadBack
import SchemaLoom.Proofs.Json.Rewriting
import SchemaLoom.Proofs.Layout
import SchemaLoom.Proofs.Location
import SchemaLoom.Proofs.Ordered
import SchemaLoom.Proofs.Path.Characters
import SchemaLoom.Proofs.Path.Components
import SchemaLoom.Proofs.Path.Lexical
import SchemaLoom.Proofs.Path.Names
import SchemaLoom.Proofs.Path.Order
import SchemaLoom.Proofs.Path.Places
import SchemaLoom.Proofs.Path.Relative
import SchemaLoom.Proofs.Path.Shortest
import SchemaLoom.Proofs.Reference.Integrity
import SchemaLoom.Proofs.Reference.Missing
import SchemaLoom.Proofs.Reference.Permission
import SchemaLoom.Proofs.Reference.RoundTrip
import SchemaLoom.Proofs.Reference.Tokens
import SchemaLoom.Proofs.Resolution
import SchemaLoom.Proofs.Session.Agreement
import SchemaLoom.Proofs.Session.Apart
import SchemaLoom.Proofs.Session.Appending
import SchemaLoom.Proofs.Session.Branches
import SchemaLoom.Proofs.Session.Compiles
import SchemaLoom.Proofs.Session.Confinement
import SchemaLoom.Proofs.Session.Coupling
import SchemaLoom.Proofs.Session.Footprint
import SchemaLoom.Proofs.Session.Gathering
import SchemaLoom.Proofs.Session.Generation
import SchemaLoom.Proofs.Session.Inputs
import SchemaLoom.Proofs.Session.Internal
import SchemaLoom.Proofs.Session.Isolation
import SchemaLoom.Proofs.Session.Latest
import SchemaLoom.Proofs.Session.Locality
import SchemaLoom.Proofs.Session.Lockstep
import SchemaLoom.Proofs.Session.Lookups
import SchemaLoom.Proofs.Session.Memo
import SchemaLoom.Proofs.Session.Once
import SchemaLoom.Proofs.Session.Outputs
import SchemaLoom.Proofs.Session.Pages
import SchemaLoom.Proofs.Session.Reach
import SchemaLoom.Proofs.Session.Repetition
import SchemaLoom.Proofs.Session.Reports
import SchemaLoom.Proofs.Session.Requests
import SchemaLoom.Proofs.Session.Residue
import SchemaLoom.Proofs.Session.Run
import SchemaLoom.Proofs.Session.Settled
import SchemaLoom.Proofs.Session.Standalone
import SchemaLoom.Proofs.Session.Steady
import SchemaLoom.Proofs.Session.Targets
import SchemaLoom.Proofs.Session.Termination
import SchemaLoom.Proofs.Session.Transparency
import SchemaLoom.Proofs.Session.Uniform
import SchemaLoom.Proofs.Session.UpToDate
import SchemaLoom.Proofs.Session.Upheld
import SchemaLoom.Proofs.Session.Visits
import SchemaLoom.Proofs.Session.Widening
import SchemaLoom.Proofs.Session.Writing
import SchemaLoom.Proofs.Substitution.Passes
import SchemaLoom.Proofs.Substitution.Simultaneous
import SchemaLoom.Proofs.Substitution.Trees
import SchemaLoom.Proofs.Template
import SchemaLoom.Proofs.Text.Replacement
import SchemaLoom.Proofs.Text.Trimming
import SchemaLoom.Proofs.Watch.Absent
import SchemaLoom.Proofs.Watch.Arrival
import SchemaLoom.Proofs.Watch.Batches
import SchemaLoom.Proofs.Watch.Deletion
import SchemaLoom.Proofs.Watch.Delivery
import SchemaLoom.Proofs.Watch.Departure
import SchemaLoom.Proofs.Watch.Dependents
import SchemaLoom.Proofs.Watch.Incremental
import SchemaLoom.Proofs.Watch.Intake
import SchemaLoom.Proofs.Watch.Membership
import SchemaLoom.Proofs.Watch.Mirroring
import SchemaLoom.Proofs.Watch.Poisoning
import SchemaLoom.Proofs.Watch.Project
import SchemaLoom.Proofs.Watch.Reach
import SchemaLoom.Proofs.Watch.Rebuilding
import SchemaLoom.Proofs.Watch.Selection
import SchemaLoom.Proofs.Watch.Ticks
import SchemaLoom.Proofs.Yaml.Conversion
import SchemaLoom.Reference
import SchemaLoom.Reference.Resolution
import SchemaLoom.Registry
import SchemaLoom.Session.Basic
import SchemaLoom.Session.Batch
import SchemaLoom.Session.Compile
import SchemaLoom.Session.Imports
import SchemaLoom.Session.Splicing
import SchemaLoom.Substitution
import SchemaLoom.Template
import SchemaLoom.Text.Blank
import SchemaLoom.Text.Hidden
import SchemaLoom.Text.Printable
import SchemaLoom.Text.Search
import SchemaLoom.Toml.Reader
import SchemaLoom.Toml.Value
import SchemaLoom.Watch.Category
import SchemaLoom.Watch.Guard
import SchemaLoom.Watch.Loop
import SchemaLoom.Watch.Polling
import SchemaLoom.Yaml.Cell
import SchemaLoom.Yaml.Conversion
import SchemaLoom.Yaml.Lexer
import SchemaLoom.Yaml.Node
import SchemaLoom.Yaml.Scalar
import SchemaLoom.Yaml.Tag
import SchemaLoom.Yaml.Token
import SchemaLoom.Yaml.Value
