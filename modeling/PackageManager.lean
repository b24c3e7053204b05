import PackageManager.BuildGraph
import PackageManager.BuildGraph.Cycles
import PackageManager.Calendar
import PackageManager.Catalog
import PackageManager.Catalog.Journal
import PackageManager.Catalog.Table
import PackageManager.DependencySet
import PackageManager.Document.Datum
import PackageManager.Document.Decode
import PackageManager.Document.Json
import PackageManager.Document.Toml
import PackageManager.Document.Toml.Quoted
import PackageManager.Document.Toml.Scalar
import PackageManager.Document.Toml.Tree
import PackageManager.Fault
import PackageManager.Fault.Document
import PackageManager.Fault.Kind
import PackageManager.Files.Path
import PackageManager.Files.Store
import PackageManager.Files.Temporary
import PackageManager.Graph.DepthFirst
import PackageManager.Graph.Digraph
import PackageManager.Graph.TopologicalOrder
import PackageManager.ImportPlan
import PackageManager.ImportPlan.Errands
import PackageManager.Interval
import PackageManager.Interval.SplitMap
import PackageManager.Ordered.Map
import PackageManager.Ordered.Set
import PackageManager.Package.Dependency
import PackageManager.Package.Id
import PackageManager.Package.Local
import PackageManager.Package.Specifier
import PackageManager.Project.Import
import PackageManager.Project.Manifest
import PackageManager.Project.Settings
import PackageManager.Project.Target
import PackageManager.Registry.Client
import PackageManager.Registry.Documents
import PackageManager.Registry.Download
import PackageManager.Registry.Location
import PackageManager.Registry.Lookup
import PackageManager.Registry.Network
import PackageManager.Registry.Session
import PackageManager.Registry.Staging
import PackageManager.Registry.Status
import PackageManager.Requirement
import PackageManager.Selector
import PackageManager.Text.Blank
import PackageManager.Text.Cut
import PackageManager.Text.Decimal
import PackageManager.Text.Utf8
import PackageManager.Text.Visible
import PackageManager.Timestamp
import PackageManager.Url.Basic
import PackageManager.Url.FilePath
import PackageManager.Url.Host
import PackageManager.Url.Parser
import PackageManager.Url.Percent
import PackageManager.Version
import PackageManager.Version.Parser
import PackageManager.Proofs.Traversal
import PackageManager.Proofs.Ordered.Size
import PackageManager.Proofs.Graph.DepthFirst
import PackageManager.Proofs.Graph.TopologicalOrder
import PackageManager.Proofs.Interval.Apart
import PackageManager.Proofs.Interval.SplitMap
import PackageManager.Proofs.Interval.Insertions
import PackageManager.Proofs.Interval.Counts
import PackageManager.Proofs.Interval.Bounds
import PackageManager.Proofs.BuildGraph.Cycles
import PackageManager.Proofs.BuildGraph.Dependencies
import PackageManager.Proofs.BuildGraph.Order
import PackageManager.Proofs.BuildGraph.References
import PackageManager.Proofs.BuildGraph.Records
import PackageManager.Proofs.DependencySet.Declarations
import PackageManager.Proofs.DependencySet.Resolution
import PackageManager.Proofs.DependencySet.Coherence
import PackageManager.Proofs.DependencySet.Refusals
import PackageManager.Proofs.Selector.Bookkeeping
import PackageManager.Proofs.Selector.DirectRequests
import PackageManager.Proofs.Selector.InstallOrder
import PackageManager.Proofs.Selector.Journal
import PackageManager.Proofs.Selector.Provenance
import PackageManager.Proofs.Selector.Termination
import PackageManager.Proofs.Selector.Reach
import PackageManager.Proofs.Selector.FirstDrain
import PackageManager.Proofs.Selector.Turns
import PackageManager.Proofs.Selector.RequestOrder
import PackageManager.Proofs.Files.Path
import PackageManager.Proofs.Package.Parts
import PackageManager.Proofs.Package.Ids
import PackageManager.Proofs.Package.FileName
import PackageManager.Proofs.Url.Login
import PackageManager.Proofs.Url.Authority
import PackageManager.Proofs.Package.Url
import PackageManager.Proofs.Package.UrlIdentity
import PackageManager.Proofs.Registry.Downloads
import PackageManager.Proofs.Files.Store
import PackageManager.Proofs.Registry.SharedFiles
import PackageManager.Proofs.Selector.Attribution
import PackageManager.Proofs.Selector.Labels
import PackageManager.Proofs.Selector.Failures
import PackageManager.Proofs.ImportPlan
import PackageManager.Proofs.Registry.LocationFallback
import PackageManager.Proofs.Text.Blanks
import PackageManager.Proofs.Calendar
import PackageManager.Proofs.Timestamp
import PackageManager.Proofs.Timestamp.Writing
import PackageManager.Proofs.Registry.LocationCache
import PackageManager.Proofs.Version.Order
import PackageManager.Proofs.Version.Text
import PackageManager.Proofs.Requirement.Meaning
import PackageManager.Proofs.Requirement.Grammar
import PackageManager.Proofs.Ordered.Edits
import PackageManager.Proofs.Files.Temporary
import PackageManager.Proofs.Registry.Staging
import PackageManager.Proofs.ImportPlan.Downloads
import PackageManager.Proofs.Registry.Outcomes
import PackageManager.Proofs.Url.Files
import PackageManager.Proofs.Url.Segments
import PackageManager.Proofs.Url.Relative
import PackageManager.Proofs.Registry.Places
import PackageManager.Proofs.Catalog.Table
import PackageManager.Proofs.ImportPlan.Names
import PackageManager.Proofs.Document.Json
import PackageManager.Proofs.Document.Decode
import PackageManager.Proofs.Project.Manifest
