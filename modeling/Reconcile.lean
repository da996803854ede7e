import Reconcile.Export
import Reconcile.Importer
import Reconcile.Workflow
import Reconcile.Proofs.Attempt
import Reconcile.Proofs.Ordered
import Reconcile.Proofs.Acceptance
import Reconcile.Proofs.Rules
import Reconcile.Proofs.Catalog
import Reconcile.Proofs.References
import Reconcile.Proofs.Synthesis
import Reconcile.Proofs.Patch
import Reconcile.Proofs.Edges
import Reconcile.Proofs.Merging
import Reconcile.Proofs.Course
import Reconcile.Proofs.Completion
import Reconcile.Proofs.Validation
import Reconcile.Proofs.Emission
import Reconcile.Proofs.Workflow
import Reconcile.Proofs.Gate
import Reconcile.Proofs.MergedJars
import Reconcile.Proofs.MergedPackages
import Reconcile.Proofs.MergeLinks
import Reconcile.Proofs.Descriptors
import Reconcile.Proofs.Dependencies
import Reconcile.Proofs.Directives
import Reconcile.Proofs.ExactReport
import Reconcile.Proofs.Requirements
import Reconcile.Proofs.RequiredModules
import Reconcile.Proofs.Statistics
import Reconcile.Proofs.DanglingTargets
import Reconcile.Proofs.States
import Reconcile.Proofs.Frozen
import Reconcile.Proofs.Exports
import Reconcile.Proofs.Relisting
import Reconcile.Proofs.ListingOrder
import Reconcile.Proofs.Documents
import Reconcile.Proofs.RuleOrder
import Reconcile.Proofs.Locality
import Reconcile.Proofs.Canonical
import Reconcile.Proofs.Archives
import Reconcile.Proofs.Explicit
import Reconcile.Proofs.EdgePhases
import Reconcile.Proofs.Folding
import Reconcile.Proofs.MergeOrder
import Reconcile.Proofs.SplitPackages
import Reconcile.Proofs.Loading
import Reconcile.Proofs.Identities
import Reconcile.Proofs.Halves
import Reconcile.Proofs.RoundTrip
import Reconcile.Proofs.DerivedNames
import Reconcile.Proofs.Manifests
import Reconcile.Proofs.Packages
import Reconcile.Proofs.NameForm
import Reconcile.Proofs.Additions
import Reconcile.Proofs.FileSeries
