import RouteScaffold.FileSystem.Disk
import RouteScaffold.Main
import RouteScaffold.Proofs.Artifact.Address
import RouteScaffold.Proofs.Artifact.Closed
import RouteScaffold.Proofs.Artifact.Dependence
import RouteScaffold.Proofs.Artifact.Derived
import RouteScaffold.Proofs.Artifact.Distinct
import RouteScaffold.Proofs.Artifact.Emitted
import RouteScaffold.Proofs.Artifact.Inputs
import RouteScaffold.Proofs.Artifact.Keys
import RouteScaffold.Proofs.Artifact.Labels
import RouteScaffold.Proofs.Artifact.Submitted
import RouteScaffold.Proofs.Offset.Readings
import RouteScaffold.Proofs.Route.Anchors
import RouteScaffold.Proofs.Run.Accepted
import RouteScaffold.Proofs.Run.Confined
import RouteScaffold.Proofs.Run.History
import RouteScaffold.Proofs.Run.Repeated
import RouteScaffold.Proofs.Run.Watched
import RouteScaffold.Proofs.Run.Wiring
import RouteScaffold.Proofs.Source.Aligned
import RouteScaffold.Proofs.Source.Commented
import RouteScaffold.Proofs.Source.Contents
import RouteScaffold.Proofs.Source.Heads
import RouteScaffold.Proofs.Source.QuotedKeys
import RouteScaffold.Proofs.Source.Regexes
import RouteScaffold.Proofs.Source.Uncalled
import RouteScaffold.Proofs.Store.Account
import RouteScaffold.Proofs.Store.Enumerated
import RouteScaffold.Proofs.Store.Overlaid
