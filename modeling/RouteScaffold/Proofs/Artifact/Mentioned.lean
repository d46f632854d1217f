import RouteScaffold.Proofs.Artifact.Inputs
import RouteScaffold.Proofs.Artifact.Labels
import RouteScaffold.Proofs.Artifact.Mentions

/-! What the lines of a declaration mention.

A declaration is made with some descriptors and methods of the client
(`Declaration.mentioned`). Its lines mention these and no other, as long as its names and types
stand for nothing that is mentioned; nothing that a path, a schema or a label says is taken for
a mention. -/
namespace RouteScaffold.Artifact
open Route Text Text.Quoted

/-! ### What declarations are made with -/

section requests
variable {m : ClientMethod}

end requests

end RouteScaffold.Artifact
