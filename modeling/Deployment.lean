import Deployment.Main
import Deployment.Proofs.Context.Locals
import Deployment.Proofs.Context.Order
import Deployment.Proofs.Draft.Binding
import Deployment.Proofs.Draft.Entrywise
import Deployment.Proofs.Draft.Staging
import Deployment.Proofs.Draft.Survival
import Deployment.Proofs.Evaluation.Dependence
import Deployment.Proofs.Plan.Depth
import Deployment.Proofs.Plan.Limits
import Deployment.Proofs.Plan.Regions
import Deployment.Proofs.Plan.Separation
import Deployment.Proofs.Plan.Uniqueness
import Deployment.Proofs.Syntax.Embedding
import Deployment.Proofs.Syntax.Faithful
import Deployment.Proofs.Syntax.Precedence
import Deployment.Proofs.Syntax.Restoring
import Deployment.Proofs.Document.Declarations
import Deployment.Proofs.Document.Dynamic
import Deployment.Proofs.Context.Rounds
import Deployment.Proofs.Context.Cycle
import Deployment.Proofs.Instance.Gate
import Deployment.Proofs.Instance.Iteration
import Deployment.Proofs.Syntax.Interpolated
import Deployment.Proofs.Config.Literal
import Deployment.Proofs.Evaluation.Finite
import Deployment.Proofs.Number.Integers
import Deployment.Proofs.Number.Order
import Deployment.Proofs.Syntax.Decoding
import Deployment.Proofs.Syntax.Positions
import Deployment.Proofs.Config.Keys
import Deployment.Proofs.Document.NestedBlocks
import Deployment.Proofs.Config.PlainData
import Deployment.Proofs.Draft.Readable
import Deployment.Proofs.Instance.Failures
import Deployment.Proofs.Syntax.Closing
import Deployment.Proofs.Syntax.Reconstruction
import Deployment.Proofs.Syntax.Faults
import Deployment.Proofs.Syntax.Scanning
import Deployment.Proofs.Syntax.Nesting
import Deployment.Proofs.Syntax.Locations
