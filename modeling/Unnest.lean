import Unnest.Build.Run
import Unnest.Host.Bare
import Unnest.Tree.Draft
import Unnest.Tree.Outline
import Unnest.Host.Digest
import Unnest.Host.Utility.Checksum
import Unnest.Proofs.Analysis.Discipline
import Unnest.Proofs.Analysis.Environments
import Unnest.Proofs.Analysis.Hidden
import Unnest.Proofs.Analysis.Names
import Unnest.Proofs.Lowering.Complete
import Unnest.Proofs.Lowering.Construction
import Unnest.Proofs.Lowering.Evaluated
import Unnest.Proofs.Lowering.References
import Unnest.Proofs.Lowering.Locals
import Unnest.Proofs.Lowering.Paths
import Unnest.Proofs.Scope.Flattening
import Unnest.Proofs.Sessions
import Unnest.Proofs.Analysis.Reports
import Unnest.Proofs.Analysis.Resolutions
import Unnest.Proofs.Analysis.Roster
import Unnest.Proofs.Scope.Propagation
import Unnest.Proofs.Scope.Tables
import Unnest.Proofs.Types.Unfolding
import Unnest.Proofs.Lowering.Initials
import Unnest.Proofs.Analysis.Annotations
import Unnest.Proofs.Analysis.Written
import Unnest.Proofs.Lowering.Parens
import Unnest.Proofs.Code.Constants
