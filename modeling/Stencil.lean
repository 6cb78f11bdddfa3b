import Stencil.Workspace
import Stencil.Expr.Text
import Stencil.Expr.Data
import Stencil.Proofs.Awaiting
import Stencil.Proofs.Determinism
import Stencil.Proofs.Refinement
import Stencil.Proofs.Alongside
import Stencil.Proofs.Standing
import Stencil.Proofs.Conduct
import Stencil.Proofs.Asynchrony
import Stencil.Proofs.Replay
import Stencil.Proofs.Construction
import Stencil.Proofs.Rejections
import Stencil.Proofs.Folding
import Stencil.Proofs.Reregistration
import Stencil.Proofs.Concatenation
import Stencil.Proofs.Histories
import Stencil.Proofs.Fallback
import Stencil.Proofs.Frames
import Stencil.Proofs.Contexts
import Stencil.Proofs.Interpolation
import Stencil.Proofs.Escaping
import Stencil.Proofs.Trimming
import Stencil.Proofs.Shapes
import Stencil.Proofs.Inlining
import Stencil.Proofs.Rounds
import Stencil.Proofs.Choices
import Stencil.Proofs.Tiling
import Stencil.Proofs.Separators
import Stencil.Proofs.Scoping
import Stencil.Proofs.Lowering
import Stencil.Proofs.Composition
import Stencil.Proofs.Seams
import Stencil.Proofs.Comments
import Stencil.Proofs.Faults
import Stencil.Proofs.Printing
import Stencil.Proofs.Visible
import Stencil.Proofs.Unfolded
import Stencil.Proofs.Reductions
import Stencil.Proofs.Coercion
import Stencil.Proofs.Handover
