import Stencil.Main
import Stencil.Render.Canvas
import Stencil.Template.Outline
import Stencil.Proofs.Expr.Image
import Stencil.Proofs.Loader.Transparency
import Stencil.Proofs.Markup.Partition
import Stencil.Proofs.Template.Derivation
import Stencil.Proofs.Expr.Grammar
import Stencil.Proofs.Expr.Precedence
import Stencil.Proofs.Value.Repr
import Stencil.Proofs.Markup.Printing
import Stencil.Proofs.Render.Trace
import Stencil.Proofs.Render.Attribution
import Stencil.Proofs.Template.Offence
import Stencil.Proofs.Loader.Session
import Stencil.Proofs.Render.Sharing
import Stencil.Proofs.Disk.Confinement
import Stencil.Proofs.Loader.Insertion
import Stencil.Proofs.Render.Resolution
import Stencil.Proofs.Render.Mention
import Stencil.Proofs.Value.Arithmetic
import Stencil.Proofs.Loader.Recency
import Stencil.Proofs.Loader.Failure
import Stencil.Proofs.Value.Sorting
import Stencil.Proofs.Value.Slices
import Stencil.Proofs.Render.Binding
import Stencil.Proofs.Render.Unpacking
import Stencil.Proofs.Markup.Tightness
import Stencil.Proofs.Disk.Aliases
import Stencil.Proofs.Render.Branching
import Stencil.Proofs.Template.Excerpt
import Stencil.Proofs.Value.Range
import Stencil.Proofs.Value.Searching
import Stencil.Proofs.Text.Entity
import Stencil.Proofs.Value.Views
import Stencil.Proofs.Expr.Viable
import Stencil.Proofs.Project.Discovery
import Stencil.Proofs.Project.Checking
import Stencil.Proofs.Value.Pairing
import Stencil.Proofs.Value.Equality
import Stencil.Proofs.Render.Overlay
import Stencil.Proofs.Expr.Integer
