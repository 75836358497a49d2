import Stencil.Cache.Call
import Stencil.Cache.Recency
import Stencil.Cache.Store
import Stencil.Checked.Container
import Stencil.Checked.Template
import Stencil.Checked.Width
import Stencil.Error
import Stencil.Field.Basic
import Stencil.Field.Reader
import Stencil.Field.Rules
import Stencil.Field.Spelling
import Stencil.Locale
import Stencil.Number.Binary64
import Stencil.Number.Digits
import Stencil.Number.Digits.Lemmas
import Stencil.Number.Exponential
import Stencil.Number.Grouping
import Stencil.Number.Numeral
import Stencil.Number.Shortest
import Stencil.Number.Style
import Stencil.Number.Written
import Stencil.Options
import Stencil.Render.Arguments
import Stencil.Render.Container
import Stencil.Render.Container.Lemmas
import Stencil.Render.Nesting
import Stencil.Render.Scalar
import Stencil.Render.Template
import Stencil.Template.Basic
import Stencil.Template.Token
import Stencil.Text.Padding
import Stencil.Text.Printable
import Stencil.Text.Quoted
import Stencil.Value
import Stencil.Proofs.Cache.Indexes
import Stencil.Proofs.Cache.LeastRecent
import Stencil.Proofs.Cache.Sharing
import Stencil.Proofs.Cache.Transparency
import Stencil.Proofs.Checked.Container
import Stencil.Proofs.Checked.Scanning
import Stencil.Proofs.Checked.Template
import Stencil.Proofs.Checked.Width
import Stencil.Proofs.Field.Grammar
import Stencil.Proofs.Field.Oversized
import Stencil.Proofs.Field.Reading
import Stencil.Proofs.Field.References
import Stencil.Proofs.Number.Decimal
import Stencil.Proofs.Number.DecimalText
import Stencil.Proofs.Number.Exponential
import Stencil.Proofs.Number.Grouping
import Stencil.Proofs.Number.Magnitude
import Stencil.Proofs.Number.Nearest
import Stencil.Proofs.Number.Notation
import Stencil.Proofs.Number.Rounding
import Stencil.Proofs.Number.Shortest
import Stencil.Proofs.Number.Whole
import Stencil.Proofs.Render.Concatenation
import Stencil.Proofs.Render.Counts
import Stencil.Proofs.Render.Decimals
import Stencil.Proofs.Render.Depth
import Stencil.Proofs.Render.Hexadecimals
import Stencil.Proofs.Render.Interchange
import Stencil.Proofs.Render.Levels
import Stencil.Proofs.Render.Lossless
import Stencil.Proofs.Render.Numbering
import Stencil.Proofs.Render.References
import Stencil.Proofs.Render.SingleField
import Stencil.Proofs.Render.Wholes
import Stencil.Proofs.Render.ZeroFill
import Stencil.Proofs.Template.Scanning
import Stencil.Proofs.Render.Exponents
import Stencil.Proofs.Render.Independence
import Stencil.Proofs.Render.Mixing
import Stencil.Proofs.Render.Limit
import Stencil.Proofs.Template.Partners
import Stencil.Proofs.Render.Untyped
import Stencil.Proofs.Render.Widths
import Stencil.Proofs.Render.Rounded
import Stencil.Proofs.Number.Groups
import Stencil.Proofs.Template.Compiling
import Stencil.Proofs.Render.FirstFailure
import Stencil.Proofs.Render.SignedZero
import Stencil.Proofs.Render.Respelled
import Stencil.Proofs.Render.Localized
import Stencil.Proofs.Checked.Changes
import Stencil.Proofs.Render.Capitals
import Stencil.Proofs.Checked.Reached
