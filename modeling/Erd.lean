import Erd.Main
import Erd.Proofs.Grammar.Reading
import Erd.Toml.Reader
import Erd.Workspace
import Erd.Decimal.Scaling
import Erd.Interchange
import Erd.Token.Json
import Erd.Proofs.Grammar.Yielding
import Erd.Proofs.Decimal.Magnitude
import Erd.Proofs.Schema.Canonical
import Erd.Proofs.Grammar.Image
import Erd.Proofs.Decimal.Nearest
import Erd.Proofs.Decimal.Positional
import Erd.Proofs.Token.Spelling
import Erd.Proofs.Decimal.RoundTrip
import Erd.Proofs.Grammar.Call
import Erd.Proofs.Grammar.Default
import Erd.Proofs.Grammar.Written
import Erd.Proofs.Grammar.ReadBack
import Erd.Proofs.Grammar.RoundTrip
import Erd.Proofs.Grammar.Unreadable
import Erd.Proofs.Schema.Equality
import Erd.Proofs.Grammar.Reprint
import Erd.Proofs.Geometry.Exact
import Erd.Proofs.Layering.Layers
import Erd.Proofs.Layering.Rows
import Erd.Proofs.Layout.Separation
import Erd.Proofs.Diagram.Linked
import Erd.Proofs.Layering.Chains
import Erd.Proofs.Layout.Flow
import Erd.Proofs.Grammar.Lookahead
import Erd.Proofs.Grammar.Steps
import Erd.Proofs.Grammar.Predictive
import Erd.Proofs.Grammar.FirstError
import Erd.Proofs.Schema.Append
import Erd.Proofs.Token.Joined
import Erd.Proofs.Grammar.Concatenation
import Erd.Proofs.Schema.Matching
import Erd.Proofs.Schema.Changes
import Erd.Proofs.Schema.Versions
import Erd.Proofs.Diagram.Structure
import Erd.Proofs.Layout.Structure
import Erd.Proofs.Geometry.Symmetry
import Erd.Proofs.Diagram.Image
import Erd.Proofs.Layout.Turns
import Erd.Proofs.Layout.Directions
import Erd.Proofs.Grammar.Spacing
import Erd.Proofs.Layering.LongestPaths
import Erd.Proofs.Layering.Boundaries
import Erd.Proofs.Layout.Levels
import Erd.Proofs.Layout.Ways
import Erd.Proofs.Json.Record
import Erd.Proofs.Schema.Defaults
import Erd.Proofs.Schema.Encoding
import Erd.Proofs.Diagram.Encoding
import Erd.Proofs.Layering.Barycenters
import Erd.Proofs.Layout.Framing
import Erd.Proofs.Token.Cover
import Erd.Proofs.Diagram.Bounds
import Erd.Proofs.Diagram.ForeignKeys
import Erd.Proofs.Schema.Report
import Erd.Proofs.Grammar.Progress
import Erd.Proofs.Grammar.SettingOrder
import Erd.Proofs.Command.Given
import Erd.Proofs.Layout.Registry
import Erd.Proofs.Command.Run
import Erd.Proofs.Grammar.Literal
import Erd.Proofs.Geometry.Region
import Erd.Proofs.Diagram.Rearranged
