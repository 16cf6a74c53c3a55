import Stencil.CommandLine.Arguments
import Stencil.CommandLine.Help
import Stencil.CommandLine.Run
import Stencil.Config.Profile
import Stencil.Decimal.Double
import Stencil.Decimal.Shortest
import Stencil.Dict
import Stencil.Engine.Environment
import Stencil.Engine.Evaluate
import Stencil.Engine.Failure
import Stencil.Engine.Host
import Stencil.Engine.Loader
import Stencil.Engine.Render
import Stencil.Engine.Settings
import Stencil.Engine.Summary
import Stencil.Files.Basic
import Stencil.Files.Path
import Stencil.Files.Tree
import Stencil.Json.Reader
import Stencil.Json.Writer
import Stencil.Main
import Stencil.Number
import Stencil.Override.Chain
import Stencil.Override.Extension
import Stencil.Override.Fault
import Stencil.Override.Hook
import Stencil.Override.Provider
import Stencil.Override.Routing
import Stencil.Syntax.Cursor
import Stencil.Syntax.Expr
import Stencil.Syntax.Fault
import Stencil.Syntax.Grammar
import Stencil.Syntax.Item
import Stencil.Syntax.Lexeme
import Stencil.Syntax.Report
import Stencil.Syntax.Scan
import Stencil.Syntax.Token
import Stencil.Template.Assembly
import Stencil.Template.Outline
import Stencil.Template.Pass
import Stencil.Template.TextMerge
import Stencil.Template.Tree
import Stencil.Text.Blank
import Stencil.Text.Combining
import Stencil.Text.Cursor
import Stencil.Text.Quoted
import Stencil.Text.Span
import Stencil.Text.Unprintable
import Stencil.Text.Width
import Stencil.Toml.Draft
import Stencil.Toml.Fault
import Stencil.Toml.Reader
import Stencil.Toml.Scalar
import Stencil.Toml.Value
import Stencil.Value
import Stencil.Proofs.Definitions
import Stencil.Proofs.Run
import Stencil.Proofs.Comparisons
import Stencil.Proofs.Unfolding
import Stencil.Proofs.Hosts
import Stencil.Proofs.Passes
import Stencil.Proofs.Compiled
import Stencil.Proofs.Dictionaries
import Stencil.Proofs.Engines
import Stencil.Proofs.Unbounded
import Stencil.Proofs.Termination
import Stencil.Proofs.Inheritance
import Stencil.Proofs.InPlace
import Stencil.Proofs.Lowering
import Stencil.Proofs.Failures
import Stencil.Proofs.Embeds
import Stencil.Proofs.Direct
import Stencil.Proofs.Routed
import Stencil.Proofs.Hooks
import Stencil.Proofs.Overriding
import Stencil.Proofs.EmptyChain
import Stencil.Proofs.Aborting
import Stencil.Proofs.Purity
import Stencil.Proofs.Renderings
import Stencil.Proofs.Current
import Stencil.Proofs.Sessions
import Stencil.Proofs.Derivations
import Stencil.Proofs.Readings
import Stencil.Proofs.Soundness
import Stencil.Proofs.Completeness
import Stencil.Proofs.Parts
import Stencil.Proofs.Bytes
import Stencil.Proofs.Layout
import Stencil.Proofs.Spellings
import Stencil.Proofs.Writing
import Stencil.Proofs.Uncached
import Stencil.Proofs.Likeness
import Stencil.Proofs.Acceptance
import Stencil.Proofs.Aliasing
import Stencil.Proofs.Joints
import Stencil.Proofs.Nesting
import Stencil.Proofs.Swapping
import Stencil.Proofs.Terms
import Stencil.Proofs.Moving
import Stencil.Proofs.Sparing
import Stencil.Proofs.Extraction
import Stencil.Proofs.Extracted
import Stencil.Proofs.Pairings
import Stencil.Proofs.Merging
import Stencil.Proofs.Relaxing
import Stencil.Proofs.Unmentioned
import Stencil.Proofs.Snapshots
import Stencil.Proofs.Violations
import Stencil.Proofs.Placement
import Stencil.Proofs.Numbering
import Stencil.Proofs.Refusals
import Stencil.Proofs.Places
import Stencil.Proofs.Correspondences
import Stencil.Proofs.Forgiving
import Stencil.Proofs.Rounds
import Stencil.Proofs.Repeating
import Stencil.Proofs.Sites
import Stencil.Proofs.Confinement
import Stencil.Proofs.Availability
import Stencil.Proofs.Extents
import Stencil.Proofs.Faithful
import Stencil.Proofs.Rejections
import Stencil.Proofs.Literals
import Stencil.Proofs.Locations
import Stencil.Proofs.Commented
import Stencil.Proofs.Splitting
import Stencil.Proofs.Pipelines
import Stencil.Proofs.Invocations
import Stencil.Proofs.Profiles
import Stencil.Proofs.NormalForms
import Stencil.Proofs.Priorities
import Stencil.Proofs.Interchange
import Stencil.Proofs.Visits
import Stencil.Proofs.Editors
import Stencil.Proofs.Walks
